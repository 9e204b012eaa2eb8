/-
Building again what is remembered.

What a builder remembers can be built again, and gives the same: by induction on the memory, since its entries were
made from older ones. Only names can come out differently.
- `interface_rebuilt`, `aggregate_rebuilt`: a builder that remembers less than a grounded memory succeeds on every
  element of that memory.
-/
import HeaderModel.Proofs.Bodies

namespace HeaderModel

/-! ## Paths of underway elements -/

/-- elements that are being built inside each other, with the levels that are left -/
structure Document.Path (d : Document) (path : List NodeId) (levels : Nat) : Prop where
  nodup : path.Nodup
  known : ∀ i ∈ path, i < d.nodes.size
  levels : levels + path.length = d.nodes.size + 1

namespace Document.Path

variable {d : Document} {path : List NodeId} {levels : Nat} {i : NodeId}

theorem start (d : Document) : d.Path [] (d.nodes.size + 1) := ⟨.nil, by simp, rfl⟩

/-- an element cannot be inside itself, so the levels never run out -/
theorem levels_ne_zero (hp : d.Path path levels) : levels ≠ 0 := by
  intro h
  have hsub : path ⊆ List.range d.nodes.size := fun i hi => List.mem_range.2 (hp.known i hi)
  have hlen : path.length ≤ (List.range d.nodes.size).length := (hp.nodup.subperm hsub).length_le
  have hsum := hp.levels
  rw [List.length_range] at hlen
  omega

theorem cons (hp : d.Path path (levels + 1)) (hnew : i ∉ path) (hi : i < d.nodes.size) :
    d.Path (i :: path) levels := by
  refine ⟨List.nodup_cons.2 ⟨hnew, hp.nodup⟩, fun j hj => ?_, ?_⟩
  · rcases List.mem_cons.1 hj with rfl | hj
    · exact hi
    · exact hp.known j hj
  · have hsum := hp.levels
    rw [List.length_cons]
    omega

end Document.Path

/-- elements on the way from a root to another element, each of which needs the ones after it -/
structure Document.Way (d : Document) (needs : NodeId → NodeId → Prop) (root : NodeId) (path : List NodeId)
    (levels : Nat) (i : NodeId) : Prop where
  nested : d.Path path levels
  before : ∀ u ∈ path, Relation.TransGen needs u i
  reached : Relation.ReflTransGen needs root i

namespace Document.Way

variable {d : Document} {needs : NodeId → NodeId → Prop} {root : NodeId} {path : List NodeId} {levels : Nat}
  {i j : NodeId}

theorem start (d : Document) (needs : NodeId → NodeId → Prop) (root : NodeId) :
    d.Way needs root [] (d.nodes.size + 1) root := ⟨.start d, fun _ hu => absurd hu List.not_mem_nil, .refl⟩

theorem step (hw : d.Way needs root path (levels + 1) i) (hnew : i ∉ path) (hi : i < d.nodes.size)
    (hij : needs i j) : d.Way needs root (i :: path) levels j := by
  refine ⟨hw.nested.cons hnew hi, fun u hu => ?_, hw.reached.tail hij⟩
  rcases List.mem_cons.1 hu with rfl | hu
  · exact .single hij
  · exact (hw.before u hu).tail hij

end Document.Way

/-! ## Taking a memory apart -/

section Memory

variable {α : Type} {memory : List (NodeId × α)} {path : List NodeId} {i j : NodeId} {a : α}

theorem recallFrom_cons (hij : i ≠ j) : recallFrom ((j, a) :: memory) i = recallFrom memory i := by
  rw [recallFrom, List.lookup_cons, beq_false_of_ne hij]
  rfl

theorem recallFrom_head (c : Builder) : c.run (recallFrom ((i, a) :: memory) i) = (.ok a, c) := by
  rw [recallFrom, List.lookup_cons_self]
  rfl

theorem Apart.notMem (hp : Apart ((i, a) :: memory) path) : i ∉ path := by
  intro hi
  have hn := hp i hi
  rw [List.lookup_cons_self] at hn
  cases hn

theorem Apart.tail (hp : Apart ((i, a) :: memory) path) : Apart memory path := by
  intro u hu
  have hn := hp u hu
  have hui : u ≠ i := fun h => hp.notMem (h ▸ hu)
  rwa [List.lookup_cons, beq_false_of_ne hui] at hn

end Memory

/-! ## Interfaces -/

namespace Builder

/-- all interfaces that the builder remembers are in a memory -/
structure InterfacesCovered (h : Headers) (memory : List (NodeId × Interface)) (path : List NodeId) (b : Builder) :
    Prop where
  underway : b.underway = path
  sound : b.InterfacesSound h
  covered : ∀ i a, b.interfaces.lookup i = some a → memory.lookup i = some a

theorem InterfacesCovered.concluding {h : Headers} {memory : List (NodeId × Interface)} {path : List NodeId}
    {b : Builder} {i : NodeId} {a : Interface} (hb : b.InterfacesCovered h memory (i :: path))
    (hi : memory.lookup i = some a) (hsound : (b.concluding i a).InterfacesSound h) :
    (b.concluding i a).InterfacesCovered h memory path := by
  refine ⟨?_, hsound, fun j a' hj => ?_⟩
  · show b.underway.erase i = path
    rw [hb.underway]
    exact List.erase_cons_head ..
  · by_cases hji : j = i
    · subst hji
      rw [Builder.concluding, List.lookup_cons_self] at hj
      exact hj ▸ hi
    · rw [Builder.concluding, List.lookup_cons, beq_false_of_ne hji] at hj
      exact hb.covered j a' hj

end Builder

/-- **A remembered interface can be built again,** and gives the same. -/
theorem interface_rebuilt {h : Headers} {memory older : List (NodeId × Interface)}
    (hm : Grounded (MadeInterface h) memory) (ho : Grounded (MadeInterface h) older) (hs : older <:+ memory)
    {path : List NodeId} {levels : Nat} (hp : h.document.Path path levels) (hapart : Apart older path) (i : NodeId) :
    Build.InStep True (fun _ b => b.InterfacesCovered h memory path) Eq (recallFrom older i)
      (Build.interfaceWithin h levels i) := by
  induction ho generalizing path levels i with
  | nil => exact fun _ _ _ => .lenient trivial
  | @cons older j a ho hnew hmade ih =>
    have hs' : older <:+ memory := (List.suffix_cons ..).trans hs
    by_cases hij : i = j
    · subst hij
      obtain ⟨levels, rfl⟩ := Nat.exists_eq_succ_of_ne_zero hp.levels_ne_zero
      have hi : memory.lookup i = some a := hm.lookup_of_suffix hs List.lookup_cons_self
      have hbody : Build.InStep True (fun _ b => b.InterfacesCovered h memory (i :: path)) Eq
          (Build.interfaceBody h (recallFrom older) (h.document.node i))
          (Build.interfaceBody h (Build.interfaceWithin h levels) (h.document.node i)) :=
        Build.interfaceBody_inStep
          (fun _ _ _ hR => ⟨hR.underway, ⟨hR.sound.grounded, hR.sound.unfinished⟩, hR.covered⟩)
          fun j hj => ih hs' (hp.cons hapart.notMem (Document.lt_size_of_listsBase hj)) (hapart.tail.cons hnew) j
      intro c b hb
      have hsound := (Build.interfaceWithin_recounts (levels + 1) i b hb.sound).1
      rw [recallFrom_head]
      rw [Builder.run_interfaceWithin] at hsound ⊢
      cases hl : b.interfaces.lookup i with
      | some a' => exact .ok (Option.some.inj (hi.symm.trans (hb.covered i a' hl))) hb
      | none =>
        have hib : i ∉ b.underway := hb.underway ▸ hapart.notMem
        simp only [hl, hib, if_false] at hsound ⊢
        have hagree := hbody c (b.claiming i) ⟨congrArg (i :: ·) hb.underway, hb.sound.claiming hl, hb.covered⟩
        have hok := hmade c
        generalize c.run (Build.interfaceBody h (recallFrom older) (h.document.node i)) = p at hagree hok
        generalize (b.claiming i).run (Build.interfaceBody h (Build.interfaceWithin h levels) (h.document.node i)) = q
          at hagree hsound ⊢
        cases hagree with
        | ok heq hR =>
          cases hok
          subst heq
          exact .ok rfl (hR.concluding hi hsound)
        | error _ => cases hok
        | lenient _ => cases hok
    · rw [recallFrom_cons hij]
      exact ih hs' hp hapart.tail i

/-! ## Aggregates -/

/-- two names that an element can get -/
def Document.Names (d : Document) (i : NodeId) (s s' : String) : Prop := d.NameOf i s ∧ d.NameOf i s'

namespace Builder

/-- all aggregates that the builder remembers are in a memory, with other names perhaps -/
structure AggregatesCovered (h : Headers) (memory : List (NodeId × Aggregate)) (path : List NodeId) (b : Builder) :
    Prop where
  underway : b.underway = path
  sound : b.AggregatesSound h
  covered : ∀ i a', b.aggregates.lookup i = some a' →
    ∃ a, memory.lookup i = some a ∧ a.Alike h.document.Names i a'

theorem AggregatesCovered.finishing {h : Headers} {memory : List (NodeId × Aggregate)} {path : List NodeId}
    {b : Builder} {i : NodeId} {a a' : Aggregate} {outer : Option Build.Enclosing} {mark : Nat}
    (hb : b.AggregatesCovered h memory (i :: path)) (hi : memory.lookup i = some a)
    (ha : a.Alike h.document.Names i a') (hsound : (b.finishing i a' outer mark).AggregatesSound h) :
    (b.finishing i a' outer mark).AggregatesCovered h memory path := by
  refine ⟨?_, hsound, fun j a'' hj => ?_⟩
  · show b.underway.erase i = path
    rw [hb.underway]
    exact List.erase_cons_head ..
  · by_cases hji : j = i
    · subst hji
      rw [Builder.finishing, List.lookup_cons_self] at hj
      exact ⟨a, hi, Option.some.inj hj ▸ ha⟩
    · rw [Builder.finishing, List.lookup_cons, beq_false_of_ne hji] at hj
      exact hb.covered j a'' hj

end Builder

theorem lasting_aggregatesCovered (h : Headers) (memory : List (NodeId × Aggregate)) (path : List NodeId) :
    Build.Lasting h.document.Names fun _ b => b.AggregatesCovered h memory path :=
  ⟨fun _ _ _ hR => ⟨hR.underway, ⟨hR.sound.grounded, hR.sound.unfinished⟩, hR.covered⟩,
    fun _ _ _ _ _ hR => ⟨hR.underway, ⟨hR.sound.grounded, hR.sound.unfinished⟩, hR.covered⟩⟩

/-- **A remembered aggregate can be built again,** under any name, and gives the same but for names. -/
theorem aggregate_rebuilt {h : Headers} {memory older : List (NodeId × Aggregate)}
    (hm : Grounded (MadeAggregate h) memory) (ho : Grounded (MadeAggregate h) older) (hs : older <:+ memory)
    {path : List NodeId} {levels : Nat} (hp : h.document.Path path levels) (hapart : Apart older path) (i : NodeId)
    {outer : Option Build.Enclosing}
    (hname : h.document.NameOf i (Build.aggregateName (h.document.node i).name outer)) :
    Build.InStep True (fun _ b => b.AggregatesCovered h memory path) (Aggregate.Alike h.document.Names i)
      (recallFrom older i) (Build.aggregateWithin h levels i outer) := by
  induction ho generalizing path levels i outer with
  | nil => exact fun _ _ _ => .lenient trivial
  | @cons older j a ho hnew hmade ih =>
    have hs' : older <:+ memory := (List.suffix_cons ..).trans hs
    by_cases hij : i = j
    · subst hij
      obtain ⟨levels, rfl⟩ := Nat.exists_eq_succ_of_ne_zero hp.levels_ne_zero
      have hi : memory.lookup i = some a := hm.lookup_of_suffix hs List.lookup_cons_self
      obtain ⟨outer₀, hname₀, hmade⟩ := hmade
      have hbody : Build.InStep True (fun _ b => b.AggregatesCovered h memory (i :: path))
          (Aggregate.Alike h.document.Names i)
          (Build.aggregateBody h (fun j _ => recallFrom older j) (h.document.node i) outer₀)
          (Build.aggregateBody h (Build.aggregateWithin h levels) (h.document.node i) outer) := by
        refine Build.aggregateBody_inStep (lasting_aggregatesCovered h memory _) ⟨hname₀, hname⟩ (fun j hj => ?_)
          fun j k hj => ?_
        · have hpath := hp.cons hapart.notMem (Document.lt_size_of_listsBase hj)
          exact ih hs' hpath (hapart.tail.cons hnew) j (.declared j)
        · have hpath := hp.cons hapart.notMem (Document.lt_size_of_nests hj)
          exact ih hs' hpath (hapart.tail.cons hnew) j (.nested hname hj.isNestedIn)
      intro c b hb
      have hsound := (Build.aggregateWithin_recounts (levels + 1) i outer hname b hb.sound).1
      rw [recallFrom_head]
      rw [Builder.run_aggregateWithin] at hsound ⊢
      cases hl : b.aggregates.lookup i with
      | some a' =>
        obtain ⟨a₀, ha₀, halike⟩ := hb.covered i a' hl
        exact .ok (Option.some.inj (hi.symm.trans ha₀) ▸ halike) hb
      | none =>
        have hib : i ∉ b.underway := hb.underway ▸ hapart.notMem
        simp only [hl, hib, if_false] at hsound ⊢
        have hagree := hbody c (b.claiming i) ⟨congrArg (i :: ·) hb.underway, hb.sound.claiming hl, hb.covered⟩
        have hok := hmade c
        generalize c.run (Build.aggregateBody h (fun j _ => recallFrom older j) (h.document.node i) outer₀) = p
          at hagree hok
        generalize (b.claiming i).run
          (Build.aggregateBody h (Build.aggregateWithin h levels) (h.document.node i) outer) = q at hagree hsound ⊢
        cases hagree with
        | ok halike hR =>
          cases hok
          exact .ok halike (hR.finishing hi halike hsound)
        | error _ => cases hok
        | lenient _ => cases hok
    · rw [recallFrom_cons hij]
      exact ih hs' hp hapart.tail i hname

end HeaderModel
