/-
What builders remember.

A memory lists what was built, the newest first. It is `Grounded`: every entry is what the element's body gives when
it looks its dependencies up among the older entries (`MadeAggregate`, `MadeInterface`). So a memory is closed under
dependencies and has no cycle, whatever calls filled it.
- `aggregateWithin_recounts`, `interfaceWithin_recounts`: building an element, whether it succeeds or fails, keeps the
  memory grounded and the elements that are underway out of it, and what it returns is remembered.
-/
import HeaderModel.Proofs.Comparison

namespace HeaderModel

/-! ## Dependencies of an element -/

namespace Document

/-- the element that is the type of a member -/
def typePlace (d : Document) (f : Node) : Except BuildError NodeId := do d.placeOf (← f.need "type")

/-- an element lists another one as a base -/
def ListsBase (d : Document) (n : Node) (j : NodeId) : Prop := ∃ id ∈ n.bases, d.placeOf id = .ok j

/-- a member of an element has a type that is nested in the element -/
def Nests (d : Document) (n : Node) (j : NodeId) : Prop :=
  ∃ f ∈ d.childrenOf n .field, d.typePlace f = .ok j ∧ Build.isNestedIn n (d.node j) = true

theorem Nests.isNestedIn {d : Document} {n : Node} {j : NodeId} (hj : d.Nests n j) :
    Build.isNestedIn n (d.node j) = true := by
  obtain ⟨f, -, -, hnest⟩ := hj
  exact hnest

/-- the names an element can get: its own, or one made from a name of the aggregate in which it is nested -/
inductive NameOf (d : Document) : NodeId → String → Prop where
  | declared (j : NodeId) : NameOf d j (d.node j).name
  | nested {k j : NodeId} {outer : Build.Enclosing} :
      NameOf d k outer.name → Build.isNestedIn (d.node k) (d.node j) = true →
      NameOf d j (Build.aggregateName (d.node j).name (some outer))

/-- an element that does not exist is blank -/
theorem lt_size_of_ne_blank {d : Document} {i : NodeId} (hi : d.node i ≠ .blank) : i < d.nodes.size := by
  by_contra h
  exact hi (by simp [node, h])

theorem lt_size_of_listsBase {d : Document} {i j : NodeId} (hj : d.ListsBase (d.node i) j) : i < d.nodes.size := by
  apply lt_size_of_ne_blank
  intro h
  obtain ⟨id, hid, -⟩ := hj
  rw [h] at hid
  revert hid
  decide +revert

theorem lt_size_of_nests {d : Document} {i j : NodeId} (hj : d.Nests (d.node i) j) : i < d.nodes.size := by
  apply lt_size_of_ne_blank
  intro h
  obtain ⟨f, hf, -⟩ := hj
  rw [h] at hf
  simp [childrenOf, Node.blank] at hf

end Document

/-! ## Grounded memories -/

section Grounded

variable {α : Type}

/-- look an element up in a memory -/
def recallFrom (memory : List (NodeId × α)) (i : NodeId) : Build α :=
  match memory.lookup i with
  | some a => pure a
  | none => throw (.unknownId "")

/-- every entry was made from the older ones, and no element has two -/
inductive Grounded (Made : List (NodeId × α) → NodeId → α → Prop) : List (NodeId × α) → Prop where
  | nil : Grounded Made []
  | cons {memory : List (NodeId × α)} {i : NodeId} {a : α} : Grounded Made memory → memory.lookup i = none →
      Made memory i a → Grounded Made ((i, a) :: memory)

variable {Made : List (NodeId × α) → NodeId → α → Prop} {memory : List (NodeId × α)} {i : NodeId} {a : α}

theorem run_recallFrom_eq_ok {c : Builder} : (c.run (recallFrom memory i)).1 = .ok a ↔ memory.lookup i = some a := by
  unfold recallFrom
  cases memory.lookup i with
  | none => simp
  | some a' => simp

theorem lookup_cons_of_some {j : NodeId} {a' : α} (hi : memory.lookup i = none) (hj : memory.lookup j = some a') :
    ((i, a) :: memory).lookup j = some a' := by
  have hji : j ≠ i := by
    rintro rfl
    rw [hi] at hj
    cases hj
  rw [List.lookup_cons, beq_false_of_ne hji]
  exact hj

theorem lookup_cons_of_none {j : NodeId} (hji : j ≠ i) (hj : memory.lookup j = none) :
    ((i, a) :: memory).lookup j = none := by
  rw [List.lookup_cons, beq_false_of_ne hji]
  exact hj

theorem Grounded.lookup_of_suffix {older : List (NodeId × α)} (hm : Grounded Made memory) (hs : older <:+ memory)
    (ha : older.lookup i = some a) : memory.lookup i = some a := by
  induction hm with
  | nil => rwa [List.suffix_nil.1 hs] at ha
  | cons hm hnew _ ih =>
    rcases List.suffix_cons_iff.1 hs with rfl | hs
    · exact ha
    · exact lookup_cons_of_some hnew (ih hs)

/-- what is remembered was made from older entries, and was not among them -/
theorem Grounded.made_new (hm : Grounded Made memory) (ha : memory.lookup i = some a) :
    ∃ older, older <:+ memory ∧ Grounded Made older ∧ older.lookup i = none ∧ Made older i a := by
  induction hm with
  | nil => cases ha
  | @cons memory j a' hm hnew hmade ih =>
    by_cases hij : i = j
    · subst hij
      rw [List.lookup_cons_self] at ha
      cases ha
      exact ⟨memory, List.suffix_cons .., hm, hnew, hmade⟩
    · rw [List.lookup_cons, beq_false_of_ne hij] at ha
      obtain ⟨older, hs, hg, hmade⟩ := ih ha
      exact ⟨older, hs.trans (List.suffix_cons ..), hg, hmade⟩

/-- what is remembered was made from older entries -/
theorem Grounded.made (hm : Grounded Made memory) (ha : memory.lookup i = some a) :
    ∃ older, older <:+ memory ∧ Grounded Made older ∧ Made older i a := by
  obtain ⟨older, hs, hg, -, hmade⟩ := hm.made_new ha
  exact ⟨older, hs, hg, hmade⟩

/-- what holds of an entry if it holds of all older ones, holds of every entry -/
theorem Grounded.forall_entries {P : NodeId → α → Prop} (hm : Grounded Made memory)
    (hP : ∀ older k a, older <:+ memory → Grounded Made older → Made older k a →
      (∀ j b, older.lookup j = some b → P j b) → P k a) {k : NodeId} {a : α} (ha : memory.lookup k = some a) :
    P k a := by
  induction hm generalizing k a with
  | nil => cases ha
  | @cons older i a' hm _ hmade ih =>
    have hold : ∀ j b, older.lookup j = some b → P j b := fun j b =>
      ih fun oldest k a hs => hP oldest k a (hs.trans (List.suffix_cons ..))
    by_cases hki : k = i
    · subst hki
      rw [List.lookup_cons_self] at ha
      obtain rfl := Option.some.inj ha
      exact hP older k a' (List.suffix_cons ..) hm hmade hold
    · rw [List.lookup_cons, beq_false_of_ne hki] at ha
      exact hold k a ha

/-- no element of a path is remembered -/
def Apart (memory : List (NodeId × α)) (path : List NodeId) : Prop := ∀ u ∈ path, memory.lookup u = none

theorem Apart.cons {path : List NodeId} (hp : Apart memory path) (hi : memory.lookup i = none) :
    Apart memory (i :: path) := by
  intro u hu
  rcases List.mem_cons.1 hu with rfl | hu
  · exact hi
  · exact hp u hu

theorem Apart.erase {path : List NodeId} (hp : Apart memory path) (j : NodeId) : Apart memory (path.erase j) :=
  fun u hu => hp u (List.mem_of_mem_erase hu)

/-- a new entry stays apart from a path without its element -/
theorem Apart.remember {path : List NodeId} (hp : Apart memory path) (hi : i ∉ path) :
    Apart ((i, a) :: memory) path := by
  intro u hu
  refine lookup_cons_of_none ?_ (hp u hu)
  rintro rfl
  exact hi hu

end Grounded

/-- how an aggregate is made from remembered ones -/
def MadeAggregate (h : Headers) (memory : List (NodeId × Aggregate)) (i : NodeId) (a : Aggregate) : Prop :=
  ∃ outer, h.document.NameOf i (Build.aggregateName (h.document.node i).name outer) ∧
    ∀ c : Builder,
      (c.run (Build.aggregateBody h (fun j _ => recallFrom memory j) (h.document.node i) outer)).1 = .ok a

/-- how an interface is made from remembered ones -/
def MadeInterface (h : Headers) (memory : List (NodeId × Interface)) (i : NodeId) (built : Interface) : Prop :=
  ∀ c : Builder, (c.run (Build.interfaceBody h (recallFrom memory) (h.document.node i))).1 = .ok built

namespace Builder

/-- the memory of aggregates is grounded, and what is underway is not in it -/
structure AggregatesSound (h : Headers) (b : Builder) : Prop where
  grounded : Grounded (MadeAggregate h) b.aggregates
  unfinished : ∀ i ∈ b.underway, b.aggregates.lookup i = none

/-- the memory of interfaces is grounded, and what is underway is not in it -/
structure InterfacesSound (h : Headers) (b : Builder) : Prop where
  grounded : Grounded (MadeInterface h) b.interfaces
  unfinished : ∀ i ∈ b.underway, b.interfaces.lookup i = none

section Sound

variable {h : Headers} {b c : Builder} {i : NodeId}

theorem InterfacesSound.claiming (hb : b.InterfacesSound h) (hi : b.interfaces.lookup i = none) :
    (b.claiming i).InterfacesSound h := ⟨hb.grounded, Apart.cons hb.unfinished hi⟩

theorem InterfacesSound.releasing (hc : c.InterfacesSound h) (i : NodeId) : (c.releasing i).InterfacesSound h :=
  ⟨hc.grounded, Apart.erase hc.unfinished i⟩

theorem InterfacesSound.concluding (hc : c.InterfacesSound h) {built : Interface} (hi : c.interfaces.lookup i = none)
    (hmade : MadeInterface h c.interfaces i built) (hnew : i ∉ c.underway.erase i) :
    (c.concluding i built).InterfacesSound h :=
  ⟨.cons hc.grounded hi hmade, (Apart.erase hc.unfinished i).remember hnew⟩

theorem AggregatesSound.claiming (hb : b.AggregatesSound h) (hi : b.aggregates.lookup i = none) :
    (b.claiming i).AggregatesSound h := ⟨hb.grounded, Apart.cons hb.unfinished hi⟩

theorem AggregatesSound.abandoning (hc : c.AggregatesSound h) (i : NodeId) (mark : Nat) :
    (c.abandoning i mark).AggregatesSound h := ⟨hc.grounded, Apart.erase hc.unfinished i⟩

theorem AggregatesSound.finishing (hc : c.AggregatesSound h) {built : Aggregate} (hi : c.aggregates.lookup i = none)
    (hmade : MadeAggregate h c.aggregates i built) (hnew : i ∉ c.underway.erase i) (outer : Option Build.Enclosing)
    (mark : Nat) : (c.finishing i built outer mark).AggregatesSound h :=
  ⟨.cons hc.grounded hi hmade, (Apart.erase hc.unfinished i).remember hnew⟩

end Sound

/-- a builder with one more aggregate waiting -/
def awaiting (b : Builder) (entry : Entry) : Builder := { b with waiting := b.waiting ++ [entry] }

theorem grows_awaiting (b : Builder) {entry : Entry} (hentry : entry.isAggregate = true) :
    Grows b (b.awaiting entry) := by
  refine ⟨rfl, rfl, rfl, List.suffix_refl _, List.suffix_refl _, ⟨[entry], rfl, fun e he => ?_⟩,
    ⟨[], (Module.adding_nil ..).symm, fun e he => absurd he List.not_mem_nil⟩⟩
  rwa [List.mem_singleton.1 he]

section Closing

variable {b c : Builder} {i : NodeId}

theorem Grows.mem_underway (hc : (b.claiming i).Grows c) : i ∈ c.underway := by
  rw [hc.underway]
  exact List.mem_cons_self

theorem Grows.underway_erase (hc : (b.claiming i).Grows c) : c.underway.erase i = b.underway := by
  rw [hc.underway]
  exact List.erase_cons_head ..

theorem Grows.releasing (hc : (b.claiming i).Grows c) : b.Grows (c.releasing i) :=
  ⟨hc.current, hc.underway_erase, hc.enumCounts, hc.aggregates, hc.interfaces, hc.waiting, hc.module⟩

theorem Grows.concluding (hc : (b.claiming i).Grows c) (built : Interface) : b.Grows (c.concluding i built) :=
  ⟨hc.current, hc.underway_erase, hc.enumCounts, hc.aggregates, hc.interfaces.trans (List.suffix_cons ..),
    hc.waiting, hc.module⟩

theorem Grows.take_waiting (hc : (b.claiming i).Grows c) : c.waiting.take b.waiting.length = b.waiting := by
  obtain ⟨added, hw, -⟩ := hc.waiting
  rw [hw]
  exact List.take_left

theorem Grows.abandoning (hc : (b.claiming i).Grows c) : b.Grows (c.abandoning i b.waiting.length) :=
  ⟨hc.current, hc.underway_erase, hc.enumCounts, hc.aggregates, hc.interfaces,
    ⟨[], by rw [List.append_nil]; exact hc.take_waiting, by simp⟩, hc.module⟩

theorem Grows.finishing (hc : (b.claiming i).Grows c) (built : Aggregate) (outer : Option Build.Enclosing) :
    b.Grows (c.finishing i built outer b.waiting.length) := by
  refine ⟨hc.current, hc.underway_erase, hc.enumCounts, hc.aggregates.trans (List.suffix_cons ..), hc.interfaces,
    ?_, ?_⟩
  · cases outer with
    | none => exact ⟨[], by rw [List.append_nil]; exact hc.take_waiting, by simp⟩
    | some outer => exact hc.waiting
  · obtain ⟨es, hes, hes'⟩ := hc.module
    obtain ⟨ws, hws, hws'⟩ := hc.waiting
    cases outer with
    | none =>
      refine ⟨es ++ ws, ?_, fun e he => (List.mem_append.1 he).elim (hes' e) (hws' e)⟩
      have hdrop : c.waiting.drop b.waiting.length = ws := by
        rw [hws]
        exact List.drop_left
      have hcur : c.current = b.current := hc.current
      simp only [Builder.finishing, Option.isNone_none, if_true, hdrop, hes, hcur, Module.adding_append]
      rfl
    | some outer => exact ⟨es, hes, hes'⟩

end Closing

end Builder

namespace Build

variable {h : Headers}

/-! ## Interfaces -/

/-- what is taken in of a base once it is built -/
def inheritRest (h : Headers) (sofar : Inherited) (i : NodeId) (parent : Interface) : Build Inherited := do
  let base ← match sofar.base with
    | some name => pure (some name)
    | none => do
      let represented ← of (isRepresented h (h.document.node i))
      pure (if represented then some parent.name else none)
  return ⟨base, ← addSlots sofar.slots parent.slotCount⟩

theorem inherit_eq (h : Headers) (build : NodeId → Build Interface) (sofar : Inherited) (id : String) :
    inherit h build sofar id =
      of (h.document.placeOf id) >>= fun i => build i >>= fun parent => inheritRest h sofar i parent := rfl

theorem steady_inheritRest (h : Headers) (sofar : Inherited) (i : NodeId) (parent : Interface) :
    Steady (inheritRest h sofar i parent) := by
  have hadd : ∀ base, Steady (addSlots sofar.slots parent.slotCount >>= fun slots => pure (⟨base, slots⟩ : Inherited)) :=
    fun base => (steady_addSlots _ _).bind fun _ => steady_pure _
  unfold inheritRest
  split
  · exact hadd _
  · exact (steady_of _).bind fun _ => (steady_pure _).bind hadd

theorem inherit_recounts {Good : Builder → Prop} {build : NodeId → Build Interface} {n : Node} {id : String}
    (hGood : ∀ b ns, Good b → Good (b.noting ns)) (hid : id ∈ n.bases)
    (hbuild : ∀ j, h.document.ListsBase n j → Recounts Good (build j) (fun m => recallFrom m.interfaces j))
    (sofar : Inherited) :
    Recounts Good (inherit h build sofar id) (fun m => inherit h (recallFrom m.interfaces) sofar id) := by
  simp only [inherit_eq]
  exact .of_bind fun j hj => (hbuild j ⟨id, hid, hj⟩).bind fun parent => (steady_inheritRest h sofar j parent).recounts hGood

/-- what an interface adds to what it inherits -/
def interfaceRest (h : Headers) (n : Node) (inherited : Inherited) : Build Interface := do
  let uuid := (← meaningOf n).bind (·.guid)
  let guid ← guidOf n.name uuid
  let own := (h.document.childrenOf n .method).filter opensSlot
  let table ← own.foldlM (openSlot h) ⟨[], inherited.slots⟩
  let methods ← groupSlots inherited.slots table
  return ⟨n.name, inherited.base, uuid, guid, methods, table.next⟩

theorem interfaceBody_eq (h : Headers) (build : NodeId → Build Interface) (n : Node) :
    interfaceBody h build n = n.bases.foldlM (inherit h build) ⟨none, 0⟩ >>= interfaceRest h n := rfl

theorem steady_interfaceRest (h : Headers) (n : Node) (inherited : Inherited) :
    Steady (interfaceRest h n inherited) :=
  (steady_meaningOf n).bind fun _ => (steady_guidOf _ _).bind fun _ =>
    (Steady.foldlM (steady_openSlot h) _ _).bind fun _ => (steady_groupSlots _ _).bind fun _ => steady_pure _

theorem interfaceBody_recounts {Good : Builder → Prop} {build : NodeId → Build Interface} {n : Node}
    (hGood : ∀ b ns, Good b → Good (b.noting ns))
    (hbuild : ∀ j, h.document.ListsBase n j → Recounts Good (build j) (fun m => recallFrom m.interfaces j)) :
    Recounts Good (interfaceBody h build n) (fun m => interfaceBody h (recallFrom m.interfaces) n) := by
  simp only [interfaceBody_eq]
  refine (Recounts.foldlM hGood (fun id hid => inherit_recounts hGood hid hbuild) _).bind fun inherited => ?_
  exact (steady_interfaceRest h n inherited).recounts hGood

/-- Building an interface keeps the builder sound, and what it returns is remembered. -/
theorem interfaceWithin_recounts (levels : Nat) (i : NodeId) :
    Recounts (Builder.InterfacesSound h) (interfaceWithin h levels i) (fun m => recallFrom m.interfaces i) := by
  induction levels generalizing i with
  | zero => exact fun b hb => ⟨hb, .refl b, .refl b, fun _ h => nomatch h⟩
  | succ levels ih =>
    intro b hb
    rw [Builder.run_interfaceWithin]
    cases hl : b.interfaces.lookup i with
    | some built =>
      refine ⟨hb, .refl b, .refl b, fun a ha m hm c => ?_⟩
      cases ha
      exact run_recallFrom_eq_ok.2 (hm.interfaces i built hl)
    | none =>
      by_cases hi : i ∈ b.underway
      · simp only [hi, if_true]
        exact ⟨hb, .refl b, .refl b, fun _ h => nomatch h⟩
      · obtain ⟨hgood, hgrows, hwithin, hok⟩ := interfaceBody_recounts (fun _ _ h => ⟨h.grounded, h.unfinished⟩)
          (fun j _ => ih j) (b.claiming i) (hb.claiming hl)
        simp only [hi, if_false]
        generalize (b.claiming i).run (interfaceBody h (interfaceWithin h levels) (h.document.node i)) = p
          at hgood hgrows hwithin hok
        obtain ⟨e | built, c⟩ := p
        · exact ⟨hgood.releasing i, hgrows.releasing, ⟨hwithin.aggregates, hwithin.interfaces⟩, fun _ h => nomatch h⟩
        · have hnew : c.interfaces.lookup i = none := hgood.unfinished i hgrows.mem_underway
          refine ⟨hgood.concluding hnew (fun c' => hok built rfl c (.refl c) c') (hgrows.underway_erase ▸ hi),
            hgrows.concluding built, ⟨hwithin.aggregates, fun j a hj => ?_⟩, fun a ha m hm c' => ?_⟩
          · exact lookup_cons_of_some hnew (hwithin.interfaces j a hj)
          · cases ha
            exact run_recallFrom_eq_ok.2 (hm.interfaces i built List.lookup_cons_self)

/-! ## Aggregates -/

/-- what a proof may assume about builders while members are laid out: it survives notices and waiting entries -/
structure Indifferent (Good : Builder → Prop) : Prop where
  noting : ∀ b ns, Good b → Good (b.noting ns)
  awaiting : ∀ b entry, Good b → Good (b.awaiting entry)

theorem recounts_awaiting {Good : Builder → Prop} (hGood : Indifferent Good) {entry : Entry}
    (hentry : entry.isAggregate = true) :
    Recounts Good (modify (·.awaiting entry)) (fun _ => modify (·.awaiting entry)) := by
  intro b hb
  exact ⟨hGood.awaiting b entry hb, b.grows_awaiting hentry, ⟨fun _ _ => id, fun _ _ => id⟩, fun _ h _ _ _ => h⟩

theorem member_recounts {Good : Builder → Prop} {build : NodeId → Option Enclosing → Build Aggregate}
    {owner : Node} {name : String} {n : Node} (hGood : Indifferent Good)
    (hn : n ∈ h.document.childrenOf owner .field)
    (hbuild : ∀ j k, h.document.Nests owner j →
      Recounts Good (build j (some ⟨name, k⟩)) (fun m => recallFrom m.aggregates j)) (l : Layout) :
    Recounts Good (member h build owner name l n)
      (fun m => member h (fun j _ => recallFrom m.aggregates j) owner name l n) := by
  refine ((steady_field h l.offset n).recounts hGood.noting).bind fun f => ?_
  refine .of_bind fun typeId hid => .of_bind fun j hj => ?_
  have hplace : h.document.typePlace n = .ok j := by
    rw [Document.typePlace, hid]
    exact hj
  by_cases hnest : isNestedIn owner (h.document.node j)
  · simp only [hnest, if_true]
    refine (hbuild j l.nested ⟨n, hn, hplace, hnest⟩).bind fun inner => ?_
    by_cases hname : n.name = ""
    · simp only [hname, if_true]
      exact (steady_pure _).recounts hGood.noting
    · simp only [hname, if_false]
      exact (recounts_awaiting hGood rfl).bind fun _ => (steady_pure _).recounts hGood.noting
  · simp only [hnest]
    exact (steady_pure _).recounts hGood.noting

theorem baseName_recounts {Good : Builder → Prop} {build : NodeId → Option Enclosing → Build Aggregate} {n : Node}
    (hGood : Indifferent Good)
    (hbuild : ∀ j, h.document.ListsBase n j → Recounts Good (build j none) (fun m => recallFrom m.aggregates j)) :
    Recounts Good (baseName h build n) (fun m => baseName h (fun j _ => recallFrom m.aggregates j) n) :=
  Recounts.foldlM hGood.noting (fun id hid _ => .of_bind fun j hj => (hbuild j ⟨id, hid, hj⟩).bind fun _ =>
    (steady_pure _).recounts hGood.noting) none

theorem aggregateBody_recounts {Good : Builder → Prop} {build : NodeId → Option Enclosing → Build Aggregate}
    {n : Node} {outer : Option Enclosing} (hGood : Indifferent Good)
    (hbase : ∀ j, h.document.ListsBase n j → Recounts Good (build j none) (fun m => recallFrom m.aggregates j))
    (hnest : ∀ j k, h.document.Nests n j →
      Recounts Good (build j (some ⟨aggregateName n.name outer, k⟩)) (fun m => recallFrom m.aggregates j)) :
    Recounts Good (aggregateBody h build n outer)
      (fun m => aggregateBody h (fun j _ => recallFrom m.aggregates j) n outer) := by
  refine (baseName_recounts hGood hbase).bind fun base => ?_
  refine (Recounts.foldlM hGood.noting (fun f hf l => member_recounts hGood hf hnest l) Layout.start).bind fun l => ?_
  exact (steady_pure _).recounts hGood.noting

/-- Building an aggregate keeps the builder sound, and what it returns is remembered. -/
theorem aggregateWithin_recounts (levels : Nat) (i : NodeId) (outer : Option Enclosing)
    (hname : h.document.NameOf i (aggregateName (h.document.node i).name outer)) :
    Recounts (Builder.AggregatesSound h) (aggregateWithin h levels i outer) (fun m => recallFrom m.aggregates i) := by
  induction levels generalizing i outer with
  | zero => exact fun b hb => ⟨hb, .refl b, .refl b, fun _ h => nomatch h⟩
  | succ levels ih =>
    intro b hb
    rw [Builder.run_aggregateWithin]
    cases hl : b.aggregates.lookup i with
    | some built =>
      refine ⟨hb, .refl b, .refl b, fun a ha m hm c => ?_⟩
      cases ha
      exact run_recallFrom_eq_ok.2 (hm.aggregates i built hl)
    | none =>
      by_cases hi : i ∈ b.underway
      · simp only [hi, if_true]
        exact ⟨hb, .refl b, .refl b, fun _ h => nomatch h⟩
      · have hbody : Recounts (Builder.AggregatesSound h)
            (aggregateBody h (aggregateWithin h levels) (h.document.node i) outer)
            (fun m => aggregateBody h (fun j _ => recallFrom m.aggregates j) (h.document.node i) outer) :=
          aggregateBody_recounts ⟨fun _ _ h => ⟨h.grounded, h.unfinished⟩, fun _ _ h => ⟨h.grounded, h.unfinished⟩⟩
            (fun j _ => ih j none (.declared j))
            (fun j k hj => ih j _ (.nested hname hj.isNestedIn))
        obtain ⟨hgood, hgrows, hwithin, hok⟩ := hbody (b.claiming i) (hb.claiming hl)
        simp only [hi, if_false]
        generalize (b.claiming i).run (aggregateBody h (aggregateWithin h levels) (h.document.node i) outer) = p
          at hgood hgrows hwithin hok
        obtain ⟨e | built, c⟩ := p
        · exact ⟨hgood.abandoning i _, hgrows.abandoning, ⟨hwithin.aggregates, hwithin.interfaces⟩,
            fun _ h => nomatch h⟩
        · have hnew : c.aggregates.lookup i = none := hgood.unfinished i hgrows.mem_underway
          have hmade : MadeAggregate h c.aggregates i built := ⟨outer, hname, fun c' => hok built rfl c (.refl c) c'⟩
          refine ⟨hgood.finishing hnew hmade (hgrows.underway_erase ▸ hi) outer _, hgrows.finishing built outer,
            ⟨fun j a hj => ?_, hwithin.interfaces⟩, fun a ha m hm c' => ?_⟩
          · exact lookup_cons_of_some hnew (hwithin.aggregates j a hj)
          · cases ha
            exact run_recallFrom_eq_ok.2 (hm.aggregates i built List.lookup_cons_self)

theorem interface_recounts (i : NodeId) :
    Recounts (Builder.InterfacesSound h) (interface h i) (fun m => recallFrom m.interfaces i) :=
  interfaceWithin_recounts _ i

theorem aggregate_recounts (i : NodeId) :
    Recounts (Builder.AggregatesSound h) (aggregate h i) (fun m => recallFrom m.aggregates i) := by
  have hname : h.document.NameOf i (aggregateName (h.document.node i).name none) := .declared i
  exact aggregateWithin_recounts _ i none hname

end Build

end HeaderModel
