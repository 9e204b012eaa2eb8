/-
What taking one element does.

It declares the nested aggregates of owners that were built on the way, in the unit that is read, and after them the
element itself, unless that fails or declares nothing. `Builder.Turn` says all that the module and the memory of
aggregates owe to one element; a whole build is a sequence of such turns.
- `declaration_said`: what is declared belongs to the element, and an aggregate or interface is what is remembered.
- `take_turn`: taking an element is a turn, whether or not its declaration succeeds.
-/
import HeaderModel.Proofs.Fates

namespace HeaderModel

/-! ## What an element declares -/

/-- what a declaration has to do with its element and with what is remembered -/
def Headers.Says (h : Headers) (c : Builder) (i : NodeId) : Declaration → Prop
  | .aggregate a => c.aggregates.lookup i = some a
  | .interface a => c.interfaces.lookup i = some a
  | .function f => ∃ b : Builder, (b.run (Build.signature h (h.document.node i))).1 = .ok f
  | .enumeration e => (h.document.node i).kind = .enumeration ∧
      (Build.isNameless (h.document.node i).name = false → e.name = (h.document.node i).name)
  | _ => True

theorem Headers.Says.mono {h : Headers} {b c : Builder} {i : NodeId} {decl : Declaration} (hs : h.Says b i decl)
    (hbc : b.Within c) : h.Says c i decl := by
  cases decl with
  | aggregate a => exact hbc.aggregates i a hs
  | interface a => exact hbc.interfaces i a hs
  | _ => exact hs

section Says

variable {h : Headers} {c : Builder} {i : NodeId} {decl : Declaration}

theorem enumeration_name {n : Node} {e : Enumeration} (hrun : (c.run (Build.enumeration h n)).1 = .ok e)
    (hname : Build.isNameless n.name = false) : e.name = n.name := by
  unfold Build.enumeration at hrun
  simp only [hname] at hrun
  obtain ⟨name, hpure, hrest⟩ := Builder.run_bind_eq_ok.1 hrun
  obtain rfl := Except.ok.inj hpure
  rw [Builder.run_pure] at hrest
  obtain rfl := Except.ok.inj hrest
  rfl

theorem initialized_said {c' : Builder} {n : Node} (hrun : (c.run (Build.initialized h n)).1 = .ok (some decl)) :
    h.Says c' i decl := by
  unfold Build.initialized at hrun
  obtain ⟨id, -, hrest⟩ := Builder.run_bind_eq_ok.1 hrun
  obtain ⟨typeName, -, hrest⟩ := Builder.run_bind_eq_ok.1 hrest
  dsimp only at hrest
  split_ifs at hrest
  · split at hrest
    · rw [Builder.run_pure] at hrest
      obtain rfl := Option.some.inj (Except.ok.inj hrest)
      trivial
    · obtain ⟨_, -, hnone⟩ := Builder.run_bind_eq_ok.1 hrest
      cases hnone
  · rw [Builder.run_pure] at hrest
    obtain rfl := Option.some.inj (Except.ok.inj hrest)
    trivial

theorem Build.interface_remembers (hc : c.InterfacesSound h) {a : Interface}
    (ha : (c.run (Build.interface h i)).1 = .ok a) : (c.run (Build.interface h i)).2.interfaces.lookup i = some a :=
  run_recallFrom_eq_ok.1 ((Build.interface_recounts i c hc).2.2.2 a ha _ (.refl _) c)

/-- what an element that is no aggregate declares -/
theorem declaration_said_other (hk : (h.document.node i).kind.isAggregate = false) {c' : Builder}
    (hrun : (c.run (Build.declaration h i)).1 = .ok (some decl)) : h.Says c' i decl := by
  unfold Build.declaration at hrun
  dsimp only at hrun
  cases hkind : (h.document.node i).kind with
  | enumeration =>
    rw [hkind] at hrun
    obtain ⟨e, he, hpure⟩ := Builder.run_bind_eq_ok.1 hrun
    obtain rfl := Option.some.inj (Except.ok.inj hpure)
    exact ⟨hkind, enumeration_name he⟩
  | function =>
    rw [hkind] at hrun
    dsimp only at hrun
    split_ifs at hrun
    · cases hrun
    · obtain ⟨f, hf, hpure⟩ := Builder.run_bind_eq_ok.1 hrun
      obtain rfl := Option.some.inj (Except.ok.inj hpure)
      exact ⟨c, hf⟩
  | variableDecl =>
    rw [hkind] at hrun
    dsimp only at hrun
    split_ifs at hrun
    · exact initialized_said hrun
    · cases hrun
  | classType | structType | unionType =>
    rw [hkind] at hk
    cases hk
  | _ =>
    rw [hkind] at hrun
    cases hrun

/-- What is declared belongs to the element, and an aggregate or interface is what is remembered. -/
theorem declaration_said (hc : Settled h c) (hrun : (c.run (Build.declaration h i)).1 = .ok (some decl)) :
    h.Says (c.run (Build.declaration h i)).2 i decl := by
  have hmap : ∀ {α : Type} {x : Build α} {f : α → Declaration},
      (c.run ((fun a => some (f a)) <$> x)).1 = .ok (some decl) → ∃ a, (c.run x).1 = .ok a ∧ decl = f a := by
    intro α x f hmapped
    rw [Builder.run_map] at hmapped
    cases hx : (c.run x).1 with
    | error e => rw [hx] at hmapped; cases hmapped
    | ok a =>
      rw [hx] at hmapped
      exact ⟨a, rfl, (Option.some.inj (Except.ok.inj hmapped)).symm⟩
  rcases Build.declaration_cases h i with ⟨-, heq⟩ | ⟨-, heq⟩ | ⟨hother, -, -⟩
  · rw [heq] at hrun ⊢
    obtain ⟨a, ha, rfl⟩ := hmap hrun
    rw [Builder.run_map]
    exact Build.aggregate_remembers i c hc.aggregatesSound a ha
  · rw [heq] at hrun ⊢
    obtain ⟨a, ha, rfl⟩ := hmap hrun
    rw [Builder.run_map]
    exact Build.interface_remembers hc.interfacesSound ha
  · exact declaration_said_other hother hrun

end Says

/-! ## Turns -/

/-- the declaration that came out of an element, if any -/
def declarationsOf : Except BuildError (Option Declaration) → List Declaration
  | .ok (some decl) => [decl]
  | _ => []

theorem eq_of_mem_declarationsOf {r : Except BuildError (Option Declaration)} {decl : Declaration}
    (hdecl : decl ∈ declarationsOf r) : r = .ok (some decl) := by
  rcases r with e | _ | decl'
  · cases hdecl
  · cases hdecl
  · rw [List.mem_singleton.1 hdecl]

/-- All that the module and the memory of aggregates owe to one element: the nested aggregates of some owners are
declared, then the element itself. What else is remembered now was dropped, because the element failed. -/
structure Builder.Turn (h : Headers) (i : NodeId) (c d : Builder) (owners : List NodeId) (own : List Declaration) :
    Prop where
  settled : Settled h d
  within : c.Within d
  owned : Owned h c d owners (h.document.siblingsOf owners)
  module : ∃ es, d.module = c.module.adding c.current (es ++ own.map fun decl => ⟨some i, decl⟩) ∧
    es.Perm ((h.document.siblingsOf owners).map (recordOf d.aggregates))
  said : ∀ decl ∈ own, h.Says d i decl
  aggregate : ∀ k, c.aggregates.lookup k = none → (d.aggregates.lookup k).isSome →
    Build.declaresAggregate (h.document.node i) = true
  dropped : ∀ k, Dropped c d owners k →
    ∃ q, h.document.Reaches i q ∧ h.document.Holds q k ∧ (h.builds q = false ∨ Dropped c d owners q)
  based : ∀ k ∈ owners, ∃ t ∈ owners, (t = i ∨ h.document.BaseOn i t) ∧ (t = k ∨ h.document.EnclosesAmong owners t k)
  reached : ∀ k ∈ owners, h.document.Reaches i k

section Turns

variable {h : Headers} {c d : Builder} {i : NodeId} {slot : Nat} {owners : List NodeId}

/-- nothing is remembered and nothing declared -/
theorem Builder.Turn.still (hd : Settled h d) (hwithin : c.Within d) (haggregates : d.aggregates = c.aggregates)
    (hmodule : d.module = c.module) : Turn h i c d [] [] := by
  have hnone : ∀ k, c.aggregates.lookup k = none → ¬(d.aggregates.lookup k).isSome := by
    intro k hnew hsome
    rw [haggregates, hnew] at hsome
    cases hsome
  refine ⟨hd, hwithin, .nil h c d, ⟨[], ?_, .nil⟩, fun _ hmem => absurd hmem List.not_mem_nil,
    fun k hnew hsome => absurd hsome (hnone k hnew), fun k hk => absurd hk.remembered (hnone k hk.new),
    fun _ hmem => absurd hmem List.not_mem_nil, fun _ hmem => absurd hmem List.not_mem_nil⟩
  rw [hmodule]
  exact (Module.adding_nil ..).symm

theorem Builder.Turn.noting {own : List Declaration} (ht : Turn h i c d owners own) (ns : List Notice) :
    Turn h i c (d.noting ns) owners own :=
  ⟨ht.settled.noting ns, ⟨ht.within.aggregates, ht.within.interfaces⟩,
    ⟨ht.owned.built, ht.owned.nodup, ht.owned.known⟩, ht.module, ht.said, ht.aggregate,
    fun k hk => by
      obtain ⟨q, hreached, hholds, hq⟩ := ht.dropped k ⟨hk.new, hk.remembered, hk.apart⟩
      exact ⟨q, hreached, hholds, hq.imp_right fun hq => ⟨hq.new, hq.remembered, hq.apart⟩⟩,
    ht.based, ht.reached⟩

theorem Builder.Turn.declare (ht : Turn h i c d owners []) (hslot : c.current = some slot) {decl : Declaration}
    (hsaid : h.Says d i decl) : Turn h i c (d.adding slot ⟨some i, decl⟩) owners [decl] := by
  obtain ⟨es, hes, hperm⟩ := ht.module
  have hkept : d.Within (d.adding slot ⟨some i, decl⟩) := ⟨fun _ _ => id, fun _ _ => id⟩
  refine ⟨ht.settled.adding, ht.within.trans hkept, ⟨ht.owned.built, ht.owned.nodup, ht.owned.known⟩,
    ⟨es, ?_, hperm⟩, fun decl' hmem => ?_, ht.aggregate, fun k hk => ?_, ht.based, ht.reached⟩
  · show d.module.add slot _ = _
    rw [hes, hslot, List.map_nil, List.append_nil, Module.adding_append]
    rfl
  · obtain rfl := List.mem_singleton.1 hmem
    exact hsaid.mono hkept
  · obtain ⟨q, hreached, hholds, hq⟩ := ht.dropped k ⟨hk.new, hk.remembered, hk.apart⟩
    exact ⟨q, hreached, hholds, hq.imp_right fun hq => ⟨hq.new, hq.remembered, hq.apart⟩⟩

/-- the entries that a turn adds -/
theorem Builder.Turn.entries {own : List Declaration} (ht : Turn h i c d owners own) (hreads : c.Reads slot) :
    d.module.entries.Perm (c.module.entries ++ ((h.document.siblingsOf owners).map (recordOf d.aggregates) ++
      own.map fun decl => ⟨some i, decl⟩)) := by
  obtain ⟨es, hes, hperm⟩ := ht.module
  rw [hes, hreads.1]
  exact (Module.entries_adding hreads.2 _).trans (List.Perm.append_left _ (hperm.append_right _))

/-- what a turn adds to the entries belongs to elements -/
theorem Builder.Turn.said_entries {own : List Declaration} (ht : Turn h i c d owners own) (hreads : c.Reads slot)
    {e : Entry} (he : e ∈ d.module.entries) : e ∈ c.module.entries ∨ ∃ j, e.origin = some j ∧ h.Says d j e.decl := by
  rcases List.mem_append.1 ((ht.entries hreads).mem_iff.1 he) with he | he
  · exact .inl he
  · rcases List.mem_append.1 he with he | he
    · obtain ⟨j, hj, rfl⟩ := List.mem_map.1 he
      obtain ⟨a, ha⟩ := Option.isSome_iff_exists.1 (ht.owned.known j hj)
      rw [recordOf_eq ha]
      exact .inr ⟨j, rfl, ha⟩
    · obtain ⟨decl, hdecl, rfl⟩ := List.mem_map.1 he
      exact .inr ⟨i, rfl, ht.said decl hdecl⟩

/-- building what an element declares -/
theorem declaration_turn (hd : h.document.Indexed) (hplaced : h.document.Placed i) (hc : Settled h c) :
    ∃ owners, Builder.Turn h i c (c.run (Build.declaration h i)).2 owners [] := by
  by_cases hdeclares : Build.declaresAggregate (h.document.node i) = true
  · rw [Build.declaration_aggregate hdeclares, Builder.run_map]
    obtain ⟨-, -, hwithin, -⟩ := Build.aggregate_recounts i c hc.aggregatesSound
    obtain ⟨owners, hfate, hdoomed⟩ := Build.aggregate_fate hd hplaced hc
    have howned := hfate.ledger.owned
    have hdropped := hfate.dropped
    have hreached := hfate.reached
    obtain ⟨es, hes, hperm⟩ := hfate.ledger.module
    simp only [List.append_nil] at howned hdropped hreached
    refine ⟨owners, settled_aggregate i c hc, hwithin, howned, ⟨es, ?_, hperm⟩,
      fun _ hmem => absurd hmem List.not_mem_nil, fun _ _ _ => hdeclares, fun k hk => (hdropped k hk).2 hdoomed,
      hfate.based, hreached⟩
    rw [List.map_nil, List.append_nil]
    exact hes
  · obtain ⟨haggregates, hwithin, hmodule, -⟩ := declaration_other hc (by simpa using hdeclares)
    exact ⟨[], .still (settled_declaration i c hc) hwithin haggregates hmodule⟩

/-- **Taking an element is a turn,** whether or not its declaration succeeds. -/
theorem take_turn (hd : h.document.Indexed) (hplaced : h.document.Placed i) (hc : Settled h c)
    (hslot : c.current = some slot) (unit : String) :
    ∃ owners, Builder.Turn h i c (c.run (Build.take h slot unit i)).2 owners
      (declarationsOf (c.run (Build.declaration h i)).1) := by
  obtain ⟨owners, hturn⟩ := declaration_turn hd hplaced hc
  have hsaid : ∀ decl, (c.run (Build.declaration h i)).1 = .ok (some decl) →
      h.Says (c.run (Build.declaration h i)).2 i decl := fun _ => declaration_said hc
  rw [Build.run_take]
  generalize c.run (Build.declaration h i) = p at hturn hsaid
  obtain ⟨e | _ | decl, d⟩ := p
  · dsimp only
    split_ifs
    · exact ⟨owners, hturn⟩
    · exact ⟨owners, hturn.noting _⟩
  · exact ⟨owners, hturn⟩
  · exact ⟨owners, hturn.declare hslot (hsaid decl rfl)⟩

end Turns

end HeaderModel
