/-
The header units in which declarations land.

Every taken element is declared in the unit of its file. But the nested aggregates of owners that are built on the way
are declared in the unit that is being read, wherever the owner comes from: a base may stand in another header, even in
one that is out of scope (`base_declared_elsewhere`).
- `take_contributes`: what one element contributes to the units of the module.
- `declared_in_own_unit_iff`: all declarations land in the units of their own files exactly if the nested aggregates
  that an element brings along name files of the unit from which the element is taken.
-/
import HeaderModel.Proofs.Turns

namespace HeaderModel

/-! ## Elements of a unit -/

/-- the file of an element belongs to a unit, but for case -/
def Document.InUnit (d : Document) (unit : String) (i : NodeId) : Prop :=
  ∃ file name, (d.node i).attr? "file" = some file ∧ d.unitOfFile file = .ok name ∧
    Text.asciiLower name = Text.asciiLower unit

theorem Document.InUnit.congr {d : Document} {unit unit' : String} {i : NodeId} (hi : d.InUnit unit i)
    (hsame : Text.asciiLower unit = Text.asciiLower unit') : d.InUnit unit' i := by
  obtain ⟨file, name, hfile, hname, hunit⟩ := hi
  exact ⟨file, name, hfile, hname, hunit.trans hsame⟩

/-- an element is taken from the unit of its file -/
theorem inUnit_of_mem_visits {h : Headers} (hd : h.document.Indexed) {unit : String} {i : NodeId}
    (hi : (unit, i) ∈ h.visits) : h.document.InUnit unit i := by
  obtain ⟨f, hf, hvisit⟩ := List.mem_flatMap.1 hi
  unfold Headers.visitsFrom at hvisit
  cases hunit : h.document.unitOfFile f.1 with
  | error e =>
    rw [hunit] at hvisit
    cases hvisit
  | ok name =>
    rw [hunit] at hvisit
    obtain ⟨j, hj, heq⟩ := List.mem_map.1 hvisit
    cases heq
    exact ⟨f.1, unit, hd.filed f hf i ((h.takenFrom_sublist f).subset hj), hunit, rfl⟩

/-! ## Contributions -/

/-- what taking one element brings into the module: its own declaration, if any, and the nested aggregates of owners
that were built on the way -/
structure Contribution where
  unit : String
  element : NodeId
  own : List Declaration
  owners : List NodeId

/-- the elements that a contribution declares -/
def Contribution.origins (d : Document) (s : Contribution) : List NodeId :=
  d.siblingsOf s.owners ++ s.own.map fun _ => s.element

/-- the elements that a contribution declares, each with the name of the unit in lower case -/
def Contribution.placed (d : Document) (s : Contribution) : List (String × Option NodeId) :=
  (s.origins d).map fun j => (Text.asciiLower s.unit, some j)

/-- the elements that a module declares, each with the name of its unit in lower case -/
def Module.origins (m : Module) : List (String × Option NodeId) := m.located.map fun p => (p.1, p.2.origin)

/-- between two builders some elements were taken, and each contributed to its unit -/
structure Builder.Contributed (h : Headers) (b c : Builder) (visits : List (String × NodeId)) (ss : List Contribution) :
    Prop where
  visits : ss.map (fun s => (s.unit, s.element)) = visits
  within : b.Within c
  owned : Owned h b c (ss.flatMap (·.owners)) []
  reached : ∀ s ∈ ss, ∀ k ∈ s.owners, h.document.Reaches s.element k
  origins : c.module.origins.Perm (b.module.origins ++ ss.flatMap (·.placed h.document))

section Contributed

variable {h : Headers} {b c d : Builder} {vs ws : List (String × NodeId)} {ss ts : List Contribution}

theorem Builder.Contributed.still (hbc : SameWork b c) (hlocated : c.module.located = b.module.located) :
    Contributed h b c [] [] :=
  ⟨rfl, hbc.within, .nil h b c, fun _ hs => absurd hs List.not_mem_nil,
    .of_eq ((congrArg (List.map _) hlocated).trans (List.append_nil _).symm)⟩

theorem Builder.Contributed.trans (h₁ : Contributed h b c vs ss) (h₂ : Contributed h c d ws ts) :
    Contributed h b d (vs ++ ws) (ss ++ ts) := by
  refine ⟨?_, h₁.within.trans h₂.within, ?_, fun s hs => ?_, ?_⟩
  · rw [List.map_append, h₁.visits, h₂.visits]
  · rw [List.flatMap_append]
    exact h₁.owned.trans h₂.owned h₁.within h₂.within
  · exact (List.mem_append.1 hs).elim (h₁.reached s) (h₂.reached s)
  · rw [List.flatMap_append, ← List.append_assoc]
    exact h₂.origins.trans (h₁.origins.append_right _)

/-- **What one element contributes:** its own declaration and the nested aggregates of owners that it reaches, all in
the unit from which it is taken. -/
theorem take_contributes (hd : h.document.Indexed) {slot : Nat} {unit : String} {i : NodeId}
    (hi : (unit, i) ∈ h.visits) (hc : Settled h c) (hreads : c.ReadsUnit slot unit) :
    ∃ s, Builder.Contributed h c (c.run (Build.take h slot unit i)).2 [(unit, i)] [s] := by
  have hplaced : h.document.Placed i := Headers.placed_of_mem_visits hd hi
  obtain ⟨owners, ht⟩ := take_turn hd hplaced hc hreads.1 unit
  generalize declarationsOf (c.run (Build.declaration h i)).1 = own at ht
  refine ⟨⟨unit, i, own, owners⟩, rfl, ht.within, ?_, fun s hs k hk => ?_, ?_⟩
  · rw [List.flatMap_singleton]
    exact ht.owned.perm (.refl _) (List.nil_subset _)
  · obtain rfl := List.mem_singleton.1 hs
    exact ht.reached k hk
  · obtain ⟨es, hes, hperm⟩ := ht.module
    rw [hes, hreads.1, List.flatMap_singleton]
    have horigins := (Module.located_adding hreads.2
      (es ++ own.map fun decl => ⟨some i, decl⟩)).map fun p => (p.1, p.2.origin)
    refine horigins.trans ?_
    rw [List.map_append]
    refine List.Perm.append_left _ ?_
    have hes' := hperm.map fun e : Entry => (Text.asciiLower unit, e.origin)
    rw [List.map_map] at hes'
    simp only [Contribution.placed, Contribution.origins, List.map_append, List.map_map]
    exact hes'.append (.refl _)

theorem accounts_contributed (hd : h.document.Indexed) :
    Accounts h fun b c visits => ∃ ss, Builder.Contributed h b c visits ss := by
  refine ⟨fun b c _ hbc _ hopened => ⟨[], .still hbc hopened.located⟩, ?_, fun slot unit i c hi hc hreads => ?_⟩
  · rintro b c d vs ws ⟨ss, hss⟩ ⟨ts, hts⟩
    exact ⟨ss ++ ts, hss.trans hts⟩
  · obtain ⟨s, hs⟩ := take_contributes hd hi hc hreads
    exact ⟨[s], hs⟩

end Contributed

/-! ## Units of their own -/

/-- every declaration of a module is read from an element whose file belongs to the unit of the declaration -/
def Module.InOwnUnits (d : Document) (M : Module) : Prop :=
  ∀ u ∈ M.units, ∀ e ∈ u.entries, ∃ j, e.origin = some j ∧ d.InUnit u.name j

theorem Module.mem_origins {M : Module} {p : String × Option NodeId} :
    p ∈ M.origins ↔ ∃ u ∈ M.units, ∃ e ∈ u.entries, p = (Text.asciiLower u.name, e.origin) := by
  unfold Module.origins Module.located
  simp only [List.mem_map, List.mem_flatMap]
  constructor
  · rintro ⟨_, ⟨u, hu, e, he, rfl⟩, rfl⟩
    exact ⟨u, hu, e, he, rfl⟩
  · rintro ⟨u, hu, e, he, rfl⟩
    exact ⟨_, ⟨u, hu, e, he, rfl⟩, rfl⟩

theorem Contribution.mem_placed {d : Document} {s : Contribution} {p : String × Option NodeId} :
    p ∈ s.placed d ↔ ∃ j ∈ s.origins d, p = (Text.asciiLower s.unit, some j) := by
  simp only [placed, List.mem_map, eq_comm]

/-- A module whose elements come by contributions has them in their own units exactly if the nested aggregates that were
brought along are in the unit of the element that brought them. -/
theorem inOwnUnits_iff {d : Document} {M : Module} {ss : List Contribution}
    (horigins : M.origins.Perm (ss.flatMap (·.placed d))) (hown : ∀ s ∈ ss, d.InUnit s.unit s.element) :
    M.InOwnUnits d ↔ ∀ s ∈ ss, ∀ k ∈ s.owners, ∀ j ∈ d.siblings (d.node k), d.InUnit s.unit j := by
  constructor
  · intro hin s hs k hk j hj
    have hplaced : (Text.asciiLower s.unit, some j) ∈ M.origins := by
      refine horigins.mem_iff.2 (List.mem_flatMap.2 ⟨s, hs, Contribution.mem_placed.2 ⟨j, ?_, rfl⟩⟩)
      exact List.mem_append_left _ (List.mem_flatMap.2 ⟨k, hk, hj⟩)
    obtain ⟨u, hu, e, he, heq⟩ := Module.mem_origins.1 hplaced
    obtain ⟨hunit, horigin⟩ := Prod.mk.inj heq
    obtain ⟨j', hj', hinUnit⟩ := hin u hu e he
    obtain rfl := Option.some.inj (horigin.trans hj')
    exact hinUnit.congr hunit.symm
  · intro hnested u hu e he
    have hmem : (Text.asciiLower u.name, e.origin) ∈ M.origins := Module.mem_origins.2 ⟨u, hu, e, he, rfl⟩
    obtain ⟨s, hs, hplaced⟩ := List.mem_flatMap.1 (horigins.mem_iff.1 hmem)
    obtain ⟨j, hj, heq⟩ := Contribution.mem_placed.1 hplaced
    obtain ⟨hunit, horigin⟩ := Prod.mk.inj heq
    refine ⟨j, horigin, Document.InUnit.congr ?_ hunit.symm⟩
    rcases List.mem_append.1 hj with hj | hj
    · obtain ⟨k, hk, hjk⟩ := List.mem_flatMap.1 hj
      exact hnested s hs k hk j hjk
    · obtain ⟨_, -, rfl⟩ := List.mem_map.1 hj
      exact hown s hs

/-- **The units in which declarations land.** A module that is built from nothing consists of contributions, one for
each taken element in order: its own declaration, in the unit of its file, and the nested aggregates of owners that it
reaches and that were built on the way, in the same unit. So every declaration lands in the unit of its own file exactly
if all these nested aggregates name files of the units that they were brought into. -/
theorem declared_in_own_unit_iff (h : Headers) (name : String) (M : Module) (hd : h.document.Loaded)
    (hM : (h.model (.empty name)).1 = .ok M) :
    ∃ ss : List Contribution,
      ss.map (fun s => (s.unit, s.element)) = h.visits ∧
      (∀ s ∈ ss, h.document.InUnit s.unit s.element) ∧
      (ss.flatMap (·.owners)).Nodup ∧
      (∀ s ∈ ss, ∀ k ∈ s.owners, h.document.Reaches s.element k ∧
        (((Builder.new (.empty name)).run (Build.allFiles h)).2.aggregates.lookup k).isSome) ∧
      M.origins.Perm (ss.flatMap (·.placed h.document)) ∧
      (M.InOwnUnits h.document ↔
        ∀ s ∈ ss, ∀ k ∈ s.owners, ∀ j ∈ h.document.siblings (h.document.node k), h.document.InUnit s.unit j) := by
  obtain ⟨c, hrun, ⟨ss, hss⟩, -, rfl⟩ := (accounts_contributed hd.indexed).model hM
  rw [hrun]
  have hunits : ∀ s ∈ ss, h.document.InUnit s.unit s.element := by
    intro s hs
    refine inUnit_of_mem_visits hd.indexed ?_
    rw [← hss.visits]
    exact List.mem_map_of_mem hs
  refine ⟨ss, hss.visits, hunits, hss.owned.nodup, fun s hs k hk => ⟨hss.reached s hs k hk, ?_⟩, hss.origins,
    inOwnUnits_iff hss.origins hunits⟩
  exact (hss.owned.built k (List.mem_flatMap.2 ⟨s, hs, hk⟩)).2.1

/-! ## A base in another header -/

/-- an aggregate in a file `a.h` whose base, with a nested aggregate, is in a file `b.h` -/
def otherHeaderReading : Markup.Reading :=
  ⟨[.opens "CastXML" (some []) false,
    .opens "Namespace" (some [("id", "n")]) true,
    .opens "Struct" (some [("id", "s"), ("name", "SHAPE"), ("context", "n"), ("file", "f"), ("bases", "b")]) true,
    .opens "Struct" (some [("id", "b"), ("name", "BASE"), ("context", "n"), ("file", "g")]) true,
    .opens "Field" (some [("id", "m"), ("name", "inner"), ("type", "i"), ("context", "b"), ("file", "g")]) true,
    .opens "Struct" (some [("id", "i"), ("name", "In"), ("context", "b"), ("file", "g")]) true,
    .opens "File" (some [("id", "f"), ("name", "a.h")]) true,
    .opens "File" (some [("id", "g"), ("name", "b.h")]) true,
    .closes], false⟩

/-- its document, with `a.h` in scope and `b.h` not -/
def otherHeaders : Headers :=
  ⟨((Document.ofReading otherHeaderReading).toOption).getD (.ofRoot "" []), Scope.empty.addUnit "a" true []⟩

theorem otherHeaders_loaded : otherHeaders.document.Loaded := .read (r := otherHeaderReading) (by decide +kernel)

theorem otherHeaders_model :
    ∃ M, (otherHeaders.model (.empty "M")).1 = .ok M ∧ M.origins = [("a", some 4), ("a", some 1)] :=
  exists_ok_of_computed (f := Module.origins) (by decide +kernel)

/-- the nested aggregate of the base is in the other header only -/
theorem otherHeaders_not_inUnit : ¬otherHeaders.document.InUnit "a" 4 := by
  rintro ⟨file, name, hfile, hname, hunit⟩
  have hg : (otherHeaders.document.node 4).attr? "file" = some "g" := by decide +kernel
  obtain rfl := Option.some.inj (hg.symm.trans hfile)
  have hb : otherHeaders.document.unitOfFile "g" = .ok "b" := by decide +kernel
  obtain rfl := Except.ok.inj (hb.symm.trans hname)
  exact absurd hunit (by decide +kernel)

theorem otherHeaders_not_inOwnUnits {M : Module} (hmem : ("a", some 4) ∈ M.origins) :
    ¬M.InOwnUnits otherHeaders.document := by
  intro hin
  obtain ⟨u, hu, e, he, heq⟩ := Module.mem_origins.1 hmem
  obtain ⟨hunit, horigin⟩ := Prod.mk.inj heq
  obtain ⟨j, hj, hinUnit⟩ := hin u hu e he
  obtain rfl := Option.some.inj (horigin.trans hj)
  have hlower : Text.asciiLower "a" = "a" := by decide +kernel
  exact otherHeaders_not_inUnit (hinUnit.congr (hunit.symm.trans hlower.symm))

/-- the nested aggregate of a base is declared in a unit that its header has nothing to do with -/
theorem base_declared_elsewhere :
    ∃ M, otherHeaders.document.Loaded ∧ (otherHeaders.model (.empty "M")).1 = .ok M ∧
      M.origins = [("a", some 4), ("a", some 1)] ∧ ¬M.InOwnUnits otherHeaders.document := by
  obtain ⟨M, hM, horigins⟩ := otherHeaders_model
  refine ⟨M, otherHeaders_loaded, hM, horigins, otherHeaders_not_inOwnUnits ?_⟩
  rw [horigins]
  exact List.mem_cons_self

/-- so some element that was taken reaches an owner with a nested aggregate from another unit -/
theorem base_brought_along :
    ∃ (M : Module) (ss : List Contribution), (otherHeaders.model (.empty "M")).1 = .ok M ∧
      ss.map (fun s => (s.unit, s.element)) = otherHeaders.visits ∧
      ¬∀ s ∈ ss, ∀ k ∈ s.owners, ∀ j ∈ otherHeaders.document.siblings (otherHeaders.document.node k),
        otherHeaders.document.InUnit s.unit j := by
  obtain ⟨M, hM, horigins⟩ := otherHeaders_model
  obtain ⟨ss, hvisits, -, -, -, -, hiff⟩ := declared_in_own_unit_iff otherHeaders "M" M otherHeaders_loaded hM
  refine ⟨M, ss, hM, hvisits, fun hall => otherHeaders_not_inOwnUnits ?_ (hiff.2 hall)⟩
  rw [horigins]
  exact List.mem_cons_self

end HeaderModel
