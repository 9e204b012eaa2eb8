/-
What a skipped declaration leaves behind.

A declaration whose numbers cannot be read is skipped, and building goes on. It was meant to leave no trace, and the
nested aggregates that wait in it are given up. But a base is built as an outermost aggregate, and declares what waits
in it at once.
- `skipped_leaves_module_iff`: what a skipped declaration leaves in the module are the nested aggregates of bases that
  were built on the way, and of elements enclosed in those. It leaves nothing exactly if none of them has any.
- `failed_without_bases`: so a declaration that needs no base leaves nothing.
- `skipped_leaves_nested`: an aggregate whose base has a nested one, and that fails after it.
-/
import HeaderModel.Proofs.Turns

namespace HeaderModel

/-! ## Builders that building comes by -/

/-- the builders that requests, opened units and taken elements lead to -/
inductive Builder.Reachable (h : Headers) : Builder → Prop where
  | requested (m : Module) (requests : List Request) : Reachable h ((Builder.new m).afterAll h requests)
  | opened {c : Builder} (unit : String) : Reachable h c → Reachable h (c.opening unit)
  | taken {c : Builder} {slot : Nat} {unit : String} {i : NodeId} : Reachable h c → (unit, i) ∈ h.visits →
      c.ReadsUnit slot unit → Reachable h (c.run (Build.take h slot unit i)).2

theorem Builder.Reachable.settled {h : Headers} {c : Builder} (hc : Reachable h c) : Settled h c := by
  induction hc with
  | requested m requests => exact settled_afterAll h m requests
  | opened unit _ ih => exact ih.sameWork ⟨rfl, rfl, rfl, rfl⟩
  | taken _ _ _ ih => exact settled_take _ _ _ _ ih

/-! ## What is left -/

/-- What a skipped declaration of an element leaves in the unit that is read: the nested aggregates of owners that were
built on the way. They are bases, or enclosed in such. What else came to be remembered was dropped. -/
structure Builder.Remnants (h : Headers) (i : NodeId) (slot : Nat) (c d : Builder) (owners : List NodeId)
    (es : List Entry) : Prop where
  nodup : owners.Nodup
  built : ∀ k ∈ owners, c.aggregates.lookup k = none ∧ (d.aggregates.lookup k).isSome
  based : ∀ k ∈ owners, ∃ t ∈ owners, h.document.BaseOn i t ∧ (t = k ∨ h.document.EnclosesAmong owners t k)
  dropped : ∀ k, Dropped c d owners k →
    ∃ q, h.document.Holds q k ∧ (h.builds q = false ∨ Dropped c d owners q)
  module : d.module = c.module.adding (some slot) es
  entries : es.Perm ((h.document.siblingsOf owners).map (recordOf d.aggregates))

section Skipped

variable {h : Headers} {c d : Builder} {slot : Nat} {unit : String} {i : NodeId} {e : BuildError}
  {owners : List NodeId} {es : List Entry}

/-- an element that is read as an aggregate, and whose declaration fails, cannot be built -/
theorem builds_of_declaration_error (hc : Settled h c)
    (hdeclares : Build.declaresAggregate (h.document.node i) = true)
    (hfails : (c.run (Build.declaration h i)).1 = .error e) : h.builds i = false := by
  rw [Build.declaration_aggregate hdeclares, Builder.run_map] at hfails
  rw [← hc.isOk_aggregate i]
  cases ha : (c.run (Build.aggregate h i)).1 with
  | error e => rfl
  | ok a => rw [ha] at hfails; cases hfails

/-- the owners of a turn that failed are bases or enclosed in bases: the element itself is not among them -/
theorem Builder.Turn.remnants (ht : Turn h i c d owners []) (hc : Settled h c) (hslot : c.current = some slot)
    (hfails : (c.run (Build.declaration h i)).1 = .error e) : ∃ es, Remnants h i slot c d owners es := by
  obtain ⟨es, hes, hperm⟩ := ht.module
  rw [List.map_nil, List.append_nil, hslot] at hes
  refine ⟨es, ht.owned.nodup, fun k hk => ?_, fun k hk => ?_, fun k hk => ?_, hes, hperm⟩
  · obtain ⟨hnew, hsome, -⟩ := ht.owned.built k hk
    exact ⟨hnew, hsome⟩
  · obtain ⟨t, htmem, hroot | hbase, hpath⟩ := ht.based k hk
    · obtain ⟨hnew, hsome, -⟩ := ht.owned.built t htmem
      have hbuilds := builds_of_declaration_error hc (ht.aggregate t hnew hsome) hfails
      rw [← hroot, ht.settled.builds_of_isSome hsome] at hbuilds
      cases hbuilds
    · exact ⟨t, htmem, hbase, hpath⟩
  · obtain ⟨q, -, hholds, hq⟩ := ht.dropped k hk
    exact ⟨q, hholds, hq⟩

/-- nothing is left exactly if no owner has nested aggregates to declare -/
theorem Builder.Remnants.module_eq_iff (hr : Remnants h i slot c d owners es) (hslot : slot < c.module.units.length) :
    d.module = c.module ↔ ∀ k ∈ owners, h.document.siblings (h.document.node k) = [] := by
  rw [hr.module, Module.adding_eq_self_iff hslot]
  exact siblings_records_eq_nil_iff hr.entries

/-- a taken element whose declaration fails leaves remnants only -/
theorem failed_remnants (hd : h.document.Loaded) (hc : c.Reachable h) (hreads : c.ReadsUnit slot unit)
    (hi : (unit, i) ∈ h.visits) (hfails : (c.run (Build.declaration h i)).1 = .error e) :
    ∃ owners es, Builder.Remnants h i slot c (c.run (Build.take h slot unit i)).2 owners es := by
  have hplaced : h.document.Placed i := Headers.placed_of_mem_visits hd.indexed hi
  obtain ⟨owners, hturn⟩ := take_turn hd.indexed hplaced hc.settled hreads.1 unit
  rw [hfails] at hturn
  exact ⟨owners, hturn.remnants hc.settled hreads.1 hfails⟩

end Skipped

/-- **What a skipped declaration leaves behind.** If the declaration of a taken element fails with an error that does
not end the run, then building goes on. The module has grown by the nested aggregates of owners that were built on the
way: bases, and what is enclosed in bases. So it is what it was before exactly if none of these owners has a named
member whose type is nested in it. -/
theorem skipped_leaves_module_iff (h : Headers) (hd : h.document.Loaded) {c : Builder} (hc : c.Reachable h) {slot : Nat}
    {unit : String} {i : NodeId} (hreads : c.ReadsUnit slot unit) (hi : (unit, i) ∈ h.visits) {e : BuildError}
    (hfails : (c.run (Build.declaration h i)).1 = .error e) (hskipped : e.endsRun = false) :
    (c.run (Build.take h slot unit i)).1 = .ok ⟨⟩ ∧
      ∃ owners es, Builder.Remnants h i slot c (c.run (Build.take h slot unit i)).2 owners es ∧
        ((c.run (Build.take h slot unit i)).2.module = c.module ↔
          ∀ k ∈ owners, h.document.siblings (h.document.node k) = []) := by
  obtain ⟨owners, es, hremnants⟩ := failed_remnants hd hc hreads hi hfails
  refine ⟨?_, owners, es, hremnants, hremnants.module_eq_iff hreads.reads.2⟩
  rw [Build.run_take]
  generalize c.run (Build.declaration h i) = p at hfails
  obtain ⟨r, c'⟩ := p
  obtain rfl : r = .error e := hfails
  dsimp only
  rw [hskipped]
  rfl

/-- a declaration that fails and needs no base leaves the module as it was -/
theorem failed_without_bases (h : Headers) (hd : h.document.Loaded) {c : Builder} (hc : c.Reachable h) {slot : Nat}
    {unit : String} {i : NodeId} (hreads : c.ReadsUnit slot unit) (hi : (unit, i) ∈ h.visits) {e : BuildError}
    (hfails : (c.run (Build.declaration h i)).1 = .error e)
    (hbases : ∀ t, ¬h.document.BaseOn i t) : (c.run (Build.take h slot unit i)).2.module = c.module := by
  obtain ⟨owners, es, hremnants⟩ := failed_remnants hd hc hreads hi hfails
  refine (hremnants.module_eq_iff hreads.reads.2).2 fun k hk => ?_
  obtain ⟨t, -, hbase, -⟩ := hremnants.based k hk
  exact absurd hbase (hbases t)

/-! ## A base with a nested aggregate -/

/-- an aggregate in a file `a.h` with a member of a width that is no number, and a base with a nested aggregate -/
def skippedReading : Markup.Reading :=
  ⟨[.opens "CastXML" (some []) false,
    .opens "Namespace" (some [("id", "n")]) true,
    .opens "Struct" (some [("id", "s"), ("name", "SHAPE"), ("context", "n"), ("file", "f"), ("bases", "b")]) true,
    .opens "Field" (some [("id", "m1"), ("name", "wide"), ("type", "t"), ("bits", "x"), ("context", "s")]) true,
    .opens "Struct" (some [("id", "b"), ("name", "BASE"), ("context", "n")]) true,
    .opens "Field" (some [("id", "m2"), ("name", "inner"), ("type", "i"), ("context", "b")]) true,
    .opens "Struct" (some [("id", "i"), ("name", "In"), ("context", "b")]) true,
    .opens "FundamentalType" (some [("id", "t"), ("name", "int")]) true,
    .opens "File" (some [("id", "f"), ("name", "a.h")]) true,
    .closes], false⟩

/-- its document, with the file in scope -/
def skippedHeaders : Headers :=
  ⟨((Document.ofReading skippedReading).toOption).getD (.ofRoot "" []), Scope.empty.addUnit "a" true []⟩

/-- the builder that has just opened the unit of the file -/
def skippedBuilder : Builder := (Builder.new (.empty "M")).opening "a"

theorem skipped_loaded : skippedHeaders.document.Loaded := .read (r := skippedReading) (by decide +kernel)

theorem skipped_reachable : skippedBuilder.Reachable skippedHeaders := .opened "a" (.requested (.empty "M") [])

theorem skipped_readsUnit : skippedBuilder.ReadsUnit 0 "a" := ⟨rfl, by decide +kernel⟩

theorem skipped_visited : ("a", 1) ∈ skippedHeaders.visits := by decide +kernel

theorem skipped_fails :
    (skippedBuilder.run (Build.declaration skippedHeaders 1)).1 = .error (.badNumber "bits" "x" "m1") := by
  decide +kernel

theorem skipped_names :
    (skippedBuilder.run (Build.take skippedHeaders 0 "a" 1)).2.module.entries.map (·.decl.name) =
      ["BASE_In_INNER"] := by
  decide +kernel

/-- the declaration is skipped, and leaves the aggregate that is nested in its base -/
theorem skipped_leaves_nested :
    ∃ c : Builder, skippedHeaders.document.Loaded ∧ c.Reachable skippedHeaders ∧ c.ReadsUnit 0 "a" ∧
      ("a", 1) ∈ skippedHeaders.visits ∧
      (∃ e, (c.run (Build.declaration skippedHeaders 1)).1 = .error e ∧ e.endsRun = false) ∧
      (c.run (Build.take skippedHeaders 0 "a" 1)).2.module ≠ c.module := by
  refine ⟨skippedBuilder, skipped_loaded, skipped_reachable, skipped_readsUnit, skipped_visited,
    ⟨_, skipped_fails, rfl⟩, fun hsame => ?_⟩
  have hnames := skipped_names
  rw [hsame] at hnames
  exact absurd hnames (by decide +kernel)

/-- so an owner that was built on the way, a base or enclosed in one, has a nested aggregate to declare -/
theorem skipped_owner :
    ∃ owners es, Builder.Remnants skippedHeaders 1 0 skippedBuilder
        (skippedBuilder.run (Build.take skippedHeaders 0 "a" 1)).2 owners es ∧
      ¬∀ k ∈ owners, skippedHeaders.document.siblings (skippedHeaders.document.node k) = [] := by
  obtain ⟨-, owners, es, hremnants, hiff⟩ := skipped_leaves_module_iff skippedHeaders skipped_loaded skipped_reachable
    skipped_readsUnit skipped_visited skipped_fails rfl
  refine ⟨owners, es, hremnants, fun hnone => ?_⟩
  have hnames := skipped_names
  rw [hiff.2 hnone] at hnames
  exact absurd hnames (by decide +kernel)

end HeaderModel
