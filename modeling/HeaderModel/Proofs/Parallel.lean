/-
Building the module in parallel.

Two builders build the module in step if the left one remembers at least what the right one does (`Parallel`). They meet
the same errors, and read the same units. The left one may declare fewer nested aggregates, and under other names, so
its module is reduced: each entry that it has is the one of the right module, or both declare what their builders
remember of one element (`Recorded`).
- `Parallel.aggregate`, `Parallel.interface`: one element is built in parallel.
- `take_inStep`, `allFiles_inStep`: the comparison, element by element and file by file.
-/
import HeaderModel.Proofs.Declarations

namespace HeaderModel

/-! ## Parallel builders -/

namespace Builder

/-- an entry of the left builder's module and one of the right builder's: they are equal, or both declare what the
builders remember of one element -/
def Recorded (c b : Builder) (e e' : Entry) : Prop :=
  e = e' ∨ ∃ i a a', c.aggregates.lookup i = some a ∧ b.aggregates.lookup i = some a' ∧
    e = ⟨some i, .aggregate a⟩ ∧ e' = ⟨some i, .aggregate a'⟩

section Recorded

variable {c b c' b' : Builder} {e e' : Entry}

theorem Recorded.mono (he : Recorded c b e e') (hc : c.Within c') (hb : b.Within b') : Recorded c' b' e e' := by
  rcases he with rfl | ⟨i, a, a', ha, ha', rfl, rfl⟩
  · exact .inl rfl
  · exact .inr ⟨i, a, a', hc.aggregates i a ha, hb.aggregates i a' ha', rfl, rfl⟩

theorem Recorded.origin (he : Recorded c b e e') : e.origin = e'.origin := by
  rcases he with rfl | ⟨i, a, a', -, -, rfl, rfl⟩
  · rfl
  · rfl

theorem Recorded.isAggregate (he : Recorded c b e e') : e.isAggregate = e'.isAggregate := by
  rcases he with rfl | ⟨i, a, a', -, -, rfl, rfl⟩
  · rfl
  · rfl

end Recorded

/-- the left builder remembers all that the right one does, and its module has the same declarations, less some
aggregates -/
structure Parallel (h : Headers) (c b : Builder) : Prop where
  left : Settled h c
  right : Settled h b
  aggregates : ∀ i a', b.aggregates.lookup i = some a' →
    ∃ a, c.aggregates.lookup i = some a ∧ a.Alike h.document.Names i a'
  interfaces : ∀ i a, b.interfaces.lookup i = some a → c.interfaces.lookup i = some a
  current : c.current = b.current
  enumCounts : c.enumCounts = b.enumCounts
  module : c.module.Reduced (Recorded c b) b.module

namespace Parallel

variable {h : Headers} {c b c' b' : Builder} {i : NodeId} {slot : Nat}

theorem aggregatesLead (hp : Parallel h c b) : AggregatesLead h [] c b :=
  ⟨hp.left.underway, hp.left.aggregatesSound, hp.right.underway, hp.right.aggregatesSound, hp.aggregates⟩

theorem interfacesLead (hp : Parallel h c b) : InterfacesLead h [] c b :=
  ⟨hp.left.underway, hp.left.interfacesSound, hp.right.underway, hp.right.interfacesSound, hp.interfaces⟩

/-- both builders read the same unit -/
theorem reads (hp : Parallel h c b) (hreads : c.Reads slot) : b.Reads slot := by
  refine ⟨hp.current.symm.trans hreads.1, ?_⟩
  rw [← hp.module.length_units]
  exact hreads.2

/-- builders stay parallel while their memories do not change and their modules change alike -/
theorem sameWork (hp : Parallel h c b) (hc : SameWork c c') (hb : SameWork b b') (hcurrent : c'.current = b'.current)
    (hcounts : c'.enumCounts = b'.enumCounts) (hmodule : c'.module.Reduced (Recorded c b) b'.module) :
    Parallel h c' b' := by
  refine ⟨hp.left.sameWork hc, hp.right.sameWork hb, ?_, ?_, hcurrent, hcounts, ?_⟩
  · rw [hc.aggregates, hb.aggregates]
    exact hp.aggregates
  · rw [hc.interfaces, hb.interfaces]
    exact hp.interfaces
  · exact hmodule.mono fun e e' he => he.mono hc.within hb.within

end Parallel

end Builder

theorem Build.Agree.states {α β : Type} {R : Builder → Builder → Prop} {Q : α → β → Prop}
    {p : Except BuildError α × Builder} {q : Except BuildError β × Builder} (h : Agree False R Q p q) : R p.2 q.2 := by
  cases h with
  | ok _ hR => exact hR
  | error hR => exact hR
  | lenient hl => exact hl.elim

/-! ## One element in parallel -/

section Elements

variable {h : Headers} {c b : Builder} {i : NodeId} {slot : Nat}

/-- what building an aggregate adds to the module is remembered -/
theorem recorded_of_declared (hplaced : h.document.Placed i) (hc : Settled h c) (hreads : c.Reads slot)
    {es : List Entry} (hes : (c.run (Build.aggregate h i)).2.module = c.module.adding (some slot) es) {e : Entry}
    (he : e ∈ es) :
    ∃ j a, (c.run (Build.aggregate h i)).2.aggregates.lookup j = some a ∧ e = ⟨some j, .aggregate a⟩ := by
  obtain ⟨owners, hledger⟩ := Build.aggregate_ledger hplaced hc.aggregatesSound
  obtain ⟨es', hes', hperm⟩ := hledger.module
  rw [hes, hreads.1] at hes'
  have hsame : es.Perm es' := by
    have hleft := Module.entries_adding hreads.2 es
    rw [hes'] at hleft
    exact (List.perm_append_left_iff _).1 (hleft.symm.trans (Module.entries_adding hreads.2 es'))
  obtain ⟨j, hj, rfl⟩ := List.mem_map.1 ((hsame.trans hperm).mem_iff.1 he)
  have hknown := hledger.owned.known j (by simpa using hj)
  obtain ⟨a, ha⟩ := Option.isSome_iff_exists.1 hknown
  exact ⟨j, a, ha, recordOf_eq ha⟩

/-- an aggregate is built in parallel -/
theorem Builder.Parallel.aggregate (hp : Builder.Parallel h c b) (hplaced : h.document.Placed i)
    (hreads : c.Reads slot) :
    Build.Agree False (Builder.Parallel h) (Aggregate.Alike h.document.Names i) (c.run (Build.aggregate h i))
      (b.run (Build.aggregate h i)) := by
  have hagree := aggregate_inStep h i c b c b ⟨hp.aggregatesLead, .refl _ c b⟩
  obtain ⟨hlead, hquieter⟩ := hagree.states
  obtain ⟨-, hgrows, hwithin, -⟩ := Build.aggregate_recounts i c hp.left.aggregatesSound
  obtain ⟨-, hgrows', hwithin', -⟩ := Build.aggregate_recounts i b hp.right.aggregatesSound
  have hparallel : Builder.Parallel h (c.run (Build.aggregate h i)).2 (b.run (Build.aggregate h i)).2 := by
    refine ⟨settled_aggregate i c hp.left, settled_aggregate i b hp.right, hlead.covered.covered, ?_, ?_, ?_, ?_⟩
    · rw [Build.aggregate, Build.aggregateWithin_interfaces, Build.aggregateWithin_interfaces]
      exact hp.interfaces
    · rw [hgrows.current, hgrows'.current, hp.current]
    · rw [hgrows.enumCounts, hgrows'.enumCounts, hp.enumCounts]
    · obtain ⟨es, fs, hes, hfs, htrimmed⟩ := hquieter.module
      rw [hreads.1] at hes
      rw [(hp.reads hreads).1] at hfs
      have hold := hp.module.mono fun e e' he => he.mono hwithin hwithin'
      rw [hes, hfs]
      refine hold.adding (some slot) (htrimmed.mono fun e he e' he' halike => ?_)
      -- both entries come from one element, and each builder declares only what it remembers
      obtain ⟨j, a, ha, rfl⟩ := recorded_of_declared hplaced hp.left hreads hes he
      obtain ⟨j', a', ha', rfl⟩ := recorded_of_declared hplaced hp.right (hp.reads hreads) hfs he'
      obtain ⟨k, _, _, hk, hk', -⟩ := halike
      cases hk
      cases hk'
      exact .inr ⟨j, a, a', ha, ha', rfl, rfl⟩
  generalize c.run (Build.aggregate h i) = p, b.run (Build.aggregate h i) = q at hagree hparallel
  cases hagree with
  | ok halike _ => exact .ok halike hparallel
  | error _ => exact .error hparallel
  | lenient hl => exact hl.elim

/-- an interface is built in parallel -/
theorem Builder.Parallel.interface (hp : Builder.Parallel h c b) (i : NodeId) :
    Build.Agree False (Builder.Parallel h) Eq (c.run (Build.interface h i)) (b.run (Build.interface h i)) := by
  have hagree := interface_inStep h i c b hp.interfacesLead
  have hlead := hagree.states
  obtain ⟨-, hgrows, hwithin, -⟩ := Build.interface_recounts i c hp.left.interfacesSound
  obtain ⟨-, hgrows', hwithin', -⟩ := Build.interface_recounts i b hp.right.interfacesSound
  obtain ⟨haggregates, -, hmodule⟩ := Build.interfaceWithin_frame h (h.document.nodes.size + 1) i c
  obtain ⟨haggregates', -, hmodule'⟩ := Build.interfaceWithin_frame h (h.document.nodes.size + 1) i b
  have hparallel : Builder.Parallel h (c.run (Build.interface h i)).2 (b.run (Build.interface h i)).2 := by
    refine ⟨settled_interface i c hp.left, settled_interface i b hp.right, ?_, hlead.covered.covered, ?_, ?_, ?_⟩
    · unfold Build.interface
      rw [haggregates, haggregates']
      exact hp.aggregates
    · rw [hgrows.current, hgrows'.current, hp.current]
    · rw [hgrows.enumCounts, hgrows'.enumCounts, hp.enumCounts]
    · have hold := hp.module.mono fun e e' he => he.mono hwithin hwithin'
      rw [← hmodule, ← hmodule'] at hold
      exact hold
  generalize c.run (Build.interface h i) = p, b.run (Build.interface h i) = q at hagree hparallel
  cases hagree with
  | ok heq _ => exact .ok heq hparallel
  | error _ => exact .error hparallel
  | lenient hl => exact hl.elim

end Elements

/-! ## Taking elements in parallel -/

/-- two builders that read one unit, after they looked for the declaration of an element: both failed with one error,
both found none, or both found one that they may add to their modules -/
inductive Builder.Found (h : Headers) (slot : Nat) (i : NodeId) :
    Except BuildError (Option Declaration) × Builder → Except BuildError (Option Declaration) × Builder → Prop where
  | declared {d d' : Declaration} {c b : Builder} : Builder.Parallel h c b → c.Reads slot →
      Builder.Recorded c b ⟨some i, d⟩ ⟨some i, d'⟩ → Found h slot i (.ok (some d), c) (.ok (some d'), b)
  | none {c b : Builder} : Builder.Parallel h c b → c.Reads slot → Found h slot i (.ok none, c) (.ok none, b)
  | error {e : BuildError} {c b : Builder} : Builder.Parallel h c b → c.Reads slot →
      Found h slot i (.error e, c) (.error e, b)

section Taking

variable {h : Headers} {c b : Builder} {i : NodeId} {slot : Nat}

theorem Builder.Found.same (hp : Builder.Parallel h c b) (hreads : c.Reads slot)
    (r : Except BuildError (Option Declaration)) : Builder.Found h slot i (r, c) (r, b) := by
  rcases r with e | _ | d
  · exact .error hp hreads
  · exact .none hp hreads
  · exact .declared hp hreads (.inl rfl)

theorem declaration_found (hplaced : h.document.Placed i) (hp : Builder.Parallel h c b) (hreads : c.Reads slot) :
    Builder.Found h slot i (c.run (Build.declaration h i)) (b.run (Build.declaration h i)) := by
  have hreads' := declaration_reads hp.left hreads i
  rcases Build.declaration_cases h i with ⟨-, heq⟩ | ⟨-, heq⟩ | ⟨-, ⟨f, hf⟩, -⟩
  · have hagree := hp.aggregate hplaced hreads
    have hc := Build.aggregate_remembers i c hp.left.aggregatesSound
    have hb := Build.aggregate_remembers i b hp.right.aggregatesSound
    rw [heq, Builder.run_map] at hreads' ⊢
    rw [Builder.run_map]
    generalize c.run (Build.aggregate h i) = p, b.run (Build.aggregate h i) = q at hagree hc hb hreads'
    cases hagree with
    | @ok a a' _ _ _ hp => exact .declared hp hreads' (.inr ⟨i, a, a', hc a rfl, hb a' rfl, rfl, rfl⟩)
    | error hp => exact .error hp hreads'
    | lenient hl => exact hl.elim
  · have hagree := hp.interface i
    rw [heq, Builder.run_map] at hreads' ⊢
    rw [Builder.run_map]
    generalize c.run (Build.interface h i) = p, b.run (Build.interface h i) = q at hagree hreads'
    cases hagree with
    | ok heq hp =>
      subst heq
      exact .declared hp hreads' (.inl rfl)
    | error hp => exact .error hp hreads'
    | lenient hl => exact hl.elim
  · rw [hf, hf, hp.enumCounts]
    apply Builder.Found.same
    · exact hp.sameWork ⟨rfl, rfl, rfl, rfl⟩ ⟨rfl, rfl, rfl, rfl⟩ hp.current rfl hp.module
    · exact hreads

/-- an element is taken in parallel -/
theorem take_inStep (hplaced : h.document.Placed i) (slot : Nat) (unit : String) :
    Build.InStep False (fun c b => Builder.Parallel h c b ∧ c.Reads slot) Eq (Build.take h slot unit i)
      (Build.take h slot unit i) := by
  intro c b hcb
  have hfound := declaration_found hplaced hcb.1 hcb.2
  rw [Build.run_take, Build.run_take]
  generalize c.run (Build.declaration h i) = p, b.run (Build.declaration h i) = q at hfound
  cases hfound with
  | declared hp hreads he =>
    refine .ok rfl ⟨hp.sameWork ⟨rfl, rfl, rfl, rfl⟩ ⟨rfl, rfl, rfl, rfl⟩ ?_ ?_ ?_, hreads.adding slot _⟩
    · exact hp.current
    · exact hp.enumCounts
    · exact hp.module.add slot he
  | none hp hreads => exact .ok rfl ⟨hp, hreads⟩
  | error hp hreads =>
    dsimp only
    split_ifs
    · exact .error ⟨hp, hreads⟩
    · refine .ok rfl ⟨hp.sameWork ⟨rfl, rfl, rfl, rfl⟩ ⟨rfl, rfl, rfl, rfl⟩ ?_ ?_ ?_, hreads⟩
      · exact hp.current
      · exact hp.enumCounts
      · exact hp.module

/-- the elements of a file are taken in parallel -/
theorem file_inStep {f : String × List NodeId} (hplaced : ∀ i ∈ f.2, h.document.Placed i) :
    Build.InStep False (Builder.Parallel h) Eq (Build.file h f.1 f.2) (Build.file h f.1 f.2) := by
  unfold Build.file
  refine (Build.inStep_of _).bind fun unit unit' hunit => ?_
  obtain ⟨rfl, -⟩ := hunit
  split_ifs
  · split
    · exact .pure rfl
    · intro c b hp
      obtain ⟨hslot, hopened⟩ := hp.module.withUnit unit
      have hparallel : Builder.Parallel h (c.opening unit) (b.opening unit) :=
        hp.sameWork ⟨rfl, rfl, rfl, rfl⟩ ⟨rfl, rfl, rfl, rfl⟩ (congrArg some hslot) hp.enumCounts hopened
      have hreads : (c.opening unit).Reads (c.module.withUnit unit).1 := ⟨rfl, (Module.entries_withUnit ..).2⟩
      rw [Builder.run_bind, Builder.run_bind, Builder.run_openUnit, Builder.run_openUnit, ← hslot]
      refine Build.Agree.mono (R := fun c' b' => Builder.Parallel h c' b' ∧ c'.Reads (c.module.withUnit unit).1) ?_
        fun _ _ hcb => hcb.1
      refine Build.InStep.forM (fun i hi => ?_) _ _ ⟨hparallel, hreads⟩
      exact take_inStep (hplaced i (List.mem_of_mem_filter hi)) _ unit
  · exact .pure rfl

/-- **The module is built in parallel.** -/
theorem allFiles_inStep (hd : h.document.Indexed) :
    Build.InStep False (Builder.Parallel h) Eq (Build.allFiles h) (Build.allFiles h) := by
  unfold Build.allFiles
  refine (Build.InStep.forM fun f hf => file_inStep fun i hi => ?_).bind fun _ _ _ => ?_
  · exact hd.placed_of_listed (List.mem_flatMap.2 ⟨f, hf, hi⟩)
  · intro c b hp
    exact .ok rfl (hp.sameWork ⟨rfl, rfl, rfl, rfl⟩ ⟨rfl, rfl, rfl, rfl⟩ rfl hp.enumCounts hp.module)

end Taking

end HeaderModel
