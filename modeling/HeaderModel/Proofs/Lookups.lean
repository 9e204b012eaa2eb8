/-
Lookups before the module is built.

A lookup asks a builder for one aggregate or one interface. Before the module is built no unit is being read, so lookups
declare nothing; they only fill the memories.
- `module_after_lookups`: after lookups the module is built exactly if a fresh builder builds it. It has the same
  declarations, less some aggregates, and up to names.
- `allFiles_sameMemory`: what a builder remembers after it built the module is what it remembers after it looked the
  taken elements up.
-/
import HeaderModel.Proofs.Parallel

namespace HeaderModel

/-! ## Lookups -/

/-- the module that a builder makes after some requests -/
def Headers.modelAfter (h : Headers) (requests : List Request) (m : Module) : Except BuildError Module :=
  let (result, b) := ((Builder.new m).afterAll h requests).run (Build.allFiles h)
  result.map fun _ => b.module

section Lookups

variable {h : Headers} {b c : Builder} {requests : List Request}

theorem after_aggregate {id : String} {i : NodeId} (hi : h.document.placeOf id = .ok i) (b : Builder) :
    b.after h (.aggregate id) = (b.run (Build.aggregate h i)).2 := by
  show (b.run (Build.of (h.document.placeOf id) >>= Build.aggregate h)).2 = _
  rw [hi]
  rfl

/-- a lookup only adds to memories, to notices and to the unit that is being read -/
theorem Settled.after_grows (hb : Settled h b) {r : Request} (hr : r ≠ .all) :
    b.Grows (b.after h r) ∧ b.Within (b.after h r) := by
  cases r with
  | aggregate id =>
    have hafter : b.after h (.aggregate id) = (b.run (Build.of (h.document.placeOf id) >>= Build.aggregate h)).2 := rfl
    rw [hafter, Builder.run_bind, Builder.run_of]
    cases h.document.placeOf id with
    | error e => exact ⟨.refl b, .refl b⟩
    | ok i =>
      obtain ⟨-, hgrows, hwithin, -⟩ := Build.aggregate_recounts i b hb.aggregatesSound
      exact ⟨hgrows, hwithin⟩
  | interface id =>
    have hafter : b.after h (.interface id) = (b.run (Build.of (h.document.placeOf id) >>= Build.interface h)).2 := rfl
    rw [hafter, Builder.run_bind, Builder.run_of]
    cases h.document.placeOf id with
    | error e => exact ⟨.refl b, .refl b⟩
    | ok i =>
      obtain ⟨-, hgrows, hwithin, -⟩ := Build.interface_recounts i b hb.interfacesSound
      exact ⟨hgrows, hwithin⟩
  | all => exact absurd rfl hr

theorem Settled.afterAll_grows (hb : Settled h b) (hlookups : .all ∉ requests) :
    b.Grows (b.afterAll h requests) ∧ b.Within (b.afterAll h requests) := by
  induction requests generalizing b with
  | nil => exact ⟨.refl b, .refl b⟩
  | cons r requests ih =>
    rw [List.mem_cons, not_or] at hlookups
    obtain ⟨hr, hrest⟩ := hlookups
    obtain ⟨hgrows, hwithin⟩ := hb.after_grows (Ne.symm hr)
    obtain ⟨hgrows', hwithin'⟩ := ih (hb.after r) hrest
    exact ⟨hgrows.trans hgrows', hwithin.trans hwithin'⟩

/-- an aggregate that can be built is remembered after it was looked up -/
theorem Settled.remembers_looked_up (hb : Settled h b) (hlookups : .all ∉ requests) {id : String} {i : NodeId}
    (hid : .aggregate id ∈ requests) (hi : h.document.placeOf id = .ok i) (hbuilds : h.builds i = true) :
    ((b.afterAll h requests).aggregates.lookup i).isSome := by
  induction requests generalizing b with
  | nil => exact absurd hid List.not_mem_nil
  | cons r requests ih =>
    rw [List.mem_cons, not_or] at hlookups
    rcases List.mem_cons.1 hid with rfl | hid
    · have hwithin := ((hb.after (.aggregate id)).afterAll_grows hlookups.2).2
      have hok := hb.isOk_aggregate i
      have hremembers := Build.aggregate_remembers i b hb.aggregatesSound
      refine hwithin.isSome ?_
      rw [after_aggregate hi]
      cases ha : (b.run (Build.aggregate h i)).1 with
      | error e =>
        rw [ha, hbuilds] at hok
        cases hok
      | ok a => exact Option.isSome_iff_exists.2 ⟨a, hremembers a ha⟩
    · exact ih (hb.after r) hlookups.2 hid

/-- a builder that looked things up and a fresh one are parallel -/
theorem parallel_lookups (h : Headers) (m : Module) (hlookups : .all ∉ requests) :
    Builder.Parallel h ((Builder.new m).afterAll h requests) (Builder.new m) := by
  obtain ⟨hgrows, -⟩ := (settled_new h m).afterAll_grows hlookups
  obtain ⟨es, hes, -⟩ := hgrows.module
  refine ⟨settled_afterAll h m requests, settled_new h m, ?_, ?_, hgrows.current, hgrows.enumCounts, ?_⟩
  · intro i a' hi
    cases hi
  · intro i a hi
    cases hi
  · rw [hes]
    exact .refl (fun e => .inl rfl) m

end Lookups

/-- **After lookups the module is reduced.** It is built, or fails with the same error, as with a fresh builder. It has
the same units and the same declarations in the same order, but some aggregates may be missing, and names of nested
aggregates may differ. -/
theorem module_after_lookups (h : Headers) (m : Module) (hd : h.document.Loaded) (requests : List Request)
    (hlookups : .all ∉ requests) :
    Agreeing (fun M' M => M'.Reduced (fun e e' => e = e' ∨ e.Alike h.document.Renamed e') M)
      (h.modelAfter requests m) (h.model m).1 := by
  have hagree := allFiles_inStep hd.indexed _ _ (parallel_lookups h m hlookups)
  unfold Headers.modelAfter Headers.model
  generalize ((Builder.new m).afterAll h requests).run (Build.allFiles h) = p,
    (Builder.new m).run (Build.allFiles h) = q at hagree
  cases hagree with
  | ok _ hp =>
    refine hp.module.mono fun e e' he => ?_
    rcases he with rfl | ⟨i, a, a', ha, ha', rfl, rfl⟩
    · exact .inl rfl
    · obtain ⟨a₀, ha₀, halike⟩ := hp.aggregates i a' ha'
      obtain rfl := Option.some.inj (ha.symm.trans ha₀)
      exact .inr ⟨i, a, a', rfl, rfl, halike.mono fun _ _ _ hs => hs.renamed⟩
  | error _ => exact rfl
  | lenient hl => exact hl.elim

/-! ## Builders with the same memory -/

theorem Aggregate.Alike.rfl {Names : NodeId → String → String → Prop} (hNames : ∀ i s, Names i s s) {i : NodeId}
    {a : Aggregate} : a.Alike Names i a := by
  refine ⟨hNames i a.name, Eq.refl _, ?_, List.forall₂_same.2 fun f _ => .refl Names f⟩
  cases a.base with
  | none => exact .none
  | some s => exact .some ⟨i, hNames i s⟩

namespace Builder

/-- two builders remember the same aggregates, and are inside the same elements -/
structure SameMemory (c b : Builder) : Prop where
  aggregates : c.aggregates = b.aggregates
  underway : c.underway = b.underway

end Builder

/-- what building an aggregate gives, and what is remembered after it, depends on nothing but memory -/
theorem aggregateWithin_sameMemory (h : Headers) (levels : Nat) (i : NodeId) (outer : Option Build.Enclosing) :
    Build.InStep False Builder.SameMemory (Aggregate.Alike (fun _ => Eq) i) (Build.aggregateWithin h levels i outer)
      (Build.aggregateWithin h levels i outer) := by
  induction levels generalizing i outer with
  | zero => exact .throw _
  | succ levels ih =>
    intro c b hcb
    rw [Builder.run_aggregateWithin, Builder.run_aggregateWithin, hcb.aggregates, hcb.underway]
    cases b.aggregates.lookup i with
    | some a => exact .ok (.rfl fun _ _ => rfl) hcb
    | none =>
      by_cases hi : i ∈ b.underway
      · simp only [hi, if_true]
        exact .error hcb
      · simp only [hi, if_false]
        have hbody : Build.InStep False Builder.SameMemory (Aggregate.Alike (fun _ => Eq) i)
            (Build.aggregateBody h (Build.aggregateWithin h levels) (h.document.node i) outer)
            (Build.aggregateBody h (Build.aggregateWithin h levels) (h.document.node i) outer) := by
          refine Build.aggregateBody_inStep ⟨?_, ?_⟩ rfl (fun j _ => ih j none) fun j k _ => ih j _
          · exact fun c b _ hcb => ⟨hcb.aggregates, hcb.underway⟩
          · exact fun c b _ _ _ hcb => ⟨hcb.aggregates, hcb.underway⟩
        have hagree := hbody (c.claiming i) (b.claiming i) ⟨hcb.aggregates, congrArg (i :: ·) hcb.underway⟩
        generalize (c.claiming i).run (Build.aggregateBody h (Build.aggregateWithin h levels) (h.document.node i) outer)
          = p, (b.claiming i).run (Build.aggregateBody h (Build.aggregateWithin h levels) (h.document.node i) outer) = q
          at hagree
        cases hagree with
        | ok halike hcb' =>
          refine .ok halike ⟨?_, congrArg (·.erase i) hcb'.underway⟩
          rw [Builder.finishing, Builder.finishing, halike.eq, hcb'.aggregates]
        | error hcb' => exact .error ⟨hcb'.aggregates, congrArg (·.erase i) hcb'.underway⟩
        | lenient hl => exact hl.elim

section SameMemory

variable {h : Headers} {c d : Builder}

theorem Builder.SameMemory.aggregate (hcd : c.SameMemory d) (i : NodeId) :
    (c.run (Build.aggregate h i)).2.SameMemory (d.run (Build.aggregate h i)).2 :=
  (aggregateWithin_sameMemory h _ i none c d hcd).states

/-- lookups of the elements among some that declare aggregates -/
def Headers.lookupsOf (h : Headers) (taken : List NodeId) : List Request :=
  (taken.filter fun i => Build.declaresAggregate (h.document.node i)).map fun i => .aggregate (h.document.node i).id

theorem all_notMem_lookupsOf (h : Headers) (taken : List NodeId) : .all ∉ h.lookupsOf taken := by
  intro hall
  obtain ⟨i, -, hi⟩ := List.mem_map.1 hall
  cases hi

/-- taking an element fills the memory like looking it up -/
theorem accounts_sameMemory (hd : h.document.Indexed) :
    Accounts h fun b c visits =>
      ∀ d, b.SameMemory d → c.SameMemory (d.afterAll h (h.lookupsOf (visits.map (·.2)))) := by
  refine ⟨?_, ?_, ?_⟩
  · intro b c hb hbc _ _ d hbd
    exact ⟨hbc.aggregates.trans hbd.aggregates, hbc.underway.trans hbd.underway⟩
  · intro b c d vs ws hbc hcd e hbe
    have hsplit : h.lookupsOf ((vs ++ ws).map (·.2)) = h.lookupsOf (vs.map (·.2)) ++ h.lookupsOf (ws.map (·.2)) := by
      simp [Headers.lookupsOf]
    rw [hsplit, Builder.afterAll_append]
    exact hcd _ (hbc e hbe)
  · intro slot unit i c hi hc hreads d hcd
    have hplaced := Headers.placed_of_mem_visits hd hi
    have hsettled := settled_declaration i c hc
    have hsame : (c.run (Build.declaration h i)).2.SameMemory (d.afterAll h (h.lookupsOf [i])) := by
      by_cases hdeclares : Build.declaresAggregate (h.document.node i) = true
      · have hone : h.lookupsOf [i] = [.aggregate (h.document.node i).id] := by simp [Headers.lookupsOf, hdeclares]
        have hafter : d.afterAll h [.aggregate (h.document.node i).id] = (d.run (Build.aggregate h i)).2 :=
          after_aggregate (hd.placeOf_id hplaced) d
        rw [hone, hafter, Build.declaration_aggregate hdeclares, Builder.run_map]
        exact hcd.aggregate i
      · have hnone : h.lookupsOf [i] = [] := by simp [Headers.lookupsOf, hdeclares]
        obtain ⟨haggregates, -⟩ := declaration_other hc (by simpa using hdeclares)
        rw [hnone]
        exact ⟨haggregates.trans hcd.aggregates, hsettled.underway.trans (hc.underway.symm.trans hcd.underway)⟩
    rw [Build.run_take]
    generalize c.run (Build.declaration h i) = p at hsame
    obtain ⟨e | _ | decl, c'⟩ := p
    · dsimp only
      split_ifs
      · exact hsame
      · exact ⟨hsame.aggregates, hsame.underway⟩
    · exact hsame
    · exact ⟨hsame.aggregates, hsame.underway⟩

/-- **Building the module fills the memory like looking the taken elements up.** -/
theorem allFiles_sameMemory (hd : h.document.Indexed) (hc : Settled h c)
    (hrun : (c.run (Build.allFiles h)).1 = .ok ⟨⟩) :
    (c.run (Build.allFiles h)).2.SameMemory (c.afterAll h (h.lookupsOf h.taken)) := by
  rw [← h.map_snd_visits]
  exact (accounts_sameMemory hd).allFiles hc hrun c ⟨rfl, rfl⟩

end SameMemory

end HeaderModel
