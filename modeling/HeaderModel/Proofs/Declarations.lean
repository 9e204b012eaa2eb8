/-
The aggregates that a module declares.

An aggregate is declared on two ways: because its element is taken from a file, or beside an owner that was built.
`Builder.Pages` accounts for both, over any list of elements that were taken; the accounts of two runs add up.
- `take_pages`: what taking one element declares.
- `allFiles_pages`: what building the module declares. Which elements are taken, and which of those declare an
  aggregate, does not depend on the history of the builder.
-/
import HeaderModel.Proofs.History
import HeaderModel.Proofs.Ledger
import HeaderModel.Proofs.Taking

namespace HeaderModel

/-! ## Elements that declare aggregates -/

namespace Headers

/-- whether an element can be built as an aggregate -/
def builds (h : Headers) (i : NodeId) : Bool := ((Builder.new (.empty "")).run (Build.aggregate h i)).1.isOk

/-- the elements among some that declare an aggregate when they are taken -/
def declaring (h : Headers) (taken : List NodeId) : List NodeId :=
  taken.filter fun i => Build.declaresAggregate (h.document.node i) && h.builds i

end Headers

/-- a taken element stands in a namespace -/
theorem namespace_of_mem_taken {h : Headers} {i : NodeId} (hi : i ∈ h.taken) :
    ∃ p, (h.document.node i).parent = some p ∧ (h.document.node p).kind = .namespaceScope := by
  obtain ⟨f, -, hf⟩ := List.mem_flatMap.1 hi
  unfold Headers.takenFrom at hf
  split at hf
  · exact absurd hf List.not_mem_nil
  · split_ifs at hf
    · split at hf
      · exact absurd hf List.not_mem_nil
      · have htaken := (List.mem_filter.1 hf).2
        unfold Build.isTaken Build.isInNamespace at htaken
        simp only [Bool.and_eq_true] at htaken
        have hparent := htaken.1.1.1
        cases hp : (h.document.node i).parent with
        | none => rw [hp] at hparent; cases hparent
        | some p =>
          rw [hp] at hparent
          exact ⟨p, rfl, by simpa using hparent⟩
    · exact absurd hf List.not_mem_nil

/-- an element that is taken and nested is nested in a namespace -/
theorem kind_of_mem_taken {h : Headers} (hd : h.document.Indexed) {k j : NodeId} (hk : h.document.Placed k)
    (hj : Build.isNestedIn (h.document.node k) (h.document.node j) = true) (htaken : j ∈ h.taken) :
    (h.document.node k).kind = .namespaceScope := by
  obtain ⟨p, hp, hkind⟩ := namespace_of_mem_taken htaken
  obtain ⟨context, hcontext, hplace⟩ :=
    hd.context_of_parent (hd.placed_of_listed (h.taken_sublist.subset htaken)) hp
  obtain rfl := Option.some.inj (hcontext.symm.trans (Document.context_of_isNestedIn hj))
  obtain rfl := Except.ok.inj (hplace.symm.trans (hd.placeOf_id hk))
  exact hkind

theorem Settled.noting {h : Headers} {c : Builder} (hc : Settled h c) (ns : List Notice) : Settled h (c.noting ns) :=
  ⟨hc.aggregates, hc.interfaces, hc.underway, hc.waiting⟩

theorem Settled.adding {h : Headers} {c : Builder} (hc : Settled h c) {slot : Nat} {entry : Entry} :
    Settled h (c.adding slot entry) :=
  ⟨hc.aggregates, hc.interfaces, hc.underway, hc.waiting⟩

/-- a settled builder builds an aggregate if a fresh one does -/
theorem Settled.isOk_aggregate {h : Headers} {c : Builder} (hc : Settled h c) (i : NodeId) :
    (c.run (Build.aggregate h i)).1.isOk = h.builds i := by
  have hagree := aggregate_inStep h i c (.new (.empty "")) c (.new (.empty "")) ⟨hc.aggregatesLead_new _, .refl _ _ _⟩
  unfold Headers.builds
  generalize c.run (Build.aggregate h i) = p, (Builder.new (.empty "")).run (Build.aggregate h i) = q at hagree
  cases hagree with
  | ok _ _ => rfl
  | error _ => rfl
  | lenient hl => exact hl.elim

/-- what is remembered is answered -/
theorem answer_of_remembered {h : Headers} {c : Builder} {i : NodeId} {a : Aggregate}
    (ha : c.aggregates.lookup i = some a) : (c.run (Build.aggregate h i)).1 = .ok a := by
  rw [Build.aggregate, Builder.run_aggregateWithin, ha]

/-- what a settled builder remembers can be built -/
theorem Settled.builds_of_isSome {h : Headers} {c : Builder} (hc : Settled h c) {i : NodeId}
    (hi : (c.aggregates.lookup i).isSome) : h.builds i = true := by
  obtain ⟨a, ha⟩ := Option.isSome_iff_exists.1 hi
  rw [← hc.isOk_aggregate i, answer_of_remembered ha]
  rfl

/-! ## Accounts of taken elements -/

namespace Builder

/-- all aggregates that were declared between two settled builders: those of taken elements, and the nested ones of
owners that were built between them -/
structure Pages (h : Headers) (b c : Builder) (taken owners : List NodeId) : Prop where
  settled : Settled h c
  within : b.Within c
  owned : Owned h b c owners (h.declaring taken ++ h.document.siblingsOf owners)
  entries : c.module.aggregateEntries.Perm (b.module.aggregateEntries ++
    (h.declaring taken ++ h.document.siblingsOf owners).map (recordOf c.aggregates))

section Pages

variable {h : Headers} {b c d : Builder} {taken taken' owners owners' : List NodeId}

/-- no aggregate is declared -/
theorem Pages.still (hc : Settled h c) (hwithin : b.Within c)
    (hmodule : c.module.aggregateEntries.Perm b.module.aggregateEntries) (htaken : h.declaring taken = []) :
    Pages h b c taken [] := by
  refine ⟨hc, hwithin, ?_, ?_⟩
  · rw [htaken]
    exact .nil h b c
  · rw [htaken]
    exact hmodule.trans (.of_eq (List.append_nil _).symm)

theorem Pages.noting (hp : Pages h b c taken owners) (ns : List Notice) : Pages h b (c.noting ns) taken owners :=
  ⟨hp.settled.noting ns, ⟨hp.within.aggregates, hp.within.interfaces⟩,
    ⟨hp.owned.built, hp.owned.nodup, hp.owned.known⟩, hp.entries⟩

theorem Pages.trans (h₁ : Pages h b c taken owners) (h₂ : Pages h c d taken' owners') :
    Pages h b d (taken ++ taken') (owners ++ owners') := by
  have hmix : (h.declaring (taken ++ taken') ++ h.document.siblingsOf (owners ++ owners')).Perm
      ((h.declaring taken ++ h.document.siblingsOf owners) ++
        (h.declaring taken' ++ h.document.siblingsOf owners')) := by
    rw [Headers.declaring, List.filter_append, Document.siblingsOf_append]
    exact append_parts_perm ..
  refine ⟨h₂.settled, h₁.within.trans h₂.within,
    (h₁.owned.trans h₂.owned h₁.within h₂.within).perm (.refl _) fun j hj => hmix.mem_iff.1 hj, ?_⟩
  have hfirst := h₁.entries
  rw [← h₂.within.map_recordOf h₁.owned.known] at hfirst
  refine h₂.entries.trans ((hfirst.append_right _).trans ?_)
  rw [List.append_assoc, ← List.map_append]
  exact List.Perm.append_left _ (hmix.symm.map _)

end Pages

end Builder

/-! ## Taking elements -/

section Taking

variable {h : Headers} {c : Builder} {i : NodeId} {slot : Nat}

theorem declaring_of_builds {i : NodeId} (hdeclares : Build.declaresAggregate (h.document.node i) = true)
    (hbuilds : h.builds i = true) : h.declaring [i] = [i] := by
  simp [Headers.declaring, hdeclares, hbuilds]

theorem declaring_of_not_builds {i : NodeId}
    (h' : Build.declaresAggregate (h.document.node i) = false ∨ h.builds i = false) : h.declaring [i] = [] := by
  rcases h' with h' | h' <;> simp [Headers.declaring, h']

theorem filter_recordOf (memory : List (NodeId × Aggregate)) (js : List NodeId) :
    (js.map (recordOf memory)).filter Entry.isAggregate = js.map (recordOf memory) :=
  List.filter_eq_self.2 fun e he => by
    obtain ⟨j, -, rfl⟩ := List.mem_map.1 he
    rfl

theorem filterMap_origin_recordOf (memory : List (NodeId × Aggregate)) (js : List NodeId) :
    (js.map (recordOf memory)).filterMap (·.origin) = js := by
  rw [List.filterMap_map]
  exact List.filterMap_some

/-- an added declaration that is no aggregate changes no account -/
theorem aggregateEntries_add {m : Module} (hslot : slot < m.units.length) {entry : Entry}
    (hentry : entry.isAggregate = false) : (m.add slot entry).aggregateEntries.Perm m.aggregateEntries := by
  have hperm := (Module.entries_add hslot entry).filter Entry.isAggregate
  rwa [List.filter_append, List.filter_singleton, hentry, cond_false, List.append_nil] at hperm

/-- building an aggregate while a unit is being read declares the nested ones of owners -/
theorem aggregate_pages (hplaced : h.document.Placed i) (hc : Settled h c) (hreads : c.Reads slot) :
    ∃ owners, Builder.Pages h c (c.run (Build.aggregate h i)).2 [] owners := by
  obtain ⟨-, -, hwithin, -⟩ := Build.aggregate_recounts i c hc.aggregatesSound
  obtain ⟨owners, hledger⟩ := Build.aggregate_ledger hplaced hc.aggregatesSound
  have hsettled := settled_aggregate i c hc
  generalize (c.run (Build.aggregate h i)).2 = d at *
  obtain ⟨es, hes, hperm⟩ := hledger.module
  rw [hreads.1] at hes
  have howned := hledger.owned
  rw [List.append_nil, List.append_nil] at howned
  have hentries := (Module.entries_adding hreads.2 es).filter Entry.isAggregate
  rw [List.filter_append, ← hes] at hentries
  have hfilter := hperm.filter Entry.isAggregate
  rw [filter_recordOf] at hfilter
  exact ⟨owners, hsettled, hwithin, howned, hentries.trans (List.Perm.append_left _ hfilter)⟩

/-- the declaration of a taken aggregate that is remembered -/
theorem Builder.Pages.declare {a : Aggregate} (hc : Settled h c) (hslot : slot < c.module.units.length)
    (hdeclares : Build.declaresAggregate (h.document.node i) = true) (hbuilds : h.builds i = true)
    (ha : c.aggregates.lookup i = some a) : Pages h c (c.adding slot ⟨some i, .aggregate a⟩) [i] [] := by
  have hdeclaring : h.declaring [i] = [i] := declaring_of_builds hdeclares hbuilds
  refine ⟨⟨hc.aggregates, hc.interfaces, hc.underway, hc.waiting⟩, ⟨fun _ _ => id, fun _ _ => id⟩,
    ⟨fun _ hk => absurd hk List.not_mem_nil, .nil, fun j hj => ?_⟩, ?_⟩
  · rw [hdeclaring, Document.siblingsOf_nil, List.append_nil] at hj
    obtain rfl := List.mem_singleton.1 hj
    exact Option.isSome_iff_exists.2 ⟨a, ha⟩
  · rw [hdeclaring, Document.siblingsOf_nil, List.append_nil, List.map_singleton]
    have hperm := (Module.entries_add hslot ⟨some i, .aggregate a⟩).filter Entry.isAggregate
    rw [List.filter_append] at hperm
    show ((c.module.add slot ⟨some i, .aggregate a⟩).aggregateEntries).Perm (_ ++ [recordOf c.aggregates i])
    rw [recordOf_eq ha]
    exact hperm

/-- an element that declares no aggregate touches no memory of aggregates when it is taken -/
theorem declaration_other (hc : Settled h c) (hnot : Build.declaresAggregate (h.document.node i) = false) :
    (c.run (Build.declaration h i)).2.aggregates = c.aggregates ∧ c.Within (c.run (Build.declaration h i)).2 ∧
      (c.run (Build.declaration h i)).2.module = c.module ∧
      ∀ a, (c.run (Build.declaration h i)).1 ≠ .ok (some (.aggregate a)) := by
  rcases Build.declaration_cases h i with ⟨hdeclares, -⟩ | ⟨-, heq⟩ | ⟨-, ⟨f, hf⟩, hother⟩
  · rw [hnot] at hdeclares
    cases hdeclares
  · rw [heq, Builder.run_map]
    obtain ⟨haggregates, -, hmodule⟩ := Build.interfaceWithin_frame h (h.document.nodes.size + 1) i c
    obtain ⟨-, -, hwithin, -⟩ := Build.interface_recounts i c hc.interfacesSound
    refine ⟨haggregates, hwithin, hmodule, fun a ha => ?_⟩
    generalize (c.run (Build.interface h i)).1 = r at ha
    cases r <;> cases ha
  · refine ⟨?_, ?_, ?_, hother c⟩ <;> rw [hf]
    · rfl
    · exact ⟨fun _ _ => id, fun _ _ => id⟩
    · rfl

/-- what taking one element declares -/
theorem take_pages {unit : String} (hplaced : h.document.Placed i) (hc : Settled h c) (hreads : c.Reads slot) :
    ∃ owners, Builder.Pages h c (c.run (Build.take h slot unit i)).2 [i] owners := by
  rw [Build.run_take]
  have hreads' := declaration_reads hc hreads i
  by_cases hdeclares : Build.declaresAggregate (h.document.node i) = true
  · rw [Build.declaration_aggregate hdeclares, Builder.run_map] at hreads' ⊢
    obtain ⟨owners, hpages⟩ := aggregate_pages hplaced hc hreads
    have hok := hc.isOk_aggregate i
    have hremembers := Build.aggregate_remembers i c hc.aggregatesSound
    generalize c.run (Build.aggregate h i) = p at hpages hreads' hok hremembers
    obtain ⟨e | a, d⟩ := p
    · have hnone : h.declaring [i] = [] := declaring_of_not_builds (.inr hok.symm)
      have hstill : Builder.Pages h d d [i] [] := .still hpages.settled (.refl d) (.refl _) hnone
      have hpages' := hpages.trans hstill
      rw [List.nil_append] at hpages'
      dsimp only [Except.map]
      split_ifs
      · exact ⟨_, hpages'⟩
      · exact ⟨_, hpages'.noting _⟩
    · have hdeclared := Builder.Pages.declare hpages.settled hreads'.2 hdeclares hok.symm (hremembers a rfl)
      exact ⟨_, hpages.trans hdeclared⟩
  · have hnot : Build.declaresAggregate (h.document.node i) = false := by simpa using hdeclares
    have hnone : h.declaring [i] = [] := declaring_of_not_builds (.inl hnot)
    have hsettled := settled_declaration i c hc
    obtain ⟨-, hwithin, hmodule, hother⟩ := declaration_other hc hnot
    generalize c.run (Build.declaration h i) = p at hsettled hreads' hwithin hmodule hother
    have hstill : Builder.Pages h c p.2 [i] [] := .still hsettled hwithin (.of_eq (congrArg _ hmodule)) hnone
    obtain ⟨e | _ | decl, d⟩ := p
    · dsimp only
      split_ifs
      · exact ⟨_, hstill⟩
      · exact ⟨_, hstill.noting _⟩
    · exact ⟨_, hstill⟩
    · have hentry : (⟨some i, decl⟩ : Entry).isAggregate = false := by
        cases decl with
        | aggregate a => exact absurd rfl (hother a)
        | _ => rfl
      refine ⟨_, .still hsettled.adding ⟨hwithin.aggregates, hwithin.interfaces⟩ ?_ hnone⟩
      exact (aggregateEntries_add hreads'.2 hentry).trans (.of_eq (congrArg _ hmodule))

theorem accounts_pages (hd : h.document.Indexed) :
    Accounts h fun b c visits => ∃ owners, Builder.Pages h b c (visits.map (·.2)) owners := by
  refine ⟨fun b c hb hbc _ hopened => ?_, fun b c d vs ws hbc hcd => ?_, fun slot unit i c hi hc hreads => ?_⟩
  · have hentries : c.module.entries = b.module.entries := by
      rw [Module.entries_eq_located, hopened.located, Module.entries_eq_located]
    exact ⟨[], .still (hb.sameWork hbc) hbc.within (.of_eq (congrArg (List.filter _) hentries)) rfl⟩
  · obtain ⟨owners, hbc⟩ := hbc
    obtain ⟨owners', hcd⟩ := hcd
    rw [List.map_append]
    exact ⟨owners ++ owners', hbc.trans hcd⟩
  · exact take_pages (Headers.placed_of_mem_visits hd hi) hc hreads.reads

/-- **What building the module declares:** the taken elements that can be built, and the nested aggregates of owners
that were built on the way, each as often as its owner has named members of it. -/
theorem allFiles_pages (hd : h.document.Indexed) (hc : Settled h c) (hrun : (c.run (Build.allFiles h)).1 = .ok ⟨⟩) :
    ∃ owners, Builder.Pages h c (c.run (Build.allFiles h)).2 h.taken owners := by
  rw [← h.map_snd_visits]
  exact (accounts_pages hd).allFiles hc hrun

end Taking

end HeaderModel
