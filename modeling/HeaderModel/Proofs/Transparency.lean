/-
When lookups do not change the module.

A lookup before the module is built can only take declarations of nested aggregates away, and give other names. So it
changes the module of `nestedHeaders`, in which a named member has a nested type (`lookup_drops_nested`).
- `module_unchanged_iff`: lookups never change the module if and only if a fresh builder declares no nested aggregates
  beside the taken ones, and no lookups change the answer for a taken aggregate.
- `module_unchanged_of_flat`: this is so if no element is nested in another one.
-/
import HeaderModel.Proofs.Lookups

namespace HeaderModel

/-! ## Modules with the same aggregates -/

section Recorded

variable {h : Headers} {c b : Builder} {es es' : List Entry}

theorem count_recorded_le {i : NodeId} {a a' : Aggregate} (ha : c.aggregates.lookup i = some a) (hne : a ≠ a')
    (hes : List.Forall₂ (Builder.Recorded c b) es es') :
    es.count ⟨some i, .aggregate a'⟩ ≤ es'.count ⟨some i, .aggregate a'⟩ := by
  induction hes with
  | nil => exact le_rfl
  | @cons e e' es es' he _ ih =>
    have himp : e = ⟨some i, .aggregate a'⟩ → e' = ⟨some i, .aggregate a'⟩ := by
      rintro rfl
      rcases he with heq | ⟨j, a₁, a₁', ha₁, -, heq, -⟩
      · exact heq.symm
      · cases heq
        exact absurd (Option.some.inj (ha.symm.trans ha₁)) hne
    rw [List.count_cons, List.count_cons]
    by_cases he : e = ⟨some i, .aggregate a'⟩
    · rw [himp he, he]
      exact Nat.add_le_add_right ih _
    · simp only [beq_iff_eq, he, if_false]
      omega

/-- if both modules declare the same aggregates in some order, no two entries at one place can differ -/
theorem eq_of_recorded (hes : List.Forall₂ (Builder.Recorded c b) es es')
    (hperm : (es.filter Entry.isAggregate).Perm (es'.filter Entry.isAggregate)) : es = es' := by
  induction hes with
  | nil => rfl
  | @cons e e' es es' he hes ih =>
    have heq : e = e' := by
      rcases he with rfl | ⟨i, a, a', ha, -, rfl, rfl⟩
      · rfl
      · by_contra hne
        -- the right entry would occur more often on the right than on the left
        have haa' : a ≠ a' := by
          rintro rfl
          exact hne rfl
        have hle := count_recorded_le ha haa' hes
        have hcount := hperm.count_eq ⟨some i, .aggregate a'⟩
        rw [List.count_filter rfl, List.count_filter rfl, List.count_cons_self, List.count_cons_of_ne hne] at hcount
        omega
    subst heq
    rw [List.filter_cons, List.filter_cons] at hperm
    cases hagg : e.isAggregate with
    | false =>
      simp only [hagg, Bool.false_eq_true, if_false] at hperm
      rw [ih hperm]
    | true =>
      simp only [hagg, if_true, List.perm_cons] at hperm
      rw [ih hperm]

theorem Builder.Parallel.length_aggregateEntries (hp : Builder.Parallel h c b) :
    c.module.entries.length + b.module.aggregateEntries.length =
      b.module.entries.length + c.module.aggregateEntries.length :=
  hp.module.entries.count fun _ _ he => he.isAggregate

/-- parallel builders that declare the same aggregates of some elements made the same module -/
theorem Builder.Parallel.module_eq (hp : Builder.Parallel h c b) {old : List Entry} {js : List NodeId}
    (hc : c.module.aggregateEntries.Perm (old ++ js.map (recordOf c.aggregates)))
    (hb : b.module.aggregateEntries.Perm (old ++ js.map (recordOf b.aggregates)))
    (hsame : ∀ j ∈ js, c.aggregates.lookup j = b.aggregates.lookup j) : c.module = b.module := by
  have hrecords : js.map (recordOf c.aggregates) = js.map (recordOf b.aggregates) := by
    refine List.map_congr_left fun j hj => ?_
    rw [recordOf, recordOf, hsame j hj]
  have hperm : c.module.aggregateEntries.Perm b.module.aggregateEntries := by
    rw [hrecords] at hc
    exact hc.trans hb.symm
  have hlength : b.module.entries.length ≤ c.module.entries.length := by
    have hsum := hp.length_aggregateEntries
    have hagg := hperm.length_eq
    omega
  exact hp.module.eq_of_entries (eq_of_recorded (hp.module.entries.forall₂ hlength) hperm)

end Recorded

/-! ## Builders that made a module -/

/-- a builder that had requests and then built the module -/
def Headers.BuiltAfter (h : Headers) (requests : List Request) (m : Module) (c : Builder) : Prop :=
  ((Builder.new m).afterAll h requests).run (Build.allFiles h) = (.ok ⟨⟩, c)

namespace Headers.BuiltAfter

variable {h : Headers} {requests : List Request} {m M : Module} {c b : Builder} {i : NodeId}

theorem modelAfter (hc : h.BuiltAfter requests m c) : h.modelAfter requests m = .ok c.module := by
  unfold BuiltAfter at hc
  unfold Headers.modelAfter
  rw [hc]
  rfl

theorem settled (hc : h.BuiltAfter requests m c) : Settled h c := by
  have hsettled := settled_allFiles _ (settled_afterAll h m requests)
  unfold BuiltAfter at hc
  rwa [hc] at hsettled

theorem pages (hc : h.BuiltAfter requests m c) (hd : h.document.Indexed) :
    ∃ owners, Builder.Pages h ((Builder.new m).afterAll h requests) c h.taken owners := by
  have hpages := allFiles_pages hd (settled_afterAll h m requests) (congrArg Prod.fst hc)
  unfold BuiltAfter at hc
  rwa [hc] at hpages

/-- what a builder that had only lookups declares -/
theorem entries (hc : h.BuiltAfter requests m c) (hd : h.document.Indexed) (hlookups : .all ∉ requests) :
    ∃ owners, Builder.Owned h ((Builder.new m).afterAll h requests) c owners
        (h.declaring h.taken ++ h.document.siblingsOf owners) ∧
      c.module.aggregateEntries.Perm (m.aggregateEntries ++
        (h.declaring h.taken ++ h.document.siblingsOf owners).map (recordOf c.aggregates)) := by
  obtain ⟨owners, hpages⟩ := hc.pages hd
  obtain ⟨hgrows, -⟩ := (settled_new h m).afterAll_grows hlookups
  obtain ⟨es, hes, -⟩ := hgrows.module
  have hentries := hpages.entries
  rw [hes] at hentries
  exact ⟨owners, hpages.owned, hentries⟩

/-- a taken aggregate is remembered as lookups of all taken elements would answer it -/
theorem answer (hc : h.BuiltAfter requests m c) (hd : h.document.Indexed) (hi : i ∈ h.declaring h.taken) :
    ∃ a, c.aggregates.lookup i = some a ∧
      (((Builder.new m).afterAll h (requests ++ h.lookupsOf h.taken)).run (Build.aggregate h i)).1 = .ok a := by
  obtain ⟨owners, hpages⟩ := hc.pages hd
  obtain ⟨a, ha⟩ := Option.isSome_iff_exists.1 (hpages.owned.known i (List.mem_append_left _ hi))
  have hsame := allFiles_sameMemory hd (settled_afterAll h m requests) (congrArg Prod.fst hc)
  unfold BuiltAfter at hc
  rw [hc, ← Builder.afterAll_append] at hsame
  refine ⟨a, ha, answer_of_remembered ?_⟩
  rw [← hsame.aggregates]
  exact ha

/-- a taken aggregate that was looked up last is remembered as it was answered -/
theorem looked_up (hd : h.document.Indexed) (hi : i ∈ h.declaring h.taken)
    (hc : h.BuiltAfter (requests ++ [.aggregate (h.document.node i).id]) m c) :
    ∃ a, c.aggregates.lookup i = some a ∧
      (((Builder.new m).afterAll h requests).run (Build.aggregate h i)).1 = .ok a := by
  obtain ⟨owners, hpages⟩ := hc.pages hd
  obtain ⟨htaken, hcond⟩ := List.mem_filter.1 hi
  have hplaced := hd.placed_of_listed (h.taken_sublist.subset htaken)
  have hsettled := settled_afterAll h m requests
  have hok := hsettled.isOk_aggregate i
  have hremembers := Build.aggregate_remembers i _ hsettled.aggregatesSound
  have hlast : (Builder.new m).afterAll h (requests ++ [.aggregate (h.document.node i).id]) =
      (((Builder.new m).afterAll h requests).run (Build.aggregate h i)).2 := by
    rw [Builder.afterAll_append]
    exact after_aggregate (hd.placeOf_id hplaced) _
  rw [hlast] at hpages
  cases ha : (((Builder.new m).afterAll h requests).run (Build.aggregate h i)).1 with
  | error e =>
    rw [ha, (Bool.and_eq_true_iff.1 hcond).2] at hok
    cases hok
  | ok a => exact ⟨a, hpages.within.aggregates i a (hremembers a ha), rfl⟩

end Headers.BuiltAfter

/-- if a fresh builder builds the module, one that had lookups builds it in parallel -/
theorem exists_builtAfter {h : Headers} {m M : Module} (hd : h.document.Loaded) (hM : (h.model m).1 = .ok M)
    {requests : List Request} (hlookups : .all ∉ requests) :
    ∃ c b, h.BuiltAfter requests m c ∧ h.BuiltAfter [] m b ∧ b.module = M ∧ Builder.Parallel h c b := by
  have hagree := allFiles_inStep hd.indexed _ _ (parallel_lookups h m hlookups)
  unfold Headers.model at hM
  unfold Headers.BuiltAfter
  show ∃ c b, _ ∧ (Builder.new m).run (Build.allFiles h) = _ ∧ _ ∧ _
  generalize ((Builder.new m).afterAll h requests).run (Build.allFiles h) = p,
    (Builder.new m).run (Build.allFiles h) = q at hagree hM
  cases hagree with
  | @ok _ _ c b _ hp => exact ⟨c, b, rfl, rfl, Except.ok.inj hM, hp⟩
  | error _ => cases hM
  | lenient hl => exact hl.elim

/-! ## The exact condition -/

section Condition

variable {h : Headers} {m M : Module} {c : Builder} {requests : List Request} {i : NodeId}

theorem origins_perm {old : List Entry} {js : List NodeId}
    (hentries : c.module.aggregateEntries.Perm (old ++ js.map (recordOf c.aggregates))) :
    c.module.aggregateOrigins.Perm (old.filterMap (·.origin) ++ js) := by
  have horigins := hentries.filterMap (·.origin)
  rwa [List.filterMap_append, filterMap_origin_recordOf] at horigins

/-- a builder whose module has only the taken aggregates more than the old one, declared no nested ones -/
theorem Headers.BuiltAfter.entries_of_length (hc : h.BuiltAfter requests m c) (hd : h.document.Indexed)
    (hlookups : .all ∉ requests)
    (hlength : c.module.aggregateEntries.length ≤ m.aggregateEntries.length + (h.declaring h.taken).length) :
    c.module.aggregateEntries.Perm (m.aggregateEntries ++ (h.declaring h.taken).map (recordOf c.aggregates)) := by
  obtain ⟨owners, -, hentries⟩ := hc.entries hd hlookups
  have hnone : h.document.siblingsOf owners = [] := by
    have hsum := hentries.length_eq
    rw [List.length_append, List.length_map, List.length_append] at hsum
    exact List.length_eq_zero_iff.1 (by omega)
  rwa [hnone, List.append_nil] at hentries

/-- the module has as many aggregates more than the old one as elements declare one when they are taken -/
theorem Headers.BuiltAfter.length_of_origins (hc : h.BuiltAfter requests m c) (hd : h.document.Indexed)
    (hlookups : .all ∉ requests)
    (horigins : c.module.aggregateOrigins.Perm (m.aggregateOrigins ++ h.declaring h.taken)) :
    c.module.aggregateEntries.length = m.aggregateEntries.length + (h.declaring h.taken).length := by
  obtain ⟨owners, -, hentries⟩ := hc.entries hd hlookups
  have hall := (origins_perm hentries).length_eq
  have htaken := horigins.length_eq
  have hsum := hentries.length_eq
  rw [List.length_append, List.length_append] at hall
  rw [List.length_append] at htaken
  rw [List.length_append, List.length_map, List.length_append] at hsum
  unfold Module.aggregateOrigins at hall htaken
  omega

/-- if lookups never change the module, a fresh builder declares no nested aggregates: after lookups of all elements
nothing is built any more -/
theorem origins_of_unchanged (hd : h.document.Loaded) (hM : (h.model m).1 = .ok M)
    (hall : ∀ requests, .all ∉ requests → ∀ c, h.BuiltAfter requests m c → c.module = M) :
    M.aggregateOrigins.Perm (m.aggregateOrigins ++ h.declaring h.taken) := by
  set requests : List Request := h.document.ids.map fun entry => .aggregate entry.1 with hrequests
  have hlookups : .all ∉ requests := by
    intro hmem
    obtain ⟨entry, -, hentry⟩ := List.mem_map.1 hmem
    cases hentry
  obtain ⟨c, -, hc, -⟩ := exists_builtAfter hd hM hlookups
  obtain ⟨owners, howned, hentries⟩ := hc.entries hd.indexed hlookups
  have hnone : owners = [] := by
    refine List.eq_nil_iff_forall_not_mem.2 fun k hk => ?_
    obtain ⟨hnew, hbuilt, id, hid⟩ := howned.built k hk
    have hbuilds : h.builds k = true := hc.settled.builds_of_isSome hbuilt
    have hmem : .aggregate id ∈ requests :=
      List.mem_map.2 ⟨(id, k), Document.mem_of_lookup (Document.placeOf_eq_ok.1 hid), rfl⟩
    have hsome := (settled_new h m).remembers_looked_up hlookups hmem hid hbuilds
    rw [hnew] at hsome
    cases hsome
  have horigins := origins_perm hentries
  rwa [hnone, Document.siblingsOf_nil, List.append_nil, hall requests hlookups c hc] at horigins

/-- if lookups never change the module, they do not change the answers for taken aggregates: a lookup that comes last
is answered by what the module declares -/
theorem answer_of_unchanged (hd : h.document.Loaded) (hM : (h.model m).1 = .ok M)
    (hall : ∀ requests, .all ∉ requests → ∀ c, h.BuiltAfter requests m c → c.module = M)
    (hi : i ∈ h.declaring h.taken) (hlookups : .all ∉ requests) :
    (((Builder.new m).afterAll h requests).run (Build.aggregate h i)).1 =
      ((Builder.new m).run (Build.aggregate h i)).1 := by
  have horigins := origins_of_unchanged hd hM hall
  have hrecorded : ∀ rs, .all ∉ rs → ∃ (c : Builder) (a : Aggregate), c.aggregates.lookup i = some a ∧
      (((Builder.new m).afterAll h rs).run (Build.aggregate h i)).1 = .ok a ∧
      M.aggregateEntries.Perm (m.aggregateEntries ++ (h.declaring h.taken).map (recordOf c.aggregates)) := by
    intro rs hrs
    have hlast : .all ∉ rs ++ [.aggregate (h.document.node i).id] := by simpa using hrs
    obtain ⟨c, -, hc, -⟩ := exists_builtAfter hd hM hlast
    obtain ⟨a, ha, hanswer⟩ := hc.looked_up hd.indexed hi
    have hmodule := hall _ hlast c hc
    rw [← hmodule] at horigins ⊢
    exact ⟨c, a, ha, hanswer,
      hc.entries_of_length hd.indexed hlast (hc.length_of_origins hd.indexed hlast horigins).le⟩
  obtain ⟨c, a, ha, hanswer, hentries⟩ := hrecorded requests hlookups
  obtain ⟨c', a', ha', hanswer', hentries'⟩ := hrecorded [] List.not_mem_nil
  have hperm := (List.perm_append_left_iff _).1 (hentries.symm.trans hentries')
  obtain ⟨j, -, hj⟩ := List.mem_map.1 (hperm.mem_iff.1 (List.mem_map_of_mem hi))
  have hji : j = i := Option.some.inj (congrArg Entry.origin hj)
  subst hji
  rw [recordOf_eq ha, recordOf_eq ha'] at hj
  cases hj
  rw [hanswer]
  exact hanswer'.symm

/-- the condition suffices -/
theorem Headers.BuiltAfter.module_eq (hd : h.document.Loaded) (hM : (h.model m).1 = .ok M)
    (horigins : M.aggregateOrigins.Perm (m.aggregateOrigins ++ h.declaring h.taken))
    (hanswers : ∀ i ∈ h.declaring h.taken, ∀ requests, .all ∉ requests →
      (((Builder.new m).afterAll h requests).run (Build.aggregate h i)).1 =
        ((Builder.new m).run (Build.aggregate h i)).1)
    (hlookups : .all ∉ requests) (hc : h.BuiltAfter requests m c) : c.module = M := by
  obtain ⟨c', b, hc', hb, rfl, hp⟩ := exists_builtAfter hd hM hlookups
  obtain rfl : c = c' := congrArg Prod.snd (hc.symm.trans hc')
  have hlength := hb.length_of_origins hd.indexed List.not_mem_nil horigins
  have hless : c.module.aggregateEntries.length ≤ b.module.aggregateEntries.length := by
    have hsum := hp.length_aggregateEntries
    have hle := hp.module.entries.length_le
    omega
  refine hp.module_eq (hc.entries_of_length hd.indexed hlookups (hless.trans hlength.le))
    (hb.entries_of_length hd.indexed List.not_mem_nil hlength.le) fun i hi => ?_
  have hmore : ∀ rs, .all ∉ rs → .all ∉ rs ++ h.lookupsOf h.taken := by
    intro rs hrs hmem
    exact (List.mem_append.1 hmem).elim hrs (all_notMem_lookupsOf h h.taken)
  obtain ⟨a, ha, hanswer⟩ := hc.answer hd.indexed hi
  obtain ⟨a', ha', hanswer'⟩ := hb.answer hd.indexed hi
  rw [hanswers i hi _ (hmore _ hlookups)] at hanswer
  rw [hanswers i hi _ (hmore _ List.not_mem_nil), hanswer] at hanswer'
  rw [ha, ha', Except.ok.inj hanswer']

end Condition

/-- **When lookups do not change the module.** Let a fresh builder build the module. After any lookups it is built as
well. It has always the same declarations, in the same units and order, exactly if the fresh builder declares the taken
aggregates only, with no nested ones beside them, and lookups never change the answer for a taken aggregate. -/
theorem module_unchanged_iff (h : Headers) (m M : Module) (hd : h.document.Loaded) (hM : (h.model m).1 = .ok M) :
    (∀ requests, .all ∉ requests → ∃ M', h.modelAfter requests m = .ok M') ∧
    ((∀ requests, .all ∉ requests → ∀ M', h.modelAfter requests m = .ok M' → M'.SameContents M) ↔
      M.aggregateOrigins.Perm (m.aggregateOrigins ++ h.declaring h.taken) ∧
      ∀ i ∈ h.declaring h.taken, ∀ requests, .all ∉ requests →
        (((Builder.new m).afterAll h requests).run (Build.aggregate h i)).1 =
          ((Builder.new m).run (Build.aggregate h i)).1) := by
  have hbuilt : ∀ requests, .all ∉ requests → ∃ c, h.BuiltAfter requests m c ∧
      h.modelAfter requests m = .ok c.module ∧ (c.module.SameContents M → c.module = M) := by
    intro requests hlookups
    obtain ⟨c, b, hc, -, rfl, hp⟩ := exists_builtAfter hd hM hlookups
    exact ⟨c, hc, hc.modelAfter, hp.module.eq_of_contents fun _ _ he => he.origin⟩
  refine ⟨fun requests hlookups => ?_, fun hall => ?_, fun hcondition requests hlookups M' hM' => ?_⟩
  · obtain ⟨c, -, hmodel, -⟩ := hbuilt requests hlookups
    exact ⟨c.module, hmodel⟩
  · have heq : ∀ requests, .all ∉ requests → ∀ c, h.BuiltAfter requests m c → c.module = M := by
      intro requests hlookups c hc
      obtain ⟨c', hc', hmodel, hsame⟩ := hbuilt requests hlookups
      obtain rfl : c = c' := congrArg Prod.snd (hc.symm.trans hc')
      exact hsame (hall requests hlookups _ hmodel)
    exact ⟨origins_of_unchanged hd hM heq, fun i hi requests hlookups => answer_of_unchanged hd hM heq hi hlookups⟩
  · obtain ⟨c, hc, hmodel, -⟩ := hbuilt requests hlookups
    obtain rfl := Except.ok.inj (hmodel.symm.trans hM')
    rw [Headers.BuiltAfter.module_eq hd hM hcondition.1 hcondition.2 hlookups hc]
    exact ⟨rfl, rfl⟩

/-- **Without nested aggregates lookups are harmless:** the module is the one of a fresh builder. -/
theorem module_unchanged_of_flat {h : Headers} {m M : Module} (hd : h.document.Loaded)
    (hM : (h.model m).1 = .ok M)
    (hflat : ∀ k i, Build.isNestedIn (h.document.node k) (h.document.node i) = false) {requests : List Request}
    (hlookups : .all ∉ requests) : h.modelAfter requests m = .ok M := by
  obtain ⟨c, b, hc, hb, rfl, -⟩ := exists_builtAfter hd hM hlookups
  have horigins : b.module.aggregateOrigins.Perm (m.aggregateOrigins ++ h.declaring h.taken) := by
    obtain ⟨owners, -, hentries⟩ := hb.entries hd.indexed List.not_mem_nil
    have hnone : h.document.siblingsOf owners = [] := by
      refine List.eq_nil_iff_forall_not_mem.2 fun j hj => ?_
      obtain ⟨k, -, hjk⟩ := List.mem_flatMap.1 hj
      have hnest := Document.isNestedIn_of_mem_siblings hjk
      rw [hflat k j] at hnest
      cases hnest
    rw [hnone, List.append_nil] at hentries
    exact origins_perm hentries
  have hnames : ∀ i s s', h.document.Names i s s' → s = s' := by
    intro i s s' hs
    rcases hs.renamed with heq | ⟨⟨k, hk⟩, -⟩
    · exact heq
    · rw [hflat k i] at hk
      cases hk
  rw [hc.modelAfter, Headers.BuiltAfter.module_eq hd hM horigins ?_ hlookups hc]
  intro i _ rs _
  have hsettled := settled_afterAll h m rs
  have hagree := aggregate_inStep h i _ (Builder.new m) _ (Builder.new m) ⟨hsettled.aggregatesLead_new m, .refl _ _ _⟩
  exact (hagree.agreeing.mono fun a a' halike => (halike.mono hnames).eq).eq

/-! ## A named member of a nested type -/

/-- an aggregate in a file `a.h` with one named member whose type is nested in it -/
def nestedReading : Markup.Reading :=
  ⟨[.opens "CastXML" (some []) false,
    .opens "Namespace" (some [("id", "n")]) true,
    .opens "Struct" (some [("id", "o"), ("name", "OUTER"), ("context", "n"), ("file", "f")]) true,
    .opens "Field" (some [("id", "m1"), ("name", "inner"), ("type", "i"), ("context", "o")]) true,
    .opens "Struct" (some [("id", "i"), ("name", "In"), ("context", "o")]) true,
    .opens "File" (some [("id", "f"), ("name", "a.h")]) true,
    .closes], false⟩

/-- its document, with the file in scope -/
def nestedHeaders : Headers :=
  ⟨((Document.ofReading nestedReading).toOption).getD (.ofRoot "" []), Scope.empty.addUnit "a" true []⟩

theorem nested_loaded : nestedHeaders.document.Loaded := .read (r := nestedReading) (by decide +kernel)

theorem nested_model :
    ∃ M, (nestedHeaders.model (.empty "M")).1 = .ok M ∧ M.entries.length = 2 ∧ M.aggregateOrigins = [3, 1] := by
  have hcomputed : (nestedHeaders.model (.empty "M")).1.toOption.map (fun M => (M.entries.length, M.aggregateOrigins)) =
      some (2, [3, 1]) := by decide +kernel
  obtain ⟨M, hM, hcounts⟩ := exists_ok_of_computed hcomputed
  obtain ⟨hlength, horigins⟩ := Prod.mk.inj hcounts
  exact ⟨M, hM, hlength, horigins⟩

/-- if the outer aggregate is looked up before the module is built, the nested one is not declared -/
theorem lookup_drops_nested :
    ∃ M M', nestedHeaders.document.Loaded ∧ (nestedHeaders.model (.empty "M")).1 = .ok M ∧
      nestedHeaders.modelAfter [.aggregate "o"] (.empty "M") = .ok M' ∧
      M.aggregateOrigins = [3, 1] ∧ M'.aggregateOrigins = [1] ∧ ¬M'.SameContents M := by
  obtain ⟨M, hM, hlength, horigins⟩ := nested_model
  have hcomputed : (nestedHeaders.modelAfter [.aggregate "o"] (.empty "M")).toOption.map
      (fun M' => (M'.entries.length, M'.aggregateOrigins)) = some (1, [1]) := by decide +kernel
  cases hM' : nestedHeaders.modelAfter [.aggregate "o"] (.empty "M") with
  | error e => rw [hM'] at hcomputed; cases hcomputed
  | ok M' =>
    rw [hM'] at hcomputed
    obtain ⟨hlength', horigins'⟩ := Prod.mk.inj (Option.some.inj hcomputed)
    refine ⟨M, M', nested_loaded, hM, rfl, horigins, horigins', fun hsame => ?_⟩
    have hsum := congrArg List.length hsame.decls
    rw [List.length_map, List.length_map, hlength, hlength'] at hsum
    cases hsum

/-- so lookups change this module, and never keep it from being built -/
theorem nested_changed_by_lookups :
    ∃ M, (nestedHeaders.model (.empty "M")).1 = .ok M ∧
      (∀ requests, .all ∉ requests → ∃ M', nestedHeaders.modelAfter requests (.empty "M") = .ok M') ∧
      ¬∀ requests, .all ∉ requests → ∀ M', nestedHeaders.modelAfter requests (.empty "M") = .ok M' →
        M'.SameContents M := by
  obtain ⟨M, hM, -, horigins⟩ := nested_model
  obtain ⟨hbuilt, hiff⟩ := module_unchanged_iff nestedHeaders (.empty "M") M nested_loaded hM
  refine ⟨M, hM, hbuilt, fun hall => ?_⟩
  have htaken : nestedHeaders.declaring nestedHeaders.taken = [1] := by decide +kernel
  have hlength := (hiff.1 hall).1.length_eq
  rw [horigins, htaken] at hlength
  cases hlength

end HeaderModel
