/-
Which base an aggregate records.

An aggregate records the last listed base that records none itself. So what is recorded alternates from one level to
the next: an element without bases records none, those that list only such elements record one of them, and what lists
only these records none again, as if it had no bases.
- `Document.Records`: whether an element records a base, by what its bases record.
- `records_isSome`, `recordsLast_of_grounded`: what a remembered aggregate records.
- `Document.Chain.records`: along a chain of single inheritance every other element records its base.
- `recorded_base_iff`: both, after any requests; what is recorded is the last listed base without bases exactly if each
  base that lists some but records none is followed by one without bases.
- `base_with_bases_recorded`: an aggregate that records a base which lists a base of its own.
-/
import HeaderModel.Document.Loading
import HeaderModel.Proofs.VtableSlots

namespace HeaderModel

/-! ## Listed bases -/

namespace Document

/-- an element that lists no bases -/
def IsRoot (d : Document) (j : NodeId) : Prop := (d.node j).bases = []

/-- whether an element records a base: it does if a base that it lists records none -/
inductive Records (d : Document) : NodeId → Bool → Prop where
  | base {k j : NodeId} : d.ListsBase (d.node k) j → Records d j false → Records d k true
  | none {k : NodeId} : (∀ j, d.ListsBase (d.node k) j → Records d j true) → Records d k false

/-- the last element with a property among those that are listed by their ids -/
def LastListed (d : Document) (P : NodeId → Prop) (ids : List String) (j : NodeId) : Prop :=
  ∃ before id after, ids = before ++ id :: after ∧ d.placeOf id = .ok j ∧ P j ∧
    ∀ later ∈ after, ∀ i, d.placeOf later = .ok i → ¬P i

/-- an aggregate records the name of the last listed base with a property, and none if there is no such base -/
structure RecordsLast (d : Document) (memory : List (NodeId × Aggregate)) (P : NodeId → Prop) (k : NodeId)
    (a : Aggregate) : Prop where
  base : ∀ j, d.LastListed P (d.node k).bases j → ∃ b, memory.lookup j = some b ∧ a.base = some b.name
  none : (∀ j, ¬d.LastListed P (d.node k).bases j) → a.base = none

/-- every listed base that lists bases but records none is followed by one that lists none -/
def RootsFollow (d : Document) (ids : List String) : Prop :=
  ∀ before id after j, ids = before ++ id :: after → d.placeOf id = .ok j → d.Records j false → ¬d.IsRoot j →
    ∃ later ∈ after, ∃ i, d.placeOf later = .ok i ∧ d.IsRoot i

section Listed

variable {d : Document} {P Q : NodeId → Prop} {ids : List String} {j k : NodeId}

theorem IsRoot.records (hj : d.IsRoot j) : d.Records j false := by
  refine .none fun i hi => ?_
  obtain ⟨id, hid, -⟩ := hi
  rw [hj] at hid
  cases hid

/-- an element does not both record a base and record none -/
theorem Records.unique {r r' : Bool} (hr : d.Records k r) (hr' : d.Records k r') : r = r' := by
  induction hr generalizing r' with
  | base hlists _ ih =>
    cases hr' with
    | base => rfl
    | none hall => exact absurd (ih (hall _ hlists)) Bool.noConfusion
  | none _ ih =>
    cases hr' with
    | base hlists hj => exact absurd (ih _ hlists hj) Bool.noConfusion
    | none => rfl

theorem Records.none_iff {b : Aggregate} (hb : d.Records j b.base.isSome) : d.Records j false ↔ b.base = .none := by
  refine ⟨fun hnone => by simpa using hb.unique hnone, fun hbase => ?_⟩
  rwa [hbase] at hb

/-- the last one stands further on, or is the first element if none does -/
theorem lastListed_cons {first : String} :
    d.LastListed P (first :: ids) j ↔ d.LastListed P ids j ∨
      d.placeOf first = .ok j ∧ P j ∧ ∀ later ∈ ids, ∀ i, d.placeOf later = .ok i → ¬P i := by
  constructor
  · rintro ⟨before, id, after, hids, hlast⟩
    cases before with
    | nil =>
      obtain ⟨rfl, rfl⟩ := List.cons.inj hids
      exact .inr hlast
    | cons _ before =>
      obtain ⟨rfl, rfl⟩ := List.cons.inj hids
      exact .inl ⟨before, id, after, rfl, hlast⟩
  · rintro (⟨before, id, after, rfl, hlast⟩ | hlast)
    · exact ⟨first :: before, id, after, rfl, hlast⟩
    · exact ⟨[], first, ids, rfl, hlast⟩

/-- if any listed element has a property, one is the last that has it -/
theorem exists_lastListed {id : String} (hid : id ∈ ids) (hj : d.placeOf id = .ok j) (hP : P j) :
    ∃ i, d.LastListed P ids i := by
  induction ids generalizing id j with
  | nil => cases hid
  | cons first ids ih =>
    by_cases hlater : ∃ later ∈ ids, ∃ i, d.placeOf later = .ok i ∧ P i
    · obtain ⟨later, hlater, i, hi, hPi⟩ := hlater
      obtain ⟨last, hlast⟩ := ih hlater hi hPi
      exact ⟨last, lastListed_cons.2 (.inl hlast)⟩
    · rcases List.mem_cons.1 hid with rfl | hid
      · exact ⟨j, lastListed_cons.2 (.inr ⟨hj, hP, fun later hl i hi hPi => hlater ⟨later, hl, i, hi, hPi⟩⟩)⟩
      · exact absurd ⟨id, hid, j, hj, hP⟩ hlater

theorem LastListed.append_left (hj : d.LastListed P ids j) (front : List String) : d.LastListed P (front ++ ids) j := by
  obtain ⟨before, id, after, rfl, hlast⟩ := hj
  exact ⟨front ++ before, id, after, (List.append_assoc ..).symm, hlast⟩

theorem LastListed.exists_mem (hj : d.LastListed P ids j) : ∃ id ∈ ids, d.placeOf id = .ok j := by
  obtain ⟨before, id, after, rfl, hplace, -⟩ := hj
  exact ⟨id, by simp, hplace⟩

theorem LastListed.listsBase {n : Node} (hj : d.LastListed P n.bases j) : d.ListsBase n j := hj.exists_mem

theorem LastListed.holds (hj : d.LastListed P ids j) : P j := by
  obtain ⟨_, _, _, -, -, hP, -⟩ := hj
  exact hP

theorem not_of_not_lastListed (hno : ∀ i, ¬d.LastListed P ids i) {id : String} (hid : id ∈ ids)
    (hj : d.placeOf id = .ok j) : ¬P j := fun hP => by
  obtain ⟨i, hi⟩ := exists_lastListed hid hj hP
  exact hno i hi

/-- where roots follow, the last listed root is the last listed element that records no base -/
theorem RootsFollow.lastListed_iff (hroots : d.RootsFollow ids) :
    d.LastListed d.IsRoot ids j ↔ d.LastListed (d.Records · false) ids j := by
  constructor
  · rintro ⟨before, id, after, rfl, hj, hroot, hlater⟩
    refine ⟨before, id, after, rfl, hj, hroot.records, fun later hl i hi hnone => ?_⟩
    obtain ⟨between, behind, rfl⟩ := List.append_of_mem hl
    obtain ⟨later', hl', i', hi', hroot'⟩ := hroots (before ++ id :: between) later behind i (by simp) hi hnone
      (hlater later hl i hi)
    exact hlater later' (by simp [hl']) i' hi' hroot'
  · rintro ⟨before, id, after, rfl, hj, hnone, hlater⟩
    refine ⟨before, id, after, rfl, hj, ?_, fun later hl i hi hroot => hlater later hl i hi hroot.records⟩
    by_contra hroot
    obtain ⟨later, hl, i, hi, hroot'⟩ := hroots before id after j rfl hj hnone hroot
    exact hlater later hl i hi hroot'.records

/-- an aggregate that records the last listed base with a property records one exactly if a base has it -/
theorem RecordsLast.isSome_iff {memory : List (NodeId × Aggregate)} {a : Aggregate} (ha : d.RecordsLast memory P k a) :
    a.base.isSome = true ↔ ∃ j, d.ListsBase (d.node k) j ∧ P j := by
  constructor
  · intro hsome
    by_contra hno
    rw [ha.none fun j hj => hno ⟨j, hj.listsBase, hj.holds⟩] at hsome
    cases hsome
  · rintro ⟨j, ⟨id, hid, hplace⟩, hPj⟩
    obtain ⟨last, hlast⟩ := exists_lastListed hid hplace hPj
    obtain ⟨b, -, hbase⟩ := ha.base last hlast
    rw [hbase]
    rfl

theorem RecordsLast.congr {memory : List (NodeId × Aggregate)} {a : Aggregate} (ha : d.RecordsLast memory P k a)
    (hiff : ∀ j, d.LastListed Q (d.node k).bases j ↔ d.LastListed P (d.node k).bases j) :
    d.RecordsLast memory Q k a :=
  ⟨fun j hj => ha.base j ((hiff j).1 hj), fun hno => ha.none fun j hj => hno j ((hiff j).2 hj)⟩

end Listed

end Document

/-! ## The recorded base -/

/-- the base that is recorded after one more listed base -/
def Build.recordedAfter (recorded : Option String) (b : Aggregate) : Option String :=
  if b.base.isNone then some b.name else recorded

section Body

variable {h : Headers} {memory : List (NodeId × Aggregate)} {c : Builder}

/-- the bases are looked up in order, and each that records none is recorded -/
theorem run_baseName {n : Node} {base : Option String}
    (hrun : (c.run (Build.baseName h (fun j _ => recallFrom memory j) n)).1 = .ok base) :
    ∃ parents, List.Forall₂ (fun id b => ∃ j, h.document.placeOf id = .ok j ∧ memory.lookup j = some b)
        n.bases parents ∧ base = parents.foldl Build.recordedAfter none := by
  unfold Build.baseName at hrun
  generalize n.bases = ids, (none : Option String) = recorded at hrun
  induction ids generalizing recorded c with
  | nil =>
    cases hrun
    exact ⟨[], .nil, rfl⟩
  | cons id ids ih =>
    rw [List.foldlM_cons] at hrun
    obtain ⟨next, hnext, hrun⟩ := Builder.run_bind_eq_ok.1 hrun
    obtain ⟨j, hj, hnext⟩ := Builder.run_bind_eq_ok.1 hnext
    obtain ⟨b, hb, hnext⟩ := Builder.run_bind_eq_ok.1 hnext
    rw [Builder.run_of] at hj
    obtain ⟨parents, hparents, rfl⟩ := ih _ hrun
    obtain rfl := Except.ok.inj hnext
    exact ⟨b :: parents, .cons ⟨j, hj, run_recallFrom_eq_ok.1 hb⟩ hparents, rfl⟩

/-- if the bases with a property are those that record none, the last of them is recorded -/
theorem foldl_recordedAfter {P : NodeId → Prop} {ids : List String} {parents : List Aggregate}
    (hparents : List.Forall₂ (fun id b => ∃ j, h.document.placeOf id = .ok j ∧ memory.lookup j = some b) ids parents)
    (hP : ∀ j b, memory.lookup j = some b → (P j ↔ b.base = none)) (recorded : Option String) :
    (∀ j, h.document.LastListed P ids j →
      ∃ b, memory.lookup j = some b ∧ parents.foldl Build.recordedAfter recorded = some b.name) ∧
    ((∀ j, ¬h.document.LastListed P ids j) → parents.foldl Build.recordedAfter recorded = recorded) := by
  induction hparents generalizing recorded with
  | nil =>
    refine ⟨fun j hj => ?_, fun _ => rfl⟩
    obtain ⟨before, id, after, hids, -⟩ := hj
    simp at hids
  | @cons id b ids parents hb _ ih =>
    obtain ⟨j, hj, hb⟩ := hb
    obtain ⟨hlast, hnone⟩ := ih (Build.recordedAfter recorded b)
    refine ⟨fun i hi => ?_, fun hno => ?_⟩
    · rcases Document.lastListed_cons.1 hi with hi | ⟨hi, hPi, hlater⟩
      · exact hlast i hi
      · obtain rfl := Except.ok.inj (hj.symm.trans hi)
        refine ⟨b, hb, ?_⟩
        rw [List.foldl_cons, hnone fun i' hi' => ?_]
        · exact if_pos (by simp [(hP j b hb).1 hPi])
        · obtain ⟨before, id', after, rfl, hplace, hPi', -⟩ := hi'
          exact hlater id' (by simp) i' hplace hPi'
    · have hlater : ∀ i, ¬h.document.LastListed P ids i := fun i hi => hno i (Document.lastListed_cons.2 (.inl hi))
      have hbase : b.base ≠ none := fun hbase =>
        Document.not_of_not_lastListed hno List.mem_cons_self hj ((hP j b hb).2 hbase)
      rw [List.foldl_cons, hnone hlater]
      exact if_neg (by simpa using hbase)

/-- what a remembered aggregate was made from: the aggregates of its bases, the last of which with a property it
records, if those have it that record none -/
theorem MadeAggregate.recordsLast {k : NodeId} {a : Aggregate} (hmade : MadeAggregate h memory k a) :
    (∀ j, h.document.ListsBase (h.document.node k) j → ∃ b, memory.lookup j = some b) ∧
    ∀ P : NodeId → Prop, (∀ j b, memory.lookup j = some b → (P j ↔ b.base = none)) →
      h.document.RecordsLast memory P k a := by
  obtain ⟨outer, -, hrun⟩ := hmade
  obtain ⟨base, hbase, hrun⟩ := Builder.run_bind_eq_ok.1 (hrun (.new (.empty "")))
  obtain ⟨l, -, hrun⟩ := Builder.run_bind_eq_ok.1 hrun
  obtain rfl := Except.ok.inj hrun
  obtain ⟨parents, hparents, hfold⟩ := run_baseName hbase
  refine ⟨fun j hj => ?_, fun P hP => ?_⟩
  · obtain ⟨id, hid, hj⟩ := hj
    obtain ⟨i, hi, rfl⟩ := List.mem_iff_getElem.1 hid
    obtain ⟨j', hj', hb⟩ := hparents.get hi (hparents.length_eq ▸ hi)
    obtain rfl := Except.ok.inj (hj.symm.trans hj')
    exact ⟨_, hb⟩
  · obtain ⟨hlast, hnone⟩ := foldl_recordedAfter hparents hP none
    rw [← hfold] at hlast hnone
    exact ⟨hlast, hnone⟩

/-- **A remembered aggregate records a base** exactly if one that it lists records none. -/
theorem records_isSome (hm : Grounded (MadeAggregate h) memory) {k : NodeId} {a : Aggregate}
    (ha : memory.lookup k = some a) : h.document.Records k a.base.isSome := by
  refine hm.forall_entries (P := fun k a => h.document.Records k a.base.isSome) (fun older k a _ _ hmade hold => ?_) ha
  obtain ⟨hfound, hlast⟩ := hmade.recordsLast
  have hiff := (hlast (h.document.Records · false) fun j b hb => (hold j b hb).none_iff).isSome_iff
  cases hrecords : a.base.isSome with
  | true =>
    obtain ⟨j, hj, hnone⟩ := hiff.1 hrecords
    exact .base hj hnone
  | false =>
    refine .none fun j hj => ?_
    obtain ⟨b, hb⟩ := hfound j hj
    have hrecorded := hold j b hb
    cases hbase : b.base.isSome with
    | true => rwa [hbase] at hrecorded
    | false =>
      rw [hbase] at hrecorded
      rw [hiff.2 ⟨j, hj, hrecorded⟩] at hrecords
      cases hrecords

/-- the base that a remembered aggregate records is the last listed one that records none -/
theorem recordsLast_of_grounded (hm : Grounded (MadeAggregate h) memory) {k : NodeId} {a : Aggregate}
    (ha : memory.lookup k = some a) : h.document.RecordsLast memory (h.document.Records · false) k a := by
  obtain ⟨older, hsuffix, holder, hmade⟩ := hm.made ha
  have hrecords := hmade.recordsLast.2 (h.document.Records · false) fun j b hb => (records_isSome holder hb).none_iff
  refine ⟨fun j hj => ?_, hrecords.none⟩
  obtain ⟨b, hb, hbase⟩ := hrecords.base j hj
  exact ⟨b, hm.lookup_of_suffix hsuffix hb, hbase⟩

end Body

/-! ## Chains of single inheritance -/

theorem Document.node_of_element {d : Document} {id : String} {n : Node} {k : NodeId} (hid : d.element id = .ok n)
    (hk : d.placeOf id = .ok k) : d.node k = n := by
  rw [element, hk] at hid
  exact Except.ok.inj hid

theorem Document.Chain.exists_place {d : Document} {id : String} {rest : List String} (hchain : d.Chain (id :: rest)) :
    ∃ k, d.placeOf id = .ok k := by
  have hid : ∃ n, d.element id = .ok n := by
    cases hchain with
    | root hid _ | derived _ hid _ => exact ⟨_, hid⟩
  obtain ⟨n, hid⟩ := hid
  cases hk : d.placeOf id with
  | ok k => exact ⟨k, rfl⟩
  | error e =>
    rw [element, hk] at hid
    cases hid

/-- along a chain every other element records its base, the last but one the first -/
theorem Document.Chain.records {d : Document} {ids : List String} (hchain : d.Chain ids) :
    ∀ id rest k, ids = id :: rest → d.placeOf id = .ok k → d.Records k (decide (rest.length % 2 = 1)) := by
  induction hchain with
  | @root id n hid hbases =>
    rintro _ _ k ⟨⟩ hk
    have hroot : d.IsRoot k := (congrArg Node.bases (node_of_element hid hk)).trans hbases
    exact hroot.records
  | @derived id base rest n hrest hid hbases ih =>
    rintro _ _ k ⟨⟩ hk
    have hlisted : (d.node k).bases = [base] := (congrArg Node.bases (node_of_element hid hk)).trans hbases
    obtain ⟨j, hj⟩ := hrest.exists_place
    have hbase := ih base rest j rfl hj
    rw [List.length_cons]
    rcases Nat.mod_two_eq_zero_or_one rest.length with heven | hodd
    · rw [decide_eq_false (by omega)] at hbase
      rw [decide_eq_true (by omega)]
      exact .base ⟨base, by simp [hlisted], hj⟩ hbase
    · rw [decide_eq_true hodd] at hbase
      rw [decide_eq_false (by omega)]
      refine .none fun i hi => ?_
      obtain ⟨id', hid', hi⟩ := hi
      rw [hlisted, List.mem_singleton] at hid'
      subst hid'
      obtain rfl := Except.ok.inj (hj.symm.trans hi)
      exact hbase

/-! ## Recorded bases and roots -/

/-- the listed bases of an element have different names -/
def Document.NamesBasesApart (d : Document) (memory : List (NodeId × Aggregate)) (n : Node) : Prop :=
  ∀ i j b c, d.ListsBase n i → d.ListsBase n j → memory.lookup i = some b → memory.lookup j = some c →
    b.name = c.name → i = j

/-- what records the last listed root instead of the last listed base that records none, lists a root after each base
that lists bases but records none -/
theorem Document.RecordsLast.rootsFollow {d : Document} {memory : List (NodeId × Aggregate)} {k : NodeId}
    {a : Aggregate} (hnone : d.RecordsLast memory (d.Records · false) k a) (hroot : d.RecordsLast memory d.IsRoot k a)
    (hnames : d.NamesBasesApart memory (d.node k)) : d.RootsFollow (d.node k).bases := by
  intro before id after j hids hj hrecords hnot
  by_contra hno
  -- the last one that records none stands there or further on, and has the name of a root
  have hfirst : id ∈ id :: after := List.mem_cons_self
  obtain ⟨last, hlast⟩ := exists_lastListed (P := (d.Records · false)) hfirst hj hrecords
  have hlast' : d.LastListed (d.Records · false) (d.node k).bases last := hids ▸ hlast.append_left before
  obtain ⟨b, hb, hbase⟩ := hnone.base last hlast'
  obtain ⟨root, hlists, hisRoot⟩ := hroot.isSome_iff.1 (by rw [hbase]; rfl)
  obtain ⟨lastRoot, hlastRoot⟩ := exists_lastListed hlists.choose_spec.1 hlists.choose_spec.2 hisRoot
  obtain ⟨c, hc, hbase'⟩ := hroot.base lastRoot hlastRoot
  have hname : b.name = c.name := Option.some.inj (hbase.symm.trans hbase')
  obtain rfl := hnames last lastRoot b c hlast'.listsBase hlastRoot.listsBase hb hc hname
  obtain ⟨id', hid', hplace⟩ := hlast.exists_mem
  rcases List.mem_cons.1 hid' with rfl | hid'
  · obtain rfl := Except.ok.inj (hj.symm.trans hplace)
    exact hnot hlastRoot.holds
  · exact hno ⟨id', hid', last, hplace, hlastRoot.holds⟩

/-- **An aggregate records the last listed base that records none,** whatever was asked before. Along a chain of single
inheritance it records its base if the chain has an odd number of elements behind it. So what it records is the last
listed base without bases if each base that lists some but records none is followed by one without bases, and only then
if its bases have different names. -/
theorem recorded_base_iff (h : Headers) (m : Module) (requests : List Request) {k : NodeId} {a : Aggregate}
    (ha : ((Builder.new m).afterAll h requests).aggregates.lookup k = some a) :
    h.document.RecordsLast ((Builder.new m).afterAll h requests).aggregates (h.document.Records · false) k a ∧
    h.document.Records k a.base.isSome ∧
    (∀ id rest, h.document.placeOf id = .ok k → h.document.Chain (id :: rest) →
      (a.base.isSome = true ↔ rest.length % 2 = 1)) ∧
    (h.document.RootsFollow (h.document.node k).bases →
      h.document.RecordsLast ((Builder.new m).afterAll h requests).aggregates h.document.IsRoot k a) ∧
    (h.document.NamesBasesApart ((Builder.new m).afterAll h requests).aggregates (h.document.node k) →
      h.document.RecordsLast ((Builder.new m).afterAll h requests).aggregates h.document.IsRoot k a →
      h.document.RootsFollow (h.document.node k).bases) := by
  have hm := (settled_afterAll h m requests).aggregates
  have hlast := recordsLast_of_grounded hm ha
  have hrecords := records_isSome hm ha
  refine ⟨hlast, hrecords, fun id rest hk hchain => ?_, fun hroots => hlast.congr fun j => hroots.lastListed_iff,
    fun hnames hroot => hlast.rootsFollow hroot hnames⟩
  rw [hrecords.unique (hchain.records id rest k rfl hk), decide_eq_true_iff]

/-- four structs, each of which has the next one as its base -/
def fourLevelsReading : Markup.Reading :=
  ⟨[.opens "CastXML" (some []) false,
    .opens "Namespace" (some [("id", "n")]) true,
    .opens "Struct" (some [("id", "a"), ("name", "A"), ("context", "n"), ("file", "f"), ("bases", "b")]) true,
    .opens "Struct" (some [("id", "b"), ("name", "B"), ("context", "n"), ("file", "f"), ("bases", "c")]) true,
    .opens "Struct" (some [("id", "c"), ("name", "C"), ("context", "n"), ("file", "f"), ("bases", "d")]) true,
    .opens "Struct" (some [("id", "d"), ("name", "D"), ("context", "n"), ("file", "f")]) true,
    .opens "File" (some [("id", "f"), ("name", "a.h")]) true,
    .closes], false⟩

/-- their document, with the file in scope -/
def fourLevels : Headers :=
  ⟨((Document.ofReading fourLevelsReading).toOption).getD (.ofRoot "" []), Scope.empty.addUnit "a" true []⟩

/-- a builder that has built the model -/
def fourLevelsBuilder : Builder := (Builder.new (.empty "M")).afterAll fourLevels [.all]

/-- the aggregate of the first one -/
def firstLevel : Aggregate := ⟨"A", false, some "B", []⟩

theorem lookup_firstLevel : fourLevelsBuilder.aggregates.lookup 1 = some firstLevel := by decide +kernel

theorem eq_two_of_listsBase {j : NodeId} (hj : fourLevels.document.ListsBase (fourLevels.document.node 1) j) : j = 2 := by
  obtain ⟨id, hid, hplace⟩ := hj
  have hlisted : (fourLevels.document.node 1).bases = ["b"] := by decide +kernel
  rw [hlisted, List.mem_singleton] at hid
  subst hid
  have hb : fourLevels.document.placeOf "b" = .ok 2 := by decide +kernel
  exact Except.ok.inj (hplace.symm.trans hb)

/-- the only base that is listed lists a base, so none should be recorded -/
theorem not_recordsLast_firstLevel :
    ¬fourLevels.document.RecordsLast fourLevelsBuilder.aggregates fourLevels.document.IsRoot 1 firstLevel := by
  intro hroot
  have hnone : firstLevel.base = none := by
    refine hroot.none fun j hj => ?_
    have hisRoot := hj.holds
    rw [eq_two_of_listsBase hj.listsBase] at hisRoot
    have hlisted : (fourLevels.document.node 2).bases = ["c"] := by decide +kernel
    rw [Document.IsRoot, hlisted] at hisRoot
    cases hisRoot
  cases hnone

/-- the first of four structs records the second one, which lists a base of its own -/
theorem base_with_bases_recorded :
    fourLevelsBuilder.aggregates.lookup 1 = some ⟨"A", false, some "B", []⟩ ∧
      fourLevels.document.placeOf "b" = .ok 2 ∧ (fourLevels.document.node 2).name = "B" ∧
      (fourLevels.document.node 2).bases = ["c"] ∧
      ¬fourLevels.document.RecordsLast fourLevelsBuilder.aggregates fourLevels.document.IsRoot 1
        ⟨"A", false, some "B", []⟩ :=
  ⟨lookup_firstLevel, by decide +kernel, by decide +kernel, by decide +kernel, not_recordsLast_firstLevel⟩

/-- it does so as the chain has three elements behind it: its base records none and is followed by no root -/
theorem base_recorded_over_three_levels :
    fourLevelsBuilder.aggregates.lookup 1 = some firstLevel ∧
      fourLevels.document.RecordsLast fourLevelsBuilder.aggregates (fourLevels.document.Records · false) 1 firstLevel ∧
      fourLevels.document.Chain ["a", "b", "c", "d"] ∧ (firstLevel.base.isSome = true ↔ 3 % 2 = 1) ∧
      ¬fourLevels.document.RootsFollow (fourLevels.document.node 1).bases := by
  obtain ⟨hlast, -, hchain, hroots, -⟩ := recorded_base_iff fourLevels (.empty "M") [.all] lookup_firstLevel
  have hlevels : fourLevels.document.Chain ["a", "b", "c", "d"] := by
    refine .derived (n := fourLevels.document.node 1) (.derived (n := fourLevels.document.node 2)
      (.derived (n := fourLevels.document.node 3) (.root (n := fourLevels.document.node 4) ?_ ?_) ?_ ?_) ?_ ?_) ?_ ?_
    all_goals decide +kernel
  exact ⟨lookup_firstLevel, hlast, hlevels, hchain "a" _ (by decide +kernel) hlevels,
    fun h => not_recordsLast_firstLevel (hroots h)⟩

end HeaderModel
