/-
Nested aggregates are never lost.

A field whose type is nested in the owner of its member bears the name of the nested aggregate, so that one has to be
declared. But an element that fails drops nested aggregates that are remembered from then on (`Builder.Dropped`). What
saves the module is that the element in which a dropped one is nested cannot be built or is dropped as well, so nothing
that is declared has a field of it. `Builder.Kept` says so for one builder.
- `take_kept`: taking an element keeps this up.
- `nested_aggregates_kept`: in a module that was built, every field from a named member of a nested type bears the name
  of an aggregate that the module declares.
-/
import HeaderModel.Proofs.Sources
import HeaderModel.Proofs.Turns

namespace HeaderModel

/-! ## Documents whose bases are aggregates -/

namespace Document

/-- the `bases` of all elements name aggregates only -/
def BasesAreAggregates (d : Document) : Prop :=
  ∀ k j, d.ListsBase (d.node k) j → (d.node j).kind.isAggregate = true

/-- it is enough to look at the elements that the document has -/
theorem basesAreAggregates_of_nodes {d : Document}
    (hd : d.nodes.toList.all fun n => n.bases.all fun id =>
      (d.placeOf id).toOption.all fun j => (d.node j).kind.isAggregate) : d.BasesAreAggregates := by
  rintro k j ⟨id, hid, hj⟩
  have hk := lt_size_of_listsBase ⟨id, hid, hj⟩
  have hnode : d.node k ∈ d.nodes.toList := by
    rw [node, Array.getD_eq_getD_getElem?, Array.getElem?_eq_getElem hk]
    exact Array.getElem_mem_toList hk
  have hbase := List.all_eq_true.1 (List.all_eq_true.1 hd _ hnode) id hid
  rw [hj] at hbase
  exact hbase

/-- what an aggregate needs are aggregates -/
theorem BasesAreAggregates.reaches {d : Document} (hbases : d.BasesAreAggregates) {i q : NodeId}
    (hi : (d.node i).kind.isAggregate = true) (hq : d.Reaches i q) : (d.node q).kind.isAggregate = true := by
  cases hq with
  | refl => exact hi
  | @tail p _ _ hneeds =>
    rcases hneeds with hbase | hholds
    · exact hbases p q hbase
    · exact isAggregate_of_isNestedIn hholds.isNestedIn

end Document

/-! ## What is kept and what is lost -/

/-- The nested aggregates of all that is remembered are declared, but for some elements that are lost. What is lost is
nested in an element that cannot be built or is lost as well, and no aggregate that was declared since a module is. -/
structure Builder.Kept (h : Headers) (m : Module) (lost : NodeId → Prop) (c : Builder) : Prop where
  complete : ∀ k, (c.aggregates.lookup k).isSome → ¬lost k → ∀ j ∈ h.document.siblings (h.document.node k),
    recordOf c.aggregates j ∈ c.module.entries ∧ (c.aggregates.lookup j).isSome
  remembered : ∀ k, lost k → (c.aggregates.lookup k).isSome
  held : ∀ k, lost k → ∃ q, h.document.Placed q ∧ (h.document.node q).kind.isAggregate = true ∧
    h.document.Holds q k ∧ (h.builds q = false ∨ lost q)
  declared : ∃ es, c.module.entries.Perm (m.entries ++ es) ∧ ∀ e ∈ es, ∀ a, e.decl = .aggregate a →
    ∃ i, e = recordOf c.aggregates i ∧ h.document.Placed i ∧ (c.aggregates.lookup i).isSome ∧ ¬lost i

section Kept

variable {h : Headers} {m : Module} {lost : NodeId → Prop} {b c : Builder} {k j : NodeId}

/-- what is nested in an element that can be built and is not lost is not lost -/
theorem Builder.Kept.not_lost (hc : Kept h m lost c) (hd : h.document.Indexed) (hplaced : h.document.Placed k)
    (hnest : Build.isNestedIn (h.document.node k) (h.document.node j) = true) (hbuilds : h.builds k = true)
    (hk : ¬lost k) : ¬lost j := by
  intro hj
  obtain ⟨q, hq, -, hholds, hfails⟩ := hc.held j hj
  obtain rfl := hd.owner_unique hq hplaced hholds.isNestedIn hnest
  rcases hfails with hfails | hlost
  · rw [hbuilds] at hfails
    cases hfails
  · exact hk hlost

theorem Builder.Kept.sameWork (hb : Kept h m lost b) (hbc : SameWork b c)
    (hentries : c.module.entries = b.module.entries) : Kept h m lost c := by
  obtain ⟨hcomplete, hremembered, hheld, hdeclared⟩ := hb
  rw [← hbc.aggregates, ← hentries] at *
  exact ⟨hcomplete, hremembered, hheld, hdeclared⟩

/-- a builder that has built nothing has lost nothing -/
theorem kept_new (h : Headers) (m : Module) : Builder.Kept h m (fun _ => False) (.new m) :=
  ⟨fun _ hk => (nomatch hk), fun _ hk => hk.elim, fun _ hk => hk.elim,
    [], .of_eq (List.append_nil _).symm, fun _ he => absurd he List.not_mem_nil⟩

/-! ## Turns keep nested aggregates -/

section Turns

variable {d : Builder} {i : NodeId} {slot : Nat} {owners : List NodeId} {own : List Declaration}

/-- what is lost after a turn: what was lost before, and what the turn dropped -/
def Builder.LostAfter (lost : NodeId → Prop) (c d : Builder) (owners : List NodeId) (k : NodeId) : Prop :=
  lost k ∨ Dropped c d owners k

/-- what was declared before a turn still is, and is remembered as it was -/
theorem Builder.Turn.mem_entries (ht : Turn h i c d owners own) (hreads : c.Reads slot) {j : NodeId}
    (hj : (c.aggregates.lookup j).isSome) (hmem : recordOf c.aggregates j ∈ c.module.entries) :
    recordOf d.aggregates j ∈ d.module.entries := by
  obtain ⟨a, ha⟩ := Option.isSome_iff_exists.1 hj
  rw [recordOf_eq (ht.within.aggregates j a ha), ← recordOf_eq ha]
  exact (ht.entries hreads).mem_iff.2 (List.mem_append_left _ hmem)

/-- what a turn drops, like what was lost before, is nested in an element that cannot be built or is lost -/
theorem Builder.Kept.held_after (hc : Kept h m lost c) (hbases : h.document.BasesAreAggregates)
    (hplaced : h.document.Placed i) (ht : Turn h i c d owners own) {k : NodeId} (hk : LostAfter lost c d owners k) :
    ∃ q, h.document.Placed q ∧ (h.document.node q).kind.isAggregate = true ∧ h.document.Holds q k ∧
      (h.builds q = false ∨ LostAfter lost c d owners q) := by
  rcases hk with hk | hk
  · obtain ⟨q, hq, hkind, hholds, hfails⟩ := hc.held k hk
    exact ⟨q, hq, hkind, hholds, hfails.imp_right .inl⟩
  · obtain ⟨q, hreached, hholds, hfails⟩ := ht.dropped k hk
    have hkind := (Bool.and_eq_true_iff.1 (ht.aggregate k hk.new hk.remembered)).1
    exact ⟨q, hreached.placed hplaced, hbases.reaches hkind hreached, hholds, hfails.imp_right .inr⟩

/-- an owner is not lost, since it was not remembered before its turn -/
theorem Builder.Kept.not_lost_of_owner (hc : Kept h m lost c) (ht : Turn h i c d owners own) {k : NodeId}
    (hk : k ∈ owners) : ¬LostAfter lost c d owners k := by
  rintro (hlost | hdropped)
  · have hsome := hc.remembered k hlost
    rw [(ht.owned.built k hk).1] at hsome
    cases hsome
  · exact hdropped.apart hk

/-- what an owner declares is not lost: it is nested in the owner only, which was built -/
theorem Builder.Kept.not_lost_of_sibling (hc : Kept h m lost c) (hd : h.document.Indexed)
    (hbases : h.document.BasesAreAggregates) (hplaced : h.document.Placed i) (ht : Turn h i c d owners own) {j : NodeId}
    (hj : j ∈ h.document.siblingsOf owners) : ¬LostAfter lost c d owners j := by
  intro hlost
  obtain ⟨k, hk, hjk⟩ := List.mem_flatMap.1 hj
  obtain ⟨-, hknown, hplacedk⟩ := ht.owned.built k hk
  obtain ⟨q, hq, -, hholds, hfails⟩ := hc.held_after hbases hplaced ht hlost
  obtain rfl := hd.owner_unique hq hplacedk hholds.isNestedIn (Document.isNestedIn_of_mem_siblings hjk)
  rcases hfails with hfails | hlostk
  · rw [ht.settled.builds_of_isSome hknown] at hfails
    cases hfails
  · exact hc.not_lost_of_owner ht hk hlostk

/-- a taken element is not lost, since it stands in a namespace -/
theorem Builder.Kept.not_lost_of_taken (hc : Kept h m lost c) (hd : h.document.Indexed)
    (hbases : h.document.BasesAreAggregates) (hi : i ∈ h.taken) (hplaced : h.document.Placed i)
    (ht : Turn h i c d owners own) : ¬LostAfter lost c d owners i := by
  intro hlost
  obtain ⟨q, hq, hkind, hholds, -⟩ := hc.held_after hbases hplaced ht hlost
  rw [kind_of_mem_taken hd hq hholds.isNestedIn hi] at hkind
  cases hkind

/-- after a turn the nested aggregates of all that is remembered and not lost are declared -/
theorem Builder.Kept.complete_after (hc : Kept h m lost c) (ht : Turn h i c d owners own) (hreads : c.Reads slot)
    {k j : NodeId} (hk : (d.aggregates.lookup k).isSome) (hlost : ¬LostAfter lost c d owners k)
    (hj : j ∈ h.document.siblings (h.document.node k)) :
    recordOf d.aggregates j ∈ d.module.entries ∧ (d.aggregates.lookup j).isSome := by
  by_cases howner : k ∈ owners
  · have hmem : j ∈ h.document.siblingsOf owners := List.mem_flatMap.2 ⟨k, howner, hj⟩
    refine ⟨(ht.entries hreads).mem_iff.2 (List.mem_append_right _ (List.mem_append_left _ ?_)), ht.owned.known j hmem⟩
    exact List.mem_map_of_mem hmem
  · cases hknown : c.aggregates.lookup k with
    | none => exact absurd (.inr ⟨hknown, hk, howner⟩) hlost
    | some a =>
      obtain ⟨hmem, hsome⟩ := hc.complete k (hknown ▸ rfl) (fun h => hlost (.inl h)) j hj
      exact ⟨ht.mem_entries hreads hsome hmem, ht.within.isSome hsome⟩

/-- no aggregate that is declared by the end of a turn is lost -/
theorem Builder.Kept.declared_after (hc : Kept h m lost c) (hd : h.document.Indexed)
    (hbases : h.document.BasesAreAggregates) (hi : i ∈ h.taken) (hplaced : h.document.Placed i)
    (ht : Turn h i c d owners own) (hreads : c.Reads slot) :
    ∃ es, d.module.entries.Perm (m.entries ++ es) ∧ ∀ e ∈ es, ∀ a, e.decl = .aggregate a →
      ∃ j, e = recordOf d.aggregates j ∧ h.document.Placed j ∧ (d.aggregates.lookup j).isSome ∧
        ¬LostAfter lost c d owners j := by
  obtain ⟨es, hes, hdeclared⟩ := hc.declared
  have hentries := (ht.entries hreads).trans (hes.append_right _)
  rw [List.append_assoc] at hentries
  refine ⟨_, hentries, fun e he a ha => ?_⟩
  rcases List.mem_append.1 he with he | he
  · -- declared before: it was remembered, so the turn could not drop it
    obtain ⟨j, rfl, hplacedj, hj, hlost⟩ := hdeclared e he a ha
    obtain ⟨a', ha'⟩ := Option.isSome_iff_exists.1 hj
    refine ⟨j, ?_, hplacedj, ht.within.isSome hj, ?_⟩
    · rw [recordOf_eq ha', recordOf_eq (ht.within.aggregates j a' ha')]
    · rintro (h | hdropped)
      · exact hlost h
      · rw [hdropped.new] at ha'
        cases ha'
  · rcases List.mem_append.1 he with he | he
    · -- declared beside its owner
      obtain ⟨j, hj, rfl⟩ := List.mem_map.1 he
      obtain ⟨k, hk, hjk⟩ := List.mem_flatMap.1 hj
      have hplacedj : h.document.Placed j :=
        Document.Reaches.placed (.single (.inr (Document.nests_of_mem_siblings hjk))) (ht.owned.built k hk).2.2
      exact ⟨j, rfl, hplacedj, ht.owned.known j hj, hc.not_lost_of_sibling hd hbases hplaced ht hj⟩
    · -- the taken element itself
      obtain ⟨decl, hdecl, rfl⟩ := List.mem_map.1 he
      obtain rfl : decl = .aggregate a := ha
      have hknown : d.aggregates.lookup i = some a := ht.said _ hdecl
      exact ⟨i, (recordOf_eq hknown).symm, hplaced, hknown ▸ rfl, hc.not_lost_of_taken hd hbases hi hplaced ht⟩

/-- **Taking an element keeps nested aggregates.** -/
theorem take_kept (hd : h.document.Indexed) (hbases : h.document.BasesAreAggregates) {unit : String}
    (hi : (unit, i) ∈ h.visits) (hsettled : Settled h c) (hreads : c.Reads slot) (hc : Builder.Kept h m lost c) :
    ∃ lost', Builder.Kept h m lost' (c.run (Build.take h slot unit i)).2 := by
  have hplaced : h.document.Placed i := Headers.placed_of_mem_visits hd hi
  obtain ⟨owners, ht⟩ := take_turn hd hplaced hsettled hreads.1 unit
  refine ⟨Builder.LostAfter lost c (c.run (Build.take h slot unit i)).2 owners, ?_, ?_, ?_, ?_⟩
  · exact fun k hk hlost j hj => hc.complete_after ht hreads hk hlost hj
  · rintro k (hk | hk)
    · exact ht.within.isSome (hc.remembered k hk)
    · exact hk.remembered
  · exact fun k hk => hc.held_after hbases hplaced ht hk
  · exact hc.declared_after hd hbases (Headers.mem_taken_of_mem_visits hi) hplaced ht hreads

end Turns

theorem accounts_kept (hd : h.document.Indexed) (hbases : h.document.BasesAreAggregates) (m : Module) :
    Accounts h fun b c _ => (∃ lost, Builder.Kept h m lost b) → ∃ lost, Builder.Kept h m lost c := by
  refine ⟨?_, ?_, ?_⟩
  · rintro b c - hbc - hopened ⟨lost, hb⟩
    refine ⟨lost, hb.sameWork hbc ?_⟩
    rw [Module.entries_eq_located, hopened.located, Module.entries_eq_located]
  · intro b c d vs ws hbc hcd hb
    exact hcd (hbc hb)
  · rintro slot unit i c hi hsettled hreads ⟨lost, hc⟩
    exact take_kept hd hbases hi hsettled hreads.reads hc

end Kept

/-! ## Fields of nested types -/

/-- The field has the name of its source, and if the source is a named member whose type is nested in its owner, then
the type has the name of an aggregate that the module declares for that nested element. -/
structure Headers.KeepsNested (h : Headers) (M : Module) (f : Field) (source : NodeId × Node) : Prop where
  name : source.2.name ≠ "" → f.name = source.2.name
  declared : source.2.name ≠ "" → ∀ j, h.document.HasNested (h.document.node source.1) source.2 j →
    ∃ a, ⟨some j, .aggregate a⟩ ∈ M.entries ∧ f.type.name = a.name

section Fields

variable {h : Headers} {m : Module} {lost : NodeId → Prop} {c : Builder}

theorem mem_siblings {d : Document} {owner member : Node} {j : NodeId} (hmem : member ∈ d.childrenOf owner .field)
    (hname : member.name ≠ "") (hj : d.HasNested owner member j) : j ∈ d.siblings owner := by
  refine List.mem_flatMap.2 ⟨member, hmem, ?_⟩
  rw [Document.declaredBy, hj.1]
  simp [hj.2, hname]

/-- the sources of a remembered aggregate that is not lost are members of such aggregates -/
theorem Builder.Kept.sources (hc : Kept h m lost c) (hd : h.document.Indexed) (hsettled : Settled h c) {k : NodeId}
    {ms : List Node} {ss : List (NodeId × Node)} (hss : h.document.Sources k ms ss)
    (hms : ms ⊆ h.document.childrenOf (h.document.node k) .field) (hplaced : h.document.Placed k)
    (hk : (c.aggregates.lookup k).isSome) (hlost : ¬lost k) :
    ∀ s ∈ ss, s.2 ∈ h.document.childrenOf (h.document.node s.1) .field ∧ (c.aggregates.lookup s.1).isSome ∧
      ¬lost s.1 := by
  induction hss with
  | nil => exact fun _ hs => absurd hs List.not_mem_nil
  | @inlined k j member ms ss ss' hname hnested _ _ ih ih' =>
    intro s hs
    rcases List.mem_append.1 hs with hs | hs
    · obtain ⟨a, ha⟩ := Option.isSome_iff_exists.1 hk
      have hnests : h.document.Nests (h.document.node k) j := ⟨member, hms List.mem_cons_self, hnested.1, hnested.2⟩
      have hplacedj : h.document.Placed j := Document.Reaches.placed (.single (.inr hnests)) hplaced
      have hlostj := hc.not_lost hd hplaced hnested.2 (hsettled.builds_of_isSome hk) hlost
      exact ih (fun _ => id) hplacedj (nested_remembered hsettled.aggregates ha hnests) hlostj s hs
    · exact ih' (fun _ hmem => hms (List.mem_cons_of_mem _ hmem)) hplaced hk hlost s hs
  | own _ _ ih =>
    intro s hs
    rcases List.mem_cons.1 hs with rfl | hs
    · exact ⟨hms List.mem_cons_self, hk, hlost⟩
    · exact ih (fun _ hmem => hms (List.mem_cons_of_mem _ hmem)) hplaced hk hlost s hs

/-- the field of a source in an aggregate that is not lost -/
theorem Builder.Kept.keepsNested (hc : Kept h m lost c) {f : Field} {s : NodeId × Node}
    (hf : h.Stems c.aggregates f s) (hmem : s.2 ∈ h.document.childrenOf (h.document.node s.1) .field)
    (hknown : (c.aggregates.lookup s.1).isSome) (hlost : ¬lost s.1) : h.KeepsNested c.module f s := by
  refine ⟨hf.name, fun hname j hnested => ?_⟩
  obtain ⟨id, t, -, -, ⟨hnot, -⟩ | ⟨-, j', a, hnested', ha, htype⟩⟩ := hf.type
  · exact absurd hnested (hnot j)
  · obtain rfl := hnested.unique hnested'
    obtain ⟨hdeclared, -⟩ := hc.complete s.1 hknown hlost j (mem_siblings hmem hname hnested)
    rw [recordOf_eq ha] at hdeclared
    exact ⟨a, hdeclared, by rw [htype]⟩

end Fields

/-- **Nested aggregates are never lost.** If all bases are aggregates, then in a module that was built every new
aggregate belongs to an element and has one field for each of its sources, which are its own members and those of
nested aggregates without a member name, to any depth. The field of a named member whose type is nested in the member's
owner bears the name of an aggregate that the module declares for that type. -/
theorem nested_aggregates_kept (h : Headers) (m M : Module) (hd : h.document.Loaded)
    (hbases : h.document.BasesAreAggregates) (hM : (h.model m).1 = .ok M) :
    ∃ es, M.entries.Perm (m.entries ++ es) ∧ ∀ e ∈ es, ∀ a, e.decl = .aggregate a →
      ∃ i ss, e.origin = some i ∧
        h.document.Sources i (h.document.childrenOf (h.document.node i) .field) ss ∧
        List.Forall₂ (h.KeepsNested M) a.fields ss := by
  obtain ⟨c, -, hkept, hsettled, rfl⟩ := (accounts_kept hd.indexed hbases m).model hM
  obtain ⟨lost, hc⟩ := hkept ⟨_, kept_new h m⟩
  obtain ⟨es, hes, hdeclared⟩ := hc.declared
  refine ⟨es, hes, fun e he a ha => ?_⟩
  obtain ⟨i, rfl, hplaced, hknown, hlost⟩ := hdeclared e he a ha
  obtain ⟨a', ha'⟩ := Option.isSome_iff_exists.1 hknown
  rw [recordOf_eq ha'] at ha ⊢
  obtain rfl := Declaration.aggregate.inj ha
  obtain ⟨ss, hss, hstems⟩ := aggregate_sources hsettled.aggregates ha'
  have hkept := hc.sources hd.indexed hsettled hss (fun _ => id) hplaced hknown hlost
  refine ⟨i, ss, rfl, hss, List.Forall₂.flip ?_⟩
  refine ((List.forall₂_and_left ss a'.fields).2 ⟨hkept, hstems.flip⟩).imp fun s f hsf => ?_
  obtain ⟨⟨hmem, hknowns, hlosts⟩, hf⟩ := hsf
  exact hc.keepsNested hf hmem hknowns hlosts

/-! ## A nested type in a member without a name -/

/-- an aggregate in a file `a.h` with a base and a member without a name, in whose type another type is nested -/
def inlinedMemberReading : Markup.Reading :=
  ⟨[.opens "CastXML" (some []) false,
    .opens "Namespace" (some [("id", "n")]) true,
    .opens "Struct" (some [("id", "o"), ("name", "OUTER"), ("context", "n"), ("file", "f"), ("bases", "b")]) true,
    .opens "Field" (some [("id", "m1"), ("name", ""), ("type", "a"), ("context", "o")]) true,
    .opens "Struct" (some [("id", "a"), ("name", ""), ("context", "o")]) true,
    .opens "Field" (some [("id", "m2"), ("name", "inner"), ("type", "i"), ("context", "a")]) true,
    .opens "Struct" (some [("id", "i"), ("name", "In"), ("context", "a")]) true,
    .opens "Struct" (some [("id", "b"), ("name", "BASE"), ("context", "n"), ("file", "f")]) true,
    .opens "Field" (some [("id", "m3"), ("name", "part"), ("type", "p"), ("context", "b")]) true,
    .opens "Union" (some [("id", "p"), ("name", "Part"), ("context", "b")]) true,
    .opens "File" (some [("id", "f"), ("name", "a.h")]) true,
    .closes], false⟩

/-- its document, with the file in scope -/
def inlinedMemberHeaders : Headers :=
  ⟨((Document.ofReading inlinedMemberReading).toOption).getD (.ofRoot "" []), Scope.empty.addUnit "a" true []⟩

theorem inlinedMember_model :
    ∃ M, (inlinedMemberHeaders.model (.empty "M")).1 = .ok M ∧
      M.entries.map (·.decl.name) = ["BASE_Part_INNER", "OUTER_INNER_0_In_INNER", "OUTER", "BASE"] := by
  have hcomputed : (inlinedMemberHeaders.model (.empty "M")).1.toOption.map (fun M => M.entries.map (·.decl.name)) =
      some ["BASE_Part_INNER", "OUTER_INNER_0_In_INNER", "OUTER", "BASE"] := by
    decide +kernel
  exact exists_ok_of_computed hcomputed

/-- all four aggregates of the module have fields that bear the names of declared ones -/
theorem inlined_member_kept :
    ∃ M, inlinedMemberHeaders.document.Loaded ∧ inlinedMemberHeaders.document.BasesAreAggregates ∧
      (inlinedMemberHeaders.model (.empty "M")).1 = .ok M ∧
      M.entries.map (·.decl.name) = ["BASE_Part_INNER", "OUTER_INNER_0_In_INNER", "OUTER", "BASE"] ∧
      ∀ e ∈ M.entries, ∀ a, e.decl = .aggregate a → ∃ i ss, e.origin = some i ∧
        inlinedMemberHeaders.document.Sources i
          (inlinedMemberHeaders.document.childrenOf (inlinedMemberHeaders.document.node i) .field) ss ∧
        List.Forall₂ (inlinedMemberHeaders.KeepsNested M) a.fields ss := by
  have hloaded : inlinedMemberHeaders.document.Loaded := .read (r := inlinedMemberReading) (by decide +kernel)
  have hbases : inlinedMemberHeaders.document.BasesAreAggregates :=
    Document.basesAreAggregates_of_nodes (by decide +kernel)
  obtain ⟨M, hM, hnames⟩ := inlinedMember_model
  obtain ⟨es, hes, hkept⟩ := nested_aggregates_kept inlinedMemberHeaders (.empty "M") M hloaded hbases hM
  refine ⟨M, hloaded, hbases, hM, hnames, fun e he => hkept e ?_⟩
  exact hes.mem_iff.1 he

end HeaderModel
