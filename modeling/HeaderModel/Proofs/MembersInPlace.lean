/-
Members in place.

A struct that takes structs in has the fields that it would have if their members were declared in it.
- `builds_inPlace`: what is built is built with its members in place as well, after any history.
- `members_in_place`: both times the fields are the same, but for names that were made up.
- `members_not_in_place`: the names of nested types, and members whose types are nested in the outer struct, are
  exceptions.
-/
import HeaderModel.Document.Loading
import HeaderModel.Proofs.Declarations
import HeaderModel.Proofs.FieldCounts
import HeaderModel.Proofs.InPlaceBuilding

namespace HeaderModel

/-! ## Nothing is left to take in -/

section InPlace

variable {h : Headers} {memory older : List (NodeId × Aggregate)} {k : NodeId} {a : Aggregate} {flat : List NodeId}
  {ss : List (NodeId × Node)}

/-- with its members in place, an element takes nothing in -/
theorem not_inlines_inPlace (hkeeps : h.KeepsNestedOut k)
    (hflat : h.document.InPlace k (h.document.node k).children flat)
    (hss : h.document.Sources k (h.document.childrenOf (h.document.node k) .field) ss) (j : NodeId) :
    ¬(h.withMembers k flat).document.Inlines k j := by
  rintro ⟨m', hm', hname, hnested⟩
  obtain ⟨m, hm, htag⟩ := exists_of_forall₂ (hflat.members hss).flip hm'
  obtain ⟨s, hs, rfl⟩ := List.mem_map.1 hm
  have hhere : h.document.HasNested (h.document.node k) s.2 j :=
    (Document.hasNested_withMembers (Document.alone_node_withMembers k) htag j).1 hnested
  obtain ⟨-, hnamed, -⟩ := hss.hasNested hkeeps s hs j hhere
  exact hnamed ((Node.congr_alone Node.name htag fun _ => rfl).symm.trans hname)

/-- the members of an element that takes nothing in are the sources of its fields -/
theorem Document.Sources.eq_map {d : Document} (hnone : ∀ j, ¬d.Inlines k j) {ms : List Node}
    (hms : ∀ m ∈ ms, m ∈ d.childrenOf (d.node k) .field) (hss : d.Sources k ms ss) : ss = ms.map (k, ·) := by
  induction hss with
  | nil => rfl
  | @inlined k j m ms ss ss' hname hnested _ _ _ _ =>
    exact absurd ⟨m, hms m List.mem_cons_self, hname, hnested⟩ (hnone j)
  | @own k m ms ss _ _ ih => rw [ih hnone fun m' hm' => hms m' (List.mem_cons_of_mem m hm'), List.map_cons]

/-! ## The fields -/

/-- a field of an element is the field of the same member in place, but for names that were made up: that of a field
whose member has none, and that of a type that is nested in the member's owner -/
structure Headers.SameInPlace (h : Headers) (s : NodeId × Node) (f g : Field) : Prop where
  offset : g.offset = f.offset
  bits : g.bits = f.bits
  name : s.2.name ≠ "" → g.name = f.name
  decorations : g.type = { f.type with name := g.type.name }
  typeName : (∀ j, ¬h.document.HasNested (h.document.node s.1) s.2 j) → g.type.name = f.type.name

theorem Headers.Stems.bits_inPlace {memory' : List (NodeId × Aggregate)} {s : NodeId × Node} {m' : Node} {f g : Field}
    (hf : h.Stems memory f s) (hg : (h.withMembers k flat).Stems memory' g (k, m')) (htag : m'.alone = s.2.alone) :
    g.bits = f.bits := by
  have hwidth : Build.bitWidth m' = Build.bitWidth s.2 := Node.congr_alone Build.bitWidth htag fun _ => rfl
  have hbits := hg.bits (.new (.empty ""))
  rw [hwidth, hf.bits] at hbits
  exact (Except.ok.inj hbits).symm

/-- the same member declares the same field, wherever its offset comes from -/
theorem Headers.Stems.sameInPlace {memory' : List (NodeId × Aggregate)} {s : NodeId × Node} {m' : Node} {f g : Field}
    (hf : h.Stems memory f s) (hg : (h.withMembers k flat).Stems memory' g (k, m')) (htag : m'.alone = s.2.alone)
    (hk : ∀ j, h.document.HasNested (h.document.node k) s.2 j → s.1 = k) (hoffset : g.offset = f.offset) :
    h.SameInPlace s f g := by
  have hname : m'.name = s.2.name := Node.congr_alone Node.name htag fun _ => rfl
  have hnested : ∀ j, (h.withMembers k flat).document.HasNested ((h.withMembers k flat).document.node k) m' j ↔
      h.document.HasNested (h.document.node k) s.2 j :=
    fun j => Document.hasNested_withMembers (Document.alone_node_withMembers k) htag j
  obtain ⟨id, t, hneed, ⟨terminal, hfollow⟩, hcase⟩ := hf.type
  obtain ⟨id', t', hneed', ⟨terminal', hfollow'⟩, hcase'⟩ := hg.type
  -- both chains start at the same type, and are the same
  have hid : id' = id := by
    have hsame : m'.need "type" = s.2.need "type" := Node.congr_alone (Node.need · "type") htag fun _ => rfl
    exact Except.ok.inj (hneed'.symm.trans (hsame.trans hneed))
  have ht : t' = t := by
    have hchain : (h.withMembers k flat).document.follow (h.withMembers k flat).scope.boundNames id .empty =
        h.document.follow h.scope.boundNames id .empty := Document.follow_withMembers ..
    rw [hid, hchain, hfollow] at hfollow'
    exact (congrArg Resolution.type hfollow').symm
  subst hid ht
  refine ⟨hoffset, hf.bits_inPlace hg htag, fun hnamed => ?_, ?_, fun hnot => ?_⟩
  · exact (hg.name (hname ▸ hnamed)).trans (hname.trans (hf.name hnamed).symm)
  · have hft : f.type = { t' with name := f.type.name } := by
      rcases hcase with ⟨-, hft⟩ | ⟨-, j, b, -, -, hft⟩
      · rw [hft]
      · rw [hft]
    have hgt : g.type = { t' with name := g.type.name } := by
      rcases hcase' with ⟨-, hgt⟩ | ⟨-, j, b, -, -, hgt⟩
      · rw [hgt]
      · rw [hgt]
    rw [hft]
    exact hgt
  · rcases hcase with ⟨-, hft⟩ | ⟨-, j, b, hj, -, -⟩
    · rcases hcase' with ⟨-, hgt⟩ | ⟨-, j, b, hj, -, -⟩
      · rw [hft, hgt]
      · have hhere := (hnested j).1 hj
        exact absurd (hk j hhere ▸ hhere) (hnot j)
    · exact absurd hj (hnot j)

/-- fields that are counted and come from the same members are the same -/
theorem sameInPlace_of_counts {memory' : List (NodeId × Aggregate)} {o : Nat} {fs gs : List Field} {ms' : List Node}
    (hfs : CountsFrom o fs) (hgs : CountsFrom o gs) (hstems : List.Forall₂ (h.Stems memory) fs ss)
    (hstems' : List.Forall₂ ((h.withMembers k flat).Stems memory') gs (ms'.map (k, ·)))
    (htags : List.Forall₂ (fun n' n => n'.alone = n.alone) ms' (ss.map (·.2)))
    (hk : ∀ s ∈ ss, ∀ j, h.document.HasNested (h.document.node k) s.2 j → s.1 = k) :
    gs.length = fs.length ∧ List.Forall₂ (fun s p => h.SameInPlace s p.1 p.2) ss (fs.zip gs) := by
  induction hstems generalizing o gs ms' with
  | nil =>
    cases htags
    cases hstems'
    exact ⟨rfl, .nil⟩
  | @cons f s fs ss hf _ ih =>
    obtain ⟨m', ms', htag, htagsRest, rfl⟩ := List.forall₂_cons_right_iff.1 htags
    obtain ⟨g, gs, hg, hstemsRest, rfl⟩ := List.forall₂_cons_right_iff.1 hstems'
    have hslots : slotsOf [g] = slotsOf [f] := slotsOf_eq_of_bits (by simp [hf.bits_inPlace hg htag])
    have hrest := hgs.2
    rw [hslots] at hrest
    obtain ⟨hlength, hsame⟩ := ih hfs.2 hrest hstemsRest htagsRest fun s' hs' => hk s' (List.mem_cons_of_mem s hs')
    refine ⟨congrArg (· + 1) hlength, .cons ?_ hsame⟩
    exact hf.sameInPlace hg htag (hk s List.mem_cons_self) (hgs.1.trans hfs.1.symm)

/-- an element with its members in place can be built -/
theorem builds_inPlace (hm : Grounded (MadeAggregate h) memory) (ha : memory.lookup k = some a)
    (hkeeps : h.KeepsNestedOut k) (hflat : h.document.InPlace k (h.document.node k).children flat) :
    (h.withMembers k flat).builds k = true := by
  obtain ⟨ss, hss, hstems⟩ := aggregate_sources hm ha
  obtain ⟨older, hsuffix, holder, hnew, hmade⟩ := hm.made_new ha
  obtain ⟨a', hmade'⟩ := madeAggregate_inPlace hmade hkeeps hflat hss hstems
  have hgrounded : Grounded (MadeAggregate (h.withMembers k flat)) ((k, a') :: older) :=
    .cons (holder.withMembers hnew) hnew hmade'
  have hname : (h.withMembers k flat).document.NameOf k
      (Build.aggregateName ((h.withMembers k flat).document.node k).name none) := .declared k
  have hapart : Apart ((k, a') :: older) [] := fun _ hu => absurd hu List.not_mem_nil
  have hagree := aggregate_rebuilt hgrounded hgrounded (List.suffix_refl _) (.start _) hapart k hname
    (.new (.empty "")) (.new (.empty "")) ⟨rfl, (settled_new _ _).aggregatesSound, fun _ _ hj => nomatch hj⟩
  rw [recallFrom_head] at hagree
  unfold Headers.builds Build.aggregate
  generalize (Builder.new (.empty "")).run (Build.aggregateWithin (h.withMembers k flat) _ k none) = p at hagree
  cases hagree with
  | ok _ _ => rfl

/-- what is built with its members in place is a struct that takes nothing in, whose fields come from these members -/
theorem fields_inPlace {memory' : List (NodeId × Aggregate)} {b : Aggregate} (hmade : MadeAggregate h older k a)
    (hstruct : a.isUnion = false) (hkeeps : h.KeepsNestedOut k)
    (hflat : h.document.InPlace k (h.document.node k).children flat)
    (hss : h.document.Sources k (h.document.childrenOf (h.document.node k) .field) ss)
    (hm' : Grounded (MadeAggregate (h.withMembers k flat)) memory') (hb : memory'.lookup k = some b) :
    b.isUnion = false ∧ CountsFrom 0 b.fields ∧
      List.Forall₂ ((h.withMembers k flat).Stems memory') b.fields
        (((h.withMembers k flat).document.childrenOf ((h.withMembers k flat).document.node k) .field).map (k, ·)) := by
  have hnone := not_inlines_inPlace hkeeps hflat hss
  have hunion : b.isUnion = false := by
    obtain ⟨older', -, -, hmade'⟩ := hm'.made hb
    have hkind : ((h.withMembers k flat).document.node k).kind = (h.document.node k).kind :=
      Node.congr_alone Node.kind (Document.alone_node_withMembers k) fun _ => rfl
    rw [hmade'.parts.1, hkind, ← hmade.parts.1]
    exact hstruct
  have htakes : (h.withMembers k flat).TakesStructs memory' k := by
    intro j hj
    obtain ⟨j', hj', -⟩ := Relation.TransGen.head'_iff.1 hj
    · exact absurd hj' (hnone _)
  obtain ⟨ss', hss', hstems'⟩ := aggregate_sources hm' hb
  rw [hss'.eq_map hnone fun _ hmem => hmem] at hstems'
  exact ⟨hunion, fields_counted hm' hb hunion htakes, hstems'⟩

end InPlace

/-- **Members in place.** Whatever was asked before: a struct that is built, and that takes in structs with fields, the
last of which is no bit field, has the fields that it has with their members in place, if the members of what is taken in
do not have types that are nested in the struct itself. With its members in place it is built after any history as well;
and field by field, the offsets and the bit fields are the same, and so are the types and the names, but for the names
that were made up: of fields whose members have none, and of types that are nested in the owners of the members. Wherever
types are nested, every offset in the struct is the number of fields before that are no bit fields. -/
theorem members_in_place (h : Headers) (m : Module) (requests : List Request) {k : NodeId} {a : Aggregate}
    (ha : ((Builder.new m).afterAll h requests).aggregates.lookup k = some a) (hstruct : a.isUnion = false)
    (htakes : h.TakesStructs ((Builder.new m).afterAll h requests).aggregates k) :
    (∃ flat, h.document.InPlace k (h.document.node k).children flat) ∧
    (h.KeepsNestedOut k → ∀ flat, h.document.InPlace k (h.document.node k).children flat →
      ∃ ss, h.document.Sources k (h.document.childrenOf (h.document.node k) .field) ss ∧
        ∀ m' requests', ∃ b,
          (((Builder.new m').afterAll (h.withMembers k flat) requests').run
            (Build.aggregate (h.withMembers k flat) k)).1 = .ok b ∧
          b.isUnion = false ∧ b.fields.length = a.fields.length ∧
          List.Forall₂ (fun s p => h.SameInPlace s p.1 p.2) ss (a.fields.zip b.fields)) ∧
    ∀ i f, a.fields[i]? = some f → f.offset = slotsOf (a.fields.take i) := by
  have hm := (settled_afterAll h m requests).aggregates
  have hcounts := fields_counted hm ha hstruct htakes
  refine ⟨exists_inPlace hm ha, fun hkeeps flat hflat => ?_, fun i f hf => ?_⟩
  · obtain ⟨ss, hss, hstems⟩ := aggregate_sources hm ha
    obtain ⟨older, -, -, hmade⟩ := hm.made ha
    refine ⟨ss, hss, fun m' requests' => ?_⟩
    have hc := settled_afterAll (h.withMembers k flat) m' requests'
    have hbuilds := builds_inPlace hm ha hkeeps hflat
    rw [← hc.isOk_aggregate k] at hbuilds
    cases hrun : (((Builder.new m').afterAll (h.withMembers k flat) requests').run
        (Build.aggregate (h.withMembers k flat) k)).1 with
    | error e =>
      rw [hrun] at hbuilds
      cases hbuilds
    | ok b =>
      have hremembered := Build.aggregate_remembers k _ hc.aggregatesSound b hrun
      have hm' := (settled_aggregate k _ hc).aggregates
      obtain ⟨hunion, hcounts', hstems'⟩ := fields_inPlace hmade hstruct hkeeps hflat hss hm' hremembered
      obtain ⟨hlength, hsame⟩ := sameInPlace_of_counts hcounts hcounts' hstems hstems' (hflat.members hss)
        fun s hs j hj => (hss.hasNested hkeeps s hs j hj).1
      exact ⟨b, rfl, hunion, hlength, hsame⟩
  · rw [hcounts.offset_eq hf, Nat.zero_add]

/-! ## What is taken in, computed -/

namespace Document

variable {d : Document} {k j : NodeId}

/-- the type of a member, if it is nested in the member's owner -/
def nestedType? (d : Document) (owner m : Node) : Option NodeId :=
  match d.typePlace m with
  | .ok j => if Build.isNestedIn owner (d.node j) then some j else none
  | .error _ => none

theorem hasNested_iff {owner m : Node} : d.HasNested owner m j ↔ d.nestedType? owner m = some j := by
  unfold HasNested nestedType?
  cases d.typePlace m with
  | error e => simp
  | ok i =>
    by_cases hnest : Build.isNestedIn owner (d.node i) = true
    · simp only [hnest, if_true, Except.ok.injEq, Option.some_inj]
      constructor
      · exact fun h => h.1
      · rintro rfl
        exact ⟨rfl, hnest⟩
    · simp only [hnest, Bool.false_eq_true, if_false, Except.ok.injEq, reduceCtorEq, iff_false]
      rintro ⟨rfl, hj⟩
      exact hnest hj

/-- the elements that an element takes in -/
def inlinedBy (d : Document) (k : NodeId) : List NodeId :=
  (d.childrenOf (d.node k) .field).filterMap fun m => if m.name = "" then d.nestedType? (d.node k) m else none

theorem mem_inlinedBy : j ∈ d.inlinedBy k ↔ d.Inlines k j := by
  unfold inlinedBy Inlines
  rw [List.mem_filterMap]
  refine exists_congr fun m => and_congr_right fun _ => ?_
  by_cases hname : m.name = ""
  · simp only [hname, if_true, true_and, hasNested_iff]
  · simp [hname]

/-- elements among which there is everything that an element takes in, directly or not -/
structure TakenAmong (d : Document) (k : NodeId) (reached : List NodeId) : Prop where
  first : ∀ j ∈ d.inlinedBy k, j ∈ reached
  closed : ∀ i ∈ reached, ∀ j ∈ d.inlinedBy i, j ∈ reached

theorem TakenAmong.mem {reached : List NodeId} (hreached : d.TakenAmong k reached)
    (hj : Relation.TransGen d.Inlines k j) : j ∈ reached := by
  induction hj with
  | single hj => exact hreached.first _ (mem_inlinedBy.2 hj)
  | tail _ hj ih => exact hreached.closed _ ih _ (mem_inlinedBy.2 hj)

end Document

section Computed

variable {h : Headers} {memory : List (NodeId × Aggregate)} {k : NodeId} {reached : List NodeId}

theorem takesStructs_of_computed (hreached : h.document.TakenAmong k reached)
    (hall : ∀ j ∈ reached, (memory.lookup j).all
      (fun a => !a.isUnion && a.fields.getLast?.any (·.bits.isNone)) = true) : h.TakesStructs memory k := by
  intro j hj a ha
  have hcheck := hall j (hreached.mem hj)
  rw [ha, Option.all_some, Bool.and_eq_true, Bool.not_eq_true', Option.any_eq_true] at hcheck
  obtain ⟨hstruct, last, hlast, hbits⟩ := hcheck
  exact ⟨hstruct, last, hlast, Option.isNone_iff_eq_none.1 hbits⟩

theorem keepsNestedOut_of_computed (hreached : h.document.TakenAmong k reached)
    (hall : ∀ i ∈ reached, ∀ m ∈ h.document.childrenOf (h.document.node i) .field,
      h.document.nestedType? (h.document.node k) m = none) : h.KeepsNestedOut k := by
  intro i hi m hm j hj
  have hnone := hall i (hreached.mem hi) m hm
  rw [Document.hasNested_iff.1 hj] at hnone
  cases hnone

end Computed

/-! ## A struct with members in place -/

/-- a struct in a file `a.h` with members `x` and `y`; between them a struct without a name that has a bit field `a` and
another struct without a name, which has `b`; the type of `y` is a nested struct without a name -/
def inPlaceReading : Markup.Reading :=
  ⟨[.opens "CastXML" (some []) false,
    .opens "Namespace" (some [("id", "n")]) true,
    .opens "Struct" (some [("id", "s"), ("name", "S"), ("context", "n"), ("file", "f")]) true,
    .opens "Field" (some [("id", "m1"), ("name", "x"), ("type", "i"), ("context", "s")]) true,
    .opens "Field" (some [("id", "m2"), ("name", ""), ("type", "u"), ("context", "s")]) true,
    .opens "Struct" (some [("id", "u"), ("name", ""), ("context", "s")]) true,
    .opens "Field" (some [("id", "m3"), ("name", "a"), ("type", "i"), ("bits", "2"), ("context", "u")]) true,
    .opens "Field" (some [("id", "m4"), ("name", ""), ("type", "v"), ("context", "u")]) true,
    .opens "Struct" (some [("id", "v"), ("name", ""), ("context", "u")]) true,
    .opens "Field" (some [("id", "m5"), ("name", "b"), ("type", "i"), ("context", "v")]) true,
    .opens "Field" (some [("id", "m6"), ("name", "y"), ("type", "t"), ("context", "s")]) true,
    .opens "Struct" (some [("id", "t"), ("name", ""), ("context", "s")]) true,
    .opens "FundamentalType" (some [("id", "i"), ("name", "int")]) true,
    .opens "File" (some [("id", "f"), ("name", "a.h")]) true,
    .closes], false⟩

/-- its document, with the file in scope -/
def inPlaceHeaders : Headers :=
  ⟨((Document.ofReading inPlaceReading).toOption).getD (.ofRoot "" []), Scope.empty.addUnit "a" true []⟩

/-- a builder that has built the model -/
def inPlaceBuilder : Builder := (Builder.new (.empty "M")).afterAll inPlaceHeaders [.all]

theorem inPlace_built :
    ∃ a, inPlaceBuilder.aggregates.lookup 1 = some a ∧ a.isUnion = false ∧
      a.fields.map (fun f => (f.name, f.offset)) = [("x", 0), ("a", 1), ("b", 1), ("y", 2)] := by
  have hcomputed : (inPlaceBuilder.aggregates.lookup 1).map
      (fun a => (a.isUnion, a.fields.map fun f => (f.name, f.offset))) =
        some (false, [("x", 0), ("a", 1), ("b", 1), ("y", 2)]) := by
    decide +kernel
  obtain ⟨a, ha, hfields⟩ := Option.map_eq_some_iff.1 hcomputed
  exact ⟨a, ha, Prod.mk.inj hfields⟩

/-- the struct has its four fields, counted, as it has them with its members in place -/
theorem fields_counted_in_place :
    ∃ a, inPlaceBuilder.aggregates.lookup 1 = some a ∧ a.isUnion = false ∧
      inPlaceHeaders.TakesStructs inPlaceBuilder.aggregates 1 ∧ inPlaceHeaders.KeepsNestedOut 1 ∧
      a.fields.map (fun f => (f.name, f.offset)) = [("x", 0), ("a", 1), ("b", 1), ("y", 2)] ∧
      ∃ flat, inPlaceHeaders.document.InPlace 1 (inPlaceHeaders.document.node 1).children flat ∧
        ∃ b, ((Builder.new (.empty "M")).run (Build.aggregate (inPlaceHeaders.withMembers 1 flat) 1)).1 = .ok b ∧
          b.fields.length = a.fields.length := by
  obtain ⟨a, ha, hstruct, hfields⟩ := inPlace_built
  have hreached : inPlaceHeaders.document.TakenAmong 1 [4, 7] := ⟨by decide +kernel, by decide +kernel⟩
  have htakes : inPlaceHeaders.TakesStructs inPlaceBuilder.aggregates 1 :=
    takesStructs_of_computed hreached (by decide +kernel)
  have hkeeps : inPlaceHeaders.KeepsNestedOut 1 := keepsNestedOut_of_computed hreached (by decide +kernel)
  obtain ⟨⟨flat, hflat⟩, hplaced, -⟩ := members_in_place inPlaceHeaders (.empty "M") [.all] ha hstruct htakes
  obtain ⟨ss, -, hbuilt⟩ := hplaced hkeeps flat hflat
  obtain ⟨b, hb, -, hlength, -⟩ := hbuilt (.empty "M") []
  exact ⟨a, ha, hstruct, htakes, hkeeps, hfields, flat, hflat, b, hb, hlength⟩

/-! ## Names and nested types that come out differently -/

/-- a struct in a file `a.h`; a struct without a name in it has `a`, and the type of its member `c` is nested as well -/
def renumberedReading : Markup.Reading :=
  ⟨[.opens "CastXML" (some []) false,
    .opens "Namespace" (some [("id", "n")]) true,
    .opens "Struct" (some [("id", "s"), ("name", "S"), ("context", "n"), ("file", "f")]) true,
    .opens "Field" (some [("id", "m1"), ("name", ""), ("type", "u"), ("context", "s")]) true,
    .opens "Struct" (some [("id", "u"), ("name", ""), ("context", "s")]) true,
    .opens "Field" (some [("id", "m2"), ("name", "a"), ("type", "i"), ("context", "u")]) true,
    .opens "Field" (some [("id", "m3"), ("name", "c"), ("type", "t"), ("context", "s")]) true,
    .opens "Struct" (some [("id", "t"), ("name", ""), ("context", "s")]) true,
    .opens "FundamentalType" (some [("id", "i"), ("name", "int")]) true,
    .opens "File" (some [("id", "f"), ("name", "a.h")]) true,
    .closes], false⟩

/-- its document, with the file in scope -/
def renumberedHeaders : Headers :=
  ⟨((Document.ofReading renumberedReading).toOption).getD (.ofRoot "" []), Scope.empty.addUnit "a" true []⟩

/-- a struct in a file `a.h`; a struct without a name in it has a member without a name whose type `T` is nested in the
outer struct -/
def outerTypeReading : Markup.Reading :=
  ⟨[.opens "CastXML" (some []) false,
    .opens "Namespace" (some [("id", "n")]) true,
    .opens "Struct" (some [("id", "s"), ("name", "S"), ("context", "n"), ("file", "f")]) true,
    .opens "Field" (some [("id", "m1"), ("name", ""), ("type", "u"), ("context", "s")]) true,
    .opens "Struct" (some [("id", "u"), ("name", ""), ("context", "s")]) true,
    .opens "Field" (some [("id", "m2"), ("name", ""), ("type", "t"), ("context", "u")]) true,
    .opens "Struct" (some [("id", "t"), ("name", "T"), ("context", "s")]) true,
    .opens "Field" (some [("id", "m3"), ("name", "b"), ("type", "i"), ("context", "t")]) true,
    .opens "Field" (some [("id", "m4"), ("name", "c"), ("type", "i"), ("context", "t")]) true,
    .opens "FundamentalType" (some [("id", "i"), ("name", "int")]) true,
    .opens "File" (some [("id", "f"), ("name", "a.h")]) true,
    .closes], false⟩

/-- its document, with the file in scope -/
def outerTypeHeaders : Headers :=
  ⟨((Document.ofReading outerTypeReading).toOption).getD (.ofRoot "" []), Scope.empty.addUnit "a" true []⟩

theorem renumbered_flat :
    renumberedHeaders.document.InPlace 1 (renumberedHeaders.document.node 1).children [4, 3, 5, 6] := by
  have houter : (renumberedHeaders.document.node 1).children = [2, 3, 5, 6] := by decide +kernel
  have hinner : (renumberedHeaders.document.node 3).children = [4] := by decide +kernel
  have htaken : renumberedHeaders.document.InPlace 3 (renumberedHeaders.document.node 3).children [4] := by
    rw [hinner]
    exact .kept (fun _ hname => absurd hname (by decide +kernel)) .nil
  rw [houter]
  refine @Document.InPlace.inlined _ 1 2 3 [3, 5, 6] [4] [3, 5, 6] (by decide +kernel) (by decide +kernel)
    (Document.hasNested_iff.2 (by decide +kernel)) htaken ?_
  apply Document.InPlace.kept fun hkind => absurd hkind (by decide +kernel)
  apply Document.InPlace.kept fun _ hname => absurd hname (by decide +kernel)
  exact .kept (fun hkind => absurd hkind (by decide +kernel)) .nil

theorem outerType_flat :
    outerTypeHeaders.document.InPlace 1 (outerTypeHeaders.document.node 1).children [4, 3, 5] := by
  have houter : (outerTypeHeaders.document.node 1).children = [2, 3, 5] := by decide +kernel
  have hinner : (outerTypeHeaders.document.node 3).children = [4] := by decide +kernel
  have hnot : outerTypeHeaders.document.nestedType? (outerTypeHeaders.document.node 3)
      (outerTypeHeaders.document.node 4) = none := by decide +kernel
  have htaken : outerTypeHeaders.document.InPlace 3 (outerTypeHeaders.document.node 3).children [4] := by
    rw [hinner]
    refine .kept (fun _ _ j hj => ?_) .nil
    rw [Document.hasNested_iff, hnot] at hj
    cases hj
  rw [houter]
  refine @Document.InPlace.inlined _ 1 2 3 [3, 5] [4] [3, 5] (by decide +kernel) (by decide +kernel)
    (Document.hasNested_iff.2 (by decide +kernel)) htaken ?_
  apply Document.InPlace.kept fun hkind => absurd hkind (by decide +kernel)
  exact .kept (fun hkind => absurd hkind (by decide +kernel)) .nil

/-- a struct, its inlined structs as they must be, and the names and types of its fields, built as it is and with its
members in place -/
def Headers.ComesOut (h : Headers) (k : NodeId) (flat : List NodeId) (fields inPlace : List (String × String)) : Prop :=
  ∃ a b, ((Builder.new (.empty "M")).afterAll h [.all]).aggregates.lookup k = some a ∧ a.isUnion = false ∧
    h.TakesStructs ((Builder.new (.empty "M")).afterAll h [.all]).aggregates k ∧
    h.document.InPlace k (h.document.node k).children flat ∧
    ((Builder.new (.empty "M")).run (Build.aggregate (h.withMembers k flat) k)).1 = .ok b ∧
    a.fields.map (fun f => (f.name, f.type.name)) = fields ∧ b.fields.map (fun f => (f.name, f.type.name)) = inPlace

theorem comesOut_of_computed {h : Headers} {k : NodeId} {reached flat : List NodeId}
    {fields inPlace : List (String × String)} (hreached : h.document.TakenAmong k reached)
    (hall : ∀ j ∈ reached, (((Builder.new (.empty "M")).afterAll h [.all]).aggregates.lookup j).all
      (fun a => !a.isUnion && a.fields.getLast?.any (·.bits.isNone)) = true)
    (hflat : h.document.InPlace k (h.document.node k).children flat)
    (hbuilt : (((Builder.new (.empty "M")).afterAll h [.all]).aggregates.lookup k).map
      (fun a => (a.isUnion, a.fields.map fun f => (f.name, f.type.name))) = some (false, fields))
    (hagain : ((Builder.new (.empty "M")).run (Build.aggregate (h.withMembers k flat) k)).1.toOption.map
      (fun b => b.fields.map fun f => (f.name, f.type.name)) = some inPlace) :
    h.ComesOut k flat fields inPlace := by
  obtain ⟨a, ha, hfields⟩ := Option.map_eq_some_iff.1 hbuilt
  obtain ⟨b, hb, hinPlace⟩ := exists_ok_of_computed hagain
  obtain ⟨hstruct, hfields⟩ := Prod.mk.inj hfields
  exact ⟨a, b, ha, hstruct, takesStructs_of_computed hreached hall, hflat, hb, hfields, hinPlace⟩

/-- In place, a nested type gets another number if a struct without a name stood before it; and a member without a name
is taken in if its type is nested in the outer struct, though it was not where it stood. -/
theorem members_not_in_place :
    renumberedHeaders.ComesOut 1 [4, 3, 5, 6] [("a", "int"), ("c", "S_INNER_1")] [("a", "int"), ("c", "S_INNER_0")] ∧
    outerTypeHeaders.ComesOut 1 [4, 3, 5] [("field0", "T")] [("b", "int"), ("c", "int")] := by
  have hrenumbered : renumberedHeaders.document.TakenAmong 1 [3] := ⟨by decide +kernel, by decide +kernel⟩
  have houterType : outerTypeHeaders.document.TakenAmong 1 [3] := ⟨by decide +kernel, by decide +kernel⟩
  constructor
  · exact comesOut_of_computed hrenumbered (by decide +kernel) renumbered_flat (by decide +kernel) (by decide +kernel)
  · exact comesOut_of_computed houterType (by decide +kernel) outerType_flat (by decide +kernel) (by decide +kernel)

end HeaderModel
