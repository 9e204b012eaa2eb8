/-
The names of fields.

A field is called as its member is, and without a name it is called after the place at which the member was laid out in
its own aggregate. Members share places: bit fields do not open one, all members of a union have the same, and what is
taken in was named before it was moved. So fields without declared names can be called alike, even where their offsets
differ.
- `Document.Seats`: the members from which the fields of an element come, each with its place and its offset.
- `aggregate_seats`: every remembered aggregate has the fields of its seats.
- `field_names_distinct_iff`: the fields have distinct names exactly if the members without names have distinct places.
- `bit_fields_named_alike`: two bit fields without names that follow each other are called alike.
-/
import Mathlib
import HeaderModel.Proofs.Decimals
import HeaderModel.Proofs.FieldPlaces

namespace HeaderModel

/-! ## Seats -/

/-- whether a member is a bit field -/
def Node.isBitField (n : Node) : Bool := (n.attr? "bits").any (· ≠ "")

/-- a member that has a field: its place in the aggregate that declares it, and the offset of the field in the aggregate
that it ends up in -/
structure Seat where
  member : Node
  place : Nat
  offset : Nat
  deriving DecidableEq, Repr

namespace Seat

/-- what the field is called -/
def name (s : Seat) : String := if s.member.name = "" then "field" ++ toString s.place else s.member.name

/-- the seat when its aggregate is taken in -/
def moved (s : Seat) (n : Nat) : Seat := { s with offset := s.offset + n }

/-- how many places further on the next member of a struct is laid out, behind seats that were taken in -/
def advance (seats : List Seat) : Nat := (seats.getLast?.map (·.offset)).getD 0 + 1

end Seat

namespace Document

/-- The seats of members of an element, laid out from an offset on. A member without a name whose type is nested brings
the seats of its type, moved to where it is; any other member has a seat of its own. The next member of a struct is laid
out behind that, or at the same offset if the member is a bit field; those of a union are all laid out at one offset. -/
inductive Seats (d : Document) : NodeId → Nat → List Node → List Seat → Prop where
  | nil {k : NodeId} {o : Nat} : Seats d k o [] []
  | inlined {k j : NodeId} {o next : Nat} {m : Node} {ms : List Node} {inner rest : List Seat} : m.name = "" →
      d.HasNested (d.node k) m j → Seats d j 0 (d.childrenOf (d.node j) .field) inner →
      next = (if (d.node k).kind = .unionType then o else o + Seat.advance inner) → Seats d k next ms rest →
      Seats d k o (m :: ms) (inner.map (·.moved o) ++ rest)
  | own {k : NodeId} {o next : Nat} {m : Node} {ms : List Node} {rest : List Seat} :
      (m.name = "" → ∀ j, ¬d.HasNested (d.node k) m j) →
      next = (if (d.node k).kind = .unionType ∨ m.isBitField = true then o else o + 1) → Seats d k next ms rest →
      Seats d k o (m :: ms) (⟨m, o, o⟩ :: rest)

/-- members have one list of seats only -/
theorem Seats.unique {d : Document} {k : NodeId} {o : Nat} {ms : List Node} {seats seats' : List Seat}
    (hseats : d.Seats k o ms seats) (hseats' : d.Seats k o ms seats') : seats = seats' := by
  induction hseats generalizing seats' with
  | nil =>
    cases hseats'
    rfl
  | inlined hname hnested _ hnext _ ihinner ihrest =>
    cases hseats' with
    | inlined _ hnested' hinner' hnext' hrest' =>
      obtain rfl := hnested.unique hnested'
      obtain rfl := ihinner hinner'
      subst hnext hnext'
      rw [ihrest hrest']
    | own hnot => exact absurd hnested (hnot hname _)
  | own hnot hnext _ ihrest =>
    cases hseats' with
    | inlined hname hnested => exact absurd hnested (hnot hname _)
    | own _ hnext' hrest' =>
      subst hnext hnext'
      rw [ihrest hrest']

end Document

/-- fields are named and placed as seats say -/
def FieldsOf (fields : List Field) (seats : List Seat) : Prop :=
  fields.map (fun f => (f.name, f.offset)) = seats.map fun s => (s.name, s.offset)

/-- an aggregate has the fields of the seats of its element -/
def Document.Seated (d : Document) (k : NodeId) (a : Aggregate) : Prop :=
  ∃ seats, d.Seats k 0 (d.childrenOf (d.node k) .field) seats ∧ FieldsOf a.fields seats

section Fields

variable {fields fields' : List Field} {seats seats' : List Seat}

theorem FieldsOf.append (h : FieldsOf fields seats) (h' : FieldsOf fields' seats') :
    FieldsOf (fields ++ fields') (seats ++ seats') := by
  unfold FieldsOf at *
  rw [List.map_append, List.map_append, h, h']

theorem FieldsOf.moved (h : FieldsOf fields seats) (n : Nat) :
    FieldsOf (fields.map fun f => { f with offset := f.offset + n }) (seats.map (·.moved n)) := by
  have hmoved := congrArg (List.map fun p : String × Nat => (p.1, p.2 + n)) h
  rw [List.map_map, List.map_map] at hmoved
  unfold FieldsOf
  rw [List.map_map, List.map_map]
  exact hmoved

theorem FieldsOf.names (h : FieldsOf fields seats) : fields.map (·.name) = seats.map (·.name) := by
  have hnames := congrArg (List.map (·.1)) h
  rwa [List.map_map, List.map_map] at hnames

theorem FieldsOf.advance {a : Aggregate} (h : FieldsOf a.fields seats) (place : Nat) :
    (Part.taken a place).advance = Seat.advance seats := by
  have hoffsets : a.fields.map (·.offset) = seats.map (·.offset) := by
    have hoffsets := congrArg (List.map (·.2)) h
    rwa [List.map_map, List.map_map] at hoffsets
  rw [Part.advance, Seat.advance, ← List.getLast?_map, ← List.getLast?_map, hoffsets]

end Fields

/-! ## The seats of an aggregate -/

namespace Build

variable {h : Headers} {c : Builder} {memory : List (NodeId × Aggregate)} {k : NodeId}

theorem isBitField_of_bits {m : Node} {bits : Option Nat} (hbits : (c.run (bitWidth m)).1 = .ok bits) :
    bits.isSome = m.isBitField := by
  unfold bitWidth at hbits
  unfold Node.isBitField
  cases hattr : m.attr? "bits" with
  | none =>
    rw [hattr] at hbits
    obtain rfl := Except.ok.inj hbits
    rfl
  | some text =>
    rw [hattr] at hbits
    dsimp only at hbits
    split_ifs at hbits with hempty
    · obtain rfl := Except.ok.inj hbits
      simp [hempty]
    · cases hwidth : Text.word32? text with
      | none =>
        rw [hwidth] at hbits
        cases hbits
      | some width =>
        rw [hwidth] at hbits
        obtain rfl := Except.ok.inj hbits
        simp [hempty]

/-- the members that are laid out add the fields of their seats -/
theorem members_seats {name : String} {ms : List Node} {l l' : Layout}
    (hmemory : ∀ j a, memory.lookup j = some a → h.document.Seated j a)
    (hrun : (c.run (ms.foldlM (member h (fun j _ => recallFrom memory j) (h.document.node k) name) l)).1 = .ok l') :
    ∃ fs seats, l'.fields = l.fields ++ fs ∧ h.document.Seats k l.offset ms seats ∧ FieldsOf fs seats := by
  induction ms generalizing l c with
  | nil =>
    obtain rfl := Except.ok.inj hrun
    exact ⟨[], [], (List.append_nil _).symm, .nil, rfl⟩
  | cons m ms ih =>
    rw [List.foldlM_cons] at hrun
    obtain ⟨l₁, hfirst, hrest⟩ := Builder.run_bind_eq_ok.1 hrun
    obtain ⟨fs, seats, hfields, hseats, hfs⟩ := ih hrest
    rcases member_layout hfirst with ⟨j, a, hname, hnested, ha, rfl⟩ | ⟨hnot, f, n, hstems, hoffset, hname, rfl⟩
    · obtain ⟨inner, hinner, ha⟩ := hmemory j a ha
      refine ⟨_, inner.map (·.moved l.offset) ++ seats, ?_, .inlined hname hnested hinner ?_ hseats,
        (ha.moved l.offset).append hfs⟩
      · rw [hfields]
        exact List.append_assoc ..
      · rw [offset_inline, ha.advance]
        simp
    · have hbits := isBitField_of_bits (hstems.bits c)
      refine ⟨f :: fs, ⟨m, l.offset, l.offset⟩ :: seats, ?_, .own hnot ?_ hseats, ?_⟩
      · rw [hfields]
        exact List.append_assoc ..
      · rw [offset_push, Part.advance, hbits]
        by_cases hunion : (h.document.node k).kind = .unionType
        · simp [hunion]
        · cases m.isBitField <;> simp [hunion]
      · have hhead : (f.name, f.offset) = (Seat.name ⟨m, l.offset, l.offset⟩, l.offset) := by rw [hname, hoffset]; rfl
        exact List.cons_eq_cons.2 ⟨hhead, hfs⟩

end Build

/-- **Every remembered aggregate has the fields of its seats.** -/
theorem aggregate_seats {h : Headers} {memory : List (NodeId × Aggregate)} (hm : Grounded (MadeAggregate h) memory)
    {k : NodeId} {a : Aggregate} (ha : memory.lookup k = some a) : h.document.Seated k a := by
  refine hm.forall_entries (P := h.document.Seated) (fun older k a _ _ hmade ih => ?_) ha
  obtain ⟨outer, -, hbody⟩ := hmade
  obtain ⟨c, l, -, -, hfields, hrun⟩ := Build.aggregateBody_ok (hbody (.new (.empty "")))
  obtain ⟨fs, seats, hl, hseats, hfs⟩ := Build.members_seats ih hrun
  refine ⟨seats, hseats, ?_⟩
  rw [hfields, hl]
  exact hfs

/-! ## Names -/

/-- a name like those that fields get whose members have none -/
def IsFieldNumber (name : String) : Prop := ∃ digits n, Text.IsDecimal digits n ∧ name.toList = "field".toList ++ digits

theorem isFieldNumber (n : Nat) : IsFieldNumber ("field" ++ toString n) :=
  ⟨_, n, Text.isDecimal_repr n, String.toList_append⟩

theorem not_isFieldNumber {name : String} (hname : name.toList.take 5 ≠ "field".toList) : ¬IsFieldNumber name := by
  rintro ⟨digits, n, -, htext⟩
  refine hname ?_
  rw [htext]
  exact List.take_left' rfl

/-- the declared names of members that have one -/
def declaredNames (seats : List Seat) : List String := (seats.map (·.member.name)).filter (· ≠ "")

/-- the places of the members that have no name -/
def namelessPlaces (seats : List Seat) : List Nat := (seats.filter (·.member.name = "")).map (·.place)

/-- the names of seats are distinct exactly if the members without names have distinct places -/
theorem nodup_names_iff {seats : List Seat} (hnames : (declaredNames seats).Nodup)
    (hfree : ∀ s ∈ seats, ¬IsFieldNumber s.member.name) :
    (seats.map (·.name)).Nodup ↔ (namelessPlaces seats).Nodup := by
  have hnumbered : ∀ s : Seat, s.member.name = "" → s.name = "field" ++ toString s.place := fun s hs => if_pos hs
  have hdeclared : ∀ s : Seat, s.member.name ≠ "" → s.name = s.member.name := fun s hs => if_neg hs
  rw [declaredNames, List.nodup_iff_pairwise_ne, List.filter_map, List.pairwise_map, List.pairwise_filter] at hnames
  rw [namelessPlaces, List.nodup_iff_pairwise_ne, List.nodup_iff_pairwise_ne, List.pairwise_map, List.pairwise_map,
    List.pairwise_filter]
  simp only [Function.comp_apply, decide_eq_true_eq] at hnames ⊢
  constructor
  · intro hdistinct
    refine hdistinct.imp fun {s t} hst hs ht hplace => hst ?_
    rw [hnumbered s hs, hnumbered t ht, hplace]
  · intro hplaces
    refine (hnames.and hplaces).imp_of_mem fun {s t} hs ht hst hname => ?_
    by_cases hs' : s.member.name = ""
    · rw [hnumbered s hs'] at hname
      by_cases ht' : t.member.name = ""
      · rw [hnumbered t ht', String.append_right_inj] at hname
        exact hst.2 hs' ht' (Nat.repr_injective hname)
      · rw [hdeclared t ht'] at hname
        exact hfree t ht (hname ▸ isFieldNumber s.place)
    · rw [hdeclared s hs'] at hname
      by_cases ht' : t.member.name = ""
      · rw [hnumbered t ht'] at hname
        exact hfree s hs (hname ▸ isFieldNumber t.place)
      · rw [hdeclared t ht'] at hname
        exact hst.1 hs' ht' hname

/-- **Fields have distinct names exactly if the members without names have distinct places.** Whatever was asked before:
an aggregate that is built has the fields of its seats, and these are determined by its element. If no two of the members
that are declared with a name share it, and none of these names is `field` with a number, then the fields are named
apart if and only if no two of the members without names were laid out at one place of the aggregates that declare them. -/
theorem field_names_distinct_iff (h : Headers) (m : Module) (requests : List Request) {k : NodeId} {a : Aggregate}
    (ha : ((Builder.new m).afterAll h requests).aggregates.lookup k = some a) :
    ∃ seats, h.document.Seats k 0 (h.document.childrenOf (h.document.node k) .field) seats ∧
      (∀ seats', h.document.Seats k 0 (h.document.childrenOf (h.document.node k) .field) seats' → seats' = seats) ∧
      a.fields.map (fun f => (f.name, f.offset)) = seats.map (fun s => (s.name, s.offset)) ∧
      ((declaredNames seats).Nodup → (∀ s ∈ seats, ¬IsFieldNumber s.member.name) →
        ((a.fields.map (·.name)).Nodup ↔ (namelessPlaces seats).Nodup)) := by
  obtain ⟨seats, hseats, hfields⟩ := aggregate_seats (settled_afterAll h m requests).aggregates ha
  refine ⟨seats, hseats, fun _ hseats' => hseats'.unique hseats, hfields, fun hnames hfree => ?_⟩
  rw [hfields.names]
  exact nodup_names_iff hnames hfree

/-! ## A struct that takes bit fields in -/

/-- a struct in a file `a.h`: a bit field without a name, a struct without a name, and a last member `b`; in the struct
that is taken in, a member `x` and then a bit field without a name -/
def packedReading : Markup.Reading :=
  ⟨[.opens "CastXML" (some []) false,
    .opens "Namespace" (some [("id", "n")]) true,
    .opens "Struct" (some [("id", "s"), ("name", "S"), ("context", "n"), ("file", "f")]) true,
    .opens "Field" (some [("id", "m1"), ("name", ""), ("type", "i"), ("bits", "3"), ("context", "s")]) true,
    .opens "Field" (some [("id", "m2"), ("name", ""), ("type", "t"), ("context", "s")]) true,
    .opens "Struct" (some [("id", "t"), ("name", ""), ("context", "s")]) true,
    .opens "Field" (some [("id", "m3"), ("name", "x"), ("type", "i"), ("context", "t")]) true,
    .opens "Field" (some [("id", "m4"), ("name", ""), ("type", "i"), ("bits", "5"), ("context", "t")]) true,
    .opens "Field" (some [("id", "m5"), ("name", "b"), ("type", "i"), ("context", "s")]) true,
    .opens "FundamentalType" (some [("id", "i"), ("name", "int")]) true,
    .opens "File" (some [("id", "f"), ("name", "a.h")]) true,
    .closes], false⟩

/-- its document, with the file in scope -/
def packedHeaders : Headers :=
  ⟨((Document.ofReading packedReading).toOption).getD (.ofRoot "" []), Scope.empty.addUnit "a" true []⟩

/-- the seats of the fields that are taken in -/
def packedTaken : List Seat := [⟨packedHeaders.document.node 5, 0, 0⟩, ⟨packedHeaders.document.node 6, 1, 1⟩]

/-- the seats of all fields -/
def packedSeats : List Seat :=
  ⟨packedHeaders.document.node 2, 0, 0⟩ :: (packedTaken.map (·.moved 0) ++ [⟨packedHeaders.document.node 7, 2, 2⟩])

theorem packed_seats : packedHeaders.document.Seats 1 0
    (packedHeaders.document.childrenOf (packedHeaders.document.node 1) .field) packedSeats := by
  have hchildren : packedHeaders.document.childrenOf (packedHeaders.document.node 1) .field =
      [packedHeaders.document.node 2, packedHeaders.document.node 3, packedHeaders.document.node 7] := by decide +kernel
  have htaken : packedHeaders.document.childrenOf (packedHeaders.document.node 4) .field =
      [packedHeaders.document.node 5, packedHeaders.document.node 6] := by decide +kernel
  have hint : ∀ k ∈ [1, 4], ∀ i ∈ [2, 5, 6, 7], ∀ j, ¬packedHeaders.document.HasNested (packedHeaders.document.node k)
      (packedHeaders.document.node i) j := fun k hk i hi =>
    Document.not_hasNested (i := 8) (by revert i; decide +kernel) (by revert k; decide +kernel)
  have hinner : packedHeaders.document.Seats 4 0 [packedHeaders.document.node 5, packedHeaders.document.node 6]
      packedTaken :=
    .own (fun _ => hint 4 (by decide) 5 (by decide)) (by decide +kernel)
      (.own (fun _ => hint 4 (by decide) 6 (by decide)) rfl .nil)
  have hlast : packedHeaders.document.Seats 1 2 [packedHeaders.document.node 7]
      [⟨packedHeaders.document.node 7, 2, 2⟩] :=
    .own (fun _ => hint 1 (by decide) 7 (by decide)) rfl .nil
  have hrest : packedHeaders.document.Seats 1 0 [packedHeaders.document.node 3, packedHeaders.document.node 7]
      (packedTaken.map (·.moved 0) ++ [⟨packedHeaders.document.node 7, 2, 2⟩]) :=
    .inlined (by decide +kernel) ⟨by decide +kernel, by decide +kernel⟩ (htaken ▸ hinner) (by decide +kernel) hlast
  rw [hchildren]
  exact .own (fun _ => hint 1 (by decide) 2 (by decide)) (by decide +kernel) hrest

/-- a builder that has built the model -/
def packedBuilder : Builder := (Builder.new (.empty "M")).afterAll packedHeaders [.all]

theorem packed_built :
    ∃ a, packedBuilder.aggregates.lookup 1 = some a ∧ a.fields.map (·.name) = ["field0", "x", "field1", "b"] := by
  have hcomputed : (packedBuilder.aggregates.lookup 1).map (fun a => a.fields.map (·.name)) =
      some ["field0", "x", "field1", "b"] := by
    decide +kernel
  exact Option.map_eq_some_iff.1 hcomputed

/-- two bit fields without names that are laid out at different places are named apart -/
theorem packed_fields_distinct :
    ∃ a, packedBuilder.aggregates.lookup 1 = some a ∧ a.fields.map (·.name) = ["field0", "x", "field1", "b"] ∧
      declaredNames packedSeats = ["x", "b"] ∧ (∀ s ∈ packedSeats, ¬IsFieldNumber s.member.name) ∧
      (a.fields.map (·.name)).Nodup := by
  obtain ⟨a, ha, hfields⟩ := packed_built
  have hdeclared : declaredNames packedSeats = ["x", "b"] := by decide +kernel
  have hprefixes : ∀ s ∈ packedSeats, s.member.name.toList.take 5 ≠ "field".toList := by decide +kernel
  have hfree : ∀ s ∈ packedSeats, ¬IsFieldNumber s.member.name := fun s hs => not_isFieldNumber (hprefixes s hs)
  obtain ⟨seats, -, hunique, -, hiff⟩ := field_names_distinct_iff packedHeaders (.empty "M") [.all] ha
  obtain rfl := hunique packedSeats packed_seats
  refine ⟨a, ha, hfields, hdeclared, hfree, (hiff ?_ hfree).2 (by decide +kernel)⟩
  rw [hdeclared]
  decide

/-! ## A struct with bit fields without names -/

/-- a struct in a file `a.h` with a bit field `a`, two bit fields without names, and a member `b` -/
def flagsReading : Markup.Reading :=
  ⟨[.opens "CastXML" (some []) false,
    .opens "Namespace" (some [("id", "n")]) true,
    .opens "Struct" (some [("id", "s"), ("name", "FLAGS"), ("context", "n"), ("file", "f")]) true,
    .opens "Field" (some [("id", "m1"), ("name", "a"), ("type", "i"), ("bits", "3"), ("context", "s")]) true,
    .opens "Field" (some [("id", "m2"), ("name", ""), ("type", "i"), ("bits", "2"), ("context", "s")]) true,
    .opens "Field" (some [("id", "m3"), ("name", ""), ("type", "i"), ("bits", "4"), ("context", "s")]) true,
    .opens "Field" (some [("id", "m4"), ("name", "b"), ("type", "i"), ("context", "s")]) true,
    .opens "FundamentalType" (some [("id", "i"), ("name", "int")]) true,
    .opens "File" (some [("id", "f"), ("name", "a.h")]) true,
    .closes], false⟩

/-- its document, with the file in scope -/
def flagsHeaders : Headers :=
  ⟨((Document.ofReading flagsReading).toOption).getD (.ofRoot "" []), Scope.empty.addUnit "a" true []⟩

/-- the seats of its fields: bit fields keep the place for what comes next -/
def flagsSeats : List Seat :=
  [⟨flagsHeaders.document.node 2, 0, 0⟩, ⟨flagsHeaders.document.node 3, 0, 0⟩, ⟨flagsHeaders.document.node 4, 0, 0⟩,
    ⟨flagsHeaders.document.node 5, 0, 0⟩]

theorem flags_seats : flagsHeaders.document.Seats 1 0
    (flagsHeaders.document.childrenOf (flagsHeaders.document.node 1) .field) flagsSeats := by
  have hchildren : flagsHeaders.document.childrenOf (flagsHeaders.document.node 1) .field =
      [flagsHeaders.document.node 2, flagsHeaders.document.node 3, flagsHeaders.document.node 4,
        flagsHeaders.document.node 5] := by decide +kernel
  have hint : ∀ i ∈ [2, 3, 4, 5], ∀ j, ¬flagsHeaders.document.HasNested (flagsHeaders.document.node 1)
      (flagsHeaders.document.node i) j := fun i hi =>
    Document.not_hasNested (i := 6) (by revert i; decide +kernel) (by decide +kernel)
  have hlast : flagsHeaders.document.Seats 1 0 [flagsHeaders.document.node 5] [⟨flagsHeaders.document.node 5, 0, 0⟩] :=
    .own (fun _ => hint 5 (by decide)) rfl .nil
  have hbits : ∀ i ∈ [2, 3, 4], ∀ ms seats, flagsHeaders.document.Seats 1 0 ms seats →
      flagsHeaders.document.Seats 1 0 (flagsHeaders.document.node i :: ms)
        (⟨flagsHeaders.document.node i, 0, 0⟩ :: seats) := fun i hi ms seats hrest =>
    .own (fun _ => hint i (List.mem_append_left [5] hi)) (by revert i; decide +kernel) hrest
  rw [hchildren]
  exact hbits 2 (by decide) _ _ (hbits 3 (by decide) _ _ (hbits 4 (by decide) _ _ hlast))

/-- two bit fields without names that follow each other are called alike, though no declared name is used twice -/
theorem bit_fields_named_alike :
    ∃ a, ((Builder.new (.empty "M")).afterAll flagsHeaders [.all]).aggregates.lookup 1 = some a ∧
      flagsHeaders.document.Seats 1 0
        (flagsHeaders.document.childrenOf (flagsHeaders.document.node 1) .field) flagsSeats ∧
      declaredNames flagsSeats = ["a", "b"] ∧ (declaredNames flagsSeats).Nodup ∧
      (∀ s ∈ flagsSeats, ¬IsFieldNumber s.member.name) ∧
      a.fields.map (·.name) = ["a", "field0", "field0", "b"] ∧ ¬(a.fields.map (·.name)).Nodup := by
  have hcomputed : (((Builder.new (.empty "M")).afterAll flagsHeaders [.all]).aggregates.lookup 1).map
      (fun a => a.fields.map (·.name)) = some ["a", "field0", "field0", "b"] := by
    decide +kernel
  obtain ⟨a, ha, hfields⟩ := Option.map_eq_some_iff.1 hcomputed
  have hdeclared : declaredNames flagsSeats = ["a", "b"] := by decide +kernel
  have hprefixes : ∀ s ∈ flagsSeats, s.member.name.toList.take 5 ≠ "field".toList := by decide +kernel
  refine ⟨a, ha, flags_seats, hdeclared, ?_, fun s hs => not_isFieldNumber (hprefixes s hs), hfields, ?_⟩
  · rw [hdeclared]
    decide
  · rw [hfields]
    decide

end HeaderModel
