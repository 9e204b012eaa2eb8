/-
Counting fields.

In a struct that takes in structs only, each of which ends with a field that is no bit field, the fields lie as if they
were its own: the offset of a field is the number of fields before it that are no bit fields.
- `Part.Placed.countsFrom`: such parts, one after the other, keep on counting.
- `fields_counted`: the offsets in such a struct, by induction on what the builder remembers.
-/
import HeaderModel.Proofs.FieldPlaces

namespace HeaderModel

/-! ## Counts -/

/-- the number of fields that are no bit fields -/
def slotsOf (fs : List Field) : Nat := fs.countP (·.bits.isNone)

/-- every field lies at the number of fields before it that are no bit fields, counted from a place -/
def CountsFrom : Nat → List Field → Prop
  | _, [] => True
  | o, f :: fs => f.offset = o ∧ CountsFrom (o + slotsOf [f]) fs

section Counts

variable {o : Nat} {fs gs : List Field}

theorem slotsOf_append (fs gs : List Field) : slotsOf (fs ++ gs) = slotsOf fs + slotsOf gs := List.countP_append

theorem slotsOf_cons (f : Field) (fs : List Field) : slotsOf (f :: fs) = slotsOf [f] + slotsOf fs :=
  slotsOf_append [f] fs

/-- the number of fields depends on the bit fields only -/
theorem slotsOf_eq_of_bits (hbits : fs.map (·.bits) = gs.map (·.bits)) : slotsOf fs = slotsOf gs := by
  have hcount : ∀ l : List Field, slotsOf l = (l.map (·.bits)).countP (·.isNone) := by
    intro l
    rw [List.countP_map]
    rfl
  rw [hcount, hcount, hbits]

theorem countsFrom_append : CountsFrom o (fs ++ gs) ↔ CountsFrom o fs ∧ CountsFrom (o + slotsOf fs) gs := by
  induction fs generalizing o with
  | nil => exact ⟨fun h => ⟨trivial, h⟩, fun h => h.2⟩
  | cons f fs ih =>
    rw [List.cons_append, CountsFrom, CountsFrom, ih, slotsOf_cons f fs, Nat.add_assoc, and_assoc]

theorem CountsFrom.moved (hfs : CountsFrom o fs) (n : Nat) :
    CountsFrom (o + n) (fs.map fun f => { f with offset := f.offset + n }) := by
  induction fs generalizing o with
  | nil => exact trivial
  | cons f fs ih =>
    refine ⟨congrArg (· + n) hfs.1, ?_⟩
    have hrest := ih hfs.2
    rw [Nat.add_right_comm] at hrest
    exact hrest

/-- the last field, if it is no bit field, lies right before what comes next -/
theorem CountsFrom.last (hfs : CountsFrom 0 fs) {last : Field} (hlast : last ∈ fs.getLast?) (hbits : last.bits = none) :
    last.offset + 1 = slotsOf fs := by
  obtain ⟨front, rfl⟩ := List.getLast?_eq_some_iff.1 (Option.mem_def.1 hlast)
  have hplace : last.offset = 0 + slotsOf front := (countsFrom_append.1 hfs).2.1
  have hone : slotsOf [last] = 1 := by simp [slotsOf, hbits]
  rw [slotsOf_append, hone, hplace, Nat.zero_add]

/-- the offset of a field is the number of fields before it that are no bit fields -/
theorem CountsFrom.offset_eq (hfs : CountsFrom o fs) {i : Nat} {f : Field} (hf : fs[i]? = some f) :
    f.offset = o + slotsOf (fs.take i) := by
  obtain ⟨hi, rfl⟩ := List.getElem?_eq_some_iff.1 hf
  have hsplit : fs = fs.take i ++ fs[i] :: fs.drop (i + 1) := by
    rw [← List.drop_eq_getElem_cons hi, List.take_append_drop]
  rw [hsplit, countsFrom_append] at hfs
  exact hfs.2.1

end Counts

/-! ## Structs that take in structs -/

/-- parts that go on counting: what is taken in counts its fields, and its last one is no bit field -/
theorem Part.Placed.countsFrom {o : Nat} {ps : List Part} (hps : Part.Placed false o ps)
    (htaken : ∀ a place, .taken a place ∈ ps → CountsFrom 0 a.fields ∧ ∃ last ∈ a.fields.getLast?, last.bits = none) :
    CountsFrom o (ps.flatMap Part.fields) := by
  induction ps generalizing o with
  | nil => exact trivial
  | cons p ps ih =>
    have hrest := ih hps.2 fun a place hmem => htaken a place (List.mem_cons_of_mem p hmem)
    rw [if_neg Bool.false_ne_true] at hrest
    have hplace : p.place = o := hps.1
    rw [List.flatMap_cons, countsFrom_append]
    cases p with
    | own f =>
      have hadvance : (Part.own f).advance = slotsOf [f] := by
        cases hbits : f.bits with
        | none => simp [Part.advance, slotsOf, hbits]
        | some width => simp [Part.advance, slotsOf, hbits]
      rw [hadvance] at hrest
      exact ⟨⟨hplace, trivial⟩, hrest⟩
    | taken a place =>
      obtain ⟨hcounts, last, hlast, hbits⟩ := htaken a place List.mem_cons_self
      have hslots : slotsOf (Part.taken a place).fields = slotsOf a.fields := by
        refine slotsOf_eq_of_bits ?_
        rw [Part.fields, List.map_map]
        rfl
      rw [Part.advance_taken hlast, hcounts.last hlast hbits, ← hslots] at hrest
      obtain rfl : place = o := hplace
      have hmoved := hcounts.moved place
      rw [Nat.zero_add] at hmoved
      exact ⟨hmoved, hrest⟩

/-- what an element takes in, directly or not, are structs with fields, the last of which is no bit field -/
def Headers.TakesStructs (h : Headers) (memory : List (NodeId × Aggregate)) (k : NodeId) : Prop :=
  ∀ j, Relation.TransGen h.document.Inlines k j → ∀ a, memory.lookup j = some a →
    a.isUnion = false ∧ ∃ last ∈ a.fields.getLast?, last.bits = none

/-- **In a struct that takes in structs, fields are counted,** however deep the structs lie in each other. -/
theorem fields_counted {h : Headers} {memory : List (NodeId × Aggregate)} (hm : Grounded (MadeAggregate h) memory)
    {k : NodeId} {a : Aggregate} (ha : memory.lookup k = some a) (hstruct : a.isUnion = false)
    (htakes : h.TakesStructs memory k) : CountsFrom 0 a.fields := by
  refine hm.forall_entries (P := fun k a => a.isUnion = false → h.TakesStructs memory k → CountsFrom 0 a.fields) ?_ ha
    hstruct htakes
  intro older k a hsuffix holder hmade ih hstruct htakes
  obtain ⟨-, parts, hparts, hplaced⟩ := hmade.parts
  rw [hstruct] at hplaced
  rw [hparts.fields]
  apply hplaced.countsFrom
  intro inner place hmem
  obtain ⟨j, hinlines, hj⟩ := hparts.inlines hmem
  obtain ⟨hinner, hlast⟩ := htakes j (.single hinlines) inner (hm.lookup_of_suffix hsuffix hj)
  exact ⟨ih j inner hj hinner fun j' hj' => htakes j' (hj'.head hinlines), hlast⟩

end HeaderModel
