/-
What the items of an attribute string say.

The items are scanned from left to right, and what a `valid` or a writable range says depends on the `pre` or `post`
that was met last. The scan remembers nothing else of the order, so its outcome can be read off the list (`Says`): every
mark is a matter of which items occur, and behind which `pre` or `post`.
- `lastOf_append_singleton`: one more item replaces the last item of its sort, or leaves it.
- `scan_last`, `scan_any`: what the scan remembers is a matter of the last item of a sort, or of whether there is one.
- `scan_isWritten`: a write is remembered if an item said so behind the right `pre` or `post`.
- `meaning_of_items`: a meaning says what the items say, and the other items and those of blocks add nothing.
-/
import Mathlib.Tactic
import HeaderModel.Sal.Meaning

namespace HeaderModel.Sal

/-! ## Occurrences -/

namespace Item

/-- a `pre` or a `post` -/
def isMoment : Item → Bool
  | .pre | .post => true
  | _ => false

/-- a calling convention -/
def isConvention : Item → Bool
  | .convention _ => true
  | _ => false

/-- a `uuid` -/
def isUuid : Item → Bool
  | .uuid _ => true
  | _ => false

/-- an item that says something about the declaration: none that opens or closes a block, and no other text -/
def speaks : Item → Bool
  | .blockBegin | .blockEnd | .other _ => false
  | _ => true

end Item

/-- the last item of a sort is a given one -/
def LastOf (sort : Item → Bool) (x : Item) (items : List Item) : Prop :=
  ∃ front rest, items = front ++ x :: rest ∧ ∀ y ∈ rest, sort y = false

/-- an item occurs, and the nearest `pre` or `post` in front of it is a given one -/
def OccursAfter (moment x : Item) (items : List Item) : Prop :=
  ∃ front rest, items = front ++ x :: rest ∧ LastOf Item.isMoment moment front

/-- the items say that a parameter is written: it is valid afterwards, or a range is writable before -/
def Writes (items : List Item) : Prop :=
  OccursAfter .post .valid items ∨ ∃ singleElement, OccursAfter .pre (.range true singleElement) items

/-- the items name a writable range, anywhere -/
def NamesWritable (items : List Item) : Prop := ∃ singleElement, .range true singleElement ∈ items

/-- one of the marks for a direction -/
def isDirectionFlag (flag : String × Nat) : Bool := ["IN", "OUT", "IN_OUT"].contains flag.1

/-- a meaning has the marks that the items say, and the last convention and `uuid` among them -/
structure Says (items : List Item) (m : Meaning) : Prop where
  isOptional : ("OPTIONAL", 8) ∈ m.param.flags ↔ .maybeNull ∈ items
  isBuffer : ("BUFFER", 16) ∈ m.param.flags ↔ ∃ writable, .range writable false ∈ items
  inputOutput : ("IN_OUT", 4) ∈ m.param.flags ↔ Writes items ∧ ¬NamesWritable items
  output : ("OUT", 2) ∈ m.param.flags ↔ Writes items ∧ NamesWritable items
  input : ("IN", 1) ∈ m.param.flags ↔ ¬Writes items ∧ ¬NamesWritable items
  oneDirection : (m.param.flags.filter isDirectionFlag).length ≤ 1
  convention : ∀ c, m.convention = some c ↔ LastOf Item.isConvention (.convention c) items
  noConvention : m.convention = none ↔ ∀ c, .convention c ∉ items
  guid : ∀ text, m.guid = some text ↔ LastOf Item.isUuid (.uuid text) items
  noGuid : m.guid = none ↔ ∀ text, .uuid text ∉ items

/-! ## One more item -/

/-- where an item stands in a list with one more item: it is the new one, or it stood in the list before -/
theorem exists_split_append_singleton {x y : Item} {items : List Item} {P : List Item → List Item → Prop} :
    (∃ front rest, items ++ [y] = front ++ x :: rest ∧ P front rest) ↔
      y = x ∧ P items [] ∨ ∃ front rest, items = front ++ x :: rest ∧ P front (rest ++ [y]) := by
  constructor
  · rintro ⟨front, rest, heq, hP⟩
    rcases List.eq_nil_or_concat' rest with rfl | ⟨rest, z, rfl⟩
    · obtain ⟨rfl, hlast⟩ := List.append_inj' heq rfl
      exact .inl ⟨List.singleton_inj.1 hlast, hP⟩
    · rw [← List.cons_append, ← List.append_assoc] at heq
      obtain ⟨rfl, hlast⟩ := List.append_inj' heq rfl
      obtain rfl := List.singleton_inj.1 hlast
      exact .inr ⟨front, rest, rfl, hP⟩
  · rintro (⟨rfl, hP⟩ | ⟨front, rest, rfl, hP⟩)
    · exact ⟨items, [], rfl, hP⟩
    · exact ⟨front, rest ++ [y], by simp, hP⟩

/-- one more item is the last one of its sort, or leaves the last one of another sort -/
theorem lastOf_append_singleton {sort : Item → Bool} {x y : Item} {items : List Item} :
    LastOf sort x (items ++ [y]) ↔ y = x ∨ sort y = false ∧ LastOf sort x items := by
  unfold LastOf
  rw [exists_split_append_singleton]
  simp only [List.forall_mem_append, List.forall_mem_singleton, List.not_mem_nil, false_imp_iff, implies_true, and_true]
  refine or_congr_right ⟨?_, ?_⟩
  · rintro ⟨front, rest, heq, hrest, hy⟩
    exact ⟨hy, front, rest, heq, hrest⟩
  · rintro ⟨hy, front, rest, heq, hrest⟩
    exact ⟨front, rest, heq, hrest, hy⟩

/-- one more item occurs after the last moment, and what occurred before still does -/
theorem occursAfter_append_singleton {moment x y : Item} {items : List Item} :
    OccursAfter moment x (items ++ [y]) ↔
      y = x ∧ LastOf Item.isMoment moment items ∨ OccursAfter moment x items := exists_split_append_singleton

@[simp] theorem not_lastOf_nil {sort : Item → Bool} {x : Item} : ¬LastOf sort x [] := by
  rintro ⟨front, rest, heq, -⟩
  simp at heq

@[simp] theorem not_occursAfter_nil {moment x : Item} : ¬OccursAfter moment x [] := by
  rintro ⟨front, rest, heq, -⟩
  simp at heq

/-! ## One step of the scan -/

namespace Scan

variable (s : Scan) (x : Item)

/-- the item of which the scan is in the moment -/
def lastMoment : Option Item :=
  match s.moment with
  | .unstated => none
  | .before => some .pre
  | .after => some .post

/-- the end of a block changes only the blocks and notices -/
theorem step_blockEnd : ∃ opened notices, s.step .blockEnd = { s with opened, notices } := by
  unfold step
  cases s.opened with
  | zero => exact ⟨_, _, rfl⟩
  | succ opened => exact ⟨_, _, rfl⟩

theorem lastMoment_step : (s.step x).lastMoment = if x.isMoment then some x else s.lastMoment := by
  cases x with
  | blockEnd =>
    obtain ⟨opened, notices, hstep⟩ := s.step_blockEnd
    rw [hstep]
    rfl
  | _ => rfl

theorem convention_step : (s.step x).convention.map .convention =
    if x.isConvention then some x else s.convention.map .convention := by
  cases x with
  | blockEnd =>
    obtain ⟨opened, notices, hstep⟩ := s.step_blockEnd
    rw [hstep]
    rfl
  | _ => rfl

theorem guid_step : (s.step x).guid.map .uuid = if x.isUuid then some x else s.guid.map .uuid := by
  cases x with
  | blockEnd =>
    obtain ⟨opened, notices, hstep⟩ := s.step_blockEnd
    rw [hstep]
    rfl
  | _ => rfl

theorem isSome_convention_step :
    (s.step x).convention.isSome = true ↔ s.convention.isSome = true ∨ ∃ c, x = .convention c := by
  have hstep := congrArg Option.isSome (s.convention_step x)
  rw [Option.isSome_map, apply_ite Option.isSome, Option.isSome_map] at hstep
  rw [hstep]
  cases x <;> simp [Item.isConvention]

theorem isSome_guid_step : (s.step x).guid.isSome = true ↔ s.guid.isSome = true ∨ ∃ text, x = .uuid text := by
  have hstep := congrArg Option.isSome (s.guid_step x)
  rw [Option.isSome_map, apply_ite Option.isSome, Option.isSome_map] at hstep
  rw [hstep]
  cases x <;> simp [Item.isUuid]

theorem isOptional_step : (s.step x).isOptional = true ↔ s.isOptional = true ∨ x = .maybeNull := by
  cases x with
  | blockEnd =>
    obtain ⟨opened, notices, hstep⟩ := s.step_blockEnd
    simp [hstep]
  | _ => simp [step]

theorem isBuffer_step : (s.step x).isBuffer = true ↔ s.isBuffer = true ∨ ∃ writable, x = .range writable false := by
  cases x with
  | blockEnd =>
    obtain ⟨opened, notices, hstep⟩ := s.step_blockEnd
    simp [hstep]
  | _ => simp [step]

theorem hasWritable_step :
    (s.step x).hasWritable = true ↔ s.hasWritable = true ∨ ∃ singleElement, x = .range true singleElement := by
  cases x with
  | blockEnd =>
    obtain ⟨opened, notices, hstep⟩ := s.step_blockEnd
    simp [hstep]
  | _ => simp [step]

theorem isWritten_step : (s.step x).isWritten = true ↔ s.isWritten = true ∨ x = .valid ∧ s.lastMoment = some .post ∨
    (∃ singleElement, x = .range true singleElement) ∧ s.lastMoment = some .pre := by
  cases x with
  | blockEnd =>
    obtain ⟨opened, notices, hstep⟩ := s.step_blockEnd
    simp [hstep]
  | _ => cases hmoment : s.moment <;> simp [step, lastMoment, hmoment]

end Scan

/-! ## What the scan remembers -/

section Scan

variable (items : List Item)

theorem scan_nil : scan [] = Scan.start := rfl

theorem scan_append_singleton (x : Item) : scan (items ++ [x]) = (scan items).step x := by
  simp [scan]

/-- what every item of a sort replaces, comes from the last item of that sort -/
theorem scan_last (value : Scan → Option Item) {sort : Item → Bool} (hstart : value .start = none)
    (hstep : ∀ s x, value (s.step x) = if sort x then some x else value s) {x : Item} (hx : sort x = true) :
    value (scan items) = some x ↔ LastOf sort x items := by
  induction items using List.reverseRecOn with
  | nil => simp [scan_nil, hstart]
  | append_singleton items y ih =>
    rw [scan_append_singleton, hstep, lastOf_append_singleton]
    cases hy : sort y with
    | true => simp
    | false =>
      have hne : y ≠ x := fun heq => by simp [heq, hx] at hy
      simp [hne, ih]

theorem exists_mem_eq {α : Type} {f : α → Item} {items : List Item} :
    (∃ x ∈ items, ∃ a, x = f a) ↔ ∃ a, f a ∈ items := by
  constructor
  · rintro ⟨_, hmem, a, rfl⟩
    exact ⟨a, hmem⟩
  · rintro ⟨a, hmem⟩
    exact ⟨f a, hmem, a, rfl⟩

/-- what an item of a sort sets, is set if there is one -/
theorem scan_any (flag : Scan → Bool) {sort : Item → Prop} (hstart : flag .start = false)
    (hstep : ∀ s x, flag (s.step x) = true ↔ flag s = true ∨ sort x) :
    flag (scan items) = true ↔ ∃ x ∈ items, sort x := by
  induction items using List.reverseRecOn with
  | nil => simp [scan_nil, hstart]
  | append_singleton items y ih =>
    rw [scan_append_singleton, hstep, ih]
    simp only [List.mem_append, List.mem_singleton, or_and_right, exists_or, exists_eq_left]

theorem scan_lastMoment {x : Item} (hx : x.isMoment = true) :
    (scan items).lastMoment = some x ↔ LastOf Item.isMoment x items :=
  scan_last items Scan.lastMoment rfl Scan.lastMoment_step hx

/-- the scan keeps the last convention -/
theorem scan_convention (c : Convention) :
    (scan items).convention = some c ↔ LastOf Item.isConvention (.convention c) items := by
  have hlast := scan_last items (fun s => s.convention.map .convention) rfl Scan.convention_step
    (show (Item.convention c).isConvention = true from rfl)
  simpa using hlast

theorem scan_noConvention : (scan items).convention = none ↔ ∀ c, .convention c ∉ items := by
  have hsome := scan_any items (fun s => s.convention.isSome) rfl Scan.isSome_convention_step
  rw [← Option.not_isSome_iff_eq_none, hsome, exists_mem_eq, not_exists]

/-- the scan keeps the last `uuid` -/
theorem scan_guid (text : String) : (scan items).guid = some text ↔ LastOf Item.isUuid (.uuid text) items := by
  have hlast := scan_last items (fun s => s.guid.map .uuid) rfl Scan.guid_step
    (show (Item.uuid text).isUuid = true from rfl)
  simpa using hlast

theorem scan_noGuid : (scan items).guid = none ↔ ∀ text, .uuid text ∉ items := by
  have hsome := scan_any items (fun s => s.guid.isSome) rfl Scan.isSome_guid_step
  rw [← Option.not_isSome_iff_eq_none, hsome, exists_mem_eq, not_exists]

theorem scan_isOptional : (scan items).isOptional = true ↔ .maybeNull ∈ items := by
  rw [scan_any items Scan.isOptional rfl Scan.isOptional_step]
  simp

theorem scan_isBuffer : (scan items).isBuffer = true ↔ ∃ writable, .range writable false ∈ items :=
  (scan_any items Scan.isBuffer rfl Scan.isBuffer_step).trans exists_mem_eq

/-- the scan knows of a writable range if there is one -/
theorem scan_hasWritable : (scan items).hasWritable = true ↔ NamesWritable items :=
  (scan_any items Scan.hasWritable rfl Scan.hasWritable_step).trans exists_mem_eq

/-- the scan knows of a write if an item said so in the right moment -/
theorem scan_isWritten : (scan items).isWritten = true ↔ Writes items := by
  unfold Writes
  induction items using List.reverseRecOn with
  | nil => simp [scan_nil, Scan.start]
  | append_singleton items x ih =>
    have hpost := scan_lastMoment items (show Item.post.isMoment = true from rfl)
    have hpre := scan_lastMoment items (show Item.pre.isMoment = true from rfl)
    rw [scan_append_singleton, Scan.isWritten_step, ih, hpost, hpre]
    simp only [occursAfter_append_singleton, exists_or, exists_and_right]
    exact or_or_or_comm.trans (or_congr or_comm or_comm)

end Scan

/-! ## What items say -/

/-- a scan without the blocks and notices -/
def Scan.unblocked (s : Scan) : Scan := { s with opened := 0, notices := [] }

/-- what was said so far does not depend on blocks, and only an item that speaks adds to it -/
theorem Scan.unblocked_step (s : Scan) (x : Item) :
    (s.step x).unblocked = if x.speaks then s.unblocked.step x else s.unblocked := by
  cases x with
  | blockEnd =>
    obtain ⟨opened, notices, hstep⟩ := s.step_blockEnd
    rw [hstep]
    rfl
  | _ => rfl

theorem unblocked_foldl (items : List Item) (s : Scan) :
    (items.foldl Scan.step s).unblocked = (items.filter Item.speaks).foldl Scan.step s.unblocked := by
  induction items generalizing s with
  | nil => rfl
  | cons x items ih =>
    rw [List.foldl_cons, ih, Scan.unblocked_step]
    cases hx : x.speaks with
    | true => simp [hx]
    | false => simp [hx]

/-- items that do not speak add nothing to the meaning -/
theorem meaning_filter (items : List Item) : meaning (items.filter Item.speaks) = meaning items := by
  have hscan : scan (items.filter Item.speaks) = (scan items).unblocked := (unblocked_foldl items Scan.start).symm
  unfold meaning
  rw [hscan]
  rfl

/-- which marks are set: one for the direction, if it is known, and those of the shape -/
theorem mem_flags (p : ParamMarks) :
    (("OPTIONAL", 8) ∈ p.flags ↔ p.isOptional = true) ∧ (("BUFFER", 16) ∈ p.flags ↔ p.isBuffer = true) ∧
    (("IN_OUT", 4) ∈ p.flags ↔ p.direction = .inputOutput) ∧ (("OUT", 2) ∈ p.flags ↔ p.direction = .output) ∧
    (("IN", 1) ∈ p.flags ↔ p.direction = .input) ∧ (p.flags.filter isDirectionFlag).length ≤ 1 := by
  obtain ⟨direction, isOptional, isBuffer⟩ := p
  cases direction <;> cases isOptional <;> cases isBuffer <;> decide

/-- how a direction comes about -/
theorem direction_iff (s : Scan) :
    (s.direction = .inputOutput ↔ s.isWritten = true ∧ ¬s.hasWritable = true) ∧
    (s.direction = .output ↔ s.isWritten = true ∧ s.hasWritable = true) ∧
    (s.direction = .input ↔ ¬s.isWritten = true ∧ ¬s.hasWritable = true) := by
  unfold Scan.direction
  cases s.isWritten <;> cases s.hasWritable <;> decide

/-- **A meaning says what the items say.** A parameter is optional if it may be null, and a buffer if a range is not a
single element. It is an output if an item says that it is written, and an input unless a range is writable: both, one
or none of them, and never two marks for a direction. The convention and the `uuid` are the last ones among the items.
Blocks and other items add nothing, wherever they stand. -/
theorem meaning_of_items (items : List Item) :
    Says items (meaning items) ∧ meaning (items.filter Item.speaks) = meaning items := by
  obtain ⟨hoptional, hbuffer, hinputOutput, houtput, hinput, hone⟩ := mem_flags (meaning items).param
  obtain ⟨hboth, hout, hin⟩ := direction_iff (scan items)
  rw [scan_isWritten, scan_hasWritable] at hboth hout hin
  refine ⟨?_, meaning_filter items⟩
  exact {
    isOptional := hoptional.trans (scan_isOptional items)
    isBuffer := hbuffer.trans (scan_isBuffer items)
    inputOutput := hinputOutput.trans hboth
    output := houtput.trans hout
    input := hinput.trans hin
    oneDirection := hone
    convention := scan_convention items
    noConvention := scan_noConvention items
    guid := scan_guid items
    noGuid := scan_noGuid items }

end HeaderModel.Sal
