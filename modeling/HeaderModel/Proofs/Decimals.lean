/-
Integers in decimal.

A text spells an integer if it is a row of ASCII digits, after a sign or without one (`Spells`). This is what the reader
of integers accepts, as long as the integer is in its range, and what an integer is written as.
- `intWithin?_eq_some_iff`: the reader reads exactly the integers in its range that are spelled.
- `spells_toString`: every integer is spelled by its text.
-/
import Mathlib.Tactic
import HeaderModel.Text.Number

namespace HeaderModel.Text

/-- a row of ASCII digits, and the number that it is in base ten -/
structure IsDecimal (cs : List Char) (n : Nat) : Prop where
  ne_nil : cs ≠ []
  digits : ∀ c ∈ cs, c.isDigit = true
  value : Nat.ofDigitChars 10 cs 0 = n

/-- a text spells an integer: digits, and perhaps a sign in front of them -/
inductive Spells : List Char → Int → Prop
  | plain {cs : List Char} {n : Nat} (h : IsDecimal cs n) : Spells cs n
  | plus {cs : List Char} {n : Nat} (h : IsDecimal cs n) : Spells ('+' :: cs) n
  | minus {cs : List Char} {n : Nat} (h : IsDecimal cs n) : Spells ('-' :: cs) (-n)

variable {cs : List Char} {n : Nat} {v : Int}

/-! ## Reading -/

theorem digits?_eq_some_iff : digits? cs = some n ↔ IsDecimal cs n := by
  have hvalue : cs.foldl (fun n c => 10 * n + digitValue c) 0 = Nat.ofDigitChars 10 cs 0 := rfl
  unfold digits?
  rw [hvalue]
  split
  · next hbad =>
    constructor
    · intro h
      cases h
    · intro h
      simp [h.ne_nil, List.all_eq_true.2 h.digits] at hbad
  · next hgood =>
    simp only [Bool.or_eq_true, List.isEmpty_iff, Bool.not_eq_true', not_or, Bool.not_eq_false, List.all_eq_true]
      at hgood
    constructor
    · intro h
      exact ⟨hgood.1, hgood.2, Option.some_inj.1 h⟩
    · intro h
      rw [h.value]

theorem not_isDecimal_cons {c : Char} (hc : c.isDigit = false) : ¬IsDecimal (c :: cs) n := by
  intro h
  have hdigit := h.digits c (by simp)
  rw [hc] at hdigit
  cases hdigit

theorem spells_plus_iff : Spells ('+' :: cs) v ↔ ∃ n, IsDecimal cs n ∧ v = n := by
  constructor
  · rintro (h | h)
    · exact absurd h (not_isDecimal_cons rfl)
    · exact ⟨_, h, rfl⟩
  · rintro ⟨n, h, rfl⟩
    exact .plus h

theorem spells_minus_iff : Spells ('-' :: cs) v ↔ ∃ n, IsDecimal cs n ∧ v = -n := by
  constructor
  · rintro (h | h | h)
    · exact absurd h (not_isDecimal_cons rfl)
    · exact ⟨_, h, rfl⟩
  · rintro ⟨n, h, rfl⟩
    exact .minus h

theorem spells_plain_iff (hplus : ∀ rest, cs ≠ '+' :: rest) (hminus : ∀ rest, cs ≠ '-' :: rest) :
    Spells cs v ↔ ∃ n, IsDecimal cs n ∧ v = n := by
  constructor
  · rintro (h | h | h)
    · exact ⟨_, h, rfl⟩
    · exact absurd rfl (hplus _)
    · exact absurd rfl (hminus _)
  · rintro ⟨n, h, rfl⟩
    exact .plain h

/-- a number is read below a bound if it is spelled without a minus sign -/
theorem natBelow?_eq_some_iff {bound : Nat} (hminus : ∀ rest, cs ≠ '-' :: rest) :
    natBelow? bound cs = some n ↔ Spells cs n ∧ n < bound := by
  have hread : ∀ digits, (digits? digits).filter (· < bound) = some n ↔ IsDecimal digits n ∧ n < bound := by
    intro digits
    rw [Option.filter_eq_some_iff, digits?_eq_some_iff, decide_eq_true_iff]
  have hsame : ∀ digits, (∃ m : Nat, IsDecimal digits m ∧ (n : Int) = m) ↔ IsDecimal digits n := by
    intro digits
    simp
  unfold natBelow?
  rw [hread]
  split
  · rw [spells_plus_iff, hsame]
  · next hplus => rw [spells_plain_iff hplus hminus, hsame]

theorem intWithin?_minus (bound : Nat) (cs : List Char) :
    intWithin? bound ('-' :: cs) = ((digits? cs).filter (· ≤ bound)).map fun n : Nat => -(n : Int) := by
  rw [intWithin?]
  cases (digits? cs).filter (· ≤ bound) with
  | none => rfl
  | some n => rfl

/-- **Integers are read exactly as they are spelled,** if they are in the range. -/
theorem intWithin?_eq_some_iff {bound : Nat} (hbound : 0 < bound) :
    intWithin? bound cs = some v ↔ Spells cs v ∧ -(bound : Int) ≤ v ∧ v < bound := by
  by_cases hminus : ∃ rest, cs = '-' :: rest
  · obtain ⟨rest, rfl⟩ := hminus
    rw [intWithin?_minus, Option.map_eq_some_iff, spells_minus_iff]
    simp only [Option.filter_eq_some_iff, digits?_eq_some_iff, decide_eq_true_iff]
    constructor
    · rintro ⟨n, ⟨hn, hle⟩, rfl⟩
      exact ⟨⟨n, hn, rfl⟩, by omega⟩
    · rintro ⟨⟨n, hn, rfl⟩, hrange⟩
      exact ⟨n, ⟨hn, by omega⟩, rfl⟩
  · have hplain : ∀ rest, cs ≠ '-' :: rest := fun rest heq => hminus ⟨rest, heq⟩
    have hread : intWithin? bound cs = (natBelow? bound cs).map Int.ofNat := by
      unfold intWithin?
      split
      · next rest => exact absurd rfl (hplain rest)
      · rfl
    simp only [hread, Option.map_eq_some_iff, natBelow?_eq_some_iff hplain]
    constructor
    · rintro ⟨n, ⟨hn, hlt⟩, rfl⟩
      exact ⟨hn, by simp; omega⟩
    · rintro ⟨hspells, hrange⟩
      obtain ⟨n, rfl⟩ : ∃ n : Nat, v = n := by
        rcases hspells with h | h | h
        · exact ⟨_, rfl⟩
        · exact ⟨_, rfl⟩
        · exact absurd rfl (hplain _)
      exact ⟨n, ⟨hspells, by omega⟩, rfl⟩

/-! ## Writing -/

theorem isDecimal_repr (n : Nat) : IsDecimal n.repr.toList n := by
  rw [Nat.toList_repr]
  exact ⟨Nat.toDigits_ne_nil, fun c hc => Nat.isDigit_of_mem_toDigits (by decide) (by decide) hc,
    Nat.ofDigitChars_ten_toDigits⟩

/-- an integer is spelled by its text -/
theorem spells_toString (v : Int) : Spells (toString v).toList v := by
  rw [Int.toString_eq_repr]
  cases v with
  | ofNat n => exact .plain (isDecimal_repr n)
  | negSucc n =>
    have htext : (Int.negSucc n).repr.toList = '-' :: (n + 1).repr.toList := String.toList_append
    rw [htext]
    exact .minus (isDecimal_repr (n + 1))

/-- an integer is spelled with nothing but digits and a sign -/
theorem Spells.mem {c : Char} (h : Spells cs v) (hc : c ∈ cs) : c = '+' ∨ c = '-' ∨ c.isDigit = true := by
  rcases h with h | h | h
  · exact .inr (.inr (h.digits c hc))
  · rcases List.mem_cons.1 hc with rfl | hc
    · exact .inl rfl
    · exact .inr (.inr (h.digits c hc))
  · rcases List.mem_cons.1 hc with rfl | hc
    · exact .inr (.inl rfl)
    · exact .inr (.inr (h.digits c hc))

theorem Spells.comma_not_mem (h : Spells cs v) : ',' ∉ cs := by
  intro hc
  rcases h.mem hc with hsign | hsign | hdigit
  · cases hsign
  · cases hsign
  · cases hdigit

end HeaderModel.Text
