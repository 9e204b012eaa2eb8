/-
Attribute values as they are written.

`escape` writes the five characters that markup reserves as named entities and leaves all others
alone. `unescape?` reads the five names back and also knows numeric references; a reference that it
does not know, or that no `;` ends, makes the value unreadable. Reading a written value gives it back
(`unescape?_escape`).
-/
import HeaderModel.Text.Number

namespace HeaderModel.Markup

/-- the character with a code, which must be a scalar value other than zero -/
def charOfCode? (n : Nat) : Option Char :=
  if n ≠ 0 && (n < 0xD800 || (0xDFFF < n && n < 0x110000)) then some (Char.ofNat n) else none

/-- the character that the name between `&` and `;` stands for -/
def entity? (name : List Char) : Option Char :=
  match name with
  | '#' :: 'x' :: hex => (Text.radixNumber? 16 hex).bind charOfCode?
  | '#' :: dec => (Text.radixNumber? 10 dec).bind charOfCode?
  | ['l', 't'] => some '<'
  | ['g', 't'] => some '>'
  | ['a', 'm', 'p'] => some '&'
  | ['a', 'p', 'o', 's'] => some '\''
  | ['q', 'u', 'o', 't'] => some '"'
  | _ => none

/-- a character of a reference's name: anything up to the next `&` or `;` -/
def inReference (c : Char) : Bool := c ≠ '&' && c ≠ ';'

/-- the text that a written value stands for -/
def unescape? : List Char → Option (List Char)
  | [] => some []
  | c :: cs =>
    if c = '&' then
      match _h : cs.dropWhile inReference with
      | ';' :: rest => (entity? (cs.takeWhile inReference)).bind fun e => (unescape? rest).map (e :: ·)
      | _ => none
    else (unescape? cs).map (c :: ·)
termination_by cs => cs.length
decreasing_by
  · have := (List.dropWhile_suffix inReference (l := cs)).length_le
    simp only [_h, List.length_cons] at this
    simp only [List.length_cons]
    omega
  · simp

/-- one character of a value as it is written -/
def escapeChar (c : Char) : List Char :=
  if c = '<' then "&lt;".toList
  else if c = '>' then "&gt;".toList
  else if c = '&' then "&amp;".toList
  else if c = '\'' then "&apos;".toList
  else if c = '"' then "&quot;".toList
  else [c]

/-- a value as it is written -/
def escape (cs : List Char) : List Char := cs.flatMap escapeChar

theorem unescape?_cons_of_ne {c : Char} (h : c ≠ '&') (cs : List Char) :
    unescape? (c :: cs) = (unescape? cs).map (c :: ·) := by
  rw [unescape?, if_neg h]

/-- a written value reads back -/
theorem unescape?_escape (cs : List Char) : unescape? (escape cs) = some cs := by
  induction cs with
  | nil => simp [escape, unescape?]
  | cons c cs ih =>
    have named : ∀ (name : List Char), (∀ d ∈ name, inReference d = true) → entity? name = some c →
        unescape? ('&' :: name ++ ';' :: escape cs) = some (c :: cs) := by
      intro name hn he
      have hd : (name ++ ';' :: escape cs).dropWhile inReference = ';' :: escape cs := by
        rw [List.dropWhile_append_of_pos hn]
        rfl
      have ht : (name ++ ';' :: escape cs).takeWhile inReference = name := by
        rw [List.takeWhile_append_of_pos hn]
        simp [inReference]
      rw [List.cons_append, unescape?, if_pos rfl]
      split
      · next rest hr =>
        rw [hd] at hr
        cases hr
        rw [ht, he, ih]
        rfl
      · next hr => exact absurd hd (hr _)
    simp only [escape, List.flatMap_cons, escapeChar]
    split
    · next h => subst h; exact named ['l', 't'] (by simp [inReference]) rfl
    · split
      · next h => subst h; exact named ['g', 't'] (by simp [inReference]) rfl
      · split
        · next h => subst h; exact named ['a', 'm', 'p'] (by simp [inReference]) rfl
        · split
          · next h => subst h; exact named ['a', 'p', 'o', 's'] (by simp [inReference]) rfl
          · split
            · next h => subst h; exact named ['q', 'u', 'o', 't'] (by simp [inReference]) rfl
            · have plain := unescape?_cons_of_ne (c := c) (by assumption) (escape cs)
              rw [ih] at plain
              exact plain

end HeaderModel.Markup
