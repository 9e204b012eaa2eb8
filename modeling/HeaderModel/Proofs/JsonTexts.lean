/-
The text of a JSON value.

`LaidOut` says how a value stands in a text: every item and every member on a line of its own, two blanks further in than
the brackets around it, an empty array or object without a line, and in strings only quotes, backslashes and control
characters escaped.
- `laidOut_pretty`: a value is written so.
- `LaidOut.unique`: a value is laid out in one way only.
- `LaidOut.value_unique`: a text lays out one value only, so whoever reads it finds that value.
-/
import Mathlib.Tactic
import HeaderModel.Json.Value
import HeaderModel.Proofs.Decimals

namespace HeaderModel.Json

/-! ## The layout -/

/-- the characters that are escaped by a letter, with the letter -/
def letters : List (Char × Char) :=
  [('"', '"'), ('\\', '\\'), ('\x08', 'b'), ('\x0c', 'f'), ('\n', 'n'), ('\r', 'r'), ('\t', 't')]

/-- how a character stands in a string -/
inductive Stands : Char → List Char → Prop where
  | letter {c l : Char} : (c, l) ∈ letters → Stands c ['\\', l]
  | number {c : Char} : c.toNat < 0x20 → (∀ l, (c, l) ∉ letters) →
      Stands c ['\\', 'u', '0', '0', (c.toNat / 16).digitChar, (c.toNat % 16).digitChar]
  | plain {c : Char} : 0x20 ≤ c.toNat → (∀ l, (c, l) ∉ letters) → Stands c [c]

/-- a string between quotes -/
def Quotes (s : String) (cs : List Char) : Prop :=
  ∃ parts, List.Forall₂ Stands s.toList parts ∧ cs = '"' :: (parts.flatten ++ ['"'])

/-- the start of a line at a depth -/
def newLine (depth : Nat) : List Char := '\n' :: List.replicate (2 * depth) ' '

/-- further texts, each on a line of its own after a comma -/
def further (depth : Nat) (texts : List (List Char)) : List Char := texts.flatMap fun t => ',' :: (newLine depth ++ t)

/-- texts between brackets, each on a line of its own, with commas between them -/
def bracketed (opening closing : Char) (depth : Nat) : List (List Char) → List Char
  | [] => [opening, closing]
  | first :: rest =>
    opening :: (newLine (depth + 1) ++ first ++ further (depth + 1) rest ++ newLine depth ++ [closing])

/-- a member: its key, a colon and a blank, and its value -/
def memberText (key value : List Char) : List Char := key ++ ':' :: ' ' :: value

/-- how a value stands in a text, at a depth -/
inductive LaidOut : Nat → Json → List Char → Prop where
  | null {depth : Nat} : LaidOut depth .null "null".toList
  | yes {depth : Nat} : LaidOut depth (.bool true) "true".toList
  | no {depth : Nat} : LaidOut depth (.bool false) "false".toList
  | count {depth n : Nat} : LaidOut depth (.count n) (Nat.toDigits 10 n)
  | text {depth : Nat} {s : String} {cs : List Char} : Quotes s cs → LaidOut depth (.text s) cs
  | array {depth : Nat} {items : List Json} {texts : List (List Char)} : items.length = texts.length →
      (∀ item text, (item, text) ∈ items.zip texts → LaidOut (depth + 1) item text) →
      LaidOut depth (.array items) (bracketed '[' ']' depth texts)
  | object {depth : Nat} {members : List (String × Json)} {keys values : List (List Char)} :
      List.Forall₂ (fun m key => Quotes m.1 key) members keys → members.length = values.length →
      (∀ m value, (m, value) ∈ members.zip values → LaidOut (depth + 1) m.2 value) →
      LaidOut depth (.object members) (bracketed '{' '}' depth (List.zipWith memberText keys values))

/-! ## Writing -/

theorem stands_escapeChar (c : Char) : Stands c (escapeChar c) := by
  unfold escapeChar
  split_ifs with h₁ h₂ h₃ h₄ h₅ h₆ h₇ hcontrol
  all_goals try
    subst c
    exact .letter (by decide)
  all_goals
    have hnone : ∀ l, (c, l) ∉ letters := by simp [letters, h₁, h₂, h₃, h₄, h₅, h₆, h₇]
  · have hdigits : Text.hexDigits 4 c.toNat = ['0', '0', (c.toNat / 16).digitChar, (c.toNat % 16).digitChar] := by
      have hhigh : c.toNat / 16 % 16 = c.toNat / 16 := by omega
      have hzero : c.toNat / 16 / 16 = 0 := by omega
      simp only [Text.hexDigits, hhigh, hzero]
      rfl
    rw [hdigits]
    exact .number hcontrol hnone
  · exact .plain (by omega) hnone

theorem quotes_quoted (s : String) : Quotes s (quoted s).toList := by
  refine ⟨s.toList.map escapeChar, ?_, ?_⟩
  · rw [List.forall₂_map_right_iff]
    exact List.forall₂_same.2 fun c _ => stands_escapeChar c
  · simp [quoted, List.flatMap_def]

theorem toList_lineStart (depth : Nat) : (lineStart depth).toList = newLine depth := by
  simp [lineStart, newLine]

theorem laidOut_array {depth : Nat} {items : List Json} {texts : List (List Char)}
    (h : List.Forall₂ (LaidOut (depth + 1)) items texts) : LaidOut depth (.array items) (bracketed '[' ']' depth texts) :=
  .array h.length_eq fun _ _ hmem => List.forall₂_zip h hmem

theorem laidOut_object {depth : Nat} {members : List (String × Json)} {keys values : List (List Char)}
    (hkeys : List.Forall₂ (fun m key => Quotes m.1 key) members keys)
    (hvalues : List.Forall₂ (fun m value => LaidOut (depth + 1) m.2 value) members values) :
    LaidOut depth (.object members) (bracketed '{' '}' depth (List.zipWith memberText keys values)) :=
  .object hkeys hvalues.length_eq fun _ _ hmem => List.forall₂_zip hvalues hmem

mutual

/-- **A value is written as it is laid out.** -/
theorem laidOut_pretty (depth : Nat) : ∀ v : Json, LaidOut depth v (v.pretty depth).toList
  | .null => by
    rw [pretty]
    exact .null
  | .bool true => by
    rw [pretty]
    exact .yes
  | .bool false => by
    rw [pretty]
    exact .no
  | .count n => by
    have htext : (pretty depth (.count n)).toList = Nat.toDigits 10 n := by simp [pretty, Nat.repr]
    rw [htext]
    exact .count
  | .text s => .text (quotes_quoted s)
  | .array [] => by
    rw [pretty]
    exact laidOut_array .nil
  | .array (item :: items) => by
    obtain ⟨texts, hitems, htexts⟩ := laidOut_prettyItems (depth + 1) items
    have hlaid := laidOut_array (.cons (laidOut_pretty (depth + 1) item) hitems)
    have htext : (pretty depth (.array (item :: items))).toList =
        bracketed '[' ']' depth ((pretty (depth + 1) item).toList :: texts) := by
      simp [pretty, bracketed, htexts, toList_lineStart]
    rw [htext]
    exact hlaid
  | .object [] => by
    rw [pretty]
    exact laidOut_object .nil .nil
  | .object ((key, value) :: members) => by
    obtain ⟨keys, values, hkeys, hvalues, htexts⟩ := laidOut_prettyMembers (depth + 1) members
    have hlaid : LaidOut depth (.object ((key, value) :: members)) _ :=
      laidOut_object (.cons (quotes_quoted key) hkeys) (.cons (laidOut_pretty (depth + 1) value) hvalues)
    have htext : (pretty depth (.object ((key, value) :: members))).toList = bracketed '{' '}' depth
        (List.zipWith memberText ((quoted key).toList :: keys) ((pretty (depth + 1) value).toList :: values)) := by
      simp [pretty, bracketed, memberText, htexts, toList_lineStart]
    rw [htext]
    exact hlaid

theorem laidOut_prettyItems (depth : Nat) : ∀ items : List Json, ∃ texts,
    List.Forall₂ (LaidOut depth) items texts ∧
      (prettyItems depth items).toList = further depth texts
  | [] => ⟨[], .nil, rfl⟩
  | item :: items => by
    obtain ⟨texts, hitems, htexts⟩ := laidOut_prettyItems depth items
    refine ⟨(pretty depth item).toList :: texts, .cons (laidOut_pretty depth item) hitems, ?_⟩
    simp [prettyItems, further, htexts, toList_lineStart]

theorem laidOut_prettyMembers (depth : Nat) : ∀ members : List (String × Json), ∃ keys values,
    List.Forall₂ (fun m key => Quotes m.1 key) members keys ∧
      List.Forall₂ (fun m value => LaidOut depth m.2 value) members values ∧
      (prettyMembers depth members).toList = further depth (List.zipWith memberText keys values)
  | [] => ⟨[], [], .nil, .nil, rfl⟩
  | (key, value) :: members => by
    obtain ⟨keys, values, hkeys, hvalues, htexts⟩ := laidOut_prettyMembers depth members
    refine ⟨(quoted key).toList :: keys, (pretty depth value).toList :: values, .cons (quotes_quoted key) hkeys,
      .cons (laidOut_pretty depth value) hvalues, ?_⟩
    simp [prettyMembers, further, memberText, htexts, toList_lineStart]

end

/-! ## One layout for a value -/

/-- two lists that belong to the same one are the same if their items have to be -/
theorem forall₂_unique {α β : Type} {R S : α → β → Prop} {as : List α} {bs cs : List β} (h : List.Forall₂ R as bs)
    (h' : List.Forall₂ S as cs) (heq : ∀ a b c, R a b → S a c → b = c) : bs = cs := by
  induction h generalizing cs with
  | nil =>
    cases h'
    rfl
  | cons hab _ ih =>
    cases h' with
    | cons hac hrest => rw [heq _ _ _ hab hac, ih hrest]

theorem letters_fst : ∀ p ∈ letters, ∀ q ∈ letters, p.1 = q.1 → p = q := by decide

theorem letters_snd : ∀ p ∈ letters, ∀ q ∈ letters, p.2 = q.2 → p = q := by decide

theorem Stands.unique {c : Char} {p p' : List Char} (h : Stands c p) (h' : Stands c p') : p = p' := by
  cases h with
  | letter hl =>
    cases h' with
    | letter hl' => rw [(Prod.mk.inj (letters_fst _ hl _ hl' rfl)).2]
    | number _ hno => exact absurd hl (hno _)
    | plain _ hno => exact absurd hl (hno _)
  | number hlow hno =>
    cases h' with
    | letter hl => exact absurd hl (hno _)
    | number _ _ => rfl
    | plain hhigh _ => omega
  | plain hhigh hno =>
    cases h' with
    | letter hl => exact absurd hl (hno _)
    | number hlow _ => omega
    | plain _ _ => rfl

theorem Quotes.unique {s : String} {cs cs' : List Char} (h : Quotes s cs) (h' : Quotes s cs') : cs = cs' := by
  obtain ⟨parts, hparts, rfl⟩ := h
  obtain ⟨parts', hparts', rfl⟩ := h'
  rw [forall₂_unique hparts hparts' fun _ _ _ => Stands.unique]

/-- **A value is laid out in one way only.** -/
theorem LaidOut.unique {depth : Nat} {v : Json} {cs cs' : List Char} (h : LaidOut depth v cs) (h' : LaidOut depth v cs') :
    cs = cs' := by
  induction h generalizing cs' with
  | null | yes | no | count =>
    cases h'
    rfl
  | text hs =>
    cases h' with
    | text hs' => exact hs.unique hs'
  | array hlength _ ih =>
    cases h' with
    | array hlength' hitems' =>
      have hitems := List.forall₂_iff_zip.2 ⟨hlength, fun {a b} => ih a b⟩
      have hitems' := List.forall₂_iff_zip.2 ⟨hlength', fun {a b} => hitems' a b⟩
      rw [forall₂_unique hitems hitems' fun _ _ _ hih hlaid => hih hlaid]
  | object hkeys hlength _ ih =>
    cases h' with
    | object hkeys' hlength' hvalues' =>
      have hvalues := List.forall₂_iff_zip.2 ⟨hlength, fun {a b} => ih a b⟩
      have hvalues' := List.forall₂_iff_zip.2 ⟨hlength', fun {a b} => hvalues' a b⟩
      rw [forall₂_unique hkeys hkeys' fun _ _ _ => Quotes.unique,
        forall₂_unique hvalues hvalues' fun _ _ _ hih hlaid => hih hlaid]

/-! ## One value for a layout -/

/-- what is left of a text does not go on with a digit -/
def Stops (r : List Char) : Prop := ∀ c ∈ r.head?, c.isDigit = false

/-- a thing is found again at the start of a text, and so is what is left after it -/
def Found {α : Type} (E : α → List Char → Prop) (a : α) (cs : List Char) : Prop :=
  ∀ a' cs' r r', E a' cs' → cs ++ r = cs' ++ r' → Stops r → Stops r' → a = a' ∧ r = r'

theorem digitChar_inj : ∀ a < 16, ∀ b < 16, Nat.digitChar a = Nat.digitChar b → a = b := by decide

theorem Stands.found {c c' : Char} {p p' r r' : List Char} (h : Stands c p) (h' : Stands c' p')
    (heq : p ++ r = p' ++ r') : c = c' ∧ r = r' := by
  have hslash : ∃ l, ('\\', l) ∈ letters := ⟨'\\', by decide⟩
  have hu : ∀ c, (c, 'u') ∉ letters := by simp [letters]
  cases h with
  | letter hl =>
    cases h' with
    | letter hl' =>
      simp only [List.cons_append, List.nil_append, List.cons.injEq, true_and] at heq
      exact ⟨(Prod.mk.inj (letters_snd _ hl _ hl' heq.1)).1, heq.2⟩
    | number _ _ =>
      simp only [List.cons_append, List.cons.injEq, true_and] at heq
      exact absurd (heq.1 ▸ hl) (hu _)
    | plain _ hno =>
      simp only [List.cons_append, List.cons.injEq] at heq
      obtain ⟨l, hl⟩ := hslash
      exact absurd (heq.1 ▸ hl) (hno l)
  | number hlow hno =>
    cases h' with
    | letter hl =>
      simp only [List.cons_append, List.cons.injEq, true_and] at heq
      exact absurd (heq.1 ▸ hl) (hu _)
    | number hlow' _ =>
      simp only [List.cons_append, List.nil_append, List.cons.injEq, true_and] at heq
      obtain ⟨hhigh, hrest, hr⟩ := heq
      have hdiv := digitChar_inj _ (by omega) _ (by omega) hhigh
      have hmod := digitChar_inj _ (by omega) _ (by omega) hrest
      exact ⟨Char.toNat_inj.1 (by omega), hr⟩
    | plain _ hno =>
      simp only [List.cons_append, List.cons.injEq] at heq
      obtain ⟨l, hl⟩ := hslash
      exact absurd (heq.1 ▸ hl) (hno l)
  | plain hhigh hno =>
    cases h' with
    | letter _ | number _ _ =>
      simp only [List.cons_append, List.cons.injEq] at heq
      obtain ⟨l, hl⟩ := hslash
      exact absurd (heq.1 ▸ hl) (hno l)
    | plain _ _ =>
      simp only [List.cons_append, List.nil_append, List.cons.injEq] at heq
      exact heq

/-- no character of a string stands there as a quote -/
theorem Stands.head_ne {c : Char} {p : List Char} (h : Stands c p) : ∃ x rest, p = x :: rest ∧ x ≠ '"' := by
  cases h with
  | letter _ => exact ⟨_, _, rfl, by decide⟩
  | number _ _ => exact ⟨_, _, rfl, by decide⟩
  | plain _ hno =>
    refine ⟨_, _, rfl, ?_⟩
    rintro rfl
    exact hno '"' (by decide)

theorem Quotes.found {s s' : String} {cs cs' r r' : List Char} (h : Quotes s cs) (h' : Quotes s' cs')
    (heq : cs ++ r = cs' ++ r') : s = s' ∧ r = r' := by
  obtain ⟨parts, hparts, rfl⟩ := h
  obtain ⟨parts', hparts', rfl⟩ := h'
  simp only [List.cons_append, List.append_assoc, List.nil_append, List.cons.injEq, true_and] at heq
  rw [← String.toList_inj]
  generalize s.toList = chars at hparts
  generalize s'.toList = chars' at hparts'
  induction hparts generalizing chars' parts' with
  | nil =>
    cases hparts' with
    | nil => exact ⟨rfl, (List.cons.inj heq).2⟩
    | cons hc _ =>
      obtain ⟨x, rest, rfl, hx⟩ := hc.head_ne
      exact absurd (List.cons.inj heq).1.symm hx
  | cons hc _ ih =>
    cases hparts' with
    | nil =>
      obtain ⟨x, rest, rfl, hx⟩ := hc.head_ne
      exact absurd (List.cons.inj heq).1 hx
    | cons hc' hrest' =>
      simp only [List.flatten_cons, List.append_assoc] at heq
      obtain ⟨rfl, heq⟩ := hc.found hc' heq
      obtain ⟨rfl, hr⟩ := ih _ heq _ hrest'
      exact ⟨rfl, hr⟩

@[simp] theorem further_nil (depth : Nat) : further depth [] = [] := rfl

theorem further_cons (depth : Nat) (t : List Char) (texts : List (List Char)) :
    further depth (t :: texts) = ',' :: (newLine depth ++ (t ++ further depth texts)) := by
  simp [further]

theorem stops_further (depth outer : Nat) (texts : List (List Char)) (r : List Char) :
    Stops (further depth texts ++ (newLine outer ++ r)) := by
  intro c hc
  cases texts with
  | nil =>
    obtain rfl : '\n' = c := by simpa [newLine] using hc
    rfl
  | cons t texts =>
    obtain rfl : ',' = c := by simpa [further_cons] using hc
    rfl

section Found

variable {α : Type} {E : α → List Char → Prop} {as as' : List α} {texts texts' : List (List Char)} {depth outer : Nat}
  {r r' : List Char}

theorem further_found (h : List.Forall₂ (Found E) as texts) (h' : List.Forall₂ E as' texts')
    (heq : further depth texts ++ (newLine outer ++ r) = further depth texts' ++ (newLine outer ++ r')) :
    as = as' ∧ r = r' := by
  induction h generalizing as' texts' with
  | nil =>
    cases h' with
    | nil => exact ⟨rfl, by simpa using heq⟩
    | cons _ _ => simp [further_cons, further_nil, newLine] at heq
  | cons ha _ ih =>
    cases h' with
    | nil => simp [further_cons, further_nil, newLine] at heq
    | @cons a' text' as' texts' ha' hrest' =>
      simp only [further_cons, List.cons_append, List.append_assoc, List.cons.injEq, true_and] at heq
      have hnext := List.append_cancel_left heq
      obtain ⟨rfl, hrest⟩ := ha _ _ _ _ ha' hnext (stops_further _ _ _ _) (stops_further _ _ _ _)
      obtain ⟨rfl, hr⟩ := ih hrest' hrest
      exact ⟨rfl, hr⟩

theorem bracketed_found {opening closing : Char} (hclosing : closing ≠ '\n') (h : List.Forall₂ (Found E) as texts)
    (h' : List.Forall₂ E as' texts')
    (heq : bracketed opening closing depth texts ++ r = bracketed opening closing depth texts' ++ r') :
    as = as' ∧ r = r' := by
  cases h with
  | nil =>
    cases h' with
    | nil => exact ⟨rfl, by simpa [bracketed] using heq⟩
    | cons _ _ => simp [bracketed, newLine, hclosing] at heq
  | cons ha hrest =>
    cases h' with
    | nil => simp [bracketed, newLine, hclosing.symm] at heq
    | cons ha' hrest' =>
      simp only [bracketed, List.cons_append, List.append_assoc, List.cons.injEq, true_and] at heq
      have hnext := List.append_cancel_left heq
      obtain ⟨rfl, hfurther⟩ := ha _ _ _ _ ha' hnext (stops_further _ _ _ _) (stops_further _ _ _ _)
      obtain ⟨rfl, hr⟩ := further_found hrest hrest' hfurther
      exact ⟨rfl, by simpa using hr⟩

end Found

/-- which sort of value begins with a character -/
def sortOf (c : Char) : Nat :=
  if c = 'n' then 0 else if c = 't' then 1 else if c = 'f' then 2 else if c = '"' then 3 else if c = '[' then 4
  else if c = '{' then 5 else 6

/-- the sort of a value -/
def sort : Json → Nat
  | .null => 0
  | .bool true => 1
  | .bool false => 2
  | .text _ => 3
  | .array _ => 4
  | .object _ => 5
  | .count _ => 6

theorem sortOf_digit {c : Char} (hc : c.isDigit = true) : sortOf c = 6 := by
  unfold sortOf
  split_ifs with h h h h h h
  all_goals first
    | rfl
    | (subst h; cases hc)

theorem bracketed_eq_cons (opening closing : Char) (depth : Nat) (texts : List (List Char)) :
    ∃ rest, bracketed opening closing depth texts = opening :: rest := by
  cases texts with
  | nil => exact ⟨_, rfl⟩
  | cons _ _ => exact ⟨_, rfl⟩

/-- the first character tells the sort -/
theorem LaidOut.sort {depth : Nat} {v : Json} {cs : List Char} (h : LaidOut depth v cs) :
    ∃ c rest, cs = c :: rest ∧ sortOf c = v.sort := by
  cases h with
  | null | yes | no => exact ⟨_, _, rfl, rfl⟩
  | @count _ n =>
    obtain ⟨c, rest, hdigits⟩ := List.exists_cons_of_ne_nil (Nat.toDigits_ne_nil (b := 10) (n := n))
    refine ⟨c, rest, hdigits, sortOf_digit ?_⟩
    exact Nat.isDigit_of_mem_toDigits (by decide) (by decide) (hdigits ▸ List.mem_cons_self)
  | text hs =>
    obtain ⟨parts, -, rfl⟩ := hs
    exact ⟨_, _, rfl, rfl⟩
  | array _ _ | object _ _ _ =>
    obtain ⟨rest, hrest⟩ := bracketed_eq_cons _ _ _ _
    exact ⟨_, rest, hrest, rfl⟩

/-- a number ends where the digits do -/
theorem toDigits_found {m n : Nat} {r r' : List Char} (heq : Nat.toDigits 10 m ++ r = Nat.toDigits 10 n ++ r')
    (hr : Stops r) (hr' : Stops r') : m = n ∧ r = r' := by
  have htake : ∀ (k : Nat) (s : List Char), Stops s →
      (Nat.toDigits 10 k ++ s).takeWhile Char.isDigit = Nat.toDigits 10 k := by
    intro k s hs
    rw [List.takeWhile_append_of_pos fun c hc => Nat.isDigit_of_mem_toDigits (by decide) (by decide) hc]
    cases s with
    | nil => simp
    | cons c s => simp [hs c rfl]
  have hdigits : Nat.toDigits 10 m = Nat.toDigits 10 n := by rw [← htake m r hr, heq, htake n r' hr']
  refine ⟨?_, List.append_cancel_left (hdigits ▸ heq)⟩
  rw [← Nat.ofDigitChars_ten_toDigits (n := m), hdigits, Nat.ofDigitChars_ten_toDigits]

/-- how a member stands in a text -/
def MemberLaidOut (depth : Nat) (m : String × Json) (t : List Char) : Prop :=
  ∃ key value, Quotes m.1 key ∧ LaidOut depth m.2 value ∧ t = memberText key value

/-- what belongs to two lists belongs to what they are made into together -/
theorem forall₂_zipWith {α β γ δ : Type} {R : α → β → Prop} {S : α → γ → Prop} {T : α → δ → Prop} {f : β → γ → δ}
    {as : List α} {bs : List β} {cs : List γ} (hR : List.Forall₂ R as bs) (hS : List.Forall₂ S as cs)
    (hT : ∀ a b c, R a b → S a c → T a (f b c)) : List.Forall₂ T as (List.zipWith f bs cs) := by
  induction hR generalizing cs with
  | nil =>
    cases hS
    exact .nil
  | cons hab _ ih =>
    cases hS with
    | cons hac hrest => exact .cons (hT _ _ _ hab hac) (ih hrest)

theorem memberLaidOut {depth : Nat} {m : String × Json} {key value : List Char} (hkey : Quotes m.1 key)
    (hvalue : LaidOut depth m.2 value) : MemberLaidOut depth m (memberText key value) :=
  ⟨key, value, hkey, hvalue, rfl⟩

/-- a member is found if its value is -/
theorem member_found {depth : Nat} {m : String × Json} {key value : List Char} (hkey : Quotes m.1 key)
    (hvalue : Found (LaidOut depth) m.2 value) : Found (MemberLaidOut depth) m (memberText key value) := by
  rintro ⟨name', v'⟩ t' r r' ⟨key', value', hkey', hvalue', rfl⟩ heq hr hr'
  obtain ⟨name, v⟩ := m
  simp only [memberText, List.append_assoc, List.cons_append] at heq
  obtain ⟨hname, hrest⟩ := hkey.found hkey' heq
  obtain ⟨hv, hrest⟩ := hvalue _ _ _ _ hvalue' (List.cons.inj (List.cons.inj hrest).2).2 hr hr'
  exact ⟨Prod.ext hname hv, hrest⟩

/-- texts that begin alike lay out values of one sort -/
theorem LaidOut.sort_eq {depth : Nat} {v v' : Json} {cs cs' r r' : List Char} (h : LaidOut depth v cs)
    (h' : LaidOut depth v' cs') (heq : cs ++ r = cs' ++ r') : v.sort = v'.sort := by
  obtain ⟨c, rest, rfl, hsort⟩ := h.sort
  obtain ⟨c', rest', rfl, hsort'⟩ := h'.sort
  rw [← hsort, ← hsort', (List.cons.inj heq).1]

/-- what stands at the start of a text can be told from what is left -/
theorem LaidOut.found {depth : Nat} {v : Json} {cs : List Char} (h : LaidOut depth v cs) :
    Found (LaidOut depth) v cs := by
  induction h with
  | null | yes | no =>
    intro v' cs' r r' h' heq hr hr'
    have hsort := LaidOut.sort_eq (by constructor) h' heq
    cases h' <;> first
      | exact ⟨rfl, List.append_cancel_left heq⟩
      | cases hsort
  | count =>
    intro v' cs' r r' h' heq hr hr'
    have hsort := LaidOut.count.sort_eq h' heq
    cases h' with
    | count =>
      obtain ⟨rfl, hrest⟩ := toDigits_found heq hr hr'
      exact ⟨rfl, hrest⟩
    | _ => cases hsort
  | text hs =>
    intro v' cs' r r' h' heq hr hr'
    have hsort := (LaidOut.text hs).sort_eq h' heq
    cases h' with
    | text hs' =>
      obtain ⟨rfl, hrest⟩ := hs.found hs' heq
      exact ⟨rfl, hrest⟩
    | _ => cases hsort
  | array hlength hitems ih =>
    intro v' cs' r r' h' heq hr hr'
    have hsort := (LaidOut.array hlength hitems).sort_eq h' heq
    cases h' with
    | array hlength' hitems' =>
      have hfound := List.forall₂_iff_zip.2 ⟨hlength, fun {a b} => ih a b⟩
      have hlaid := List.forall₂_iff_zip.2 ⟨hlength', fun {a b} => hitems' a b⟩
      obtain ⟨rfl, hrest⟩ := bracketed_found (by decide) hfound hlaid heq
      exact ⟨rfl, hrest⟩
    | _ => cases hsort
  | object hkeys hlength hvalues ih =>
    intro v' cs' r r' h' heq hr hr'
    have hsort := (LaidOut.object hkeys hlength hvalues).sort_eq h' heq
    cases h' with
    | object hkeys' hlength' hvalues' =>
      have hfound := forall₂_zipWith hkeys (List.forall₂_iff_zip.2 ⟨hlength, fun {a b} => ih a b⟩)
        fun _ _ _ => member_found
      have hlaid := forall₂_zipWith hkeys' (List.forall₂_iff_zip.2 ⟨hlength', fun {a b} => hvalues' a b⟩)
        fun _ _ _ => memberLaidOut
      obtain ⟨rfl, hrest⟩ := bracketed_found (by decide) hfound hlaid heq
      exact ⟨rfl, hrest⟩
    | _ => cases hsort

/-- **A text lays out one value only.** -/
theorem LaidOut.value_unique {depth : Nat} {v v' : Json} {cs : List Char} (h : LaidOut depth v cs)
    (h' : LaidOut depth v' cs) : v = v' := by
  have hstops : Stops [] := fun c hc => nomatch hc
  exact (h.found v' cs [] [] h' rfl hstops hstops).1

end HeaderModel.Json
