/-
Values of initializers.

The value of an initializer is cut out of the first parenthesis with something between it and the last closing one of
its line, and a cast in front of it ends at the last `)` that leaves a value. These are the places where a cast around a
value without further parentheses begins and ends. Where the value has parentheses of its own, the last `)` need not
belong to the first `(`, and the cast may take a part of the value along.
- `completes_iff`: a completed text has `.0F` for every `.F` and `.f`, and nothing else is changed.
- `firstParenthesized?_eq_some_iff`: where the value is cut out, as the places of parentheses in the text.
- `cast_dropped_iff`: a cast is dropped and the whole value kept exactly if the value closes nothing before its end, and
  from a balanced initializer a balanced value is cut exactly if the parentheses at which it is cut belong together.
- `cast_takes_operand`: a cast around a sum that begins with a call loses the call.
-/
import Mathlib.Tactic
import HeaderModel.Model.Initializer
import HeaderModel.Proofs.Brackets
import HeaderModel.Proofs.Tags

namespace HeaderModel

open Brackets

/-- parentheses are brackets -/
def parenthesis : Char → Option Side
  | '(' => some .opening
  | ')' => some .closing
  | _ => none

/-- neither `.F` nor `.f` occurs in a text -/
def NoBareFloat (cs : List Char) : Prop := ¬['.', 'F'] <:+: cs ∧ ¬['.', 'f'] <:+: cs

/-- one text is the other with `.0F` for each `.F` and `.f` -/
def Completes (cs done : List Char) : Prop :=
  ∃ (first : List Char) (rest : List (Char × List Char)),
    cs = first ++ rest.flatMap (fun part => '.' :: part.1 :: part.2) ∧
    done = first ++ rest.flatMap (fun part => '.' :: '0' :: 'F' :: part.2) ∧
    NoBareFloat first ∧ ∀ part ∈ rest, (part.1 = 'F' ∨ part.1 = 'f') ∧ NoBareFloat part.2

/-- a text begins with a parenthesis, and something stands between it and the last closing one of its line -/
structure Encloses (cs body rest : List Char) : Prop where
  split : cs = '(' :: (body ++ ')' :: rest)
  body_ne_nil : body ≠ []
  oneLine : '\n' ∉ body
  last : ')' ∉ rest.takeWhile (· ≠ '\n')

/-- the first place of a text at which something is enclosed -/
def CutAt (text front body rest : List Char) : Prop :=
  ∃ cs, text = front ++ cs ∧ Encloses cs body rest ∧
    ∀ front' cs', text = front' ++ cs' → front'.length < front.length → ∀ body' rest', ¬Encloses cs' body' rest'

/-- what is enclosed is a cast and a value: the cast ends at the last `)` that leaves a value behind it -/
structure IsCast (body cast value : List Char) : Prop where
  split : body = '(' :: (cast ++ ')' :: value)
  cast_ne_nil : cast ≠ []
  value_ne_nil : value ≠ []
  last : ')' ∉ value.dropLast

/-- the value in what is enclosed: what stands behind the cast, or everything if there is none -/
def ValueIn (body value : List Char) : Prop :=
  (∃ cast, IsCast body cast value) ∨ value = body ∧ ∀ cast value', ¬IsCast body cast value'

/-! ## Bare floats -/

/-- a text goes on with the suffix of a float -/
def OpensSuffix (cs : List Char) : Prop := cs.head? = some 'F' ∨ cs.head? = some 'f'

theorem OpensSuffix.append {front : List Char} (h : OpensSuffix front) (rest : List Char) :
    OpensSuffix (front ++ rest) := by
  cases front with
  | nil => simp [OpensSuffix] at h
  | cons c front => exact h

theorem OpensSuffix.of_append {front rest : List Char} (h : OpensSuffix (front ++ rest)) :
    OpensSuffix front ∨ OpensSuffix rest := by
  cases front with
  | nil => exact .inr h
  | cons c front => exact .inl h

theorem completeFloats_suffix {c : Char} (hc : c = 'F' ∨ c = 'f') (cs : List Char) :
    completeFloats ('.' :: c :: cs) = '.' :: '0' :: 'F' :: completeFloats cs := by
  rw [completeFloats, if_pos (by simpa using hc)]

theorem completeFloats_kept {c : Char} {cs : List Char} (hc : ¬(c = '.' ∧ OpensSuffix cs)) :
    completeFloats (c :: cs) = c :: completeFloats cs := by
  by_cases hpoint : c = '.'
  · subst hpoint
    cases cs with
    | nil => rfl
    | cons d cs =>
      have hd : ¬(decide (d = 'F') || decide (d = 'f')) = true := by simpa [OpensSuffix] using hc
      rw [completeFloats, if_neg hd]
  · exact completeFloats.eq_2 c cs fun _ _ heq => absurd heq hpoint

/-- a text is gone through by its bare suffixes and the characters that are kept -/
theorem completeFloats_induction {motive : List Char → Prop} (nil : motive [])
    (suffix : ∀ c cs, (c = 'F' ∨ c = 'f') → motive cs → motive ('.' :: c :: cs))
    (kept : ∀ c cs, ¬(c = '.' ∧ OpensSuffix cs) → motive cs → motive (c :: cs)) (cs : List Char) : motive cs := by
  induction cs using completeFloats.induct with
  | case1 c cs hc ih => exact suffix c cs (by simpa using hc) ih
  | case2 c cs hc ih => exact kept '.' (c :: cs) (by simpa [OpensSuffix] using hc) ih
  | case3 c cs hc ih =>
    refine kept c cs ?_ ih
    rintro ⟨rfl, hopens⟩
    cases cs with
    | nil => simp [OpensSuffix] at hopens
    | cons d cs => exact hc d cs rfl rfl
  | case4 => exact nil

/-- two texts side by side are completed apart from each other, unless the second goes on with a suffix -/
theorem completeFloats_append (front : List Char) {rest : List Char} (hrest : ¬OpensSuffix rest) :
    completeFloats (front ++ rest) = completeFloats front ++ completeFloats rest := by
  induction front using completeFloats_induction with
  | nil => rfl
  | suffix c front hc ih => simp only [List.cons_append, completeFloats_suffix hc, ih]
  | kept c front hc ih =>
    have hboth : ¬(c = '.' ∧ OpensSuffix (front ++ rest)) := by
      rintro ⟨hpoint, hopens⟩
      rcases hopens.of_append with hfront | hopens
      · exact hc ⟨hpoint, hfront⟩
      · exact hrest hopens
    rw [completeFloats_kept hc, List.cons_append, completeFloats_kept hboth, ih, List.cons_append]

theorem noBareFloat_nil : NoBareFloat [] := by
  simp [NoBareFloat]

theorem noBareFloat_cons {c : Char} {cs : List Char} :
    NoBareFloat (c :: cs) ↔ ¬(c = '.' ∧ OpensSuffix cs) ∧ NoBareFloat cs := by
  simp only [NoBareFloat, OpensSuffix, List.infix_cons_iff, List.cons_prefix_cons,
    List.singleton_prefix_iff_head?_eq_some, eq_comm (a := '.')]
  tauto

theorem completeFloats_of_noBareFloat {cs : List Char} (h : NoBareFloat cs) : completeFloats cs = cs := by
  induction cs with
  | nil => rfl
  | cons c cs ih =>
    obtain ⟨hc, hcs⟩ := noBareFloat_cons.1 h
    rw [completeFloats_kept hc, ih hcs]

theorem not_opensSuffix_flatMap (parts : List (Char × List Char)) :
    ¬OpensSuffix (parts.flatMap fun part => '.' :: part.1 :: part.2) := by
  cases parts <;> simp [OpensSuffix]

/-- parts that begin with a bare suffix are completed each for itself -/
theorem completeFloats_flatMap {parts : List (Char × List Char)}
    (hparts : ∀ part ∈ parts, (part.1 = 'F' ∨ part.1 = 'f') ∧ NoBareFloat part.2) :
    completeFloats (parts.flatMap fun part => '.' :: part.1 :: part.2) =
      parts.flatMap fun part => '.' :: '0' :: 'F' :: part.2 := by
  induction parts with
  | nil => rfl
  | cons part parts ih =>
    obtain ⟨⟨hsuffix, hpart⟩, hrest⟩ := List.forall_mem_cons.1 hparts
    have hopens := not_opensSuffix_flatMap parts
    simp only [List.flatMap_cons, List.cons_append, completeFloats_suffix hsuffix,
      completeFloats_append part.2 hopens, completeFloats_of_noBareFloat hpart, ih hrest]

theorem completes_completeFloats (cs : List Char) : Completes cs (completeFloats cs) := by
  induction cs using completeFloats_induction with
  | nil => exact ⟨[], [], rfl, rfl, noBareFloat_nil, by simp⟩
  | suffix c cs hc ih =>
    obtain ⟨first, parts, hcs, hdone, hfirst, hparts⟩ := ih
    refine ⟨[], (c, first) :: parts, ?_, ?_, noBareFloat_nil, List.forall_mem_cons.2 ⟨⟨hc, hfirst⟩, hparts⟩⟩
    · simpa using hcs
    · rw [completeFloats_suffix hc, hdone]
      rfl
  | kept c cs hc ih =>
    rw [completeFloats_kept hc]
    obtain ⟨first, parts, hcs, hdone, hfirst, hparts⟩ := ih
    refine ⟨c :: first, parts, congrArg (c :: ·) hcs, congrArg (c :: ·) hdone, noBareFloat_cons.2 ⟨?_, hfirst⟩, hparts⟩
    rintro ⟨hpoint, hopens⟩
    exact hc ⟨hpoint, hcs ▸ hopens.append _⟩

/-- **A completed text has `.0F` for every `.F` and `.f`,** and is the same everywhere else. -/
theorem completes_iff {cs done : List Char} : Completes cs done ↔ done = completeFloats cs := by
  constructor
  · rintro ⟨first, parts, rfl, rfl, hfirst, hparts⟩
    rw [completeFloats_append first (not_opensSuffix_flatMap parts), completeFloats_of_noBareFloat hfirst,
      completeFloats_flatMap hparts]
  · rintro rfl
    exact completes_completeFloats cs

/-- a text has the parentheses that it has when it is completed -/
theorem balanced_completeFloats {cs : List Char} :
    Balanced parenthesis (completeFloats cs) ↔ Balanced parenthesis cs := by
  have hcount : ∀ t, (completeFloats cs).foldl (Tally.step parenthesis) t = cs.foldl (Tally.step parenthesis) t := by
    induction cs using completeFloats_induction with
    | nil => exact fun t => rfl
    | suffix c cs hc ih =>
      intro t
      rw [completeFloats_suffix hc]
      rcases hc with rfl | rfl
      · exact ih t
      · exact ih t
    | kept c cs hc ih =>
      intro t
      rw [completeFloats_kept hc]
      exact ih _
  rw [balanced_iff_tally, balanced_iff_tally, tally, hcount, ← tally]

/-! ## Where a value is cut out -/

theorem exists_last_closing {cs : List Char} (h : ')' ∈ cs) : ∃ before rest, cs = before ++ ')' :: rest ∧ ')' ∉ rest := by
  obtain ⟨back, front, hreverse, hback⟩ := List.eq_append_cons_of_mem (List.mem_reverse.2 h)
  refine ⟨front.reverse, back.reverse, ?_, by simpa using hback⟩
  simpa using congrArg List.reverse hreverse

theorem beforeLastClosing?_append {rest : List Char} (before : List Char) (hrest : ')' ∉ rest) :
    beforeLastClosing? (before ++ ')' :: rest) = some before := by
  have hnone : ∀ c ∈ rest.reverse, decide (c ≠ ')') = true := fun c hc =>
    decide_eq_true fun heq => hrest (heq ▸ List.mem_reverse.1 hc)
  have hreverse : (before ++ ')' :: rest).reverse = rest.reverse ++ ')' :: before.reverse := by simp
  rw [beforeLastClosing?, hreverse, Markup.dropWhile_run hnone (by simp)]
  simp

theorem beforeLastClosing?_eq_none {cs : List Char} (h : ')' ∉ cs) : beforeLastClosing? cs = none := by
  have hnone : cs.reverse.dropWhile (· ≠ ')') = [] := by
    rw [List.dropWhile_eq_nil_iff]
    intro c hc
    exact decide_eq_true fun heq => h (heq ▸ List.mem_reverse.1 hc)
  rw [beforeLastClosing?, hnone]

theorem beforeLastClosing?_eq_some_iff {cs before : List Char} :
    beforeLastClosing? cs = some before ↔ ∃ rest, cs = before ++ ')' :: rest ∧ ')' ∉ rest := by
  constructor
  · intro hsome
    by_cases hmem : ')' ∈ cs
    · obtain ⟨before', rest, rfl, hrest⟩ := exists_last_closing hmem
      rw [beforeLastClosing?_append before' hrest, Option.some_inj] at hsome
      exact ⟨rest, by rw [hsome], hrest⟩
    · rw [beforeLastClosing?_eq_none hmem] at hsome
      exact absurd hsome (by simp)
  · rintro ⟨rest, rfl, hrest⟩
    exact beforeLastClosing?_append before hrest

/-- a cast ends at the last `)` with something before it and a value behind it -/
theorem afterCast?_eq_some_iff {cs value : List Char} :
    afterCast? cs = some value ↔ ∃ cast, IsCast ('(' :: cs) cast value := by
  constructor
  · intro hsome
    cases cs with
    | nil => simp [afterCast?] at hsome
    | cons first rest =>
      obtain ⟨inside, hinside, rfl⟩ := Option.map_eq_some_iff.1 hsome
      obtain ⟨front, hrest, hfront⟩ := beforeLastClosing?_eq_some_iff.1 hinside
      rcases List.eq_nil_or_concat' rest with rfl | ⟨rest, final, rfl⟩
      · simp at hrest
      · rw [List.dropLast_concat] at hrest
        subst hrest
        have hvalue : (first :: (inside ++ ')' :: front ++ [final])).drop (inside.length + 2) = front ++ [final] := by
          simp
        rw [hvalue]
        exact ⟨first :: inside, by simp, by simp, by simp, by simpa using hfront⟩
  · rintro ⟨cast, hsplit, hcast, hvalue, hlast⟩
    obtain ⟨first, inside, rfl⟩ := List.exists_cons_of_ne_nil hcast
    obtain ⟨front, final, rfl⟩ := (List.eq_nil_or_concat' value).resolve_left hvalue
    obtain rfl : cs = first :: (inside ++ ')' :: front ++ [final]) := by simpa using hsplit
    rw [List.dropLast_concat] at hlast
    rw [afterCast?, List.dropLast_concat, beforeLastClosing?_append inside hlast]
    simp

/-- the value in what is enclosed, without a cast in front of it -/
def castless (body : List Char) : List Char :=
  match body with
  | '(' :: cs => (afterCast? cs).getD body
  | _ => body

theorem castless_other {body : List Char} (hbody : ∀ cs, body ≠ '(' :: cs) : castless body = body := by
  unfold castless
  split
  · next cs => exact absurd rfl (hbody cs)
  · rfl

theorem valueIn_iff {body value : List Char} : ValueIn body value ↔ value = castless body := by
  unfold ValueIn castless
  split
  · next cs =>
    simp only [← afterCast?_eq_some_iff]
    cases hcast : afterCast? cs with
    | none =>
      have hnone : ∀ cast value', ¬IsCast ('(' :: cs) cast value' := fun cast value' h => by
        simp [afterCast?_eq_some_iff.2 ⟨cast, h⟩] at hcast
      simp [hnone]
    | some kept =>
      obtain ⟨cast, hkept⟩ := afterCast?_eq_some_iff.1 hcast
      have hsome : ¬∀ cast value', ¬IsCast ('(' :: cs) cast value' := fun hnone => hnone cast kept hkept
      simp [hsome, eq_comm]
  · next hopens =>
    have hnone : ∀ cast value', ¬IsCast body cast value' := fun cast value' h => hopens _ h.split
    simp [hnone]

theorem takeWhile_line {body : List Char} (hbody : '\n' ∉ body) (rest : List Char) :
    (body ++ ')' :: rest).takeWhile (· ≠ '\n') = body ++ ')' :: rest.takeWhile (· ≠ '\n') := by
  have hall : ∀ c ∈ body, decide (c ≠ '\n') = true := fun c hc => decide_eq_true fun heq => hbody (heq ▸ hc)
  rw [List.takeWhile_append_of_pos hall]
  rfl

/-- what is enclosed reaches to the last `)` of the line -/
theorem exists_encloses_iff {cs body : List Char} : (∃ rest, Encloses ('(' :: cs) body rest) ↔
    body ≠ [] ∧ beforeLastClosing? (cs.takeWhile (· ≠ '\n')) = some body := by
  constructor
  · rintro ⟨rest, hsplit, hbody, hline, hlast⟩
    obtain rfl := List.tail_eq_of_cons_eq hsplit
    rw [takeWhile_line hline]
    exact ⟨hbody, beforeLastClosing?_append body hlast⟩
  · rintro ⟨hbody, hsome⟩
    obtain ⟨line, hsplit, hlast⟩ := beforeLastClosing?_eq_some_iff.1 hsome
    have hline : '\n' ∉ body := fun hmem => by
      have hin : '\n' ∈ cs.takeWhile (· ≠ '\n') := by
        rw [hsplit]
        exact List.mem_append_left _ hmem
      simpa using List.mem_takeWhile_imp hin
    obtain ⟨rest, rfl⟩ : ∃ rest, cs = body ++ ')' :: rest := by
      refine ⟨line ++ cs.dropWhile (· ≠ '\n'), ?_⟩
      rw [← List.cons_append, ← List.append_assoc, ← hsplit, List.takeWhile_append_dropWhile]
    rw [takeWhile_line hline] at hsplit
    obtain rfl := List.tail_eq_of_cons_eq (List.append_cancel_left hsplit)
    exact ⟨rest, rfl, hbody, hline, hlast⟩

theorem parenthesized?_open (cs : List Char) : parenthesized? ('(' :: cs) =
    match beforeLastClosing? (cs.takeWhile (· ≠ '\n')) with
    | none | some [] => none
    | some body => some (castless body) := by
  rw [parenthesized?]
  cases beforeLastClosing? (cs.takeWhile (· ≠ '\n')) with
  | none => rfl
  | some body =>
    by_cases hopens : ∃ cast, body = '(' :: cast
    · obtain ⟨cast, rfl⟩ := hopens
      rfl
    · have hother : ∀ cast, body ≠ '(' :: cast := fun cast heq => hopens ⟨cast, heq⟩
      cases body with
      | nil => rfl
      | cons c body =>
        dsimp only
        rw [castless_other hother]
        split
        · next cast heq => exact absurd heq (hother cast)
        · rfl

/-- the value in the parenthesis with which a text begins -/
theorem parenthesized?_eq_some_iff {cs value : List Char} :
    parenthesized? cs = some value ↔ ∃ body rest, Encloses cs body rest ∧ ValueIn body value := by
  by_cases hopens : ∃ inside, cs = '(' :: inside
  · obtain ⟨inside, rfl⟩ := hopens
    simp only [exists_and_right, exists_encloses_iff, valueIn_iff, parenthesized?_open]
    constructor
    · intro hsome
      split at hsome
      · cases hsome
      · cases hsome
      · next body hne hbody => exact ⟨body, ⟨hne, hbody⟩, (Option.some_inj.1 hsome).symm⟩
    · rintro ⟨body, ⟨hne, hbody⟩, rfl⟩
      rw [hbody]
      cases body with
      | nil => exact absurd rfl hne
      | cons c body => rfl
  · have hnone : parenthesized? cs = none := by
      unfold parenthesized?
      split
      · next inside => exact absurd ⟨inside, rfl⟩ hopens
      · rfl
    rw [hnone]
    constructor
    · intro h
      cases h
    · rintro ⟨body, rest, hencloses, -⟩
      exact absurd ⟨_, hencloses.split⟩ hopens

theorem not_encloses_of_parenthesized? {cs : List Char} (h : parenthesized? cs = none) (body rest : List Char) :
    ¬Encloses cs body rest := fun hencloses => by
  rw [parenthesized?_eq_some_iff.2 ⟨body, rest, hencloses, valueIn_iff.2 rfl⟩] at h
  cases h

theorem Encloses.cutAt {text body rest : List Char} (h : Encloses text body rest) : CutAt text [] body rest :=
  ⟨text, rfl, h, fun _ _ _ hshorter => absurd hshorter (Nat.not_lt_zero _)⟩

/-- a text that encloses something is cut at its beginning -/
theorem CutAt.at_start {text body rest front body' rest' : List Char} (h : CutAt text front body' rest')
    (hencloses : Encloses text body rest) : Encloses text body' rest' := by
  obtain ⟨cs, heq, hencloses', hfirst⟩ := h
  cases front with
  | nil =>
    obtain rfl : text = cs := heq
    exact hencloses'
  | cons c front => exact absurd hencloses (hfirst [] text rfl (Nat.succ_pos _) body rest)

/-- a text that encloses nothing is cut where the rest of it is -/
theorem cutAt_cons_iff {c : Char} {text front body rest : List Char}
    (hnone : ∀ body rest, ¬Encloses (c :: text) body rest) :
    CutAt (c :: text) front body rest ↔ ∃ front', front = c :: front' ∧ CutAt text front' body rest := by
  constructor
  · rintro ⟨cs, heq, hencloses, hfirst⟩
    cases front with
    | nil =>
      obtain rfl : c :: text = cs := heq
      exact absurd hencloses (hnone body rest)
    | cons d front =>
      obtain ⟨rfl, rfl⟩ := List.cons_eq_cons.1 heq
      refine ⟨front, rfl, cs, rfl, hencloses, ?_⟩
      intro front' cs' hsplit hlt
      exact hfirst (c :: front') cs' (congrArg (c :: ·) hsplit) (Nat.succ_lt_succ hlt)
  · rintro ⟨front, rfl, cs, rfl, hencloses, hfirst⟩
    refine ⟨cs, rfl, hencloses, ?_⟩
    intro front' cs' hsplit hlt
    cases front' with
    | nil =>
      obtain rfl : c :: (front ++ cs) = cs' := hsplit
      exact hnone
    | cons d front' =>
      obtain ⟨-, hsplit⟩ := List.cons_eq_cons.1 hsplit
      exact hfirst front' cs' hsplit (Nat.lt_of_succ_lt_succ hlt)

/-- **Where the value is cut out.** The first parenthesis with something between it and the last closing one of its line
encloses the value, and the cast in front of it if there is one. -/
theorem firstParenthesized?_eq_some_iff {text value : List Char} :
    firstParenthesized? text = some value ↔ ∃ front body rest, CutAt text front body rest ∧ ValueIn body value := by
  induction text with
  | nil =>
    constructor
    · intro h
      cases h
    · rintro ⟨front, body, rest, ⟨cs, heq, hencloses, -⟩, -⟩
      rw [hencloses.split] at heq
      simp at heq
  | cons c text ih =>
    rw [firstParenthesized?]
    cases hvalue : parenthesized? (c :: text) with
    | some found =>
      obtain ⟨body, rest, hencloses, hfound⟩ := parenthesized?_eq_some_iff.1 hvalue
      constructor
      · intro heq
        obtain rfl := Option.some_inj.1 heq
        exact ⟨[], body, rest, hencloses.cutAt, hfound⟩
      · rintro ⟨front, body', rest', hcut, hin⟩
        have hsame := parenthesized?_eq_some_iff.2 ⟨body', rest', hcut.at_start hencloses, hin⟩
        rwa [hvalue] at hsame
    | none =>
      simp only [cutAt_cons_iff (not_encloses_of_parenthesized? hvalue), ih]
      constructor
      · rintro ⟨front, body, rest, hcut, hin⟩
        exact ⟨c :: front, body, rest, ⟨front, rfl, hcut⟩, hin⟩
      · rintro ⟨_, body, rest, ⟨front, rfl, hcut⟩, hin⟩
        exact ⟨front, body, rest, hcut, hin⟩

/-! ## Values that are whole -/

theorem toList_initializerValue (init : String) : (initializerValue init).toList =
    completeFloats ((firstParenthesized? init.toList).getD init.toList) := by
  simp [initializerValue]

/-- a cast around a value encloses both of them, so the value is what follows the last `)` before its end -/
theorem firstParenthesized?_cast {type value after : List Char} (htype : '\n' ∉ type) (hvalue : '\n' ∉ value)
    {cast : List Char} (hcast : IsCast ('(' :: (type ++ ')' :: value)) cast after) :
    firstParenthesized? ('(' :: '(' :: (type ++ ')' :: (value ++ [')']))) = some after := by
  have hencloses : Encloses ('(' :: '(' :: (type ++ ')' :: (value ++ [')']))) ('(' :: (type ++ ')' :: value)) [] := by
    refine ⟨by simp, by simp, ?_, by simp⟩
    simp [htype, hvalue]
  exact firstParenthesized?_eq_some_iff.2 ⟨[], _, [], hencloses.cutAt, .inl ⟨cast, hcast⟩⟩

/-- a value behind a cast is kept as a whole exactly if it closes nothing before its last character -/
theorem completes_cast_iff {type value : List Char} (htype : type ≠ []) (hline : '\n' ∉ type) (hvalue : value ≠ [])
    (hline' : '\n' ∉ value) (text : List Char) :
    Completes value
        (completeFloats ((firstParenthesized? ('(' :: '(' :: (type ++ ')' :: (value ++ [')'])))).getD text)) ↔
      ')' ∉ value.dropLast := by
  rw [completes_iff]
  by_cases hlast : ')' ∈ value.dropLast
  · obtain ⟨front, final, rfl⟩ := (List.eq_nil_or_concat' value).resolve_left hvalue
    rw [List.dropLast_concat] at hlast
    obtain ⟨lost, kept, rfl, hkept⟩ := exists_last_closing hlast
    have hcast : IsCast ('(' :: (type ++ ')' :: (lost ++ ')' :: kept ++ [final]))) (type ++ ')' :: lost)
        (kept ++ [final]) := ⟨by simp, by simp, by simp, by simpa using hkept⟩
    have hwhole : completeFloats (lost ++ ')' :: kept ++ [final]) =
        completeFloats lost ++ ')' :: completeFloats (kept ++ [final]) := by
      rw [List.append_assoc, List.cons_append, completeFloats_append lost (by simp [OpensSuffix]),
        completeFloats_kept (by simp)]
    have hshort : completeFloats (kept ++ [final]) ≠ completeFloats (lost ++ ')' :: kept ++ [final]) := by
      intro heq
      have hlength := congrArg List.length (heq.trans hwhole)
      rw [List.length_append, List.length_cons] at hlength
      omega
    rw [firstParenthesized?_cast hline hline' hcast, Option.getD_some]
    refine iff_of_false hshort ?_
    rwa [List.dropLast_concat, not_not]
  · have hcast : IsCast ('(' :: (type ++ ')' :: value)) type value := ⟨rfl, htype, hvalue, hlast⟩
    rw [firstParenthesized?_cast hline hline' hcast, Option.getD_some]
    exact iff_of_true rfl hlast

/-! ## Values that are balanced -/

theorem parenthesis_eq_none_iff {c : Char} : parenthesis c = none ↔ c ≠ '(' ∧ c ≠ ')' := by
  unfold parenthesis
  split <;> simp_all

theorem parenthesis_eq_opening_iff {c : Char} : parenthesis c = some .opening ↔ c = '(' := by
  unfold parenthesis
  split <;> simp_all

theorem parenthesis_eq_closing_iff {c : Char} : parenthesis c = some .closing ↔ c = ')' := by
  unfold parenthesis
  split <;> simp_all

theorem balanced_of_notMem {cs : List Char} (hopen : '(' ∉ cs) (hclose : ')' ∉ cs) : Balanced parenthesis cs := by
  apply balanced_of_letters
  intro c hc
  rw [parenthesis_eq_none_iff]
  constructor
  · rintro rfl
    exact hopen hc
  · rintro rfl
    exact hclose hc

/-- a balanced text closes as many parentheses as it opens -/
theorem count_of_balanced {cs : List Char} (h : Balanced parenthesis cs) : cs.count '(' = cs.count ')' := by
  induction h with
  | nil => rfl
  | letter hx _ ih =>
    obtain ⟨hopen, hclose⟩ := parenthesis_eq_none_iff.1 hx
    rw [List.count_cons_of_ne hopen, List.count_cons_of_ne hclose, ih]
  | pair hx _ hy _ ihinner ihrest =>
    obtain rfl := parenthesis_eq_opening_iff.1 hx
    obtain rfl := parenthesis_eq_closing_iff.1 hy
    simp only [List.count_cons, List.count_append, ihinner, ihrest, beq_self_eq_true, beq_iff_eq, Char.reduceEq, if_true,
      if_false]
    omega

/-- a value behind a cast is balanced if it opens as many parentheses as it closes -/
theorem IsCast.balanced_iff {body cast value : List Char} (h : IsCast body cast value) :
    Balanced parenthesis value ↔ value.count '(' = value.count ')' := by
  refine ⟨count_of_balanced, ?_⟩
  intro hcount
  obtain ⟨front, final, rfl⟩ := (List.eq_nil_or_concat' value).resolve_left h.value_ne_nil
  have hfront : ')' ∉ front := by simpa using h.last
  by_cases hfinal : final = ')'
  · subst hfinal
    have hone : front.count '(' = 1 := by simpa [List.count_eq_zero_of_not_mem hfront] using hcount
    obtain ⟨before, inside, rfl, hbefore⟩ := List.eq_append_cons_of_mem (List.count_pos_iff.1 (hone ▸ Nat.one_pos))
    have hinside : inside.count '(' = 0 := by
      simpa [List.count_append, List.count_eq_zero_of_not_mem hbefore] using hone
    simp only [List.mem_append, List.mem_cons, not_or] at hfront
    have hpair : Balanced parenthesis ('(' :: (inside ++ [')'])) :=
      .pair rfl (balanced_of_notMem (List.count_eq_zero.1 hinside) hfront.2.2) rfl .nil
    simpa using (balanced_of_notMem hbefore hfront.1).append hpair
  · have hclose : ')' ∉ front ++ [final] := by simp [hfront, Ne.symm hfinal]
    rw [List.count_eq_zero_of_not_mem hclose, List.count_eq_zero] at hcount
    exact balanced_of_notMem hcount hclose

theorem ValueIn.balanced_iff {body value : List Char} (h : ValueIn body value) : Balanced parenthesis value ↔
    (∀ cast value', IsCast body cast value' → value'.count '(' = value'.count ')') ∧
    ((∀ cast value', ¬IsCast body cast value') → Balanced parenthesis body) := by
  rcases h with ⟨cast, hcast⟩ | ⟨rfl, hnone⟩
  · rw [hcast.balanced_iff]
    constructor
    · intro hcount
      constructor
      · intro cast' value' hcast'
        rwa [valueIn_iff.1 (.inl ⟨cast', hcast'⟩), ← valueIn_iff.1 (.inl ⟨cast, hcast⟩)]
      · intro hnone
        exact absurd hcast (hnone cast value)
    · rintro ⟨hcount, -⟩
      exact hcount cast value hcast
  · constructor
    · intro hbody
      constructor
      · intro cast value' hcast
        exact absurd hcast (hnone cast value')
      · intro _
        exact hbody
    · rintro ⟨-, hbody⟩
      exact hbody hnone

theorem CutAt.partners_iff {text front body rest : List Char} (h : CutAt text front body rest) :
    Partners parenthesis text front.length (front.length + body.length + 1) ↔ Balanced parenthesis body := by
  obtain ⟨cs, rfl, hencloses, -⟩ := h
  rw [hencloses.split]
  exact partners_at rfl rfl

/-- **When a cast is dropped and nothing else.** Of a cast around a value the whole value is kept exactly if the value
has no `)` before its last character. The value that is cut out of a balanced initializer is balanced exactly if, behind
a cast, it opens as many parentheses as it closes, and without a cast, the parentheses around it belong together. -/
theorem cast_dropped_iff (type value init : String) :
    (type ≠ "" → '\n' ∉ type.toList → value ≠ "" → '\n' ∉ value.toList →
      (Completes value.toList (initializerValue ("((" ++ type ++ ")" ++ value ++ ")")).toList ↔
        ')' ∉ value.toList.dropLast)) ∧
    (Balanced parenthesis init.toList →
      (Balanced parenthesis (initializerValue init).toList ↔
        ∀ front body rest, CutAt init.toList front body rest →
          (∀ cast value, IsCast body cast value → value.count '(' = value.count ')') ∧
          ((∀ cast value, ¬IsCast body cast value) →
            Partners parenthesis init.toList front.length (front.length + body.length + 1)))) := by
  constructor
  · intro htype hline hvalue hline'
    have htext : ("((" ++ type ++ ")" ++ value ++ ")").toList =
        '(' :: '(' :: (type.toList ++ ')' :: (value.toList ++ [')'])) := by simp
    rw [toList_initializerValue, htext]
    exact completes_cast_iff (by simpa using htype) hline (by simpa using hvalue) hline' _
  · intro hinit
    rw [toList_initializerValue, balanced_completeFloats]
    cases hfirst : firstParenthesized? init.toList with
    | none =>
      refine iff_of_true hinit ?_
      intro front body rest hcut
      have hsome := firstParenthesized?_eq_some_iff.2 ⟨front, body, rest, hcut, valueIn_iff.2 rfl⟩
      rw [hfirst] at hsome
      cases hsome
    | some value =>
      constructor
      · intro hvalue front body rest hcut
        have hsame := firstParenthesized?_eq_some_iff.2 ⟨front, body, rest, hcut, valueIn_iff.2 rfl⟩
        obtain rfl := Option.some_inj.1 (hfirst.symm.trans hsame)
        rw [hcut.partners_iff]
        exact (valueIn_iff.2 rfl).balanced_iff.1 hvalue
      · intro hcuts
        obtain ⟨front, body, rest, hcut, hin⟩ := firstParenthesized?_eq_some_iff.1 hfirst
        have hbody := hcuts front body rest hcut
        rw [hcut.partners_iff] at hbody
        exact hin.balanced_iff.2 hbody

/-- a cast around a sum that begins with a call takes the call along, and half of one if the call has a sum in it -/
theorem cast_takes_operand :
    initializerValue "((int)f(2)+1)" = "+1" ∧ Balanced parenthesis "f(2)+1".toList ∧
      ¬Completes "f(2)+1".toList "+1".toList ∧
    initializerValue "((int)f((2)+1))" = "+1)" ∧ Balanced parenthesis "((int)f((2)+1))".toList ∧
      ¬Balanced parenthesis "+1)".toList := by
  refine ⟨by decide, ?_, ?_, by decide, ?_, ?_⟩
  · exact balanced_iff_tally.2 (by decide)
  · rw [completes_iff]
    decide
  · exact balanced_iff_tally.2 (by decide)
  · rw [balanced_iff_tally]
    decide

/-- a call alone is kept as a whole behind a cast, and of two calls side by side halves are lost without one -/
theorem cast_dropped_of_call :
    (("int" ≠ "" ∧ '\n' ∉ "int".toList ∧ "f(2.f)" ≠ "" ∧ '\n' ∉ "f(2.f)".toList) ∧
      Completes "f(2.f)".toList (initializerValue ("((" ++ "int" ++ ")" ++ "f(2.f)" ++ ")")).toList) ∧
    Balanced parenthesis "(a)(b)".toList ∧ ¬Balanced parenthesis (initializerValue "(a)(b)").toList := by
  have htype : "int" ≠ "" ∧ '\n' ∉ "int".toList := by decide
  have hvalue : "f(2.f)" ≠ "" ∧ '\n' ∉ "f(2.f)".toList := by decide
  have hinit : Balanced parenthesis "(a)(b)".toList := balanced_iff_tally.2 (by decide)
  have hencloses : Encloses "(a)(b)".toList "a)(b".toList [] := ⟨by decide, by decide, by decide, by decide⟩
  have hcut : CutAt "(a)(b)".toList [] "a)(b".toList [] := hencloses.cutAt
  obtain ⟨hcast, hcuts⟩ := cast_dropped_iff "int" "f(2.f)" "(a)(b)"
  refine ⟨⟨⟨htype.1, htype.2, hvalue⟩, ?_⟩, hinit, fun hbalanced => ?_⟩
  · exact (hcast htype.1 htype.2 hvalue.1 hvalue.2).2 (by decide)
  · have hparts := (hcuts hinit).1 hbalanced [] "a)(b".toList [] hcut
    have hnone : ∀ cast value, ¬IsCast "a)(b".toList cast value := fun cast value hcast => by
      have hopens := hcast.split
      simp at hopens
    have hbody := balanced_iff_tally.1 (hcut.partners_iff.1 (hparts.2 hnone))
    revert hbody
    decide

end HeaderModel
