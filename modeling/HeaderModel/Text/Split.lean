/-
Cutting a text into pieces.

`piecesAt` cuts at every separator, as the library's `splitOn` does; `lines` gives the lines of a text
without their ends; `trimBoth` takes characters of a class away from both ends.
-/
import HeaderModel.Text.CharSet

namespace HeaderModel.Text

/-- the pieces between the separators, one more than there are separators -/
def piecesAt (sep : Char) : List Char → List (List Char)
  | [] => [[]]
  | c :: cs =>
    if c = sep then [] :: piecesAt sep cs
    else
      match piecesAt sep cs with
      | piece :: rest => (c :: piece) :: rest
      | [] => [[c]]

/-- the pieces are those of the library's `splitOn` -/
theorem piecesAt_eq_splitOn (sep : Char) (cs : List Char) : piecesAt sep cs = cs.splitOn sep := by
  induction cs with
  | nil => rfl
  | cons c cs ih =>
    rw [List.splitOn_cons_eq_if_modifyHead, ← ih]
    simp only [piecesAt, beq_iff_eq]
    split
    · rfl
    · split
      · next h => rw [h, List.modifyHead_cons]
      · next h =>
        rw [ih] at h
        exact absurd h (List.splitOn_ne_nil sep cs)

/-- a line without the carriage return at its end -/
def dropReturn (line : List Char) : List Char :=
  if line.getLast? = some '\r' then line.dropLast else line

/-- the lines among the pieces between line feeds: the last piece has no end of line -/
def linesOfPieces : List (List Char) → List (List Char)
  | [] => []
  | [last] => if last.isEmpty then [] else [last]
  | line :: rest => dropReturn line :: linesOfPieces rest

/-- the lines of a text, each without its line feed and one carriage return before it -/
def lines (cs : List Char) : List (List Char) := linesOfPieces (piecesAt '\n' cs)

/-- a text without the byte order mark that may stand at its start -/
def dropByteOrderMark (cs : List Char) : List Char :=
  match cs with
  | '\uFEFF' :: rest => rest
  | _ => cs

/-- a text without the characters of a class at its end -/
def trimEnd (p : Char → Bool) (cs : List Char) : List Char := (cs.reverse.dropWhile p).reverse

/-- a text without the characters of a class at both ends -/
def trimBoth (p : Char → Bool) (cs : List Char) : List Char := trimEnd p (cs.dropWhile p)

/-- a text without the white space at both ends -/
def trim (cs : List Char) : List Char := trimBoth isSpace cs

/-- the characters of a class are dropped up to one that is not of the class -/
theorem dropWhile_append_of_head {p : Char → Bool} {run rest : List Char} (hrun : ∀ c ∈ run, p c = true)
    (hrest : ∀ c ∈ rest.head?, p c = false) : (run ++ rest).dropWhile p = rest := by
  rw [List.dropWhile_append_of_pos hrun]
  cases rest with
  | nil => rfl
  | cons c rest => exact List.dropWhile_cons_of_neg (by simp [hrest c rfl])

theorem head_dropWhile {p : Char → Bool} (cs : List Char) : ∀ c ∈ (cs.dropWhile p).head?, p c = false := by
  intro c hc
  have hhead := List.head?_dropWhile_not p cs
  rwa [Option.mem_def.1 hc] at hhead

theorem trimBoth_append (p : Char → Bool) (cs : List Char) :
    trimBoth p cs ++ ((cs.dropWhile p).reverse.takeWhile p).reverse = cs.dropWhile p := by
  rw [trimBoth, trimEnd, ← List.reverse_append, List.takeWhile_append_dropWhile, List.reverse_reverse]

/-- a text is what is left when it is trimmed, with characters of the class around it -/
theorem exists_trimBoth (p : Char → Bool) (cs : List Char) : ∃ before after,
    (∀ c ∈ before, p c = true) ∧ (∀ c ∈ after, p c = true) ∧ cs = before ++ (trimBoth p cs ++ after) := by
  have hrun : ∀ ds : List Char, ∀ c ∈ ds.takeWhile p, p c = true := fun ds => List.all_eq_true.1 List.all_takeWhile
  refine ⟨cs.takeWhile p, ((cs.dropWhile p).reverse.takeWhile p).reverse, hrun cs,
    fun c hc => hrun _ c (List.mem_reverse.1 hc), ?_⟩
  rw [trimBoth_append, List.takeWhile_append_dropWhile]

/-- what is left when a text is trimmed begins with another character -/
theorem head_trimBoth (p : Char → Bool) (cs : List Char) : ∀ c ∈ (trimBoth p cs).head?, p c = false := by
  intro c hc
  obtain ⟨rest, hrest⟩ := List.head?_eq_some_iff.1 hc
  refine head_dropWhile cs c ?_
  rw [← trimBoth_append, hrest]
  rfl

/-- what is left when a text is trimmed ends with another character -/
theorem getLast_trimBoth (p : Char → Bool) (cs : List Char) : ∀ c ∈ (trimBoth p cs).getLast?, p c = false := by
  rw [trimBoth, trimEnd, List.getLast?_reverse]
  exact head_dropWhile _

/-- what begins and ends with other characters is left when a text is trimmed -/
theorem trimBoth_of_ends {p : Char → Bool} {before inside after : List Char} (hbefore : ∀ c ∈ before, p c = true)
    (hafter : ∀ c ∈ after, p c = true) (hinside : inside ≠ []) (hhead : ∀ c ∈ inside.head?, p c = false)
    (hlast : ∀ c ∈ inside.getLast?, p c = false) : trimBoth p (before ++ (inside ++ after)) = inside := by
  have hfirst : ∀ c ∈ (inside ++ after).head?, p c = false := by
    cases inside with
    | nil => exact absurd rfl hinside
    | cons c inside => exact hhead
  have hback : (after.reverse ++ inside.reverse).dropWhile p = inside.reverse :=
    dropWhile_append_of_head (fun c hc => hafter c (List.mem_reverse.1 hc)) (by rwa [List.head?_reverse])
  rw [trimBoth, trimEnd, dropWhile_append_of_head hbefore hfirst, List.reverse_append, hback, List.reverse_reverse]

/-- nothing but white space -/
def isBlank (s : String) : Bool := s.toList.all isSpace

/-- whether one text occurs in another -/
def occursIn (part : List Char) : List Char → Bool
  | [] => part.isEmpty
  | c :: cs => part.isPrefixOf (c :: cs) || occursIn part cs

/-- whether a text begins with another -/
def opensWith (opening s : String) : Bool := opening.toList.isPrefixOf s.toList

/-- what follows an opening text, if the text opens so -/
def after? (opening : String) (cs : List Char) : Option (List Char) :=
  if opening.toList.isPrefixOf cs then some (cs.drop opening.length) else none

/-- a text without an ending, if it ends so -/
def dropEnding (ending : String) (s : String) : String :=
  if ending.toList.isSuffixOf s.toList then String.ofList (s.toList.take (s.length - ending.length)) else s

end HeaderModel.Text
