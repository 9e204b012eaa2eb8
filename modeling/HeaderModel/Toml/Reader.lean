/-
Reading TOML.

`read?` gives the tables of a document, or nothing if the text breaks a rule of the format. A value may
hold others up to a fixed depth, and a dotted key has a greatest length; the readers of items and members
take the reader of values as an argument, so that the depth is all that the recursion needs.
-/
import HeaderModel.Toml.Quoted
import HeaderModel.Toml.Scalar

namespace HeaderModel.Toml

/-- the greatest depth of values in values, and the greatest length of a dotted key -/
def limit : Nat := 80

/-! ## Blanks, comments and line ends -/

/-- a text without the blanks at its start -/
def dropBlanks (cs : List Char) : List Char := cs.dropWhile isSpace

/-- what follows a comment, from the end of its line on -/
def afterComment? (cs : List Char) : Option (List Char) :=
  let rest := cs.dropWhile fun c => !isControl c
  if rest.isEmpty || (afterNewline? rest).isSome then some rest else none

/-- what follows a line on which nothing more than a comment may stand -/
def afterLine? (cs : List Char) : Option (List Char) := do
  let rest ← match dropBlanks cs with
    | '#' :: comment => afterComment? comment
    | rest => some rest
  if rest.isEmpty then some [] else afterNewline? rest

/-- a text without the blanks, comments and line ends at its start -/
def dropFill? (cs : List Char) : Option (List Char) :=
  match dropBlanks cs with
  | '#' :: comment =>
    match afterComment? comment with
    | some rest => if rest.length < cs.length then dropFill? rest else none
    | none => none
  | start =>
    match afterNewline? start with
    | some rest => if rest.length < cs.length then dropFill? rest else none
    | none => some start
termination_by cs.length

/-! ## Keys -/

/-- a character of a key without quotes -/
def inKey (c : Char) : Bool := c.isAlphanum || c = '_' || c = '-'

/-- a key without dots, and what follows it -/
def simpleKey? (cs : List Char) : Option (String × List Char) :=
  let run := cs.takeWhile inKey
  if run.isEmpty then (lineString? cs).map fun s => (String.ofList s.1, s.2)
  else some (String.ofList run, cs.drop run.length)

/-- a path of keys with its last key apart, and what follows it and its blanks -/
def dottedKeys? (cs : List Char) : Option ((List String × String) × List Char) :=
  match simpleKey? cs with
  | none => none
  | some (key, rest) =>
    match dropBlanks rest with
    | '.' :: next =>
      if next.length < cs.length then
        (dottedKeys? (dropBlanks next)).map fun s => ((key :: s.1.1, s.1.2), s.2)
      else none
    | rest => some (([], key), rest)
termination_by cs.length
decreasing_by
  have := (List.dropWhile_suffix isSpace (l := next)).length_le
  simp only [dropBlanks]
  omega

/-- a dotted key of a permitted length -/
def dottedKey? (cs : List Char) : Option ((List String × String) × List Char) :=
  (dottedKeys? (dropBlanks cs)).filter fun s => s.1.1.length < limit

/-! ## Values -/

/-- what reads a value and tells what follows it -/
abbrev ValueReader := List Char → Option (Value × List Char)

/-- the items of an array from here on, and what follows its bracket -/
def items? (value? : ValueReader) (cs : List Char) : Option (List Value × List Char) := do
  let start ← dropFill? cs
  match start with
  | ']' :: rest => some ([], rest)
  | _ =>
    let (v, rest) ← value? start
    match ← dropFill? rest with
    | ']' :: rest => some ([v], rest)
    | ',' :: rest =>
      if rest.length < cs.length then (items? value? rest).map fun s => (v :: s.1, s.2) else none
    | _ => none
termination_by cs.length

/-- what follows the sign between a key and its value -/
def afterEquals? (cs : List Char) : Option (List Char) := skip? '=' cs

/-- the members of an inline table with those from here on, and what follows its brace -/
def members? (value? : ValueReader) (ms : Members) (cs : List Char) : Option (Members × List Char) := do
  let start ← dropFill? cs
  match start with
  | '}' :: rest => some (ms, rest)
  | _ =>
    let ((path, key), rest) ← dottedKey? start
    let (v, rest) ← value? (← dropFill? (← afterEquals? (← dropFill? rest)))
    let ms ← ms.insert path key v
    match ← dropFill? rest with
    | '}' :: rest => some (ms, rest)
    | ',' :: rest => if rest.length < cs.length then members? value? ms rest else none
    | _ => none
termination_by cs.length

/-- a value that may hold others through a number of levels, and what follows it -/
def value? : Nat → ValueReader
  | _, [] => none
  | levels, c :: cs =>
    if c = '[' then
      match levels with
      | 0 => none
      | levels + 1 => (items? (value? levels) cs).map fun s => (.array s.1, s.2)
    else if c = '{' then
      match levels with
      | 0 => none
      | levels + 1 => (members? (value? levels) [] cs).map fun s => (.inline s.1, s.2)
    else if c = '"' || c = '\'' then (string? (c :: cs)).map fun s => (.text (String.ofList s.1), s.2)
    else
      let (run, rest) := scalarRun (c :: cs)
      (scalar? run).map fun v => (v, rest)

/-! ## Documents -/

/-- the tables read so far, and the header under which the next members stand -/
structure Reading where
  members : Members
  header : List String

/-- take in one line, or the lines of one value -/
def statement? (s : Reading) (cs : List Char) : Option (Reading × List Char) :=
  match dropBlanks cs with
  | '[' :: '[' :: rest => do
    let ((path, key), rest) ← dottedKey? rest
    let rest ← afterLine? (← skip? ']' (← skip? ']' rest))
    return (⟨← s.members.openSeries path key, path ++ [key]⟩, rest)
  | '[' :: rest => do
    let ((path, key), rest) ← dottedKey? rest
    let rest ← afterLine? (← skip? ']' rest)
    return (⟨← s.members.openTable path key, path ++ [key]⟩, rest)
  | start =>
    match afterLine? start with
    | some rest => some (s, rest)
    | none => do
      let ((path, key), rest) ← dottedKey? start
      let (v, rest) ← value? limit (dropBlanks (← afterEquals? rest))
      let rest ← afterLine? rest
      return ({ s with members := ← s.members.alterUnder s.header (·.insert path key v) }, rest)

/-- take in all lines -/
def statements? (s : Reading) (cs : List Char) : Option Members :=
  if cs.isEmpty then some s.members
  else
    match statement? s cs with
    | some (s, rest) => if rest.length < cs.length then statements? s rest else none
    | none => none
termination_by cs.length

/-- the tables of a document -/
def read? (text : String) : Option Members :=
  statements? ⟨[], []⟩ (Text.dropByteOrderMark text.toList)

end HeaderModel.Toml
