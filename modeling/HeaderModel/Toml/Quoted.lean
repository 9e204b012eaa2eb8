/-
TOML strings.

A string in double quotes has escapes, one in single quotes has none; three quotes make a string that may
run over several lines. Control characters other than the tab must be escaped.
-/
import HeaderModel.Text.Number

namespace HeaderModel.Toml

/-- a control character that may not stand for itself -/
def isControl (c : Char) : Bool := (c.toNat < 0x20 && c ≠ '\t') || c.toNat = 0x7F

/-- what follows an end of line, if the text starts with one -/
def afterNewline? : List Char → Option (List Char)
  | '\n' :: cs => some cs
  | '\r' :: '\n' :: cs => some cs
  | _ => none

/-- the white space within a line -/
def isSpace (c : Char) : Bool := c = ' ' || c = '\t'

/-- a character by its code in a fixed count of hexadecimal digits, and what follows them -/
def coded? (count : Nat) (cs : List Char) : Option (Char × List Char) := do
  let digits := cs.take count
  let n ← Text.radixNumber? 16 digits
  if digits.length = count && (n < 0xD800 || (0xDFFF < n && n < 0x110000)) then
    some (Char.ofNat n, cs.drop count)
  else none

/-- the character that an escape stands for, and what follows it -/
def escape? : List Char → Option (Char × List Char)
  | 'b' :: cs => some ('\x08', cs)
  | 't' :: cs => some ('\t', cs)
  | 'n' :: cs => some ('\n', cs)
  | 'f' :: cs => some ('\x0c', cs)
  | 'r' :: cs => some ('\r', cs)
  | 'e' :: cs => some ('\x1b', cs)
  | '"' :: cs => some ('"', cs)
  | '\\' :: cs => some ('\\', cs)
  | 'x' :: cs => coded? 2 cs
  | 'u' :: cs => coded? 4 cs
  | 'U' :: cs => coded? 8 cs
  | _ => none

/-- put a character in front of a string and what follows it -/
def after (c : Char) (s : List Char × List Char) : List Char × List Char := (c :: s.1, s.2)

/-- what follows the line ends and blanks that a backslash at the end of a line takes away -/
def dropLines (cs : List Char) : List Char :=
  match cs with
  | [] => []
  | '\r' :: '\n' :: rest => dropLines rest
  | c :: rest => if isSpace c || c = '\n' then dropLines rest else cs

/-- what follows a backslash that ends its line, up to the next text -/
def afterLineEnd? (cs : List Char) : Option (List Char) :=
  (afterNewline? (cs.dropWhile isSpace)).map dropLines

/-- the rest of a string in double quotes on one line, and what follows it -/
def basicLine? (cs : List Char) : Option (List Char × List Char) :=
  match cs with
  | [] => none
  | '"' :: rest => some ([], rest)
  | '\\' :: rest =>
    match escape? rest with
    | some (c, rest') => if rest'.length ≤ rest.length then (basicLine? rest').map (after c) else none
    | none => none
  | c :: rest => if isControl c then none else (basicLine? rest).map (after c)
termination_by cs.length

/-- the rest of a string in single quotes on one line, and what follows it -/
def literalLine? : List Char → Option (List Char × List Char)
  | [] => none
  | c :: rest =>
    if c = '\'' then some ([], rest)
    else if isControl c then none
    else (literalLine? rest).map (after c)

/-- the end of a string in triple quotes: up to two quotes before the last three belong to the string -/
def closing? (quote : Char) (cs : List Char) : Option (List Char × List Char) :=
  let run := min 5 (cs.takeWhile (· = quote)).length
  if 3 ≤ run then some (List.replicate (run - 3) quote, cs.drop run) else none

/-- the rest of a string in three double quotes, and what follows it -/
def basicLines? (cs : List Char) : Option (List Char × List Char) :=
  match closing? '"' cs with
  | some s => some s
  | none =>
    match cs with
    | [] => none
    | '\\' :: rest =>
      match escape? rest with
      | some (c, rest') => if rest'.length ≤ rest.length then (basicLines? rest').map (after c) else none
      | none =>
        match afterLineEnd? rest with
        | some rest' => if rest'.length ≤ rest.length then basicLines? rest' else none
        | none => none
    | '\r' :: '\n' :: rest => (basicLines? rest).map fun s => after '\r' (after '\n' s)
    | c :: rest => if isControl c && c ≠ '\n' then none else (basicLines? rest).map (after c)
termination_by cs.length

/-- the rest of a string in three single quotes, and what follows it -/
def literalLines? (cs : List Char) : Option (List Char × List Char) :=
  match closing? '\'' cs with
  | some s => some s
  | none =>
    match cs with
    | [] => none
    | '\r' :: '\n' :: rest => (literalLines? rest).map fun s => after '\r' (after '\n' s)
    | c :: rest => if isControl c && c ≠ '\n' then none else (literalLines? rest).map (after c)
termination_by cs.length

/-- a text without an end of line at its start -/
def dropNewline (cs : List Char) : List Char := (afterNewline? cs).getD cs

/-- a string on one line, and what follows it -/
def lineString? : List Char → Option (List Char × List Char)
  | '"' :: cs => basicLine? cs
  | '\'' :: cs => literalLine? cs
  | _ => none

/-- a string, and what follows it -/
def string? : List Char → Option (List Char × List Char)
  | '"' :: '"' :: '"' :: cs => basicLines? (dropNewline cs)
  | '\'' :: '\'' :: '\'' :: cs => literalLines? (dropNewline cs)
  | cs => lineString? cs

end HeaderModel.Toml
