/-
TOML numbers, dates and booleans.

A scalar is a run of characters up to the next blank or sign of the grammar, read as a whole. Digits may be
grouped by underscores. A whole number is recognised by how it starts and by what stands beside its underscores;
one that has something else between its digits, or no digits, is still a number but has no value, which matters
only to a reader that asks for it.
-/
import HeaderModel.Text.Number
import HeaderModel.Text.Split
import HeaderModel.Toml.Value

namespace HeaderModel.Toml

/-! ## Numbers -/

/-- whether an underscore may stand between two groups: it needs a digit on either side, or a sign before it -/
def joinsGroups (isDigit : Char → Bool) (before after : List Char) : Bool :=
  (before.length = 1 || before.getLast?.any isDigit) && after.head?.any isDigit

/-- a text without its underscores, if each of them may stand where it does -/
def ungrouped? (isDigit : Char → Bool) (cs : List Char) : Option (List Char) :=
  let groups := Text.piecesAt '_' cs
  if (groups.zip groups.tail).all fun g => joinsGroups isDigit g.1 g.2 then some groups.flatten else none

/-- a sign and what follows it -/
def signed : List Char → Int × List Char
  | '-' :: cs => (-1, cs)
  | '+' :: cs => (1, cs)
  | cs => (1, cs)

/-- whether a row of digits starts with a zero that it does not need -/
def hasIdleZero (ds : List Char) : Bool := ds.length ≠ 1 && ds.head? = some '0'

/-- a digit of some base -/
def isAnyDigit (c : Char) : Bool := (Text.hexValue? c).isSome

/-- a character with which a fraction or an exponent starts -/
def endsWhole (c : Char) : Bool := c = '.' || c = 'e' || c = 'E'

/-- whether a text without its sign is a whole number by how it starts -/
def looksWhole (unsigned : List Char) : Bool :=
  let rest := unsigned.dropWhile Char.isDigit
  !unsigned.isEmpty && !hasIdleZero unsigned && (rest.isEmpty || rest.head? = some '_')
    && !rest.any endsWhole

/-- a whole number in base ten, with its value if it has one -/
def decimalInteger? (cs : List Char) : Option (Option Int) :=
  if looksWhole (signed cs).2 then
    (ungrouped? isAnyDigit cs).map fun text =>
      (Text.digits? (signed text).2).map fun n => (signed text).1 * (n : Int)
  else none

/-- a whole number in another base, with its value if it has one -/
def basedInteger? (base : Nat) (cs : List Char) : Option (Option Int) :=
  let isDigit := fun c => (Text.hexValue? c).any (· < base)
  (ungrouped? isDigit cs).bind fun ds =>
    if ds.all isDigit then some ((Text.radixNumber? base ds).map Int.ofNat) else none

/-- a whole number, with its value if it has one -/
def integer? : List Char → Option (Option Int)
  | '0' :: 'x' :: cs => basedInteger? 16 cs
  | '0' :: 'o' :: cs => basedInteger? 8 cs
  | '0' :: 'b' :: cs => basedInteger? 2 cs
  | cs => decimalInteger? cs

/-- whether `m · 10^e` lies above every number of double precision -/
def overflows (m : Nat) (e : Int) : Bool :=
  let magnitude := (Nat.toDigits 10 m).length + e
  if m = 0 || magnitude < 300 then false
  else if 320 < magnitude then true
  else
    let limit := Nat.pow 2 1024 - Nat.pow 2 970
    if 0 ≤ e then limit ≤ m * Nat.pow 10 e.toNat else limit * Nat.pow 10 (-e).toNat ≤ m

/-- the digits of a fraction, given with its point; there need be none without one -/
def fraction? : List Char → Option (List Char)
  | [] => some []
  | _ :: ds => (Text.digits? ds).map fun _ => ds

/-- the value of an exponent, given with its letter; without one it is zero -/
def exponent? : List Char → Option Int
  | [] => some 0
  | _ :: cs => (Text.digits? (signed cs).2).map fun n => (signed cs).1 * (n : Int)

/-- a fractional number, or one with an exponent; the answer says whether it overflows -/
def float? (cs : List Char) : Option Bool := do
  let unsigned := (signed cs).2
  if unsigned = "inf".toList || unsigned = "nan".toList then return false
  let text := (signed (← ungrouped? Char.isDigit cs)).2
  let whole := text.takeWhile fun c => !endsWhole c
  let rest := text.dropWhile fun c => !endsWhole c
  let isMantissa := fun c => c ≠ 'e' && c ≠ 'E'
  if rest.isEmpty || (Text.digits? whole).isNone || hasIdleZero (unsigned.takeWhile fun c => !endsWhole c) then none
  else
    let fraction ← fraction? (rest.takeWhile isMantissa)
    let power ← exponent? (rest.dropWhile isMantissa)
    let m ← Text.digits? (whole ++ fraction)
    return overflows m (power - fraction.length)

/-! ## Dates -/

/-- a number in a fixed count of digits, with bounds, and what follows it -/
def fixed? (count low high : Nat) (cs : List Char) : Option (Nat × List Char) := do
  let n ← Text.digits? (cs.take count)
  if (cs.take count).length = count && low ≤ n && n ≤ high then some (n, cs.drop count) else none

/-- what follows a character that must come first -/
def skip? (c : Char) : List Char → Option (List Char)
  | d :: cs => if d = c then some cs else none
  | [] => none

/-- the number of days of a month -/
def daysOf (year month : Nat) : Nat :=
  if month = 2 then
    if year % 4 = 0 && (year % 100 ≠ 0 || year % 400 = 0) then 29 else 28
  else if [4, 6, 9, 11].contains month then 30
  else 31

/-- what follows a date -/
def afterDate? (cs : List Char) : Option (List Char) := do
  let (year, cs) ← fixed? 4 0 9999 cs
  let (month, cs) ← fixed? 2 1 12 (← skip? '-' cs)
  let (_, cs) ← fixed? 2 1 (daysOf year month) (← skip? '-' cs)
  return cs

/-- what follows the seconds of a time, which may have a fraction -/
def afterSeconds? (cs : List Char) : Option (List Char) := do
  let (_, cs) ← fixed? 2 0 60 cs
  match cs with
  | '.' :: fraction => if fraction.head?.any Char.isDigit then some (fraction.dropWhile Char.isDigit) else none
  | _ => some cs

/-- what follows a time -/
def afterTime? (cs : List Char) : Option (List Char) := do
  let (_, cs) ← fixed? 2 0 23 cs
  let (_, cs) ← fixed? 2 0 59 (← skip? ':' cs)
  match cs with
  | ':' :: seconds => afterSeconds? seconds
  | _ => some cs

/-- a distance from universal time -/
def isOffset : List Char → Bool
  | ['Z'] | ['z'] => true
  | sign :: cs =>
    (sign = '+' || sign = '-') && ((do
      let (_, cs) ← fixed? 2 0 23 cs
      let (_, cs) ← fixed? 2 0 59 (← skip? ':' cs)
      return cs.isEmpty : Option Bool)).getD false
  | [] => false

/-- a date, a time, or both with or without a distance from universal time -/
def isMoment (cs : List Char) : Bool :=
  match afterDate? cs with
  | some [] => true
  | some (separator :: time) =>
    (separator = 'T' || separator = 't' || separator = ' ')
      && ((afterTime? time).map fun rest => rest.isEmpty || isOffset rest).getD false
  | none => ((afterTime? cs).map (·.isEmpty)).getD false

/-! ## Scalars -/

/-- the value of a scalar -/
def scalar? (cs : List Char) : Option Value :=
  if cs = "true".toList then some (.boolean true)
  else if cs = "false".toList then some (.boolean false)
  else if isMoment cs then some .moment
  else
    match integer? cs with
    | some n => some (.integer n)
    | none => (float? cs).map .float

/-- a character of a scalar: anything but blanks, line ends and the signs of the grammar -/
def inScalar (c : Char) : Bool :=
  c ∉ ['=', ',', '[', ']', '{', '}', '#', ' ', '\t', '\r', '\n']

/-- the run of characters that starts a text and may be a scalar, and what follows it; a time may stand one
blank after its date -/
def scalarRun (cs : List Char) : List Char × List Char :=
  let run := cs.takeWhile inScalar
  let rest := cs.dropWhile inScalar
  match rest with
  | ' ' :: after =>
    if (afterDate? run).any (·.isEmpty) && after.head?.any Char.isDigit then
      (run ++ ' ' :: after.takeWhile inScalar, after.dropWhile inScalar)
    else (run, rest)
  | _ => (run, rest)

end HeaderModel.Toml
