/-
What an attribute string says about a declaration.

The items are scanned from left to right. A `pre` or `post` item sets the state of which the following
`valid` and `writableTo` items speak; together they tell in which direction a parameter passes data.
Blocks have no meaning of their own and are only checked for balance.
-/
import HeaderModel.Notice
import HeaderModel.Sal.Item

namespace HeaderModel

/-- in which direction a parameter passes data, as far as it is known -/
inductive Direction where
  | unknown
  | input
  | output
  | inputOutput
  deriving DecidableEq, Repr

/-- direction and shape of a parameter -/
structure ParamMarks where
  direction : Direction
  isOptional : Bool
  isBuffer : Bool
  deriving DecidableEq, Repr

namespace ParamMarks

/-- a parameter of which nothing is said -/
def unmarked : ParamMarks := ⟨.unknown, false, false⟩

/-- the marks that are set, each with its bit, lowest first -/
def flags (p : ParamMarks) : List (String × Nat) :=
  (match p.direction with
    | .unknown => []
    | .input => [("IN", 1)]
    | .output => [("OUT", 2)]
    | .inputOutput => [("IN_OUT", 4)])
  ++ (if p.isOptional then [("OPTIONAL", 8)] else [])
  ++ (if p.isBuffer then [("BUFFER", 16)] else [])

/-- the names of the marks that are set -/
def text (p : ParamMarks) : String := " | ".intercalate (p.flags.map (·.1))

/-- the marks as a number -/
def bits (p : ParamMarks) : Nat := (p.flags.map (·.2)).foldr (· + ·) 0

end ParamMarks

namespace Sal

/-- what an attribute string says -/
structure Meaning where
  convention : Option Convention
  param : ParamMarks
  guid : Option String
  deriving DecidableEq, Repr

/-- the state of which `valid` and `writableTo` speak -/
inductive Moment where
  | unstated
  | before
  | after
  deriving DecidableEq, Repr

/-- what the items have said so far -/
structure Scan where
  convention : Option Convention
  guid : Option String
  moment : Moment
  isWritten : Bool
  hasWritable : Bool
  isOptional : Bool
  isBuffer : Bool
  opened : Nat
  notices : List Notice
  deriving DecidableEq, Repr

namespace Scan

/-- nothing said yet -/
def start : Scan := ⟨none, none, .unstated, false, false, false, false, 0, []⟩

/-- take in one item -/
def step (s : Scan) : Item → Scan
  | .blockBegin => { s with opened := s.opened + 1 }
  | .blockEnd =>
    match s.opened with
    | 0 => { s with notices := s.notices ++ [.blockEndWithoutBegin] }
    | opened + 1 => { s with opened := opened }
  | .pre => { s with moment := .before }
  | .post => { s with moment := .after }
  | .valid => { s with isWritten := s.isWritten || s.moment = .after }
  | .maybeNull => { s with isOptional := true }
  | .range writable singleElement =>
    { s with
      isWritten := s.isWritten || (writable && s.moment = .before)
      hasWritable := s.hasWritable || writable
      isBuffer := s.isBuffer || !singleElement }
  | .convention convention => { s with convention := some convention }
  | .uuid text => { s with guid := some text }
  | .other _ => s

/-- a parameter is read unless something writable is named, and written when an item said so -/
def direction (s : Scan) : Direction :=
  match s.isWritten, s.hasWritable with
  | true, true => .output
  | true, false => .inputOutput
  | false, true => .unknown
  | false, false => .input

end Scan

/-- scan a list of items -/
def scan (items : List Item) : Scan := items.foldl Scan.step Scan.start

/-- what a list of items says -/
def meaning (items : List Item) : Meaning :=
  let s := scan items
  ⟨s.convention, ⟨s.direction, s.isOptional, s.isBuffer⟩, s.guid⟩

/-- what there is to report about a list of items -/
def notices (items : List Item) : List Notice :=
  let s := scan items
  s.notices ++ if s.opened = 0 then [] else [.unbalancedBlocks s.opened]

/-- the items of an attribute that is present and not blank -/
def itemsOfAttribute (attributes : Option String) : Option (List Item) :=
  (attributes.filter fun a => !Text.isBlank a).map items

end Sal

end HeaderModel
