/-
TOML values.

A document is a tree of tables. A table remembers how it came to be, because that decides what may still
be added to it: one with a header of its own is closed to dotted keys from outside, one that was only
passed on the way to a header may still get its own, and one that dotted keys made may only grow by
dotted keys.
-/

namespace HeaderModel.Toml

/-- how a table came to be -/
inductive Origin where
  | header
  | passed
  | dotted
  deriving DecidableEq, Repr

/-- a value; of numbers and dates only what a reader of settings can notice is kept, and a whole number may
have no value -/
inductive Value where
  | text (value : String)
  | boolean (value : Bool)
  | integer (value : Option Int)
  | float (overflows : Bool)
  | moment
  | array (items : List Value)
  | inline (members : List (String × Value))
  | table (origin : Origin) (members : List (String × Value))
  | series (earlier : List (List (String × Value))) (last : List (String × Value))
  deriving Repr

/-- the members of a table, in order -/
abbrev Members := List (String × Value)

namespace Value

/-- the members of a value that is read as a table; a date has none that is known -/
def members? : Value → Option Members
  | .inline ms => some ms
  | .table _ ms => some ms
  | .moment => some []
  | _ => none

/-- the items of a value that is read as an array -/
def items? : Value → Option (List Value)
  | .array items => some items
  | .series earlier last => some ((earlier ++ [last]).map (.table .header))
  | _ => none

mutual

/-- whether a value that nobody asked for can be passed over: its numbers must have a value of some size -/
def isPassable : Value → Bool
  | .integer n => n.any fun n => -(2 ^ 127) ≤ n && n < 2 ^ 128
  | .float overflows => !overflows
  | .array items => arePassable items
  | .inline ms => membersPassable ms
  | .table _ ms => membersPassable ms
  | .series earlier last => seriesPassable earlier && membersPassable last
  | _ => true

/-- all items of an array -/
def arePassable : List Value → Bool
  | [] => true
  | v :: vs => isPassable v && arePassable vs

/-- all members of a table -/
def membersPassable : List (String × Value) → Bool
  | [] => true
  | (_, v) :: ms => isPassable v && membersPassable ms

/-- all tables of a series -/
def seriesPassable : List (List (String × Value)) → Bool
  | [] => true
  | ms :: rest => membersPassable ms && seriesPassable rest

end

end Value

namespace Members

/-- put a value in the place of the one with a key -/
def replace (ms : Members) (key : String) (v : Value) : Members :=
  ms.map fun m => if m.1 = key then (key, v) else m

/-- change the table at the end of a path, making the tables on the way; `viaDots` says whether the path is
a dotted key or a header -/
def alterAt (viaDots : Bool) (f : Origin → Members → Option Members) :
    List String → Origin → Members → Option Members
  | [], origin, ms => f origin ms
  | key :: path, _, ms =>
    match ms.lookup key with
    | none => do
      let origin := if viaDots then .dotted else .passed
      return ms ++ [(key, .table origin (← alterAt viaDots f path origin []))]
    | some (.table origin inner) =>
      if viaDots && origin = .header then none
      else do
        let origin := if viaDots then .dotted else origin
        return ms.replace key (.table origin (← alterAt viaDots f path origin inner))
    | some (.series earlier last) => do
      return ms.replace key (.series earlier (← alterAt viaDots f path .header last))
    | some _ => none

/-- add a member under a dotted key -/
def insert (ms : Members) (path : List String) (key : String) (v : Value) : Option Members :=
  alterAt (!path.isEmpty) (fun origin inner =>
    if !path.isEmpty && origin = .header then none
    else if (inner.lookup key).isSome then none
    else some (inner ++ [(key, v)])) path .header ms

/-- change the table that a header named -/
def alterUnder (ms : Members) (header : List String) (f : Members → Option Members) : Option Members :=
  alterAt false (fun _ inner => f inner) header .header ms

/-- add the table that a header names -/
def openTable (ms : Members) (path : List String) (key : String) : Option Members :=
  alterAt false (fun _ inner =>
    match inner.lookup key with
    | none => some (inner ++ [(key, .table .header [])])
    | some (.table .passed own) => some (replace inner key (.table .header own))
    | some _ => none) path .header ms

/-- add one more table to the series that a header names -/
def openSeries (ms : Members) (path : List String) (key : String) : Option Members :=
  alterAt false (fun _ inner =>
    match inner.lookup key with
    | none => some (inner ++ [(key, .series [] [])])
    | some (.series earlier last) => some (replace inner key (.series (earlier ++ [last]) []))
    | some _ => none) path .header ms

end Members

end HeaderModel.Toml
