/-
Scope.

The scope says which header units it has, how much of each the model covers, and at which typedef names
a type counts as known. Units are compared without regard to ASCII case. Covering a unit fully wins over
any list of its declarations; lists for one unit are joined.
-/
import HeaderModel.Text.Case

namespace HeaderModel

/-- how much of a header unit the model covers -/
inductive Coverage where
  | full
  | only (names : List String)
  deriving DecidableEq, Repr

namespace Coverage

/-- whether a declaration with a name is covered -/
def covers (c : Coverage) (name : String) : Bool :=
  match c with
  | .full => true
  | .only names => names.contains name

/-- the listed names, each once, in the order of their code points -/
def names : Coverage → List String
  | .full => []
  | .only names => names.eraseDups.mergeSort (· ≤ ·)

/-- a coverage extended by a rule for the same unit -/
def extend (old : Option Coverage) (isFull : Bool) (names : List String) : Coverage :=
  if isFull then .full
  else
    match old with
    | some .full => .full
    | some (.only earlier) => .only (earlier ++ names)
    | none => .only names

end Coverage

/-- what of the headers is wanted -/
structure Scope where
  boundNames : List String
  units : List String
  coverages : List (String × Coverage)
  deriving DecidableEq, Repr

namespace Scope

/-- nothing is wanted -/
def empty : Scope := ⟨[], [], []⟩

/-- how much of a unit is covered, if anything is -/
def coverage? (s : Scope) (unit : String) : Option Coverage := s.coverages.lookup (Text.asciiLower unit)

/-- whether a unit is in scope -/
def hasUnit (s : Scope) (unit : String) : Bool := s.units.contains (Text.asciiLower unit)

/-- add a rule for a unit -/
def addUnit (s : Scope) (unit : String) (isFull : Bool) (names : List String) : Scope :=
  let key := Text.asciiLower unit
  let seen := { s with units := key :: s.units }
  if !isFull && names.isEmpty then seen
  else { seen with coverages := (key, .extend (s.coverage? unit) isFull names) :: s.coverages }

end Scope

end HeaderModel
