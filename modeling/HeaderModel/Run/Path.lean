/-
Paths.

A path is a text whose parts are separated by slashes; one that starts with a slash is absolute. Empty
parts mean nothing, and neither does a part `.` unless a relative path starts with it.
-/
import HeaderModel.Text.Split

namespace HeaderModel.Path

/-- whether a path does not depend on a directory -/
def isAbsolute (path : String) : Bool := path.toList.head? = some '/'

/-- a path seen from a directory -/
def seenFrom (path base : String) : String :=
  if isAbsolute path || base = "" then path
  else if base.toList.getLast? = some '/' then base ++ path
  else base ++ "/" ++ path

/-- the parts of a path, empty ones included -/
def parts (path : String) : List String := (Text.piecesAt '/' path.toList).map String.ofList

/-- the parts without those at the end that mean nothing -/
def dropIdle (parts : List String) : List String :=
  let isIdle := fun (part : String × Nat) => part.1 = "" || (part.1 = "." && part.2 ≠ 0)
  ((parts.zipIdx.reverse.dropWhile isIdle).reverse).map (·.1)

/-- the directory of a file -/
def directory (path : String) : String :=
  let above := dropIdle (dropIdle (parts path)).dropLast
  if above.isEmpty && isAbsolute path then "/" else "/".intercalate above

end HeaderModel.Path
