/-
Names of header units.

A header unit is named by the file name of its header, without directory and extension. Both
separators count, since the headers may have been read on either kind of system.
-/
import HeaderModel.Document.Basic

namespace HeaderModel

/-- a separator of directories -/
def isSeparator (c : Char) : Bool := c = '/' || c = '\\'

/-- what follows the last separator -/
def fileName (path : List Char) : List Char := (path.reverse.takeWhile fun c => !isSeparator c).reverse

/-- what stands before the last dot; nothing if there is no dot -/
def beforeLastDot (name : List Char) : List Char := ((name.reverse.dropWhile (· ≠ '.')).drop 1).reverse

/-- the file name without directory and extension; a name that only starts with a dot is kept -/
def unitName (path : String) : String :=
  let name := fileName path.toList
  let stem := beforeLastDot name
  String.ofList (if stem.isEmpty then name else stem)

/-- the header unit of a file element -/
def Document.unitOfFile (d : Document) (fileId : String) : Except BuildError String :=
  (d.element fileId).map fun n => unitName n.name

end HeaderModel
