/-
Notices.

What the library tells its user beside its answer: something in the input was passed over or could
not be read. A notice is a cause with the data that names it; level, wording and fields are derived.
-/
import HeaderModel.BuildError

namespace HeaderModel

/-- how grave a notice is -/
inductive Level where
  | warning
  | error
  deriving DecidableEq, Repr

/-- something that was passed over or could not be read -/
inductive Notice where
  | blockEndWithoutBegin
  | unbalancedBlocks (opened : Nat)
  | unknownTypeWord (word spelling : String)
  | skippedDeclaration (unit name : String) (error : BuildError)
  | unreadableGuid (name initializer : String)
  | uuidNotGuid (interface uuid : String)
  | dumpNotWritten (path : String)
  deriving DecidableEq, Repr

namespace Notice

/-- the level of a notice -/
def level : Notice → Level
  | .unknownTypeWord .. => .error
  | _ => .warning

/-- the wording of a notice -/
def message : Notice → String
  | .blockEndWithoutBegin => "SAL annotation block end without begin (broken Clang/CastXML version)"
  | .unbalancedBlocks _ => "unbalanced SAL annotation blocks (broken Clang/CastXML version)"
  | .unknownTypeWord .. => "unhandled fundamental type token"
  | .skippedDeclaration .. => "skipping declaration"
  | .unreadableGuid .. => "GUID initializer not recognized"
  | .uuidNotGuid .. => "interface uuid is not a GUID"
  | .dumpNotWritten _ => "failed to write AST dump"

/-- the data of a notice, by the names under which it is reported -/
def fields : Notice → List (String × String)
  | .blockEndWithoutBegin => []
  | .unbalancedBlocks opened => [("open", toString opened)]
  | .unknownTypeWord word spelling => [("token", word), ("type_name", spelling)]
  | .skippedDeclaration unit name error =>
    [("include", unit), ("name", name), ("err", error.message.getD "")]
  | .unreadableGuid name initializer => [("name", name), ("init", initializer)]
  | .uuidNotGuid interface uuid => [("interface", interface), ("uuid", uuid)]
  | .dumpNotWritten path => [("path", path), ("err", "writing " ++ path)]

end Notice

end HeaderModel
