/-
Typedef names for aggregates.

Headers declare `typedef struct tagFOO { .. } FOO;`, and an anonymous aggregate has no other name than
its typedef. `Document.nameByTypedef` gives such aggregates the name of the last typedef that aliases
them directly. Which aggregates take part is decided on the names as declared, before any is changed.
-/
import HeaderModel.Document.Basic

namespace HeaderModel

/-- a struct, union or enumeration whose declared name is missing or only a tag -/
def Node.hasTagName (n : Node) : Bool :=
  (match n.kind with
    | .structType | .unionType | .enumeration => true
    | _ => false)
  && (n.name = "" || Text.opensWith "_" n.name || Text.opensWith "tag" n.name)

namespace Document

/-- the element that a typedef renames, with its new name -/
def renameBy (d : Document) (typedef : NodeId) : Except BuildError (Option (NodeId × String)) := do
  let n := d.node typedef
  let target ← d.placeOf (← n.need "type")
  return if (d.node target).hasTagName then some (target, n.name) else none

/-- all renames, in the order of the typedefs -/
def renames (d : Document) : Except BuildError (List (NodeId × String)) :=
  (d.ofKind .typedef).filterMapM d.renameBy

/-- name aggregates after their typedefs -/
def nameByTypedef (d : Document) : Except BuildError Document := do
  return (← d.renames).foldl (fun d r => d.withAttr r.1 "name" r.2) d

end Document

end HeaderModel
