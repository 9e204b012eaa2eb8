/-
Assembling a module.

The files of a document are taken in the order in which they were first seen, and the declarations of a
file in document order. A declaration is taken when its header unit is in scope and covers it, when it
stands in a namespace, is complete and is no builtin. One whose numbers cannot be read is left out with a
notice; any other error ends the run.
-/
import HeaderModel.Build.Layout
import HeaderModel.Build.Inheritance
import HeaderModel.Build.Values

namespace HeaderModel

namespace Build

/-- whether an element stands in a namespace -/
def isInNamespace (d : Document) (n : Node) : Bool := n.parent.any fun p => (d.node p).kind = .namespaceScope

/-- how the names of compiler builtins begin -/
def builtinStart : String := "__builtin"

/-- whether an element is taken from a unit with a coverage -/
def isTaken (d : Document) (c : Coverage) (n : Node) : Bool :=
  isInNamespace d n && !n.hasAttr "incomplete" && c.covers n.name && !Text.opensWith builtinStart n.name

/-- the declaration that an element makes, if any -/
def declaration (h : Headers) (i : NodeId) : Build (Option Declaration) :=
  let n := h.document.node i
  match n.kind with
  | .enumeration => return some (.enumeration (← enumeration h n))
  | .function => if n.hasAttr "inline" then return none else return some (.function (← signature h n))
  | .classType | .structType =>
    if n.hasAttr "abstract" then return some (.interface (← interface h i))
    else return some (.aggregate (← aggregate h i))
  | .unionType => return some (.aggregate (← aggregate h i))
  | .variableDecl => if n.hasAttr "init" then initialized h n else return none
  | _ => return none

/-- take one declaration into a unit -/
def take (h : Headers) (slot : Nat) (unit : String) (i : NodeId) : Build Unit := do
  match ← outcome (declaration h i) with
  | .ok (some d) => modify fun b => { b with module := b.module.add slot ⟨some i, d⟩ }
  | .ok none => return ()
  | .error e =>
    if e.endsRun then throw e
    else report [.skippedDeclaration unit (h.document.node i).name e]

/-- make a unit the one that is being read -/
def openUnit (unit : String) : Build Nat := do
  let b ← get
  let (slot, m) := b.module.withUnit unit
  set { b with module := m, current := some slot }
  return slot

/-- take the declarations of one file -/
def file (h : Headers) (fileId : String) (elements : List NodeId) : Build Unit := do
  let unit ← of (h.document.unitOfFile fileId)
  if h.scope.hasUnit unit then
    match h.scope.coverage? unit with
    | none => return ()
    | some coverage =>
      let slot ← openUnit unit
      let taken := elements.filter fun i => isTaken h.document coverage (h.document.node i)
      taken.forM (take h slot unit)

/-- take the declarations of all files -/
def allFiles (h : Headers) : Build Unit := do
  h.document.files.forM fun f => file h f.1 f.2
  modify fun b => { b with current := none }

/-- the struct or union with an id -/
def aggregateWithId (h : Headers) (id : String) : Build Aggregate := do
  aggregate h (← of (h.document.placeOf id))

/-- the interface with an id -/
def interfaceWithId (h : Headers) (id : String) : Build Interface := do
  interface h (← of (h.document.placeOf id))

end Build

/-- the outcome of an action, and the builder after it -/
def Builder.run {α : Type} (b : Builder) (action : Build α) : Except BuildError α × Builder :=
  StateT.run action.run b

/-- the model of a document, built into a module, and what there is to report -/
def Headers.model (h : Headers) (m : Module) : Except BuildError Module × List Notice :=
  let (result, b) := (Builder.new m).run (Build.allFiles h)
  (result.map fun _ => b.module, b.notices)

end HeaderModel
