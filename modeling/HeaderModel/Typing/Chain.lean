/-
Type chains.

A type id leads through typedefs, pointers, arrays, references and qualifiers to a type with a name:
a fundamental type, an aggregate, an enumeration, a function type, or a typedef that is bound by
name. `Document.follow` follows the chain and adds its decorations to a descriptor, which keeps
what was added when the chain breaks; `Document.endOf` looks only for the name. A chain that ends has
at most as many steps as there are elements; one that takes more comes back to where it was, and is
followed forever (`Halt.endless`).
-/
import HeaderModel.Document.Basic
import HeaderModel.Text.Number
import HeaderModel.Typing.Fundamental
import HeaderModel.Typing.TypeUse

namespace HeaderModel

/-- where a chain ends -/
inductive Terminal where
  | fundamental (spelling : String)
  | named (name : String)
  | function
  deriving DecidableEq, Repr

namespace Terminal

/-- the name of every function type -/
def functionName : String := "__function__stdcall"

/-- the name in which a chain ends -/
def name : Terminal → String
  | .fundamental spelling => fundamentalName spelling
  | .named name => name
  | .function => functionName

/-- what there is to report about the name -/
def notices : Terminal → List Notice
  | .fundamental spelling => fundamentalNotices spelling
  | _ => []

end Terminal

/-- a descriptor after a chain was followed, and the chain's end or the error that broke it -/
structure Resolution where
  type : TypeUse
  outcome : Except BuildError Terminal

/-- an element that no chain may pass -/
def Node.notAType (n : Node) : BuildError := .wrongKind n.kind.tag n.id

/-- the extent of an array: the greatest index, which may end in `u`, plus one -/
def Node.extent (n : Node) : Except BuildError Nat := do
  let max ← n.need "max"
  let isSuffix := fun c => c = 'u' || c = 'U'
  match Text.natBelow? UInt32.size (Text.trimEnd isSuffix max.toList) with
  | some m => if m + 1 < UInt32.size then return m + 1 else throw (.badNumber "max" max n.id)
  | none => throw (.badNumber "max" max n.id)

namespace Document

/-- the next element of a chain -/
def nextType (d : Document) (n : Node) : Except BuildError Node := do d.element (← n.need "type")

/-- follow a chain from an element, adding its decorations to a descriptor -/
def followFrom (d : Document) (bound : List String) : Nat → Node → TypeUse → Resolution
  | 0, _, t => ⟨t, .error (.halted .endless)⟩
  | steps + 1, n, t =>
    let stop := fun (terminal : Terminal) => (⟨{ t with name := terminal.name }, .ok terminal⟩ : Resolution)
    let go := fun (t : TypeUse) =>
      match d.nextType n with
      | .ok m => d.followFrom bound steps m t
      | .error e => ⟨t, .error e⟩
    match n.kind with
    | .fundamentalType => stop (.fundamental n.name)
    | .classType | .structType | .unionType | .enumeration => stop (.named n.name)
    | .typedef => if bound.contains n.name then stop (.named n.name) else go t
    | .pointerType => go { t with pointer := t.pointer.push '*' }
    | .arrayType =>
      match n.extent with
      | .ok extent => go { t with arrayDims := t.arrayDims ++ [extent] }
      | .error e => ⟨t, .error e⟩
    | .referenceType => go { t with isReference := true }
    | .cvQualifiedType => go { t with isConst := true }
    | .functionType => stop .function
    | _ => ⟨t, .error n.notAType⟩

/-- follow the chain of a type id, adding its decorations to a descriptor -/
def follow (d : Document) (bound : List String) (typeId : String) (t : TypeUse) : Resolution :=
  match d.element typeId with
  | .ok n => d.followFrom bound (d.nodes.size + 1) n t
  | .error e => ⟨t, .error e⟩

/-- follow a chain from an element to its end -/
def endFrom (d : Document) (bound : List String) : Nat → Node → Except BuildError Terminal
  | 0, _ => .error (.halted .endless)
  | steps + 1, n =>
    match n.kind with
    | .fundamentalType => .ok (.fundamental n.name)
    | .classType | .structType | .unionType | .enumeration => .ok (.named n.name)
    | .functionType => .ok .function
    | .typedef =>
      if bound.contains n.name then .ok (.named n.name)
      else (d.nextType n).bind (d.endFrom bound steps)
    | .pointerType | .arrayType | .referenceType | .cvQualifiedType =>
      (d.nextType n).bind (d.endFrom bound steps)
    | _ => .error n.notAType

/-- the end of the chain of a type id -/
def endOf (d : Document) (bound : List String) (typeId : String) : Except BuildError Terminal :=
  (d.element typeId).bind (d.endFrom bound (d.nodes.size + 1))

end Document

end HeaderModel
