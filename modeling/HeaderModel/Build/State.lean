/-
The state of a builder.

Aggregates and interfaces are built once per element and remembered. An element that is being built is
marked, so that reaching it again is a cycle. Named aggregates nested in others wait in `waiting` until
the outermost one is done; then they join the header unit that is being read. An action that fails keeps
the state that it reached.
-/
import HeaderModel.Document.UnitName
import HeaderModel.Model.Module
import HeaderModel.Scope
import HeaderModel.Typing.Chain

namespace HeaderModel

/-- what a model is built from -/
structure Headers where
  document : Document
  scope : Scope
  deriving DecidableEq, Repr

/-- what a builder knows -/
structure Builder where
  module : Module
  current : Option Nat
  aggregates : List (NodeId × Aggregate)
  interfaces : List (NodeId × Interface)
  underway : List NodeId
  waiting : List Entry
  enumCounts : List (String × Nat)
  notices : List Notice
  deriving DecidableEq, Repr

/-- a builder that has built nothing -/
def Builder.new (m : Module) : Builder := ⟨m, none, [], [], [], [], [], []⟩

/-- an action of a builder -/
abbrev Build := ExceptT BuildError (StateM Builder)

namespace Build

/-- a result that needs no state -/
def of {α : Type} : Except BuildError α → Build α
  | .ok a => pure a
  | .error e => throw e

/-- the outcome of an action, as a value; a halt is among the outcomes, but what is done after one is seen by nobody -/
def outcome {α : Type} (action : Build α) : Build (Except BuildError α) := ExceptT.lift action.run

/-- pass notices on -/
def report (ns : List Notice) : Build Unit := modify fun b => { b with notices := b.notices ++ ns }

/-- an element was reached again while it was being built -/
def cycleAt (n : Node) : BuildError := .cycle n.id n.name

/-- mark an element as being built; it must not be already -/
def claim (h : Headers) (i : NodeId) : Build Unit := do
  let b ← get
  if b.underway.contains i then throw (cycleAt (h.document.node i))
  set { b with underway := i :: b.underway }

/-- take the mark of an element away -/
def release (i : NodeId) : Build Unit := modify fun b => { b with underway := b.underway.erase i }

/-- do something while an element is marked; the mark goes away even if it fails -/
def during {α : Type} (h : Headers) (i : NodeId) (action : Build α) : Build (Except BuildError α) := do
  claim h i
  let result ← outcome action
  release i
  return result

/-- add a declaration to the header unit that is being read, if any -/
def declare (entry : Entry) : Build Unit :=
  modify fun b =>
    match b.current with
    | some unit => { b with module := b.module.add unit entry }
    | none => b

/-- follow the chain of a type id -/
def typeOf (h : Headers) (typeId : String) : Build TypeUse := do
  let r := h.document.follow h.scope.boundNames typeId .empty
  let terminal ← of r.outcome
  report terminal.notices
  return r.type

/-- the name in which the chain of a type id ends -/
def typeNameOf (h : Headers) (typeId : String) : Build String := do
  let terminal ← of (h.document.endOf h.scope.boundNames typeId)
  report terminal.notices
  return terminal.name

/-- what the attribute string of an element says, if it has one -/
def meaningOf (n : Node) : Build (Option Sal.Meaning) := do
  match Sal.itemsOfAttribute (n.attr? "attributes") with
  | none => return none
  | some items =>
    report (Sal.notices items)
    return some (Sal.meaning items)

end Build

/-- the elements of a kind below an element, in order -/
def Document.childrenOf (d : Document) (n : Node) (kind : Kind) : List Node :=
  (n.children.map d.node).filter (·.kind = kind)

end HeaderModel
