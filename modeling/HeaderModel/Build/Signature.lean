/-
Functions and method signatures.

Parameters come first, in order, then the type of the result. A parameter without a name is called
after its position.
-/
import HeaderModel.Build.State

namespace HeaderModel.Build

/-- the parameter at a position -/
def parameter (h : Headers) (position : Nat) (n : Node) : Build Parameter := do
  let said ← meaningOf n
  let type ← typeOf h (← of (n.need "type"))
  return {
    name := if n.name = "" then "arg" ++ toString position else n.name
    type := type
    marks := (said.map (·.param)).getD .unmarked }

/-- a function, or the signature of a method -/
def signature (h : Headers) (n : Node) : Build Signature := do
  let said ← meaningOf n
  let params ← (h.document.childrenOf n .argument).zipIdx.mapM fun p => parameter h p.2 p.1
  let returnType ← typeOf h (← of (n.need "returns"))
  return ⟨n.name, said.bind (·.convention), params, returnType⟩

end HeaderModel.Build
