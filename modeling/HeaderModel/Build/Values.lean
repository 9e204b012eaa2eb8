/-
Enumerations and initialized variables.

An enumeration without a usable name is numbered within its header unit. A variable of type `GUID` must
have an initializer that spells one, or it is left out with a notice; any other variable is a constant.
-/
import HeaderModel.Build.State
import HeaderModel.Model.Initializer

namespace HeaderModel.Build

/-- a name for the next enumeration without one in the header unit of an element -/
def numberedName (h : Headers) (n : Node) : Build String := do
  let unit ← of (h.document.unitOfFile (← of (n.need "file")))
  let key := Text.asciiLower unit
  let b ← get
  let count := (b.enumCounts.lookup key).getD 0
  set { b with enumCounts := (key, count + 1) :: b.enumCounts }
  return Text.toUpperText unit ++ "_ENUM_" ++ toString count

/-- the ending that generated headers give to the items of enumerations -/
def itemEnding : String := "__ext_enumitem__"

/-- the ending that generated headers give to variables -/
def variableEnding : String := "__ext_var__"

/-- a name that a declaration cannot keep -/
def isNameless (name : String) : Bool := name = "" || Text.opensWith "$" name

/-- an enumeration -/
def enumeration (h : Headers) (n : Node) : Build Enumeration := do
  let name ← if isNameless n.name then numberedName h n else pure n.name
  let items := (h.document.childrenOf n .enumValue).map fun item =>
    (⟨Text.dropEnding itemEnding item.name, item.attr? "init"⟩ : Enumerator)
  return ⟨name, ((n.attr? "size").bind Text.word64?).map Storage.ofBits, items⟩

/-- the type whose variables are GUID constants -/
def guidTypeName : String := "GUID"

/-- an initialized variable -/
def initialized (h : Headers) (n : Node) : Build (Option Declaration) := do
  let name := Text.dropEnding variableEnding n.name
  let typeName ← typeNameOf h (← of (n.need "type"))
  let init := (n.attr? "init").getD ""
  if typeName = guidTypeName then
    match Guid.ofInitializer? init with
    | some guid => return some (.guid ⟨name, guid⟩)
    | none =>
      report [.unreadableGuid name init]
      return none
  else return some (.constant ⟨name, typeName, initializerValue init⟩)

end HeaderModel.Build
