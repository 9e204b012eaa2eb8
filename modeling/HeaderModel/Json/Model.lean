/-
The model as JSON.

Every declaration is an object whose first member is its kind. A method has the members of its
signature beside its two slots. What a type, parameter or interface does not have is `null`.
-/
import HeaderModel.Json.Value
import HeaderModel.Model.Module

namespace HeaderModel

/-- the name of a calling convention -/
def Convention.text : Convention → String
  | .stdCall => "StdCall"
  | .cDecl => "CDecl"
  | .thisCall => "ThisCall"

/-- the name of a storage -/
def Storage.text : Storage → String
  | .byte => "Byte"
  | .short => "Short"
  | .int => "Int"
  | .long => "Long"

/-- a type reference as JSON -/
def TypeUse.toJson (t : TypeUse) : Json :=
  .object [("name", .text t.name), ("pointer", .text t.pointer), ("array_dims", .array (t.arrayDims.map .count)),
    ("is_reference", .bool t.isReference), ("is_const", .bool t.isConst)]

/-- a parameter as JSON -/
def Parameter.toJson (p : Parameter) : Json :=
  .object [("name", .text p.name), ("ty", p.type.toJson), ("attribute", .text p.marks.text)]

/-- the members of a signature -/
def Signature.members (f : Signature) : List (String × Json) :=
  [("name", .text f.name), ("calling_convention", .ofOption (fun c => .text c.text) f.convention),
    ("params", .array (f.params.map (·.toJson))), ("return_value", f.returnType.toJson)]

/-- a method as JSON -/
def Method.toJson (m : Method) : Json :=
  .object (m.signature.members ++ [("offset", .count m.slot.toNat), ("abi_offset", .count m.groupedSlot.toNat)])

/-- the members of an interface -/
def Interface.members (i : Interface) : List (String × Json) :=
  [("name", .text i.name), ("base", .ofOption .text i.base), ("uuid", .ofOption .text i.uuid),
    ("guid", .ofOption (fun g => .text g.text) i.guid), ("methods", .array (i.methods.map (·.toJson))),
    ("total_method_count", .count i.slotCount.toNat)]

/-- a field as JSON -/
def Field.toJson (f : Field) : Json :=
  .object [("name", .text f.name), ("ty", f.type.toJson), ("offset", .count f.offset),
    ("is_bitfield", .bool f.bits.isSome), ("bit_offset", .count (f.bits.getD 0))]

/-- the members of an aggregate -/
def Aggregate.members (a : Aggregate) : List (String × Json) :=
  [("name", .text a.name), ("is_union", .bool a.isUnion), ("base", .ofOption .text a.base),
    ("fields", .array (a.fields.map (·.toJson)))]

/-- an item of an enumeration as JSON -/
def Enumerator.toJson (i : Enumerator) : Json :=
  .object [("name", .text i.name), ("value", .ofOption .text i.value)]

/-- the members of an enumeration -/
def Enumeration.members (e : Enumeration) : List (String × Json) :=
  [("name", .text e.name), ("underlying", .ofOption (fun w => .text w.text) e.underlying),
    ("items", .array (e.items.map (·.toJson)))]

/-- a declaration as JSON -/
def Declaration.toJson : Declaration → Json
  | .function f => .object (("kind", .text "Function") :: f.members)
  | .interface i => .object (("kind", .text "Interface") :: i.members)
  | .aggregate a => .object (("kind", .text "Struct") :: a.members)
  | .enumeration e => .object (("kind", .text "Enum") :: e.members)
  | .constant c =>
    .object [("kind", .text "Constant"), ("name", .text c.name), ("type_name", .text c.typeName),
      ("value", .text c.value)]
  | .guid g => .object [("kind", .text "Guid"), ("name", .text g.name), ("guid", .text g.guid.text)]
  | .definition m => .object [("kind", .text "Define"), ("name", .text m.name), ("value", .text m.value)]

/-- a header unit as JSON -/
def HeaderUnit.toJson (u : HeaderUnit) : Json :=
  .object [("name", .text u.name), ("decls", .array (u.decls.map (·.toJson)))]

/-- a module as JSON -/
def Module.toJson (m : Module) : Json :=
  .object [("name", .text m.name), ("includes", .array (m.units.map (·.toJson)))]

/-- a module as the text of a file -/
def Module.text (m : Module) : String := m.toJson.pretty 0

end HeaderModel
