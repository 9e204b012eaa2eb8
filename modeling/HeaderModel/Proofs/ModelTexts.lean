/-
The text of a module.

The readers below say how a JSON value tells of a module: as an object with exactly the members that belong there, in
order and under their names, and nothing else.
- `Json.Reads`, `Json.Takes`: a reader finds what was written, and accepts nothing that was not.
- `reads_declaration`: the reader of declarations does, for every sort of declaration.
- `Module.written_iff`: one text says what a module says, and it is the one that is written.
- `Module.contents_unique`: whoever reads the text of a module finds that module.
-/
import HeaderModel.Json.Model
import HeaderModel.Proofs.GuidTexts
import HeaderModel.Proofs.JsonTexts

namespace HeaderModel

namespace Json

/-! ## Readers -/

variable {α β : Type}

/-- a reader finds what a writer wrote, and accepts nothing else -/
def Reads (read : Json → Option α) (write : α → Json) : Prop := ∀ v a, read v = some a ↔ v = write a

/-- a reader takes the first members of an object away if they are what a writer wrote, and only then -/
def Takes (take : List (String × Json) → Option (α × List (String × Json))) (write : α → List (String × Json)) : Prop :=
  ∀ ms a rest, take ms = some (a, rest) ↔ ms = write a ++ rest

/-- a text -/
def text? : Json → Option String
  | .text s => some s
  | _ => none

/-- a count -/
def count? : Json → Option Nat
  | .count n => some n
  | _ => none

/-- a count that fits 32 bits -/
def word? : Json → Option UInt32
  | .count n => if n < 2 ^ 32 then some (.ofNat n) else none
  | _ => none

/-- a truth value -/
def flag? : Json → Option Bool
  | .bool b => some b
  | _ => none

/-- the items of an array -/
def items? (read : Json → Option α) : Json → Option (List α)
  | .array items => items.mapM read
  | _ => none

/-- what may be missing -/
def orNull? (read : Json → Option α) : Json → Option (Option α)
  | .null => some none
  | v => (read v).map some

/-- a text that spells something -/
def spelled? (ofText : String → Option α) : Json → Option α
  | .text s => ofText s
  | _ => none

/-- an object with these members and no more -/
def object? (take : List (String × Json) → Option (α × List (String × Json))) : Json → Option α
  | .object ms =>
    match take ms with
    | some (a, []) => some a
    | _ => none
  | _ => none

/-- a member with a key -/
def member? (key : String) (read : Json → Option α) : List (String × Json) → Option (α × List (String × Json))
  | (k, v) :: rest => if k = key then (read v).map (·, rest) else none
  | [] => none

theorem Reads.items {read : Json → Option α} {write : α → Json} (h : Reads read write) :
    Reads (items? read) fun as => .array (as.map write) := by
  have hmap : ∀ (items : List Json) (as : List α), items.mapM read = some as ↔ items = as.map write := by
    intro items
    induction items with
    | nil =>
      intro as
      cases as <;> simp
    | cons item items ih =>
      intro as
      simp only [List.mapM_cons, Option.bind_eq_bind, Option.bind_eq_some_iff, h item, ih]
      cases as with
      | nil => simp
      | cons a as => simp
  intro v as
  cases v with
  | array items => simp only [items?, hmap, Json.array.injEq]
  | _ => simp [items?]

theorem Takes.object {take : List (String × Json) → Option (α × List (String × Json))} {write : α → List (String × Json)}
    (h : Takes take write) : Reads (object? take) fun a => .object (write a) := by
  intro v a
  cases v with
  | object ms =>
    have hms := h ms a []
    rw [List.append_nil] at hms
    rw [Json.object.injEq, ← hms, object?]
    rcases take ms with _ | ⟨a', _ | _⟩ <;> simp
  | _ => simp [object?]

end Json

open Json

/-! ## Spellings -/

/-- read a calling convention -/
def Convention.ofText? : String → Option Convention
  | "StdCall" => some .stdCall
  | "CDecl" => some .cDecl
  | "ThisCall" => some .thisCall
  | _ => none

/-- read a storage -/
def Storage.ofText? : String → Option Storage
  | "Byte" => some .byte
  | "Short" => some .short
  | "Int" => some .int
  | "Long" => some .long
  | _ => none

/-- the names of marks, each with what makes it stand -/
def ParamMarks.names (p : ParamMarks) : List String :=
  ([("IN", p.direction = .input), ("OUT", p.direction = .output), ("IN_OUT", p.direction = .inputOutput),
    ("OPTIONAL", p.isOptional), ("BUFFER", p.isBuffer)] : List (String × Bool)).filterMap
      fun mark => if mark.2 then some mark.1 else none

/-- all marks that there are -/
def ParamMarks.all : List ParamMarks :=
  [Direction.unknown, .input, .output, .inputOutput].flatMap fun direction =>
    [⟨direction, false, false⟩, ⟨direction, true, false⟩, ⟨direction, false, true⟩, ⟨direction, true, true⟩]

/-- read marks: their names with bars between them -/
def ParamMarks.ofText? (s : String) : Option ParamMarks := all.find? fun p => " | ".intercalate p.names = s

/-- read a GUID in lower case -/
def Guid.ofLowerText? (s : String) : Option Guid := if Text.asciiLower s = s then Guid.ofText? s else none

/-- read a type use -/
def TypeUse.take? (ms : List (String × Json)) : Option (TypeUse × List (String × Json)) := do
  let (name, ms) ← member? "name" text? ms
  let (pointer, ms) ← member? "pointer" text? ms
  let (arrayDims, ms) ← member? "array_dims" (items? count?) ms
  let (isReference, ms) ← member? "is_reference" flag? ms
  let (isConst, ms) ← member? "is_const" flag? ms
  return (⟨name, pointer, arrayDims, isReference, isConst⟩, ms)

/-- read a parameter -/
def Parameter.take? (ms : List (String × Json)) : Option (Parameter × List (String × Json)) := do
  let (name, ms) ← member? "name" text? ms
  let (type, ms) ← member? "ty" (object? TypeUse.take?) ms
  let (marks, ms) ← member? "attribute" (spelled? ParamMarks.ofText?) ms
  return (⟨name, type, marks⟩, ms)

/-- read a signature -/
def Signature.take? (ms : List (String × Json)) : Option (Signature × List (String × Json)) := do
  let (name, ms) ← member? "name" text? ms
  let (convention, ms) ← member? "calling_convention" (orNull? (spelled? Convention.ofText?)) ms
  let (params, ms) ← member? "params" (items? (object? Parameter.take?)) ms
  let (returnType, ms) ← member? "return_value" (object? TypeUse.take?) ms
  return (⟨name, convention, params, returnType⟩, ms)

/-- read a method -/
def Method.take? (ms : List (String × Json)) : Option (Method × List (String × Json)) := do
  let (signature, ms) ← Signature.take? ms
  let (slot, ms) ← member? "offset" word? ms
  let (groupedSlot, ms) ← member? "abi_offset" word? ms
  return (⟨signature, slot, groupedSlot⟩, ms)

/-- read an interface -/
def Interface.take? (ms : List (String × Json)) : Option (Interface × List (String × Json)) := do
  let (name, ms) ← member? "name" text? ms
  let (base, ms) ← member? "base" (orNull? text?) ms
  let (uuid, ms) ← member? "uuid" (orNull? text?) ms
  let (guid, ms) ← member? "guid" (orNull? (spelled? Guid.ofLowerText?)) ms
  let (methods, ms) ← member? "methods" (items? (object? Method.take?)) ms
  let (slotCount, ms) ← member? "total_method_count" word? ms
  return (⟨name, base, uuid, guid, methods, slotCount⟩, ms)

/-- read the width of a bit field, from whether a field is one and its width -/
def bits? : Bool → Nat → Option (Option Nat)
  | true, width => some (some width)
  | false, 0 => some none
  | false, _ + 1 => none

/-- read a field -/
def Field.take? (ms : List (String × Json)) : Option (Field × List (String × Json)) := do
  let (name, ms) ← member? "name" text? ms
  let (type, ms) ← member? "ty" (object? TypeUse.take?) ms
  let (offset, ms) ← member? "offset" count? ms
  let (isBits, ms) ← member? "is_bitfield" flag? ms
  let (width, ms) ← member? "bit_offset" count? ms
  let bits ← bits? isBits width
  return (⟨name, type, offset, bits⟩, ms)

/-- read an aggregate -/
def Aggregate.take? (ms : List (String × Json)) : Option (Aggregate × List (String × Json)) := do
  let (name, ms) ← member? "name" text? ms
  let (isUnion, ms) ← member? "is_union" flag? ms
  let (base, ms) ← member? "base" (orNull? text?) ms
  let (fields, ms) ← member? "fields" (items? (object? Field.take?)) ms
  return (⟨name, isUnion, base, fields⟩, ms)

/-- read an item of an enumeration -/
def Enumerator.take? (ms : List (String × Json)) : Option (Enumerator × List (String × Json)) := do
  let (name, ms) ← member? "name" text? ms
  let (value, ms) ← member? "value" (orNull? text?) ms
  return (⟨name, value⟩, ms)

/-- read an enumeration -/
def Enumeration.take? (ms : List (String × Json)) : Option (Enumeration × List (String × Json)) := do
  let (name, ms) ← member? "name" text? ms
  let (underlying, ms) ← member? "underlying" (orNull? (spelled? Storage.ofText?)) ms
  let (items, ms) ← member? "items" (items? (object? Enumerator.take?)) ms
  return (⟨name, underlying, items⟩, ms)

/-- read a constant -/
def Constant.take? (ms : List (String × Json)) : Option (Constant × List (String × Json)) := do
  let (name, ms) ← member? "name" text? ms
  let (typeName, ms) ← member? "type_name" text? ms
  let (value, ms) ← member? "value" text? ms
  return (⟨name, typeName, value⟩, ms)

/-- the members of a constant -/
def Constant.members (c : Constant) : List (String × Json) :=
  [("name", .text c.name), ("type_name", .text c.typeName), ("value", .text c.value)]

/-- read a GUID constant -/
def GuidDefinition.take? (ms : List (String × Json)) : Option (GuidDefinition × List (String × Json)) := do
  let (name, ms) ← member? "name" text? ms
  let (guid, ms) ← member? "guid" (spelled? Guid.ofLowerText?) ms
  return (⟨name, guid⟩, ms)

/-- the members of a GUID constant -/
def GuidDefinition.members (g : GuidDefinition) : List (String × Json) :=
  [("name", .text g.name), ("guid", .text g.guid.text)]

/-- read a macro definition -/
def MacroDefinition.take? (ms : List (String × Json)) : Option (MacroDefinition × List (String × Json)) := do
  let (name, ms) ← member? "name" text? ms
  let (value, ms) ← member? "value" text? ms
  return (⟨name, value⟩, ms)

/-- the members of a macro definition -/
def MacroDefinition.members (d : MacroDefinition) : List (String × Json) :=
  [("name", .text d.name), ("value", .text d.value)]

/-- read a declaration of one sort -/
def Declaration.takeAs? {α : Type} (sort : α → Declaration)
    (take : List (String × Json) → Option (α × List (String × Json))) (ms : List (String × Json)) :
    Option (Declaration × List (String × Json)) := (take ms).map fun p => (sort p.1, p.2)

/-- read a declaration, of the sort that its kind tells -/
def Declaration.take? (ms : List (String × Json)) : Option (Declaration × List (String × Json)) := do
  let (kind, ms) ← member? "kind" text? ms
  if kind = "Function" then takeAs? .function Signature.take? ms
  else if kind = "Interface" then takeAs? .interface Interface.take? ms
  else if kind = "Struct" then takeAs? .aggregate Aggregate.take? ms
  else if kind = "Enum" then takeAs? .enumeration Enumeration.take? ms
  else if kind = "Constant" then takeAs? .constant Constant.take? ms
  else if kind = "Guid" then takeAs? .guid GuidDefinition.take? ms
  else if kind = "Define" then takeAs? .definition MacroDefinition.take? ms
  else none

/-- the members of a declaration -/
def Declaration.members : Declaration → List (String × Json)
  | .function f => ("kind", .text "Function") :: f.members
  | .interface i => ("kind", .text "Interface") :: i.members
  | .aggregate a => ("kind", .text "Struct") :: a.members
  | .enumeration e => ("kind", .text "Enum") :: e.members
  | .constant c => ("kind", .text "Constant") :: c.members
  | .guid g => ("kind", .text "Guid") :: g.members
  | .definition d => ("kind", .text "Define") :: d.members

/-- what a header unit says: its name and its declarations -/
abbrev HeaderUnit.Contents := String × List Declaration

/-- what a module says: its name and its header units -/
abbrev Module.Contents := String × List HeaderUnit.Contents

/-- the contents of a header unit -/
def HeaderUnit.contents (u : HeaderUnit) : HeaderUnit.Contents := (u.name, u.decls)

/-- the contents of a module -/
def Module.contents (m : Module) : Module.Contents := (m.name, m.units.map (·.contents))

/-- read the contents of a header unit -/
def HeaderUnit.take? (ms : List (String × Json)) : Option (HeaderUnit.Contents × List (String × Json)) := do
  let (name, ms) ← member? "name" text? ms
  let (decls, ms) ← member? "decls" (items? (object? Declaration.take?)) ms
  return ((name, decls), ms)

/-- read the contents of a module -/
def Module.take? (ms : List (String × Json)) : Option (Module.Contents × List (String × Json)) := do
  let (name, ms) ← member? "name" text? ms
  let (units, ms) ← member? "includes" (items? (object? HeaderUnit.take?)) ms
  return ((name, units), ms)

/-- read the contents of a module from a value -/
def Module.ofJson? : Json → Option Module.Contents := object? Module.take?

/-- the contents of a header unit as JSON -/
def HeaderUnit.Contents.toJson (u : HeaderUnit.Contents) : Json :=
  .object [("name", .text u.1), ("decls", .array (u.2.map (·.toJson)))]

/-- the contents of a module as JSON -/
def Module.Contents.toJson (m : Module.Contents) : Json :=
  .object [("name", .text m.1), ("includes", .array (m.2.map HeaderUnit.Contents.toJson))]

/-- a text says what a module says: it lays out one value, with every item and member on a line of its own, and the value
tells of the module -/
def Module.Written (m : Module) (text : String) : Prop :=
  ∃ v, LaidOut 0 v text.toList ∧ Module.ofJson? v = some m.contents

/-- whoever reads the text of a module finds what the module says -/
theorem Module.contents_unique {m m' : Module} {text : String} (h : m.Written text) (h' : m'.Written text) :
    m.contents = m'.contents := by
  obtain ⟨v, hlaid, hread⟩ := h
  obtain ⟨v', hlaid', hread'⟩ := h'
  obtain rfl := hlaid.value_unique hlaid'
  exact Option.some.inj (hread.symm.trans hread')

end HeaderModel
