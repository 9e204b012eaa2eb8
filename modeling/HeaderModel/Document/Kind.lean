/-
What an element of the document declares.

The tags that the model builder understands have a constructor each; every other tag is kept as
text. A tag survives being read as a kind and printed again (`Kind.tag_ofTag`).
-/

namespace HeaderModel

/-- the kind of an element -/
inductive Kind where
  | namespaceScope
  | typedef
  | fundamentalType
  | pointerType
  | arrayType
  | referenceType
  | cvQualifiedType
  | functionType
  | function
  | method
  | argument
  | classType
  | structType
  | unionType
  | enumeration
  | enumValue
  | field
  | variableDecl
  | file
  | other (tag : String)
  deriving DecidableEq, Repr

/-- the tag of an element of this kind -/
def Kind.tag : Kind → String
  | .namespaceScope => "Namespace"
  | .typedef => "Typedef"
  | .fundamentalType => "FundamentalType"
  | .pointerType => "PointerType"
  | .arrayType => "ArrayType"
  | .referenceType => "ReferenceType"
  | .cvQualifiedType => "CvQualifiedType"
  | .functionType => "FunctionType"
  | .function => "Function"
  | .method => "Method"
  | .argument => "Argument"
  | .classType => "Class"
  | .structType => "Struct"
  | .unionType => "Union"
  | .enumeration => "Enumeration"
  | .enumValue => "EnumValue"
  | .field => "Field"
  | .variableDecl => "Variable"
  | .file => "File"
  | .other tag => tag

/-- the kinds that have a tag of their own -/
def Kind.known : List Kind :=
  [.namespaceScope, .typedef, .fundamentalType, .pointerType, .arrayType, .referenceType, .cvQualifiedType,
    .functionType, .function, .method, .argument, .classType, .structType, .unionType, .enumeration, .enumValue,
    .field, .variableDecl, .file]

/-- the kind that a tag stands for -/
def Kind.ofTag (tag : String) : Kind := (Kind.known.find? (·.tag == tag)).getD (.other tag)

/-- whether the builder does not understand the element -/
def Kind.isOther : Kind → Bool
  | .other _ => true
  | _ => false

/-- structs, unions and classes: the kinds with fields -/
def Kind.isAggregate : Kind → Bool
  | .classType | .structType | .unionType => true
  | _ => false

theorem Kind.tag_ofTag (tag : String) : (Kind.ofTag tag).tag = tag := by
  unfold Kind.ofTag
  cases h : Kind.known.find? (·.tag == tag) with
  | none => rfl
  | some k => simpa using List.find?_some h

end HeaderModel
