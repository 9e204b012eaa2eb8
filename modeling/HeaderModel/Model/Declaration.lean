/-
Declarations.

What the model says about the headers: aggregates with their fields, interfaces with their slots,
functions, enumerations, constants, GUIDs and macro definitions. Nothing here depends on the document
from which it was read.
-/
import HeaderModel.Guid
import HeaderModel.Sal.Meaning
import HeaderModel.Typing.TypeUse

namespace HeaderModel

/-- a parameter of a function -/
structure Parameter where
  name : String
  type : TypeUse
  marks : ParamMarks
  deriving DecidableEq, Repr

/-- a function, or the signature of a method -/
structure Signature where
  name : String
  convention : Option Convention
  params : List Parameter
  returnType : TypeUse
  deriving DecidableEq, Repr

/-- a virtual method: its slot in declaration order, and its slot with overloads grouped -/
structure Method where
  signature : Signature
  slot : UInt32
  groupedSlot : UInt32
  deriving DecidableEq, Repr

/-- an interface; `slotCount` counts the inherited slots too -/
structure Interface where
  name : String
  base : Option String
  uuid : Option String
  guid : Option Guid
  methods : List Method
  slotCount : UInt32
  deriving DecidableEq, Repr

/-- a member of an aggregate; the offset counts members, not bytes, and is exact: the program, which keeps it in 32 bits,
stops rather than to build an aggregate with an offset that does not fit -/
structure Field where
  name : String
  type : TypeUse
  offset : Nat
  bits : Option Nat
  deriving DecidableEq, Repr

/-- a struct or union -/
structure Aggregate where
  name : String
  isUnion : Bool
  base : Option String
  fields : List Field
  deriving DecidableEq, Repr

/-- the storage of an enumeration -/
inductive Storage where
  | byte
  | short
  | int
  | long
  deriving DecidableEq, Repr

/-- the storage with a number of bits -/
def Storage.ofBits (bits : Nat) : Storage :=
  if bits = 8 then .byte else if bits = 16 then .short else if bits = 64 then .long else .int

/-- a named value of an enumeration -/
structure Enumerator where
  name : String
  value : Option String
  deriving DecidableEq, Repr

/-- an enumeration -/
structure Enumeration where
  name : String
  underlying : Option Storage
  items : List Enumerator
  deriving DecidableEq, Repr

/-- a constant from an initialized variable -/
structure Constant where
  name : String
  typeName : String
  value : String
  deriving DecidableEq, Repr

/-- a GUID constant -/
structure GuidDefinition where
  name : String
  guid : Guid
  deriving DecidableEq, Repr

/-- a macro definition -/
structure MacroDefinition where
  name : String
  value : String
  deriving DecidableEq, Repr

/-- a declaration of a header unit -/
inductive Declaration where
  | function (signature : Signature)
  | interface (interface : Interface)
  | aggregate (aggregate : Aggregate)
  | enumeration (enumeration : Enumeration)
  | constant (constant : Constant)
  | guid (constant : GuidDefinition)
  | definition (definition : MacroDefinition)
  deriving DecidableEq, Repr

/-- the name of a declaration -/
def Declaration.name : Declaration → String
  | .function f => f.name
  | .interface i => i.name
  | .aggregate a => a.name
  | .enumeration e => e.name
  | .constant c => c.name
  | .guid g => g.name
  | .definition m => m.name

end HeaderModel
