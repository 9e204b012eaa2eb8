/-
Uses of types.

A use of a type is the name in which a chain of type elements ends, with the decorations met on the
way: one `*` for every pointer, the extent of every array from the outermost inwards, and whether a
reference or a qualifier was among them.
-/

namespace HeaderModel

/-- a type as a field, a parameter or a result uses it -/
structure TypeUse where
  name : String
  pointer : String
  arrayDims : List Nat
  isReference : Bool
  isConst : Bool
  deriving DecidableEq, Repr

namespace TypeUse

/-- nothing resolved yet -/
def empty : TypeUse := ⟨"", "", [], false, false⟩

/-- whether the type is an array -/
def isArray (t : TypeUse) : Bool := !t.arrayDims.isEmpty

/-- the number of indirections -/
def indirections (t : TypeUse) : Nat := t.pointer.utf8ByteSize

end TypeUse

end HeaderModel
