/-
Modules.

A module holds one bucket of declarations for every header unit. Buckets are found by name without
regard to ASCII case, are never removed or renamed, and only grow at the end.
-/
import HeaderModel.Document.Basic
import HeaderModel.Model.Declaration
import HeaderModel.Text.Case

namespace HeaderModel

/-- a declaration with the element it was read from; a macro definition has none -/
structure Entry where
  origin : Option NodeId
  decl : Declaration
  deriving DecidableEq, Repr

/-- the declarations of one header unit -/
structure HeaderUnit where
  name : String
  entries : List Entry
  deriving DecidableEq, Repr

/-- the declarations of all header units -/
structure Module where
  name : String
  units : List HeaderUnit
  deriving DecidableEq, Repr

namespace HeaderUnit

/-- the declarations, in order -/
def decls (u : HeaderUnit) : List Declaration := u.entries.map (·.decl)

/-- the functions -/
def functions (u : HeaderUnit) : List Signature :=
  u.decls.filterMap fun | .function f => some f | _ => none

/-- the interfaces -/
def interfaces (u : HeaderUnit) : List Interface :=
  u.decls.filterMap fun | .interface i => some i | _ => none

/-- the structs and unions -/
def aggregates (u : HeaderUnit) : List Aggregate :=
  u.decls.filterMap fun | .aggregate a => some a | _ => none

/-- the enumerations -/
def enumerations (u : HeaderUnit) : List Enumeration :=
  u.decls.filterMap fun | .enumeration e => some e | _ => none

/-- the constants -/
def constants (u : HeaderUnit) : List Constant :=
  u.decls.filterMap fun | .constant c => some c | _ => none

/-- the GUID constants -/
def guids (u : HeaderUnit) : List GuidDefinition :=
  u.decls.filterMap fun | .guid g => some g | _ => none

/-- the macro definitions -/
def macroDefinitions (u : HeaderUnit) : List MacroDefinition :=
  u.decls.filterMap fun | .definition d => some d | _ => none

end HeaderUnit

namespace Module

/-- a module without units -/
def empty (name : String) : Module := ⟨name, []⟩

/-- the place of the unit with a name -/
def indexOf? (m : Module) (name : String) : Option Nat :=
  m.units.findIdx? fun u => Text.sameIgnoringCase u.name name

/-- the unit with a name -/
def unit? (m : Module) (name : String) : Option HeaderUnit :=
  m.units.find? fun u => Text.sameIgnoringCase u.name name

/-- the place of the unit with a name, and the module with that unit in it -/
def withUnit (m : Module) (name : String) : Nat × Module :=
  match m.indexOf? name with
  | some i => (i, m)
  | none => (m.units.length, { m with units := m.units ++ [⟨name, []⟩] })

/-- add a declaration at the end of a unit -/
def add (m : Module) (unit : Nat) (entry : Entry) : Module :=
  { m with units := m.units.modify unit fun u => { u with entries := u.entries ++ [entry] } }

end Module

end HeaderModel
