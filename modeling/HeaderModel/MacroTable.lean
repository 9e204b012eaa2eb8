/-
Macro definitions.

Preprocessor output names its source in line markers (`# 12 "dir/sample.h"`); every `#define` after a
marker belongs to the header unit of that file, and those after a marker such as `<built-in>` to none.
Units stand in the order in which they first defined something. Of several definitions of a name in one
unit the last one counts, in its own place.
-/
import HeaderModel.Document.UnitName
import HeaderModel.Model.Module
import HeaderModel.Scope

namespace HeaderModel

/-- the definitions of every unit, units and names in order -/
abbrev MacroTable := List (String × List (String × String))

/-! ## Lines -/

/-- the file that a line marker names -/
def markedFile? (line : List Char) : Option (List Char) :=
  match line.dropWhile Text.isSpace with
  | '#' :: rest =>
    let number := rest.dropWhile Text.isSpace
    let afterNumber := number.dropWhile Text.isDecimalDigit
    let quote := afterNumber.dropWhile Text.isSpace
    match quote with
    | '"' :: name =>
      let file := name.takeWhile (· ≠ '"')
      let isMarker := rest.length ≠ number.length && number.length ≠ afterNumber.length
        && afterNumber.length ≠ quote.length && !file.isEmpty && file.length ≠ name.length
      if isMarker then some file else none
    | _ => none
  | _ => none

/-- a character that may start the name of a definition -/
def isNameStart (c : Char) : Bool := c.isAlpha || c = '_'

/-- the name and the value on a line that defines something -/
def definition? (line : List Char) : Option (String × String) := do
  let rest ← Text.after? "#define" (line.dropWhile Text.isSpace)
  let text := rest.dropWhile Text.isSpace
  let name := text.takeWhile Text.isWordChar
  let afterName := text.drop name.length
  let value := Text.trim afterName
  if rest.length ≠ text.length && (name.head?.any isNameStart) && (afterName.head?.any Text.isSpace)
      && !value.isEmpty then
    some (String.ofList name, String.ofList value)
  else none

/-! ## Collecting -/

/-- give a name its value, in the last place -/
def redefine (name value : String) (ds : List (String × String)) : List (String × String) :=
  ds.filter (·.1 ≠ name) ++ [(name, value)]

/-- record a definition of a unit -/
def MacroTable.record (t : MacroTable) (unit name value : String) : MacroTable :=
  match t with
  | [] => [(unit, [(name, value)])]
  | (u, own) :: rest =>
    if u = unit then (u, redefine name value own) :: rest else (u, own) :: MacroTable.record rest unit name value

/-- what was collected, and the unit to which the following lines belong -/
structure Collecting where
  table : MacroTable
  current : Option String
  deriving DecidableEq, Repr

/-- the unit of a file that a line marker names; none for a name such as `<built-in>` -/
def unitOfMarker (file : List Char) : Option String :=
  if file.head? = some '<' then none else some (Text.asciiLower (unitName (String.ofList file)))

/-- take in one line -/
def Collecting.step (s : Collecting) (line : List Char) : Collecting :=
  match markedFile? line with
  | some file => { s with current := unitOfMarker file }
  | none =>
    match s.current, definition? line with
    | some unit, some (name, value) => { s with table := s.table.record unit name value }
    | _, _ => s

/-- collect the definitions of one preprocessed text -/
def MacroTable.collect (t : MacroTable) (text : String) : MacroTable :=
  ((Text.lines text.toList).foldl Collecting.step ⟨t, none⟩).table

/-- the definitions of a unit -/
def MacroTable.ofUnit? (t : MacroTable) (unit : String) : Option (List (String × String)) :=
  t.lookup (Text.asciiLower unit)

/-! ## Into a module -/

/-- add the definitions of one unit, which is added to the module if it is new -/
def Module.addDefinitions (m : Module) (unit : String) (own : List (String × String)) : Module :=
  let (i, m) := m.withUnit unit
  own.foldl (fun m d => m.add i ⟨none, .definition ⟨d.1, d.2⟩⟩) m

/-- add the definitions of every unit in scope -/
def MacroTable.addTo (t : MacroTable) (scope : Scope) (m : Module) : Module :=
  t.foldl (fun m d => if scope.hasUnit d.1 then m.addDefinitions d.1 d.2 else m) m

end HeaderModel
