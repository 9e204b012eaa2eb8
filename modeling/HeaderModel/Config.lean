/-
Configuration.

A configuration names the module, the document and optional further files, the bound types and the header
units in scope. It is a TOML document; keys that are not known are passed over. A group of settings may
also be given as an array, in the order of its keys; what an array holds beyond them is not looked at.
-/
import HeaderModel.Scope
import HeaderModel.Toml.Reader

namespace HeaderModel

/-- what is wanted of one header unit -/
structure UnitRule where
  unit : String
  attach : Option Bool
  names : List String
  deriving DecidableEq, Repr

/-- add rules in their order -/
def Scope.addRules (s : Scope) (rules : List UnitRule) : Scope :=
  rules.foldl (fun s r => s.addUnit r.unit (r.attach.getD false) r.names) s

/-- the settings of a run -/
structure Config where
  moduleName : String
  document : String
  macros : Option String
  dump : Option String
  output : String
  bindings : List String
  rules : List UnitRule
  deriving DecidableEq, Repr

namespace Config

/-- the output file if none is set -/
def defaultOutput : String := "model.json"

/-- the settings of a group by key; a setting that nobody asked for must be one that can be passed over -/
def group? (keys : List String) (v : Toml.Value) : Option (String → Option Toml.Value) :=
  match v.members?, v.items? with
  | some ms, _ =>
    if ms.all fun m => keys.contains m.1 || m.2.isPassable then some fun key => ms.lookup key else none
  | none, some items => some fun key => items[keys.idxOf key]?
  | none, none => none

/-- a text -/
def text? : Toml.Value → Option String
  | .text s => some s
  | _ => none

/-- a truth value -/
def boolean? : Toml.Value → Option Bool
  | .boolean b => some b
  | _ => none

/-- a list whose items are read alike -/
def list? {α : Type} (item? : Toml.Value → Option α) (v : Toml.Value) : Option (List α) :=
  v.items?.bind fun items => items.mapM item?

/-- a setting that may be missing -/
def optional? {α : Type} (read? : Toml.Value → Option α) : Option Toml.Value → Option (Option α)
  | none => some none
  | some v => (read? v).map some

/-- the rule for one header unit -/
def rule? (v : Toml.Value) : Option UnitRule := do
  let get ← group? ["id", "attach", "attach_types"] v
  let unit ← text? (← get "id")
  let attach ← optional? boolean? (get "attach")
  let names ← optional? (list? text?) (get "attach_types")
  return ⟨unit, attach, names.getD []⟩

/-- the output file -/
def output? (v : Toml.Value) : Option String := do
  let get ← group? ["file"] v
  let file ← optional? text? (get "file")
  return file.getD defaultOutput

/-- read a configuration -/
def ofText? (text : String) : Option Config := do
  let get ← group? ["module", "output", "bindings", "include"] (.inline (← Toml.read? text))
  let inModule ← group? ["name", "ast", "macros", "dump"] (← get "module")
  let moduleName ← text? (← inModule "name")
  let document ← text? (← inModule "ast")
  let macros ← optional? text? (inModule "macros")
  let dump ← optional? text? (inModule "dump")
  let output ← optional? output? (get "output")
  let bindings ← optional? (list? text?) (get "bindings")
  let rules ← optional? (list? rule?) (get "include")
  return ⟨moduleName, document, macros, dump, output.getD defaultOutput, bindings.getD [], rules.getD []⟩

/-- the scope that the rules describe -/
def scope (c : Config) : Scope := { Scope.empty with boundNames := c.bindings }.addRules c.rules

end Config

end HeaderModel
