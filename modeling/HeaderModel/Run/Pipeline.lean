/-
A run from configuration to model file.

The configuration names the document and is read first; all paths in it are seen from its directory. The
document is read, aggregates are named after their typedefs, and the model is built. If a dump is wanted,
the document is written back whether or not the model could be built, and a dump that cannot be written is
only reported. Macro definitions come last. If building gives no answer, nothing of this happens any more.
-/
import HeaderModel.Build.Assembly
import HeaderModel.Config
import HeaderModel.MacroTable
import HeaderModel.Document.Dump
import HeaderModel.Document.Loading
import HeaderModel.Document.TypedefNames
import HeaderModel.Json.Model
import HeaderModel.Run.Files

namespace HeaderModel

/-- why a run failed, with the file on which it failed, or that it gave no answer -/
inductive RunError where
  | configNotRead (path : String) (fault : FileFault)
  | configInvalid (path : String)
  | emptyModuleName (path : String)
  | noDocument (path : String)
  | documentNotRead (path : String) (fault : FileFault)
  | documentInvalid (path : String) (error : BuildError)
  | modelNotBuilt (path : String) (error : BuildError)
  | halted (why : Halt)
  | macrosNotRead (path : String) (fault : FileFault)
  | outputNotWritten (path : String) (fault : FileFault)
  deriving DecidableEq, Repr

namespace RunError

/-- what was being done, and the wording of the cause if it has one; a halt is not reported at all -/
def links : RunError → List String
  | .configNotRead path fault => ["reading model config " ++ path, fault.message]
  | .configInvalid path => ["parsing model config " ++ path]
  | .emptyModuleName path => ["model config " ++ path ++ " has an empty module name"]
  | .noDocument path => ["model config " ++ path ++ " names no AST document"]
  | .documentNotRead path fault => ["reading AST document " ++ path, fault.message]
  | .documentInvalid path error => ("loading AST document " ++ path) :: error.message.toList
  | .modelNotBuilt path error => ("building model from " ++ path) :: error.message.toList
  | .halted _ => []
  | .macrosNotRead path fault => ["reading preprocessor output " ++ path, fault.message]
  | .outputNotWritten path fault => ["writing output to " ++ path, fault.message]

/-- the wording of an error -/
def message (e : RunError) : String := ": ".intercalate e.links

end RunError

/-- an action of a run, with what there is to report -/
abbrev Run (m : Type → Type) := ExceptT RunError (StateT (List Notice) m)

namespace Run

variable {m : Type → Type} [Monad m]

/-- pass notices on -/
def report (ns : List Notice) : Run m Unit := modify (· ++ ns)

/-- read a file that must be there -/
def readFile (ops : FileOps m) (path : String) (failed : String → FileFault → RunError) : Run m String := do
  match ← (ops.read path : m _) with
  | .ok text => return text
  | .error fault => throw (failed path fault)

/-- read a configuration, which must name a module and a document -/
def readConfig (ops : FileOps m) (path : String) : Run m Config := do
  let text ← readFile ops path .configNotRead
  match Config.ofText? text with
  | none => throw (.configInvalid path)
  | some c =>
    if c.moduleName = "" then throw (.emptyModuleName path)
    else if c.document = "" then throw (.noDocument path)
    else return c

/-- write the document back; failing to do so is only reported -/
def dumpTo (ops : FileOps m) (path : String) (d : Document) : Run m Unit := do
  match ← (ops.write path d.dump : m _) with
  | .ok () => return ()
  | .error _ => report [.dumpNotWritten path]

/-- go on only if building has given an answer -/
def awaitAnswer (built : Except BuildError Module) : Run m Unit :=
  match built with
  | .error (.halted why) => throw (.halted why)
  | _ => return ()

/-- the model that a configuration describes, with paths seen from a directory -/
def modelFor (ops : FileOps m) (c : Config) (base : String) : Run m Module := do
  let path := Path.seenFrom c.document base
  let text ← readFile ops path .documentNotRead
  match Document.ofText text with
  | .error e => throw (.documentInvalid path e)
  | .ok loaded =>
    let named := loaded.nameByTypedef
    let (built, notices) := match named with
      | .ok d => Headers.model ⟨d, c.scope⟩ (.empty c.moduleName)
      | .error e => (.error e, [])
    report notices
    awaitAnswer built
    if let some dump := c.dump then
      dumpTo ops (Path.seenFrom dump base) (named.toOption.getD loaded)
    match built with
    | .error e => throw (.modelNotBuilt path e)
    | .ok declared =>
      match c.macros with
      | none => return declared
      | some macros =>
        let preprocessed ← readFile ops (Path.seenFrom macros base) .macrosNotRead
        return (MacroTable.collect [] preprocessed).addTo c.scope declared

/-- the model that a configuration file describes -/
def model (ops : FileOps m) (configPath : String) : Run m Module := do
  modelFor ops (← readConfig ops configPath) (Path.directory configPath)

/-- write the model that a configuration file describes, and tell where it was written -/
def writeModel (ops : FileOps m) (configPath : String) (output dump : Option String) : Run m String := do
  let loaded ← readConfig ops configPath
  let c := { loaded with dump := dump.or loaded.dump }
  let base := Path.directory configPath
  let built ← modelFor ops c base
  let path := output.getD (Path.seenFrom c.output base)
  match ← (ops.write path built.text : m _) with
  | .ok () => return path
  | .error fault => throw (.outputNotWritten path fault)

end Run

end HeaderModel
