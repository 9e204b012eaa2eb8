/-
The program: the command line on real files.

Results go to standard output; notices, errors and misuse go to standard error.
-/
import HeaderModel.Run.CommandLine

namespace HeaderModel

/-- the fault that an error of the system stands for -/
def FileFault.ofSystem : IO.Error → FileFault
  | .noFileOrDirectory .. => .notFound
  | .noSuchThing .. => .notFound
  | .inappropriateType _ code detail =>
    if code = 20 then .notDirectory else if code = 21 then .isDirectory else .other detail
  | e => .other (toString e)

/-- the outcome of an action on real files -/
def attemptFile {α : Type} (action : IO α) : IO (Except FileFault α) := do
  match ← action.toBaseIO with
  | .ok a => return .ok a
  | .error e => return .error (.ofSystem e)

/-- reading and writing of real files -/
def realFiles : FileOps IO where
  read path := attemptFile (IO.FS.readFile path)
  write path text := attemptFile (IO.FS.writeFile path text)

/-- a notice on one line -/
def Notice.line (n : Notice) : String :=
  let level := match n.level with
    | .warning => "WARN"
    | .error => "ERROR"
  " ".intercalate ([level, n.message] ++ n.fields.map fun f => f.1 ++ "=" ++ f.2)

end HeaderModel

open HeaderModel

/-- carry out a call with the arguments of the process -/
def main (args : List String) : IO UInt32 := do
  let (ending, notices) ← (CommandLine.call realFiles args).run []
  for n in notices do
    IO.eprintln n.line
  if let some e := ending.error then
    IO.eprintln ("Error: " ++ e.message)
  if ending.code = 2 then
    IO.eprintln "error: the arguments are not understood; try --help"
  IO.print ending.printed
  return UInt32.ofNat ending.code
