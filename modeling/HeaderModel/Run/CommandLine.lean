/-
The command line.

A call writes the model of a configuration and prints where it was written. Each option may stand
once and needs a value that is not empty; a value that looks like an option must be attached with
`=`. What asks for help or the version is answered at once, before what follows is looked at.
-/
import HeaderModel.Run.Pipeline

namespace HeaderModel.CommandLine

/-- what a call asks for -/
structure Request where
  config : String
  output : Option String
  dump : Option String
  deriving DecidableEq, Repr

/-- why no model is to be written -/
inductive Stop where
  | help
  | version
  | misuse
  deriving DecidableEq, Repr

/-- the options that take a value -/
inductive Setting where
  | output
  | dump
  deriving DecidableEq, Repr

/-- the arguments read so far -/
structure Partial where
  config : Option String
  output : Option String
  dump : Option String
  deriving DecidableEq, Repr

/-- give a value to something that may have one only once -/
def once (old : Option String) (value : String) : Except Stop (Option String) :=
  if old.isSome || value = "" then .error .misuse else .ok (some value)

/-- give an option its value -/
def Partial.set (p : Partial) (o : Setting) (value : String) : Except Stop Partial :=
  match o with
  | .output => (once p.output value).map fun v => { p with output := v }
  | .dump => (once p.dump value).map fun v => { p with dump := v }

/-- take an argument as the configuration -/
def Partial.setConfig (p : Partial) (value : String) : Except Stop Partial :=
  (once p.config value).map fun v => { p with config := v }

/-- whether an argument cannot be a detached value -/
def isFlag (arg : String) : Bool := Text.opensWith "-" arg && arg ≠ "-"

/-- what one argument means -/
inductive Meaning where
  | stop (s : Stop)
  | option (o : Setting) (value : Option String)
  | restArePlain
  | plain

/-- a long option, given the text after its dashes -/
def ofLong (text : List Char) : Meaning :=
  let name := String.ofList (text.takeWhile (· ≠ '='))
  let value := (text.dropWhile (· ≠ '=')).tail?.map String.ofList
  if name = "output" then .option .output value
  else if name = "dump" then .option .dump value
  else if name = "help" && value.isNone then .stop .help
  else if name = "version" && value.isNone then .stop .version
  else .stop .misuse

/-- a row of short options, given the text after its dash -/
def ofShort (text : List Char) : Meaning :=
  match text with
  | 'o' :: [] => .option .output none
  | 'o' :: '=' :: value => .option .output (some (String.ofList value))
  | 'o' :: value => .option .output (some (String.ofList value))
  | 'h' :: _ => .stop .help
  | 'V' :: _ => .stop .version
  | _ => .stop .misuse

/-- what an argument means, before any `--` -/
def meaning (arg : String) : Meaning :=
  match arg.toList with
  | ['-'] => .plain
  | ['-', '-'] => .restArePlain
  | '-' :: '-' :: text => ofLong text
  | '-' :: text => ofShort text
  | _ => .plain

/-- read the arguments that are left -/
def readFrom (p : Partial) : List String → Except Stop Partial
  | [] => .ok p
  | arg :: rest =>
    match meaning arg with
    | .stop s => .error s
    | .restArePlain => rest.foldlM Partial.setConfig p
    | .plain => (p.setConfig arg).bind fun p => readFrom p rest
    | .option o (some value) => (p.set o value).bind fun p => readFrom p rest
    | .option o none =>
      match rest with
      | value :: rest => if isFlag value then .error .misuse else (p.set o value).bind fun p => readFrom p rest
      | [] => .error .misuse

/-- the configuration if none is named -/
def defaultConfig : String := "bnd-cppmodel.toml"

/-- read the arguments of a call -/
def read (args : List String) : Except Stop Request :=
  (readFrom ⟨none, none, none⟩ args).map fun p => ⟨p.config.getD defaultConfig, p.output, p.dump⟩

/-- what is printed when the version is asked for -/
def versionText : String := "bnd-cppmodel 0.0.1\n"

/-- what is printed when help is asked for -/
def helpText : String :=
  "Build a declaration model from a CastXML document and write it as JSON\n" ++
  "\n" ++
  "Usage: bnd-cppmodel [OPTIONS] [CONFIG]\n" ++
  "\n" ++
  "Arguments:\n" ++
  "  [CONFIG]  Path to the bnd-cppmodel.toml configuration file [default: bnd-cppmodel.toml]\n" ++
  "\n" ++
  "Options:\n" ++
  "  -o, --output <OUTPUT>  Output JSON path (overrides config)\n" ++
  "      --dump <DUMP>      Write the normalized AST document here (overrides `module.dump`)\n" ++
  "  -h, --help             Print help\n" ++
  "  -V, --version          Print version\n"

/-- the code with which a call ends whose run fails; a program that is stopped has one of its own, and one that never ends
has none -/
def failureCode : RunError → Nat
  | .halted _ => 101
  | _ => 1

/-- how a call ended: its code, what it printed, and its error if a run failed -/
structure Ending where
  code : Nat
  printed : String
  error : Option RunError
  deriving DecidableEq, Repr

/-- carry out a call -/
def call {m : Type → Type} [Monad m] (ops : FileOps m) (args : List String) : StateT (List Notice) m Ending := do
  match read args with
  | .error .help => return ⟨0, helpText, none⟩
  | .error .version => return ⟨0, versionText, none⟩
  | .error .misuse => return ⟨2, "", none⟩
  | .ok request =>
    match ← ExceptT.run (Run.writeModel ops request.config request.output request.dump) with
    | .ok path => return ⟨0, path ++ "\n", none⟩
    | .error e => return ⟨failureCode e, "", some e⟩

end HeaderModel.CommandLine
