/-
Files.

A run needs to read and to write texts by path; `FileOps` is all that it knows of files. `FileTree` is a
tree of files and directories with the rules of an ordinary file system, in which a run can be followed
step by step.
-/
import HeaderModel.Run.Path

namespace HeaderModel

/-- why a file cannot be read or written -/
inductive FileFault where
  | notFound
  | isDirectory
  | notDirectory
  | nameTooLong
  | zeroInName
  | other (detail : String)
  deriving DecidableEq, Repr

/-- the wording of a fault -/
def FileFault.message : FileFault → String
  | .notFound => "No such file or directory (os error 2)"
  | .isDirectory => "Is a directory (os error 21)"
  | .notDirectory => "Not a directory (os error 20)"
  | .nameTooLong => "File name too long (os error 36)"
  | .zeroInName => "file name contained an unexpected NUL byte"
  | .other detail => detail

/-- reading and writing of texts by path -/
structure FileOps (m : Type → Type) where
  read : String → m (Except FileFault String)
  write : String → String → m (Except FileFault Unit)

/-- the names that lead from the top of a tree to a file or directory -/
abbrev Location := List String

/-- a tree of files and directories, and the directory from which relative paths are seen -/
structure FileTree where
  home : Location
  directories : List Location
  files : List (Location × String)
  deriving DecidableEq, Repr

namespace FileTree

/-- the greatest number of bytes in the name of a file or directory -/
def nameLimit : Nat := 255

/-- the greatest number of bytes in a path -/
def pathLimit : Nat := 4095

/-- whether a directory is there; the top always is -/
def isDirectory (t : FileTree) (place : Location) : Bool := place.isEmpty || t.directories.contains place

/-- go one step down, or up -/
def enter (t : FileTree) (place : Location) (name : String) : Except FileFault Location :=
  if name = "." then .ok place
  else if name = ".." then .ok place.dropLast
  else if nameLimit < name.utf8ByteSize then .error .nameTooLong
  else
    let below := place ++ [name]
    if t.isDirectory below then .ok below
    else if (t.files.lookup below).isSome then .error .notDirectory
    else .error .notFound

/-- the location that a path names, in a directory that is there, and whether the path ends in a slash -/
def locate (t : FileTree) (path : String) : Except FileFault (Location × Bool) := do
  if path.toList.contains '\x00' then throw .zeroInName
  if pathLimit < path.utf8ByteSize then throw .nameTooLong
  if path = "" then throw .notFound
  let start := if Path.isAbsolute path then [] else t.home
  let names := (Path.parts path).filter (· ≠ "")
  let closed := path.toList.getLast? = some '/'
  match names.getLast? with
  | none => return (start, closed)
  | some last =>
    let parent ← names.dropLast.foldlM t.enter start
    if last = "." || last = ".." then return (← t.enter parent last, closed)
    else return (parent ++ [last], closed)

/-- whether the last name of a location is too long -/
def isTooLong (place : Location) : Bool := place.getLast?.any fun name => nameLimit < name.utf8ByteSize

/-- the text of the file that a path names -/
def read (t : FileTree) (path : String) : Except FileFault String := do
  let (place, closed) ← t.locate path
  if isTooLong place then throw .nameTooLong
  if t.isDirectory place then throw .isDirectory
  match t.files.lookup place with
  | none => throw .notFound
  | some text => if closed then throw .notDirectory else return text

/-- the texts of files with one of them set -/
def setFile (place : Location) (text : String) : List (Location × String) → List (Location × String)
  | [] => [(place, text)]
  | file :: rest => if file.1 = place then (place, text) :: rest else file :: setFile place text rest

/-- the tree after a text was written to a path, if it can be -/
def write (t : FileTree) (path text : String) : Except FileFault FileTree := do
  let (place, closed) ← t.locate path
  if closed || t.isDirectory place then throw .isDirectory
  if isTooLong place then throw .nameTooLong
  return { t with files := setFile place text t.files }

/-- put a file at a path below the home directory, with the directories that lead to it -/
def withFile (t : FileTree) (path text : String) : FileTree :=
  let names := t.home ++ (Path.parts path).filter fun part => part ≠ "" && part ≠ "."
  { t with
    directories := t.directories ++ (List.range names.length).map names.take
    files := setFile names text t.files }

/-- a tree with a home directory and some files in it -/
def ofFiles (home : Location) (files : List (String × String)) : FileTree :=
  files.foldl (fun t f => t.withFile f.1 f.2) ⟨home, (List.range (home.length + 1)).map home.take, []⟩

/-- reading and writing in a tree, in which a text that cannot be written leaves everything as it was -/
def ops : FileOps (StateM FileTree) where
  read path := do return (← get).read path
  write path text := do
    match (← get).write path text with
    | .ok t =>
      set t
      return .ok ()
    | .error e => return .error e

/-- the files below the home directory that another tree does not have with the same text -/
def newFiles (t old : FileTree) : List (String × String) :=
  (t.files.filter fun f => t.home.isPrefixOf f.1 && old.files.lookup f.1 ≠ some f.2).map fun f =>
    ("/".intercalate (f.1.drop t.home.length), f.2)

end FileTree

end HeaderModel
