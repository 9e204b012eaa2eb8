/-
What taking an element comes to.

Whether the declaration of an element succeeds, fails, or comes to nothing is a matter of the element and not of what was
built before. So a fresh builder tells in advance which elements will be declared, and where building a module will stop.
- `declaration_some`, `declaration_none`: an element is declared by its kind, and comes to nothing by its kind or because
  it is a GUID that cannot be read.
- `declaration_agreeing`: a builder with a history fails where a fresh one does, with the same error.
- `model_error_iff`: building a module fails with the first fault of the document, and with none if there is no fault.
-/
import HeaderModel.Proofs.Turns

namespace HeaderModel

/-! ## Elements that declare something -/

/-- whether an element is of a kind that declares something -/
def Node.isDeclaring (n : Node) : Bool :=
  match n.kind with
  | .enumeration | .classType | .structType | .unionType => true
  | .function => !n.hasAttr "inline"
  | .variableDecl => n.hasAttr "init"
  | _ => false

/-- a declaration is of the sort that its element asks for -/
def Node.Fits (n : Node) : Declaration → Prop
  | .enumeration _ => n.kind = .enumeration
  | .function _ => n.kind = .function ∧ n.hasAttr "inline" = false
  | .interface _ => (n.kind = .classType ∨ n.kind = .structType) ∧ n.hasAttr "abstract" = true
  | .aggregate _ => n.kind = .unionType ∨ (n.kind = .classType ∨ n.kind = .structType) ∧ n.hasAttr "abstract" = false
  | .constant _ | .guid _ => n.kind = .variableDecl ∧ n.hasAttr "init" = true
  | .definition _ => False

/-- whether an element is a GUID whose initializer spells none -/
def Headers.isUnreadableGuid (h : Headers) (n : Node) : Bool :=
  n.kind = .variableDecl && n.hasAttr "init" &&
    ((n.need "type").bind (h.document.endOf h.scope.boundNames)).toOption.any (·.name = Build.guidTypeName) &&
    (Guid.ofInitializer? ((n.attr? "init").getD "")).isNone

section Declarations

variable {h : Headers} {c : Builder} {i : NodeId}

theorem Node.Fits.isDeclaring {n : Node} {decl : Declaration} (hfits : n.Fits decl) : n.isDeclaring = true := by
  unfold Node.isDeclaring
  cases decl with
  | enumeration e =>
    have hkind : n.kind = .enumeration := hfits
    simp [hkind]
  | function f =>
    obtain ⟨hkind, hinline⟩ := hfits
    simp [hkind, hinline]
  | interface a =>
    obtain ⟨hkind | hkind, -⟩ := hfits
    · simp [hkind]
    · simp [hkind]
  | aggregate a =>
    obtain hkind | ⟨hkind | hkind, -⟩ := hfits
    · simp [hkind]
    · simp [hkind]
    · simp [hkind]
  | constant _ | guid _ =>
    obtain ⟨hkind, hinit⟩ := hfits
    simp [hkind, hinit]
  | definition d => exact hfits.elim

/-- what an initialized variable comes to, if it does not fail -/
theorem initialized_ok {n : Node} {r : Option Declaration} (hrun : (c.run (Build.initialized h n)).1 = .ok r) :
    ∃ terminal, (n.need "type").bind (h.document.endOf h.scope.boundNames) = .ok terminal ∧
      r = if terminal.name = Build.guidTypeName then
          (Guid.ofInitializer? ((n.attr? "init").getD "")).map
            fun guid => .guid ⟨Text.dropEnding Build.variableEnding n.name, guid⟩
        else some (.constant ⟨Text.dropEnding Build.variableEnding n.name, terminal.name,
          initializerValue ((n.attr? "init").getD "")⟩) := by
  unfold Build.initialized Build.typeNameOf at hrun
  obtain ⟨id, hid, hrest⟩ := Builder.run_bind_eq_ok.1 hrun
  obtain ⟨typeName, hname, hrest⟩ := Builder.run_bind_eq_ok.1 hrest
  obtain ⟨terminal, hend, hname⟩ := Builder.run_bind_eq_ok.1 hname
  obtain ⟨_, -, hname⟩ := Builder.run_bind_eq_ok.1 hname
  rw [Builder.run_of] at hid hend
  obtain rfl := Except.ok.inj hname
  have hneed : n.need "type" = .ok id := hid
  refine ⟨terminal, by rw [hneed]; exact hend, ?_⟩
  dsimp only at hrest
  split_ifs at hrest ⊢
  · split at hrest
    · rename_i guid hread
      rw [hread]
      exact (Except.ok.inj hrest).symm
    · rename_i hread
      obtain ⟨_, -, hnone⟩ := Builder.run_bind_eq_ok.1 hrest
      rw [hread]
      exact (Except.ok.inj hnone).symm
  · exact (Except.ok.inj hrest).symm

/-- an initialized variable is declared unless it is a GUID that cannot be read -/
theorem isUnreadableGuid_eq {n : Node} (hkind : n.kind = .variableDecl) (hinit : n.hasAttr "init" = true)
    {r : Option Declaration} (hrun : (c.run (Build.initialized h n)).1 = .ok r) :
    h.isUnreadableGuid n = r.isNone := by
  obtain ⟨terminal, hend, rfl⟩ := initialized_ok hrun
  unfold Headers.isUnreadableGuid
  rw [hend]
  by_cases hguid : terminal.name = Build.guidTypeName
  · simp [hkind, hinit, hguid, Except.toOption]
  · simp [hkind, hinit, hguid, Except.toOption]

/-- an element that is declared is of a kind to be, and no GUID that cannot be read -/
theorem declaration_some {decl : Declaration} (hrun : (c.run (Build.declaration h i)).1 = .ok (some decl)) :
    (h.document.node i).Fits decl ∧ h.isUnreadableGuid (h.document.node i) = false := by
  unfold Build.declaration at hrun
  dsimp only at hrun
  have hother : (h.document.node i).kind ≠ .variableDecl → h.isUnreadableGuid (h.document.node i) = false := by
    intro hkind
    simp [Headers.isUnreadableGuid, hkind]
  cases hkind : (h.document.node i).kind with
  | enumeration =>
    rw [hkind] at hrun
    obtain ⟨e, -, hpure⟩ := Builder.run_bind_eq_ok.1 hrun
    obtain rfl := Option.some.inj (Except.ok.inj hpure)
    exact ⟨hkind, hother (by simp [hkind])⟩
  | function =>
    rw [hkind] at hrun
    dsimp only at hrun
    split_ifs at hrun with hinline
    · cases hrun
    · obtain ⟨f, -, hpure⟩ := Builder.run_bind_eq_ok.1 hrun
      obtain rfl := Option.some.inj (Except.ok.inj hpure)
      exact ⟨⟨hkind, Bool.eq_false_of_not_eq_true hinline⟩, hother (by simp [hkind])⟩
  | classType | structType =>
    rw [hkind] at hrun
    dsimp only at hrun
    split_ifs at hrun with habstract
    · obtain ⟨a, -, hpure⟩ := Builder.run_bind_eq_ok.1 hrun
      obtain rfl := Option.some.inj (Except.ok.inj hpure)
      exact ⟨⟨by simp [hkind], habstract⟩, hother (by simp [hkind])⟩
    · obtain ⟨a, -, hpure⟩ := Builder.run_bind_eq_ok.1 hrun
      obtain rfl := Option.some.inj (Except.ok.inj hpure)
      exact ⟨.inr ⟨by simp [hkind], Bool.eq_false_of_not_eq_true habstract⟩, hother (by simp [hkind])⟩
  | unionType =>
    rw [hkind] at hrun
    obtain ⟨a, -, hpure⟩ := Builder.run_bind_eq_ok.1 hrun
    obtain rfl := Option.some.inj (Except.ok.inj hpure)
    exact ⟨.inl hkind, hother (by simp [hkind])⟩
  | variableDecl =>
    rw [hkind] at hrun
    dsimp only at hrun
    split_ifs at hrun with hinit
    · refine ⟨?_, isUnreadableGuid_eq hkind hinit hrun⟩
      obtain ⟨terminal, -, hsome⟩ := initialized_ok hrun
      split_ifs at hsome
      · obtain ⟨guid, -, rfl⟩ := Option.map_eq_some_iff.1 hsome.symm
        exact ⟨hkind, hinit⟩
      · obtain rfl := Option.some.inj hsome
        exact ⟨hkind, hinit⟩
    · cases hrun
  | _ =>
    rw [hkind] at hrun
    cases hrun

/-- an element that comes to nothing is of a kind to do so, or a GUID that cannot be read -/
theorem declaration_none (hrun : (c.run (Build.declaration h i)).1 = .ok none) :
    (h.document.node i).isDeclaring = false ∨ h.isUnreadableGuid (h.document.node i) = true := by
  unfold Build.declaration at hrun
  dsimp only at hrun
  cases hkind : (h.document.node i).kind with
  | enumeration | unionType =>
    rw [hkind] at hrun
    obtain ⟨_, -, hpure⟩ := Builder.run_bind_eq_ok.1 hrun
    cases hpure
  | function =>
    rw [hkind] at hrun
    dsimp only at hrun
    split_ifs at hrun with hinline
    · exact .inl (by simp [Node.isDeclaring, hkind, hinline])
    · obtain ⟨_, -, hpure⟩ := Builder.run_bind_eq_ok.1 hrun
      cases hpure
  | classType | structType =>
    rw [hkind] at hrun
    dsimp only at hrun
    split_ifs at hrun
    all_goals
      obtain ⟨_, -, hpure⟩ := Builder.run_bind_eq_ok.1 hrun
      cases hpure
  | variableDecl =>
    rw [hkind] at hrun
    dsimp only at hrun
    split_ifs at hrun with hinit
    · exact .inr (isUnreadableGuid_eq hkind hinit hrun)
    · exact .inl (by simp [Node.isDeclaring, hkind, hinit])
  | _ => exact .inl (by simp [Node.isDeclaring, hkind])

end Declarations

/-! ## Failing as a fresh builder does -/

/-- what a fresh builder makes of an element -/
def Headers.answer (h : Headers) (i : NodeId) : Except BuildError (Option Declaration) :=
  ((Builder.new (.empty "")).run (Build.declaration h i)).1

/-- whether an element is declared: it is of a kind to be, a fresh builder does not fail on it, and it is no GUID that
cannot be read -/
def Headers.declares (h : Headers) (i : NodeId) : Bool :=
  (h.document.node i).isDeclaring && (h.answer i).isOk && !h.isUnreadableGuid (h.document.node i)

section Answers

variable {h : Headers} {c b : Builder} {i : NodeId}

theorem Build.Steady.agreeing {α : Type} {x : Build α} (hx : Build.Steady x) (c b : Builder) :
    Agreeing (fun _ _ => True) (c.run x).1 (b.run x).1 := by
  obtain ⟨r, ns, hx⟩ := hx
  rw [hx, hx]
  cases r with
  | ok a => trivial
  | error e => rfl

theorem Agreeing.map {α β : Type} {Q : α → α → Prop} {x y : Except BuildError α} (hxy : Agreeing Q x y) (f : α → β) :
    Agreeing (fun _ _ => True) (x.map f) (y.map f) := by
  rcases x with e | a <;> rcases y with e' | a'
  · exact hxy
  · exact hxy.elim
  · exact hxy.elim
  · trivial

/-- the number of a nameless enumeration has no part in whether there is one -/
theorem enumeration_agreeing (n : Node) (c b : Builder) :
    Agreeing (fun _ _ => True) (c.run (Build.enumeration h n)).1 (b.run (Build.enumeration h n)).1 := by
  unfold Build.enumeration Build.numberedName
  split_ifs
  · simp only [Builder.run_bind, Builder.run_of]
    cases n.need "file" with
    | error e => rfl
    | ok file =>
      dsimp only
      cases h.document.unitOfFile file with
      | error e => rfl
      | ok unit => trivial
  · trivial

/-- **A builder with a history fails on an element where a fresh one does,** with the same error. -/
theorem declaration_agreeing (hc : Settled h c) (i : NodeId) :
    Agreeing (fun _ _ => True) (c.run (Build.declaration h i)).1 (h.answer i) := by
  unfold Headers.answer
  rcases Build.declaration_cases h i with ⟨-, heq⟩ | ⟨-, heq⟩ | ⟨hother, -, -⟩
  · have hagree := aggregate_inStep h i c (.new (.empty "")) c (.new (.empty "")) ⟨hc.aggregatesLead_new _, .refl _ _ _⟩
    rw [heq, Builder.run_map, Builder.run_map]
    dsimp only
    exact hagree.agreeing.map _
  · have hagree := interface_inStep h i c (.new (.empty "")) (hc.interfacesLead_new _)
    rw [heq, Builder.run_map, Builder.run_map]
    dsimp only
    exact hagree.agreeing.map _
  · unfold Build.declaration
    dsimp only
    cases hkind : (h.document.node i).kind with
    | classType | structType | unionType =>
      rw [hkind] at hother
      cases hother
    | enumeration =>
      have hagree := enumeration_agreeing (h := h) (h.document.node i) c (.new (.empty ""))
      simp only [bind_pure_comp, Builder.run_map]
      exact hagree.map _
    | function =>
      dsimp only
      split_ifs
      · trivial
      · exact ((Build.steady_signature h _).bind fun _ => Build.steady_pure _).agreeing c _
    | variableDecl =>
      dsimp only
      split_ifs
      · exact (Build.steady_initialized h _).agreeing c _
      · trivial
    | _ => trivial

/-- an element is declared once if it is declared by a fresh builder, and not at all otherwise -/
theorem length_declarationsOf (hc : Settled h c) (i : NodeId) :
    (declarationsOf (c.run (Build.declaration h i)).1).length = if h.declares i then 1 else 0 := by
  have hagree := declaration_agreeing hc i
  have hsome : ∀ decl, (c.run (Build.declaration h i)).1 = .ok (some decl) →
      (h.document.node i).Fits decl ∧ h.isUnreadableGuid (h.document.node i) = false := fun _ => declaration_some
  have hnone := declaration_none (h := h) (c := c) (i := i)
  generalize (c.run (Build.declaration h i)).1 = r at hagree hsome hnone
  unfold Headers.declares
  generalize h.answer i = answer at hagree
  rcases r with e | _ | decl
  · cases answer with
    | error e' => simp [declarationsOf, Except.isOk, Except.toBool]
    | ok o => exact hagree.elim
  · rcases hnone rfl with hkind | hguid
    · simp [declarationsOf, hkind]
    · simp [declarationsOf, hguid]
  · obtain ⟨hfits, hguid⟩ := hsome decl rfl
    cases answer with
    | error e' => exact hagree.elim
    | ok o => simp [declarationsOf, hfits.isDeclaring, hguid, Except.isOk, Except.toBool]

end Answers

/-! ## Faults -/

namespace Headers

/-- the error of an element that would end the run -/
def fault? (h : Headers) (i : NodeId) : Option BuildError :=
  match h.answer i with
  | .error e => if e.endsRun then some e else none
  | .ok _ => none

/-- the errors of a file that would end the run, in order: it is not an element, or elements that are taken from it
fail -/
def faultsFrom (h : Headers) (f : String × List NodeId) : List BuildError :=
  match h.document.placeOf f.1 with
  | .error e => [e]
  | .ok _ => (h.takenFrom f).filterMap h.fault?

/-- the errors that would end the run, in the order in which they are met -/
def faults (h : Headers) : List BuildError := h.document.files.flatMap h.faultsFrom

end Headers

/-- a run ends with the first of some errors -/
def stopAtFirst (faults : List BuildError) : Except BuildError PUnit :=
  match faults with
  | [] => .ok ⟨⟩
  | e :: _ => .error e

section Faults

variable {h : Headers} {c : Builder}

theorem stopAtFirst_append (es fs : List BuildError) :
    stopAtFirst (es ++ fs) = match stopAtFirst es with
      | .ok _ => stopAtFirst fs
      | .error e => .error e := by
  cases es <;> rfl

/-- a loop ends with the first error of its rounds -/
theorem forM_stops {ι : Type} {f : ι → Build PUnit} {faults : ι → List BuildError} {I : Builder → Prop} {xs : List ι}
    (hf : ∀ x ∈ xs, ∀ c, I c → (c.run (f x)).1 = stopAtFirst (faults x) ∧ I (c.run (f x)).2) (hc : I c) :
    (c.run (xs.forM f)).1 = stopAtFirst (xs.flatMap faults) := by
  induction xs generalizing c with
  | nil => rfl
  | cons x xs ih =>
    obtain ⟨hx, hc'⟩ := hf x List.mem_cons_self c hc
    have hrest := ih (fun y hy => hf y (List.mem_cons_of_mem x hy)) hc'
    have hcons : (x :: xs).forM f = f x >>= fun _ => xs.forM f := rfl
    rw [hcons, Builder.run_bind, List.flatMap_cons, stopAtFirst_append, ← hx]
    generalize c.run (f x) = p at hrest
    obtain ⟨e | _, d⟩ := p
    · rfl
    · exact hrest

/-- taking an element ends with its fault, if it has one -/
theorem take_stops (hc : Settled h c) (slot : Nat) (unit : String) (i : NodeId) :
    (c.run (Build.take h slot unit i)).1 = stopAtFirst (h.fault? i).toList := by
  have hagree := declaration_agreeing hc i
  rw [Build.run_take]
  unfold Headers.fault?
  generalize c.run (Build.declaration h i) = p, h.answer i = answer at hagree
  rcases p with ⟨e | _ | decl, d⟩
  · cases answer with
    | ok o => exact hagree.elim
    | error e' =>
      obtain rfl : e = e' := hagree
      dsimp only
      split_ifs <;> rfl
  · cases answer with
    | ok o => rfl
    | error e' => exact hagree.elim
  · cases answer with
    | ok o => rfl
    | error e' => exact hagree.elim

/-- taking the elements of a file ends with the first fault of the file -/
theorem file_stops (hc : Settled h c) (f : String × List NodeId) :
    (c.run (Build.file h f.1 f.2)).1 = stopAtFirst (h.faultsFrom f) := by
  unfold Build.file Headers.faultsFrom Headers.takenFrom Document.unitOfFile Document.element
  rw [Builder.run_bind, Builder.run_of]
  cases h.document.placeOf f.1 with
  | error e => rfl
  | ok p =>
    show (c.run _).1 = _
    dsimp only [Except.map]
    split_ifs
    · cases h.scope.coverage? (unitName (h.document.node p).name) with
      | none => rfl
      | some coverage =>
        dsimp only
        rw [Builder.run_bind, Builder.run_openUnit, List.filterMap_eq_flatMap_toList]
        refine forM_stops (I := Settled h) (fun i _ d hd => ⟨take_stops hd _ _ i, settled_take _ _ i d hd⟩) ?_
        exact hc.sameWork ⟨rfl, rfl, rfl, rfl⟩
    · rfl

/-- taking the declarations of all files ends with the first fault, whatever the builder did before -/
theorem allFiles_stops (hc : Settled h c) : (c.run (Build.allFiles h)).1 = stopAtFirst h.faults := by
  have hfiles : (c.run (h.document.files.forM fun f => Build.file h f.1 f.2)).1 = stopAtFirst h.faults :=
    forM_stops (I := Settled h) (fun f _ d hd => ⟨file_stops hd f, settled_file f.1 f.2 d hd⟩) hc
  rw [← hfiles, Build.allFiles, Builder.run_bind]
  rcases c.run (h.document.files.forM fun f => Build.file h f.1 f.2) with ⟨e | _, d⟩ <;> rfl

/-- **Building a module fails with the first fault,** and with none if there is no fault. -/
theorem model_error_iff (h : Headers) (m : Module) (e : BuildError) :
    (h.model m).1 = .error e ↔ h.faults.head? = some e := by
  have hall := allFiles_stops (settled_new h m)
  unfold Headers.model
  generalize (Builder.new m).run (Build.allFiles h) = p at hall
  obtain ⟨r, c⟩ := p
  obtain rfl : r = stopAtFirst h.faults := hall
  cases h.faults with
  | nil => simp [stopAtFirst, Except.map]
  | cons e' es => simp [stopAtFirst, Except.map]

theorem faults_of_model {m M : Module} (hM : (h.model m).1 = .ok M) : h.faults = [] := by
  cases hfaults : h.faults with
  | nil => rfl
  | cons e es =>
    have herr := (model_error_iff h m e).2 (congrArg List.head? hfaults)
    rw [hM] at herr
    cases herr

end Faults

end HeaderModel
