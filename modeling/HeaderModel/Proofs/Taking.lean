/-
Taking declarations from files.

Which elements are taken, and from which units, does not depend on the builder. What two builders at the ends of a build
have to do with each other may depend on what was taken between them. If such a relation adds up, it is enough to show it
for one element.
- `take_stays`: taking an element leaves the builder in the unit that it reads.
- `Accounts.allFiles`, `Accounts.model`: a relation that adds up, and that holds of every element, holds of the whole
  build. If the build stops, it holds of what was taken until then (`Accounts.allFiles_accounted`).
-/
import HeaderModel.Proofs.Indexing
import HeaderModel.Proofs.Requests

namespace HeaderModel

/-! ## Elements that are taken -/

namespace Headers

/-- the elements that are taken from a file -/
def takenFrom (h : Headers) (f : String × List NodeId) : List NodeId :=
  match h.document.unitOfFile f.1 with
  | .error _ => []
  | .ok unit =>
    if h.scope.hasUnit unit then
      match h.scope.coverage? unit with
      | none => []
      | some coverage => f.2.filter fun i => Build.isTaken h.document coverage (h.document.node i)
    else []

/-- the elements that are taken, in order -/
def taken (h : Headers) : List NodeId := h.document.files.flatMap h.takenFrom

/-- the elements that are taken from a file, each with the unit of the file -/
def visitsFrom (h : Headers) (f : String × List NodeId) : List (String × NodeId) :=
  match h.document.unitOfFile f.1 with
  | .error _ => []
  | .ok unit => (h.takenFrom f).map fun i => (unit, i)

/-- the elements that are taken, in order, each with the unit from which it is taken -/
def visits (h : Headers) : List (String × NodeId) := h.document.files.flatMap h.visitsFrom

theorem map_snd_visitsFrom (h : Headers) (f : String × List NodeId) : (h.visitsFrom f).map (·.2) = h.takenFrom f := by
  unfold visitsFrom
  cases hunit : h.document.unitOfFile f.1 with
  | error e => simp [takenFrom, hunit]
  | ok unit =>
    rw [List.map_map]
    exact List.map_id _

theorem map_snd_visits (h : Headers) : h.visits.map (·.2) = h.taken := by
  rw [visits, taken, List.map_flatMap]
  exact congrArg (List.flatMap · h.document.files) (funext h.map_snd_visitsFrom)

theorem mem_taken_of_mem_visits {h : Headers} {v : String × NodeId} (hv : v ∈ h.visits) : v.2 ∈ h.taken := by
  rw [← map_snd_visits]
  exact List.mem_map_of_mem hv

theorem takenFrom_sublist (h : Headers) (f : String × List NodeId) : (h.takenFrom f).Sublist f.2 := by
  unfold takenFrom
  split
  · exact List.nil_sublist _
  · split_ifs
    · split
      · exact List.nil_sublist _
      · exact List.filter_sublist
    · exact List.nil_sublist _

theorem taken_sublist (h : Headers) : h.taken.Sublist h.document.listed := by
  unfold taken Document.listed
  induction h.document.files with
  | nil => exact .refl _
  | cons f files ih =>
    rw [List.flatMap_cons, List.flatMap_cons]
    exact (h.takenFrom_sublist f).append ih

theorem placed_of_mem_visits {h : Headers} (hd : h.document.Indexed) {v : String × NodeId} (hv : v ∈ h.visits) :
    h.document.Placed v.2 := hd.placed_of_listed (h.taken_sublist.subset (mem_taken_of_mem_visits hv))

end Headers

/-! ## Reading a unit -/

namespace Builder

/-- the builder reads a unit of its module -/
def Reads (c : Builder) (slot : Nat) : Prop := c.current = some slot ∧ slot < c.module.units.length

/-- the builder reads the unit with a name, at some place of its module -/
def ReadsUnit (c : Builder) (slot : Nat) (unit : String) : Prop :=
  c.current = some slot ∧ c.module.keyAt slot = some (Text.asciiLower unit)

/-- a builder reads where another one does, and all units are called as they are there -/
structure Stays (b c : Builder) : Prop where
  current : c.current = b.current
  keys : c.module.keyAt = b.module.keyAt

end Builder

section Reads

variable {h : Headers} {b c d : Builder} {slot : Nat} {unit : String}

theorem Builder.ReadsUnit.reads (hc : c.ReadsUnit slot unit) : c.Reads slot :=
  ⟨hc.1, Module.isSome_keyAt.1 (Option.isSome_of_eq_some hc.2)⟩

theorem Builder.Stays.readsUnit (hbc : b.Stays c) (hb : b.ReadsUnit slot unit) : c.ReadsUnit slot unit :=
  ⟨hbc.current.trans hb.1, hbc.keys ▸ hb.2⟩

theorem Builder.Stays.reads (hbc : b.Stays c) (hb : b.Reads slot) : c.Reads slot := by
  refine ⟨hbc.current.trans hb.1, ?_⟩
  rw [← Module.isSome_keyAt, hbc.keys]
  exact Module.isSome_keyAt.2 hb.2

theorem Builder.Stays.trans (hbc : b.Stays c) (hcd : c.Stays d) : b.Stays d :=
  ⟨hcd.current.trans hbc.current, hcd.keys.trans hbc.keys⟩

theorem Builder.Grows.stays (hg : b.Grows c) : b.Stays c := by
  obtain ⟨es, hes, -⟩ := hg.module
  refine ⟨hg.current, ?_⟩
  rw [hes, Module.keyAt_adding]

theorem Builder.stays_adding (c : Builder) (slot : Nat) (entry : Entry) : c.Stays (c.adding slot entry) :=
  ⟨rfl, Module.keyAt_add ..⟩

theorem Builder.Reads.adding (hc : c.Reads slot) (unit : Nat) (entry : Entry) : (c.adding unit entry).Reads slot :=
  (c.stays_adding unit entry).reads hc

theorem declaration_stays (hc : Settled h c) (i : NodeId) : c.Stays (c.run (Build.declaration h i)).2 := by
  rcases Build.declaration_cases h i with ⟨-, heq⟩ | ⟨-, heq⟩ | ⟨-, ⟨f, hf⟩, -⟩
  · rw [heq, Builder.run_map]
    exact (Build.aggregate_recounts i c hc.aggregatesSound).2.1.stays
  · rw [heq, Builder.run_map]
    exact (Build.interface_recounts i c hc.interfacesSound).2.1.stays
  · rw [hf]
    exact ⟨rfl, rfl⟩

theorem declaration_reads (hc : Settled h c) (hreads : c.Reads slot) (i : NodeId) :
    (c.run (Build.declaration h i)).2.Reads slot := (declaration_stays hc i).reads hreads

/-- taking an element leaves the builder in its unit -/
theorem take_stays (hc : Settled h c) (slot : Nat) (unit : String) (i : NodeId) :
    c.Stays (c.run (Build.take h slot unit i)).2 := by
  have hdeclared := declaration_stays hc i
  rw [Build.run_take]
  generalize c.run (Build.declaration h i) = p at hdeclared
  obtain ⟨e | _ | d, c'⟩ := p
  · dsimp only
    split_ifs
    · exact hdeclared
    · exact ⟨hdeclared.current, hdeclared.keys⟩
  · exact hdeclared
  · exact hdeclared.trans (c'.stays_adding slot _)

end Reads

/-! ## Accounts of a whole build -/

/-- a relation between a builder and a later one, with what was taken between them, that adds up along a build -/
structure Accounts (h : Headers) (P : Builder → Builder → List (String × NodeId) → Prop) : Prop where
  still : ∀ b c, Settled h b → Builder.SameWork b c → c.enumCounts = b.enumCounts → b.module.Opened c.module → P b c []
  trans : ∀ b c d vs ws, P b c vs → P c d ws → P b d (vs ++ ws)
  take : ∀ slot unit i c, (unit, i) ∈ h.visits → Settled h c → c.ReadsUnit slot unit →
    P c (c.run (Build.take h slot unit i)).2 [(unit, i)]

/-- a run has an account of all that is to be taken, or of the first part of it if it stops -/
def Accounted (P : Builder → Builder → List (String × NodeId) → Prop) (c : Builder)
    (p : Except BuildError PUnit × Builder) (visits : List (String × NodeId)) : Prop :=
  ∃ vs, P c p.2 vs ∧ vs <+: visits ∧ (p.1 = .ok ⟨⟩ → vs = visits)

section Accounted

variable {P : Builder → Builder → List (String × NodeId) → Prop} {c d : Builder} {p : Except BuildError PUnit × Builder}
  {vs ws : List (String × NodeId)}

theorem Accounted.all (hP : P c p.2 vs) : Accounted P c p vs := ⟨vs, hP, List.prefix_refl _, fun _ => rfl⟩

/-- something was taken before -/
theorem Accounted.after (hd : Accounted P d p ws) (hP : ∀ us, P d p.2 us → P c p.2 (vs ++ us)) :
    Accounted P c p (vs ++ ws) := by
  obtain ⟨us, hus, hfirst, hall⟩ := hd
  exact ⟨vs ++ us, hP us hus, (List.prefix_append_right_inj vs).2 hfirst, fun hok => congrArg (vs ++ ·) (hall hok)⟩

end Accounted

namespace Accounts

variable {h : Headers} {P : Builder → Builder → List (String × NodeId) → Prop} {c : Builder}

/-- the accounts of the rounds of a loop add up -/
theorem forM {ι : Type} {f : ι → Build PUnit} {t : ι → List (String × NodeId)} {I : Builder → Prop} {xs : List ι}
    (hP : Accounts h P) (hI : ∀ c, I c → Settled h c)
    (hf : ∀ x ∈ xs, ∀ c, I c → Accounted P c (c.run (f x)) (t x) ∧ I (c.run (f x)).2) (hc : I c) :
    Accounted P c (c.run (xs.forM f)) (xs.flatMap t) := by
  induction xs generalizing c with
  | nil => exact .all (hP.still c c (hI c hc) ⟨rfl, rfl, rfl, rfl⟩ rfl (.inl rfl))
  | cons x xs ih =>
    have hcons : (x :: xs).forM f = f x >>= fun _ => xs.forM f := rfl
    obtain ⟨⟨vs, hvs, hfirst, hall⟩, hc'⟩ := hf x List.mem_cons_self c hc
    have hrest := ih (fun y hy => hf y (List.mem_cons_of_mem x hy)) hc'
    rw [hcons, Builder.run_bind, List.flatMap_cons]
    generalize c.run (f x) = p at hvs hall hrest
    obtain ⟨e | _, d⟩ := p
    · exact ⟨vs, hvs, hfirst.trans (List.prefix_append ..), nofun⟩
    · obtain rfl := hall rfl
      exact hrest.after fun ws hws => hP.trans _ _ _ _ _ hvs hws

theorem file (hP : Accounts h P) {f : String × List NodeId} (hf : f ∈ h.document.files) (hc : Settled h c) :
    Accounted P c (c.run (Build.file h f.1 f.2)) (h.visitsFrom f) := by
  have hstill : P c c [] := hP.still c c hc ⟨rfl, rfl, rfl, rfl⟩ rfl (.inl rfl)
  have hvisits : ∀ v ∈ h.visitsFrom f, v ∈ h.visits := fun v hv => List.mem_flatMap.2 ⟨f, hf, hv⟩
  unfold Build.file Headers.visitsFrom Headers.takenFrom at *
  rw [Builder.run_bind, Builder.run_of]
  cases hunit : h.document.unitOfFile f.1 with
  | error e => exact .all hstill
  | ok unit =>
    simp only [hunit] at hvisits
    dsimp only
    by_cases hscope : h.scope.hasUnit unit
    · simp only [hscope, if_true] at hvisits ⊢
      cases hcoverage : h.scope.coverage? unit with
      | none => exact .all hstill
      | some coverage =>
        simp only [hcoverage] at hvisits
        dsimp only
        rw [Builder.run_bind, Builder.run_openUnit, List.map_eq_flatMap]
        obtain ⟨-, hkey⟩ := Module.located_withUnit c.module unit
        have hopen : Settled h (c.opening unit) := hc.sameWork ⟨rfl, rfl, rfl, rfl⟩
        have hopened : P c (c.opening unit) [] := hP.still c _ hc ⟨rfl, rfl, rfl, rfl⟩ rfl (.inr ⟨unit, rfl⟩)
        have hrounds := hP.forM (I := fun d => Settled h d ∧ d.ReadsUnit (c.module.withUnit unit).1 unit)
          (f := Build.take h (c.module.withUnit unit).1 unit) (t := fun i => [(unit, i)]) (fun _ hd => hd.1)
          (fun i hi d hd => ⟨.all (hP.take _ unit i d (hvisits _ (List.mem_map_of_mem hi)) hd.1 hd.2),
            settled_take _ unit i d hd.1, (take_stays hd.1 _ unit i).readsUnit hd.2⟩) ⟨hopen, rfl, hkey⟩
        have hall := hrounds.after fun ws hws => hP.trans _ _ _ _ _ hopened hws
        exact hall
    · simp only [hscope]
      exact .all hstill

/-- **A relation that adds up holds of the whole build,** and of what was taken until then if the build stops. -/
theorem allFiles_accounted (hP : Accounts h P) (hc : Settled h c) :
    Accounted P c (c.run (Build.allFiles h)) h.visits := by
  have hrounds : Accounted P c (c.run (h.document.files.forM fun f => Build.file h f.1 f.2)) h.visits :=
    hP.forM (I := Settled h) (fun _ hd => hd)
      (fun f hf d hd' => ⟨hP.file hf hd', settled_file f.1 f.2 d hd'⟩) hc
  have hsettled : Settled h (c.run (h.document.files.forM fun f => Build.file h f.1 f.2)).2 :=
    Build.Keeps.forM (fun f _ => settled_file f.1 f.2) c hc
  rw [Build.allFiles, Builder.run_bind]
  generalize c.run (h.document.files.forM fun f => Build.file h f.1 f.2) = p at hrounds hsettled
  obtain ⟨e | _, d⟩ := p
  · exact hrounds
  · obtain ⟨vs, hvs, -, hall⟩ := hrounds
    obtain rfl := hall rfl
    have hclosed := hP.still d { d with current := none } hsettled ⟨rfl, rfl, rfl, rfl⟩ rfl (.inl rfl)
    have hlast := hP.trans _ _ _ _ _ hvs hclosed
    rw [List.append_nil] at hlast
    exact .all hlast

theorem allFiles (hP : Accounts h P) (hc : Settled h c) (hrun : (c.run (Build.allFiles h)).1 = .ok ⟨⟩) :
    P c (c.run (Build.allFiles h)).2 h.visits := by
  obtain ⟨vs, hvs, -, hall⟩ := hP.allFiles_accounted hc
  rwa [hall hrun] at hvs

/-- so it holds between a new builder and the one that has built the model -/
theorem model {m M : Module} (hP : Accounts h P) (hM : (h.model m).1 = .ok M) :
    ∃ c, (Builder.new m).run (Build.allFiles h) = (.ok ⟨⟩, c) ∧ P (.new m) c h.visits ∧ Settled h c ∧ c.module = M := by
  have haccount := hP.allFiles (settled_new h m)
  have hsettled := settled_allFiles (.new m) (settled_new h m)
  unfold Headers.model at hM
  generalize (Builder.new m).run (Build.allFiles h) = p at hM haccount hsettled ⊢
  obtain ⟨e | _, c⟩ := p
  · cases hM
  · exact ⟨c, rfl, haccount rfl, hsettled, Except.ok.inj hM⟩

end Accounts

end HeaderModel
