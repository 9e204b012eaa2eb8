/-
Who is blamed for a cycle.

While an element is built, the elements around it are underway, and each of them needs the ones inside it. So an element
that is reached again while it is underway needs itself. No other error speaks of a cycle.
- `Build.FailsOnly`: an action fails only with some errors and keeps a property of builders. There is one rule for every
  way of composing actions, and one lemma for every part of a body.
- `aggregateWithin_blames`, `interfaceWithin_blames`: an error that names an element as part of a cycle is right.
-/
import HeaderModel.Proofs.Fates
import HeaderModel.Proofs.TypeChains

namespace HeaderModel

variable {α β ι : Type}

namespace Document

/-- an element lists another one as a base -/
def Inherits (d : Document) (p k : NodeId) : Prop := d.ListsBase (d.node p) k

/-- An error is right about cycles: it is none of a chain that never ends, and if it names an element as part of a cycle,
the root reaches that element and it reaches itself. -/
structure Blames (d : Document) (needs : NodeId → NodeId → Prop) (root : NodeId) (e : BuildError) : Prop where
  ends : e ≠ .halted .endless
  blamed : ∀ id name, e = .cycle id name → ∃ x, (d.node x).id = id ∧ (d.node x).name = name ∧
    Relation.ReflTransGen needs root x ∧ Relation.TransGen needs x x

theorem blames_of_plain {d : Document} {needs : NodeId → NodeId → Prop} {root : NodeId} {e : BuildError}
    (he : e.isPlain = true) : d.Blames needs root e := by
  refine ⟨BuildError.ne_halted he _, fun id name h => ?_⟩
  rw [h] at he
  cases he

/-- an element that is reached again on the way needs itself -/
theorem Way.blames {d : Document} {needs : NodeId → NodeId → Prop} {root i : NodeId} {path : List NodeId} {levels : Nat}
    (hw : d.Way needs root path levels i) (hi : i ∈ path) : d.Blames needs root (Build.cycleAt (d.node i)) := by
  refine ⟨nofun, fun id name h => ⟨i, ?_, ?_, hw.reached, hw.before i hi⟩⟩
  · exact (BuildError.cycle.inj h).1
  · exact (BuildError.cycle.inj h).2

end Document

namespace Build

/-! ## Errors of actions -/

/-- an action keeps a property of builders, and when it fails, the error is one of some -/
def FailsOnly (I : Builder → Prop) (P : BuildError → Prop) (x : Build α) : Prop :=
  ∀ b, I b → I (b.run x).2 ∧ ∀ e, (b.run x).1 = .error e → P e

section Rules

variable {I : Builder → Prop} {P : BuildError → Prop}

theorem failsOnly_pure (a : α) : FailsOnly I P (pure a) := fun _ hb => ⟨hb, fun _ he => nomatch he⟩

theorem failsOnly_of {r : Except BuildError α} (hr : ∀ e, r = .error e → P e) : FailsOnly I P (of r) := by
  intro b hb
  rw [Builder.run_of]
  exact ⟨hb, hr⟩

theorem FailsOnly.bind {x : Build α} {f : α → Build β} (hx : FailsOnly I P x) (hf : ∀ a, FailsOnly I P (f a)) :
    FailsOnly I P (x >>= f) := by
  intro b hb
  obtain ⟨hc, herr⟩ := hx b hb
  rw [Builder.run_bind]
  generalize b.run x = p at hc herr
  obtain ⟨e | a, c⟩ := p
  · exact ⟨hc, fun e' he' => herr e' (congrArg Except.error (Except.error.inj he'))⟩
  · exact hf a c hc

/-- after a result that needs no state, only the results that there are matter -/
theorem FailsOnly.of_bind {r : Except BuildError α} {f : α → Build β} (hr : ∀ e, r = .error e → P e)
    (hf : ∀ a, r = .ok a → FailsOnly I P (f a)) : FailsOnly I P (of r >>= f) := by
  cases r with
  | ok a => exact hf a rfl
  | error e =>
    intro b hb
    rw [Builder.run_bind_error (Builder.run_of b _)]
    exact ⟨hb, fun e' he' => hr e' (congrArg Except.error (Except.error.inj he'))⟩

theorem FailsOnly.foldlM {f : α → ι → Build α} {xs : List ι} (hf : ∀ x ∈ xs, ∀ s, FailsOnly I P (f s x)) (s : α) :
    FailsOnly I P (xs.foldlM f s) := by
  induction xs generalizing s with
  | nil => exact failsOnly_pure s
  | cons x xs ih =>
    rw [List.foldlM_cons]
    exact (hf x List.mem_cons_self s).bind fun s' => ih (fun y hy => hf y (List.mem_cons_of_mem x hy)) s'

theorem FailsOnly.mapM {f : ι → Build α} (hf : ∀ x, FailsOnly I P (f x)) (xs : List ι) :
    FailsOnly I P (xs.mapM f) := by
  induction xs with
  | nil => exact failsOnly_pure []
  | cons x xs ih =>
    rw [List.mapM_cons]
    exact (hf x).bind fun _ => ih.bind fun _ => failsOnly_pure _

end Rules

/-! ## Errors of the parts of a body -/

/-- the property of builders survives notices and waiting entries, and among the errors that may occur are all plain ones
and those of type chains -/
structure Tolerant (h : Headers) (I : Builder → Prop) (P : BuildError → Prop) : Prop where
  kept : Indifferent I
  plain : ∀ e, e.isPlain = true → P e
  chains : ∀ typeId t e, (h.document.follow h.scope.boundNames typeId t).outcome = .error e → P e

section Parts

variable {h : Headers} {I : Builder → Prop} {P : BuildError → Prop}

theorem Tolerant.report (hI : Tolerant h I P) (ns : List Notice) : FailsOnly I P (report ns) :=
  fun b hb => ⟨hI.kept.noting b ns hb, fun _ he => nomatch he⟩

theorem Tolerant.need (hI : Tolerant h I P) (n : Node) (name : String) : FailsOnly I P (of (n.need name)) :=
  failsOnly_of fun e he => hI.plain e (Document.isPlain_of_need he)

theorem Tolerant.typeOf (hI : Tolerant h I P) (typeId : String) : FailsOnly I P (typeOf h typeId) :=
  (failsOnly_of fun e he => hI.chains typeId .empty e he).bind fun _ =>
    (hI.report _).bind fun _ => failsOnly_pure _

theorem Tolerant.meaningOf (hI : Tolerant h I P) (n : Node) : FailsOnly I P (meaningOf n) := by
  unfold Build.meaningOf
  split
  · exact failsOnly_pure _
  · exact (hI.report _).bind fun _ => failsOnly_pure _

theorem Tolerant.parameter (hI : Tolerant h I P) (position : Nat) (n : Node) :
    FailsOnly I P (parameter h position n) :=
  (hI.meaningOf n).bind fun _ => (hI.need n _).bind fun _ => (hI.typeOf _).bind fun _ => failsOnly_pure _

theorem Tolerant.signature (hI : Tolerant h I P) (n : Node) : FailsOnly I P (signature h n) :=
  (hI.meaningOf n).bind fun _ => (FailsOnly.mapM (fun _ => hI.parameter _ _) _).bind fun _ =>
    (hI.need n _).bind fun _ => (hI.typeOf _).bind fun _ => failsOnly_pure _

theorem Tolerant.guidOf (hI : Tolerant h I P) (name : String) (uuid : Option String) :
    FailsOnly I P (guidOf name uuid) := by
  unfold Build.guidOf
  split
  · exact failsOnly_pure _
  · split
    · exact failsOnly_pure _
    · exact (hI.report _).bind fun _ => failsOnly_pure _

theorem Tolerant.bitWidth (hI : Tolerant h I P) (n : Node) : FailsOnly I P (bitWidth n) := by
  unfold Build.bitWidth
  split
  · exact failsOnly_pure _
  · split_ifs
    · exact failsOnly_pure _
    · split
      · exact failsOnly_pure _
      · exact failsOnly_of (r := .error _) fun e he => hI.plain e (by cases he; rfl)

theorem Tolerant.field (hI : Tolerant h I P) (offset : Nat) (n : Node) : FailsOnly I P (field h offset n) :=
  (hI.bitWidth n).bind fun _ => (hI.need n _).bind fun _ => (hI.typeOf _).bind fun _ => failsOnly_pure _

/-! ## Errors of bodies -/

theorem failsOnly_addSlots (hover : P (.halted .overflow)) (a b : UInt32) : FailsOnly I P (addSlots a b) := by
  unfold Build.addSlots
  split_ifs
  · exact failsOnly_pure _
  · exact failsOnly_of (r := .error _) fun e he => Except.error.inj he ▸ hover

theorem Tolerant.openSlot (hI : Tolerant h I P) (hover : P (.halted .overflow)) (sofar : MethodTable) (n : Node) :
    FailsOnly I P (openSlot h sofar n) :=
  (hI.signature n).bind fun _ => (failsOnly_addSlots hover _ _).bind fun _ => failsOnly_pure _

theorem Tolerant.interfaceRest (hI : Tolerant h I P) (hover : P (.halted .overflow)) (n : Node)
    (inherited : Inherited) : FailsOnly I P (interfaceRest h n inherited) :=
  (hI.meaningOf n).bind fun _ => (hI.guidOf _ _).bind fun _ =>
    (FailsOnly.foldlM (fun n _ sofar => hI.openSlot hover sofar n) _).bind fun _ =>
      FailsOnly.bind ((failsOnly_addSlots hover _ _).bind fun _ => failsOnly_pure _) fun _ => failsOnly_pure _

theorem Tolerant.represented (hI : Tolerant h I P) (n : Node) : FailsOnly I P (of (isRepresented h n)) := by
  refine failsOnly_of fun e he => hI.plain e ?_
  unfold isRepresented at he
  dsimp only at he
  split at he
  · exact Document.isPlain_of_unitOfFile (eq_error_of_map he)
  · cases he

/-- the body of an interface fails as its parts do, or as its bases do, or as slots that do not fit -/
theorem Tolerant.interfaceBody (hI : Tolerant h I P) (hover : P (.halted .overflow)) {build : NodeId → Build Interface}
    {n : Node} (hbuild : ∀ j, h.document.ListsBase n j → FailsOnly I P (build j)) :
    FailsOnly I P (interfaceBody h build n) := by
  rw [interfaceBody_eq]
  refine (FailsOnly.foldlM (fun id hid sofar => ?_) _).bind fun inherited => hI.interfaceRest hover n inherited
  refine .of_bind (fun e he => hI.plain e (Document.isPlain_of_placeOf he)) fun j hj => ?_
  refine (hbuild j ⟨id, hid, hj⟩).bind fun parent => ?_
  have hadd := fun base => (failsOnly_addSlots (I := I) hover sofar.slots parent.slotCount).bind fun slots =>
    failsOnly_pure (⟨base, slots⟩ : Inherited)
  split
  · exact hadd _
  · exact (hI.represented _).bind fun _ => hadd _

theorem Tolerant.baseName (hI : Tolerant h I P) {build : NodeId → Option Enclosing → Build Aggregate} {n : Node}
    (hbuild : ∀ j, h.document.ListsBase n j → FailsOnly I P (build j none)) : FailsOnly I P (baseName h build n) := by
  refine FailsOnly.foldlM (fun id hid recorded => ?_) none
  refine .of_bind (fun e he => hI.plain e (Document.isPlain_of_placeOf he)) fun j hj => ?_
  exact (hbuild j ⟨id, hid, hj⟩).bind fun _ => failsOnly_pure _

theorem Tolerant.member (hI : Tolerant h I P) {build : NodeId → Option Enclosing → Build Aggregate} {owner n : Node}
    {name : String} (hn : n ∈ h.document.childrenOf owner .field)
    (hbuild : ∀ j k, h.document.Nests owner j → FailsOnly I P (build j (some ⟨name, k⟩))) (l : Layout) :
    FailsOnly I P (member h build owner name l n) := by
  refine (hI.field l.offset n).bind fun f => ?_
  refine .of_bind (fun e he => hI.plain e (Document.isPlain_of_need he)) fun typeId hid => ?_
  refine .of_bind (fun e he => hI.plain e (Document.isPlain_of_placeOf he)) fun j hj => ?_
  have hplace : h.document.typePlace n = .ok j := by
    rw [Document.typePlace, hid]
    exact hj
  split_ifs with hnest hname
  · exact (hbuild j _ ⟨n, hn, hplace, hnest⟩).bind fun _ => failsOnly_pure _
  · refine (hbuild j _ ⟨n, hn, hplace, hnest⟩).bind fun inner => ?_
    exact FailsOnly.bind (fun b hb => ⟨hI.kept.awaiting b _ hb, fun _ he => by cases he⟩) fun _ => failsOnly_pure _
  · exact failsOnly_pure _

/-- the body of an aggregate fails as its parts do, or as the elements that it needs do -/
theorem Tolerant.aggregateBody (hI : Tolerant h I P) {build : NodeId → Option Enclosing → Build Aggregate} {n : Node}
    {outer : Option Enclosing} (hbase : ∀ j, h.document.ListsBase n j → FailsOnly I P (build j none))
    (hnest : ∀ j k, h.document.Nests n j → FailsOnly I P (build j (some ⟨aggregateName n.name outer, k⟩))) :
    FailsOnly I P (aggregateBody h build n outer) :=
  (hI.baseName hbase).bind fun _ =>
    (FailsOnly.foldlM (fun _ hn l => hI.member hn hnest l) _).bind fun _ => failsOnly_pure _

end Parts

/-! ## One element -/

section Once

variable {h : Headers} {Q R : List NodeId → Prop} {P : BuildError → Prop} {i : NodeId}

/-- One round of building an aggregate fails for a cycle, or as the body does. What is assumed of the elements that are
underway holds inside again with the aggregate, and around it without. -/
theorem FailsOnly.aggregateOnce {build : NodeId → Option Enclosing → Build Aggregate} {outer : Option Enclosing}
    (hcycle : ∀ u, Q u → i ∈ u → P (cycleAt (h.document.node i))) (hin : ∀ u, Q u → R (i :: u))
    (hout : ∀ u, R u → Q (u.erase i))
    (hbody : ∀ u, Q u → i ∉ u → FailsOnly (fun b => R b.underway) P (aggregateBody h build (h.document.node i) outer)) :
    FailsOnly (fun b => Q b.underway) P (aggregateOnce h build i outer) := by
  intro b hb
  rw [Builder.run_aggregateOnce]
  cases b.aggregates.lookup i with
  | some built => exact ⟨hb, fun _ he => nomatch he⟩
  | none =>
    by_cases hi : i ∈ b.underway
    · simp only [hi, if_true]
      exact ⟨hb, fun e he => Except.error.inj he ▸ hcycle _ hb hi⟩
    · simp only [hi, if_false]
      obtain ⟨hc, herr⟩ := hbody _ hb hi (b.claiming i) (hin _ hb)
      generalize (b.claiming i).run (aggregateBody h build (h.document.node i) outer) = p at hc herr
      obtain ⟨e | built, c⟩ := p
      · exact ⟨hout _ hc, herr⟩
      · exact ⟨hout _ hc, fun _ he => nomatch he⟩

/-- one round of building an interface fails for a cycle, or as the body does -/
theorem FailsOnly.interfaceOnce {build : NodeId → Build Interface}
    (hcycle : ∀ u, Q u → i ∈ u → P (cycleAt (h.document.node i))) (hin : ∀ u, Q u → R (i :: u))
    (hout : ∀ u, R u → Q (u.erase i))
    (hbody : ∀ u, Q u → i ∉ u → FailsOnly (fun b => R b.underway) P (interfaceBody h build (h.document.node i))) :
    FailsOnly (fun b => Q b.underway) P (interfaceOnce h build i) := by
  intro b hb
  rw [Builder.run_interfaceOnce]
  cases b.interfaces.lookup i with
  | some built => exact ⟨hb, fun _ he => nomatch he⟩
  | none =>
    by_cases hi : i ∈ b.underway
    · simp only [hi, if_true]
      exact ⟨hb, fun e he => Except.error.inj he ▸ hcycle _ hb hi⟩
    · simp only [hi, if_false]
      obtain ⟨hc, herr⟩ := hbody _ hb hi (b.claiming i) (hin _ hb)
      generalize (b.claiming i).run (interfaceBody h build (h.document.node i)) = p at hc herr
      obtain ⟨e | built, c⟩ := p
      · exact ⟨hout _ hc, herr⟩
      · exact ⟨hout _ hc, fun _ he => nomatch he⟩

end Once

/-! ## Cycles -/

section Cycles

variable {h : Headers} {root i : NodeId} {path : List NodeId} {levels : Nat}

theorem tolerant_underway (hends : h.document.ChainsEnd h.scope.boundNames) (needs : NodeId → NodeId → Prop)
    (root : NodeId) (path : List NodeId) :
    Tolerant h (fun b => b.underway = path) (h.document.Blames needs root) :=
  ⟨⟨fun _ _ hb => hb, fun _ _ hb => hb⟩, fun _ => Document.blames_of_plain,
    fun _ _ _ he => Document.blames_of_plain (Document.follow_breaks hends he)⟩

/-- **An aggregate that is blamed for a cycle lies on one,** and is needed on the way. -/
theorem aggregateWithin_blames (hends : h.document.ChainsEnd h.scope.boundNames)
    (hw : h.document.Way h.document.Needs root path levels i) (outer : Option Enclosing) :
    FailsOnly (fun b => b.underway = path) (h.document.Blames h.document.Needs root)
      (aggregateWithin h levels i outer) := by
  induction levels generalizing path i outer with
  | zero => exact absurd rfl hw.nested.levels_ne_zero
  | succ levels ih =>
    rw [aggregateWithin_succ]
    refine .aggregateOnce (Q := (· = path)) (R := (· = i :: path)) ?_ ?_ ?_ ?_
    · rintro u rfl hi
      exact hw.blames hi
    · rintro u rfl
      rfl
    · rintro u rfl
      exact List.erase_cons_head ..
    · rintro u rfl hi
      refine (tolerant_underway hends _ root _).aggregateBody (fun j hj => ?_) fun j k hj => ?_
      · exact ih (hw.step hi (Document.lt_size_of_listsBase hj) (.inl hj)) none
      · exact ih (hw.step hi (Document.lt_size_of_nests hj) (.inr hj)) _

/-- **An interface that is blamed for a cycle lies on one,** and is inherited on the way. -/
theorem interfaceWithin_blames (hends : h.document.ChainsEnd h.scope.boundNames)
    (hw : h.document.Way h.document.Inherits root path levels i) :
    FailsOnly (fun b => b.underway = path) (h.document.Blames h.document.Inherits root) (interfaceWithin h levels i) := by
  induction levels generalizing path i with
  | zero => exact absurd rfl hw.nested.levels_ne_zero
  | succ levels ih =>
    rw [interfaceWithin_succ]
    refine .interfaceOnce (Q := (· = path)) (R := (· = i :: path)) ?_ ?_ ?_ ?_
    · rintro u rfl hi
      exact hw.blames hi
    · rintro u rfl
      rfl
    · rintro u rfl
      exact List.erase_cons_head ..
    · rintro u rfl hi
      exact (tolerant_underway hends _ root _).interfaceBody ⟨nofun, nofun⟩ fun j hj =>
        ih (hw.step hi (Document.lt_size_of_listsBase hj) hj)

end Cycles

end Build

end HeaderModel
