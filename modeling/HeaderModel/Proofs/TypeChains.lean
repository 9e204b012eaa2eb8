/-
Type chains that end.

A type chain is followed through at most as many steps as there are elements, and one that takes more is followed
forever. If every chain of the document ends, this never happens.
- `followFrom_error`: a chain that breaks does so at its first element, or further on.
- `follow_breaks`: if all chains end, following one fails only where the chain breaks.
-/
import HeaderModel.Proofs.TypeSites
import HeaderModel.Proofs.Rebuilding

namespace HeaderModel

/-- an element from which no chain goes on forever leads to no cycle -/
theorem not_transGen_of_acc {needs : NodeId → NodeId → Prop} {i x : NodeId} (hi : Acc (fun j k => needs k j) i)
    (hx : Relation.ReflTransGen needs i x) : ¬Relation.TransGen needs x x := by
  have hacc : Acc (fun j k => needs k j) x := by
    induction hx with
    | refl => exact hi
    | tail _ hjk ih => exact ih.inv hjk
  have hends : ∀ y, Acc (Relation.TransGen fun j k => needs k j) y → ¬Relation.TransGen needs y y := by
    intro y hy
    induction hy with
    | intro y _ ih => exact fun hloop => ih y (Relation.transGen_swap.2 hloop) hloop
  exact hends x hacc.transGen

/-- an error about one element: it speaks of no cycle, and there is an answer -/
def BuildError.isPlain : BuildError → Bool
  | .cycle .. | .halted _ => false
  | _ => true

theorem BuildError.ne_halted {e : BuildError} (h : e.isPlain = true) (why : Halt) : e ≠ .halted why := by
  rintro rfl
  cases h

/-- an array has no extent if the greatest index is missing or no number below the greatest of 32 bits -/
theorem Node.extent_eq_error {n : Node} {e : BuildError} (hextent : n.extent = .error e) :
    e = .noAttribute "max" n.id ∨ ∃ max, e = .badNumber "max" max n.id := by
  unfold Node.extent Node.need at hextent
  cases hmax : n.attr? "max" with
  | none =>
    rw [hmax] at hextent
    exact .inl (Except.error.inj hextent).symm
  | some max =>
    simp only [hmax, bind, Except.bind] at hextent
    right
    split at hextent
    · split_ifs at hextent
      · cases hextent
      · exact ⟨max, (Except.error.inj hextent).symm⟩
    · exact ⟨max, (Except.error.inj hextent).symm⟩

/-- a descriptor with the decoration that an element of its chain adds -/
def Node.decorate (n : Node) (t : TypeUse) : Except BuildError TypeUse :=
  match n.kind with
  | .pointerType => .ok { t with pointer := t.pointer.push '*' }
  | .arrayType => n.extent.map fun extent => { t with arrayDims := t.arrayDims ++ [extent] }
  | .referenceType => .ok { t with isReference := true }
  | .cvQualifiedType => .ok { t with isConst := true }
  | _ => .ok t

/-- only the extent of an array can be missing -/
theorem Node.decorate_eq_error {n : Node} {t : TypeUse} {e : BuildError} (h : n.decorate t = .error e) :
    n.kind = .arrayType ∧ n.extent = .error e := by
  unfold Node.decorate at h
  cases hkind : n.kind with
  | arrayType =>
    simp only [hkind] at h
    cases hextent : n.extent with
    | ok extent =>
      rw [hextent] at h
      cases h
    | error e' =>
      rw [hextent] at h
      obtain rfl := Except.error.inj h
      exact ⟨rfl, rfl⟩
  | _ =>
    simp only [hkind] at h
    cases h

theorem Node.exists_extent_of_decorate {n : Node} {t t' : TypeUse} (h : n.decorate t = .ok t')
    (hkind : n.kind = .arrayType) : ∃ extent, n.extent = .ok extent := by
  unfold Node.decorate at h
  simp only [hkind] at h
  cases hextent : n.extent with
  | ok extent => exact ⟨extent, rfl⟩
  | error e =>
    rw [hextent] at h
    cases h

namespace Document

/-- a chain goes on from one element to another -/
structure PassesTo (d : Document) (bound : List String) (i j : NodeId) : Prop where
  passes : (d.node i).passesOn bound = true
  extent : (d.node i).kind = .arrayType → ∃ extent, (d.node i).extent = .ok extent
  place : d.typePlace (d.node i) = .ok j

/-- every chain ends -/
def ChainsEnd (d : Document) (bound : List String) : Prop := WellFounded fun j i => d.PassesTo bound i j

/-- what there is at an element from which a chain does not go on: the end of the chain, or why it breaks there -/
def ending (d : Document) (bound : List String) (n : Node) : Except BuildError Terminal := d.endFrom bound 1 n

section Chains

variable {d : Document} {bound : List String} {i j : NodeId}

/-- a chain that ends does not come back -/
theorem ChainsEnd.not_transGen (hends : d.ChainsEnd bound) (i : NodeId) :
    ¬Relation.TransGen (d.PassesTo bound) i i := not_transGen_of_acc (hends.apply i) .refl

theorem PassesTo.lt_size (hij : d.PassesTo bound i j) : i < d.nodes.size := by
  apply lt_size_of_ne_blank
  intro hblank
  have hpasses := hij.passes
  rw [hblank] at hpasses
  cases hpasses

/-- chains that only lead back in the document end -/
theorem chainsEnd_of_back (hback : ∀ i < d.nodes.size, (d.node i).passesOn bound = true →
    (d.typePlace (d.node i)).toOption.all (· < i) = true) : d.ChainsEnd bound := by
  refine Subrelation.wf (fun {j i} hij => ?_) Nat.lt_wfRel.wf
  have hall := hback i hij.lt_size hij.passes
  rw [hij.place] at hall
  have hlt : j < i := of_decide_eq_true hall
  exact hlt

theorem isPlain_of_need {n : Node} {name : String} {e : BuildError} (hneed : n.need name = .error e) :
    e.isPlain = true := by
  unfold Node.need at hneed
  cases hvalue : n.attr? name with
  | none =>
    rw [hvalue] at hneed
    obtain rfl := Except.error.inj hneed
    rfl
  | some value =>
    rw [hvalue] at hneed
    cases hneed

theorem isPlain_of_placeOf {id : String} {e : BuildError} (hplace : d.placeOf id = .error e) : e.isPlain = true := by
  unfold placeOf at hplace
  cases hi : d.ids.lookup id with
  | none =>
    rw [hi] at hplace
    obtain rfl := Except.error.inj hplace
    rfl
  | some i =>
    rw [hi] at hplace
    cases hplace

theorem isPlain_of_unitOfFile {file : String} {e : BuildError} (hunit : d.unitOfFile file = .error e) :
    e.isPlain = true := by
  unfold unitOfFile element at hunit
  cases hplace : d.placeOf file with
  | error e' =>
    rw [hplace] at hunit
    obtain rfl := Except.error.inj hunit
    exact isPlain_of_placeOf hplace
  | ok i =>
    rw [hplace] at hunit
    cases hunit

theorem isPlain_of_typePlace {n : Node} {e : BuildError} (hplace : d.typePlace n = .error e) : e.isPlain = true := by
  unfold typePlace at hplace
  cases htype : n.need "type" with
  | error e' =>
    rw [htype] at hplace
    obtain rfl := Except.error.inj hplace
    exact isPlain_of_need htype
  | ok id =>
    rw [htype] at hplace
    exact isPlain_of_placeOf hplace

theorem isPlain_of_extent {n : Node} {e : BuildError} (hextent : n.extent = .error e) : e.isPlain = true := by
  rcases Node.extent_eq_error hextent with rfl | ⟨max, rfl⟩ <;> rfl

theorem endFrom_succ (d : Document) (bound : List String) (steps : Nat) (n : Node) :
    d.endFrom bound (steps + 1) n =
      if n.passesOn bound then (d.nextType n).bind (d.endFrom bound steps) else d.ending bound n := by
  obtain ⟨kind, attributes, children, parent⟩ := n
  cases kind with
  | typedef =>
    simp only [ending, endFrom, Node.passesOn]
    split_ifs <;> simp_all
  | _ => simp [ending, endFrom, Node.passesOn]

theorem followFrom_succ (d : Document) (bound : List String) (steps : Nat) (n : Node) (t : TypeUse) :
    d.followFrom bound (steps + 1) n t =
      match n.decorate t with
      | .error e => ⟨t, .error e⟩
      | .ok t' =>
        if n.passesOn bound then
          match d.nextType n with
          | .error e => ⟨t', .error e⟩
          | .ok m => d.followFrom bound steps m t'
        else
          match d.ending bound n with
          | .error e => ⟨t', .error e⟩
          | .ok terminal => ⟨{ t' with name := terminal.name }, .ok terminal⟩ := by
  obtain ⟨kind, attributes, children, parent⟩ := n
  cases kind with
  | typedef =>
    simp only [followFrom, ending, endFrom, Node.passesOn, Node.decorate]
    split_ifs with hbound hopen hopen
    · rw [hbound] at hopen
      cases hopen
    · rfl
    · cases d.nextType ⟨.typedef, attributes, children, parent⟩ <;> rfl
    · rw [Bool.not_eq_true] at hbound
      rw [hbound] at hopen
      exact absurd rfl hopen
  | arrayType =>
    simp only [followFrom, Node.passesOn, Node.decorate]
    cases Node.extent ⟨.arrayType, attributes, children, parent⟩ with
    | ok extent =>
      simp only [Except.map, if_true]
      cases d.nextType ⟨.arrayType, attributes, children, parent⟩ <;> rfl
    | error e => rfl
  | pointerType | referenceType | cvQualifiedType =>
    simp only [followFrom, Node.passesOn, Node.decorate, if_true]
    split <;> rename_i hnext <;> rw [hnext]
  | _ => rfl

/-- where a chain does not go on, it ends, or breaks at an element that is no type -/
theorem isPlain_of_stop {n : Node} {e : BuildError} (hpasses : ¬n.passesOn bound = true)
    (hending : d.ending bound n = .error e) : e.isPlain = true := by
  obtain ⟨kind, attributes, children, parent⟩ := n
  simp only [ending, endFrom] at hending
  cases kind with
  | typedef =>
    simp only [Node.passesOn, Bool.not_eq_true, Bool.not_eq_false'] at hpasses
    rw [if_pos hpasses] at hending
    cases hending
  | pointerType | arrayType | referenceType | cvQualifiedType => exact absurd rfl hpasses
  | fundamentalType | classType | structType | unionType | enumeration | functionType => cases hending
  | _ =>
    obtain rfl := Except.error.inj hending
    rfl

/-- **A chain that breaks** does so at its first element, and then the error is a plain one, or further on. -/
theorem followFrom_error {steps : Nat} {t : TypeUse} {e : BuildError}
    (hrun : (d.followFrom bound (steps + 1) (d.node i) t).outcome = .error e) :
    e.isPlain = true ∨
      ∃ j t', d.PassesTo bound i j ∧ (d.followFrom bound steps (d.node j) t').outcome = .error e := by
  rw [followFrom_succ] at hrun
  cases hdecorate : (d.node i).decorate t with
  | error e' =>
    rw [hdecorate] at hrun
    obtain rfl := Except.error.inj hrun
    exact .inl (isPlain_of_extent (Node.decorate_eq_error hdecorate).2)
  | ok t' =>
    simp only [hdecorate] at hrun
    split_ifs at hrun with hpasses
    · rw [nextType_eq_map] at hrun
      cases hplace : d.typePlace (d.node i) with
      | error e' =>
        rw [hplace] at hrun
        obtain rfl := Except.error.inj hrun
        exact .inl (isPlain_of_typePlace hplace)
      | ok j =>
        rw [hplace] at hrun
        exact .inr ⟨j, t', ⟨hpasses, Node.exists_extent_of_decorate hdecorate, hplace⟩, hrun⟩
    · cases hending : d.ending bound (d.node i) with
      | error e' =>
        rw [hending] at hrun
        obtain rfl := Except.error.inj hrun
        exact .inl (isPlain_of_stop hpasses hending)
      | ok terminal =>
        rw [hending] at hrun
        cases hrun

/-- a chain that has no end breaks, or it is followed forever -/
theorem followFrom_fails {steps : Nat} {t : TypeUse} {e : BuildError}
    (hrun : (d.followFrom bound steps (d.node i) t).outcome = .error e) :
    e.isPlain = true ∨ e = .halted .endless := by
  induction steps generalizing i t with
  | zero => exact .inr (Except.error.inj hrun).symm
  | succ steps ih =>
    rcases followFrom_error hrun with hbreak | ⟨j, t', -, hrest⟩
    · exact .inl hbreak
    · exact ih hrest

theorem follow_fails {typeId : String} {t : TypeUse} {e : BuildError}
    (hrun : (d.follow bound typeId t).outcome = .error e) : e.isPlain = true ∨ e = .halted .endless := by
  unfold follow element at hrun
  cases hplace : d.placeOf typeId with
  | error e' =>
    rw [hplace] at hrun
    obtain rfl := Except.error.inj hrun
    exact .inl (isPlain_of_placeOf hplace)
  | ok i =>
    rw [hplace] at hrun
    exact followFrom_fails hrun

/-- on the way along a chain that ends no element comes twice, so the steps do not run out -/
theorem followFrom_breaks (hends : d.ChainsEnd bound) {root : NodeId} {path : List NodeId} {steps : Nat}
    (hw : d.Way (d.PassesTo bound) root path steps i) {t : TypeUse} {e : BuildError}
    (hrun : (d.followFrom bound steps (d.node i) t).outcome = .error e) : e.isPlain = true := by
  induction steps generalizing path i t with
  | zero => exact absurd rfl hw.nested.levels_ne_zero
  | succ steps ih =>
    rcases followFrom_error hrun with hbreak | ⟨j, t', hij, hrest⟩
    · exact hbreak
    · have hnew : i ∉ path := fun hi => hends.not_transGen i (hw.before i hi)
      exact ih (hw.step hnew hij.lt_size hij) hrest

/-- **Where all chains end, following one fails only where it breaks.** -/
theorem follow_breaks (hends : d.ChainsEnd bound) {typeId : String} {t : TypeUse} {e : BuildError}
    (hrun : (d.follow bound typeId t).outcome = .error e) : e.isPlain = true := by
  unfold follow element at hrun
  cases hplace : d.placeOf typeId with
  | error e' =>
    rw [hplace] at hrun
    obtain rfl := Except.error.inj hrun
    exact isPlain_of_placeOf hplace
  | ok i =>
    rw [hplace] at hrun
    exact followFrom_breaks hends (.start d _ i) hrun

end Chains

end Document

end HeaderModel
