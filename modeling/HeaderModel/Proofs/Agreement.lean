/-
Following a chain and looking for its end.

`Document.follow` walks along a type chain and adds its decorations to a descriptor, `Document.endOf` looks only for
the end. Where the chain ends they take the same steps, but following one reads the extents of the arrays on the way.
- `chainEnds_iff`: a chain ends exactly if looking for its end comes to an end.
- `endFrom_of_chain`: looking for the end of a chain gives what there is at its last element.
- `followFrom_of_chain`: how far the decorations of a chain are added, said once; so following a chain gives the first
  error of an extent, or else what there is at its last element (`outcome_of_chain`).
- `follow_agrees`: so the two have the same end and the same errors, but for the errors of extents.
-/
import HeaderModel.Proofs.TypeChains

namespace HeaderModel

/-- an error about the extent of an array -/
def BuildError.isExtent : BuildError → Bool
  | .noAttribute key _ => key = "max"
  | .badNumber key _ _ => key = "max"
  | _ => false

theorem Node.isExtent_of_extent {n : Node} {e : BuildError} (hextent : n.extent = .error e) : e.isExtent = true := by
  rcases Node.extent_eq_error hextent with rfl | ⟨max, rfl⟩ <;> simp [BuildError.isExtent]

namespace Document

/-! ## Chains -/

/-- a chain goes on from one element to another, whatever the extents of arrays are -/
structure GoesOn (d : Document) (bound : List String) (i j : NodeId) : Prop where
  passes : (d.node i).passesOn bound = true
  place : d.typePlace (d.node i) = .ok j

/-- the elements of a chain from one element to another, from which it does not go on -/
inductive TypeChain (d : Document) (bound : List String) : NodeId → NodeId → List NodeId → Prop where
  | last {i : NodeId} : (∀ j, ¬d.GoesOn bound i j) → TypeChain d bound i i [i]
  | step {i j last : NodeId} {is : List NodeId} : d.GoesOn bound i j → TypeChain d bound j last is →
      TypeChain d bound i last (i :: is)

/-- the chain of a type id ends; the chain of an unknown id has not even begun -/
def ChainEnds (d : Document) (bound : List String) (typeId : String) : Prop :=
  ∀ i, d.placeOf typeId = .ok i → ∃ last is, d.TypeChain bound i last is

section Chains

variable {d : Document} {bound : List String} {i j last last' k : NodeId} {is is' : List NodeId}

theorem GoesOn.unique (hj : d.GoesOn bound i j) (hk : d.GoesOn bound i k) : j = k :=
  Except.ok.inj (hj.place.symm.trans hk.place)

theorem GoesOn.lt_size (hij : d.GoesOn bound i j) : i < d.nodes.size := by
  apply lt_size_of_ne_blank
  intro hblank
  have hpasses := hij.passes
  rw [hblank] at hpasses
  cases hpasses

/-- an element begins at most one chain -/
theorem TypeChain.unique (hi : d.TypeChain bound i last is) (hi' : d.TypeChain bound i last' is') : last = last' ∧ is = is' := by
  induction hi generalizing is' with
  | last hno =>
    cases hi' with
    | last _ => exact ⟨rfl, rfl⟩
    | step hij _ => exact absurd hij (hno _)
  | step hij _ ih =>
    cases hi' with
    | last hno => exact absurd hij (hno _)
    | step hik hk =>
      obtain rfl := hij.unique hik
      obtain ⟨rfl, rfl⟩ := ih hk
      exact ⟨rfl, rfl⟩

theorem TypeChain.stops (hi : d.TypeChain bound i last is) : ∀ j, ¬d.GoesOn bound last j := by
  induction hi with
  | last hno => exact hno
  | step _ _ ih => exact ih

/-- every element of a chain begins a chain, which is a part of it -/
theorem TypeChain.exists_of_mem (hi : d.TypeChain bound i last is) (hk : k ∈ is) :
    ∃ ks, d.TypeChain bound k last ks ∧ ks.length ≤ is.length := by
  induction hi with
  | last hno =>
    obtain rfl := List.mem_singleton.1 hk
    exact ⟨_, .last hno, le_rfl⟩
  | step hij hj ih =>
    rcases List.mem_cons.1 hk with rfl | hk
    · exact ⟨_, .step hij hj, le_rfl⟩
    · obtain ⟨ks, hchain, hle⟩ := ih hk
      refine ⟨ks, hchain, ?_⟩
      simp only [List.length_cons]
      omega

/-- no element comes twice: a chain that came back would have a part as long as itself -/
theorem TypeChain.nodup (hi : d.TypeChain bound i last is) : is.Nodup := by
  induction hi with
  | last _ => exact List.nodup_singleton _
  | step hij hj ih =>
    refine List.nodup_cons.2 ⟨fun hmem => ?_, ih⟩
    obtain ⟨ks, hchain, hle⟩ := hj.exists_of_mem hmem
    obtain ⟨-, rfl⟩ := (TypeChain.step hij hj).unique hchain
    simp only [List.length_cons] at hle
    omega

theorem TypeChain.mem_range (hi : d.TypeChain bound i last is) : ∀ k ∈ is, k = last ∨ k < d.nodes.size := by
  induction hi with
  | last _ =>
    intro k hk
    exact .inl (List.mem_singleton.1 hk)
  | step hij _ ih =>
    intro k hk
    rcases List.mem_cons.1 hk with rfl | hk
    · exact .inr hij.lt_size
    · exact ih k hk

/-- so a chain that ends is not longer than the steps that are taken at most -/
theorem TypeChain.length_le (hi : d.TypeChain bound i last is) : is.length ≤ d.nodes.size + 1 := by
  have hsub : is ⊆ last :: List.range d.nodes.size := by
    intro k hk
    rcases hi.mem_range k hk with rfl | hlt
    · exact List.mem_cons_self
    · exact List.mem_cons_of_mem _ (List.mem_range.2 hlt)
  have hlen := (hi.nodup.subperm hsub).length_le
  simpa using hlen

end Chains

/-! ## The name of the end -/

section Steps

variable {d : Document} {bound : List String} {i j last : NodeId} {is : List NodeId} {steps : Nat}

/-- where a chain is followed to its end, the descriptor takes the name in which the chain ends -/
theorem followFrom_name_of_ok {n : Node} {t : TypeUse} {terminal : Terminal}
    (hrun : (d.followFrom bound steps n t).outcome = .ok terminal) :
    (d.followFrom bound steps n t).type.name = terminal.name := by
  induction steps generalizing n t with
  | zero => cases hrun
  | succ steps ih =>
    rw [followFrom_succ] at hrun ⊢
    cases hdecorate : n.decorate t with
    | error e =>
      rw [hdecorate] at hrun
      cases hrun
    | ok t' =>
      simp only [hdecorate] at hrun ⊢
      split_ifs at hrun ⊢ with hpasses
      · cases hnext : d.nextType n with
        | error e =>
          rw [hnext] at hrun
          cases hrun
        | ok m =>
          simp only [hnext] at hrun ⊢
          exact ih hrun
      · cases hending : d.ending bound n with
        | error e =>
          rw [hending] at hrun
          cases hrun
        | ok terminal' =>
          simp only [hending] at hrun ⊢
          rw [Except.ok.inj hrun]

/-! ## A chain that ends -/

/-- where a chain does not go on from an element that should pass it on, it breaks -/
theorem ending_of_passes (hno : ∀ j, ¬d.GoesOn bound i j) (hpasses : (d.node i).passesOn bound = true) :
    ∃ e, e.isPlain = true ∧ d.nextType (d.node i) = .error e ∧ d.ending bound (d.node i) = .error e := by
  have hnext := nextType_eq_map d (d.node i)
  cases hplace : d.typePlace (d.node i) with
  | ok j => exact absurd ⟨hpasses, hplace⟩ (hno j)
  | error e =>
    rw [hplace] at hnext
    refine ⟨e, isPlain_of_typePlace hplace, hnext, ?_⟩
    rw [ending, endFrom_succ, if_pos hpasses, hnext]
    rfl

/-- looking for the end of a chain gives what there is at its last element -/
theorem endFrom_of_chain (hi : d.TypeChain bound i last is) (hsteps : is.length ≤ steps) :
    d.endFrom bound steps (d.node i) = d.ending bound (d.node last) := by
  induction hi generalizing steps with
  | last hno =>
    cases steps with
    | zero => simp at hsteps
    | succ steps =>
      rw [endFrom_succ]
      split_ifs with hpasses
      · obtain ⟨e, -, hnext, hending⟩ := ending_of_passes hno hpasses
        rw [hnext, hending]
        rfl
      · rfl
  | step hij _ ih =>
    cases steps with
    | zero => simp at hsteps
    | succ steps =>
      rw [endFrom_succ, if_pos hij.passes, nextType_eq hij.place]
      exact ih (Nat.le_of_succ_le_succ hsteps)

/-- a descriptor with the decorations of a chain -/
def decorations (d : Document) (is : List NodeId) (t : TypeUse) : Except BuildError TypeUse :=
  is.foldlM (fun t k => (d.node k).decorate t) t

theorem decorations_cons (d : Document) (i : NodeId) (is : List NodeId) (t : TypeUse) :
    d.decorations (i :: is) t = ((d.node i).decorate t).bind (d.decorations is) :=
  List.foldlM_cons

theorem decorations_append (is js : List NodeId) (t : TypeUse) :
    d.decorations (is ++ js) t = (d.decorations is t).bind (d.decorations js) :=
  List.foldlM_append

/-- how far the decorations of a chain are added: to its end, to the place at its end where it breaks, or to an array
that has no extent -/
inductive Followed (d : Document) (bound : List String) (last : NodeId) (is : List NodeId) (t : TypeUse) :
    Resolution → Prop where
  | ends {u : TypeUse} {terminal : Terminal} : d.decorations is t = .ok u →
      d.ending bound (d.node last) = .ok terminal →
      Followed d bound last is t ⟨{ u with name := terminal.name }, .ok terminal⟩
  | breaks {u : TypeUse} {e : BuildError} : d.decorations is t = .ok u → d.ending bound (d.node last) = .error e →
      Followed d bound last is t ⟨u, .error e⟩
  | lacks {u : TypeUse} {e : BuildError} {before rest : List NodeId} {k : NodeId} : is = before ++ k :: rest →
      d.decorations before t = .ok u → (d.node k).decorate u = .error e → Followed d bound last is t ⟨u, .error e⟩

/-- one more element in front adds its decoration first -/
theorem Followed.cons {k : NodeId} {t u : TypeUse} {res : Resolution} (hdecorate : (d.node k).decorate t = .ok u)
    (hres : d.Followed bound last is u res) : d.Followed bound last (k :: is) t res := by
  have hcons : ∀ js, d.decorations (k :: js) t = d.decorations js u := by
    intro js
    rw [decorations_cons, hdecorate]
    rfl
  cases hres with
  | ends hall hending => exact .ends ((hcons is).trans hall) hending
  | breaks hall hending => exact .breaks ((hcons is).trans hall) hending
  | @lacks _ _ before rest _ heq hbefore hlacks =>
    exact .lacks (by rw [heq, List.cons_append]) ((hcons before).trans hbefore) hlacks

/-- **A chain is followed** up to its end, or to the first array without an extent. -/
theorem followFrom_of_chain (hi : d.TypeChain bound i last is) (hsteps : is.length ≤ steps) (t : TypeUse) :
    d.Followed bound last is t (d.followFrom bound steps (d.node i) t) := by
  induction hi generalizing steps t with
  | @last i hno =>
    cases steps with
    | zero => simp at hsteps
    | succ steps =>
      rw [followFrom_succ]
      cases hdecorate : (d.node i).decorate t with
      | error e => exact .lacks (List.nil_append _).symm rfl hdecorate
      | ok u =>
        have hall : d.decorations [i] t = .ok u := by
          rw [decorations_cons, hdecorate]
          rfl
        simp only
        split_ifs with hpasses
        · obtain ⟨e, -, hnext, hending⟩ := ending_of_passes hno hpasses
          rw [hnext]
          exact .breaks hall hending
        · cases hending : d.ending bound (d.node i) with
          | error e => exact .breaks hall hending
          | ok terminal => exact .ends hall hending
  | @step i j last is hij _ ih =>
    cases steps with
    | zero => simp at hsteps
    | succ steps =>
      rw [followFrom_succ]
      cases hdecorate : (d.node i).decorate t with
      | error e => exact .lacks (List.nil_append _).symm rfl hdecorate
      | ok u =>
        simp only [if_pos hij.passes, nextType_eq hij.place]
        exact (ih (Nat.le_of_succ_le_succ hsteps) u).cons hdecorate

/-- so following a chain gives the first error of a decoration, or else what there is at its last element -/
theorem outcome_of_chain (hi : d.TypeChain bound i last is) (hsteps : is.length ≤ steps) (t : TypeUse) :
    (d.followFrom bound steps (d.node i) t).outcome =
      (d.decorations is t).bind fun _ => d.ending bound (d.node last) := by
  have hfollowed := followFrom_of_chain hi hsteps t
  generalize d.followFrom bound steps (d.node i) t = res at hfollowed ⊢
  cases hfollowed with
  | ends hall hending | breaks hall hending =>
    rw [hall]
    exact hending.symm
  | @lacks u e before rest k heq hbefore hlacks =>
    have hfails : d.decorations is t = .error e := by
      rw [heq, decorations_append, hbefore]
      show d.decorations (k :: rest) u = .error e
      rw [decorations_cons, hlacks]
      rfl
    rw [hfails]
    rfl

/-- only the extent of an array on the chain can be missing -/
theorem exists_of_decorations {t : TypeUse} {e : BuildError} (h : d.decorations is t = .error e) :
    ∃ k ∈ is, (d.node k).kind = .arrayType ∧ (d.node k).extent = .error e := by
  induction is generalizing t with
  | nil => cases h
  | cons k is ih =>
    rw [decorations_cons] at h
    cases hdecorate : (d.node k).decorate t with
    | error e' =>
      rw [hdecorate] at h
      obtain rfl := Except.error.inj h
      exact ⟨k, List.mem_cons_self, Node.decorate_eq_error hdecorate⟩
    | ok t' =>
      rw [hdecorate] at h
      obtain ⟨k', hk', harray⟩ := ih h
      exact ⟨k', List.mem_cons_of_mem _ hk', harray⟩

end Steps

/-! ## Agreement -/

section Agreement

variable {d : Document} {bound : List String} {typeId : String}

/-- an element from which looking for the end comes to an end begins a chain that ends -/
theorem exists_chain_of_ends {steps : Nat} {i : NodeId}
    (hend : d.endFrom bound steps (d.node i) ≠ .error (.halted .endless)) : ∃ last is, d.TypeChain bound i last is := by
  induction steps generalizing i with
  | zero => exact absurd rfl hend
  | succ steps ih =>
    by_cases hgoes : ∃ j, d.GoesOn bound i j
    · obtain ⟨j, hij⟩ := hgoes
      rw [endFrom_succ, if_pos hij.passes, nextType_eq hij.place] at hend
      obtain ⟨last, is, hj⟩ := ih hend
      exact ⟨last, _, .step hij hj⟩
    · exact ⟨i, _, .last fun j hij => hgoes ⟨j, hij⟩⟩

/-- where a chain that ends breaks, it does so for a plain error -/
theorem isPlain_of_ending {i : NodeId} {e : BuildError} (hno : ∀ j, ¬d.GoesOn bound i j)
    (hending : d.ending bound (d.node i) = .error e) : e.isPlain = true := by
  by_cases hpasses : (d.node i).passesOn bound = true
  · obtain ⟨e', he', -, hbreaks⟩ := ending_of_passes hno hpasses
    obtain rfl := Except.error.inj (hbreaks.symm.trans hending)
    exact he'
  · exact isPlain_of_stop hpasses hending

/-- **A chain ends** exactly if looking for its end comes to an end. -/
theorem chainEnds_iff : d.ChainEnds bound typeId ↔ d.endOf bound typeId ≠ .error (.halted .endless) := by
  unfold ChainEnds endOf element
  cases hplace : d.placeOf typeId with
  | error e =>
    refine ⟨fun _ h => ?_, fun _ i hi => by cases hi⟩
    exact BuildError.ne_halted (isPlain_of_placeOf hplace) _ (Except.error.inj h)
  | ok i =>
    constructor
    · intro hends h
      obtain ⟨last, is, hi⟩ := hends i rfl
      have hend : d.endFrom bound (d.nodes.size + 1) (d.node i) = .error (.halted .endless) := h
      rw [endFrom_of_chain hi hi.length_le] at hend
      exact BuildError.ne_halted (isPlain_of_ending hi.stops hend) _ rfl
    · intro hend i' hi'
      obtain rfl := Except.ok.inj hi'
      exact exists_chain_of_ends hend

/-- at the last element of a chain there is one error, and an array at or before it has no extent for another -/
def LacksExtent (d : Document) (bound : List String) (typeId : String) (e e' : BuildError) : Prop :=
  ∃ i last is k, d.placeOf typeId = .ok i ∧ d.TypeChain bound i last is ∧ d.ending bound (d.node last) = .error e ∧
    k ∈ is ∧ (d.node k).kind = .arrayType ∧ (d.node k).extent = .error e' ∧ e'.isExtent = true

/-- **Following a chain that ends and looking for its end agree.** If the chain can be followed, it has the end that is
looked for, and the descriptor takes its name. If following it fails, and not for an extent, so does looking for the end.
And if looking for the end fails, so does following, for the same reason or for the extent of an array on the way. -/
theorem follow_agrees (hends : d.ChainEnds bound typeId) (t : TypeUse) :
    (∀ terminal, (d.follow bound typeId t).outcome = .ok terminal →
      d.endOf bound typeId = .ok terminal ∧ (d.follow bound typeId t).type.name = terminal.name) ∧
    (∀ e, (d.follow bound typeId t).outcome = .error e → e.isExtent = false → d.endOf bound typeId = .error e) ∧
    ∀ e, d.endOf bound typeId = .error e → (d.follow bound typeId t).outcome = .error e ∨
      ∃ e', (d.follow bound typeId t).outcome = .error e' ∧ d.LacksExtent bound typeId e e' := by
  unfold follow endOf element
  cases hplace : d.placeOf typeId with
  | error e =>
    refine ⟨fun terminal h => ?_, fun e' h _ => h, fun e' h => Or.inl h⟩
    cases h
  | ok i =>
    obtain ⟨last, is, hi⟩ := hends i hplace
    simp only [Except.map, Except.bind]
    rw [endFrom_of_chain hi hi.length_le]
    have houtcome := outcome_of_chain hi hi.length_le t
    cases hdecorations : d.decorations is t with
    | ok t' =>
      -- all extents are there, so the two outcomes are the same
      have hsame : (d.followFrom bound (d.nodes.size + 1) (d.node i) t).outcome = d.ending bound (d.node last) := by
        rw [houtcome, hdecorations]
        rfl
      refine ⟨fun terminal h => ⟨hsame.symm.trans h, followFrom_name_of_ok h⟩, fun e h _ => hsame.symm.trans h,
        fun e h => Or.inl (hsame.trans h)⟩
    | error e' =>
      have hfails : (d.followFrom bound (d.nodes.size + 1) (d.node i) t).outcome = .error e' := by
        rw [houtcome, hdecorations]
        rfl
      obtain ⟨k, hk, harray, hextent⟩ := exists_of_decorations hdecorations
      have hisExtent := Node.isExtent_of_extent hextent
      refine ⟨fun terminal h => ?_, fun e h hnot => ?_, fun e h => Or.inr ⟨e', hfails, ?_⟩⟩
      · rw [hfails] at h
        cases h
      · obtain rfl := Except.error.inj (hfails.symm.trans h)
        rw [hisExtent] at hnot
        cases hnot
      · exact ⟨i, last, is, k, hplace, hi, h, hk, harray, hextent, hisExtent⟩

/-- a pointer to an array without an extent, whose elements are of an unknown type -/
def brokenArray : Document :=
  ⟨"CastXML", [], #[⟨.pointerType, [("id", "p"), ("type", "a")], [], none⟩,
    ⟨.arrayType, [("id", "a"), ("type", "x"), ("max", "many")], [], none⟩], [0, 1], [("p", 0), ("a", 1)], []⟩

theorem follow_agrees_brokenArray :
    brokenArray.ChainEnds [] "p" ∧ brokenArray.endOf [] "p" = .error (.unknownId "x") ∧
      brokenArray.LacksExtent [] "p" (.unknownId "x") (.badNumber "max" "many" "a") := by
  have hend : brokenArray.endOf [] "p" = .error (.unknownId "x") := by decide +kernel
  have hfollow : (brokenArray.follow [] "p" .empty).outcome = .error (.badNumber "max" "many" "a") := by
    decide +kernel
  have hends : brokenArray.ChainEnds [] "p" := by
    rw [chainEnds_iff, hend]
    exact nofun
  obtain ⟨-, -, hfails⟩ := follow_agrees hends .empty
  rcases hfails _ hend with hsame | ⟨e', hextent, hlacks⟩
  · rw [hfollow] at hsame
    cases hsame
  · obtain rfl := Except.error.inj (hfollow.symm.trans hextent)
    exact ⟨hends, hend, hlacks⟩

end Agreement

end Document

end HeaderModel
