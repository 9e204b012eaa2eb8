/-
What following a chain adds to a descriptor.

Each element of a type chain adds its decoration behind those that the descriptor has: one more `*`, one more extent,
the mark of a reference or of a qualifier. The name is set at the end of the chain only. So the outcome is a fold over
the chain, and where the chain breaks, the descriptor has the decorations of the elements before that place.
- `Document.Decorates`: a descriptor has the decorations of given elements behind those of another one.
- `follow_behind`: what is added to a descriptor does not depend on it.
- `Followed.decorates`, `Followed.breaksAfter`: what a chain gives that is followed to its end, and one that breaks.
- `follow_decorates`: the descriptor after following a chain that ends, whether or not it breaks.
-/
import HeaderModel.Proofs.Agreement

namespace HeaderModel

/-! ## Descriptors -/

/-- a descriptor with the decorations of another one behind its own -/
def TypeUse.decoratedBy (t u : TypeUse) : TypeUse :=
  { t with
    pointer := t.pointer ++ u.pointer
    arrayDims := t.arrayDims ++ u.arrayDims
    isReference := t.isReference || u.isReference
    isConst := t.isConst || u.isConst }

/-- what a chain adds to a descriptor, behind another one instead; the name is taken if the chain has an end -/
def Resolution.behind (t : TypeUse) (r : Resolution) : Resolution :=
  ⟨match r.outcome with
    | .ok _ => { t.decoratedBy r.type with name := r.type.name }
    | .error _ => t.decoratedBy r.type, r.outcome⟩

/-- the greatest index of an array, which may end in `u`, if it is a number of 32 bits -/
def Node.greatestIndex? (n : Node) : Option Nat :=
  (n.attr? "max").bind fun max => Text.natBelow? (2 ^ 32) (Text.trimEnd (fun c => c = 'u' || c = 'U') max.toList)

/-- an element in which a chain ends, and the name that it gives -/
inductive Node.GivesName (bound : List String) (n : Node) : String → Prop where
  | fundamental : n.kind = .fundamentalType → GivesName bound n (fundamentalName n.name)
  | named : n.kind.isNamedType = true → GivesName bound n n.name
  | boundTypedef : n.kind = .typedef → n.name ∈ bound → GivesName bound n n.name
  | function : n.kind = .functionType → GivesName bound n Terminal.functionName

namespace Document

/-- a descriptor has the decorations of elements behind those of another one: a `*` for every pointer, for every array
one more than its greatest index, in 32 bits, and the marks of references and of qualifiers -/
structure Decorates (d : Document) (is : List NodeId) (t r : TypeUse) : Prop where
  pointer : r.pointer = t.pointer ++
    String.ofList (List.replicate (is.countP fun k => (d.node k).kind = .pointerType) '*')
  arrayDims : ∃ extents, r.arrayDims = t.arrayDims ++ extents ∧
    List.Forall₂ (fun k extent => (∃ m, (d.node k).greatestIndex? = some m ∧ extent = m + 1) ∧ extent < 2 ^ 32)
      (is.filter fun k => (d.node k).kind = .arrayType) extents
  isReference : r.isReference = (t.isReference || is.any fun k => (d.node k).kind = .referenceType)
  isConst : r.isConst = (t.isConst || is.any fun k => (d.node k).kind = .cvQualifiedType)

/-- where the chain of a type id breaks: the elements that come before that place, and the error -/
inductive BreaksAfter (d : Document) (bound : List String) (typeId : String) : List NodeId → BuildError → Prop where
  /-- there is no element with the id -/
  | unknown {e : BuildError} : d.placeOf typeId = .error e → BreaksAfter d bound typeId [] e
  /-- an array has no extent -/
  | extent {i k last : NodeId} {before rest : List NodeId} {e : BuildError} : d.placeOf typeId = .ok i →
      d.TypeChain bound i last (before ++ k :: rest) → (d.node k).kind = .arrayType → (d.node k).extent = .error e →
      BreaksAfter d bound typeId before e
  /-- the last element neither goes on nor gives a name -/
  | noType {i last : NodeId} {before : List NodeId} : d.placeOf typeId = .ok i →
      d.TypeChain bound i last (before ++ [last]) → (d.node last).passesOn bound = false →
      (∀ name, ¬(d.node last).GivesName bound name) → BreaksAfter d bound typeId before (d.node last).notAType
  /-- the last element goes on, but names no type or one that is not there; it was taken in already -/
  | noNext {i last : NodeId} {is : List NodeId} {e : BuildError} : d.placeOf typeId = .ok i →
      d.TypeChain bound i last is → (d.node last).passesOn bound = true → d.typePlace (d.node last) = .error e →
      BreaksAfter d bound typeId is e

end Document

/-! ## What a chain adds does not depend on the descriptor -/

theorem TypeUse.decoratedBy_empty (t : TypeUse) : t.decoratedBy .empty = t := by
  simp [decoratedBy, empty]

/-- an element adds its decoration behind whatever there is -/
theorem Node.decorate_decoratedBy (n : Node) (t u : TypeUse) :
    n.decorate (t.decoratedBy u) = (n.decorate u).map t.decoratedBy := by
  unfold Node.decorate
  cases n.kind with
  | pointerType =>
    have hpush : (t.pointer ++ u.pointer).push '*' = t.pointer ++ u.pointer.push '*' := String.ext (by simp)
    simp [TypeUse.decoratedBy, Except.map, hpush]
  | arrayType => cases n.extent <;> simp [TypeUse.decoratedBy, Except.map]
  | referenceType => simp [TypeUse.decoratedBy, Except.map]
  | cvQualifiedType => simp [TypeUse.decoratedBy, Except.map]
  | _ => rfl

namespace Document

variable {d : Document} {bound : List String} {typeId : String}

theorem followFrom_behind (steps : Nat) (n : Node) (t u : TypeUse) :
    d.followFrom bound steps n (t.decoratedBy u) = (d.followFrom bound steps n u).behind t := by
  induction steps generalizing n u with
  | zero => rfl
  | succ steps ih =>
    rw [followFrom_succ, followFrom_succ, Node.decorate_decoratedBy]
    cases n.decorate u with
    | error e => rfl
    | ok u' =>
      simp only [Except.map]
      split_ifs
      · cases d.nextType n with
        | error e => rfl
        | ok m => exact ih m u'
      · cases d.ending bound n with
        | error e => rfl
        | ok terminal => rfl

/-- **What following a chain adds to a descriptor does not depend on it.** -/
theorem follow_behind (t : TypeUse) : d.follow bound typeId t = (d.follow bound typeId .empty).behind t := by
  unfold follow
  cases d.element typeId with
  | error e =>
    show Resolution.mk t (.error e) = ⟨t.decoratedBy .empty, .error e⟩
    rw [TypeUse.decoratedBy_empty]
  | ok n =>
    have hbehind : d.followFrom bound (d.nodes.size + 1) n (t.decoratedBy .empty) =
        (d.followFrom bound (d.nodes.size + 1) n .empty).behind t := followFrom_behind ..
    rwa [TypeUse.decoratedBy_empty] at hbehind

end Document

/-! ## The decorations of elements -/

theorem Node.extent_eq_ok {n : Node} {extent : Nat} (h : n.extent = .ok extent) :
    (∃ m, n.greatestIndex? = some m ∧ extent = m + 1) ∧ extent < 2 ^ 32 := by
  unfold Node.extent Node.need at h
  unfold Node.greatestIndex?
  cases hmax : n.attr? "max" with
  | none =>
    rw [hmax] at h
    cases h
  | some max =>
    simp only [hmax, bind, Except.bind] at h
    split at h
    · rename_i m hm
      split_ifs at h with hlt
      obtain rfl := Except.ok.inj h
      exact ⟨⟨m, hm, rfl⟩, hlt⟩
    · cases h

namespace Document

variable {d : Document} {is js : List NodeId} {t u r : TypeUse}

theorem Decorates.refl (d : Document) (t : TypeUse) : d.Decorates [] t t :=
  ⟨by simp, ⟨[], by simp, .nil⟩, by simp, by simp⟩

/-- decorations add up in order -/
theorem Decorates.append (hu : d.Decorates is t u) (hr : d.Decorates js u r) : d.Decorates (is ++ js) t r := by
  obtain ⟨extents, hdims, hextents⟩ := hu.arrayDims
  obtain ⟨extents', hdims', hextents'⟩ := hr.arrayDims
  refine ⟨?_, ⟨extents ++ extents', ?_, ?_⟩, ?_, ?_⟩
  · rw [hr.pointer, hu.pointer, List.countP_append]
    exact String.ext (by simp [List.replicate_append_replicate])
  · rw [hdims', hdims, List.append_assoc]
  · rw [List.filter_append]
    exact List.rel_append hextents hextents'
  · rw [hr.isReference, hu.isReference, List.any_append, Bool.or_assoc]
  · rw [hr.isConst, hu.isConst, List.any_append, Bool.or_assoc]

/-- one element adds its decoration, and no name -/
theorem decorates_of_decorate {k : NodeId} (h : (d.node k).decorate t = .ok r) :
    d.Decorates [k] t r ∧ r.name = t.name := by
  unfold Node.decorate at h
  cases hkind : (d.node k).kind with
  | arrayType =>
    simp only [hkind] at h
    cases hextent : (d.node k).extent with
    | error e =>
      rw [hextent] at h
      cases h
    | ok extent =>
      rw [hextent] at h
      obtain rfl := Except.ok.inj h
      refine ⟨⟨?_, ⟨[extent], rfl, ?_⟩, ?_, ?_⟩, rfl⟩
      · simp [hkind]
      · simpa [hkind] using Node.extent_eq_ok hextent
      · simp [hkind]
      · simp [hkind]
  | pointerType =>
    simp only [hkind] at h
    obtain rfl := Except.ok.inj h
    refine ⟨⟨String.ext (by simp [hkind]), ⟨[], by simp, by simp [hkind]⟩, by simp [hkind], by simp [hkind]⟩, rfl⟩
  | _ =>
    simp only [hkind] at h
    obtain rfl := Except.ok.inj h
    exact ⟨⟨by simp [hkind], ⟨[], by simp, by simp [hkind]⟩, by simp [hkind], by simp [hkind]⟩, rfl⟩

theorem decorates_of_decorations (h : d.decorations is t = .ok r) : d.Decorates is t r ∧ r.name = t.name := by
  induction is generalizing t with
  | nil =>
    obtain rfl := Except.ok.inj h
    exact ⟨.refl d t, rfl⟩
  | cons k is ih =>
    rw [decorations_cons] at h
    cases hdecorate : (d.node k).decorate t with
    | error e =>
      rw [hdecorate] at h
      cases h
    | ok u =>
      rw [hdecorate] at h
      obtain ⟨hfirst, hname⟩ := decorates_of_decorate hdecorate
      obtain ⟨hrest, hname'⟩ := ih h
      exact ⟨hfirst.append hrest, hname'.trans hname⟩

/-! ## How far a chain is followed -/

section Chains

variable {bound : List String} {i last : NodeId} {steps : Nat}

/-- where a chain does not go on, it ends in an element that gives a name, or the element is no type -/
theorem ending_cases (d : Document) {n : Node} (hpasses : n.passesOn bound = false) :
    (∃ terminal, d.ending bound n = .ok terminal ∧ n.GivesName bound terminal.name) ∨
    (d.ending bound n = .error n.notAType ∧ ∀ name, ¬n.GivesName bound name) := by
  unfold ending endFrom
  cases hkind : n.kind with
  | fundamentalType => exact .inl ⟨_, rfl, .fundamental hkind⟩
  | classType | structType | unionType | enumeration => exact .inl ⟨_, rfl, .named (by rw [hkind]; rfl)⟩
  | functionType => exact .inl ⟨_, rfl, .function hkind⟩
  | typedef =>
    have hbound : bound.contains n.name = true := by simpa [Node.passesOn, hkind] using hpasses
    exact .inl ⟨_, if_pos hbound, .boundTypedef hkind (by simpa using hbound)⟩
  | pointerType | arrayType | referenceType | cvQualifiedType => simp [Node.passesOn, hkind] at hpasses
  | _ =>
    refine .inr ⟨rfl, fun name hname => ?_⟩
    cases hname with
    | fundamental hother | boundTypedef hother _ | function hother =>
      rw [hkind] at hother
      cases hother
    | named hnamed =>
      rw [hkind] at hnamed
      cases hnamed

/-- an element from which a chain does not go on adds no decoration -/
theorem decorate_of_notPassesOn {n : Node} (hkind : n.passesOn bound = false) (t : TypeUse) : n.decorate t = .ok t := by
  unfold Node.decorate
  cases hn : n.kind with
  | pointerType | arrayType | referenceType | cvQualifiedType => simp [Node.passesOn, hn] at hkind
  | _ => rfl

/-- the elements of a chain, but for the last one -/
theorem TypeChain.eq_append (hi : d.TypeChain bound i last is) : ∃ before, is = before ++ [last] := by
  induction hi with
  | last _ => exact ⟨[], rfl⟩
  | @step i _ _ _ _ _ ih =>
    obtain ⟨before, rfl⟩ := ih
    exact ⟨i :: before, rfl⟩

/-- where a chain breaks at its last element, all the decorations before that place have been added -/
theorem breaksAfter_of_ending {typeId : String} {e : BuildError} (hplace : d.placeOf typeId = .ok i)
    (hi : d.TypeChain bound i last is) (hall : d.decorations is t = .ok u)
    (hending : d.ending bound (d.node last) = .error e) :
    ∃ before, d.BreaksAfter bound typeId before e ∧ d.decorations before t = .ok u := by
  by_cases hpasses : (d.node last).passesOn bound = true
  · obtain ⟨e', -, hnext, hbreaks⟩ := ending_of_passes hi.stops hpasses
    obtain rfl := Except.error.inj (hending.symm.trans hbreaks)
    refine ⟨is, .noNext hplace hi hpasses ?_, hall⟩
    rw [nextType_eq_map] at hnext
    cases htype : d.typePlace (d.node last) with
    | ok j => exact absurd ⟨hpasses, htype⟩ (hi.stops j)
    | error e' =>
      rw [htype] at hnext
      exact congrArg Except.error (Except.error.inj hnext)
  · rw [Bool.not_eq_true] at hpasses
    obtain ⟨terminal, hok, -⟩ | ⟨hno, hnoName⟩ := ending_cases d hpasses
    · rw [hok] at hending
      cases hending
    · obtain rfl := Except.error.inj (hno.symm.trans hending)
      obtain ⟨before, rfl⟩ := hi.eq_append
      refine ⟨before, .noType hplace hi hpasses hnoName, ?_⟩
      -- the last element adds nothing, so the decorations are those of the elements before it
      rw [decorations_append] at hall
      cases hbefore : d.decorations before t with
      | error e' =>
        rw [hbefore] at hall
        cases hall
      | ok u' =>
        rw [hbefore] at hall
        have hlast : d.decorations [last] u' = .ok u' := by
          rw [decorations_cons, decorate_of_notPassesOn hpasses]
          rfl
        exact congrArg Except.ok (Except.ok.inj (hlast.symm.trans hall))

/-- a chain that is followed to its end gives all its decorations and the name of its last element -/
theorem Followed.decorates {res : Resolution} {terminal : Terminal} (hres : d.Followed bound last is t res)
    (hi : d.TypeChain bound i last is) (hok : res.outcome = .ok terminal) :
    (d.node last).GivesName bound res.type.name ∧ d.Decorates is t res.type := by
  cases hres with
  | breaks | lacks => cases hok
  | @ends u terminal hall hending =>
    have hpasses : (d.node last).passesOn bound = false := by
      rw [← Bool.not_eq_true]
      intro hpasses
      obtain ⟨e, -, -, hbreaks⟩ := ending_of_passes hi.stops hpasses
      rw [hbreaks] at hending
      cases hending
    obtain ⟨terminal', hok, hname⟩ | ⟨hno, -⟩ := ending_cases d hpasses
    · obtain rfl := Except.ok.inj (hok.symm.trans hending)
      have hu := (decorates_of_decorations hall).1
      exact ⟨hname, ⟨hu.pointer, hu.arrayDims, hu.isReference, hu.isConst⟩⟩
    · rw [hno] at hending
      cases hending

/-- a chain that breaks gives the decorations before that place, and no name -/
theorem Followed.breaksAfter {typeId : String} {res : Resolution} {e : BuildError}
    (hres : d.Followed bound last is t res) (hplace : d.placeOf typeId = .ok i) (hi : d.TypeChain bound i last is)
    (herror : res.outcome = .error e) :
    ∃ before, d.BreaksAfter bound typeId before e ∧ res.type.name = t.name ∧ d.Decorates before t res.type := by
  cases hres with
  | ends => cases herror
  | breaks hall hending =>
    obtain rfl := Except.error.inj herror
    obtain ⟨before, hbreaks, hbefore⟩ := breaksAfter_of_ending hplace hi hall hending
    obtain ⟨hdecorates, hname⟩ := decorates_of_decorations hbefore
    exact ⟨before, hbreaks, hname, hdecorates⟩
  | lacks heq hbefore hlacks =>
    obtain rfl := Except.error.inj herror
    obtain ⟨harray, hextent⟩ := Node.decorate_eq_error hlacks
    obtain ⟨hdecorates, hname⟩ := decorates_of_decorations hbefore
    exact ⟨_, .extent hplace (heq ▸ hi) harray hextent, hname, hdecorates⟩

end Chains

/-! ## Following a chain that ends -/

section Follow

variable {bound : List String} {typeId : String}

theorem follow_of_placeOf {i : NodeId} {t : TypeUse} (hplace : d.placeOf typeId = .ok i) :
    d.follow bound typeId t = d.followFrom bound (d.nodes.size + 1) (d.node i) t := by
  unfold follow element
  rw [hplace]
  rfl

theorem follow_of_placeOf_error {e : BuildError} {t : TypeUse} (hplace : d.placeOf typeId = .error e) :
    d.follow bound typeId t = ⟨t, .error e⟩ := by
  unfold follow element
  rw [hplace]
  rfl

/-- **Following a chain that ends adds exactly its decorations.** If the chain can be followed, the descriptor has the
decorations of all its elements behind its own, and takes the name that the last one gives. If it breaks, the name
stays, and the descriptor has the decorations of the elements before that place. So what is added does not depend on
the descriptor. -/
theorem follow_decorates (hends : d.ChainEnds bound typeId) (t : TypeUse) :
    (∀ terminal, (d.follow bound typeId t).outcome = .ok terminal →
      ∃ i last is, d.placeOf typeId = .ok i ∧ d.TypeChain bound i last is ∧
        (d.node last).GivesName bound (d.follow bound typeId t).type.name ∧
        d.Decorates is t (d.follow bound typeId t).type) ∧
    (∀ e, (d.follow bound typeId t).outcome = .error e →
      ∃ before, d.BreaksAfter bound typeId before e ∧ (d.follow bound typeId t).type.name = t.name ∧
        d.Decorates before t (d.follow bound typeId t).type) ∧
    d.follow bound typeId t = (d.follow bound typeId .empty).behind t := by
  cases hplace : d.placeOf typeId with
  | error e =>
    rw [follow_of_placeOf_error hplace]
    refine ⟨fun terminal h => (by cases h), fun e' h => ?_, ?_⟩
    · obtain rfl := Except.error.inj h
      exact ⟨[], .unknown hplace, rfl, .refl d t⟩
    · rw [← follow_of_placeOf_error hplace, follow_behind]
  | ok i =>
    obtain ⟨last, is, hi⟩ := hends i hplace
    have hfollowed := followFrom_of_chain hi hi.length_le t
    rw [← follow_of_placeOf hplace] at hfollowed
    refine ⟨fun terminal hok => ?_, fun e herror => hfollowed.breaksAfter hplace hi herror, follow_behind t⟩
    obtain ⟨hname, hdecorates⟩ := hfollowed.decorates hi hok
    exact ⟨i, last, is, rfl, hi, hname, hdecorates⟩

/-- a pointer to a typedef of a constant array of two arrays of four `unsigned long` -/
def tablePointer : Document :=
  ⟨"CastXML", [], #[⟨.pointerType, [("id", "p"), ("type", "t")], [], none⟩,
    ⟨.typedef, [("id", "t"), ("name", "TABLE"), ("type", "c")], [], none⟩,
    ⟨.cvQualifiedType, [("id", "c"), ("type", "a"), ("const", "1")], [], none⟩,
    ⟨.arrayType, [("id", "a"), ("type", "b"), ("max", "1u")], [], none⟩,
    ⟨.arrayType, [("id", "b"), ("type", "i"), ("max", "3")], [], none⟩,
    ⟨.fundamentalType, [("id", "i"), ("name", "long unsigned int")], [], none⟩], [0, 1, 2, 3, 4, 5],
    [("p", 0), ("t", 1), ("c", 2), ("a", 3), ("b", 4), ("i", 5)], []⟩

theorem follow_decorates_tablePointer :
    tablePointer.ChainEnds [] "p" ∧ ∃ i last is, tablePointer.placeOf "p" = .ok i ∧
      tablePointer.TypeChain [] i last is ∧ (tablePointer.node last).GivesName [] "unsigned long" ∧
      tablePointer.Decorates is ⟨"old", "*", [5], true, false⟩ ⟨"unsigned long", "**", [5, 2, 4], true, true⟩ := by
  have hend : tablePointer.endOf [] "p" = .ok (.fundamental "long unsigned int") := by decide +kernel
  have htype : (tablePointer.follow [] "p" ⟨"old", "*", [5], true, false⟩).type =
      ⟨"unsigned long", "**", [5, 2, 4], true, true⟩ := by
    decide +kernel
  have houtcome : (tablePointer.follow [] "p" ⟨"old", "*", [5], true, false⟩).outcome =
      .ok (.fundamental "long unsigned int") := by
    decide +kernel
  have hends : tablePointer.ChainEnds [] "p" := by
    rw [chainEnds_iff, hend]
    exact nofun
  obtain ⟨hok, -, -⟩ := follow_decorates hends ⟨"old", "*", [5], true, false⟩
  rw [houtcome, htype] at hok
  exact ⟨hends, hok _ rfl⟩

end Follow

end Document

end HeaderModel
