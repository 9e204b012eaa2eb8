/-
Bodies in step.

The body of an element builds other elements and puts the results together. If two builders answer its dependencies
in step, the body comes out in step as well. For interfaces the results are equal. An aggregate that is nested in
another is named by whoever builds it first, so for aggregates the results are `Aggregate.Alike`: equal but for names
that a relation allows.
- `interfaceBody_inStep`, `aggregateBody_inStep`: the rules for both bodies.
-/
import HeaderModel.Proofs.Memory

namespace HeaderModel

/-! ## Aggregates that agree but for names -/

/-- the fields agree, but the names of their types may be two names of one element -/
structure Field.Alike (Names : NodeId → String → String → Prop) (f f' : Field) : Prop where
  name : f.name = f'.name
  offset : f.offset = f'.offset
  bits : f.bits = f'.bits
  pointer : f.type.pointer = f'.type.pointer
  arrayDims : f.type.arrayDims = f'.type.arrayDims
  isReference : f.type.isReference = f'.type.isReference
  isConst : f.type.isConst = f'.type.isConst
  typeName : f.type.name = f'.type.name ∨ ∃ j, Names j f.type.name f'.type.name

/-- two aggregates that an element can declare agree, but for names of elements -/
structure Aggregate.Alike (Names : NodeId → String → String → Prop) (i : NodeId) (a a' : Aggregate) : Prop where
  name : Names i a.name a'.name
  isUnion : a.isUnion = a'.isUnion
  base : Option.Rel (fun s s' => ∃ j, Names j s s') a.base a'.base
  fields : List.Forall₂ (Field.Alike Names) a.fields a'.fields

/-- two entries declare aggregates of one element that agree, but for names -/
def Entry.Alike (Names : NodeId → String → String → Prop) (e e' : Entry) : Prop :=
  ∃ i a a', e = ⟨some i, .aggregate a⟩ ∧ e' = ⟨some i, .aggregate a'⟩ ∧ Aggregate.Alike Names i a a'

section Alike

variable {Names Names' : NodeId → String → String → Prop} {f f' : Field} {a a' : Aggregate} {i : NodeId}

theorem Field.Alike.refl (Names : NodeId → String → String → Prop) (f : Field) : f.Alike Names f :=
  ⟨rfl, rfl, rfl, rfl, rfl, rfl, rfl, .inl rfl⟩

theorem Field.Alike.mono (hf : f.Alike Names f') (h : ∀ j s s', Names j s s' → Names' j s s') : f.Alike Names' f' :=
  ⟨hf.name, hf.offset, hf.bits, hf.pointer, hf.arrayDims, hf.isReference, hf.isConst,
    hf.typeName.imp_right fun ⟨j, hj⟩ => ⟨j, h j _ _ hj⟩⟩

theorem Aggregate.Alike.mono (ha : a.Alike Names i a') (h : ∀ j s s', Names j s s' → Names' j s s') :
    a.Alike Names' i a' := by
  refine ⟨h i _ _ ha.name, ha.isUnion, ?_, ha.fields.imp fun _ _ hf => hf.mono h⟩
  have hbase := ha.base
  generalize a.base = s, a'.base = s' at hbase ⊢
  cases hbase with
  | some hs =>
    obtain ⟨j, hj⟩ := hs
    exact .some ⟨j, h j _ _ hj⟩
  | none => exact .none

theorem Aggregate.Alike.isNone_base (ha : a.Alike Names i a') : a.base.isNone = a'.base.isNone := by
  have hbase := ha.base
  generalize a.base = s, a'.base = s' at hbase ⊢
  cases hbase <;> rfl

/-- fields that agree but for equal names are equal -/
theorem Field.Alike.eq (hf : f.Alike (fun _ => Eq) f') : f = f' := by
  have htype : f.type.name = f'.type.name := hf.typeName.elim id fun ⟨_, h⟩ => h
  obtain ⟨hname, hoffset, hbits, hpointer, harray, href, hconst, -⟩ := hf
  obtain ⟨name, ⟨typeName, pointer, arrayDims, isReference, isConst⟩, offset, bits⟩ := f
  obtain ⟨name', ⟨typeName', pointer', arrayDims', isReference', isConst'⟩, offset', bits'⟩ := f'
  simp_all

/-- aggregates that agree but for equal names are equal -/
theorem Aggregate.Alike.eq (ha : a.Alike (fun _ => Eq) i a') : a = a' := by
  have hbase : a.base = a'.base := by
    have hbase := ha.base
    generalize a.base = s, a'.base = s' at hbase ⊢
    cases hbase with
    | some hs =>
      obtain ⟨_, rfl⟩ := hs
      rfl
    | none => rfl
  have hfields : a.fields = a'.fields := by
    rw [← List.forall₂_eq_eq_eq]
    exact ha.fields.imp fun f f' hf => hf.eq
  obtain ⟨hname, hunion, -, -⟩ := ha
  obtain ⟨name, isUnion, base, fields⟩ := a
  obtain ⟨name', isUnion', base', fields'⟩ := a'
  simp_all

end Alike

namespace Build

/-- layouts agree but for the names of types -/
structure Layout.Alike (Names : NodeId → String → String → Prop) (l l' : Layout) : Prop where
  fields : List.Forall₂ (Field.Alike Names) l.fields l'.fields
  offset : l.offset = l'.offset
  nested : l.nested = l'.nested

section Layouts

variable {Names : NodeId → String → String → Prop} {l l' : Layout}

theorem Layout.Alike.push (hl : l.Alike Names l') (isUnion : Bool) {f f' : Field} (hf : f.Alike Names f') :
    (l.push isUnion f).Alike Names (l'.push isUnion f') := by
  refine ⟨List.rel_append hl.fields (.cons hf .nil), ?_, hl.nested⟩
  simp only [Layout.push, hl.offset, hf.bits]

/-- alike fields open the same places -/
theorem offsets_eq {fs fs' : List Field} (hf : List.Forall₂ (Field.Alike Names) fs fs') :
    fs.map (·.offset) = fs'.map (·.offset) := by
  induction hf with
  | nil => rfl
  | cons hf _ ih => rw [List.map_cons, List.map_cons, hf.offset, ih]

theorem Layout.Alike.inline (hl : l.Alike Names l') (isUnion : Bool) {fs fs' : List Field}
    (hf : List.Forall₂ (Field.Alike Names) fs fs') : (l.inline isUnion fs).Alike Names (l'.inline isUnion fs') := by
  have hmoved : List.Forall₂ (Field.Alike Names) (fs.map fun f => { f with offset := f.offset + l.offset })
      (fs'.map fun f => { f with offset := f.offset + l'.offset }) := by
    rw [List.forall₂_map_left_iff, List.forall₂_map_right_iff, hl.offset]
    exact hf.imp fun f f' hf => ⟨hf.name, congrArg (· + l'.offset) hf.offset, hf.bits, hf.pointer, hf.arrayDims,
      hf.isReference, hf.isConst, hf.typeName⟩
  have hlast := congrArg List.getLast? (offsets_eq hmoved)
  rw [List.getLast?_map (f := fun f : Field => f.offset), List.getLast?_map (f := fun f : Field => f.offset)] at hlast
  refine ⟨List.rel_append hl.fields hmoved, ?_, congrArg (· + 1) hl.nested⟩
  simp only [Layout.inline]
  rw [hlast, hl.offset]

end Layouts

/-! ## The rules -/

section Rules

variable {h : Headers} {lenient : Prop} {Names : NodeId → String → String → Prop} {R : Builder → Builder → Prop}

theorem interfaceBody_inStep {build build' : NodeId → Build Interface} {n : Node}
    (hR : ∀ c b ns, R c b → R (c.noting ns) (b.noting ns))
    (hbuild : ∀ j, h.document.ListsBase n j → InStep lenient R Eq (build j) (build' j)) :
    InStep lenient R Eq (interfaceBody h build n) (interfaceBody h build' n) := by
  rw [interfaceBody_eq, interfaceBody_eq]
  refine (InStep.foldlM (Q := Eq) (fun id hid s t hst => ?_) rfl).bind fun s t hst => ?_
  · subst hst
    refine (inStep_of _).bind fun j j' hj => ?_
    obtain ⟨rfl, hj⟩ := hj
    refine (hbuild j ⟨id, hid, hj⟩).bind fun parent parent' hparent => ?_
    subst hparent
    exact (steady_inheritRest h s j parent).inStep hR
  · subst hst
    exact (steady_interfaceRest h n s).inStep hR

/-- a relation of builders that outlasts what a body does by itself: it notes things and lets alike aggregates wait -/
structure Lasting (Names : NodeId → String → String → Prop) (R : Builder → Builder → Prop) : Prop where
  noting : ∀ c b ns, R c b → R (c.noting ns) (b.noting ns)
  awaiting : ∀ c b e e', Entry.Alike Names e e' → R c b → R (c.awaiting e) (b.awaiting e')

theorem baseName_inStep {build build' : NodeId → Option Enclosing → Build Aggregate} {n : Node}
    (hbuild : ∀ j, h.document.ListsBase n j →
      InStep lenient R (Aggregate.Alike Names j) (build j none) (build' j none)) :
    InStep lenient R (Option.Rel fun s s' => ∃ j, Names j s s') (baseName h build n) (baseName h build' n) := by
  refine InStep.foldlM (fun id hid s t hst => ?_) .none
  refine (inStep_of _).bind fun j j' hj => ?_
  obtain ⟨rfl, hj⟩ := hj
  refine (hbuild j ⟨id, hid, hj⟩).bind fun base base' hbase => .pure ?_
  rw [hbase.isNone_base]
  split_ifs
  · exact .some ⟨j, hbase.name⟩
  · exact hst

theorem member_inStep {build build' : NodeId → Option Enclosing → Build Aggregate} {owner n : Node}
    {name name' : String} {l l' : Layout} (hR : Lasting Names R) (hn : n ∈ h.document.childrenOf owner .field)
    (hbuild : ∀ j k, h.document.Nests owner j →
      InStep lenient R (Aggregate.Alike Names j) (build j (some ⟨name, k⟩)) (build' j (some ⟨name', k⟩)))
    (hl : l.Alike Names l') :
    InStep lenient R (Layout.Alike Names) (member h build owner name l n) (member h build' owner name' l' n) := by
  unfold member
  rw [hl.offset]
  refine ((steady_field h l'.offset n).inStep hR.noting).bind fun f f' hf => ?_
  subst hf
  refine (inStep_of _).bind fun typeId typeId' htype => ?_
  obtain ⟨rfl, htype⟩ := htype
  refine (inStep_of _).bind fun j j' hj => ?_
  obtain ⟨rfl, hj⟩ := hj
  have hplace : h.document.typePlace n = .ok j := by
    rw [Document.typePlace, htype]
    exact hj
  by_cases hnest : isNestedIn owner (h.document.node j)
  · simp only [hnest, if_true, hl.nested]
    refine (hbuild j l'.nested ⟨n, hn, hplace, hnest⟩).bind fun inner inner' hinner => ?_
    by_cases hname : n.name = ""
    · simp only [hname, if_true]
      exact .pure (hl.inline _ hinner.fields)
    · simp only [hname, if_false]
      refine InStep.bind (Q := Eq) (fun c b hcb => ?_) fun _ _ _ => .pure ?_
      · exact .ok rfl (hR.awaiting c b _ _ ⟨j, inner, inner', rfl, rfl, hinner⟩ hcb)
      · have hnext : Layout.Alike Names ⟨l.fields, l'.offset, l'.nested + 1⟩ ⟨l'.fields, l'.offset, l'.nested + 1⟩ :=
          ⟨hl.fields, rfl, rfl⟩
        exact hnext.push _ ⟨rfl, rfl, rfl, rfl, rfl, rfl, rfl, .inr ⟨j, hinner.name⟩⟩
  · simp only [hnest]
    exact .pure (hl.push _ (.refl Names f))

/-- **The body of an aggregate in step.** -/
theorem aggregateBody_inStep {build build' : NodeId → Option Enclosing → Build Aggregate} {i : NodeId}
    {outer outer' : Option Enclosing} (hR : Lasting Names R)
    (hname : Names i (aggregateName (h.document.node i).name outer) (aggregateName (h.document.node i).name outer'))
    (hbase : ∀ j, h.document.ListsBase (h.document.node i) j →
      InStep lenient R (Aggregate.Alike Names j) (build j none) (build' j none))
    (hnest : ∀ j k, h.document.Nests (h.document.node i) j →
      InStep lenient R (Aggregate.Alike Names j)
        (build j (some ⟨aggregateName (h.document.node i).name outer, k⟩))
        (build' j (some ⟨aggregateName (h.document.node i).name outer', k⟩))) :
    InStep lenient R (Aggregate.Alike Names i) (aggregateBody h build (h.document.node i) outer)
      (aggregateBody h build' (h.document.node i) outer') := by
  refine (baseName_inStep hbase).bind fun base base' hb => ?_
  refine (InStep.foldlM (Q := Layout.Alike Names) (fun n hn l l' hl => ?_) ⟨.nil, rfl, rfl⟩).bind fun l l' hl => ?_
  · exact member_inStep hR hn hnest hl
  · exact .pure ⟨hname, rfl, hb, hl.fields⟩

end Rules

end Build

end HeaderModel
