/-
Where the fields of an aggregate come from.

A field comes from a member: of the aggregate's own element, or of one whose fields were taken in because its member
has no name (`Document.Sources`). The field has the name of its member, and its type is the one that the member's chain
ends in. If that type is nested in the member's owner, it is called as the nested aggregate is (`Headers.Stems`).
- `member_layout`: what one member does to a layout.
- `aggregate_sources`: every remembered aggregate has a field for every one of its sources, in order.
- `nested_remembered`: what is nested in a remembered element, as the type of a member, is remembered.
-/
import HeaderModel.Proofs.Memory

namespace HeaderModel

/-! ## Sources -/

namespace Document

/-- the type of a member is an aggregate that is nested in the member's owner -/
def HasNested (d : Document) (owner m : Node) (j : NodeId) : Prop :=
  d.typePlace m = .ok j ∧ Build.isNestedIn owner (d.node j) = true

/-- the members of an element from which fields come, each with its owner: where a member has no name and a nested
type, the fields come from the members of that type -/
inductive Sources (d : Document) : NodeId → List Node → List (NodeId × Node) → Prop where
  | nil {k : NodeId} : Sources d k [] []
  | inlined {k j : NodeId} {m : Node} {ms : List Node} {ss ss' : List (NodeId × Node)} : m.name = "" →
      d.HasNested (d.node k) m j → Sources d j (d.childrenOf (d.node j) .field) ss → Sources d k ms ss' →
      Sources d k (m :: ms) (ss ++ ss')
  | own {k : NodeId} {m : Node} {ms : List Node} {ss : List (NodeId × Node)} :
      (m.name = "" → ∀ j, ¬d.HasNested (d.node k) m j) → Sources d k ms ss → Sources d k (m :: ms) ((k, m) :: ss)

/-- the type of a member is not nested if it is found elsewhere -/
theorem not_hasNested {d : Document} {owner m : Node} {i : NodeId} (hplace : d.typePlace m = .ok i)
    (hi : ¬Build.isNestedIn owner (d.node i) = true) (j : NodeId) : ¬d.HasNested owner m j := by
  rintro ⟨hplace', hnest⟩
  obtain rfl := Except.ok.inj (hplace.symm.trans hplace')
  exact hi hnest

theorem HasNested.unique {d : Document} {owner m : Node} {j j' : NodeId} (hj : d.HasNested owner m j)
    (hj' : d.HasNested owner m j') : j = j' := Except.ok.inj (hj.1.symm.trans hj'.1)

end Document

namespace Headers

/-- the chain of a type id ends, and this is the type that it spells -/
def Resolves (h : Headers) (id : String) (t : TypeUse) : Prop :=
  ∃ terminal, h.document.follow h.scope.boundNames id .empty = ⟨t, .ok terminal⟩

/-- a field comes from a member of an element -/
structure Stems (h : Headers) (memory : List (NodeId × Aggregate)) (f : Field) (source : NodeId × Node) : Prop where
  name : source.2.name ≠ "" → f.name = source.2.name
  type : ∃ id t, source.2.need "type" = .ok id ∧ h.Resolves id t ∧
    ((∀ j, ¬h.document.HasNested (h.document.node source.1) source.2 j) ∧ f.type = t ∨
      source.2.name ≠ "" ∧ ∃ j a, h.document.HasNested (h.document.node source.1) source.2 j ∧
        memory.lookup j = some a ∧ f.type = { t with name := a.name })
  bits : ∀ c : Builder, (c.run (Build.bitWidth source.2)).1 = .ok f.bits

/-- what matters about a field beside its place -/
theorem Stems.congr {h : Headers} {memory : List (NodeId × Aggregate)} {f f' : Field} {source : NodeId × Node}
    (hf : h.Stems memory f source) (hname : f'.name = f.name) (htype : f'.type = f.type) (hbits : f'.bits = f.bits) :
    h.Stems memory f' source :=
  ⟨fun hnamed => hname.trans (hf.name hnamed), htype ▸ hf.type, hbits ▸ hf.bits⟩

/-- what was remembered still is -/
theorem Stems.mono {h : Headers} {memory memory' : List (NodeId × Aggregate)} {f : Field} {source : NodeId × Node}
    (hf : h.Stems memory f source)
    (hmemory : ∀ j a, memory.lookup j = some a → memory'.lookup j = some a) : h.Stems memory' f source := by
  refine ⟨hf.name, ?_, hf.bits⟩
  obtain ⟨id, t, hneed, hresolves, hcase⟩ := hf.type
  refine ⟨id, t, hneed, hresolves, hcase.imp_right fun ⟨hnamed, j, a, hnested, ha, htype⟩ => ?_⟩
  exact ⟨hnamed, j, a, hnested, hmemory j a ha, htype⟩

/-- an aggregate has a field for every one of its sources, in order -/
def Sourced (h : Headers) (memory : List (NodeId × Aggregate)) (k : NodeId) (a : Aggregate) : Prop :=
  ∃ ss, h.document.Sources k (h.document.childrenOf (h.document.node k) .field) ss ∧
    List.Forall₂ (h.Stems memory) a.fields ss

end Headers

/-! ## Members -/

namespace Build

variable {h : Headers} {c : Builder}

theorem typeOf_resolves {id : String} {t : TypeUse} (hrun : (c.run (typeOf h id)).1 = .ok t) : h.Resolves id t := by
  unfold typeOf at hrun
  obtain ⟨terminal, hof, hrest⟩ := Builder.run_bind_eq_ok.1 hrun
  obtain ⟨_, _, hpure⟩ := Builder.run_bind_eq_ok.1 hrest
  rw [Builder.run_of] at hof
  rw [Builder.run_pure] at hpure
  exact ⟨terminal, by rw [← Except.ok.inj hpure, ← hof]⟩

theorem field_ok {offset : Nat} {m : Node} {f : Field} (hrun : (c.run (field h offset m)).1 = .ok f) :
    f.name = (if m.name = "" then "field" ++ toString offset else m.name) ∧ f.offset = offset ∧
      (∀ c' : Builder, (c'.run (bitWidth m)).1 = .ok f.bits) ∧ ∃ id, m.need "type" = .ok id ∧ h.Resolves id f.type := by
  unfold field at hrun
  obtain ⟨bits, hbits, hrest⟩ := Builder.run_bind_eq_ok.1 hrun
  obtain ⟨id, hid, hrest⟩ := Builder.run_bind_eq_ok.1 hrest
  obtain ⟨t, ht, hpure⟩ := Builder.run_bind_eq_ok.1 hrest
  rw [Builder.run_of] at hid
  rw [Builder.run_pure] at hpure
  obtain rfl := Except.ok.inj hpure
  obtain ⟨width, ns, hwidth⟩ := steady_bitWidth m
  refine ⟨rfl, rfl, fun c' => ?_, id, hid, typeOf_resolves ht⟩
  rw [hwidth] at hbits ⊢
  exact hbits

variable {memory : List (NodeId × Aggregate)}

/-- What one member does to a layout: if it has no name and a nested type, the fields of this type are taken in;
otherwise the member adds one field, at the next offset. Without a name, the field is called after this offset. -/
theorem member_layout {k : NodeId} {name : String} {l l' : Layout} {m : Node}
    (hrun : (c.run (member h (fun j _ => recallFrom memory j) (h.document.node k) name l m)).1 = .ok l') :
    (∃ j a, m.name = "" ∧ h.document.HasNested (h.document.node k) m j ∧ memory.lookup j = some a ∧
      l' = l.inline (decide ((h.document.node k).kind = .unionType)) a.fields) ∨
    (m.name = "" → ∀ j, ¬h.document.HasNested (h.document.node k) m j) ∧
      ∃ (f : Field) (n : Nat), h.Stems memory f (k, m) ∧ f.offset = l.offset ∧
        f.name = (if m.name = "" then "field" ++ toString l.offset else m.name) ∧
        l' = Layout.push { l with nested := n } (decide ((h.document.node k).kind = .unionType)) f := by
  unfold member at hrun
  obtain ⟨f, hf, hrest⟩ := Builder.run_bind_eq_ok.1 hrun
  obtain ⟨hfield, hoffset, hbits, id, hneed, hresolves⟩ := field_ok hf
  have hname : m.name ≠ "" → f.name = m.name := fun hnamed => hfield.trans (if_neg hnamed)
  obtain ⟨id', hid, hrest⟩ := Builder.run_bind_eq_ok.1 hrest
  rw [Builder.run_of, hneed] at hid
  obtain rfl := Except.ok.inj hid
  obtain ⟨j, hj, hrest⟩ := Builder.run_bind_eq_ok.1 hrest
  rw [Builder.run_of] at hj
  have hplace : h.document.typePlace m = .ok j := by
    rw [Document.typePlace, hneed]
    exact hj
  by_cases hnest : isNestedIn (h.document.node k) (h.document.node j)
  · have hnested : h.document.HasNested (h.document.node k) m j := ⟨hplace, hnest⟩
    simp only [hnest, if_true] at hrest
    obtain ⟨a, ha, hrest⟩ := Builder.run_bind_eq_ok.1 hrest
    replace ha := run_recallFrom_eq_ok.1 ha
    by_cases hnamed : m.name = ""
    · simp only [hnamed, if_true, Builder.run_pure] at hrest
      obtain rfl := Except.ok.inj hrest
      exact .inl ⟨j, a, hnamed, hnested, ha, rfl⟩
    · simp only [hnamed, if_false] at hrest
      obtain ⟨_, _, hpure⟩ := Builder.run_bind_eq_ok.1 hrest
      rw [Builder.run_pure] at hpure
      obtain rfl := Except.ok.inj hpure
      exact .inr ⟨fun h => absurd h hnamed, { f with type := { f.type with name := a.name } }, l.nested + 1,
        ⟨hname, ⟨id, f.type, hneed, hresolves, .inr ⟨hnamed, j, a, hnested, ha, rfl⟩⟩, hbits⟩, hoffset, hfield, rfl⟩
  · have hnone : ∀ j', ¬h.document.HasNested (h.document.node k) m j' := Document.not_hasNested hplace hnest
    simp only [hnest] at hrest
    rw [if_neg Bool.false_ne_true, Builder.run_pure] at hrest
    obtain rfl := Except.ok.inj hrest
    exact .inr ⟨fun _ => hnone, f, l.nested, ⟨hname, ⟨id, f.type, hneed, hresolves, .inl ⟨hnone, rfl⟩⟩, hbits⟩,
      hoffset, hfield, rfl⟩

/-- What one member adds to the fields: those of a nested aggregate if it has no name, or one field of its own. -/
theorem member_stems {k : NodeId} {name : String} {l l' : Layout} {m : Node}
    (hrun : (c.run (member h (fun j _ => recallFrom memory j) (h.document.node k) name l m)).1 = .ok l') :
    (∃ j a, m.name = "" ∧ h.document.HasNested (h.document.node k) m j ∧ memory.lookup j = some a ∧
      l'.fields = l.fields ++ a.fields.map fun f => { f with offset := f.offset + l.offset }) ∨
    (m.name = "" → ∀ j, ¬h.document.HasNested (h.document.node k) m j) ∧
      ∃ f, l'.fields = l.fields ++ [f] ∧ h.Stems memory f (k, m) := by
  rcases member_layout hrun with ⟨j, a, hname, hnested, ha, rfl⟩ | ⟨hnot, f, n, hstems, -, -, rfl⟩
  · exact .inl ⟨j, a, hname, hnested, ha, rfl⟩
  · exact .inr ⟨hnot, f, rfl, hstems⟩

/-! ## Aggregates -/

/-- what members add to a layout, if every remembered aggregate has a field for each of its sources -/
theorem members_sources {k : NodeId} {name : String} {ms : List Node} {l l' : Layout}
    (hmemory : ∀ j a, memory.lookup j = some a → h.Sourced memory j a)
    (hrun : (c.run (ms.foldlM (member h (fun j _ => recallFrom memory j) (h.document.node k) name) l)).1 = .ok l') :
    ∃ fs ss, l'.fields = l.fields ++ fs ∧ h.document.Sources k ms ss ∧ List.Forall₂ (h.Stems memory) fs ss := by
  induction ms generalizing l c with
  | nil =>
    obtain rfl := Except.ok.inj hrun
    exact ⟨[], [], (List.append_nil _).symm, .nil, .nil⟩
  | cons m ms ih =>
    rw [List.foldlM_cons] at hrun
    obtain ⟨l₁, hfirst, hrest⟩ := Builder.run_bind_eq_ok.1 hrun
    obtain ⟨fs', ss', hfields', hsources', hstems'⟩ := ih hrest
    rcases member_stems hfirst with ⟨j, a, hname, hnested, ha, hfields⟩ | ⟨hnot, f, hfields, hstems⟩
    · obtain ⟨ss, hsources, hstems⟩ := hmemory j a ha
      -- the fields of the nested aggregate stand elsewhere now, but they have the same sources
      have hmoved :
          List.Forall₂ (h.Stems memory) (a.fields.map fun f => { f with offset := f.offset + l.offset }) ss := by
        rw [List.forall₂_map_left_iff]
        exact hstems.imp fun f s hf => hf.congr rfl rfl rfl
      refine ⟨_, ss ++ ss', ?_, .inlined hname hnested hsources hsources', List.rel_append hmoved hstems'⟩
      rw [hfields', hfields, List.append_assoc]
    · refine ⟨f :: fs', (k, m) :: ss', ?_, .own hnot hsources', .cons hstems hstems'⟩
      rw [hfields', hfields, List.append_assoc, List.singleton_append]

/-- the body of an aggregate: its members, laid out one after the other -/
theorem aggregateBody_ok {build : NodeId → Option Enclosing → Build Aggregate} {n : Node} {outer : Option Enclosing}
    {a : Aggregate} (hrun : (c.run (aggregateBody h build n outer)).1 = .ok a) :
    ∃ (c' : Builder) (l : Layout), a.name = aggregateName n.name outer ∧ a.isUnion = decide (n.kind = .unionType) ∧
      a.fields = l.fields ∧
      (c'.run ((h.document.childrenOf n .field).foldlM (member h build n (aggregateName n.name outer)) .start)).1 =
        .ok l := by
  unfold aggregateBody at hrun
  obtain ⟨base, _, hrest⟩ := Builder.run_bind_eq_ok.1 hrun
  obtain ⟨l, hl, hpure⟩ := Builder.run_bind_eq_ok.1 hrest
  rw [Builder.run_pure] at hpure
  obtain rfl := Except.ok.inj hpure
  exact ⟨_, l, rfl, rfl, rfl, hl⟩

end Build

/-- **Every remembered aggregate has a field for each of its sources, in order,** named and typed as the source says. -/
theorem aggregate_sources {h : Headers} {memory : List (NodeId × Aggregate)} (hm : Grounded (MadeAggregate h) memory)
    {k : NodeId} {a : Aggregate} (ha : memory.lookup k = some a) : h.Sourced memory k a := by
  induction hm generalizing k a with
  | nil => cases ha
  | @cons memory i a' hm hnew hmade ih =>
    have hwider : ∀ j a'', memory.lookup j = some a'' → ((i, a') :: memory).lookup j = some a'' :=
      fun _ _ => lookup_cons_of_some hnew
    -- with more remembered, an aggregate has the same sources
    suffices hsourced : h.Sourced memory k a by
      obtain ⟨ss, hsources, hstems⟩ := hsourced
      exact ⟨ss, hsources, hstems.imp fun f s hf => hf.mono hwider⟩
    by_cases hki : k = i
    · subst hki
      rw [List.lookup_cons_self] at ha
      obtain rfl := Option.some.inj ha
      obtain ⟨outer, -, hbody⟩ := hmade
      obtain ⟨c, l, -, -, hfields, hrun⟩ := Build.aggregateBody_ok (hbody (.new (.empty "")))
      obtain ⟨fs, ss, hl, hsources, hstems⟩ := Build.members_sources (fun j a'' => ih) hrun
      refine ⟨ss, hsources, ?_⟩
      rw [hfields, hl]
      exact hstems
    · rw [List.lookup_cons, beq_false_of_ne hki] at ha
      exact ih ha

/-! ## Closed memories -/

theorem Builder.foldlM_ran {α β : Type} {f : β → α → Build β} {xs : List α} {s t : β} {c : Builder}
    (hrun : (c.run (xs.foldlM f s)).1 = .ok t) :
    ∀ x ∈ xs, ∃ (c' : Builder) (s' t' : β), (c'.run (f s' x)).1 = .ok t' := by
  induction xs generalizing c s with
  | nil =>
    intro x hx
    cases hx
  | cons y xs ih =>
    rw [List.foldlM_cons] at hrun
    obtain ⟨s', hfirst, hrest⟩ := Builder.run_bind_eq_ok.1 hrun
    intro x hx
    rcases List.mem_cons.1 hx with rfl | hx
    · exact ⟨c, s, s', hfirst⟩
    · exact ih hrest x hx

/-- what is nested in an element that was made was there before -/
theorem MadeAggregate.nested {h : Headers} {older : List (NodeId × Aggregate)} {k j : NodeId} {a : Aggregate}
    (hmade : MadeAggregate h older k a) (hj : h.document.Nests (h.document.node k) j) : (older.lookup j).isSome := by
  obtain ⟨outer, -, hbody⟩ := hmade
  obtain ⟨f, hf, hplace, hnest⟩ := hj
  obtain ⟨c, l, -, -, -, hrun⟩ := Build.aggregateBody_ok (hbody (.new (.empty "")))
  obtain ⟨c', l₁, l₂, hmember⟩ := Builder.foldlM_ran hrun f hf
  have hnested : h.document.HasNested (h.document.node k) f j := ⟨hplace, hnest⟩
  rcases Build.member_stems hmember with ⟨j', a', -, hnested', ha', -⟩ | ⟨-, f', -, hstems⟩
  · obtain rfl := hnested.unique hnested'
    exact Option.isSome_of_eq_some ha'
  · obtain ⟨id, t, -, -, ⟨hnot, -⟩ | ⟨-, j', a', hnested', ha', -⟩⟩ := hstems.type
    · exact absurd hnested (hnot j)
    · obtain rfl := hnested.unique hnested'
      exact Option.isSome_of_eq_some ha'

/-- a memory is closed: with an element it has the nested types of the element's members -/
theorem nested_remembered {h : Headers} {memory : List (NodeId × Aggregate)} (hm : Grounded (MadeAggregate h) memory)
    {k j : NodeId} {a : Aggregate} (ha : memory.lookup k = some a) (hj : h.document.Nests (h.document.node k) j) :
    (memory.lookup j).isSome := by
  obtain ⟨older, hsuffix, -, hmade⟩ := hm.made ha
  obtain ⟨a', ha'⟩ := Option.isSome_iff_exists.1 (hmade.nested hj)
  rw [hm.lookup_of_suffix hsuffix ha']
  rfl

end HeaderModel
