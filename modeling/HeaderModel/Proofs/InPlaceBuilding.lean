/-
Building with members in place.

A struct that takes structs in can be built in another document, where the elements below the taken-in types stand in
the place of the members without names (`Document.InPlace`).
- `exists_inPlace`: for what is built, the members in place can be listed.
- `Document.Sources.hasNested`: which types are nested in the struct when its members are in place.
- `madeAggregate_inPlace`: what is built can be built with its members in place.
-/
import HeaderModel.Proofs.FieldPlaces
import HeaderModel.Proofs.OtherMembers

namespace HeaderModel

/-! ## Members in place -/

namespace Document

/-- what is below an element, with members in place: where a member has no name and a nested type, what is below this
type stands in its place -/
inductive InPlace (d : Document) : NodeId → List NodeId → List NodeId → Prop where
  | nil {k : NodeId} : InPlace d k [] []
  | inlined {k i j : NodeId} {is flat flat' : List NodeId} : (d.node i).kind = .field → (d.node i).name = "" →
      d.HasNested (d.node k) (d.node i) j → InPlace d j (d.node j).children flat → InPlace d k is flat' →
      InPlace d k (i :: is) (flat ++ flat')
  | kept {k i : NodeId} {is flat : List NodeId} :
      ((d.node i).kind = .field → (d.node i).name = "" → ∀ j, ¬d.HasNested (d.node k) (d.node i) j) →
      InPlace d k is flat → InPlace d k (i :: is) (i :: flat)

variable {d : Document} {k : NodeId} {is flat : List NodeId} {ms : List Node} {ss : List (NodeId × Node)}

/-- the members in place are the sources of the fields -/
theorem InPlace.sources (hflat : d.InPlace k is flat) :
    ∃ ss, d.Sources k ((is.map d.node).filter (·.kind = .field)) ss ∧
      (flat.map d.node).filter (·.kind = .field) = ss.map (·.2) := by
  induction hflat with
  | nil => exact ⟨[], .nil, rfl⟩
  | @inlined k i j is flat flat' hkind hname hnested _ _ ih ih' =>
    obtain ⟨ss, hss, hflat⟩ := ih
    obtain ⟨ss', hss', hflat'⟩ := ih'
    refine ⟨ss ++ ss', ?_, ?_⟩
    · rw [List.map_cons, List.filter_cons_of_pos (by simpa using hkind)]
      exact .inlined hname hnested hss hss'
    · rw [List.map_append, List.filter_append, hflat, hflat', List.map_append]
  | @kept k i is flat hnot _ ih =>
    obtain ⟨ss, hss, hflat⟩ := ih
    rw [List.map_cons, List.map_cons]
    by_cases hkind : (d.node i).kind = .field
    · refine ⟨(k, d.node i) :: ss, ?_, ?_⟩
      · rw [List.filter_cons_of_pos (by simpa using hkind)]
        exact .own (hnot hkind) hss
      · rw [List.filter_cons_of_pos (by simpa using hkind), hflat, List.map_cons]
    · refine ⟨ss, ?_, ?_⟩
      · rwa [List.filter_cons_of_neg (by simpa using hkind)]
      · rwa [List.filter_cons_of_neg (by simpa using hkind)]

/-- a source is a member of the element itself, or of one that it takes in -/
theorem Sources.owner (hss : d.Sources k ms ss) (hms : ∀ m ∈ ms, m ∈ d.childrenOf (d.node k) .field) :
    ∀ s ∈ ss, (s.1 = k ∧ s.2 ∈ ms ∧ (s.2.name = "" → ∀ j, ¬d.HasNested (d.node k) s.2 j)) ∨
      Relation.TransGen d.Inlines k s.1 ∧ s.2 ∈ d.childrenOf (d.node s.1) .field := by
  induction hss with
  | nil =>
    intro s hs
    cases hs
  | @inlined k j m ms ss ss' hname hnested _ _ ih ih' =>
    have hinlines : d.Inlines k j := ⟨m, hms m List.mem_cons_self, hname, hnested⟩
    intro s hs
    rcases List.mem_append.1 hs with hs | hs
    · rcases ih (fun _ hm => hm) s hs with ⟨rfl, hmem, -⟩ | ⟨htrans, hmem⟩
      · exact .inr ⟨.single hinlines, hmem⟩
      · exact .inr ⟨htrans.head hinlines, hmem⟩
    · rcases ih' (fun m' hm' => hms m' (List.mem_cons_of_mem m hm')) s hs with ⟨hk, hmem, hnot⟩ | hinner
      · exact .inl ⟨hk, List.mem_cons_of_mem m hmem, hnot⟩
      · exact .inr hinner
  | @own k m ms ss hnot _ ih =>
    intro s hs
    rcases List.mem_cons.1 hs with rfl | hs
    · exact .inl ⟨rfl, List.mem_cons_self, hnot⟩
    · rcases ih (fun m' hm' => hms m' (List.mem_cons_of_mem m hm')) s hs with ⟨hk, hmem, hnot⟩ | hinner
      · exact .inl ⟨hk, List.mem_cons_of_mem m hmem, hnot⟩
      · exact .inr hinner

/-- the members in place are below the element -/
theorem InPlace.children (hflat : d.InPlace k (d.node k).children flat) :
    ((d.withMembers k flat).node k).children = flat := by
  by_cases hk : k < d.nodes.size
  · rw [node_withMembers_self hk]
  · have hblank : ∀ d' : Document, d'.nodes.size = d.nodes.size → (d'.node k).children = [] := by
      intro d' hsize
      by_contra hne
      refine hk (hsize ▸ lt_size_of_ne_blank fun h => hne ?_)
      rw [h]
      rfl
    rw [hblank d rfl] at hflat
    rw [hblank (d.withMembers k flat) size_withMembers]
    cases hflat
    rfl

end Document

section Memories

variable {h : Headers} {memory : List (NodeId × Aggregate)} {k : NodeId} {a : Aggregate}

/-- **For what is built, the members in place can be listed.** -/
theorem exists_inPlace (hm : Grounded (MadeAggregate h) memory) (ha : memory.lookup k = some a) :
    ∃ flat, h.document.InPlace k (h.document.node k).children flat := by
  refine hm.forall_entries (P := fun k _ => ∃ flat, h.document.InPlace k (h.document.node k).children flat) ?_ ha
  intro older k a hsuffix holder hmade ih
  have hsome : ∀ is : List NodeId, (∀ i ∈ is, i ∈ (h.document.node k).children) →
      ∃ flat, h.document.InPlace k is flat := by
    intro is his
    induction is with
    | nil => exact ⟨[], .nil⟩
    | cons i is ihis =>
      obtain ⟨flat', hflat'⟩ := ihis fun i' hi' => his i' (List.mem_cons_of_mem i hi')
      by_cases hnot : (h.document.node i).kind = .field → (h.document.node i).name = "" →
          ∀ j, ¬h.document.HasNested (h.document.node k) (h.document.node i) j
      · exact ⟨i :: flat', .kept hnot hflat'⟩
      · push Not at hnot
        obtain ⟨hkind, hname, j, hnested⟩ := hnot
        have hmem : h.document.node i ∈ h.document.childrenOf (h.document.node k) .field :=
          List.mem_filter.2 ⟨List.mem_map_of_mem (his i List.mem_cons_self), by simpa using hkind⟩
        obtain ⟨inner, hinner⟩ := Option.isSome_iff_exists.1 (hmade.nested ⟨_, hmem, hnested⟩)
        obtain ⟨flat, hflat⟩ := ih j inner hinner
        exact ⟨flat ++ flat', .inlined hkind hname hnested hflat hflat'⟩
  exact hsome _ fun _ hi => hi

end Memories

/-! ## Building with members in place -/

namespace Build

/-- an action succeeds, with the same result for every builder -/
def Sure {α : Type} (x : Build α) : Prop := ∃ a, ∀ c : Builder, (c.run x).1 = .ok a

theorem sure_pure {α : Type} (a : α) : Sure (pure a) := ⟨a, fun _ => rfl⟩

theorem Sure.bind {α β : Type} {x : Build α} {f : α → Build β} {a : α} (hx : ∀ c : Builder, (c.run x).1 = .ok a)
    (hf : Sure (f a)) : Sure (x >>= f) := by
  obtain ⟨b, hb⟩ := hf
  exact ⟨b, fun c => Builder.run_bind_eq_ok.2 ⟨a, hx c, hb _⟩⟩

section Runs

variable {h : Headers} {memory older : List (NodeId × Aggregate)} {k : NodeId} {m : Node}

/-- a chain that ends begins at an element -/
theorem exists_place_of_resolves {id : String} {t : TypeUse} (hresolves : h.Resolves id t) :
    ∃ j, h.document.placeOf id = .ok j := by
  obtain ⟨terminal, hfollow⟩ := hresolves
  rw [Document.follow, Document.element] at hfollow
  cases hplace : h.document.placeOf id with
  | error e =>
    rw [hplace] at hfollow
    cases hfollow
  | ok j => exact ⟨j, rfl⟩

theorem run_typeOf {id : String} {t : TypeUse} (hresolves : h.Resolves id t) (c : Builder) :
    (c.run (typeOf h id)).1 = .ok t := by
  obtain ⟨terminal, hfollow⟩ := hresolves
  unfold typeOf
  rw [hfollow]
  rfl

/-- a member that adds a field somewhere can add one anywhere -/
theorem sure_field {f : Field} {o : NodeId} (hf : h.Stems memory f (o, m)) (offset : Nat) :
    Sure (field h offset m) := by
  obtain ⟨id, t, hneed, hresolves, -⟩ := hf.type
  have hid : ∀ c : Builder, (c.run (of (m.need "type"))).1 = .ok id := fun c => by rw [Builder.run_of, hneed]
  exact .bind hf.bits (.bind hid (.bind (run_typeOf hresolves) (sure_pure _)))

/-- A member can be laid out if it adds a field somewhere and, should its type be nested in the element, has a name and
a type that is remembered. -/
theorem sure_member {f : Field} {o : NodeId} (hf : h.Stems memory f (o, m))
    (hnested : ∀ j, h.document.HasNested (h.document.node k) m j → m.name ≠ "" ∧ (older.lookup j).isSome)
    (name : String) (l : Layout) :
    Sure (member h (fun j _ => recallFrom older j) (h.document.node k) name l m) := by
  obtain ⟨id, t, hneed, hresolves, -⟩ := hf.type
  obtain ⟨j, hj⟩ := exists_place_of_resolves hresolves
  obtain ⟨f', hf'⟩ := sure_field hf l.offset
  have hid : ∀ c : Builder, (c.run (of (m.need "type"))).1 = .ok id := fun c => by rw [Builder.run_of, hneed]
  have hplace : ∀ c : Builder, (c.run (of (h.document.placeOf id))).1 = .ok j := fun c => by rw [Builder.run_of, hj]
  unfold member
  refine .bind hf' (.bind hid (.bind hplace ?_))
  by_cases hnest : isNestedIn (h.document.node k) (h.document.node j) = true
  · have htype : h.document.typePlace m = .ok j := by
      rw [Document.typePlace, hneed]
      exact hj
    obtain ⟨hname, hsome⟩ := hnested j ⟨htype, hnest⟩
    obtain ⟨inner, hinner⟩ := Option.isSome_iff_exists.1 hsome
    rw [if_pos hnest]
    refine .bind (fun c => run_recallFrom_eq_ok.2 hinner) ?_
    rw [if_neg hname]
    exact .bind (fun c => rfl) (sure_pure _)
  · rw [if_neg hnest]
    exact sure_pure _

theorem Sure.foldlM {α β : Type} {f : β → α → Build β} {as : List α} (hf : ∀ a ∈ as, ∀ b, Sure (f b a)) (b : β) :
    Sure (as.foldlM f b) := by
  induction as generalizing b with
  | nil => exact sure_pure b
  | cons a as ih =>
    obtain ⟨b', hb'⟩ := hf a List.mem_cons_self b
    rw [List.foldlM_cons]
    exact .bind hb' (ih (fun a' ha' => hf a' (List.mem_cons_of_mem a ha')) b')

theorem steady_recallFrom {α : Type} (memory : List (NodeId × α)) (i : NodeId) : Steady (recallFrom memory i) := by
  unfold recallFrom
  split
  · exact steady_pure _
  · exact steady_throw _

theorem steady_baseName (h : Headers) (older : List (NodeId × Aggregate)) (n : Node) :
    Steady (baseName h (fun j _ => recallFrom older j) n) :=
  Steady.foldlM (fun _ _ => (steady_of _).bind fun _ => (steady_recallFrom older _).bind fun _ => steady_pure _) _ _

end Runs

end Build

section InPlace

theorem exists_of_forall₂ {α β : Type} {R : α → β → Prop} {as : List α} {bs : List β} (hR : List.Forall₂ R as bs)
    {b : β} (hb : b ∈ bs) : ∃ a ∈ as, R a b := by
  induction hR with
  | nil => cases hb
  | @cons a b' as bs hab _ ih =>
    rcases List.mem_cons.1 hb with rfl | hb
    · exact ⟨a, List.mem_cons_self, hab⟩
    · obtain ⟨a', ha', hR'⟩ := ih hb
      exact ⟨a', List.mem_cons_of_mem a ha', hR'⟩

variable {h : Headers} {memory older : List (NodeId × Aggregate)} {k : NodeId} {a : Aggregate} {flat : List NodeId}
  {ss : List (NodeId × Node)}

/-- no member of what an element takes in has a type that is nested in the element itself -/
def Headers.KeepsNestedOut (h : Headers) (k : NodeId) : Prop :=
  ∀ o, Relation.TransGen h.document.Inlines k o → ∀ m ∈ h.document.childrenOf (h.document.node o) .field,
    ∀ j, ¬h.document.HasNested (h.document.node k) m j

/-- a member in place is nested in the element only if it is the element's own and has a name -/
theorem Document.Sources.hasNested (hkeeps : h.KeepsNestedOut k)
    (hss : h.document.Sources k (h.document.childrenOf (h.document.node k) .field) ss) :
    ∀ s ∈ ss, ∀ j, h.document.HasNested (h.document.node k) s.2 j →
      s.1 = k ∧ s.2.name ≠ "" ∧ h.document.Nests (h.document.node k) j := by
  intro s hs j hnested
  rcases hss.owner (fun _ hm => hm) s hs with ⟨hk, hmem, hnot⟩ | ⟨htrans, hmem⟩
  · exact ⟨hk, fun hname => hnot hname j hnested, s.2, hmem, hnested⟩
  · exact absurd hnested (hkeeps s.1 htrans s.2 hmem j)

/-- the members of an element that has its members in place -/
theorem Document.InPlace.members (hflat : h.document.InPlace k (h.document.node k).children flat)
    (hss : h.document.Sources k (h.document.childrenOf (h.document.node k) .field) ss) :
    List.Forall₂ (fun n' n => n'.alone = n.alone)
      ((h.withMembers k flat).document.childrenOf ((h.withMembers k flat).document.node k) .field) (ss.map (·.2)) := by
  obtain ⟨ss', hss', hmembers⟩ := hflat.sources
  obtain rfl := hss.unique hss'
  have hchildren : ((h.withMembers k flat).document.node k).children = flat := hflat.children
  rw [Document.childrenOf, hchildren, ← hmembers]
  exact Document.ofKind_withMembers .field flat

/-- **What is built can be built with its members in place,** from what was there before. -/
theorem madeAggregate_inPlace (hmade : MadeAggregate h older k a) (hkeeps : h.KeepsNestedOut k)
    (hflat : h.document.InPlace k (h.document.node k).children flat)
    (hss : h.document.Sources k (h.document.childrenOf (h.document.node k) .field) ss)
    (hstems : List.Forall₂ (h.Stems memory) a.fields ss) :
    ∃ a', MadeAggregate (h.withMembers k flat) older k a' := by
  obtain ⟨outer, hname, hbody⟩ := id hmade
  have htag : ((h.withMembers k flat).document.node k).alone = (h.document.node k).alone :=
    Document.alone_node_withMembers k
  have hname' : ((h.withMembers k flat).document.node k).name = (h.document.node k).name :=
    Document.name_node_withMembers k
  -- the bases are found as before
  obtain ⟨r, ns, hbase⟩ := Build.steady_baseName h older (h.document.node k)
  obtain ⟨base, hbaseOk, -⟩ := Builder.run_bind_eq_ok.1 (hbody (.new (.empty "")))
  rw [hbase] at hbaseOk
  obtain rfl : r = .ok base := hbaseOk
  -- every member in place can be laid out
  have hmembers : ∀ m ∈ ss.map (·.2), ∀ l, Build.Sure (Build.member h (fun j _ => recallFrom older j)
      (h.document.node k) (Build.aggregateName (h.document.node k).name outer) l m) := by
    intro m hm l
    obtain ⟨s, hs, rfl⟩ := List.mem_map.1 hm
    obtain ⟨f, -, hf⟩ := exists_of_forall₂ hstems hs
    refine Build.sure_member hf (fun j hnested => ?_) _ l
    obtain ⟨-, hnamed, hnests⟩ := hss.hasNested hkeeps s hs j hnested
    exact ⟨hnamed, hmade.nested hnests⟩
  obtain ⟨l, hl⟩ := Build.Sure.foldlM hmembers .start
  refine ⟨⟨Build.aggregateName (h.document.node k).name outer, (h.document.node k).kind = .unionType, base, l.fields⟩,
    outer, ?_, fun c => ?_⟩
  · rw [hname']
    exact Document.nameOf_withMembers hname
  · rw [Build.aggregateBody_eq_aggregateOf, Build.aggregateOf_withMembers htag (hflat.members hss)]
    refine Builder.run_bind_eq_ok.2 ⟨base, by rw [hbase], ?_⟩
    exact Builder.run_bind_eq_ok.2 ⟨l, hl _, rfl⟩

end InPlace

end HeaderModel
