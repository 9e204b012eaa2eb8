/-
Naming aggregates after typedefs.

`Document.nameByTypedef` collects the renames in the order of the typedefs, and decides on the names as they are declared
which of them count, before it makes any.
- `Loaded.ordered`: elements that are found by an id stand in the index as they stand in the text.
- `node_rename_last`: of several renames of one element the last one counts.
- `nameByTypedef_closed`: an aggregate whose name is missing or only a tag gets the name of its last typedef, nothing
  else changes, and naming again changes nothing. If there is a typedef of no element, the first such typedef decides the
  error, and the document stays as it is.
- `nestedTypedef_ignored`: a typedef that stands inside another element names nothing.
-/
import HeaderModel.Proofs.Indexing
import HeaderModel.Proofs.Memory

namespace HeaderModel

namespace Node

/-! ## Setting a name -/

section Attributes

variable {name value old : String} {as : List Markup.Attribute} {n : Node}

/-- what was set before does not matter -/
theorem setIn_setIn : setIn name value (setIn name old as) = setIn name value as := by
  induction as with
  | nil => simp [setIn]
  | cons a as ih =>
    obtain ⟨key, v⟩ := a
    by_cases hkey : key = name
    · simp [setIn, hkey]
    · simp [setIn, hkey, ih]

theorem lookup_setIn_self : (setIn name value as).lookup name = some value := by
  induction as with
  | nil => simp [setIn]
  | cons a as ih =>
    obtain ⟨key, v⟩ := a
    by_cases hkey : key = name
    · simp [setIn, hkey]
    · have hne : (name == key) = false := beq_false_of_ne (Ne.symm hkey)
      simp [setIn, hkey, List.lookup_cons, hne, ih]

@[simp]
theorem withAttr_withAttr : (n.withAttr name old).withAttr name value = n.withAttr name value := by
  simp [withAttr, setIn_setIn]

@[simp]
theorem name_withName : (n.withAttr "name" value).name = value := by
  simp [Node.name, Node.attr?, withAttr, lookup_setIn_self]

theorem attr_withName {key : String} (hkey : key ≠ "name") : (n.withAttr "name" value).attr? key = n.attr? key :=
  Document.lookup_setIn hkey value n.attributes

end Attributes

end Node

/-! ## Collecting while nothing fails -/

section Collecting

variable {α β ε : Type} {f : α → Except ε (Option β)} {a : α} {as before after : List α} {e : ε}

theorem filterMapM_eq_ok (h : ∀ a ∈ as, ∃ b, f a = .ok b) :
    as.filterMapM f = .ok (as.filterMap fun a => (f a).toOption.join) := by
  induction as with
  | nil => rfl
  | cons a as ih =>
    obtain ⟨b, hb⟩ := h a List.mem_cons_self
    have hrest := ih fun a ha => h a (List.mem_cons_of_mem _ ha)
    rw [List.filterMapM_cons, List.filterMap_cons, hb, hrest]
    cases b <;> rfl

/-- the first failure counts -/
theorem filterMapM_eq_error (h : ∀ a ∈ before, ∃ b, f a = .ok b) (ha : f a = .error e) :
    (before ++ a :: after).filterMapM f = .error e := by
  induction before with
  | nil =>
    rw [List.nil_append, List.filterMapM_cons, ha]
    rfl
  | cons a' before ih =>
    obtain ⟨b, hb⟩ := h a' List.mem_cons_self
    have hrest := ih fun a ha => h a (List.mem_cons_of_mem _ ha)
    rw [List.cons_append, List.filterMapM_cons, hb, hrest]
    cases b <;> rfl

end Collecting

namespace Document

/-! ## Order of the index -/

/-- the elements that are found by ids are listed as they stand in the document -/
structure Ordered (d : Document) : Prop where
  sorted : (d.ids.map (·.2)).Pairwise (· < ·)
  below : ∀ i ∈ d.ids.map (·.2), i < d.nodes.size

section Order

variable {d d' : Document} {i t : NodeId}

theorem Ordered.addIn (hd : d.Ordered) {kind : Kind} {attributes : List Markup.Attribute} {owner : Option NodeId}
    (h : d.addIn kind attributes owner = .ok d') : d'.Ordered := by
  cases owner with
  | some owner =>
    cases h
    refine ⟨hd.sorted, fun i hi => ?_⟩
    have hlt := hd.below i hi
    simp only [addNested, size_modifyNode, Array.size_push]
    omega
  | none =>
    obtain ⟨id, -, -, rfl⟩ := addTopLevel_eq_ok.1 h
    have hids : (d.withTopLevel id kind attributes).ids.map (·.2) = d.ids.map (·.2) ++ [d.nodes.size] := by
      simp [withTopLevel]
    refine ⟨?_, fun i hi => ?_⟩
    · rw [hids, List.pairwise_append]
      refine ⟨hd.sorted, List.pairwise_singleton _ _, fun i hi j hj => ?_⟩
      obtain rfl := List.mem_singleton.1 hj
      exact hd.below i hi
    · rw [hids] at hi
      simp only [withTopLevel, Array.size_push]
      rcases List.mem_append.1 hi with hi | hi
      · have hlt := hd.below i hi
        omega
      · obtain rfl := List.mem_singleton.1 hi
        omega

theorem Ordered.settle (hd : d.Ordered) (h : d.settle i = .ok d') : d'.Ordered := by
  rcases settle_cases h with ⟨-, rfl⟩ | ⟨context, owner, -, -, rfl⟩
  · exact ⟨hd.sorted, hd.below⟩
  · exact ⟨hd.sorted, fun j hj => (size_moveUnder d i owner).symm ▸ hd.below j hj⟩

theorem Ordered.withAttr (hd : d.Ordered) (i : NodeId) (name value : String) : (d.withAttr i name value).Ordered :=
  ⟨hd.sorted, fun j hj => (size_modifyNode d i _).symm ▸ hd.below j hj⟩

/-- the index of a document that was read is in the order of the text -/
theorem Loaded.ordered (hd : d.Loaded) : d.Ordered := by
  induction hd with
  | @read r d h =>
    obtain ⟨s, d₀, hsteps, -, hd₀, hsettle⟩ := exists_of_ofReading h
    have hordered : d₀.Ordered := by
      refine holds_of_steps (fun _ hd => by cases hd) (fun tag as isEmpty _ _ => ?_)
        (fun _ _ _ _ _ _ _ hd hadd => hd.addIn hadd) hsteps d₀ hd₀
      exact ⟨.nil, fun i hi => absurd hi List.not_mem_nil⟩
    exact holds_of_settleAll ⟨hordered.sorted, hordered.below⟩ (fun _ _ _ hd hstep => hd.settle hstep) hsettle
  | named _ h ih => exact holds_of_nameByTypedef ih (fun _ i value hd => hd.withAttr i "name" value) h

theorem Indexed.placed_iff (hd : d.Indexed) : d.Placed i ↔ i ∈ d.ids.map (·.2) := by
  constructor
  · rintro ⟨id, h⟩
    exact List.mem_map.2 ⟨_, mem_of_lookup (placeOf_eq_ok.1 h), rfl⟩
  · intro h
    obtain ⟨e, he, rfl⟩ := List.mem_map.1 h
    exact ⟨e.1, placeOf_eq_ok.2 (lookup_of_mem hd.keys he)⟩

theorem Indexed.mem_ofKind (hd : d.Indexed) {kind : Kind} : i ∈ d.ofKind kind ↔ d.Placed i ∧ (d.node i).kind = kind := by
  rw [hd.placed_iff, ofKind, List.mem_filter]
  simp

/-- the elements of a kind before and after one of them in the document -/
theorem Ordered.split (hd : d.Ordered) {kind : Kind} (ht : t ∈ d.ofKind kind) :
    ∃ before after, d.ofKind kind = before ++ t :: after ∧ (∀ i ∈ before, i < t) ∧ ∀ i ∈ after, t < i := by
  obtain ⟨before, after, hsplit⟩ := List.append_of_mem ht
  have hsorted : (d.ofKind kind).Pairwise (· < ·) := hd.sorted.filter _
  rw [hsplit, List.pairwise_append] at hsorted
  obtain ⟨-, hafter, hbefore⟩ := hsorted
  exact ⟨before, after, hsplit, fun i hi => hbefore i hi t List.mem_cons_self,
    fun i hi => (List.pairwise_cons.1 hafter).1 i hi⟩

end Order

/-! ## Making renames -/

/-- give elements names, one after another -/
def rename (d : Document) (rs : List (NodeId × String)) : Document :=
  rs.foldl (fun d r => d.withAttr r.1 "name" r.2) d

section Renames

variable {d d' : Document} {i t : NodeId} {rs : List (NodeId × String)} {value : String}

theorem rename_cons (d : Document) (r : NodeId × String) (rs : List (NodeId × String)) :
    d.rename (r :: rs) = (d.withAttr r.1 "name" r.2).rename rs := rfl

theorem rename_append (d : Document) (rs rs' : List (NodeId × String)) :
    d.rename (rs ++ rs') = (d.rename rs).rename rs' := List.foldl_append

@[simp]
theorem size_rename (d : Document) (rs : List (NodeId × String)) : (d.rename rs).nodes.size = d.nodes.size := by
  induction rs generalizing d with
  | nil => rfl
  | cons r rs ih =>
    rw [rename_cons, ih]
    exact size_modifyNode _ _ _

/-- renaming changes nothing but nodes -/
theorem rename_eq (d : Document) (rs : List (NodeId × String)) : d.rename rs = { d with nodes := (d.rename rs).nodes } := by
  induction rs generalizing d with
  | nil => rfl
  | cons r rs ih =>
    rw [rename_cons]
    exact ih _

theorem node_withName (d : Document) (i j : NodeId) (value : String) :
    (d.withAttr i "name" value).node j =
      if i = j ∧ j < d.nodes.size then (d.node j).withAttr "name" value else d.node j := by
  rw [withAttr, node_modifyNode]

theorem node_rename_of_ne (h : ∀ r ∈ rs, r.1 ≠ i) : (d.rename rs).node i = d.node i := by
  induction rs generalizing d with
  | nil => rfl
  | cons r rs ih =>
    have hne : r.1 ≠ i := h r List.mem_cons_self
    rw [rename_cons, ih fun r hr => h r (List.mem_cons_of_mem _ hr), node_withName, if_neg fun hi => hne hi.1]

/-- a name that is set after renames is set as if there had been none -/
theorem withName_node_rename (d : Document) (rs : List (NodeId × String)) (i : NodeId) (value : String) :
    ((d.rename rs).node i).withAttr "name" value = (d.node i).withAttr "name" value := by
  induction rs generalizing d with
  | nil => rfl
  | cons r rs ih =>
    rw [rename_cons, ih, node_withName]
    split_ifs
    · exact Node.withAttr_withAttr
    · rfl

/-- **Of several renames of one element the last one counts.** -/
theorem node_rename_last (hi : i < d.nodes.size) {before after : List (NodeId × String)}
    (hafter : ∀ r ∈ after, r.1 ≠ i) :
    (d.rename (before ++ (i, value) :: after)).node i = (d.node i).withAttr "name" value := by
  rw [rename_append, rename_cons, node_rename_of_ne hafter, node_withName, size_rename, if_pos ⟨rfl, hi⟩,
    withName_node_rename]

end Renames

/-! ## What the typedefs of a document say -/

/-- a typedef that is found by an id -/
structure IsTypedef (d : Document) (t : NodeId) : Prop where
  kind : (d.node t).kind = .typedef
  placed : d.Placed t

/-- an element is the type of a typedef, with nothing between them -/
structure Aliases (d : Document) (t i : NodeId) : Prop where
  isTypedef : d.IsTypedef t
  place : d.typePlace (d.node t) = .ok i

theorem Aliases.placed {d : Document} {t i : NodeId} (ht : d.Aliases t i) : d.Placed i := by
  have hplace := ht.place
  unfold typePlace at hplace
  cases hid : (d.node t).need "type" with
  | error e =>
    rw [hid] at hplace
    cases hplace
  | ok id =>
    rw [hid] at hplace
    exact ⟨id, hplace⟩

/-- the last typedef of an element in the document -/
structure LastAlias (d : Document) (t i : NodeId) : Prop where
  aliases : d.Aliases t i
  last : ∀ t', d.Aliases t' i → t' ≤ t

/-- the first typedef in the document that is a typedef of no element -/
structure FirstDangling (d : Document) (t : NodeId) (e : BuildError) : Prop where
  isTypedef : d.IsTypedef t
  place : d.typePlace (d.node t) = .error e
  first : ∀ t' < t, d.IsTypedef t' → ∃ i, d.Aliases t' i

/-- the document as naming leaves it: if a typedef is one of no element, nothing is named -/
def asNamed (d : Document) : Document := d.nameByTypedef.toOption.getD d

/-- a document is another one with aggregates named after their last typedefs -/
structure NamedAfter (d d' : Document) : Prop where
  rest : d' = { d with nodes := d'.nodes }
  size : d'.nodes.size = d.nodes.size
  renamed : ∀ i t, (d.node i).hasTagName = true → d.LastAlias t i →
    d'.node i = (d.node i).withAttr "name" (d.node t).name
  kept : ∀ i, ((d.node i).hasTagName = true → ∀ t, ¬d.Aliases t i) → d'.node i = d.node i

section Naming

variable {d d' : Document} {i t : NodeId} {e : BuildError}

/-- what a typedef renames -/
theorem renameBy_eq (d : Document) (t : NodeId) : d.renameBy t = (d.typePlace (d.node t)).map fun i =>
    if (d.node i).hasTagName then some (i, (d.node t).name) else none := by
  unfold renameBy typePlace
  dsimp only
  cases (d.node t).need "type" with
  | error e => rfl
  | ok id =>
    simp only [bind, Except.bind]
    cases d.placeOf id <;> rfl

theorem Aliases.renameBy (ht : d.Aliases t i) :
    d.renameBy t = .ok (if (d.node i).hasTagName then some (i, (d.node t).name) else none) := by
  rw [renameBy_eq, ht.place]
  rfl

theorem Indexed.mem_typedefs (hd : d.Indexed) : t ∈ d.ofKind .typedef ↔ d.IsTypedef t := by
  rw [hd.mem_ofKind]
  exact ⟨fun h => ⟨h.2, h.1⟩, fun h => ⟨h.placed, h.kind⟩⟩

theorem exists_lastAlias (hd : d.Loaded) (ht : d.Aliases t i) : ∃ t', d.LastAlias t' i := by
  classical
  have hle : ∀ t', d.Aliases t' i → t' ≤ d.nodes.size := fun t' ht' =>
    Nat.le_of_lt (hd.ordered.below t' (hd.indexed.placed_iff.1 ht'.isTypedef.placed))
  have hlast := Nat.findGreatest_spec (P := fun t' => d.Aliases t' i) (hle t ht) ht
  exact ⟨_, hlast, fun t' ht' => Nat.le_findGreatest (hle t' ht') ht'⟩

/-- what the renames of some typedefs are about -/
theorem exists_of_mem_renames {ts : List NodeId} (hts : ∀ t ∈ ts, ∃ i, d.Aliases t i) {r : NodeId × String}
    (hr : r ∈ ts.filterMap fun t => (d.renameBy t).toOption.join) :
    ∃ t ∈ ts, d.Aliases t r.1 ∧ (d.node r.1).hasTagName = true ∧ r.2 = (d.node t).name := by
  obtain ⟨t, ht, hsome⟩ := List.mem_filterMap.1 hr
  obtain ⟨i, hi⟩ := hts t ht
  rw [hi.renameBy] at hsome
  by_cases htag : (d.node i).hasTagName = true
  · rw [if_pos htag] at hsome
    obtain rfl := Option.some.inj hsome
    exact ⟨t, ht, hi, htag, rfl⟩
  · rw [if_neg htag] at hsome
    cases hsome

theorem nameByTypedef_of_all (hd : d.Loaded) (hall : ∀ t, d.IsTypedef t → ∃ i, d.Aliases t i) :
    ∃ d', d.nameByTypedef = .ok d' ∧ d.NamedAfter d' := by
  have htypedefs : ∀ t ∈ d.ofKind .typedef, ∃ i, d.Aliases t i := fun t ht => hall t (hd.indexed.mem_typedefs.1 ht)
  set rs := (d.ofKind .typedef).filterMap fun t => (d.renameBy t).toOption.join with hrs
  have hrenames : d.renames = .ok rs := filterMapM_eq_ok fun t ht => by
    obtain ⟨i, hi⟩ := htypedefs t ht
    exact ⟨_, hi.renameBy⟩
  refine ⟨d.rename rs, ?_, rename_eq d rs, size_rename d rs, fun i t htag ht => ?_, fun i hkept => ?_⟩
  · rw [nameByTypedef, hrenames]
    rfl
  · obtain ⟨before, after, hsplit, -, hafter⟩ := hd.ordered.split (hd.indexed.mem_typedefs.2 ht.aliases.isTypedef)
    have hplaced : d.Placed i := ht.aliases.placed
    have hi : i < d.nodes.size := hd.ordered.below i (hd.indexed.placed_iff.1 hplaced)
    have hrename : (d.renameBy t).toOption.join = some (i, (d.node t).name) := by
      rw [ht.aliases.renameBy, if_pos htag]
      rfl
    rw [hrs, hsplit, List.filterMap_append, List.filterMap_cons, hrename]
    refine node_rename_last hi fun r hr hri => ?_
    obtain ⟨t', ht', halias, -, -⟩ := exists_of_mem_renames
      (fun t ht => htypedefs t (hsplit ▸ List.mem_append_right _ (List.mem_cons_of_mem _ ht))) hr
    rw [hri] at halias
    exact absurd (ht.last t' halias) (Nat.not_le_of_lt (hafter t' ht'))
  · refine node_rename_of_ne fun r hr hri => ?_
    obtain ⟨t, -, ht, htag, -⟩ := exists_of_mem_renames htypedefs hr
    rw [hri] at ht htag
    exact hkept htag t ht

theorem exists_firstDangling (hnot : ¬∀ t, d.IsTypedef t → ∃ i, d.Aliases t i) : ∃ t e, d.FirstDangling t e := by
  classical
  push Not at hnot
  obtain ⟨ht, hdangling⟩ := Nat.find_spec hnot
  have hfirst : ∀ t' < Nat.find hnot, d.IsTypedef t' → ∃ i, d.Aliases t' i := by
    intro t' hlt ht'
    by_contra hnone
    exact Nat.find_min hnot hlt ⟨ht', fun i hi => hnone ⟨i, hi⟩⟩
  cases hplace : d.typePlace (d.node (Nat.find hnot)) with
  | ok i => exact absurd ⟨ht, hplace⟩ (hdangling i)
  | error e => exact ⟨_, e, ht, hplace, hfirst⟩

theorem FirstDangling.nameByTypedef (hd : d.Loaded) (ht : d.FirstDangling t e) : d.nameByTypedef = .error e := by
  obtain ⟨before, after, hsplit, hbefore, -⟩ := hd.ordered.split (hd.indexed.mem_typedefs.2 ht.isTypedef)
  have hfails : d.renameBy t = .error e := by
    rw [renameBy_eq, ht.place]
    rfl
  have hrenames : d.renames = .error e := by
    rw [renames, hsplit]
    refine filterMapM_eq_error (fun t' ht' => ?_) hfails
    have hmem : t' ∈ d.ofKind .typedef := hsplit ▸ List.mem_append_left _ ht'
    obtain ⟨i, hi⟩ := ht.first t' (hbefore t' ht') (hd.indexed.mem_typedefs.1 hmem)
    exact ⟨_, hi.renameBy⟩
  rw [Document.nameByTypedef, hrenames]
  rfl

/-- what a document says about typedefs stays when aggregates are named -/
theorem NamedAfter.placeOf (h : d.NamedAfter d') (id : String) : d'.placeOf id = d.placeOf id := by
  rw [Document.placeOf, Document.placeOf, h.rest]

theorem NamedAfter.node_eq (h : d.NamedAfter d') (hd : d.Loaded) (i : NodeId) :
    d'.node i = d.node i ∨ (d.node i).hasTagName = true ∧ ∃ t, d.LastAlias t i ∧
      d'.node i = (d.node i).withAttr "name" (d.node t).name := by
  by_cases hboth : (d.node i).hasTagName = true ∧ ∃ t, d.Aliases t i
  · obtain ⟨htag, t, ht⟩ := hboth
    obtain ⟨last, hlast⟩ := exists_lastAlias hd ht
    exact .inr ⟨htag, last, hlast, h.renamed i last htag hlast⟩
  · exact .inl (h.kept i fun htag t ht => hboth ⟨htag, t, ht⟩)

/-- nothing but names changes -/
theorem NamedAfter.frame (h : d.NamedAfter d') (hd : d.Loaded) (i : NodeId) :
    (d'.node i).kind = (d.node i).kind ∧ (d'.node i).children = (d.node i).children ∧
      (d'.node i).parent = (d.node i).parent ∧
      ∀ key, key ≠ "name" → (d'.node i).attr? key = (d.node i).attr? key := by
  rcases h.node_eq hd i with hsame | ⟨-, t, -, hnamed⟩
  · rw [hsame]
    exact ⟨rfl, rfl, rfl, fun _ _ => rfl⟩
  · rw [hnamed]
    exact ⟨rfl, rfl, rfl, fun key hkey => Node.attr_withName hkey⟩

theorem NamedAfter.typePlace (h : d.NamedAfter d') (hd : d.Loaded) (i : NodeId) :
    d'.typePlace (d'.node i) = d.typePlace (d.node i) := by
  obtain ⟨-, -, -, hattr⟩ := h.frame hd i
  have htype := hattr "type" (by decide)
  have hid := hattr "id" (by decide)
  unfold Document.typePlace Node.need Node.id
  rw [htype, hid]
  simp only [h.placeOf]

theorem NamedAfter.isTypedef_iff (h : d.NamedAfter d') (hd : d.Loaded) : d'.IsTypedef t ↔ d.IsTypedef t := by
  have hkind := (h.frame hd t).1
  constructor
  · rintro ⟨ht, id, hid⟩
    exact ⟨hkind ▸ ht, id, h.placeOf id ▸ hid⟩
  · rintro ⟨ht, id, hid⟩
    exact ⟨hkind.trans ht, id, (h.placeOf id).trans hid⟩

theorem NamedAfter.aliases_iff (h : d.NamedAfter d') (hd : d.Loaded) : d'.Aliases t i ↔ d.Aliases t i := by
  constructor
  · rintro ⟨ht, hplace⟩
    exact ⟨(h.isTypedef_iff hd).1 ht, h.typePlace hd t ▸ hplace⟩
  · rintro ⟨ht, hplace⟩
    exact ⟨(h.isTypedef_iff hd).2 ht, (h.typePlace hd t).trans hplace⟩

/-- a typedef is no aggregate, so it keeps its name -/
theorem NamedAfter.typedef_name (h : d.NamedAfter d') (ht : d.IsTypedef t) : d'.node t = d.node t := by
  refine h.kept t fun htag => ?_
  simp [Node.hasTagName, ht.kind] at htag

/-- the last typedefs are the same as before, so naming again gives the names that are there -/
theorem NamedAfter.again {d'' : Document} (hd : d.Loaded) (hd' : d'.Loaded) (h : d.NamedAfter d')
    (h' : d'.NamedAfter d'') : d'' = d' := by
  have hnode : ∀ i, d''.node i = d'.node i := by
    intro i
    rcases h'.node_eq hd' i with hsame | ⟨htag', t, ht, hnamed'⟩
    · exact hsame
    · have halias : d.LastAlias t i :=
        ⟨(h.aliases_iff hd).1 ht.aliases, fun t' ht' => ht.last t' ((h.aliases_iff hd).2 ht')⟩
      have htag : (d.node i).hasTagName = true := by
        rcases h.node_eq hd i with hsame | ⟨htag, -⟩
        · exact hsame ▸ htag'
        · exact htag
      rw [hnamed', h.typedef_name halias.aliases.isTypedef, h.renamed i t htag halias, Node.withAttr_withAttr]
  have hnodes : d''.nodes = d'.nodes := by
    refine Array.ext h'.size fun i hi hi' => ?_
    have hi' := hnode i
    simpa [node, *] using hi'
  rw [h'.rest, hnodes]

/-- **Naming aggregates after typedefs.** If every typedef is one of some element, every aggregate whose declared name is
missing or only a tag, and that has a typedef, gets the name of its last one, nothing else changes, and naming again
changes nothing. Otherwise the first typedef in the document that is one of no element decides the error, and the
document stays as it is. -/
theorem nameByTypedef_closed (hd : d.Loaded) :
    ((∀ t, d.IsTypedef t → ∃ i, d.Aliases t i) →
      ∃ d', d.nameByTypedef = .ok d' ∧ d.NamedAfter d' ∧ d'.nameByTypedef = .ok d' ∧
        (∀ i t, (d.node i).hasTagName = true → d.Aliases t i →
          ∃ last, d.LastAlias last i ∧ (d'.node i).name = (d.node last).name) ∧
        ∀ i, (d'.node i).kind = (d.node i).kind ∧ (d'.node i).children = (d.node i).children ∧
          (d'.node i).parent = (d.node i).parent ∧
          ∀ key, key ≠ "name" → (d'.node i).attr? key = (d.node i).attr? key) ∧
    ((¬∀ t, d.IsTypedef t → ∃ i, d.Aliases t i) →
      ∃ t e, d.FirstDangling t e ∧ d.nameByTypedef = .error e ∧ d.asNamed = d) := by
  constructor
  · intro hall
    obtain ⟨d', hok, hnamed⟩ := nameByTypedef_of_all hd hall
    have hd' : d'.Loaded := .named hd hok
    obtain ⟨d'', hok', hnamed'⟩ := nameByTypedef_of_all hd' fun t ht => by
      obtain ⟨i, hi⟩ := hall t ((hnamed.isTypedef_iff hd).1 ht)
      exact ⟨i, (hnamed.aliases_iff hd).2 hi⟩
    obtain rfl := hnamed.again hd hd' hnamed'
    refine ⟨d'', hok, hnamed, hok', fun i t htag ht => ?_, hnamed.frame hd⟩
    obtain ⟨last, hlast⟩ := exists_lastAlias hd ht
    refine ⟨last, hlast, ?_⟩
    rw [hnamed.renamed i last htag hlast, Node.name_withName]
  · intro hnot
    obtain ⟨t, e, ht⟩ := exists_firstDangling hnot
    have herror := ht.nameByTypedef hd
    exact ⟨t, e, ht, herror, by rw [asNamed, herror]; rfl⟩

theorem lt_size_of_typedef (ht : (d.node t).kind = .typedef) : t < d.nodes.size := by
  apply lt_size_of_ne_blank
  intro hblank
  rw [hblank] at ht
  cases ht

/-- it is enough to look at the nodes that there are -/
theorem typedefs_found (h : ∀ t < d.nodes.size, (d.node t).kind = .typedef →
      (d.typePlace (d.node t)).toOption.isSome = true) (ht : (d.node t).kind = .typedef) :
    ∃ i, d.typePlace (d.node t) = .ok i := by
  have hfound := h t (lt_size_of_typedef ht) ht
  cases hplace : d.typePlace (d.node t) with
  | ok i => exact ⟨i, rfl⟩
  | error e =>
    rw [hplace] at hfound
    cases hfound

end Naming

/-- a struct without a name and two typedefs of it, the last of which has a name that is only a tag -/
def twoTypedefsReading : Markup.Reading :=
  ⟨[.opens "CastXML" (some []) false,
    .opens "Struct" (some [("id", "s")]) true,
    .opens "Typedef" (some [("id", "t1"), ("name", "FIRST"), ("type", "s")]) true,
    .opens "Typedef" (some [("id", "t2"), ("name", "tagLAST"), ("type", "s")]) true,
    .closes], false⟩

def twoTypedefs : Document := ((Document.ofReading twoTypedefsReading).toOption).getD (.ofRoot "" [])

theorem twoTypedefs_loaded : twoTypedefs.Loaded := .read (r := twoTypedefsReading) (by decide +kernel)

theorem twoTypedefs_closed : twoTypedefs.Loaded ∧ ∃ d', twoTypedefs.nameByTypedef = .ok d' ∧
    (d'.node 0).name = "tagLAST" ∧ d'.nameByTypedef = .ok d' := by
  have hfound : ∀ t, twoTypedefs.IsTypedef t → ∃ i, twoTypedefs.Aliases t i := by
    intro t ht
    obtain ⟨i, hi⟩ := typedefs_found (by decide +kernel) ht.kind
    exact ⟨i, ht, hi⟩
  obtain ⟨d', hok, -, hagain, hname, -⟩ := (nameByTypedef_closed twoTypedefs_loaded).1 hfound
  have halias : twoTypedefs.Aliases 2 0 := ⟨⟨by decide +kernel, "t2", by decide +kernel⟩, by decide +kernel⟩
  obtain ⟨last, hlast, hsame⟩ := hname 0 2 (by decide +kernel) halias
  have hlt : last < 3 := lt_size_of_typedef hlast.aliases.isTypedef.kind
  have hle : 2 ≤ last := hlast.last 2 halias
  obtain rfl : last = 2 := Nat.le_antisymm (Nat.le_of_lt_succ hlt) hle
  exact ⟨twoTypedefs_loaded, d', hok, hsame.trans (by decide +kernel), hagain⟩

/-- a struct without a name, and a typedef of it inside a namespace -/
def nestedTypedefReading : Markup.Reading :=
  ⟨[.opens "CastXML" (some []) false,
    .opens "Struct" (some [("id", "s")]) true,
    .opens "Namespace" (some [("id", "n")]) false,
    .opens "Typedef" (some [("name", "T"), ("type", "s")]) true,
    .closes, .closes], false⟩

def nestedTypedef : Document := ((Document.ofReading nestedTypedefReading).toOption).getD (.ofRoot "" [])

theorem nestedTypedef_loaded : nestedTypedef.Loaded := .read (r := nestedTypedefReading) (by decide +kernel)

/-- a typedef that stands inside another element is not found by an id, and names nothing -/
theorem nestedTypedef_ignored :
    ¬∀ d : Document, d.Loaded → (∀ t, (d.node t).kind = .typedef → ∃ i, d.typePlace (d.node t) = .ok i) →
      ∃ d', d.nameByTypedef = .ok d' ∧ ∀ i t, (d.node i).hasTagName = true → (d.node t).kind = .typedef →
        d.typePlace (d.node t) = .ok i →
        (∀ t', (d.node t').kind = .typedef → d.typePlace (d.node t') = .ok i → t' ≤ t) →
        (d'.node i).name = (d.node t).name := by
  intro hclaim
  obtain ⟨d', hok, hnames⟩ := hclaim nestedTypedef nestedTypedef_loaded fun t => typedefs_found (by decide +kernel)
  have hkept : nestedTypedef.nameByTypedef = .ok nestedTypedef := by decide +kernel
  obtain rfl := Except.ok.inj (hkept.symm.trans hok)
  have hname := hnames 0 2 (by decide +kernel) (by decide +kernel) (by decide +kernel) fun t ht _ =>
    Nat.le_of_lt_succ (lt_size_of_typedef ht)
  exact absurd hname (by decide +kernel)

end Document

end HeaderModel
