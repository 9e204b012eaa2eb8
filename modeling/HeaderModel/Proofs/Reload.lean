/-
A document reads back what it was written as.

What a text makes of its document stays as names are set, and it is what a written forest needs to be read again.
- `Tidy`: kinds are those of their tags, and no element has an attribute twice.
- `Sound`: besides that, children and parents agree, and every root has an id of its own and no context.
- `Edited`: a document that was read with the names of markup, whatever names were set in it since.
- `dump_reloads`: what is written of it is accepted, holds the forest that its roots held, and is written the same.
-/
import HeaderModel.Proofs.Planting

namespace HeaderModel

/-! ## Nodes -/

namespace Node

/-- the kind is that of the tag, and the attributes have different names -/
structure Proper (n : Node) : Prop where
  kind : Kind.ofTag n.kind.tag = n.kind
  keys : (n.attributes.map (·.1)).Nodup

section Attributes

variable {name value : String} {as : List Markup.Attribute} {P : String → Prop}

theorem keys_setIn : (setIn name value as).map (·.1) = as.map (·.1) ++ if name ∈ as.map (·.1) then [] else [name] := by
  induction as with
  | nil => rfl
  | cons a as ih =>
    obtain ⟨key, old⟩ := a
    by_cases hkey : key = name
    · simp [setIn, hkey]
    · simp only [setIn, hkey, if_false, List.map_cons, ih, List.mem_cons, Ne.symm hkey, false_or, List.cons_append]

theorem nodup_setIn (h : (as.map (·.1)).Nodup) : ((setIn name value as).map (·.1)).Nodup := by
  rw [keys_setIn]
  split_ifs with hname
  · rwa [List.append_nil]
  · exact List.nodup_append'.2 ⟨h, List.nodup_singleton _, by simpa using hname⟩

theorem mem_keys_setIn {a : Markup.Attribute} (ha : a ∈ setIn name value as) :
    a.1 ∈ as.map (·.1) ∨ a.1 = name := by
  have hkey : a.1 ∈ (setIn name value as).map (·.1) := List.mem_map_of_mem ha
  rw [keys_setIn] at hkey
  rcases List.mem_append.1 hkey with hold | hnew
  · exact .inl hold
  · split_ifs at hnew
    · cases hnew
    · exact .inr (List.mem_singleton.1 hnew)

end Attributes

theorem proper_blank : Node.blank.Proper := ⟨by decide, .nil⟩

theorem Proper.withAttr {n : Node} (h : n.Proper) (name value : String) : (n.withAttr name value).Proper :=
  ⟨h.kind, nodup_setIn h.keys⟩

end Node

namespace Document

/-! ## Tidy documents -/

/-- a root that documents may have, and nothing that could not be read -/
structure Tidy (d : Document) : Prop where
  rootTag : d.rootTag ∈ rootTags
  rootKeys : (d.rootAttributes.map (·.1)).Nodup
  nodes : ∀ i, (d.node i).Proper

section Tidying

variable {d d' : Document} {i : NodeId} {f : Node → Node}

theorem Tidy.modify (hd : d.Tidy) (hf : ∀ n : Node, n.Proper → (f n).Proper) : (d.modifyNode i f).Tidy := by
  refine ⟨hd.rootTag, hd.rootKeys, fun j => ?_⟩
  rw [node_modifyNode]
  split_ifs
  · exact hf _ (hd.nodes j)
  · exact hd.nodes j

theorem Tidy.push (hd : d.Tidy) {n : Node} (hn : n.Proper) (hnodes : d'.nodes = d.nodes.push n)
    (htag : d'.rootTag = d.rootTag) (hattributes : d'.rootAttributes = d.rootAttributes) : d'.Tidy := by
  refine ⟨htag ▸ hd.rootTag, hattributes ▸ hd.rootKeys, fun j => ?_⟩
  rcases Nat.lt_trichotomy j d.nodes.size with hlt | rfl | hgt
  · rw [node_push d' hnodes hlt]
    exact hd.nodes j
  · rw [node_push_size hnodes]
    exact hn
  · rw [node_of_size_le (by rw [hnodes, Array.size_push]; exact hgt)]
    exact Node.proper_blank

theorem Tidy.addIn (hd : d.Tidy) {tag : String} {as : List Markup.Attribute} {owner : Option NodeId}
    (has : (as.map (·.1)).Nodup) (h : d.addIn (Kind.ofTag tag) as owner = .ok d') : d'.Tidy := by
  have hkind : Kind.ofTag (Kind.ofTag tag).tag = Kind.ofTag tag := congrArg Kind.ofTag (Kind.tag_ofTag tag)
  cases owner with
  | none =>
    obtain ⟨id, -, -, rfl⟩ := addTopLevel_eq_ok.1 h
    exact hd.push (n := ⟨Kind.ofTag tag, as, [], none⟩) ⟨hkind, has⟩ rfl rfl rfl
  | some owner =>
    cases h
    have hpushed : Tidy { d with nodes := d.nodes.push ⟨Kind.ofTag tag, as, [], some owner⟩ } :=
      hd.push (n := ⟨Kind.ofTag tag, as, [], some owner⟩) ⟨hkind, has⟩ rfl rfl rfl
    exact hpushed.modify fun _ hn => ⟨hn.kind, hn.keys⟩

theorem Tidy.settle (hd : d.Tidy) (h : d.settle i = .ok d') : d'.Tidy := by
  rcases settle_cases h with ⟨-, rfl⟩ | ⟨context, owner, -, -, rfl⟩
  · exact ⟨hd.rootTag, hd.rootKeys, hd.nodes⟩
  · have hmoved := hd.modify (i := i) (f := fun n => { n with parent := some owner }) fun _ hn => ⟨hn.kind, hn.keys⟩
    exact hmoved.modify fun _ hn => ⟨hn.kind, hn.keys⟩

theorem tidy_of_ofText {text : String} (h : Document.ofText text = .ok d) : d.Tidy := by
  obtain ⟨s, d₀, hsteps, -, hd, hsettle⟩ := exists_of_ofReading h
  have htidy : d₀.Tidy := by
    refine holds_of_steps (fun _ hd => by cases hd) (fun tag as isEmpty hopens htag => ?_)
      (fun tag as isEmpty hopens d d' owner hd hadd => ?_) hsteps d₀ hd
    · exact ⟨htag, Markup.nodup_of_readFrom hopens, fun _ => Node.proper_blank⟩
    · exact hd.addIn (Markup.nodup_of_readFrom hopens) hadd
  exact holds_of_settleAll ⟨htidy.rootTag, htidy.rootKeys, htidy.nodes⟩ (fun _ _ _ hd hstep => hd.settle hstep) hsettle

end Tidying

/-! ## Sound documents -/

/-- what makes a document readable once it is written -/
structure Sound (d : Document) : Prop where
  tidy : d.Tidy
  linked : d.Linked
  found : ∀ i ∈ d.roots, ∃ id, (d.node i).attr? "id" = some id ∧ d.placeOf id = .ok i
  settled : ∀ i ∈ d.roots, (d.node i).attr? "context" = none

/-- all names are names of markup -/
structure WellNamed (d : Document) : Prop where
  root : ∀ a ∈ d.rootAttributes, Markup.isName a.1
  tags : ∀ i < d.nodes.size, Markup.isName (d.node i).kind.tag
  keys : ∀ i < d.nodes.size, ∀ a ∈ (d.node i).attributes, Markup.isName a.1

/-- a document that was read with the names of markup, and perhaps had names of its elements set -/
inductive Edited : Document → Prop where
  | read {text : String} {d : Document} : Document.ofText text = .ok d → d.WellNamed → Edited d
  | named {d d' : Document} : Edited d → d.nameByTypedef = .ok d' → Edited d'
  | renamed {d : Document} (i : NodeId) (value : String) : Edited d → Edited (d.withAttr i "name" value)

section Editing

variable {d d' : Document}

theorem sound_of_ofText {text : String} (h : Document.ofText text = .ok d) : d.Sound := by
  have hfollows := follows_of_ofReading h
  refine ⟨tidy_of_ofText h, hfollows.linked, fun i hi => ?_, fun i hi => ?_⟩ <;> rw [hfollows.roots] at hi
  · obtain ⟨id, hid, hplace⟩ := hfollows.found i (List.mem_filter.1 hi).1
    exact ⟨id, (hfollows.attr i "id").trans hid, hplace⟩
  · rw [hfollows.attr]
    exact of_decide_eq_true (List.mem_filter.1 hi).2

theorem node_withAttr (d : Document) (i j : NodeId) (name value : String) :
    ((d.withAttr i name value).node j).kind = (d.node j).kind ∧
      ((d.withAttr i name value).node j).children = (d.node j).children ∧
      ((d.withAttr i name value).node j).parent = (d.node j).parent := by
  rw [withAttr, node_modifyNode]
  split_ifs <;> exact ⟨rfl, rfl, rfl⟩

theorem Linked.withAttr (hd : d.Linked) (i : NodeId) (name value : String) : (d.withAttr i name value).Linked := by
  have hchildren := fun j => (node_withAttr d i j name value).2.1
  have hparent := fun j => (node_withAttr d i j name value).2.2
  have hsize : (d.withAttr i name value).nodes.size = d.nodes.size := size_modifyNode _ _ _
  refine ⟨fun p => ?_, fun p c => ?_, fun j => ?_, hd.once, fun j p hp => ?_⟩
  · rw [hchildren]
    exact hd.nodup p
  · rw [hchildren, hparent]
    exact hd.mem p c
  · rw [hparent, hsize]
    exact hd.roots j
  · rw [hsize]
    exact hd.below j p (hparent j ▸ hp)

theorem Sound.withName (hd : d.Sound) (i : NodeId) (value : String) : (d.withAttr i "name" value).Sound := by
  have hattr : ∀ j key, key ≠ "name" → ((d.withAttr i "name" value).node j).attr? key = (d.node j).attr? key := by
    intro j key hkey
    rw [withAttr, node_modifyNode]
    split_ifs
    · exact lookup_setIn hkey value _
    · rfl
  refine ⟨hd.tidy.modify fun n hn => hn.withAttr "name" value, hd.linked.withAttr i "name" value, fun j hj => ?_,
    fun j hj => ?_⟩
  · rw [hattr j "id" (by decide)]
    exact hd.found j hj
  · rw [hattr j "context" (by decide)]
    exact hd.settled j hj

theorem WellNamed.withName (hd : d.WellNamed) (i : NodeId) (value : String) :
    (d.withAttr i "name" value).WellNamed := by
  have hsize : (d.withAttr i "name" value).nodes.size = d.nodes.size := size_modifyNode _ _ _
  refine ⟨hd.root, fun j hj => ?_, fun j hj a ha => ?_⟩ <;> rw [hsize] at hj
  · rw [(node_withAttr d i j "name" value).1]
    exact hd.tags j hj
  · rw [withAttr, node_modifyNode] at ha
    split_ifs at ha
    · rcases Node.mem_keys_setIn ha with hold | hnew
      · obtain ⟨b, hb, hsame⟩ := List.mem_map.1 hold
        exact hsame ▸ hd.keys j hj b hb
      · rw [hnew]
        decide
    · exact hd.keys j hj a ha

theorem Edited.sound (hd : d.Edited) : d.Sound ∧ d.WellNamed := by
  induction hd with
  | read h hnames => exact ⟨sound_of_ofText h, hnames⟩
  | named _ h ih =>
    exact holds_of_nameByTypedef (P := fun d => d.Sound ∧ d.WellNamed) ih
      (fun _ i value hd => ⟨hd.1.withName i value, hd.2.withName i value⟩) h
  | renamed i value _ ih => exact ⟨ih.1.withName i value, ih.2.withName i value⟩

end Editing

/-! ## Writing and reading again -/

/-- a document is written as a forest, and what is written reads back as a document with that forest -/
structure Reloads (d : Document) (f : Forest) (d' : Document) : Prop where
  shown : d.Shows d.roots f
  /-- no level of the forest is left out, however many are allowed -/
  ended : ∀ levels, d.nodes.size ≤ levels → d.roots.flatMap (d.renderNode levels 1) = f.render 1
  accepted : Document.ofText d.dump = .ok d'
  rootTag : d'.rootTag = d.rootTag
  rootAttributes : d'.rootAttributes = d.rootAttributes
  reloaded : d'.Shows d'.roots f
  fixpoint : d'.dump = d.dump

section Reloading

variable {d : Document} {f : Forest}

theorem Sound.lt_of_mem_roots (hd : d.Sound) {i : NodeId} (hi : i ∈ d.roots) : i < d.nodes.size :=
  ((hd.linked.roots i).1 hi).1

/-- the ids of the roots, which are all different -/
theorem Sound.heads_ids (hd : d.Sound) (h : d.Shows d.roots f) :
    ∃ ids : List String, f.heads.map (·.lookup "id") = ids.map some ∧ ids.Nodup := by
  have hid : ∀ i ∈ d.roots, (d.node i).attributes.lookup "id" = some (d.node i).id ∧
      d.placeOf (d.node i).id = .ok i := by
    intro i hi
    obtain ⟨id, hattr, hplace⟩ := hd.found i hi
    have hsame : (d.node i).id = id := by rw [Node.id, hattr, Option.getD_some]
    rw [hsame]
    exact ⟨hattr, hplace⟩
  refine ⟨d.roots.map fun i => (d.node i).id, ?_, hd.linked.once.map_on fun i hi j hj hsame => ?_⟩
  · rw [h.heads, List.map_map, List.map_map]
    exact List.map_congr_left fun i hi => (hid i hi).1
  · have hplace := (hid i hi).2
    rw [hsame, (hid j hj).2] at hplace
    exact (Except.ok.inj hplace).symm

theorem Sound.writable (hd : d.Sound) (hnames : d.WellNamed) (h : d.Shows d.roots f) :
    f.All fun kind as => Markup.Writable kind.tag as := by
  refine hd.linked.all_of_shows (fun i hi => ?_) h fun i hi => hd.lt_of_mem_roots hi
  exact ⟨Markup.isWord_of_isName (hnames.tags i hi), fun a ha => Markup.isWord_of_isName (hnames.keys i hi a ha),
    (hd.tidy.nodes i).keys⟩

theorem Sound.writable_root (hd : d.Sound) (hnames : d.WellNamed) :
    Markup.Writable d.rootTag d.rootAttributes := by
  have htags : ∀ tag ∈ rootTags, Markup.isName tag = true := by decide
  exact ⟨Markup.isWord_of_isName (htags _ hd.tidy.rootTag), fun a ha => Markup.isWord_of_isName (hnames.root a ha),
    hd.tidy.rootKeys⟩

/-- **What is written of a document reads back as the same forest, and is written the same again.** -/
theorem dump_reloads (d : Document) (hd : d.Edited) : ∃ f d', d.Reloads f d' := by
  obtain ⟨hsound, hnames⟩ := hd.sound
  obtain ⟨f, hshows, hheight⟩ := hsound.linked.exists_shows
  have hdump := dump_of_shows hshows hheight
  have hkinds : f.All fun kind _ => Kind.ofTag kind.tag = kind :=
    hsound.linked.all_of_shows (fun i _ => (hsound.tidy.nodes i).kind) hshows fun i hi => hsound.lt_of_mem_roots hi
  obtain ⟨ids, hids, hnew⟩ := hsound.heads_ids hshows
  have hcontext : ∀ as ∈ f.heads, as.lookup "context" = none := by
    intro as has
    rw [hshows.heads] at has
    obtain ⟨i, hi, rfl⟩ := List.mem_map.1 has
    exact hsound.settled i hi
  obtain ⟨d', haccepted, htag, hattributes, hreloaded⟩ := exists_loaded_text hsound.tidy.rootTag
    (hsound.writable_root hnames) (hsound.writable hnames hshows) hkinds hids hnew hcontext
  -- the document that is read again has room for all levels of the forest too
  obtain ⟨g, hg, hlow⟩ := (follows_of_ofReading haccepted).linked.exists_shows
  have hdump' := dump_of_shows hreloaded (hreloaded.unique hg ▸ hlow)
  refine ⟨f, d', hshows, fun levels hlevels => render_of_shows 1 hshows (hheight.trans hlevels), ?_, htag, hattributes,
    hreloaded, ?_⟩
  · rw [hdump]
    exact haccepted
  · rw [hdump', hdump, htag, hattributes]

/-- a field before its struct, and values that need escaping -/
def escapedText : String :=
  "<CastXML format=\"&lt;1&gt;\">" ++
  "<Field id=\"_1\" context=\"_2\" name=\"a&amp;b\"/>" ++
  "<Struct id=\"_2\">" ++ "<Comment text=\"x &gt; y\"/>" ++ "</Struct>" ++
  "</CastXML>"

def escaped : Document where
  rootTag := "CastXML"
  rootAttributes := [("format", "<1>")]
  nodes := #[⟨.field, [("id", "_1"), ("context", "_2"), ("name", "a&b")], [], some 1⟩,
    ⟨.structType, [("id", "_2")], [2, 0], none⟩,
    ⟨.other "Comment", [("text", "x > y")], [], some 1⟩]
  roots := [1]
  ids := [("_1", 0), ("_2", 1)]
  files := []

/-- the field is under its struct, the struct has a name that needs escaping, and all of it reads back -/
theorem escaped_dump_reloads :
    Document.ofText escapedText = .ok escaped ∧ escaped.WellNamed ∧
      ∃ f d', (escaped.withAttr 1 "name" "S<\"T\">").Reloads f d' := by
  have h : Document.ofText escapedText = .ok escaped := by
    unfold Document.ofText Markup.Reading.ofText escapedText
    simp only [String.toList_append]
    decide +kernel
  have hnames : escaped.WellNamed := ⟨by decide, by decide, by decide⟩
  exact ⟨h, hnames, dump_reloads _ ((Edited.read h hnames).renamed 1 "S<\"T\">")⟩

end Reloading

end Document

end HeaderModel
