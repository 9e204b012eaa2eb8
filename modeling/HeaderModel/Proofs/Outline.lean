/-
What a document makes of the elements of its text.

The outline of a reading lists the elements below the root in document order, each with the element that it stands in.
Reading turns every one of them into a node, and settling moves the top-level elements under their contexts.
- `Drawn`: a document as the events have it, before any element is moved.
- `Moved`: what settling some of the top-level elements has changed.
- `follows_of_ofReading`: a document that was read follows the outline of its reading, with every child list, parent,
  root, id and file list given in terms of the outline.
-/
import HeaderModel.Proofs.Indexing

namespace HeaderModel

/-- an element as it stands in the text: what it is, and the element that it stands in unless it is top-level -/
structure Row where
  kind : Kind
  attributes : List Markup.Attribute
  owner : Option NodeId
  deriving DecidableEq, Repr

/-- the elements of a text in document order -/
abbrev Outline := List Row

/-- the elements that events report, given the elements that are open, innermost first, and the number so far -/
def Markup.rowsFrom (opened : List NodeId) (next : NodeId) : List Markup.Event → Outline
  | [] => []
  | .closes :: events => rowsFrom opened.tail next events
  | .opens tag attributes isEmpty :: events =>
    ⟨Kind.ofTag tag, attributes.getD [], opened.head?⟩ ::
      rowsFrom (if isEmpty then opened else next :: opened) (next + 1) events

/-- the elements below the root, which is the first that opens -/
def Markup.Reading.outline (r : Markup.Reading) : Outline :=
  Markup.rowsFrom [] 0 (r.events.dropWhile (· = .closes)).tail

namespace Outline

variable (o : Outline)

/-- the element that an element stands in -/
def ownerOf (i : NodeId) : Option NodeId := o[i]?.bind (·.owner)

/-- an attribute of an element -/
def attrOf (i : NodeId) (name : String) : Option String := o[i]?.bind (·.attributes.lookup name)

/-- the top-level elements, in document order -/
def topLevel : List NodeId := o.findIdxs fun row => row.owner = none

/-- the elements that stand in an element, in document order -/
def nested (p : NodeId) : List NodeId := o.findIdxs fun row => row.owner = some p

/-- the top-level element with an id -/
def named (id : String) : Option NodeId := o.topLevel.find? fun i => o.attrOf i "id" = some id

/-- the top-level element that an element names as its context -/
def contextOf (i : NodeId) : Option NodeId := (o.attrOf i "context").bind o.named

/-- the top-level elements with a file, in document order -/
def inFile (file : String) : List NodeId := o.topLevel.filter fun i => o.attrOf i "file" = some file

end Outline

/-! ## One more element -/

namespace Outline

variable {o : Outline} {row : Row} {i p : NodeId}

theorem mem_topLevel : i ∈ o.topLevel ↔ i < o.length ∧ o.ownerOf i = none := by
  unfold topLevel ownerOf
  rw [List.mem_findIdxs_iff_exists_getElem_pos]
  constructor
  · rintro ⟨hi, h⟩
    exact ⟨hi, by simpa [List.getElem?_eq_getElem hi] using h⟩
  · rintro ⟨hi, h⟩
    exact ⟨hi, by simpa [List.getElem?_eq_getElem hi] using h⟩

theorem mem_nested : i ∈ o.nested p ↔ o.ownerOf i = some p := by
  unfold nested ownerOf
  rw [List.mem_findIdxs_iff_exists_getElem_pos]
  constructor
  · rintro ⟨hi, h⟩
    simpa [List.getElem?_eq_getElem hi] using h
  · intro h
    obtain ⟨row, hrow, howner⟩ := Option.bind_eq_some_iff.1 h
    obtain ⟨hi, rfl⟩ := List.getElem?_eq_some_iff.1 hrow
    exact ⟨hi, by simpa using howner⟩

theorem lt_of_ownerOf (h : o.ownerOf i = some p) : i < o.length := by
  obtain ⟨row, hrow, -⟩ := Option.bind_eq_some_iff.1 h
  exact (List.getElem?_eq_some_iff.1 hrow).1

theorem getElem?_last : (o ++ [row])[o.length]? = some row := List.getElem?_concat_length

theorem attrOf_append (hi : i < o.length) (name : String) : attrOf (o ++ [row]) i name = o.attrOf i name := by
  unfold attrOf
  rw [List.getElem?_append_left hi]

theorem attrOf_last (name : String) : attrOf (o ++ [row]) o.length name = row.attributes.lookup name := by
  unfold attrOf
  rw [getElem?_last]
  rfl

theorem ownerOf_last : ownerOf (o ++ [row]) o.length = row.owner := by
  unfold ownerOf
  rw [getElem?_last]
  rfl

theorem ownerOf_append (hi : i < o.length) : ownerOf (o ++ [row]) i = o.ownerOf i := by
  unfold ownerOf
  rw [List.getElem?_append_left hi]

theorem topLevel_append :
    topLevel (o ++ [row]) = o.topLevel ++ if row.owner = none then [o.length] else [] := by
  simp [topLevel, List.findIdxs_append]

theorem nested_append : nested (o ++ [row]) p = o.nested p ++ if row.owner = some p then [o.length] else [] := by
  simp [nested, List.findIdxs_append]

theorem nested_eq_nil (howners : ∀ i p, o.ownerOf i = some p → p < i) (hp : o.length ≤ p + 1) : o.nested p = [] := by
  refine List.eq_nil_iff_forall_not_mem.2 fun i hi => ?_
  have howner := mem_nested.1 hi
  have hle := Nat.le_of_lt_succ (Nat.lt_of_lt_of_le (lt_of_ownerOf howner) hp)
  exact absurd hle (Nat.not_le_of_lt (howners i p howner))

theorem inFile_append (file : String) : inFile (o ++ [row]) file =
    o.inFile file ++ if row.owner = none ∧ row.attributes.lookup "file" = some file then [o.length] else [] := by
  have hold : o.topLevel.filter (fun i => attrOf (o ++ [row]) i "file" = some file) = o.inFile file := by
    refine List.filter_congr fun i hi => ?_
    rw [attrOf_append (mem_topLevel.1 hi).1]
  unfold inFile at hold ⊢
  rw [topLevel_append, List.filter_append, hold]
  by_cases hrow : row.owner = none
  · simp [hrow, attrOf_last, List.filter_singleton]
  · simp [hrow]

end Outline

/-! ## Reading -/

namespace Document

/-- the lists of files are those of an outline -/
structure Filed (o : Outline) (files : List (String × List NodeId)) : Prop where
  keys : (files.map (·.1)).Nodup
  lists : ∀ f ∈ files, f.2 = o.inFile f.1
  covers : ∀ i ∈ o.topLevel, ∀ file, o.attrOf i "file" = some file → file ∈ files.map (·.1)

/-- a document has the elements of an outline where they stand in the text -/
structure Drawn (o : Outline) (d : Document) : Prop where
  size : d.nodes.size = o.length
  node : ∀ i row, o[i]? = some row → d.node i = ⟨row.kind, row.attributes, o.nested i, row.owner⟩
  roots : d.roots = o.topLevel
  ids : d.ids.map (·.2) = o.topLevel
  filed : Filed o d.files
  owners : ∀ i p, o.ownerOf i = some p → p < i

section Files

variable {α : Type} {key : String} {a : α} {l : List (String × List α)}

theorem keys_appendTo : (appendTo key a l).map (·.1) =
    l.map (·.1) ++ if key ∈ l.map (·.1) then [] else [key] := by
  induction l with
  | nil => rfl
  | cons e l ih =>
    obtain ⟨k, as⟩ := e
    by_cases hk : k = key
    · simp [appendTo, hk]
    · simp only [appendTo, hk, if_false, List.map_cons, ih, List.mem_cons, Ne.symm hk, false_or, List.cons_append]

/-- each list is as it was, or it is the list of the key with one more at its end -/
theorem cases_appendTo (hl : (l.map (·.1)).Nodup) {f : String × List α} (hf : f ∈ appendTo key a l) :
    (f ∈ l ∧ f.1 ≠ key) ∨ (∃ as, (key, as) ∈ l ∧ f = (key, as ++ [a])) ∨ (key ∉ l.map (·.1) ∧ f = (key, [a])) := by
  induction l with
  | nil => exact .inr (.inr ⟨List.not_mem_nil, List.mem_singleton.1 hf⟩)
  | cons e l ih =>
    obtain ⟨k, as⟩ := e
    rw [List.map_cons, List.nodup_cons] at hl
    by_cases hk : k = key
    · subst hk
      simp only [appendTo, if_true] at hf
      rcases List.mem_cons.1 hf with rfl | hf
      · exact .inr (.inl ⟨as, List.mem_cons_self, rfl⟩)
      · refine .inl ⟨List.mem_cons_of_mem _ hf, fun h => hl.1 ?_⟩
        rw [← h]
        exact List.mem_map.2 ⟨f, hf, rfl⟩
    · simp only [appendTo, hk, if_false] at hf
      rcases List.mem_cons.1 hf with rfl | hf
      · exact .inl ⟨List.mem_cons_self, hk⟩
      · rcases ih hl.2 hf with ⟨hmem, hne⟩ | ⟨as', hmem, rfl⟩ | ⟨hnew, rfl⟩
        · exact .inl ⟨List.mem_cons_of_mem _ hmem, hne⟩
        · exact .inr (.inl ⟨as', List.mem_cons_of_mem _ hmem, rfl⟩)
        · refine .inr (.inr ⟨?_, rfl⟩)
          simpa [Ne.symm hk] using hnew

end Files

section Steps

variable {o : Outline} {d d' : Document} {row : Row}

theorem Filed.inside {files : List (String × List NodeId)} (h : Filed o files) (hrow : row.owner ≠ none) :
    Filed (o ++ [row]) files := by
  refine ⟨h.keys, fun f hf => ?_, fun i hi file hfile => ?_⟩
  · rw [Outline.inFile_append, if_neg fun hboth => hrow hboth.1, List.append_nil]
    exact h.lists f hf
  · rw [Outline.topLevel_append, if_neg hrow, List.append_nil] at hi
    rw [Outline.attrOf_append (Outline.mem_topLevel.1 hi).1] at hfile
    exact h.covers i hi file hfile

theorem Filed.below {files : List (String × List NodeId)} (h : Filed o files) (row : Row) (hrow : row.owner = none) :
    Filed (o ++ [row]) (match row.attributes.lookup "file" with
      | some file => appendTo file o.length files
      | none => files) := by
  have hold : ∀ i ∈ Outline.topLevel (o ++ [row]), ∀ file, Outline.attrOf (o ++ [row]) i "file" = some file →
      file ∈ files.map (·.1) ∨ row.attributes.lookup "file" = some file := by
    intro i hi file hfile
    rw [Outline.topLevel_append, if_pos hrow] at hi
    rcases List.mem_append.1 hi with hi | hi
    · rw [Outline.attrOf_append (Outline.mem_topLevel.1 hi).1] at hfile
      exact .inl (h.covers i hi file hfile)
    · obtain rfl := List.mem_singleton.1 hi
      rw [Outline.attrOf_last] at hfile
      exact .inr hfile
  cases hfile : row.attributes.lookup "file" with
  | none =>
    refine ⟨h.keys, fun f hf => ?_, fun i hi file hi' => ?_⟩
    · simpa [Outline.inFile_append, hfile] using h.lists f hf
    · rcases hold i hi file hi' with hmem | hsome
      · exact hmem
      · rw [hfile] at hsome
        cases hsome
  | some key =>
    refine ⟨?_, fun f hf => ?_, fun i hi file hi' => ?_⟩
    · rw [keys_appendTo]
      split_ifs with hkey
      · simpa using h.keys
      · exact List.nodup_append'.2 ⟨h.keys, List.nodup_singleton _, by simpa using hkey⟩
    · rw [Outline.inFile_append, hfile]
      rcases cases_appendTo h.keys hf with ⟨hmem, hne⟩ | ⟨as, hmem, rfl⟩ | ⟨hnew, rfl⟩
      · rw [if_neg fun hboth => hne (Option.some.inj hboth.2).symm, List.append_nil]
        exact h.lists f hmem
      · rw [if_pos ⟨hrow, rfl⟩]
        exact congrArg (· ++ [o.length]) (h.lists _ hmem)
      · -- no element so far has the file, so its list was empty
        have hnone : o.inFile key = [] := by
          refine List.eq_nil_iff_forall_not_mem.2 fun i hi => hnew ?_
          obtain ⟨htop, hattr⟩ := List.mem_filter.1 hi
          exact h.covers i htop key (of_decide_eq_true hattr)
        rw [if_pos ⟨hrow, rfl⟩, hnone, List.nil_append]
    · rw [keys_appendTo]
      rcases hold i hi file hi' with hmem | hsome
      · exact List.mem_append_left _ hmem
      · rw [hfile] at hsome
        cases hsome
        by_cases hkey : key ∈ files.map (·.1)
        · exact List.mem_append_left _ hkey
        · rw [if_neg hkey]
          exact List.mem_append_right _ List.mem_cons_self

theorem drawn_ofRoot (tag : String) (attributes : List Markup.Attribute) : Drawn [] (ofRoot tag attributes) where
  size := rfl
  node := fun i row h => by simp at h
  roots := rfl
  ids := rfl
  filed := ⟨.nil, fun _ hf => absurd hf List.not_mem_nil, fun _ hi => absurd hi List.not_mem_nil⟩
  owners := fun i p h => by simp [Outline.ownerOf] at h

theorem owners_append (row : Row) (ho : ∀ i p, o.ownerOf i = some p → p < i) (hrow : ∀ p, row.owner = some p → p < o.length)
    (i p : NodeId) (h : Outline.ownerOf (o ++ [row]) i = some p) : p < i := by
  have hi := Outline.lt_of_ownerOf h
  rw [List.length_append, List.length_singleton] at hi
  rcases Nat.lt_succ_iff_lt_or_eq.1 hi with hi | rfl
  · rw [Outline.ownerOf_append hi] at h
    exact ho i p h
  · rw [Outline.ownerOf_last] at h
    exact hrow p h

/-- an element that is added inside another is the last of its children -/
theorem Drawn.addNested (hd : Drawn o d) {owner : NodeId} (howner : owner < o.length) (kind : Kind)
    (attributes : List Markup.Attribute) :
    Drawn (o ++ [⟨kind, attributes, some owner⟩]) (d.addNested owner kind attributes) := by
  have howners := owners_append ⟨kind, attributes, some owner⟩ hd.owners fun p hp => by
    cases hp
    exact howner
  have htop : Outline.topLevel (o ++ [⟨kind, attributes, some owner⟩]) = o.topLevel := by
    rw [Outline.topLevel_append, if_neg nofun, List.append_nil]
  refine ⟨?_, fun i row hrow => ?_, hd.roots.trans htop.symm, hd.ids.trans htop.symm, hd.filed.inside nofun, howners⟩
  · simp [Document.addNested, modifyNode, hd.size]
  · have hi := (List.getElem?_eq_some_iff.1 hrow).1
    rw [List.length_append, List.length_singleton] at hi
    rcases Nat.lt_succ_iff_lt_or_eq.1 hi with hi | rfl
    · rw [List.getElem?_append_left hi] at hrow
      rw [node_addNested (hd.size ▸ hi), hd.node i row hrow, Outline.nested_append, hd.size]
      simp only [Option.some.injEq]
    · rw [Outline.getElem?_last] at hrow
      cases hrow
      rw [Outline.nested_eq_nil howners (by simp), ← hd.size]
      exact node_addNested_size (hd.size ▸ howner)

/-- a top-level element is found by its id and listed under its file -/
theorem Drawn.addTopLevel (hd : Drawn o d) {kind : Kind} {attributes : List Markup.Attribute}
    (h : d.addTopLevel kind attributes = .ok d') : Drawn (o ++ [⟨kind, attributes, none⟩]) d' := by
  obtain ⟨id, -, -, rfl⟩ := addTopLevel_eq_ok.1 h
  have howners := owners_append ⟨kind, attributes, none⟩ hd.owners (by simp)
  have htop : Outline.topLevel (o ++ [⟨kind, attributes, none⟩]) = o.topLevel ++ [d.nodes.size] := by
    rw [Outline.topLevel_append, if_pos rfl, hd.size]
  refine ⟨?_, fun i row hrow => ?_, ?_, ?_, ?_, howners⟩
  · simp [withTopLevel, hd.size]
  · have hi := (List.getElem?_eq_some_iff.1 hrow).1
    rw [List.length_append, List.length_singleton] at hi
    rcases Nat.lt_succ_iff_lt_or_eq.1 hi with hi | rfl
    · rw [List.getElem?_append_left hi] at hrow
      rw [node_push (d := d) (n := ⟨kind, attributes, [], none⟩) _ rfl (hd.size.symm ▸ hi), hd.node i row hrow,
        Outline.nested_append, if_neg (by simp), List.append_nil]
    · rw [Outline.getElem?_last] at hrow
      cases hrow
      rw [Outline.nested_eq_nil howners (by simp), ← hd.size]
      exact node_push_size rfl
  · exact (congrArg (· ++ [d.nodes.size]) hd.roots).trans htop.symm
  · rw [htop, ← hd.ids]
    simp [withTopLevel]
  · have hfiled := hd.filed.below ⟨kind, attributes, none⟩ rfl
    rw [← hd.size] at hfiled
    exact hfiled

theorem Drawn.addIn (hd : Drawn o d) {kind : Kind} {attributes : List Markup.Attribute} {owner : Option NodeId}
    (howner : ∀ p, owner = some p → p < o.length) (h : d.addIn kind attributes owner = .ok d') :
    Drawn (o ++ [⟨kind, attributes, owner⟩]) d' := by
  cases owner with
  | none => exact hd.addTopLevel h
  | some owner =>
    cases h
    exact hd.addNested (howner owner rfl) kind attributes

/-- events below the root add the elements that they report -/
theorem drawn_steps {events : List Markup.Event} {s t : Loading} (hs : s.document = some d) (hd : Drawn o d)
    (hopened : ∀ i ∈ s.opened, i < o.length) (h : events.foldlM Loading.step s = .ok t) :
    ∃ d', t.document = some d' ∧ Drawn (o ++ Markup.rowsFrom s.opened o.length events) d' := by
  induction events generalizing s d o with
  | nil =>
    cases h
    refine ⟨d, hs, ?_⟩
    rwa [Markup.rowsFrom, List.append_nil]
  | cons event events ih =>
    rw [List.foldlM_cons] at h
    cases hstep : s.step event with
    | error e => rw [hstep] at h; cases h
    | ok s' =>
      rw [hstep] at h
      cases event with
      | closes =>
        cases hstep
        exact ih (s := { s with opened := s.opened.tail }) hs hd (fun i hi => hopened i (List.tail_subset _ hi)) h
      | opens tag attributes isEmpty =>
        obtain ⟨as, added, rfl, hadd, rfl⟩ := exists_of_step_opens hs hstep
        have hdrawn := hd.addIn (fun p hp => hopened p (List.mem_of_mem_head? hp)) hadd
        have hlength : (o ++ [Row.mk (Kind.ofTag tag) as s.opened.head?]).length = o.length + 1 := by simp
        have hopened' : ∀ i ∈ (if isEmpty then s.opened else d.nodes.size :: s.opened), i < o.length + 1 := by
          intro i hi
          split_ifs at hi
          · exact Nat.lt_succ_of_lt (hopened i hi)
          · rcases List.mem_cons.1 hi with rfl | hi
            · exact hd.size ▸ Nat.lt_succ_self _
            · exact Nat.lt_succ_of_lt (hopened i hi)
        obtain ⟨d', hd', hall⟩ := ih (d := added) rfl hdrawn (fun i hi => hlength.symm ▸ hopened' i hi) h
        refine ⟨d', hd', ?_⟩
        rw [hlength, hd.size, List.append_assoc] at hall
        exact hall

theorem drawn_of_events {events : List Markup.Event} {t : Loading} (h : events.foldlM Loading.step ⟨none, []⟩ = .ok t)
    (hd : t.document = some d) : Drawn (Markup.rowsFrom [] 0 (events.dropWhile (· = .closes)).tail) d := by
  induction events with
  | nil =>
    cases h
    cases hd
  | cons event events ih =>
    rw [List.foldlM_cons] at h
    cases hstep : Loading.step ⟨none, []⟩ event with
    | error e => rw [hstep] at h; cases h
    | ok s =>
      rw [hstep] at h
      cases event with
      | closes =>
        cases hstep
        exact ih h
      | opens tag attributes isEmpty =>
        obtain ⟨as, -, -, rfl⟩ := exists_of_step_root rfl hstep
        obtain ⟨d', hd', hdrawn⟩ := drawn_steps rfl (drawn_ofRoot tag as) (fun _ hi => absurd hi List.not_mem_nil) h
        rw [hd] at hd'
        cases hd'
        exact hdrawn

end Steps

/-! ## Settling -/

/-- the element that is found by an element's context -/
def contextOf (d : Document) (i : NodeId) : Option NodeId := ((d.node i).attr? "context").bind fun id => d.ids.lookup id

/-- what moving some elements under their contexts has changed -/
structure Moved (is : List NodeId) (d d' : Document) : Prop where
  ids : d'.ids = d.ids
  files : d'.files = d.files
  size : d'.nodes.size = d.nodes.size
  node : ∀ i < d.nodes.size, d'.node i = { d.node i with
    children := (d.node i).children ++ is.filter (d.contextOf · = some i)
    parent := if i ∈ is then d.contextOf i else (d.node i).parent }
  roots : d'.roots = is.filter fun i => (d.node i).attr? "context" = none
  known : ∀ i ∈ is, (d.node i).attr? "context" ≠ none → d.contextOf i ≠ none

section Settling

variable {d d' d'' : Document} {is : List NodeId} {i : NodeId}

theorem Moved.attr (h : Moved is d d') (hi : i < d.nodes.size) (name : String) :
    (d'.node i).attr? name = (d.node i).attr? name := by
  rw [h.node i hi]
  rfl

theorem Moved.settle (h : Moved is d d') (hi : i < d.nodes.size) (hnew : i ∉ is) (hparent : (d.node i).parent = none)
    (hsettle : d'.settle i = .ok d'') : Moved (is ++ [i]) d d'' := by
  have hknown : ((d.node i).attr? "context" ≠ none → d.contextOf i ≠ none) →
      ∀ j ∈ is ++ [i], (d.node j).attr? "context" ≠ none → d.contextOf j ≠ none := by
    intro hi j hj
    rcases List.mem_append.1 hj with hj | hj
    · exact h.known j hj
    · rwa [List.mem_singleton.1 hj]
  rcases settle_cases hsettle with ⟨hcontext, rfl⟩ | ⟨context, owner, hcontext, howner, rfl⟩ <;>
    rw [h.attr hi] at hcontext
  · have hnone : d.contextOf i = none := by simp [Document.contextOf, hcontext]
    refine ⟨h.ids, h.files, h.size, fun j hj => ?_, ?_, hknown fun hsome => absurd hcontext hsome⟩
    · refine (h.node j hj).trans ?_
      by_cases hij : j = i
      · subst hij
        simp [hnew, hnone, hparent]
      · simp [hij, hnone]
    · simp [h.roots, hcontext]
  · have hsome : d.contextOf i = some owner := by
      rw [Document.contextOf, hcontext, ← h.ids]
      exact placeOf_eq_ok.1 howner
    refine ⟨h.ids, h.files, (size_moveUnder d' i owner).trans h.size, fun j hj => ?_, ?_,
      hknown fun _ => hsome ▸ Option.some_ne_none owner⟩
    · rw [node_moveUnder (h.size ▸ hj), h.node j hj]
      by_cases hij : i = j
      · subst hij
        simp [hsome, List.filter_singleton, hnew]
      · simp [hsome, List.filter_singleton, hij, Ne.symm hij]
    · simp [h.roots, hcontext, moveUnder, modifyNode]

theorem moved_steps {rest : List NodeId} (h : Moved is d d') (hnodup : (is ++ rest).Nodup)
    (hrest : ∀ i ∈ rest, i < d.nodes.size ∧ (d.node i).parent = none)
    (hsettle : rest.foldlM Document.settle d' = .ok d'') : Moved (is ++ rest) d d'' := by
  induction rest generalizing is d' with
  | nil =>
    cases hsettle
    rwa [List.append_nil]
  | cons i rest ih =>
    rw [List.foldlM_cons] at hsettle
    cases hstep : d'.settle i with
    | error e => rw [hstep] at hsettle; cases hsettle
    | ok d₁ =>
      rw [hstep] at hsettle
      have hnew : i ∉ is := fun hi => (List.nodup_append'.1 hnodup).2.2 hi List.mem_cons_self
      obtain ⟨hi, hparent⟩ := hrest i List.mem_cons_self
      have hall := ih (h.settle hi hnew hparent hstep) (by simpa using hnodup)
        (fun j hj => hrest j (List.mem_cons_of_mem _ hj)) hsettle
      rwa [List.append_assoc] at hall

theorem moved_of_settleAll (hnodup : d.roots.Nodup)
    (hroots : ∀ i ∈ d.roots, i < d.nodes.size ∧ (d.node i).parent = none) (h : d.settleAll = .ok d') :
    Moved d.roots d d' := by
  have hnone : Moved [] d { d with roots := [] } :=
    ⟨rfl, rfl, rfl, fun i _ => by simp [Document.node], rfl, fun _ hi => absurd hi List.not_mem_nil⟩
  exact moved_steps hnone hnodup hroots h

end Settling

end Document

/-! ## A document that was read -/

namespace Outline

variable (o : Outline)

/-- what an element holds: what stands in it, then the top-level elements that name it as their context -/
def childrenOf (p : NodeId) : List NodeId := o.nested p ++ o.topLevel.filter fun i => o.contextOf i = some p

/-- what holds an element: what it stands in, or its context -/
def parentOf (i : NodeId) : Option NodeId := (o.ownerOf i).or (o.contextOf i)

end Outline

namespace Document

/-- a document has the elements of an outline, the top-level ones under their contexts -/
structure Follows (o : Outline) (d : Document) : Prop where
  size : d.nodes.size = o.length
  node : ∀ i row, o[i]? = some row → d.node i = ⟨row.kind, row.attributes, o.childrenOf i, o.parentOf i⟩
  roots : d.roots = o.topLevel.filter fun i => o.attrOf i "context" = none
  found : ∀ i ∈ o.topLevel, ∃ id, o.attrOf i "id" = some id ∧ d.placeOf id = .ok i
  filed : Filed o d.files
  owners : ∀ i p, o.ownerOf i = some p → p < i
  contexts : ∀ i ∈ o.topLevel, o.attrOf i "context" ≠ none → o.contextOf i ≠ none

section Reading

variable {o : Outline} {d d' : Document} {r : Markup.Reading}

theorem Drawn.attr (hd : Drawn o d) {i : NodeId} (hi : i < o.length) (name : String) :
    (d.node i).attr? name = o.attrOf i name := by
  have hrow := List.getElem?_eq_getElem hi
  rw [hd.node i _ hrow, Outline.attrOf, hrow]
  rfl

/-- what is found by an id is the top-level element that has it -/
theorem Drawn.lookup_ids (hd : Drawn o d) (hindexed : d.Indexed) (id : String) : d.ids.lookup id = o.named id := by
  have hmem : ∀ i, (id, i) ∈ d.ids ↔ i ∈ o.topLevel ∧ o.attrOf i "id" = some id := by
    intro i
    rw [← hd.ids]
    constructor
    · intro he
      have hi : i ∈ d.ids.map (·.2) := List.mem_map.2 ⟨_, he, rfl⟩
      rw [← hd.attr (Outline.mem_topLevel.1 (hd.ids ▸ hi)).1]
      exact ⟨hi, (hindexed.known _ he).2⟩
    · rintro ⟨hi, hattr⟩
      rw [← hd.attr (Outline.mem_topLevel.1 (hd.ids ▸ hi)).1] at hattr
      obtain ⟨e, he, rfl⟩ := List.mem_map.1 hi
      obtain rfl := Option.some.inj (hattr.symm.trans (hindexed.known e he).2)
      exact he
  cases hnamed : o.named id with
  | some i =>
    have hattr := List.find?_some hnamed
    exact lookup_of_mem hindexed.keys ((hmem i).2 ⟨List.mem_of_find?_eq_some hnamed, of_decide_eq_true hattr⟩)
  | none =>
    refine Option.eq_none_iff_forall_ne_some.2 fun i hi => ?_
    obtain ⟨htop, hattr⟩ := (hmem i).1 (mem_of_lookup hi)
    exact List.find?_eq_none.1 hnamed i htop (decide_eq_true hattr)

theorem Drawn.contextOf (hd : Drawn o d) (hindexed : d.Indexed) {i : NodeId} (hi : i < o.length) :
    d.contextOf i = o.contextOf i := by
  unfold Document.contextOf Outline.contextOf
  rw [hd.attr hi]
  exact congrArg (Option.bind _) (funext fun id => hd.lookup_ids hindexed id)

theorem Drawn.settleAll (hd : Drawn o d) (hindexed : d.Indexed) (h : d.settleAll = .ok d') : Follows o d' := by
  have htop : ∀ i ∈ o.topLevel, i < d.nodes.size ∧ (d.node i).parent = none := by
    intro i hi
    obtain ⟨hlt, howner⟩ := Outline.mem_topLevel.1 hi
    rw [Outline.ownerOf, List.getElem?_eq_getElem hlt] at howner
    exact ⟨hd.size ▸ hlt, (congrArg Node.parent (hd.node i _ (List.getElem?_eq_getElem hlt))).trans howner⟩
  have hmoved := moved_of_settleAll (hd.roots ▸ List.nodup_findIdxs) (hd.roots ▸ htop) h
  rw [hd.roots] at hmoved
  have hcontext : ∀ i ∈ o.topLevel, d.contextOf i = o.contextOf i := fun i hi =>
    hd.contextOf hindexed (Outline.mem_topLevel.1 hi).1
  have hfound : ∀ id, d'.placeOf id = d.placeOf id := fun id => by rw [placeOf, placeOf, hmoved.ids]
  refine ⟨hmoved.size.trans hd.size, fun i row hrow => ?_, ?_, fun i hi => ?_, hmoved.files ▸ hd.filed, hd.owners,
    fun i hi hsome => ?_⟩
  · have hi := (List.getElem?_eq_some_iff.1 hrow).1
    have hchildren : o.topLevel.filter (d.contextOf · = some i) = o.topLevel.filter (o.contextOf · = some i) :=
      List.filter_congr fun j hj => by rw [hcontext j hj]
    have hparent : (if i ∈ o.topLevel then d.contextOf i else row.owner) = o.parentOf i := by
      have howner : o.ownerOf i = row.owner := by rw [Outline.ownerOf, hrow]; rfl
      split_ifs with hmem
      · rw [hcontext i hmem, Outline.parentOf, (Outline.mem_topLevel.1 hmem).2, Option.none_or]
      · obtain ⟨p, hp⟩ := Option.ne_none_iff_exists'.1 fun hnone => hmem (Outline.mem_topLevel.2 ⟨hi, hnone⟩)
        rw [Outline.parentOf, ← howner, hp, Option.some_or]
    rw [hmoved.node i (hd.size ▸ hi), hd.node i row hrow, hchildren, hparent]
    rfl
  · rw [hmoved.roots]
    exact List.filter_congr fun i hi => by rw [hd.attr (Outline.mem_topLevel.1 hi).1]
  · obtain ⟨e, he, rfl⟩ := List.mem_map.1 (hd.ids ▸ hi)
    refine ⟨e.1, ?_, ?_⟩
    · rw [← hd.attr (Outline.mem_topLevel.1 hi).1]
      exact (hindexed.known e he).2
    · rw [hfound]
      exact placeOf_eq_ok.2 (lookup_of_mem hindexed.keys he)
  · rw [← hcontext i hi]
    exact hmoved.known i hi (hd.attr (Outline.mem_topLevel.1 hi).1 "context" ▸ hsome)

/-- **A document that was read follows the outline of its reading.** -/
theorem follows_of_ofReading (h : Document.ofReading r = .ok d) : Follows r.outline d := by
  obtain ⟨s, d₀, hsteps, -, hd, hsettle⟩ := exists_of_ofReading h
  exact (drawn_of_events hsteps hd).settleAll (growing_of_steps hsteps d₀ hd).indexed hsettle

end Reading

end Document

end HeaderModel
