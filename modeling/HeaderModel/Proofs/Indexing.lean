/-
What a document that was read is sure to have.

Reading pushes nodes, gives every top-level element an id of its own, lists it under its file, and in the end moves it
under its context. None of these steps, nor renaming after typedefs, changes the id or the context of a node.
- `Loaded.indexed`: ids find the elements that carry them, files list only elements that name them, each at most once,
  and the parent of an element that is found by an id is its context.
-/
import Mathlib.Tactic
import HeaderModel.Document.Loading
import HeaderModel.Document.TypedefNames

namespace HeaderModel

namespace Document

/-- a document that was read, and perhaps had its aggregates named after typedefs -/
inductive Loaded : Document → Prop where
  | read {r : Markup.Reading} {d : Document} : Document.ofReading r = .ok d → Loaded d
  | named {d d' : Document} : Loaded d → d.nameByTypedef = .ok d' → Loaded d'

/-- an element that is found by an id -/
def Placed (d : Document) (i : NodeId) : Prop := ∃ id, d.placeOf id = .ok i

/-- the elements that files list -/
def listed (d : Document) : List NodeId := d.files.flatMap (·.2)

/-- the index of a document is in order -/
structure Indexed (d : Document) : Prop where
  keys : (d.ids.map (·.1)).Nodup
  known : ∀ e ∈ d.ids, e.2 < d.nodes.size ∧ (d.node e.2).attr? "id" = some e.1
  parent : ∀ e ∈ d.ids, ∀ p, (d.node e.2).parent = some p →
    ∃ context, (d.node e.2).attr? "context" = some context ∧ d.placeOf context = .ok p
  nodup : d.listed.Nodup
  listed : ∀ i ∈ d.listed, i ∈ d.ids.map (·.2)
  filed : ∀ f ∈ d.files, ∀ i ∈ f.2, (d.node i).attr? "file" = some f.1

/-! ## Changing a node -/

section Nodes

variable {d : Document} {i j : NodeId}

theorem node_modifyNode (d : Document) (i j : NodeId) (f : Node → Node) :
    (d.modifyNode i f).node j = if i = j ∧ j < d.nodes.size then f (d.node j) else d.node j := by
  unfold node modifyNode
  rw [Array.getD_eq_getD_getElem?, Array.getD_eq_getD_getElem?, Array.getElem?_modify]
  by_cases hij : i = j
  · by_cases hj : j < d.nodes.size
    · simp [hij, hj]
    · simp [hij, hj]
  · simp [hij]

@[simp]
theorem size_modifyNode (d : Document) (i : NodeId) (f : Node → Node) : (d.modifyNode i f).nodes.size = d.nodes.size :=
  Array.size_modify

theorem node_push {n : Node} {d : Document} (d' : Document) (hd : d'.nodes = d.nodes.push n) (hj : j < d.nodes.size) :
    d'.node j = d.node j := by
  unfold node
  rw [Array.getD_eq_getD_getElem?, Array.getD_eq_getD_getElem?, hd, Array.getElem?_push, if_neg (Nat.ne_of_lt hj)]

theorem node_push_size {n : Node} {d d' : Document} (hd : d'.nodes = d.nodes.push n) :
    d'.node d.nodes.size = n := by
  unfold node
  rw [Array.getD_eq_getD_getElem?, hd, Array.getElem?_push_size]
  rfl

theorem lookup_setIn {key name : String} (h : key ≠ name) (value : String) (as : List Markup.Attribute) :
    (Node.setIn name value as).lookup key = as.lookup key := by
  induction as with
  | nil => simp [Node.setIn, List.lookup_cons, beq_false_of_ne h]
  | cons a as ih =>
    obtain ⟨k, old⟩ := a
    by_cases hk : k = name
    · subst hk
      simp [Node.setIn, List.lookup_cons, beq_false_of_ne h]
    · simp only [Node.setIn, hk, if_false, List.lookup_cons, ih]

end Nodes

theorem placeOf_eq_ok {d : Document} {id : String} {i : NodeId} :
    d.placeOf id = .ok i ↔ d.ids.lookup id = some i := by
  unfold placeOf
  cases d.ids.lookup id with
  | none => simp
  | some j => simp

theorem mem_of_lookup {α : Type} {l : List (String × α)} {key : String} {a : α} (h : l.lookup key = some a) :
    (key, a) ∈ l := by
  obtain ⟨l₁, l₂, rfl, -⟩ := List.lookup_eq_some_iff.1 h
  simp

theorem lookup_of_mem {α : Type} {l : List (String × α)} {key : String} {a : α} (hl : (l.map (·.1)).Nodup)
    (h : (key, a) ∈ l) : l.lookup key = some a := by
  obtain ⟨l₁, l₂, rfl⟩ := List.append_of_mem h
  refine List.lookup_eq_some_iff.2 ⟨l₁, l₂, rfl, fun p hp => ?_⟩
  rw [List.map_append, List.map_cons, List.nodup_append'] at hl
  have hne : key ≠ p.1 := fun hkey => hl.2.2 (List.mem_map_of_mem hp) (hkey ▸ List.mem_cons_self)
  simpa using hne

/-! ## Steps of reading -/

theorem flatMap_appendTo {α : Type} (key : String) (a : α) (l : List (String × List α)) :
    ((appendTo key a l).flatMap (·.2)).Perm (l.flatMap (·.2) ++ [a]) := by
  induction l with
  | nil => exact .refl _
  | cons e l ih =>
    obtain ⟨k, as⟩ := e
    by_cases hk : k = key
    · simp only [appendTo, hk, if_true, List.flatMap_cons, List.append_assoc]
      exact List.Perm.append_left as List.perm_append_comm
    · simp only [appendTo, hk, if_false, List.flatMap_cons, List.append_assoc]
      exact List.Perm.append_left as ih

theorem mem_appendTo {α : Type} {key : String} {a b : α} {l : List (String × List α)} {f : String × List α}
    (hf : f ∈ appendTo key a l) (hb : b ∈ f.2) : (∃ f' ∈ l, f'.1 = f.1 ∧ b ∈ f'.2) ∨ f.1 = key ∧ b = a := by
  induction l with
  | nil =>
    obtain rfl := List.mem_singleton.1 hf
    exact .inr ⟨rfl, List.mem_singleton.1 hb⟩
  | cons e l ih =>
    obtain ⟨k, as⟩ := e
    by_cases hk : k = key
    · simp only [appendTo, hk, if_true] at hf
      rcases List.mem_cons.1 hf with rfl | hf
      · rcases List.mem_append.1 hb with hb | hb
        · exact .inl ⟨(k, as), List.mem_cons_self, hk, hb⟩
        · exact .inr ⟨rfl, List.mem_singleton.1 hb⟩
      · exact .inl ⟨f, List.mem_cons_of_mem _ hf, rfl, hb⟩
    · simp only [appendTo, hk, if_false] at hf
      rcases List.mem_cons.1 hf with rfl | hf
      · exact .inl ⟨(k, as), List.mem_cons_self, rfl, hb⟩
      · refine (ih hf).imp_left ?_
        rintro ⟨f', hf', hsame, hb'⟩
        exact ⟨f', List.mem_cons_of_mem _ hf', hsame, hb'⟩

/-- the index is in order and no element has a parent yet that could be found by an id -/
structure Growing (d : Document) : Prop where
  indexed : d.Indexed
  orphans : ∀ e ∈ d.ids, (d.node e.2).parent = none

theorem growing_ofRoot (tag : String) (attributes : List Markup.Attribute) : (ofRoot tag attributes).Growing :=
  ⟨⟨.nil, fun _ h => absurd h List.not_mem_nil, fun _ h => absurd h List.not_mem_nil, .nil,
    fun _ h => absurd h List.not_mem_nil, fun _ h => absurd h List.not_mem_nil⟩, fun _ h => absurd h List.not_mem_nil⟩

section Nested

variable {d : Document} {owner : NodeId} {kind : Kind} {attributes : List Markup.Attribute}

theorem node_addNested {i : NodeId} (hi : i < d.nodes.size) :
    (d.addNested owner kind attributes).node i =
      { d.node i with children := (d.node i).children ++ if owner = i then [d.nodes.size] else [] } := by
  have hpush := node_push { d with nodes := d.nodes.push ⟨kind, attributes, [], some owner⟩ } rfl hi
  rw [Document.addNested, node_modifyNode, hpush]
  by_cases howner : owner = i
  · rw [if_pos ⟨howner, by simpa using Nat.lt_succ_of_lt hi⟩, if_pos howner]
  · rw [if_neg fun h => howner h.1, if_neg howner, List.append_nil]

theorem node_addNested_size (howner : owner < d.nodes.size) :
    (d.addNested owner kind attributes).node d.nodes.size = ⟨kind, attributes, [], some owner⟩ := by
  rw [Document.addNested, node_modifyNode, if_neg fun h => Nat.ne_of_lt howner h.1]
  exact node_push_size rfl

end Nested

theorem Growing.addNested {d : Document} (hd : d.Growing) (owner : NodeId) (kind : Kind)
    (attributes : List Markup.Attribute) : (d.addNested owner kind attributes).Growing := by
  have hnode : ∀ e ∈ d.ids, ((d.addNested owner kind attributes).node e.2).attributes = (d.node e.2).attributes ∧
      ((d.addNested owner kind attributes).node e.2).parent = (d.node e.2).parent := by
    intro e he
    rw [node_addNested (hd.indexed.known e he).1]
    exact ⟨rfl, rfl⟩
  have hattr : ∀ e ∈ d.ids, ∀ key, ((d.addNested owner kind attributes).node e.2).attr? key = (d.node e.2).attr? key :=
    fun e he key => congrArg (List.lookup key) (hnode e he).1
  have horphans : ∀ e ∈ d.ids, ((d.addNested owner kind attributes).node e.2).parent = none := fun e he =>
    (hnode e he).2.trans (hd.orphans e he)
  refine ⟨⟨hd.indexed.keys, fun e he => ⟨?_, ?_⟩, fun e he p hp => ?_, hd.indexed.nodup, hd.indexed.listed,
    fun f hf i hi => ?_⟩, horphans⟩
  · simp only [Document.addNested, size_modifyNode, Array.size_push]
    exact Nat.lt_succ_of_lt (hd.indexed.known e he).1
  · rw [hattr e he]
    exact (hd.indexed.known e he).2
  · rw [horphans e he] at hp
    cases hp
  · obtain ⟨e, he, rfl⟩ := List.mem_map.1 (hd.indexed.listed i (List.mem_flatMap.2 ⟨f, hf, hi⟩))
    rw [hattr e he]
    exact hd.indexed.filed f hf e.2 hi

/-- a document with one more element directly below the root, found by an id -/
def withTopLevel (d : Document) (id : String) (kind : Kind) (attributes : List Markup.Attribute) : Document :=
  { d with
    nodes := d.nodes.push ⟨kind, attributes, [], none⟩
    roots := d.roots ++ [d.nodes.size]
    ids := d.ids ++ [(id, d.nodes.size)]
    files := match attributes.lookup "file" with
      | some file => appendTo file d.nodes.size d.files
      | none => d.files }

/-- a top-level element is added if it has an id that is new -/
theorem addTopLevel_eq_ok {d d' : Document} {kind : Kind} {attributes : List Markup.Attribute} :
    d.addTopLevel kind attributes = .ok d' ↔
      ∃ id, attributes.lookup "id" = some id ∧ d.ids.lookup id = none ∧ d' = d.withTopLevel id kind attributes := by
  unfold Document.addTopLevel Node.need Node.attr?
  dsimp only
  cases hid : attributes.lookup "id" with
  | none =>
    constructor
    · intro h
      cases h
    · rintro ⟨id, hid', -⟩
      cases hid'
  | some id =>
    simp only [bind, Except.bind]
    by_cases hdup : (d.ids.lookup id).isSome
    · rw [if_pos hdup]
      constructor
      · intro h
        cases h
      · rintro ⟨id', hid', hnew, -⟩
        cases hid'
        rw [hnew] at hdup
        cases hdup
    · rw [if_neg hdup]
      have hnew := Option.not_isSome_iff_eq_none.1 hdup
      constructor
      · intro h
        exact ⟨id, rfl, hnew, (Except.ok.inj h).symm⟩
      · rintro ⟨id', hid', -, rfl⟩
        cases hid'
        rfl

theorem Growing.addTopLevel {d d' : Document} (hd : d.Growing) {kind : Kind} {attributes : List Markup.Attribute}
    (h : d.addTopLevel kind attributes = .ok d') : d'.Growing := by
  obtain ⟨id, hid, hnew, rfl⟩ := addTopLevel_eq_ok.1 h
  set d' := d.withTopLevel id kind attributes
  have hnodes : d'.nodes = d.nodes.push ⟨kind, attributes, [], none⟩ := rfl
  have hids : d'.ids = d.ids ++ [(id, d.nodes.size)] := rfl
  have hfiles : d'.files = d.files ∨
      ∃ file, attributes.lookup "file" = some file ∧ d'.files = appendTo file d.nodes.size d.files := by
    simp only [d', withTopLevel]
    cases attributes.lookup "file" with
    | none => exact .inl rfl
    | some file => exact .inr ⟨file, rfl, rfl⟩
  have hold : ∀ e ∈ d.ids, d'.node e.2 = d.node e.2 := fun e he => node_push d' hnodes (hd.indexed.known e he).1
  have hhere : d'.node d.nodes.size = ⟨kind, attributes, [], none⟩ := node_push_size hnodes
  have horphans : ∀ e ∈ d'.ids, (d'.node e.2).parent = none := by
    intro e he
    rw [hids] at he
    rcases List.mem_append.1 he with he | he
    · rw [hold e he]
      exact hd.orphans e he
    · obtain rfl := List.mem_singleton.1 he
      rw [hhere]
  have hfresh : d.nodes.size ∉ d.listed := by
    intro hmem
    obtain ⟨e, he, heq⟩ := List.mem_map.1 (hd.indexed.listed _ hmem)
    exact Nat.ne_of_lt (hd.indexed.known e he).1 heq
  have hlisted : d'.listed.Perm d.listed ∨ d'.listed.Perm (d.listed ++ [d.nodes.size]) := by
    unfold Document.listed
    rcases hfiles with hfiles | ⟨file, -, hfiles⟩
    · exact .inl (hfiles ▸ .refl _)
    · exact .inr (hfiles ▸ flatMap_appendTo file _ _)
  have hkept : ∀ f ∈ d.files, ∀ i ∈ f.2, (d'.node i).attr? "file" = some f.1 := by
    intro f hf i hi
    obtain ⟨e, he, rfl⟩ := List.mem_map.1 (hd.indexed.listed i (List.mem_flatMap.2 ⟨f, hf, hi⟩))
    rw [hold e he]
    exact hd.indexed.filed f hf e.2 hi
  refine ⟨⟨?_, fun e he => ?_, fun e he p hp => ?_, ?_, fun i hi => ?_, fun f hf i hi => ?_⟩, horphans⟩
  · rw [hids, List.map_append]
    refine List.nodup_append'.2 ⟨hd.indexed.keys, List.nodup_singleton _, fun key hkey hkey' => ?_⟩
    obtain rfl := List.mem_singleton.1 hkey'
    obtain ⟨e, he, heq⟩ := List.mem_map.1 hkey
    have hne := List.lookup_eq_none_iff.1 hnew e he
    simp [← heq] at hne
  · rw [hids] at he
    rw [hnodes, Array.size_push]
    rcases List.mem_append.1 he with he | he
    · rw [hold e he]
      exact ⟨Nat.lt_succ_of_lt (hd.indexed.known e he).1, (hd.indexed.known e he).2⟩
    · obtain rfl := List.mem_singleton.1 he
      rw [hhere]
      exact ⟨Nat.lt_succ_self _, hid⟩
  · rw [horphans e he] at hp
    cases hp
  · rcases hlisted with hperm | hperm
    · exact hperm.nodup_iff.2 hd.indexed.nodup
    · refine hperm.nodup_iff.2 (List.nodup_append'.2 ⟨hd.indexed.nodup, List.nodup_singleton _, fun i hi hi' => ?_⟩)
      obtain rfl := List.mem_singleton.1 hi'
      exact hfresh hi
  · rw [hids, List.map_append]
    rcases hlisted with hperm | hperm
    · exact List.mem_append_left _ (hd.indexed.listed i (hperm.mem_iff.1 hi))
    · rcases List.mem_append.1 (hperm.mem_iff.1 hi) with hi | hi
      · exact List.mem_append_left _ (hd.indexed.listed i hi)
      · exact List.mem_append_right _ hi
  · rcases hfiles with hfiles | ⟨file, hfile, hfiles⟩
    · rw [hfiles] at hf
      exact hkept f hf i hi
    · rw [hfiles] at hf
      rcases mem_appendTo hf hi with ⟨f', hf', hsame, hi'⟩ | ⟨hsame, rfl⟩
      · rw [← hsame]
        exact hkept f' hf' i hi'
      · rw [hhere, hsame]
        exact hfile

/-- add an element where it belongs: inside the element that is open, or directly below the root -/
def addIn (d : Document) (kind : Kind) (attributes : List Markup.Attribute) : Option NodeId → Except BuildError Document
  | some owner => .ok (d.addNested owner kind attributes)
  | none => d.addTopLevel kind attributes

/-- what an element that opens below the root does -/
theorem step_opens (d : Document) (opened : List NodeId) (tag : String) (attributes : List Markup.Attribute)
    (isEmpty : Bool) :
    Loading.step ⟨some d, opened⟩ (.opens tag (some attributes) isEmpty) =
      (d.addIn (Kind.ofTag tag) attributes opened.head?).map fun added =>
        ⟨some added, if isEmpty then opened else d.nodes.size :: opened⟩ := by
  cases opened with
  | nil =>
    simp only [Loading.step, readable, bind, Except.bind, addIn, List.head?]
    cases d.addTopLevel (Kind.ofTag tag) attributes <;> rfl
  | cons owner opened => rfl

theorem exists_of_step_opens {s t : Loading} {d : Document} {tag : String}
    {attributes : Option (List Markup.Attribute)} {isEmpty : Bool} (hd : s.document = some d)
    (h : s.step (.opens tag attributes isEmpty) = .ok t) :
    ∃ as added, attributes = some as ∧ d.addIn (Kind.ofTag tag) as s.opened.head? = .ok added ∧
      t = ⟨some added, if isEmpty then s.opened else d.nodes.size :: s.opened⟩ := by
  obtain ⟨document, opened⟩ := s
  obtain rfl : document = some d := hd
  cases attributes with
  | none => cases h
  | some as =>
    rw [step_opens] at h
    cases hadd : d.addIn (Kind.ofTag tag) as opened.head? with
    | error e => rw [hadd] at h; cases h
    | ok added =>
      rw [hadd] at h
      cases h
      exact ⟨as, added, rfl, hadd, rfl⟩

/-- what the first element that opens does -/
theorem exists_of_step_root {s t : Loading} {tag : String} {attributes : Option (List Markup.Attribute)}
    {isEmpty : Bool} (hd : s.document = none) (h : s.step (.opens tag attributes isEmpty) = .ok t) :
    ∃ as, attributes = some as ∧ tag ∈ rootTags ∧ t = { s with document := some (ofRoot tag as) } := by
  unfold Loading.step at h
  rw [hd] at h
  dsimp only at h
  split_ifs at h with hroot
  · cases h
  · cases attributes with
    | none => cases h
    | some as =>
      cases h
      exact ⟨as, rfl, by simpa using hroot, rfl⟩

/-- what holds of a root, and is kept by adding any of the elements, holds of a document while it is read -/
theorem holds_of_steps {P : Document → Prop} {events : List Markup.Event} {s t : Loading}
    (hs : ∀ d, s.document = some d → P d)
    (hroot : ∀ tag as isEmpty, .opens tag (some as) isEmpty ∈ events → tag ∈ rootTags → P (ofRoot tag as))
    (hadd : ∀ tag as isEmpty, .opens tag (some as) isEmpty ∈ events → ∀ d d' owner, P d →
      d.addIn (Kind.ofTag tag) as owner = .ok d' → P d')
    (h : events.foldlM Loading.step s = .ok t) : ∀ d, t.document = some d → P d := by
  induction events generalizing s with
  | nil =>
    cases h
    exact hs
  | cons event events ih =>
    rw [List.foldlM_cons] at h
    cases hstep : s.step event with
    | error e => rw [hstep] at h; cases h
    | ok s' =>
      rw [hstep] at h
      refine ih ?_ (fun tag as e he => hroot tag as e (List.mem_cons_of_mem _ he))
        (fun tag as e he => hadd tag as e (List.mem_cons_of_mem _ he)) h
      intro d' hd'
      cases event with
      | closes =>
        cases hstep
        exact hs d' hd'
      | opens tag attributes isEmpty =>
        cases hd : s.document with
        | none =>
          obtain ⟨as, rfl, htag, rfl⟩ := exists_of_step_root hd hstep
          cases hd'
          exact hroot tag as isEmpty List.mem_cons_self htag
        | some d =>
          obtain ⟨as, added, rfl, hadded, rfl⟩ := exists_of_step_opens hd hstep
          cases hd'
          exact hadd tag as isEmpty List.mem_cons_self d d' _ (hs d hd) hadded

theorem Growing.addIn {d d' : Document} (hd : d.Growing) {kind : Kind} {attributes : List Markup.Attribute}
    {owner : Option NodeId} (h : d.addIn kind attributes owner = .ok d') : d'.Growing := by
  cases owner with
  | none => exact hd.addTopLevel h
  | some owner =>
    cases h
    exact hd.addNested owner kind attributes

/-- reading keeps a document in order -/
theorem growing_of_steps {events : List Markup.Event} {t : Loading}
    (h : events.foldlM Loading.step ⟨none, []⟩ = .ok t) : ∀ d, t.document = some d → d.Growing :=
  holds_of_steps (fun _ hd => by cases hd) (fun tag as _ _ _ => growing_ofRoot tag as)
    (fun _ _ _ _ _ _ _ hd hadd => hd.addIn hadd) h

/-! ## Settling and renaming -/

/-- a change of nodes that keeps ids, contexts and files, and what is found by them -/
structure Reworks (d d' : Document) : Prop where
  ids : d'.ids = d.ids
  files : d'.files = d.files
  size : d'.nodes.size = d.nodes.size
  attr : ∀ i key, key = "id" ∨ key = "context" ∨ key = "file" → (d'.node i).attr? key = (d.node i).attr? key

/-- if the parents stay or become contexts, the index stays in order -/
theorem Indexed.reworks {d d' : Document} (hd : d.Indexed) (h : d.Reworks d')
    (hparent : ∀ i p, (d'.node i).parent = some p → (d.node i).parent = some p ∨
      ∃ context, (d.node i).attr? "context" = some context ∧ d.placeOf context = .ok p) : d'.Indexed := by
  have hplace : ∀ id, d'.placeOf id = d.placeOf id := fun id => by rw [placeOf, placeOf, h.ids]
  refine ⟨h.ids ▸ hd.keys, fun e he => ?_, fun e he p hp => ?_, ?_, fun i hi => ?_, fun f hf i hi => ?_⟩
  · rw [h.ids] at he
    rw [h.size, h.attr _ _ (.inl rfl)]
    exact hd.known e he
  · rw [h.ids] at he
    rw [h.attr _ _ (.inr (.inl rfl))]
    simp only [hplace]
    rcases hparent _ p hp with hp | hp
    · exact hd.parent e he p hp
    · exact hp
  · rw [Document.listed, h.files]
    exact hd.nodup
  · rw [h.ids]
    refine hd.listed i ?_
    rwa [Document.listed, h.files] at hi
  · rw [h.attr _ _ (.inr (.inr rfl))]
    exact hd.filed f (h.files ▸ hf) i hi

/-- a document with one element moved under another -/
def moveUnder (d : Document) (i owner : NodeId) : Document :=
  (d.modifyNode i fun n => { n with parent := some owner }).modifyNode owner
    fun n => { n with children := n.children ++ [i] }

/-- what settling an element does -/
theorem settle_cases {d d' : Document} {i : NodeId} (h : d.settle i = .ok d') :
    ((d.node i).attr? "context" = none ∧ d' = { d with roots := d.roots ++ [i] }) ∨
      ∃ context owner, (d.node i).attr? "context" = some context ∧ d.placeOf context = .ok owner ∧
        d' = d.moveUnder i owner := by
  unfold Document.settle at h
  cases hcontext : (d.node i).attr? "context" with
  | none =>
    rw [hcontext] at h
    exact .inl ⟨rfl, (Except.ok.inj h).symm⟩
  | some context =>
    rw [hcontext] at h
    cases howner : d.placeOf context with
    | error e => simp only [bind, Except.bind, howner] at h; cases h
    | ok owner =>
      simp only [bind, Except.bind, howner] at h
      exact .inr ⟨context, owner, rfl, howner, (Except.ok.inj h).symm⟩

/-- only the children of the one and the parent of the other change -/
theorem node_moveUnder {d : Document} {i owner j : NodeId} (hj : j < d.nodes.size) :
    (d.moveUnder i owner).node j =
      { d.node j with
        children := (d.node j).children ++ if owner = j then [i] else []
        parent := if i = j then some owner else (d.node j).parent } := by
  rw [moveUnder, node_modifyNode, node_modifyNode, size_modifyNode]
  by_cases hij : i = j <;> by_cases howner : owner = j <;> simp [hij, howner, hj]

@[simp]
theorem size_moveUnder (d : Document) (i owner : NodeId) : (d.moveUnder i owner).nodes.size = d.nodes.size := by
  simp [moveUnder]

theorem Indexed.settle {d d' : Document} (hd : d.Indexed) {i : NodeId} (h : d.settle i = .ok d') : d'.Indexed := by
  rcases settle_cases h with ⟨-, rfl⟩ | ⟨context, owner, hcontext, howner, rfl⟩
  · exact hd.reworks ⟨rfl, rfl, rfl, fun _ _ _ => rfl⟩ fun _ _ hp => .inl hp
  · refine hd.reworks ⟨rfl, rfl, size_moveUnder d i owner, fun j key _ => ?_⟩ fun j p hp => ?_
    · rw [moveUnder, node_modifyNode, node_modifyNode]
      split_ifs <;> rfl
    · rw [moveUnder, node_modifyNode, node_modifyNode] at hp
      by_cases hij : i = j ∧ j < d.nodes.size
      · rw [if_pos hij] at hp
        have howner' : some owner = some p := by
          split_ifs at hp <;> exact hp
        obtain ⟨rfl, -⟩ := hij
        cases howner'
        exact .inr ⟨context, hcontext, howner⟩
      · rw [if_neg hij] at hp
        refine .inl ?_
        split_ifs at hp <;> exact hp

/-- what is kept by settling any element is kept by settling all -/
theorem holds_of_settleAll {P : Document → Prop} {d d' : Document} (hd : P { d with roots := [] })
    (hsettle : ∀ d d' i, P d → d.settle i = .ok d' → P d') (h : d.settleAll = .ok d') : P d' := by
  have hsteps : ∀ (is : List NodeId) (d : Document), P d → is.foldlM Document.settle d = .ok d' → P d' := by
    intro is
    induction is with
    | nil =>
      intro d hd h
      cases h
      exact hd
    | cons i is ih =>
      intro d hd h
      rw [List.foldlM_cons] at h
      cases hstep : d.settle i with
      | error e => rw [hstep] at h; cases h
      | ok d₁ =>
        rw [hstep] at h
        exact ih d₁ (hsettle d d₁ i hd hstep) h
  exact hsteps d.roots _ hd h

theorem Indexed.settleAll {d d' : Document} (hd : d.Indexed) (h : d.settleAll = .ok d') : d'.Indexed := by
  refine holds_of_settleAll ?_ (fun _ _ _ hd hsettle => hd.settle hsettle) h
  exact hd.reworks ⟨rfl, rfl, rfl, fun _ _ _ => rfl⟩ fun _ _ hp => .inl hp

theorem Indexed.withName {d : Document} (hd : d.Indexed) (i : NodeId) (value : String) :
    (d.withAttr i "name" value).Indexed := by
  refine hd.reworks ⟨rfl, rfl, size_modifyNode _ _ _, fun j key hkey => ?_⟩ fun j p hp => .inl ?_
  · have hne : key ≠ "name" := by
      rintro rfl
      revert hkey
      decide
    rw [withAttr, node_modifyNode]
    split_ifs
    · exact lookup_setIn hne value _
    · rfl
  · rw [withAttr, node_modifyNode] at hp
    split_ifs at hp <;> exact hp

/-- what is kept by setting any name is kept by naming after typedefs -/
theorem holds_of_nameByTypedef {P : Document → Prop} {d d' : Document} (hd : P d)
    (hname : ∀ d i value, P d → P (d.withAttr i "name" value)) (h : d.nameByTypedef = .ok d') : P d' := by
  unfold Document.nameByTypedef at h
  cases hrenames : d.renames with
  | error e => rw [hrenames] at h; cases h
  | ok renames =>
    rw [hrenames] at h
    cases h
    have hsteps : ∀ (rs : List (NodeId × String)) (d : Document), P d →
        P (rs.foldl (fun d r => d.withAttr r.1 "name" r.2) d) := by
      intro rs
      induction rs with
      | nil => exact fun _ hd => hd
      | cons r rs ih => exact fun d hd => ih _ (hname d r.1 r.2 hd)
    exact hsteps renames d hd

theorem Indexed.nameByTypedef {d d' : Document} (hd : d.Indexed) (h : d.nameByTypedef = .ok d') : d'.Indexed :=
  holds_of_nameByTypedef hd (fun _ i value hd => hd.withName i value) h

/-- a reading that is accepted has no fault, its events make a document, and contexts are settled at the end -/
theorem exists_of_ofReading {r : Markup.Reading} {d : Document} (h : Document.ofReading r = .ok d) :
    ∃ s d₀, r.events.foldlM Loading.step ⟨none, []⟩ = .ok s ∧ r.faulty = false ∧ s.document = some d₀ ∧
      d₀.settleAll = .ok d := by
  unfold Document.ofReading at h
  cases hsteps : r.events.foldlM Loading.step ⟨none, []⟩ with
  | error e => rw [hsteps] at h; cases h
  | ok s =>
    rw [hsteps] at h
    cases hfaulty : r.faulty with
    | true =>
      simp only [bind, Except.bind, hfaulty, if_true] at h
      cases h
    | false =>
      simp only [bind, Except.bind, hfaulty] at h
      cases hd : s.document with
      | none => rw [hd] at h; cases h
      | some d₀ =>
        rw [hd] at h
        exact ⟨s, d₀, rfl, rfl, hd, h⟩

theorem indexed_of_ofReading {r : Markup.Reading} {d : Document} (h : Document.ofReading r = .ok d) : d.Indexed := by
  obtain ⟨s, d₀, hsteps, -, hd, hsettle⟩ := exists_of_ofReading h
  exact (growing_of_steps hsteps d₀ hd).indexed.settleAll hsettle

/-- **The index of a document that was read is in order.** -/
theorem Loaded.indexed {d : Document} (hd : d.Loaded) : d.Indexed := by
  induction hd with
  | read h => exact indexed_of_ofReading h
  | named _ h ih => exact ih.nameByTypedef h

/-! ## What the index is good for -/

namespace Indexed

variable {d : Document}

/-- an element that is found by an id carries it -/
theorem id_of_placeOf (hd : d.Indexed) {id : String} {i : NodeId} (h : d.placeOf id = .ok i) : (d.node i).id = id := by
  unfold Node.id
  rw [(hd.known _ (mem_of_lookup (placeOf_eq_ok.1 h))).2]
  rfl

theorem placed_of_listed (hd : d.Indexed) {i : NodeId} (hi : i ∈ d.listed) : d.Placed i := by
  obtain ⟨e, he, rfl⟩ := List.mem_map.1 (hd.listed i hi)
  exact ⟨e.1, placeOf_eq_ok.2 (lookup_of_mem hd.keys he)⟩

/-- an element is found by the id it carries -/
theorem placeOf_id (hd : d.Indexed) {i : NodeId} (hi : d.Placed i) : d.placeOf (d.node i).id = .ok i := by
  obtain ⟨id, h⟩ := hi
  rw [hd.id_of_placeOf h]
  exact h

/-- the parent of an element is its context -/
theorem context_of_parent (hd : d.Indexed) {i p : NodeId} (hi : d.Placed i) (hp : (d.node i).parent = some p) :
    ∃ context, (d.node i).attr? "context" = some context ∧ d.placeOf context = .ok p := by
  obtain ⟨id, h⟩ := hi
  exact hd.parent _ (mem_of_lookup (placeOf_eq_ok.1 h)) p hp

end Indexed

end Document

end HeaderModel
