/-
Documents as forests.

A document is an arena; what its roots hold is a forest. The forest is what is written, and it is what is read again.
- `Shows`: the elements at some places hold a forest. It is the only one (`Shows.unique`).
- `Linked.exists_shows`: the roots of a document hold a forest that is no higher than the document has nodes.
- `dump_of_shows`, `Linked.written_iff`: a document is written as that forest, and no level of it is left out.
- `readFrom_render`, `reading_of_text`: a written forest is read as the events of its elements.
-/
import HeaderModel.Proofs.Tags
import HeaderModel.Proofs.Walk

namespace HeaderModel

/-- elements and what they hold: an element, its children, and the elements after it -/
inductive Forest where
  | nil
  | cons (kind : Kind) (attributes : List Markup.Attribute) (children rest : Forest)
  deriving DecidableEq, Repr

namespace Forest

def isNil : Forest → Bool
  | nil => true
  | cons .. => false

/-- the number of levels -/
def height : Forest → Nat
  | nil => 0
  | cons _ _ children rest => max (children.height + 1) rest.height

/-- a property of all elements -/
def All (P : Kind → List Markup.Attribute → Prop) : Forest → Prop
  | nil => True
  | cons kind attributes children rest => P kind attributes ∧ children.All P ∧ rest.All P

/-- the attributes of the elements that no other holds -/
def heads : Forest → List (List Markup.Attribute)
  | nil => []
  | cons _ attributes _ rest => attributes :: rest.heads

/-- what a reader reports of a forest -/
def events : Forest → List Markup.Event
  | nil => []
  | cons kind attributes children rest =>
    .opens kind.tag (some attributes) children.isNil ::
      ((if children.isNil then [] else children.events ++ [.closes]) ++ rest.events)

/-- a forest as it is written at a depth -/
def render (depth : Nat) : Forest → List Char
  | nil => []
  | cons kind attributes children rest =>
    lineStart depth ++ '<' :: (kind.tag.toList ++ renderAttributes attributes ++
      (if children.isNil then "/>".toList
        else '>' :: (children.render (depth + 1) ++ lineStart depth ++ renderClosing kind.tag))) ++
      rest.render depth

/-- a document with this forest below its root, as it is written -/
def text (f : Forest) (tag : String) (attributes : List Markup.Attribute) : String :=
  String.ofList ("<?xml version=\"1.0\"?>\n<".toList ++ tag.toList ++ renderAttributes attributes
    ++ '>' :: f.render 1 ++ '\n' :: renderClosing tag)

end Forest

/-! ## The forest of a document -/

namespace Document

/-- the elements at these places hold this forest -/
inductive Shows (d : Document) : List NodeId → Forest → Prop where
  | nil : Shows d [] .nil
  | cons {i : NodeId} {is : List NodeId} {children rest : Forest} :
      Shows d (d.node i).children children → Shows d is rest →
      Shows d (i :: is) (.cons (d.node i).kind (d.node i).attributes children rest)

section Showing

variable {d : Document} {is : List NodeId} {i : NodeId} {f g : Forest} {levels : Nat}

/-- places hold one forest at most -/
theorem Shows.unique (hf : d.Shows is f) (hg : d.Shows is g) : f = g := by
  induction hf generalizing g with
  | nil =>
    cases hg
    rfl
  | cons _ _ ihchildren ihrest =>
    cases hg with
    | cons hchildren hrest => rw [ihchildren hchildren, ihrest hrest]

theorem Shows.isNil (h : d.Shows is f) : f.isNil = is.isEmpty := by
  cases h <;> rfl

theorem Shows.heads (h : d.Shows is f) : f.heads = is.map fun i => (d.node i).attributes := by
  induction h with
  | nil => rfl
  | cons _ _ _ ih => rw [Forest.heads, ih, List.map_cons]

/-- what all nodes have, all elements of the forest have -/
theorem Linked.all_of_shows (hd : d.Linked) {P : Kind → List Markup.Attribute → Prop}
    (hP : ∀ i < d.nodes.size, P (d.node i).kind (d.node i).attributes) (h : d.Shows is f)
    (his : ∀ i ∈ is, i < d.nodes.size) : f.All P := by
  induction h with
  | nil => trivial
  | @cons i is _ _ _ _ ihchildren ihrest =>
    have hchildren : ∀ c ∈ (d.node i).children, c < d.nodes.size := fun c hc => lt_size_of_parent ((hd.mem i c).1 hc)
    exact ⟨hP i (his i List.mem_cons_self), ihchildren hchildren, ihrest fun j hj => his j (List.mem_cons_of_mem _ hj)⟩

/-- fewer levels below an element than these -/
def Shallow (d : Document) (levels : Nat) (i : NodeId) : Prop := ∀ k j, d.ancestor k j = some i → k < levels

theorem Linked.shallow_child (hd : d.Linked) {c : NodeId} (h : d.Shallow (levels + 1) i)
    (hc : c ∈ (d.node i).children) : d.Shallow levels c := fun _ _ hk =>
  Nat.lt_of_succ_lt_succ (h _ _ (ancestor_succ_eq_some.2 ⟨c, hk, (hd.mem i c).1 hc⟩))

theorem Linked.exists_shows_of_shallow (hd : d.Linked) (h : ∀ i ∈ is, d.Shallow levels i) :
    ∃ f, d.Shows is f ∧ f.height ≤ levels := by
  induction levels generalizing is with
  | zero =>
    cases is with
    | nil => exact ⟨.nil, .nil, le_rfl⟩
    | cons i is => exact absurd (h i List.mem_cons_self 0 i rfl) (Nat.not_lt_zero 0)
  | succ levels ih =>
    induction is with
    | nil => exact ⟨.nil, .nil, Nat.zero_le _⟩
    | cons i is ihrest =>
      obtain ⟨rest, hrest, hlow⟩ := ihrest fun j hj => h j (List.mem_cons_of_mem _ hj)
      obtain ⟨children, hchildren, hbelow⟩ := ih fun c hc => hd.shallow_child (h i List.mem_cons_self) hc
      exact ⟨_, .cons hchildren hrest, max_le (Nat.succ_le_succ hbelow) hlow⟩

/-- the roots of a document hold a forest -/
theorem Linked.exists_shows (hd : d.Linked) : ∃ f, d.Shows d.roots f ∧ f.height ≤ d.nodes.size :=
  hd.exists_shows_of_shallow fun _ hr _ _ hk => hd.depth_lt hr hk

/-! ## Writing -/

theorem render_of_shows (depth : Nat) (h : d.Shows is f) (hheight : f.height ≤ levels) :
    is.flatMap (d.renderNode levels depth) = f.render depth := by
  induction h generalizing levels depth with
  | nil => rfl
  | @cons i is children rest hchildren hrest ihchildren ihrest =>
    obtain ⟨hbelow, hlow⟩ := max_le_iff.1 hheight
    obtain ⟨levels, rfl⟩ := Nat.exists_eq_succ_of_ne_zero (Nat.ne_of_gt (Nat.lt_of_lt_of_le (Nat.succ_pos _) hbelow))
    rw [List.flatMap_cons, ihrest depth hlow, renderNode, Forest.render, hchildren.isNil]
    split_ifs with hempty
    · simp
    · rw [ihchildren (depth + 1) (Nat.le_of_succ_le_succ hbelow)]
      simp

/-- a document is written as the forest that its roots hold, however many levels are allowed -/
theorem dump_of_shows (h : d.Shows d.roots f) (hheight : f.height ≤ d.nodes.size) :
    d.dump = f.text d.rootTag d.rootAttributes := by
  have hrender := render_of_shows 1 h hheight
  unfold dump Forest.text
  rw [hrender]

/-- a text says what a document says: it is the forest that the roots hold, as a forest is written -/
def Written (d : Document) (text : String) : Prop :=
  ∃ f, d.Shows d.roots f ∧ text = f.text d.rootTag d.rootAttributes

end Showing

end Document

/-! ## Reading what was written -/

namespace Markup

variable {opened : List String} {rest : List Char} {f : Forest} {tag : String} {as : List Attribute}

theorem lineStart_ne_opening (depth : Nat) : ∀ c ∈ lineStart depth, c ≠ '<' := by
  intro c hc
  rcases List.mem_cons.1 hc with rfl | hc
  · decide
  · rw [List.eq_of_mem_replicate hc]
    decide

/-- a forest that is written is read as its events -/
theorem readFrom_render (hf : f.All fun kind as => Writable kind.tag as) (depth : Nat) :
    readFrom opened (f.render depth ++ rest) = (readFrom opened rest).afterAll f.events := by
  induction f generalizing depth opened rest with
  | nil => rfl
  | cons kind as children others ihchildren ihothers =>
    obtain ⟨hwritable, hchildren, hothers⟩ := hf
    rw [Forest.render, Forest.events]
    cases hnil : children.isNil with
    | true =>
      have htext : lineStart depth ++ '<' :: (kind.tag.toList ++ renderAttributes as ++ "/>".toList) ++
          others.render depth ++ rest =
          lineStart depth ++ '<' :: (kind.tag.toList ++ renderAttributes as ++
            '/' :: '>' :: (others.render depth ++ rest)) := by simp
      rw [if_pos rfl, htext, readFrom_opening _ (lineStart_ne_opening depth) (hwritable.markup?_empty _), if_pos rfl,
        ihothers hothers]
      rfl
    | false =>
      have htext : lineStart depth ++ '<' :: (kind.tag.toList ++ renderAttributes as ++
          '>' :: (children.render (depth + 1) ++ lineStart depth ++ renderClosing kind.tag)) ++
          others.render depth ++ rest =
          lineStart depth ++ '<' :: (kind.tag.toList ++ renderAttributes as ++
            '>' :: (children.render (depth + 1) ++ (lineStart depth ++
              '<' :: '/' :: (kind.tag.toList ++ '>' :: (others.render depth ++ rest))))) := by simp [renderClosing]
      rw [if_neg Bool.false_ne_true, htext, readFrom_opening _ (lineStart_ne_opening depth) (hwritable.markup?_opening _),
        if_neg Bool.false_ne_true, ihchildren hchildren,
        readFrom_closing _ (lineStart_ne_opening depth) (hwritable.tag.markup?_closing _), ihothers hothers]
      simp [Reading.afterAll, Reading.after]

/-- a document that is written is read as its root and the events of its forest -/
theorem reading_of_text (hroot : Writable tag as) (hf : f.All fun kind as => Writable kind.tag as) :
    Reading.ofText (f.text tag as) = ⟨.opens tag (some as) false :: (f.events ++ [.closes]), false⟩ := by
  have htext : (f.text tag as).toList = "<?xml version=\"1.0\"?>\n<".toList ++
      (tag.toList ++ renderAttributes as ++
        '>' :: (f.render 1 ++ '\n' :: '<' :: '/' :: (tag.toList ++ '>' :: []))) := by
    unfold Forest.text
    generalize "<?xml version=\"1.0\"?>\n<".toList = declaration
    simp [renderClosing]
  have hmark : Text.dropByteOrderMark (f.text tag as).toList = (f.text tag as).toList := by
    rw [htext]
    rfl
  have hend := readFrom_nil []
  rw [Reading.ofText, hmark, htext, readFrom_declaration]
  have hgap : ∀ c ∈ ['\n'], c ≠ '<' := by simp
  have hopening := readFrom_opening [] hgap (hroot.markup?_opening
    (f.render 1 ++ '\n' :: '<' :: '/' :: (tag.toList ++ '>' :: [])))
  have hclosing := readFrom_closing [] hgap (hroot.tag.markup?_closing [])
  rw [List.singleton_append] at hopening hclosing
  rw [hopening, if_neg Bool.false_ne_true, readFrom_render hf, hclosing, hend]
  rfl

end Markup

end HeaderModel
