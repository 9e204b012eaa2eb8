/-
A document in which an element has other members.

What is below an element matters to the body of this element only. `Headers.withMembers` puts other elements below an
element. Ids, chains, names and nested types stay as they are, and so do the bodies of all other aggregates; what was
made without the element is made in the same way.
- `Document.follow_withMembers`: chains are followed as before.
- `Build.aggregateOf_withMembers`: the body of an aggregate depends on its tag and on its members only.
- `Grounded.withMembers`: a memory without the element stays grounded.
-/
import HeaderModel.Proofs.Indexing
import HeaderModel.Proofs.TypeChains

namespace HeaderModel

/-! ## Other members -/

/-- an element without what is below it -/
def Node.alone (n : Node) : Node := { n with children := [] }

/-- what does not depend on what is below an element is the same for elements that differ in nothing else -/
theorem Node.congr_alone {α : Type} {n n' : Node} (f : Node → α) (hn : n'.alone = n.alone)
    (hf : ∀ n : Node, f n = f n.alone) : f n' = f n := by
  rw [hf n', hn, ← hf n]

/-- the document in which other elements are below an element -/
def Document.withMembers (d : Document) (k : NodeId) (ids : List NodeId) : Document :=
  d.modifyNode k fun n => { n with children := ids }

/-- the same for what a model is built from -/
def Headers.withMembers (h : Headers) (k : NodeId) (ids : List NodeId) : Headers :=
  { h with document := h.document.withMembers k ids }

namespace Document

variable {d : Document} {k i : NodeId} {ids : List NodeId}

@[simp] theorem placeOf_withMembers (id : String) : (d.withMembers k ids).placeOf id = d.placeOf id := rfl

@[simp] theorem size_withMembers : (d.withMembers k ids).nodes.size = d.nodes.size := size_modifyNode ..

theorem node_withMembers_of_ne (hi : i ≠ k) : (d.withMembers k ids).node i = d.node i := by
  rw [withMembers, node_modifyNode, if_neg fun h => hi h.1.symm]

theorem node_withMembers_self (hk : k < d.nodes.size) :
    (d.withMembers k ids).node k = { d.node k with children := ids } := by
  rw [withMembers, node_modifyNode, if_pos ⟨rfl, hk⟩]

/-- every element is as before, what is below it aside -/
@[simp] theorem alone_node_withMembers (i : NodeId) : ((d.withMembers k ids).node i).alone = (d.node i).alone := by
  rw [withMembers, node_modifyNode]
  split_ifs
  · rfl
  · rfl

theorem name_node_withMembers (i : NodeId) : ((d.withMembers k ids).node i).name = (d.node i).name :=
  Node.congr_alone Node.name (alone_node_withMembers i) fun _ => rfl

theorem typePlace_withMembers {n n' : Node} (hn : n'.alone = n.alone) :
    (d.withMembers k ids).typePlace n' = d.typePlace n := by
  unfold typePlace
  rw [Node.congr_alone (Node.need · "type") hn fun _ => rfl]
  rfl

theorem isNestedIn_withMembers {n n' : Node} (hn : n'.alone = n.alone) (j : NodeId) :
    Build.isNestedIn n' ((d.withMembers k ids).node j) = Build.isNestedIn n (d.node j) := by
  calc Build.isNestedIn n' ((d.withMembers k ids).node j)
    _ = Build.isNestedIn n' (d.node j) :=
        Node.congr_alone (Build.isNestedIn n') (alone_node_withMembers j) fun _ => rfl
    _ = Build.isNestedIn n (d.node j) := Node.congr_alone (Build.isNestedIn · (d.node j)) hn fun _ => rfl

theorem hasNested_withMembers {owner owner' m m' : Node} (howner : owner'.alone = owner.alone)
    (hm : m'.alone = m.alone) (j : NodeId) :
    (d.withMembers k ids).HasNested owner' m' j ↔ d.HasNested owner m j := by
  rw [HasNested, HasNested, typePlace_withMembers hm, isNestedIn_withMembers howner]

/-- an element can get the same names -/
theorem nameOf_withMembers {s : String} (hname : d.NameOf i s) : (d.withMembers k ids).NameOf i s := by
  induction hname with
  | declared j =>
    rw [← name_node_withMembers]
    exact .declared j
  | @nested i j outer _ hnest ih =>
    rw [← name_node_withMembers]
    refine .nested ih ?_
    rwa [isNestedIn_withMembers (alone_node_withMembers i)]

/-- the elements of a kind, in the two documents -/
theorem ofKind_withMembers (kind : Kind) (is : List NodeId) :
    List.Forall₂ (fun n' n => n'.alone = n.alone)
      ((is.map (d.withMembers k ids).node).filter (·.kind = kind)) ((is.map d.node).filter (·.kind = kind)) := by
  induction is with
  | nil => exact .nil
  | cons i is ih =>
    have hkind : ((d.withMembers k ids).node i).kind = (d.node i).kind :=
      Node.congr_alone Node.kind (alone_node_withMembers i) fun _ => rfl
    rw [List.map_cons, List.map_cons, List.filter_cons, List.filter_cons, hkind]
    split_ifs
    · exact .cons (alone_node_withMembers i) ih
    · exact ih

/-! ## Chains -/

theorem nextType_withMembers {n n' : Node} (hn : n'.alone = n.alone) :
    (d.withMembers k ids).nextType n' = (d.typePlace n).map (d.withMembers k ids).node := by
  rw [nextType_eq_map, typePlace_withMembers hn]

theorem ending_withMembers {bound : List String} {n n' : Node} (hn : n'.alone = n.alone)
    (hstops : ¬n.passesOn bound = true) : (d.withMembers k ids).ending bound n' = d.ending bound n := by
  rw [Node.congr_alone ((d.withMembers k ids).ending bound) hn fun _ => rfl]
  obtain ⟨kind, attributes, children, parent⟩ := n
  cases kind with
  | typedef => simp_all [ending, endFrom, Node.passesOn]
  | pointerType | arrayType | referenceType | cvQualifiedType => exact absurd rfl hstops
  | _ => rfl

theorem followFrom_withMembers (bound : List String) (steps : Nat) {n n' : Node} (hn : n'.alone = n.alone)
    (t : TypeUse) : (d.withMembers k ids).followFrom bound steps n' t = d.followFrom bound steps n t := by
  induction steps generalizing n n' t with
  | zero => rfl
  | succ steps ih =>
    have hdecorate : n'.decorate t = n.decorate t := Node.congr_alone (Node.decorate · t) hn fun _ => rfl
    have hpasses : n'.passesOn bound = n.passesOn bound := Node.congr_alone (Node.passesOn bound) hn fun _ => rfl
    rw [followFrom_succ, followFrom_succ, hdecorate, hpasses, nextType_withMembers hn, nextType_eq_map]
    cases n.decorate t with
    | error e => rfl
    | ok t' =>
      by_cases hstops : n.passesOn bound = true
      · simp only [hstops, if_true]
        cases d.typePlace n with
        | error e => rfl
        | ok j => exact ih (alone_node_withMembers j) t'
      · simp only [hstops, ending_withMembers hn hstops, Bool.false_eq_true, if_false]

/-- chains are followed as before -/
theorem follow_withMembers (bound : List String) (typeId : String) (t : TypeUse) :
    (d.withMembers k ids).follow bound typeId t = d.follow bound typeId t := by
  unfold follow element
  rw [placeOf_withMembers]
  cases d.placeOf typeId with
  | error e => rfl
  | ok j =>
    show (d.withMembers k ids).followFrom bound _ _ t = d.followFrom bound _ _ t
    rw [size_withMembers, followFrom_withMembers bound _ (alone_node_withMembers j)]

end Document

/-! ## Bodies -/

namespace Build

/-- the body of an aggregate with given members -/
def aggregateOf (h : Headers) (build : NodeId → Option Enclosing → Build Aggregate) (n : Node) (members : List Node)
    (outer : Option Enclosing) : Build Aggregate := do
  let name := aggregateName n.name outer
  let base ← baseName h build n
  let layout ← members.foldlM (member h build n name) .start
  return ⟨name, n.kind = .unionType, base, layout.fields⟩

theorem aggregateBody_eq_aggregateOf (h : Headers) (build : NodeId → Option Enclosing → Build Aggregate) (n : Node)
    (outer : Option Enclosing) :
    aggregateBody h build n outer = aggregateOf h build n (h.document.childrenOf n .field) outer := rfl

variable {h : Headers} {k : NodeId} {ids : List NodeId} {build : NodeId → Option Enclosing → Build Aggregate}

theorem placeOf_withMembers (id : String) : (h.withMembers k ids).document.placeOf id = h.document.placeOf id := rfl

theorem field_withMembers (offset : Nat) {m m' : Node} (hm : m'.alone = m.alone) :
    field (h.withMembers k ids) offset m' = field h offset m := by
  have htype : ∀ id, typeOf (h.withMembers k ids) id = typeOf h id := by
    intro id
    unfold typeOf
    rw [show (h.withMembers k ids).document.follow (h.withMembers k ids).scope.boundNames id .empty =
      h.document.follow h.scope.boundNames id .empty from Document.follow_withMembers ..]
  rw [Node.congr_alone (field (h.withMembers k ids) offset) hm fun _ => rfl]
  unfold field
  simp only [htype]

theorem member_withMembers {owner owner' m m' : Node} (howner : owner'.alone = owner.alone) (hm : m'.alone = m.alone)
    (name : String) (l : Layout) :
    member (h.withMembers k ids) build owner' name l m' = member h build owner name l m := by
  rw [Node.congr_alone (member (h.withMembers k ids) build · name l m') howner fun _ => rfl,
    Node.congr_alone (member (h.withMembers k ids) build owner name l) hm fun _ => rfl]
  unfold member
  have hnested : ∀ j, isNestedIn owner ((h.withMembers k ids).document.node j) = isNestedIn owner (h.document.node j) :=
    fun j => Document.isNestedIn_withMembers rfl j
  simp only [field_withMembers l.offset rfl, hnested, placeOf_withMembers]

/-- the body of an aggregate depends on its tag and on its members only -/
theorem aggregateOf_withMembers {n n' : Node} (hn : n'.alone = n.alone) {ms ms' : List Node}
    (hms : List.Forall₂ (fun m' m => m'.alone = m.alone) ms' ms) (outer : Option Enclosing) :
    aggregateOf (h.withMembers k ids) build n' ms' outer = aggregateOf h build n ms outer := by
  have hfold : ∀ name l,
      ms'.foldlM (member (h.withMembers k ids) build n' name) l = ms.foldlM (member h build n name) l := by
    intro name
    induction hms with
    | nil =>
      intro l
      rw [List.foldlM_nil, List.foldlM_nil]
    | cons hm _ ih =>
      intro l
      rw [List.foldlM_cons, List.foldlM_cons, member_withMembers hn hm]
      simp only [ih]
  have hbase : baseName (h.withMembers k ids) build n' = baseName h build n := by
    unfold baseName
    simp only [placeOf_withMembers, Node.congr_alone Node.bases hn fun _ => rfl]
  have hname : n'.name = n.name := Node.congr_alone Node.name hn fun _ => rfl
  have hkind : n'.kind = n.kind := Node.congr_alone Node.kind hn fun _ => rfl
  unfold aggregateOf
  rw [hbase, hname, hkind]
  simp only [hfold]

/-- other aggregates keep their bodies -/
theorem aggregateBody_withMembers {i : NodeId} (hi : i ≠ k) (outer : Option Enclosing) :
    aggregateBody (h.withMembers k ids) build ((h.withMembers k ids).document.node i) outer =
      aggregateBody h build (h.document.node i) outer := by
  rw [aggregateBody_eq_aggregateOf, aggregateBody_eq_aggregateOf]
  have hsame : (h.withMembers k ids).document.node i = h.document.node i := Document.node_withMembers_of_ne hi
  rw [hsame]
  exact aggregateOf_withMembers rfl (Document.ofKind_withMembers .field (h.document.node i).children) outer

end Build

/-! ## Memories -/

section Memories

variable {h : Headers} {k : NodeId} {ids : List NodeId} {memory : List (NodeId × Aggregate)}

theorem MadeAggregate.withMembers {i : NodeId} {a : Aggregate} (hmade : MadeAggregate h memory i a) (hi : i ≠ k) :
    MadeAggregate (h.withMembers k ids) memory i a := by
  obtain ⟨outer, hname, hbody⟩ := hmade
  have hnode : (h.withMembers k ids).document.node i = h.document.node i := Document.node_withMembers_of_ne hi
  refine ⟨outer, ?_, fun c => ?_⟩
  · rw [hnode]
    exact Document.nameOf_withMembers hname
  · rw [Build.aggregateBody_withMembers hi]
    exact hbody c

/-- **A memory without the element stays grounded.** -/
theorem Grounded.withMembers (hm : Grounded (MadeAggregate h) memory) (hk : memory.lookup k = none) :
    Grounded (MadeAggregate (h.withMembers k ids)) memory := by
  induction hm with
  | nil => exact .nil
  | @cons memory i a hm hnew hmade ih =>
    have hik : i ≠ k := by
      rintro rfl
      rw [List.lookup_cons_self] at hk
      cases hk
    rw [List.lookup_cons, beq_false_of_ne hik.symm] at hk
    exact .cons (ih hk) hnew (hmade.withMembers hik)

end Memories

end HeaderModel
