/-
Walking a document.

A document links its elements twice: each knows its children and its parent. Both say the same, for any contexts.
- `Linked`: children and parents agree, and the roots are the elements without a parent.
- `walk_nodup`, `mem_visits`: a walk from the roots comes to an element once if its parents lead to a root, else never.
- `not_rooted_iff`: parents that do not lead to a root lead into a circle of contexts.
- `elements_linked_once`: a document that was read loses and duplicates none of the elements of its text.
-/
import HeaderModel.Proofs.Outline

namespace HeaderModel

namespace Document

/-- the children and the parents of a document agree, and the roots are what has no parent -/
structure Linked (d : Document) : Prop where
  nodup : ∀ p, (d.node p).children.Nodup
  mem : ∀ p c, c ∈ (d.node p).children ↔ (d.node c).parent = some p
  roots : ∀ i, i ∈ d.roots ↔ i < d.nodes.size ∧ (d.node i).parent = none
  once : d.roots.Nodup
  below : ∀ i p, (d.node i).parent = some p → p < d.nodes.size

/-- the element so many parents up -/
def ancestor (d : Document) : Nat → NodeId → Option NodeId
  | 0, i => some i
  | k + 1, i => (d.node i).parent.bind (ancestor d k)

/-- an element's parents lead to a root -/
def Rooted (d : Document) (i : NodeId) : Prop := ∃ k r, d.ancestor k i = some r ∧ r ∈ d.roots

/-- what a walk comes to from an element, down to a number of levels, each element before what it holds -/
def walk (d : Document) : Nat → NodeId → List NodeId
  | 0, _ => []
  | levels + 1, i => i :: (d.node i).children.flatMap (walk d levels)

/-- what a walk comes to from the roots -/
def visits (d : Document) (levels : Nat) : List NodeId := d.roots.flatMap (d.walk levels)

/-! ## Chains of parents -/

section Chains

variable {d : Document} {i j x : NodeId} {k l m : Nat}

theorem node_of_size_le (hi : d.nodes.size ≤ i) : d.node i = .blank := by
  rw [node, Array.getD_eq_getD_getElem?, Array.getElem?_eq_none hi]
  rfl

theorem lt_size_of_parent {p : NodeId} (h : (d.node i).parent = some p) : i < d.nodes.size := by
  by_contra hi
  rw [node_of_size_le (Nat.le_of_not_lt hi)] at h
  cases h

theorem ancestor_add (d : Document) (k l : Nat) (i : NodeId) :
    d.ancestor (k + l) i = (d.ancestor k i).bind (d.ancestor l) := by
  induction k generalizing i with
  | zero => simp [ancestor]
  | succ k ih =>
    rw [Nat.succ_add]
    simp only [ancestor]
    cases (d.node i).parent with
    | none => rfl
    | some p => exact ih p

theorem ancestor_trans (hij : d.ancestor k i = some j) (hjx : d.ancestor l j = some x) :
    d.ancestor (k + l) i = some x := by
  rw [ancestor_add, hij]
  exact hjx

theorem ancestor_one (d : Document) (i : NodeId) : d.ancestor 1 i = (d.node i).parent := Option.bind_fun_some _

theorem ancestor_succ_eq_some :
    d.ancestor (k + 1) j = some i ↔ ∃ c, d.ancestor k j = some c ∧ (d.node c).parent = some i := by
  simp only [ancestor_add, Option.bind_eq_some_iff, ancestor_one]

theorem ancestor_of_le (hlk : l ≤ k) (hl : d.ancestor l i = some j) : d.ancestor (k - l) j = d.ancestor k i := by
  have hk := ancestor_add d l (k - l) i
  rw [hl, Nat.add_sub_cancel' hlk] at hk
  exact hk.symm

theorem Linked.ancestor_root (hd : d.Linked) (hr : x ∈ d.roots) (hk : 0 < k) : d.ancestor k x = none := by
  obtain ⟨k, rfl⟩ := Nat.exists_eq_succ_of_ne_zero (Nat.ne_of_gt hk)
  simp [ancestor, ((hd.roots x).1 hr).2]

/-- an element that leads to a root does not lead back to itself -/
theorem Linked.ancestor_ne_self (hd : d.Linked) (hi : d.Rooted i) (hm : 0 < m) : d.ancestor m i ≠ some i := by
  intro hself
  obtain ⟨k, r, hr, hroot⟩ := hi
  have hlong : d.ancestor (k + m) i = none := by
    rw [ancestor_add, hr]
    exact hd.ancestor_root hroot hm
  rw [Nat.add_comm, ancestor_trans hself hr] at hlong
  cases hlong

theorem Linked.ancestor_inj (hd : d.Linked) (hx : d.Rooted x) (hk : d.ancestor k i = some x)
    (hl : d.ancestor l i = some x) : k = l := by
  rcases Nat.lt_trichotomy k l with hlt | heq | hlt
  · exact absurd ((ancestor_of_le hlt.le hk).trans hl) (hd.ancestor_ne_self hx (Nat.sub_pos_of_lt hlt))
  · exact heq
  · exact absurd ((ancestor_of_le hlt.le hl).trans hk) (hd.ancestor_ne_self hx (Nat.sub_pos_of_lt hlt))

theorem Rooted.below (hj : d.Rooted j) (hij : d.ancestor k i = some j) : d.Rooted i := by
  obtain ⟨l, r, hr, hroot⟩ := hj
  exact ⟨k + l, r, ancestor_trans hij hr, hroot⟩

theorem Linked.rooted_of_ancestor (hd : d.Linked) (hi : d.Rooted i) (hij : d.ancestor k i = some j) :
    d.Rooted j := by
  obtain ⟨l, r, hr, hroot⟩ := hi
  rcases Nat.lt_or_ge l k with hlk | hkl
  · have hnone := hd.ancestor_root hroot (Nat.sub_pos_of_lt hlk)
    rw [ancestor_of_le hlk.le hr, hij] at hnone
    cases hnone
  · exact ⟨l - k, r, (ancestor_of_le hkl hij).trans hr, hroot⟩

theorem rooted_of_mem_roots (hi : i ∈ d.roots) : d.Rooted i := ⟨0, i, rfl, hi⟩

theorem Linked.lt_size_of_ancestor (hd : d.Linked) (hi : i < d.nodes.size) (h : d.ancestor k i = some j) :
    j < d.nodes.size := by
  cases k with
  | zero =>
    obtain rfl := Option.some.inj h
    exact hi
  | succ k =>
    obtain ⟨c, -, hc⟩ := ancestor_succ_eq_some.1 h
    exact hd.below c j hc

/-- parents lead to one root at most -/
theorem Linked.eq_of_mem_roots (hd : d.Linked) (hx : x ∈ d.roots) (hj : j ∈ d.roots) (hk : d.ancestor k i = some x)
    (hl : d.ancestor l i = some j) : x = j := by
  rcases Nat.lt_trichotomy k l with hlt | rfl | hlt
  · have hnone := hd.ancestor_root hx (Nat.sub_pos_of_lt hlt)
    rw [ancestor_of_le hlt.le hk, hl] at hnone
    cases hnone
  · exact Option.some.inj (hk.symm.trans hl)
  · have hnone := hd.ancestor_root hj (Nat.sub_pos_of_lt hlt)
    rw [ancestor_of_le hlt.le hl, hk] at hnone
    cases hnone

/-- all elements between an element and its root are different, so there are fewer levels than elements -/
theorem Linked.depth_lt (hd : d.Linked) (hx : x ∈ d.roots) (h : d.ancestor k i = some x) : k < d.nodes.size := by
  have hi : i < d.nodes.size := by
    cases k with
    | zero =>
      obtain rfl := Option.some.inj h
      exact ((hd.roots i).1 hx).1
    | succ k =>
      obtain ⟨p, hp, -⟩ := Option.bind_eq_some_iff.1 h
      exact lt_size_of_parent hp
  have hchain : ∀ l : Fin (k + 1), ∃ j : Fin d.nodes.size, d.ancestor l i = some j.val ∧ d.Rooted j.val := by
    intro l
    cases hl : d.ancestor l i with
    | none =>
      have hk := ancestor_add d l (k - l) i
      rw [hl, Nat.add_sub_cancel' (Nat.le_of_lt_succ l.isLt), h] at hk
      cases hk
    | some j =>
      exact ⟨⟨j, hd.lt_size_of_ancestor hi hl⟩, rfl,
        hd.rooted_of_ancestor ((rooted_of_mem_roots hx).below h) hl⟩
  choose up hup using hchain
  have hinj : Function.Injective up := by
    intro l m hlm
    refine Fin.ext (hd.ancestor_inj (hup l).2 (hup l).1 ?_)
    rw [hlm]
    exact (hup m).1
  have hcard := Fintype.card_le_of_injective up hinj
  rw [Fintype.card_fin, Fintype.card_fin] at hcard
  exact hcard

end Chains

/-! ## Walking -/

section Walking

variable {d : Document} {i j : NodeId} {levels : Nat}

theorem Linked.mem_walk (hd : d.Linked) : j ∈ d.walk levels i ↔ ∃ k < levels, d.ancestor k j = some i := by
  induction levels generalizing i with
  | zero => simp [walk]
  | succ levels ih =>
    simp only [walk, List.mem_cons, List.mem_flatMap, ih, hd.mem]
    constructor
    · rintro (rfl | ⟨c, hc, k, hk, hj⟩)
      · exact ⟨0, Nat.succ_pos _, rfl⟩
      · exact ⟨k + 1, Nat.succ_lt_succ hk, ancestor_succ_eq_some.2 ⟨c, hj, hc⟩⟩
    · rintro ⟨k, hk, hj⟩
      cases k with
      | zero => exact .inl (Option.some.inj hj)
      | succ k =>
        obtain ⟨c, hj, hc⟩ := ancestor_succ_eq_some.1 hj
        exact .inr ⟨c, hc, k, Nat.lt_of_succ_lt_succ hk, hj⟩

/-- a walk from an element that leads to a root comes to no element twice -/
theorem Linked.walk_nodup (hd : d.Linked) (hi : d.Rooted i) : (d.walk levels i).Nodup := by
  induction levels generalizing i with
  | zero => exact .nil
  | succ levels ih =>
    have hchild : ∀ c ∈ (d.node i).children, d.ancestor 1 c = some i := fun c hc =>
      (ancestor_one d c).trans ((hd.mem i c).1 hc)
    refine List.nodup_cons.2 ⟨fun hmem => ?_, List.nodup_flatMap.2 ⟨fun c hc => ih (hi.below (hchild c hc)), ?_⟩⟩
    · obtain ⟨c, hc, hic⟩ := List.mem_flatMap.1 hmem
      obtain ⟨k, -, hk⟩ := hd.mem_walk.1 hic
      exact hd.ancestor_ne_self hi (Nat.succ_pos k) (ancestor_trans hk (hchild c hc))
    · refine (hd.nodup i).imp_of_mem fun {a b} ha hb hab j hja hjb => hab ?_
      obtain ⟨k, -, hk⟩ := hd.mem_walk.1 hja
      obtain ⟨l, -, hl⟩ := hd.mem_walk.1 hjb
      have hkl := hd.ancestor_inj hi (ancestor_trans hk (hchild a ha)) (ancestor_trans hl (hchild b hb))
      rw [Nat.succ.inj hkl, hl] at hk
      exact (Option.some.inj hk).symm

theorem Linked.visits_nodup (hd : d.Linked) : (d.visits levels).Nodup := by
  refine List.nodup_flatMap.2 ⟨fun r hr => hd.walk_nodup (rooted_of_mem_roots hr), ?_⟩
  refine hd.once.imp_of_mem fun {a b} ha hb hab j hja hjb => hab ?_
  obtain ⟨k, -, hk⟩ := hd.mem_walk.1 hja
  obtain ⟨l, -, hl⟩ := hd.mem_walk.1 hjb
  exact hd.eq_of_mem_roots ha hb hk hl

/-- with as many levels as there are elements, a walk comes to all that leads to a root -/
theorem Linked.mem_visits (hd : d.Linked) (hlevels : d.nodes.size ≤ levels) : i ∈ d.visits levels ↔ d.Rooted i := by
  simp only [visits, List.mem_flatMap, hd.mem_walk]
  constructor
  · rintro ⟨r, hr, k, -, hk⟩
    exact ⟨k, r, hk, hr⟩
  · rintro ⟨k, r, hk, hr⟩
    exact ⟨r, hr, k, Nat.lt_of_lt_of_le (hd.depth_lt hr hk) hlevels, hk⟩

end Walking

end Document

/-! ## Contexts -/

namespace Outline

variable {o : Outline} {i p c : NodeId}

theorem contextOf_spec (h : o.contextOf i = some p) : i < o.length ∧ p ∈ o.topLevel := by
  obtain ⟨context, hcontext, hnamed⟩ := Option.bind_eq_some_iff.1 h
  obtain ⟨row, hrow, -⟩ := Option.bind_eq_some_iff.1 hcontext
  exact ⟨(List.getElem?_eq_some_iff.1 hrow).1, List.mem_of_find?_eq_some hnamed⟩

theorem parentOf_of_topLevel (hi : i ∈ o.topLevel) : o.parentOf i = o.contextOf i := by
  rw [parentOf, (mem_topLevel.1 hi).2, Option.none_or]

theorem mem_childrenOf : c ∈ o.childrenOf p ↔ o.parentOf c = some p := by
  rw [childrenOf, List.mem_append, mem_nested, List.mem_filter, mem_topLevel, decide_eq_true_iff, parentOf]
  cases howner : o.ownerOf c with
  | some q => simp
  | none =>
    rw [Option.none_or]
    constructor
    · rintro (hnone | ⟨-, hcontext⟩)
      · cases hnone
      · exact hcontext
    · exact fun hcontext => .inr ⟨⟨(contextOf_spec hcontext).1, rfl⟩, hcontext⟩

theorem childrenOf_nodup (o : Outline) (p : NodeId) : (o.childrenOf p).Nodup := by
  refine List.nodup_append'.2 ⟨List.nodup_findIdxs, List.nodup_findIdxs.filter _, fun c hnested htop => ?_⟩
  have howner := (mem_topLevel.1 (List.mem_filter.1 htop).1).2
  rw [mem_nested.1 hnested] at howner
  cases howner

/-- contexts lead from a top-level element back to itself -/
def Circular (o : Outline) (i : NodeId) : Prop :=
  i ∈ o.topLevel ∧ Relation.TransGen (fun a b => o.contextOf a = some b) i i

end Outline

namespace Document

namespace Follows

variable {o : Outline} {d : Document} {i j p : NodeId} {k : Nat}

theorem attr (h : Follows o d) (i : NodeId) (name : String) : (d.node i).attr? name = o.attrOf i name := by
  by_cases hi : i < o.length
  · rw [h.node i _ (List.getElem?_eq_getElem hi), Outline.attrOf, List.getElem?_eq_getElem hi]
    rfl
  · rw [node_of_size_le (h.size ▸ Nat.le_of_not_lt hi), Outline.attrOf, List.getElem?_eq_none (Nat.le_of_not_lt hi)]
    rfl

theorem parent_lt (h : Follows o d) (hp : o.parentOf i = some p) : i < o.length ∧ p < o.length := by
  rw [Outline.parentOf] at hp
  cases howner : o.ownerOf i with
  | none =>
    rw [howner, Option.none_or] at hp
    obtain ⟨hi, hp⟩ := Outline.contextOf_spec hp
    exact ⟨hi, (Outline.mem_topLevel.1 hp).1⟩
  | some q =>
    rw [howner, Option.some_or] at hp
    cases hp
    have hi := Outline.lt_of_ownerOf howner
    exact ⟨hi, Nat.lt_trans (h.owners i p howner) hi⟩

theorem parent (h : Follows o d) (i : NodeId) : (d.node i).parent = o.parentOf i := by
  by_cases hi : i < o.length
  · exact congrArg Node.parent (h.node i _ (List.getElem?_eq_getElem hi))
  · rw [node_of_size_le (h.size ▸ Nat.le_of_not_lt hi)]
    exact (Option.eq_none_iff_forall_ne_some.2 fun p hp => hi (h.parent_lt hp).1).symm

theorem children (h : Follows o d) (p : NodeId) : (d.node p).children = o.childrenOf p := by
  by_cases hp : p < o.length
  · exact congrArg Node.children (h.node p _ (List.getElem?_eq_getElem hp))
  · rw [node_of_size_le (h.size ▸ Nat.le_of_not_lt hp)]
    refine (List.eq_nil_iff_forall_not_mem.2 fun c hc => ?_).symm
    exact hp (h.parent_lt (Outline.mem_childrenOf.1 hc)).2

theorem mem_roots (h : Follows o d) : i ∈ d.roots ↔ i < d.nodes.size ∧ (d.node i).parent = none := by
  rw [h.roots, List.mem_filter, Outline.mem_topLevel, h.parent, h.size, decide_eq_true_iff, Outline.parentOf,
    Option.or_eq_none_iff]
  constructor
  · rintro ⟨⟨hi, howner⟩, hcontext⟩
    exact ⟨hi, howner, by rw [Outline.contextOf, hcontext, Option.bind_none]⟩
  · rintro ⟨hi, howner, hnone⟩
    have htop := Outline.mem_topLevel.2 ⟨hi, howner⟩
    exact ⟨⟨hi, howner⟩, Classical.byContradiction fun hcontext => h.contexts i htop hcontext hnone⟩

theorem linked (h : Follows o d) : d.Linked where
  nodup := fun p => h.children p ▸ o.childrenOf_nodup p
  mem := fun p c => by rw [h.children, h.parent, Outline.mem_childrenOf]
  roots := fun _ => h.mem_roots
  once := h.roots ▸ List.nodup_findIdxs.filter _
  below := fun i p hp => h.size ▸ (h.parent_lt (h.parent i ▸ hp)).2

/-- above every element there is a top-level one -/
theorem exists_topLevel (h : Follows o d) (hi : i < o.length) : ∃ k t, d.ancestor k i = some t ∧ t ∈ o.topLevel := by
  induction i using Nat.strongRecOn with
  | ind i ih =>
    cases howner : o.ownerOf i with
    | none => exact ⟨0, i, rfl, Outline.mem_topLevel.2 ⟨hi, howner⟩⟩
    | some p =>
      have hlt := h.owners i p howner
      obtain ⟨k, t, hk, ht⟩ := ih p hlt (Nat.lt_trans hlt hi)
      refine ⟨k + 1, t, ?_, ht⟩
      rw [ancestor, h.parent, Outline.parentOf, howner]
      exact hk

theorem topLevel_of_ancestor (h : Follows o d) (hi : i ∈ o.topLevel) (hj : d.ancestor k i = some j) :
    j ∈ o.topLevel := by
  induction k generalizing i with
  | zero =>
    obtain rfl := Option.some.inj hj
    exact hi
  | succ k ih =>
    obtain ⟨p, hp, hj⟩ := Option.bind_eq_some_iff.1 hj
    rw [h.parent, Outline.parentOf_of_topLevel hi] at hp
    exact ih (Outline.contextOf_spec hp).2 hj

/-- above a top-level element there is nothing but its context, the context of that, and so on -/
theorem transGen_of_ancestor (h : Follows o d) (hi : i ∈ o.topLevel) (hj : d.ancestor (k + 1) i = some j) :
    Relation.TransGen (fun a b => o.contextOf a = some b) i j := by
  induction k generalizing i with
  | zero =>
    rw [ancestor_one, h.parent, Outline.parentOf_of_topLevel hi] at hj
    exact .single hj
  | succ k ih =>
    obtain ⟨p, hp, hj⟩ := Option.bind_eq_some_iff.1 hj
    rw [h.parent, Outline.parentOf_of_topLevel hi] at hp
    exact .head hp (ih (Outline.contextOf_spec hp).2 hj)

theorem ancestor_of_transGen (h : Follows o d) (hi : i ∈ o.topLevel)
    (hij : Relation.TransGen (fun a b => o.contextOf a = some b) i j) : ∃ k, d.ancestor (k + 1) i = some j := by
  have hparent : ∀ {a b}, a ∈ o.topLevel → o.contextOf a = some b → (d.node a).parent = some b := fun ha hab => by
    rw [h.parent, Outline.parentOf_of_topLevel ha, hab]
  induction hij with
  | single hij => exact ⟨0, (ancestor_one d i).trans (hparent hi hij)⟩
  | tail _ hstep ih =>
    obtain ⟨k, hk⟩ := ih
    exact ⟨k + 1, ancestor_succ_eq_some.2 ⟨_, hk, hparent (h.topLevel_of_ancestor hi hk) hstep⟩⟩

/-- **Parents lead to a root, or into a circle of contexts.** -/
theorem not_rooted_iff (h : Follows o d) (hi : i < d.nodes.size) :
    ¬d.Rooted i ↔ ∃ k j, d.ancestor k i = some j ∧ o.Circular j := by
  have hd := h.linked
  constructor
  · intro hnot
    obtain ⟨k, t, hk, ht⟩ := h.exists_topLevel (h.size ▸ hi)
    have hend : ∀ m, ∃ j : Fin d.nodes.size, d.ancestor m t = some j.val := by
      intro m
      induction m with
      | zero => exact ⟨⟨t, hd.lt_size_of_ancestor hi hk⟩, rfl⟩
      | succ m ih =>
        obtain ⟨j, hj⟩ := ih
        cases hp : (d.node j).parent with
        | none => exact absurd ⟨_, _, ancestor_trans hk hj, h.mem_roots.2 ⟨j.isLt, hp⟩⟩ hnot
        | some p => exact ⟨⟨p, hd.below _ p hp⟩, ancestor_succ_eq_some.2 ⟨_, hj, hp⟩⟩
    choose up hup using hend
    have hback : ∀ a b, a < b → up a = up b → ∃ k j, d.ancestor k i = some j ∧ o.Circular j := by
      intro a b hab heq
      have hself : d.ancestor (b - a) (up a) = some (up a).val := by
        rw [ancestor_of_le hab.le (hup a), hup b, heq]
      obtain ⟨m, hm⟩ := Nat.exists_eq_succ_of_ne_zero (Nat.ne_of_gt (Nat.sub_pos_of_lt hab))
      rw [hm] at hself
      have htop := h.topLevel_of_ancestor ht (hup a)
      exact ⟨_, _, ancestor_trans hk (hup a), htop, h.transGen_of_ancestor htop hself⟩
    -- there are only so many elements, so the chain comes to one of them again
    obtain ⟨a, b, hne, heq⟩ := Finite.exists_ne_map_eq_of_infinite up
    rcases Nat.lt_or_gt_of_ne hne with hab | hba
    · exact hback a b hab heq
    · exact hback b a hba heq.symm
  · rintro ⟨k, j, hk, htop, hcycle⟩ hrooted
    obtain ⟨m, hm⟩ := h.ancestor_of_transGen htop hcycle
    exact hd.ancestor_ne_self (hd.rooted_of_ancestor hrooted hk) (Nat.succ_pos m) hm

end Follows

/-! ## Nothing lost, nothing twice -/

/-- a document has every element of an outline, where it belongs and only there -/
structure Complete (d : Document) (o : Outline) : Prop where
  size : d.nodes.size = o.length
  kept : ∀ i row, o[i]? = some row → (d.node i).kind = row.kind ∧ (d.node i).attributes = row.attributes
  /-- an element is once among the children of its parent, and not among those of any other -/
  count : ∀ p c, (d.node p).children.count c = if (d.node c).parent = some p then 1 else 0
  /-- the roots are the top-level elements without context, in document order -/
  roots : d.roots = o.topLevel.filter fun i => o.attrOf i "context" = none
  orphans : ∀ i, i ∈ d.roots ↔ i < d.nodes.size ∧ (d.node i).parent = none
  /-- first what stands in an element, then the top-level elements that name it, both in document order -/
  children : ∀ p, (d.node p).children = o.nested p ++ o.topLevel.filter fun i => o.contextOf i = some p
  found : ∀ i ∈ o.topLevel, ∃ id, o.attrOf i "id" = some id ∧ d.placeOf id = .ok i
  /-- a top-level element with a file is once in all the lists of files -/
  listed : ∀ i ∈ o.topLevel, o.attrOf i "file" ≠ none → d.listed.count i = 1
  /-- the list of a file has its top-level elements in document order -/
  files : ∀ f ∈ d.files, f.2 = o.inFile f.1
  /-- a walk from the roots comes to no element twice, however far down it goes -/
  once : ∀ levels, (d.visits levels).Nodup
  /-- it comes to all but those whose parents do not lead to a root -/
  missed : ∀ levels, d.nodes.size ≤ levels → ∀ i < d.nodes.size, i ∉ d.visits levels ↔ ¬d.Rooted i
  /-- those are the elements whose parents lead into a circle of contexts -/
  circular : ∀ i < d.nodes.size, ¬d.Rooted i ↔ ∃ k j, d.ancestor k i = some j ∧ o.Circular j

theorem Filed.count_listed {o : Outline} {d : Document} (h : Filed o d.files) (hnodup : d.listed.Nodup) {i : NodeId}
    (hi : i ∈ o.topLevel) (hfile : o.attrOf i "file" ≠ none) : d.listed.count i = 1 := by
  obtain ⟨file, hfile⟩ := Option.ne_none_iff_exists'.1 hfile
  obtain ⟨f, hf, rfl⟩ := List.mem_map.1 (h.covers i hi file hfile)
  have hmem : i ∈ f.2 := by
    rw [h.lists f hf]
    exact List.mem_filter.2 ⟨hi, decide_eq_true hfile⟩
  exact List.count_eq_one_of_mem hnodup (List.mem_flatMap.2 ⟨f, hf, hmem⟩)

/-- **Reading a document loses none of the elements of its text and duplicates none.** -/
theorem elements_linked_once (text : String) (d : Document) (h : Document.ofText text = .ok d) :
    d.Complete (Markup.Reading.ofText text).outline := by
  have hfollows := follows_of_ofReading h
  have hd := hfollows.linked
  exact {
    size := hfollows.size
    kept := fun i row hrow => by
      rw [hfollows.node i row hrow]
      exact ⟨rfl, rfl⟩
    count := fun p c => by
      rw [(hd.nodup p).count]
      simp only [hd.mem]
    roots := hfollows.roots
    orphans := fun _ => hfollows.mem_roots
    children := hfollows.children
    found := hfollows.found
    listed := fun i hi hfile => hfollows.filed.count_listed (indexed_of_ofReading h).nodup hi hfile
    files := hfollows.filed.lists
    once := fun _ => hd.visits_nodup
    missed := fun levels hlevels i _ => not_congr (hd.mem_visits hlevels)
    circular := fun i hi => hfollows.not_rooted_iff hi }

/-- a method before its struct, a struct that is its own context, and two that are each other's -/
def knottedText : String :=
  "<GCC_XML>" ++
  "<Method id=\"_1\" context=\"_2\" file=\"f1\">" ++ "<Argument name=\"a\"/>" ++ "</Method>" ++
  "<Struct id=\"_2\" file=\"f1\">" ++ "<Field name=\"x\"/>" ++ "</Struct>" ++
  "<Struct id=\"_3\" context=\"_3\" file=\"f1\"/>" ++
  "<Struct id=\"_4\" context=\"_5\">" ++ "<Field name=\"y\"/>" ++ "</Struct>" ++
  "<Struct id=\"_5\" context=\"_4\"/>" ++
  "</GCC_XML>"

def knotted : Document where
  rootTag := "GCC_XML"
  rootAttributes := []
  nodes := #[⟨.method, [("id", "_1"), ("context", "_2"), ("file", "f1")], [1], some 2⟩,
    ⟨.argument, [("name", "a")], [], some 0⟩,
    ⟨.structType, [("id", "_2"), ("file", "f1")], [3, 0], none⟩,
    ⟨.field, [("name", "x")], [], some 2⟩,
    ⟨.structType, [("id", "_3"), ("context", "_3"), ("file", "f1")], [4], some 4⟩,
    ⟨.structType, [("id", "_4"), ("context", "_5")], [6, 7], some 7⟩,
    ⟨.field, [("name", "y")], [], some 5⟩,
    ⟨.structType, [("id", "_5"), ("context", "_4")], [5], some 5⟩]
  roots := [2]
  ids := [("_1", 0), ("_2", 2), ("_3", 4), ("_4", 5), ("_5", 7)]
  files := [("f1", [0, 2, 4])]

/-- the knotted structs and the field in one of them are in the document, and no walk from its root comes to them -/
theorem knotted_linked_once :
    Document.ofText knottedText = .ok knotted ∧ knotted.Complete (Markup.Reading.ofText knottedText).outline ∧
      knotted.visits 8 = [2, 3, 0, 1] ∧ ¬knotted.Rooted 6 := by
  have h : Document.ofText knottedText = .ok knotted := by
    -- the characters of a text are computed tag by tag
    unfold Document.ofText Markup.Reading.ofText knottedText
    simp only [String.toList_append]
    decide +kernel
  have hcomplete := elements_linked_once knottedText knotted h
  refine ⟨h, hcomplete, by decide, ?_⟩
  exact (hcomplete.missed 8 le_rfl 6 (by decide)).1 (by decide)

end Document

end HeaderModel
