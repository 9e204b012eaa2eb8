/-
Loading the events of a forest.

The events of a forest add its elements behind the nodes that are there, in the order of the text.
- `Planted`: a document holds a forest at new places, whatever may happen to the old ones.
- `steps_inside`: the events of a forest inside an open element plant it below that element.
- `steps_below_root`: outside all elements they plant it below the root, if its elements have ids that are new.
- `settleAll_eq_self`: a document whose roots name no context is settled.
- `exists_loaded_text`: a document that was written from a forest is accepted, and its roots hold the forest.
-/
import HeaderModel.Proofs.Forest

namespace HeaderModel

namespace Document

/-- a forest was added at these places, behind the nodes that were there -/
structure Planted (d d' : Document) (is : List NodeId) (f : Forest) : Prop where
  size : d.nodes.size ≤ d'.nodes.size
  rootTag : d'.rootTag = d.rootTag
  rootAttributes : d'.rootAttributes = d.rootAttributes
  /-- any document with the same new nodes holds the forest -/
  shows : ∀ e : Document, (∀ i, d.nodes.size ≤ i → i < d'.nodes.size → e.node i = d'.node i) → e.Shows is f

/-- a forest was added below an element, and nothing else has changed -/
structure PlantedIn (owner : NodeId) (d d' : Document) (is : List NodeId) (f : Forest) : Prop
    extends Planted d d' is f where
  roots : d'.roots = d.roots
  ids : d'.ids = d.ids
  holder : d'.node owner = { d.node owner with children := (d.node owner).children ++ is }
  others : ∀ i < d.nodes.size, i ≠ owner → d'.node i = d.node i

section Planting

variable {d d₁ d₂ d₃ : Document} {owner : NodeId} {is js : List NodeId} {kind : Kind}
  {attributes : List Markup.Attribute} {parent : Option NodeId} {children rest f : Forest}

theorem Planted.nil (d : Document) : d.Planted d [] .nil := ⟨le_rfl, rfl, rfl, fun _ _ => .nil⟩

/-- an element, then what it holds, then the elements after it -/
theorem Planted.cons (hsize : d₁.nodes.size = d.nodes.size + 1)
    (hroot : d₁.rootTag = d.rootTag ∧ d₁.rootAttributes = d.rootAttributes)
    (hnode : d₁.node d.nodes.size = ⟨kind, attributes, [], parent⟩)
    (hchildren : PlantedIn d.nodes.size d₁ d₂ is children) (hrest : d₂.Planted d₃ js rest)
    (hkept : ∀ i, d.nodes.size ≤ i → i < d₂.nodes.size → d₃.node i = d₂.node i) :
    d.Planted d₃ (d.nodes.size :: js) (.cons kind attributes children rest) := by
  have hsize₁ : d.nodes.size < d₁.nodes.size := hsize ▸ Nat.lt_succ_self _
  have hsize₂ := Nat.lt_of_lt_of_le hsize₁ hchildren.size
  refine ⟨hsize₂.le.trans hrest.size, ?_, ?_, fun e he => ?_⟩
  · rw [hrest.rootTag, hchildren.rootTag, hroot.1]
  · rw [hrest.rootAttributes, hchildren.rootAttributes, hroot.2]
  · have hhere : e.node d.nodes.size = ⟨kind, attributes, is, parent⟩ := by
      rw [he _ le_rfl (Nat.lt_of_lt_of_le hsize₂ hrest.size), hkept _ le_rfl hsize₂, hchildren.holder, hnode,
        List.nil_append]
    have hbelow : e.Shows is children := hchildren.shows e fun i hi hi' => by
      have hi := hsize₁.le.trans hi
      rw [he i hi (Nat.lt_of_lt_of_le hi' hrest.size), hkept i hi hi']
    have hafter : e.Shows js rest := hrest.shows e fun i hi hi' => he i (hsize₂.le.trans hi) hi'
    have hchild : e.Shows (e.node d.nodes.size).children children := by rwa [hhere]
    have hall := Shows.cons hchild hafter
    rwa [hhere] at hall

/-- the events inside an element and its end, if it has one -/
theorem steps_children {opened : List NodeId} {i : NodeId}
    (h : ∀ es, (children.events ++ es).foldlM Loading.step ⟨some d₁, i :: opened⟩ =
      es.foldlM Loading.step ⟨some d₂, i :: opened⟩) (es : List Markup.Event) :
    ((if children.isNil then [] else children.events ++ [Markup.Event.closes]) ++ es).foldlM Loading.step
      ⟨some d₁, if children.isNil then opened else i :: opened⟩ = es.foldlM Loading.step ⟨some d₂, opened⟩ := by
  cases children with
  | nil =>
    have hsame : d₁ = d₂ := by
      have hnone := Except.ok.inj (h [])
      exact Option.some.inj (congrArg Loading.document hnone)
    rw [hsame]
    rfl
  | cons kind attributes children rest =>
    simp only [Forest.isNil, Bool.false_eq_true, if_false, List.append_assoc]
    rw [h]
    rfl

/-- inside an open element, the events of a forest plant it below that element -/
theorem steps_inside (hf : f.All fun kind _ => Kind.ofTag kind.tag = kind) (howner : owner < d.nodes.size)
    (opened : List NodeId) :
    ∃ d' is, PlantedIn owner d d' is f ∧ ∀ es, (f.events ++ es).foldlM Loading.step ⟨some d, owner :: opened⟩ =
      es.foldlM Loading.step ⟨some d', owner :: opened⟩ := by
  induction f generalizing d owner opened with
  | nil => exact ⟨d, [], ⟨.nil d, rfl, rfl, by rw [List.append_nil], fun _ _ _ => rfl⟩, fun _ => rfl⟩
  | cons kind attributes children rest ihchildren ihrest =>
    obtain ⟨hkind, hchildren, hrest⟩ := hf
    set d₁ := d.addNested owner kind attributes with hd₁
    have hsize : d₁.nodes.size = d.nodes.size + 1 := by simp [hd₁, Document.addNested]
    have hlt : d.nodes.size < d₁.nodes.size := hsize ▸ Nat.lt_add_one _
    obtain ⟨d₂, is, hin, hinside⟩ := ihchildren hchildren hlt (owner :: opened)
    have hle : d.nodes.size ≤ d₂.nodes.size := hlt.le.trans hin.size
    have howner₂ : owner < d₂.nodes.size := Nat.lt_of_lt_of_le howner hle
    obtain ⟨d₃, js, hafter, hothers⟩ := ihrest hrest howner₂ opened
    have hkept : ∀ i < d₂.nodes.size, i ≠ owner → d₃.node i = d₂.node i := hafter.others
    have hold : ∀ i < d.nodes.size, d₂.node i = d₁.node i := fun i hi =>
      hin.others i (Nat.lt_trans hi hlt) (Nat.ne_of_lt hi)
    refine ⟨d₃, d.nodes.size :: js, ⟨?_, ?_, ?_, ?_, fun i hi hne => ?_⟩, fun es => ?_⟩
    · exact .cons hsize ⟨rfl, rfl⟩ (node_addNested_size howner) hin hafter.toPlanted
        fun i hi hi' => hkept i hi' (Nat.ne_of_gt (Nat.lt_of_lt_of_le howner hi))
    · rw [hafter.roots, hin.roots]
      rfl
    · rw [hafter.ids, hin.ids]
      rfl
    · rw [hafter.holder, hold owner howner, hd₁, node_addNested howner, if_pos rfl, List.append_assoc]
      rfl
    · rw [hkept i (Nat.lt_of_lt_of_le hi hle) hne, hold i hi, hd₁,
        node_addNested hi, if_neg (Ne.symm hne), List.append_nil]
    · rw [Forest.events, List.cons_append, List.append_assoc, List.foldlM_cons, step_opens, hkind]
      exact (steps_children hinside _).trans (hothers es)

/-- outside all elements, the events of a forest plant it below the root -/
theorem steps_below_root {ids : List String} (hf : f.All fun kind _ => Kind.ofTag kind.tag = kind)
    (hids : f.heads.map (·.lookup "id") = ids.map some) (hnew : (d.ids.map (·.1) ++ ids).Nodup) :
    ∃ d' is, d.Planted d' is f ∧ d'.roots = d.roots ++ is ∧ (∀ i < d.nodes.size, d'.node i = d.node i) ∧
      ∀ es, (f.events ++ es).foldlM Loading.step ⟨some d, []⟩ = es.foldlM Loading.step ⟨some d', []⟩ := by
  induction f generalizing d ids with
  | nil => exact ⟨d, [], .nil d, by rw [List.append_nil], fun _ _ => rfl, fun _ => rfl⟩
  | cons kind attributes children rest _ ihrest =>
    obtain ⟨hkind, hchildren, hrest⟩ := hf
    obtain ⟨id, ids, rfl⟩ : ∃ id ids', ids = id :: ids' := by
      cases ids with
      | nil => cases hids
      | cons id ids => exact ⟨id, ids, rfl⟩
    rw [Forest.heads, List.map_cons, List.map_cons, List.cons.injEq] at hids
    set d₁ := d.withTopLevel id kind attributes with hd₁
    have hsize : d₁.nodes.size = d.nodes.size + 1 := by simp [hd₁, withTopLevel]
    have hlt : d.nodes.size < d₁.nodes.size := hsize ▸ Nat.lt_add_one _
    have hfresh : d.ids.lookup id = none := List.lookup_eq_none_iff.2 fun e he => by
      have hne : id ≠ e.1 := fun h => (List.nodup_append'.1 hnew).2.2 (List.mem_map_of_mem he) (h ▸ List.mem_cons_self)
      simpa using hne
    have hadded : d.addIn kind attributes none = .ok d₁ := addTopLevel_eq_ok.2 ⟨id, hids.1, hfresh, rfl⟩
    obtain ⟨d₂, is, hin, hinside⟩ := steps_inside hchildren hlt []
    have hle : d.nodes.size ≤ d₂.nodes.size := hlt.le.trans hin.size
    have hids₂ : (d₂.ids.map (·.1) ++ ids).Nodup := by
      rw [hin.ids]
      simpa [hd₁, withTopLevel] using hnew
    obtain ⟨d₃, js, hafter, hroots, hkept, hothers⟩ := ihrest hrest hids.2 hids₂
    refine ⟨d₃, d.nodes.size :: js, ?_, ?_, fun i hi => ?_, fun es => ?_⟩
    · exact .cons hsize ⟨rfl, rfl⟩ (node_push_size rfl) hin hafter fun i _ hi' => hkept i hi'
    · rw [hroots, hin.roots, hd₁, withTopLevel]
      simp
    · rw [hkept i (Nat.lt_of_lt_of_le hi hle), hin.others i (Nat.lt_trans hi hlt) (Nat.ne_of_lt hi)]
      exact node_push d₁ rfl hi
    · rw [Forest.events, List.cons_append, List.append_assoc, List.foldlM_cons, step_opens, hkind, List.head?_nil,
        hadded]
      exact (steps_children hinside _).trans (hothers es)

end Planting

/-! ## Documents that are settled -/

/-- if no root names a context, there is nothing to settle -/
theorem settleAll_eq_self {d : Document} (h : ∀ i ∈ d.roots, (d.node i).attr? "context" = none) :
    d.settleAll = .ok d := by
  have hsteps : ∀ is done : List NodeId, (∀ i ∈ is, (d.node i).attr? "context" = none) →
      is.foldlM Document.settle { d with roots := done } = .ok { d with roots := done ++ is } := by
    intro is
    induction is with
    | nil => intro done _; rw [List.append_nil]; rfl
    | cons i is ih =>
      intro done his
      have hstep : Document.settle { d with roots := done } i = .ok { d with roots := done ++ [i] } := by
        have hnone : (Document.node { d with roots := done } i).attr? "context" = none := his i List.mem_cons_self
        rw [Document.settle, hnone]
      rw [List.foldlM_cons, hstep]
      have hrest := ih (done ++ [i]) fun j hj => his j (List.mem_cons_of_mem _ hj)
      rwa [List.append_assoc] at hrest
  exact hsteps d.roots [] h

/-- a document that was written from a forest is accepted, and its roots hold that forest -/
theorem exists_loaded_text {f : Forest} {tag : String} {attributes : List Markup.Attribute} {ids : List String}
    (htag : tag ∈ rootTags) (hroot : Markup.Writable tag attributes)
    (hf : f.All fun kind as => Markup.Writable kind.tag as) (hkinds : f.All fun kind _ => Kind.ofTag kind.tag = kind)
    (hids : f.heads.map (·.lookup "id") = ids.map some) (hnew : ids.Nodup)
    (hcontext : ∀ as ∈ f.heads, as.lookup "context" = none) :
    ∃ d, Document.ofText (f.text tag attributes) = .ok d ∧ d.rootTag = tag ∧ d.rootAttributes = attributes ∧
      d.Shows d.roots f := by
  obtain ⟨d, is, hplanted, hroots, -, hsteps⟩ :=
    steps_below_root (d := .ofRoot tag attributes) hkinds hids (by simpa [ofRoot] using hnew)
  rw [ofRoot, List.nil_append] at hroots
  have hshows : d.Shows d.roots f := hroots ▸ hplanted.shows d fun _ _ _ => rfl
  have hsettled : d.settleAll = .ok d := settleAll_eq_self fun i hi => by
    refine hcontext _ ?_
    rw [hshows.heads]
    exact List.mem_map_of_mem hi
  refine ⟨d, ?_, hplanted.rootTag, hplanted.rootAttributes, hshows⟩
  have hfirst : Loading.step ⟨none, []⟩ (.opens tag (some attributes) false) =
      .ok ⟨some (.ofRoot tag attributes), []⟩ := by
    simp [Loading.step, htag, readable, bind, Except.bind, pure, Except.pure]
  have hevents : (.opens tag (some attributes) false :: (f.events ++ [.closes])).foldlM Loading.step ⟨none, []⟩ =
      .ok ⟨some d, []⟩ := by
    rw [List.foldlM_cons, hfirst]
    exact (hsteps [.closes]).trans rfl
  rw [Document.ofText, Document.ofReading, Markup.reading_of_text hroot hf]
  dsimp only
  rw [hevents]
  exact hsettled

end Document

end HeaderModel
