/-
Where the members of an aggregate lie.

The fields of an aggregate are those of its parts, one part for each member (`Headers.Divides`): a field of the member's
own, or the fields of a nested aggregate that the member takes in. The parts of a struct follow each other: behind an
aggregate that was taken in, the next part begins one place after the last field of it. If another field of it lies
further on, as it can where a union takes a struct in before its last member, the next part may lie on that field.
- `aggregate_parts`: every remembered aggregate has its parts, placed one after the other.
- `members_apart_iff`: the members of a struct lie apart, bit fields excepted, exactly if no field of an aggregate that
  was taken in reaches the fields that come next.
- `fields_inOrder`, `members_apart`: they do if no union among what is taken in takes something in itself.
- `overlapping_members`: a struct two of whose members overlap.
-/
import HeaderModel.Document.Loading
import HeaderModel.Proofs.Requests
import HeaderModel.Proofs.Sources

namespace HeaderModel

/-! ## Parts -/

/-- what one member adds to the fields of an aggregate -/
inductive Part where
  /-- a field of its own -/
  | own (f : Field)
  /-- the fields of a nested aggregate, moved to a place -/
  | taken (a : Aggregate) (place : Nat)
  deriving DecidableEq, Repr

namespace Part

/-- the fields, where they lie in the end -/
def fields : Part → List Field
  | own f => [f]
  | taken a place => a.fields.map fun f => { f with offset := f.offset + place }

/-- where the part begins -/
def place : Part → Nat
  | own f => f.offset
  | taken _ place => place

/-- the offsets of the fields from there on -/
def offsets : Part → List Nat
  | own _ => [0]
  | taken a _ => a.fields.map (·.offset)

/-- whether the part is a bit field -/
def isBitField : Part → Bool
  | own f => f.bits.isSome
  | taken .. => false

/-- how many places further on the next part of a struct begins -/
def advance : Part → Nat
  | own f => if f.bits.isSome then 0 else 1
  | taken a _ => (a.fields.getLast?.map (·.offset)).getD 0 + 1

/-- parts that lie where a layout puts them, from a place on -/
def Placed (isUnion : Bool) : Nat → List Part → Prop
  | _, [] => True
  | o, p :: ps => p.place = o ∧ Placed isUnion (if isUnion then o else o + p.advance) ps

/-- all fields of a part lie before all fields of another one, if the first one is no bit field -/
def Precedes (p q : Part) : Prop := p.isBitField = false → ∀ f ∈ p.fields, ∀ g ∈ q.fields, f.offset < g.offset

theorem offset_mem {p : Part} {f : Field} (hf : f ∈ p.fields) : ∃ n ∈ p.offsets, f.offset = n + p.place := by
  cases p with
  | own g =>
    obtain rfl := List.mem_singleton.1 hf
    exact ⟨0, List.mem_cons_self, (Nat.zero_add _).symm⟩
  | taken a place =>
    obtain ⟨g, hg, rfl⟩ := List.mem_map.1 hf
    exact ⟨g.offset, List.mem_map_of_mem hg, rfl⟩

theorem mem_of_offset {p : Part} {n : Nat} (hn : n ∈ p.offsets) : ∃ f ∈ p.fields, f.offset = n + p.place := by
  cases p with
  | own g =>
    obtain rfl := List.mem_singleton.1 hn
    exact ⟨g, List.mem_cons_self, (Nat.zero_add _).symm⟩
  | taken a place =>
    obtain ⟨g, hg, rfl⟩ := List.mem_map.1 hn
    exact ⟨_, List.mem_map_of_mem hg, rfl⟩

theorem place_le {p : Part} {f : Field} (hf : f ∈ p.fields) : p.place ≤ f.offset := by
  obtain ⟨n, -, hn⟩ := offset_mem hf
  omega

theorem advance_taken {a : Aggregate} {last : Field} (hlast : last ∈ a.fields.getLast?) (place : Nat) :
    (taken a place).advance = last.offset + 1 := by
  rw [advance, Option.mem_def.1 hlast]
  rfl

/-- a part with fields has one that lies before everything behind the part -/
theorem exists_le_advance {p : Part} (hp : p.fields ≠ []) : ∃ f ∈ p.fields, f.offset ≤ p.place + p.advance := by
  cases p with
  | own f => exact ⟨f, List.mem_cons_self, Nat.le_add_right ..⟩
  | taken a place =>
    have hne : a.fields ≠ [] := fun hnil => hp (by simp [fields, hnil])
    obtain ⟨last, hlast⟩ := Option.isSome_iff_exists.1 (List.getLast?_isSome.2 hne)
    refine ⟨_, List.mem_map_of_mem (List.mem_of_getLast? hlast), ?_⟩
    rw [advance_taken hlast, Part.place]
    dsimp only
    omega

/-- behind a place, everything lies there or further on -/
theorem Placed.le_offset {isUnion : Bool} {o : Nat} {ps : List Part} (hps : Placed isUnion o ps) {p : Part}
    (hp : p ∈ ps) {f : Field} (hf : f ∈ p.fields) : o ≤ f.offset := by
  induction ps generalizing o with
  | nil => cases hp
  | cons q ps ih =>
    obtain ⟨hq, hps⟩ := hps
    rcases List.mem_cons.1 hp with rfl | hp
    · exact hq ▸ place_le hf
    · have hle := ih hps hp
      split_ifs at hle
      · exact hle
      · omega

/-- parts without fields take one place each -/
theorem Placed.place_behind {o : Nat} {between after : List Part} {q : Part}
    (hps : Placed false o (between ++ q :: after)) (hbetween : ∀ p ∈ between, p.fields = []) :
    q.place = o + between.length := by
  induction between generalizing o with
  | nil => exact hps.1
  | cons p between ih =>
    have hone : p.advance = 1 := by
      have hp : p.fields = [] := hbetween p List.mem_cons_self
      cases p with
      | own f => cases hp
      | taken a place =>
        obtain hnil : a.fields = [] := List.map_eq_nil_iff.1 hp
        simp [advance, hnil]
    have hplace := ih hps.2 fun p' hp' => hbetween p' (List.mem_cons_of_mem p hp')
    rw [hplace, hone, List.length_cons, if_neg Bool.false_ne_true]
    omega

/-- no field of an aggregate that is taken in reaches the next fields -/
def StaysBehind (parts : List Part) : Prop :=
  ∀ before a place between q after, parts = before ++ taken a place :: (between ++ q :: after) →
    (∀ p ∈ between, p.fields = []) →
    ∀ f ∈ a.fields, ∀ last ∈ a.fields.getLast?, ∀ n ∈ q.offsets, f.offset ≤ last.offset + between.length + n

theorem StaysBehind.tail {p : Part} {ps : List Part} (hps : StaysBehind (p :: ps)) : StaysBehind ps :=
  fun before a place between q after heq => hps (p :: before) a place between q after (by rw [heq, List.cons_append])

/-- parts without fields, and the first part that has some -/
theorem split_at_fields (ps : List Part) :
    (∀ p ∈ ps, p.fields = []) ∨
      ∃ between q after, ps = between ++ q :: after ∧ (∀ p ∈ between, p.fields = []) ∧ q.fields ≠ [] := by
  induction ps with
  | nil => exact .inl fun p hp => absurd hp List.not_mem_nil
  | cons p ps ih =>
    by_cases hp : p.fields = []
    · rcases ih with hnone | ⟨between, q, after, rfl, hbetween, hq⟩
      · exact .inl (List.forall_mem_cons.2 ⟨hp, hnone⟩)
      · exact .inr ⟨p :: between, q, after, rfl, List.forall_mem_cons.2 ⟨hp, hbetween⟩, hq⟩
    · exact .inr ⟨[], p, ps, rfl, fun p hp => absurd hp List.not_mem_nil, hp⟩

theorem Placed.drop {o : Nat} {before ps : List Part} (hps : Placed false o (before ++ ps)) :
    ∃ o', Placed false o' ps := by
  induction before generalizing o with
  | nil => exact ⟨o, hps⟩
  | cons p before ih => exact ih hps.2

/-- an aggregate that is taken in lies before the part behind it, if it does not reach it -/
theorem Placed.taken_lt_iff {o place : Nat} {a : Aggregate} {between after : List Part} {q : Part}
    (hps : Placed false o (taken a place :: (between ++ q :: after))) (hbetween : ∀ p ∈ between, p.fields = []) :
    (∀ f ∈ (taken a place).fields, ∀ g ∈ q.fields, f.offset < g.offset) ↔
      ∀ f ∈ a.fields, ∀ last ∈ a.fields.getLast?, ∀ n ∈ q.offsets, f.offset ≤ last.offset + between.length + n := by
  have hplace := hps.2.place_behind hbetween
  rw [if_neg Bool.false_ne_true, ← hps.1, Part.place] at hplace
  constructor
  · intro hlt f hf last hlast n hn
    obtain ⟨g, hg, hgn⟩ := mem_of_offset hn
    have hfg : f.offset + place < g.offset := hlt _ (List.mem_map_of_mem hf) g hg
    rw [advance_taken hlast] at hplace
    omega
  · intro hle f' hf' g hg
    obtain ⟨f, hf, rfl⟩ := List.mem_map.1 hf'
    obtain ⟨n, hn, hgn⟩ := offset_mem hg
    obtain ⟨last, hlast⟩ := Option.isSome_iff_exists.1 (List.getLast?_isSome.2 (List.ne_nil_of_mem hf))
    have hfn := hle f hf last hlast n hn
    rw [advance_taken hlast] at hplace
    dsimp only
    omega

/-- **The parts of a struct lie apart,** exactly if no aggregate that is taken in reaches the next fields. -/
theorem Placed.precedes_iff {o : Nat} {ps : List Part} (hps : Placed false o ps) :
    ps.Pairwise Precedes ↔ StaysBehind ps := by
  constructor
  · rintro hpairs before a place between q after rfl hbetween
    obtain ⟨o', hplaced⟩ := hps.drop
    refine (hplaced.taken_lt_iff hbetween).1 ?_
    have hlater := (List.pairwise_cons.1 (List.pairwise_append.1 hpairs).2.1).1
    exact hlater q (List.mem_append_right _ List.mem_cons_self) rfl
  · intro hbehind
    induction ps generalizing o with
    | nil => exact .nil
    | cons p ps ih =>
      have hrest := hps.2
      rw [if_neg Bool.false_ne_true] at hrest
      refine List.pairwise_cons.2 ⟨fun q hq hbits f hf g hg => ?_, ih hrest hbehind.tail⟩
      cases p with
      | own f' =>
        obtain rfl := List.mem_singleton.1 hf
        have hlt := hrest.le_offset hq hg
        have hone : (own f).advance = 1 := if_neg (by simpa [isBitField] using hbits)
        have hplace : f.offset = o := hps.1
        omega
      | taken a place =>
        rcases split_at_fields ps with hnone | ⟨between, q', after, rfl, hbetween, hq'⟩
        · rw [hnone q hq] at hg
          cases hg
        · have hnext := (hps.taken_lt_iff hbetween).2 (hbehind [] a place between q' after rfl hbetween) f hf
          -- behind the next part with fields, nothing lies before all of them
          rcases List.mem_append.1 hq with hq | hq
          · rw [hbetween q hq] at hg
            cases hg
          · rcases List.mem_cons.1 hq with rfl | hq
            · exact hnext g hg
            · obtain ⟨o', hplaced⟩ := hrest.drop
              obtain ⟨g', hg', hle⟩ := exists_le_advance hq'
              have hge := hplaced.2.le_offset hq hg
              rw [if_neg Bool.false_ne_true, ← hplaced.1] at hge
              exact (hnext g' hg').trans_le (hle.trans hge)

/-! ### Parts in order -/

/-- the fields lie in the order in which they stand -/
def InOrder (fs : List Field) : Prop := fs.Pairwise fun f g => f.offset ≤ g.offset

theorem InOrder.le_last {fs : List Field} (hfs : InOrder fs) {f last : Field} (hf : f ∈ fs)
    (hlast : last ∈ fs.getLast?) : f.offset ≤ last.offset := by
  obtain ⟨front, rfl⟩ := List.getLast?_eq_some_iff.1 (Option.mem_def.1 hlast)
  rcases List.mem_append.1 hf with hf | hf
  · exact (List.pairwise_append.1 hfs).2.2 f hf last List.mem_cons_self
  · obtain rfl := List.mem_singleton.1 hf
    exact le_rfl

/-- an aggregate whose fields lie in order does not reach what follows it -/
theorem staysBehind_of_inOrder {ps : List Part} (hps : ∀ a place, taken a place ∈ ps → InOrder a.fields) :
    StaysBehind ps := by
  rintro before a place between q after rfl - f hf last hlast n -
  have hle := (hps a place (List.mem_append_right _ List.mem_cons_self)).le_last hf hlast
  omega

/-- parts whose fields lie in order, follow each other in order; those of a union are all at one place -/
theorem Placed.inOrder {isUnion : Bool} {o : Nat} {ps : List Part} (hps : Placed isUnion o ps)
    (htaken : ∀ a place, taken a place ∈ ps → isUnion = false ∧ InOrder a.fields) :
    InOrder (ps.flatMap fields) := by
  induction ps generalizing o with
  | nil => exact .nil
  | cons p ps ih =>
    have hrest := ih hps.2 fun a place hmem => htaken a place (List.mem_cons_of_mem p hmem)
    have hlater : ∀ g ∈ ps.flatMap fields, (if isUnion then o else o + p.advance) ≤ g.offset := by
      intro g hg
      obtain ⟨q, hq, hg⟩ := List.mem_flatMap.1 hg
      exact hps.2.le_offset hq hg
    rw [List.flatMap_cons]
    refine List.pairwise_append.2 ⟨?_, hrest, fun f' hf' g hg => ?_⟩
    · cases p with
      | own f => exact List.pairwise_singleton ..
      | taken a place =>
        have hinner := (htaken a place List.mem_cons_self).2
        exact List.pairwise_map.2 (hinner.imp fun hle => Nat.add_le_add_right hle place)
    · have hnext := hlater g hg
      cases p with
      | own f =>
        obtain rfl := List.mem_singleton.1 hf'
        have hplace : f'.offset = o := hps.1
        split_ifs at hnext
        · omega
        · omega
      | taken a place =>
        obtain ⟨hstruct, hinner⟩ := htaken a place List.mem_cons_self
        obtain ⟨f, hf, rfl⟩ := List.mem_map.1 hf'
        obtain ⟨last, hlast⟩ := Option.isSome_iff_exists.1 (List.getLast?_isSome.2 (List.ne_nil_of_mem hf))
        have hle := hinner.le_last hf hlast
        have hplace : place = o := hps.1
        rw [hstruct, if_neg Bool.false_ne_true, advance_taken hlast] at hnext
        dsimp only
        omega

end Part

/-! ## Parts of a layout -/

namespace Headers

variable {h : Headers} {memory : List (NodeId × Aggregate)} {k : NodeId} {a : Aggregate} {p : Part} {m : Node}

/-- a part is what a member of an element adds: the fields of its nested type if it has no name, or its own field -/
def Adds (h : Headers) (memory : List (NodeId × Aggregate)) (k : NodeId) : Part → Node → Prop
  | .own f, m => (m.name = "" → ∀ j, ¬h.document.HasNested (h.document.node k) m j) ∧ h.Stems memory f (k, m)
  | .taken a _, m => m.name = "" ∧ ∃ j, h.document.HasNested (h.document.node k) m j ∧ memory.lookup j = some a

/-- the parts of an aggregate: together they are its fields, and every member adds one -/
structure Divides (h : Headers) (memory : List (NodeId × Aggregate)) (k : NodeId) (a : Aggregate)
    (parts : List Part) : Prop where
  fields : a.fields = parts.flatMap Part.fields
  members : List.Forall₂ (h.Adds memory k) parts (h.document.childrenOf (h.document.node k) .field)

theorem Adds.mono {memory' : List (NodeId × Aggregate)} (hp : h.Adds memory k p m)
    (hmemory : ∀ j a, memory.lookup j = some a → memory'.lookup j = some a) : h.Adds memory' k p m := by
  cases p with
  | own f => exact ⟨hp.1, hp.2.mono hmemory⟩
  | taken a place =>
    obtain ⟨hname, j, hnested, ha⟩ := hp
    exact ⟨hname, j, hnested, hmemory j a ha⟩

theorem Divides.mono {memory' : List (NodeId × Aggregate)} {parts : List Part} (hparts : h.Divides memory k a parts)
    (hmemory : ∀ j a, memory.lookup j = some a → memory'.lookup j = some a) : h.Divides memory' k a parts :=
  ⟨hparts.fields, hparts.members.imp fun _ _ hp => hp.mono hmemory⟩

end Headers

namespace Build

theorem offset_inline (l : Layout) (isUnion : Bool) (a : Aggregate) :
    (l.inline isUnion a.fields).offset =
      if isUnion then l.offset else l.offset + (Part.taken a l.offset).advance := by
  unfold Layout.inline Part.advance
  dsimp only
  rw [List.getLast?_map, Option.map_map]
  split_ifs
  · rfl
  · cases a.fields.getLast? with
    | none => rfl
    | some last =>
      simp only [Option.map_some, Option.getD_some, Function.comp_apply]
      omega

theorem offset_push {l : Layout} (isUnion : Bool) {f : Field} :
    (l.push isUnion f).offset = if isUnion then l.offset else l.offset + (Part.own f).advance := by
  unfold Layout.push Part.advance
  cases isUnion with
  | true => rfl
  | false =>
    simp only [Bool.false_or, Bool.false_eq_true, if_false]
    split_ifs <;> rfl

variable {h : Headers} {c : Builder} {memory : List (NodeId × Aggregate)} {k : NodeId}

/-- The members that are laid out add one part each, at the place where the layout then is. -/
theorem members_parts {name : String} {ms : List Node} {l l' : Layout}
    (hrun : (c.run (ms.foldlM (member h (fun j _ => recallFrom memory j) (h.document.node k) name) l)).1 = .ok l') :
    ∃ parts, l'.fields = l.fields ++ parts.flatMap Part.fields ∧ List.Forall₂ (h.Adds memory k) parts ms ∧
      Part.Placed (decide ((h.document.node k).kind = .unionType)) l.offset parts := by
  induction ms generalizing l c with
  | nil =>
    obtain rfl := Except.ok.inj hrun
    exact ⟨[], (List.append_nil _).symm, .nil, trivial⟩
  | cons m ms ih =>
    rw [List.foldlM_cons] at hrun
    obtain ⟨l₁, hfirst, hrest⟩ := Builder.run_bind_eq_ok.1 hrun
    obtain ⟨parts, hfields, hadds, hplaced⟩ := ih hrest
    rcases member_layout hfirst with ⟨j, a, hname, hnested, ha, rfl⟩ | ⟨hnot, f, n, hstems, hoffset, -, rfl⟩
    · refine ⟨.taken a l.offset :: parts, ?_, .cons ⟨hname, j, hnested, ha⟩ hadds, rfl, ?_⟩
      · rw [hfields, List.flatMap_cons, ← List.append_assoc]
        rfl
      · rwa [offset_inline] at hplaced
    · refine ⟨.own f :: parts, ?_, .cons ⟨hnot, hstems⟩ hadds, hoffset, ?_⟩
      · rw [hfields, List.flatMap_cons, ← List.append_assoc]
        rfl
      · rwa [offset_push] at hplaced

end Build

/-! ## Members of a struct -/

section Members

variable {h : Headers} {memory : List (NodeId × Aggregate)} {k : NodeId} {a : Aggregate}

/-- the parts of an aggregate that was made -/
theorem MadeAggregate.parts {older : List (NodeId × Aggregate)} (hmade : MadeAggregate h older k a) :
    a.isUnion = decide ((h.document.node k).kind = .unionType) ∧
      ∃ parts, h.Divides older k a parts ∧ Part.Placed a.isUnion 0 parts := by
  obtain ⟨outer, -, hbody⟩ := hmade
  obtain ⟨c, l, -, hunion, hfields, hrun⟩ := Build.aggregateBody_ok (hbody (.new (.empty "")))
  obtain ⟨parts, hl, hadds, hplaced⟩ := Build.members_parts hrun
  refine ⟨hunion, parts, ⟨?_, hadds⟩, hunion ▸ hplaced⟩
  rw [hfields, hl]
  rfl

/-- **Every remembered aggregate has its parts,** placed one after the other. -/
theorem aggregate_parts (hm : Grounded (MadeAggregate h) memory) (ha : memory.lookup k = some a) :
    ∃ parts, h.Divides memory k a parts ∧ Part.Placed a.isUnion 0 parts := by
  obtain ⟨older, hsuffix, -, hmade⟩ := hm.made ha
  obtain ⟨-, parts, hparts, hplaced⟩ := hmade.parts
  exact ⟨parts, hparts.mono fun j a => hm.lookup_of_suffix hsuffix, hplaced⟩

/-- **The members of a struct lie apart,** bit fields excepted, exactly if no field of an aggregate that was taken in
reaches the fields that come next. Whatever was asked before: a struct that is built has its parts, placed one after the
other; and every field of a part that is no bit field lies before all fields of all later parts, if and only if in every
aggregate that was taken in no field lies further on than the last one, by the members without fields that follow and
the offset at which the next fields begin. -/
theorem members_apart_iff (h : Headers) (m : Module) (requests : List Request) {k : NodeId} {a : Aggregate}
    (ha : ((Builder.new m).afterAll h requests).aggregates.lookup k = some a) (hstruct : a.isUnion = false) :
    ∃ parts, h.Divides ((Builder.new m).afterAll h requests).aggregates k a parts ∧ Part.Placed false 0 parts ∧
      (parts.Pairwise Part.Precedes ↔ Part.StaysBehind parts) := by
  obtain ⟨parts, hparts, hplaced⟩ := aggregate_parts (settled_afterAll h m requests).aggregates ha
  rw [hstruct] at hplaced
  exact ⟨parts, hparts, hplaced, hplaced.precedes_iff⟩

/-! ## Structs that keep their members apart -/

/-- an element takes the fields of another one in -/
def Document.Inlines (d : Document) (k j : NodeId) : Prop :=
  ∃ m ∈ d.childrenOf (d.node k) .field, m.name = "" ∧ d.HasNested (d.node k) m j

/-- what an element takes in, directly or not, is plain: unions take nothing in -/
def Document.InlinesPlainly (d : Document) (k : NodeId) : Prop :=
  ∀ u, Relation.ReflTransGen d.Inlines k u → (d.node u).kind = .unionType → ∀ j, ¬d.Inlines u j

theorem Headers.Divides.inlines {parts : List Part} (hparts : h.Divides memory k a parts) {inner : Aggregate}
    {place : Nat} (hmem : .taken inner place ∈ parts) :
    ∃ j, h.document.Inlines k j ∧ memory.lookup j = some inner := by
  obtain ⟨i, hi, hget⟩ := List.mem_iff_getElem.1 hmem
  have hi' : i < (h.document.childrenOf (h.document.node k) .field).length := hparts.members.length_eq ▸ hi
  have hadds := hparts.members.get hi hi'
  rw [List.get_eq_getElem, List.get_eq_getElem, hget] at hadds
  obtain ⟨hname, j, hnested, hj⟩ := hadds
  exact ⟨j, ⟨_, List.getElem_mem hi', hname, hnested⟩, hj⟩

/-- **Fields lie in the order in which they stand,** if the unions that are taken in take nothing in. -/
theorem fields_inOrder (hm : Grounded (MadeAggregate h) memory) (ha : memory.lookup k = some a)
    (hplain : h.document.InlinesPlainly k) : Part.InOrder a.fields := by
  refine hm.forall_entries (P := fun k a => h.document.InlinesPlainly k → Part.InOrder a.fields) ?_ ha hplain
  intro older k a hsuffix holder hmade ih hplain
  obtain ⟨hunion, parts, hparts, hplaced⟩ := hmade.parts
  rw [hparts.fields]
  refine hplaced.inOrder fun inner place hmem => ?_
  obtain ⟨j, hinlines, hj⟩ := hparts.inlines hmem
  refine ⟨?_, ih j inner hj fun u hu => hplain u (hu.head hinlines)⟩
  rw [hunion, decide_eq_false_iff_not]
  intro hkind
  exact hplain k .refl hkind j hinlines

/-- **Members lie apart** in a struct whose members without names are plain: bit fields excepted, every member has all
its fields before those of later members. -/
theorem members_apart (hm : Grounded (MadeAggregate h) memory) (ha : memory.lookup k = some a)
    (hstruct : a.isUnion = false) (hplain : h.document.InlinesPlainly k) :
    ∃ parts, h.Divides memory k a parts ∧ parts.Pairwise Part.Precedes := by
  obtain ⟨parts, hparts, hplaced⟩ := aggregate_parts hm ha
  rw [hstruct] at hplaced
  refine ⟨parts, hparts, hplaced.precedes_iff.2 (Part.staysBehind_of_inOrder fun inner place hmem => ?_)⟩
  obtain ⟨j, hinlines, hj⟩ := hparts.inlines hmem
  exact fields_inOrder hm hj fun u hu => hplain u (hu.head hinlines)

end Members

/-! ## A struct whose members overlap -/

/-- a struct in a file `a.h`: a union without a name, and a last member `d`; in the union, a struct without a name that
has `a` and `b`, and then a member `c` -/
def overlapReading : Markup.Reading :=
  ⟨[.opens "CastXML" (some []) false,
    .opens "Namespace" (some [("id", "n")]) true,
    .opens "Struct" (some [("id", "s"), ("name", "S"), ("context", "n"), ("file", "f")]) true,
    .opens "Field" (some [("id", "m1"), ("name", ""), ("type", "u"), ("context", "s")]) true,
    .opens "Union" (some [("id", "u"), ("name", ""), ("context", "s")]) true,
    .opens "Field" (some [("id", "m2"), ("name", ""), ("type", "t"), ("context", "u")]) true,
    .opens "Struct" (some [("id", "t"), ("name", ""), ("context", "u")]) true,
    .opens "Field" (some [("id", "m3"), ("name", "a"), ("type", "i"), ("context", "t")]) true,
    .opens "Field" (some [("id", "m4"), ("name", "b"), ("type", "i"), ("context", "t")]) true,
    .opens "Field" (some [("id", "m5"), ("name", "c"), ("type", "i"), ("context", "u")]) true,
    .opens "Field" (some [("id", "m6"), ("name", "d"), ("type", "i"), ("context", "s")]) true,
    .opens "FundamentalType" (some [("id", "i"), ("name", "int")]) true,
    .opens "File" (some [("id", "f"), ("name", "a.h")]) true,
    .closes], false⟩

/-- its document, with the file in scope -/
def overlapHeaders : Headers :=
  ⟨((Document.ofReading overlapReading).toOption).getD (.ofRoot "" []), Scope.empty.addUnit "a" true []⟩

/-- a builder that has built the model -/
def overlapBuilder : Builder := (Builder.new (.empty "M")).afterAll overlapHeaders [.all]

theorem overlap_built :
    ∃ a, overlapBuilder.aggregates.lookup 1 = some a ∧ a.isUnion = false ∧
      a.fields.map (·.name) = ["a", "b", "c", "d"] ∧ a.fields.map (·.offset) = [0, 1, 0, 1] := by
  have hcomputed : (overlapBuilder.aggregates.lookup 1).map
      (fun a => (a.isUnion, a.fields.map (·.name), a.fields.map (·.offset))) =
        some (false, ["a", "b", "c", "d"], [0, 1, 0, 1]) := by
    decide +kernel
  obtain ⟨a, ha, hfields⟩ := Option.map_eq_some_iff.1 hcomputed
  simp only [Prod.mk.injEq] at hfields
  exact ⟨a, ha, hfields⟩

/-- the two parts of a struct with these offsets overlap: `b` of the first one is where `d` is -/
theorem overlap_parts {memory : List (NodeId × Aggregate)} {a : Aggregate} {parts : List Part}
    (hoffsets : a.fields.map (·.offset) = [0, 1, 0, 1]) (hparts : overlapHeaders.Divides memory 1 a parts) :
    ¬parts.Pairwise Part.Precedes := by
  intro hpairs
  have hmembers := hparts.members
  have hchildren : overlapHeaders.document.childrenOf (overlapHeaders.document.node 1) .field =
      [overlapHeaders.document.node 2, overlapHeaders.document.node 9] := by decide +kernel
  rw [hchildren] at hmembers
  obtain ⟨p, ps, hp, hrest, rfl⟩ := List.forall₂_cons_right_iff.1 hmembers
  obtain ⟨q, qs, hq, hnone, rfl⟩ := List.forall₂_cons_right_iff.1 hrest
  obtain rfl := List.forall₂_nil_right_iff.1 hnone
  rw [hparts.fields] at hoffsets
  cases q with
  | taken => exact absurd hq.1 (by decide +kernel)
  | own g =>
    cases p with
    | own f => simp [Part.fields] at hoffsets
    | taken inner place =>
      have hsplit : (Part.taken inner place).fields.map (·.offset) ++ [g.offset] = [0, 1, 0] ++ [1] := by
        simpa [Part.fields] using hoffsets
      obtain ⟨hinner, hlast⟩ := List.append_inj' hsplit rfl
      have hone : 1 ∈ (Part.taken inner place).fields.map (·.offset) := by
        rw [hinner]
        decide
      obtain ⟨f, hf, hfone⟩ := List.mem_map.1 hone
      have hlt := (List.pairwise_cons.1 hpairs).1 (.own g) List.mem_cons_self rfl f hf g List.mem_cons_self
      rw [hfone, List.singleton_inj.1 hlast] at hlt
      exact absurd hlt (Nat.lt_irrefl 1)

/-- a struct that is built, two of whose members overlap -/
theorem overlapping_members :
    ∃ a parts, overlapBuilder.aggregates.lookup 1 = some a ∧ a.isUnion = false ∧
      a.fields.map (·.name) = ["a", "b", "c", "d"] ∧ a.fields.map (·.offset) = [0, 1, 0, 1] ∧
      overlapHeaders.Divides overlapBuilder.aggregates 1 a parts ∧
      ¬parts.Pairwise Part.Precedes := by
  obtain ⟨a, ha, hstruct, hnames, hoffsets⟩ := overlap_built
  obtain ⟨parts, hparts, -⟩ := aggregate_parts (settled_afterAll overlapHeaders (.empty "M") [.all]).aggregates ha
  exact ⟨a, parts, ha, hstruct, hnames, hoffsets, hparts, overlap_parts hoffsets hparts⟩

/-- the union without a name reaches `d`: its field `b` lies further on than its last field `c` -/
theorem overlap_reaches_next :
    ∃ a parts, overlapBuilder.aggregates.lookup 1 = some a ∧ a.isUnion = false ∧
      overlapHeaders.Divides overlapBuilder.aggregates 1 a parts ∧
      Part.Placed false 0 parts ∧ ¬Part.StaysBehind parts := by
  obtain ⟨a, ha, hstruct, -, hoffsets⟩ := overlap_built
  obtain ⟨parts, hparts, hplaced, hiff⟩ := members_apart_iff overlapHeaders (.empty "M") [.all] ha hstruct
  exact ⟨a, parts, ha, hstruct, hparts, hplaced, fun h => overlap_parts hoffsets hparts (hiff.2 h)⟩

end HeaderModel
