/-
The books of a builder.

While a builder builds an element it is inside other elements: it has marked those, it remembers what it has built, and
nested aggregates wait. Whatever state it is in, and whether or not it succeeds, a call for an element leaves these books
in order. Nothing is asked of the state before the call, so this holds of every call that is made inside another one.
- `Builder.Learned`: how a memory grows. It keeps its entries, and each new one was put there by a call that succeeded.
- `aggregateWithin_inOrder`, `interfaceWithin_inOrder`: what one call does to the books, by induction on the levels that
  are left to it. The body of the element is a chain of calls for others, and each leaves the books in order.
- `aggregateWithin_waiting`: nothing comes to wait where the aggregate is not nested, or fails.
- `books_in_order`: the above together, and that a builder between requests is inside nothing and has nothing waiting.
-/
import HeaderModel.Document.Loading
import HeaderModel.Proofs.Requests

namespace HeaderModel

variable {α : Type}

/-! ## Memories that grow -/

/-- How a memory grows from one builder to another. It keeps its entries. Each new entry was put there by a call for its
element that succeeded, and that was made in between: it began inside all that was underway, with all that was remembered
and without that entry, and all that it remembered in the end is still remembered. -/
structure Builder.Learned (memory : Builder → List (NodeId × α)) (Calls : NodeId → Build α → Prop) (b c : Builder) :
    Prop where
  older : memory b <:+ memory c
  kept : ∀ i a, (memory b).lookup i = some a → (memory c).lookup i = some a
  built : ∀ i a, (memory b).lookup i = none → (memory c).lookup i = some a →
    ∃ call start done, Calls i call ∧ start.run call = (.ok a, done) ∧
      b.underway <:+ start.underway ∧ memory b <:+ memory start ∧ (memory start).lookup i = none ∧
      (memory done).lookup i = some a ∧ memory done <:+ memory c

namespace Builder.Learned

variable {memory : Builder → List (NodeId × α)} {Calls : NodeId → Build α → Prop} {b b' c d : Builder}

theorem of_eq (h : memory c = memory b) : Learned memory Calls b c := by
  refine ⟨?_, fun i a hi => h ▸ hi, fun i a hi hi' => ?_⟩
  · rw [h]
  · rw [h, hi] at hi'
    cases hi'

theorem trans (h₁ : Learned memory Calls b c) (h₂ : Learned memory Calls c d) (hunderway : c.underway = b.underway) :
    Learned memory Calls b d := by
  refine ⟨h₁.older.trans h₂.older, fun i a hi => h₂.kept i a (h₁.kept i a hi), fun i a hi hi' => ?_⟩
  cases hc : (memory c).lookup i with
  | some a' =>
    obtain rfl := Option.some.inj ((h₂.kept i a' hc).symm.trans hi')
    obtain ⟨call, start, done, hcall, hrun, hinside, hbefore, hnew, hmade, hafter⟩ := h₁.built i a' hi hc
    exact ⟨call, start, done, hcall, hrun, hinside, hbefore, hnew, hmade, hafter.trans h₂.older⟩
  | none =>
    obtain ⟨call, start, done, hcall, hrun, hinside, hbefore, hnew, hmade, hafter⟩ := h₂.built i a hc hi'
    exact ⟨call, start, done, hcall, hrun, hunderway ▸ hinside, h₁.older.trans hbefore, hnew, hmade, hafter⟩

/-- what is learned inside more elements, from the same memory, is learned -/
theorem of_inside (h : Learned memory Calls b' c) (hbegin : memory b' = memory b)
    (hinside : b.underway <:+ b'.underway) (hend : memory d = memory c) : Learned memory Calls b d := by
  refine ⟨hbegin ▸ hend ▸ h.older, fun i a hi => hend ▸ h.kept i a (hbegin ▸ hi), fun i a hi hi' => ?_⟩
  obtain ⟨call, start, done, hcall, hrun, hwithin, hbefore, hnew, hmade, hafter⟩ :=
    h.built i a (hbegin ▸ hi) (hend ▸ hi')
  exact ⟨call, start, done, hcall, hrun, hinside.trans hwithin, hbegin ▸ hbefore, hnew, hmade, hend ▸ hafter⟩

/-- the call that was made is remembered at its end -/
theorem remember (h : Learned memory Calls b c) {i : NodeId} {a : α} {call : Build α} (hcall : Calls i call)
    (hnew : (memory b).lookup i = none) (hrun : b.run call = (.ok a, d)) (hmemory : memory d = (i, a) :: memory c) :
    Learned memory Calls b d := by
  have hgrown : memory c <:+ memory d := hmemory ▸ List.suffix_cons ..
  refine ⟨h.older.trans hgrown, fun j a' hj => ?_, fun j a' hj hj' => ?_⟩
  · have hji : j ≠ i := by
      rintro rfl
      rw [hnew] at hj
      cases hj
    rw [hmemory, List.lookup_cons, beq_false_of_ne hji]
    exact h.kept j a' hj
  · by_cases hji : j = i
    · subst hji
      have hself : (memory d).lookup j = some a := by rw [hmemory, List.lookup_cons_self]
      obtain rfl := Option.some.inj (hself.symm.trans hj')
      exact ⟨call, b, d, hcall, hrun, List.suffix_refl _, List.suffix_refl _, hnew, hself, List.suffix_refl _⟩
    · rw [hmemory, List.lookup_cons, beq_false_of_ne hji] at hj'
      obtain ⟨call', start, done, hcall', hrun', hinside, hbefore, hfresh, hmade, hafter⟩ := h.built j a' hj hj'
      exact ⟨call', start, done, hcall', hrun', hinside, hbefore, hfresh, hmade, hafter.trans hgrown⟩

end Builder.Learned

/-! ## Books in order -/

/-- the calls that build an element as an aggregate: nested or not, through any number of levels -/
def AggregateCall (h : Headers) (i : NodeId) (call : Build Aggregate) : Prop :=
  ∃ levels outer, call = Build.aggregateWithin h levels i outer

/-- the calls that build an element as an interface, through any number of levels -/
def InterfaceCall (h : Headers) (i : NodeId) (call : Build Interface) : Prop :=
  ∃ levels, call = Build.interfaceWithin h levels i

/-- A builder has its books in order after another: it is inside the same elements, its memories have grown by what was
built, and all that waited still waits, in order and before anything else. -/
structure Builder.InOrder (h : Headers) (b c : Builder) : Prop where
  underway : c.underway = b.underway
  aggregates : Learned (·.aggregates) (AggregateCall h) b c
  interfaces : Learned (·.interfaces) (InterfaceCall h) b c
  waiting : b.waiting <+: c.waiting

namespace Builder.InOrder

variable {h : Headers} {b c d : Builder}

theorem of_same (hunderway : c.underway = b.underway) (haggregates : c.aggregates = b.aggregates)
    (hinterfaces : c.interfaces = b.interfaces) (hwaiting : b.waiting <+: c.waiting) : b.InOrder h c :=
  ⟨hunderway, .of_eq haggregates, .of_eq hinterfaces, hwaiting⟩

theorem refl (h : Headers) (b : Builder) : b.InOrder h b := of_same rfl rfl rfl (List.prefix_refl _)

theorem trans (h₁ : b.InOrder h c) (h₂ : c.InOrder h d) : b.InOrder h d :=
  ⟨h₂.underway.trans h₁.underway, h₁.aggregates.trans h₂.aggregates h₁.underway,
    h₁.interfaces.trans h₂.interfaces h₁.underway, h₁.waiting.trans h₂.waiting⟩

theorem noting (hc : b.InOrder h c) (ns : List Notice) : b.InOrder h (c.noting ns) :=
  hc.trans (of_same rfl rfl rfl (List.prefix_refl _))

theorem awaiting (hc : b.InOrder h c) (entry : Entry) : b.InOrder h (c.awaiting entry) :=
  hc.trans (of_same rfl rfl rfl (List.prefix_append ..))

/-- a mark that was set is taken away, and no other -/
theorem underway_erase {i : NodeId} (hc : (b.claiming i).InOrder h c) : c.underway.erase i = b.underway := by
  rw [hc.underway]
  exact List.erase_cons_head ..

/-- what waited is what is left when the rest is forgotten -/
theorem take_waiting (hc : b.InOrder h c) : c.waiting.take b.waiting.length = b.waiting :=
  (List.prefix_iff_eq_take.1 hc.waiting).symm

/-! What is in order inside an element is in order when the element is left. -/

section Leaving

variable {i : NodeId} (hc : (b.claiming i).InOrder h c)
include hc

theorem learned_aggregates (hd : d.aggregates = c.aggregates) : Learned (·.aggregates) (AggregateCall h) b d :=
  hc.aggregates.of_inside rfl (List.suffix_cons i b.underway) hd

theorem learned_interfaces (hd : d.interfaces = c.interfaces) : Learned (·.interfaces) (InterfaceCall h) b d :=
  hc.interfaces.of_inside rfl (List.suffix_cons i b.underway) hd

theorem releasing : b.InOrder h (c.releasing i) :=
  ⟨hc.underway_erase, hc.learned_aggregates rfl, hc.learned_interfaces rfl, hc.waiting⟩

theorem abandoning : b.InOrder h (c.abandoning i b.waiting.length) := by
  have hleft : c.waiting.take b.waiting.length = b.waiting := hc.take_waiting
  refine ⟨hc.underway_erase, hc.learned_aggregates rfl, hc.learned_interfaces rfl, ?_⟩
  show b.waiting <+: c.waiting.take b.waiting.length
  rw [hleft]

theorem finishing {built : Aggregate} {outer : Option Build.Enclosing} {call : Build Aggregate}
    (hcall : AggregateCall h i call) (hnew : b.aggregates.lookup i = none)
    (hrun : b.run call = (.ok built, c.finishing i built outer b.waiting.length)) :
    b.InOrder h (c.finishing i built outer b.waiting.length) := by
  have hlearned : Learned (·.aggregates) (AggregateCall h) b c := hc.learned_aggregates rfl
  refine ⟨hc.underway_erase, hlearned.remember hcall hnew hrun rfl, hc.learned_interfaces rfl, ?_⟩
  cases outer with
  | none => exact hc.abandoning.waiting
  | some outer => exact hc.waiting

theorem concluding {built : Interface} {call : Build Interface} (hcall : InterfaceCall h i call)
    (hnew : b.interfaces.lookup i = none) (hrun : b.run call = (.ok built, c.concluding i built)) :
    b.InOrder h (c.concluding i built) := by
  have hlearned : Learned (·.interfaces) (InterfaceCall h) b c := hc.learned_interfaces rfl
  exact ⟨hc.underway_erase, hc.learned_aggregates rfl, hlearned.remember hcall hnew hrun rfl, hc.waiting⟩

end Leaving

end Builder.InOrder

namespace Build

variable {h : Headers}

theorem keeps_inOrder {x : Build α} (hx : ∀ c : Builder, c.InOrder h (c.run x).2) (b : Builder) :
    Keeps (b.InOrder h) x := fun c hc => hc.trans (hx c)

theorem indifferent_inOrder (h : Headers) (b : Builder) : Indifferent (b.InOrder h) :=
  ⟨fun _ ns hc => hc.noting ns, fun _ entry hc => hc.awaiting entry⟩

/-- if calls for aggregates leave the books in order, so does the body of an aggregate -/
theorem aggregateBody_inOrder {build : NodeId → Option Enclosing → Build Aggregate}
    (hbuild : ∀ j outer, ∀ c : Builder, c.InOrder h (c.run (build j outer)).2) (n : Node) (outer : Option Enclosing)
    (b : Builder) : b.InOrder h (b.run (aggregateBody h build n outer)).2 :=
  aggregateBody_keeps (indifferent_inOrder h b) (fun j outer => keeps_inOrder (hbuild j outer) b) n outer b (.refl h b)

/-- if calls for interfaces leave the books in order, so does the body of an interface -/
theorem interfaceBody_inOrder {build : NodeId → Build Interface}
    (hbuild : ∀ j, ∀ c : Builder, c.InOrder h (c.run (build j)).2) (n : Node) (b : Builder) :
    b.InOrder h (b.run (interfaceBody h build n)).2 :=
  interfaceBody_keeps (fun _ ns hc => hc.noting ns) (fun j => keeps_inOrder (hbuild j) b) n b (.refl h b)

/-- **A call for an aggregate leaves the books in order,** in every state, and whether or not it succeeds. -/
theorem aggregateWithin_inOrder (levels : Nat) (i : NodeId) (outer : Option Enclosing) (b : Builder) :
    b.InOrder h (b.run (aggregateWithin h levels i outer)).2 := by
  induction levels generalizing i outer b with
  | zero => exact .refl h b
  | succ levels ih =>
    have hrun := Builder.run_aggregateWithin b h levels i outer
    cases hl : b.aggregates.lookup i with
    | some built =>
      rw [hrun, hl]
      exact .refl h b
    | none =>
      by_cases hi : i ∈ b.underway
      · simp only [hrun, hl, hi, if_true]
        exact .refl h b
      · have hbody := aggregateBody_inOrder ih (h.document.node i) outer (b.claiming i)
        simp only [hl, hi, if_false] at hrun
        generalize (b.claiming i).run (aggregateBody h (aggregateWithin h levels) (h.document.node i) outer) = p
          at hrun hbody
        rcases p with ⟨e | built, c⟩
        · dsimp only at hrun
          rw [hrun]
          exact hbody.abandoning
        · dsimp only at hrun
          have hfinished := hbody.finishing ⟨levels + 1, outer, rfl⟩ hl hrun
          rwa [hrun]

/-- nothing comes to wait where a call fails, or its aggregate is not nested -/
theorem aggregateWithin_waiting (levels : Nat) (i : NodeId) (outer : Option Enclosing) (b : Builder)
    (hdone : (b.run (aggregateWithin h levels i outer)).1.isOk = false ∨ outer = none) :
    (b.run (aggregateWithin h levels i outer)).2.waiting = b.waiting := by
  cases levels with
  | zero => rfl
  | succ levels =>
    rw [Builder.run_aggregateWithin] at hdone ⊢
    cases hl : b.aggregates.lookup i with
    | some built => rfl
    | none =>
      by_cases hi : i ∈ b.underway
      · simp [hi]
      · have hbody := aggregateBody_inOrder (h := h) (aggregateWithin_inOrder levels) (h.document.node i) outer
          (b.claiming i)
        simp only [hl, hi, if_false] at hdone ⊢
        generalize (b.claiming i).run (aggregateBody h (aggregateWithin h levels) (h.document.node i) outer) = p
          at hdone hbody
        have hleft : p.2.waiting.take b.waiting.length = b.waiting := hbody.take_waiting
        rcases p with ⟨e | built, c⟩
        · exact hleft
        · rcases hdone with hfails | rfl
          · cases hfails
          · exact hleft

/-- **A call for an interface leaves the books in order,** in every state, and whether or not it succeeds. -/
theorem interfaceWithin_inOrder (levels : Nat) (i : NodeId) (b : Builder) :
    b.InOrder h (b.run (interfaceWithin h levels i)).2 := by
  induction levels generalizing i b with
  | zero => exact .refl h b
  | succ levels ih =>
    have hrun := Builder.run_interfaceWithin b h levels i
    cases hl : b.interfaces.lookup i with
    | some built =>
      rw [hrun, hl]
      exact .refl h b
    | none =>
      by_cases hi : i ∈ b.underway
      · simp only [hrun, hl, hi, if_true]
        exact .refl h b
      · have hbody := interfaceBody_inOrder ih (h.document.node i) (b.claiming i)
        simp only [hl, hi, if_false] at hrun
        generalize (b.claiming i).run (interfaceBody h (interfaceWithin h levels) (h.document.node i)) = p at hrun hbody
        rcases p with ⟨e | built, c⟩
        · dsimp only at hrun
          rw [hrun]
          exact hbody.releasing
        · dsimp only at hrun
          have hconcluded := hbody.concluding ⟨levels + 1, rfl⟩ hl hrun
          rwa [hrun]

end Build

/-- **The books of a builder are in order after every call,** at any depth and whether or not it succeeds. The builder is
inside the same elements as before, its memories have kept their entries and gained what was built, and what waited still
waits. Nothing else waits, unless an aggregate was built that is nested in another one. So between requests, successful
or not, a builder is inside nothing, and nothing waits. -/
theorem books_in_order (h : Headers) :
    (∀ (b : Builder) (levels : Nat) (i : NodeId) (outer : Option Build.Enclosing),
      b.InOrder h (b.run (Build.aggregateWithin h levels i outer)).2 ∧
      ((b.run (Build.aggregateWithin h levels i outer)).1.isOk = false ∨ outer = none →
        (b.run (Build.aggregateWithin h levels i outer)).2.waiting = b.waiting)) ∧
    (∀ (b : Builder) (levels : Nat) (i : NodeId),
      b.InOrder h (b.run (Build.interfaceWithin h levels i)).2 ∧
      (b.run (Build.interfaceWithin h levels i)).2.waiting = b.waiting) ∧
    ∀ (m : Module) (requests : List Request),
      ((Builder.new m).afterAll h requests).underway = [] ∧ ((Builder.new m).afterAll h requests).waiting = [] := by
  refine ⟨fun b levels i outer => ⟨?_, ?_⟩, fun b levels i => ⟨?_, ?_⟩, fun m requests => ?_⟩
  · exact Build.aggregateWithin_inOrder levels i outer b
  · exact Build.aggregateWithin_waiting levels i outer b
  · exact Build.interfaceWithin_inOrder levels i b
  · exact (Build.interfaceWithin_frame h levels i b).2.1
  · have hsettled := settled_afterAll h m requests
    exact ⟨hsettled.underway, hsettled.waiting⟩

/-! ## A call that fails inside another element -/

/-- a struct with a base that can be built, and a member of a width that is no number -/
def brokenReading : Markup.Reading :=
  ⟨[.opens "CastXML" (some []) false,
    .opens "Struct" (some [("id", "o"), ("name", "OUTER")]) true,
    .opens "Struct" (some [("id", "s"), ("name", "SHAPE"), ("bases", "b")]) true,
    .opens "Field" (some [("id", "m"), ("name", "wide"), ("type", "t"), ("bits", "x"), ("context", "s")]) true,
    .opens "Struct" (some [("id", "b"), ("name", "BASE")]) true,
    .opens "FundamentalType" (some [("id", "t"), ("name", "int")]) true,
    .closes], false⟩

/-- its document -/
def brokenHeaders : Headers := ⟨((Document.ofReading brokenReading).toOption).getD (.ofRoot "" []), Scope.empty⟩

/-- a builder that is inside `OUTER`, where an aggregate waits -/
def insideBuilder : Builder :=
  { Builder.new (.empty "M") with
    underway := [0]
    waiting := [⟨some 7, .aggregate ⟨"OUTER_In_INNER", false, none, []⟩⟩] }

theorem broken_fails :
    (insideBuilder.run (Build.aggregateWithin brokenHeaders 6 1 none)).1.isOk = false ∧
      ((insideBuilder.run (Build.aggregateWithin brokenHeaders 6 1 none)).2.aggregates.lookup 3).isSome = true := by
  decide +kernel

/-- The call for `SHAPE` fails, and the builder is inside `OUTER` as before, where the same aggregate waits. The base is
remembered, since a call for it succeeded on the way. -/
theorem failed_inside_outer :
    (insideBuilder.run (Build.aggregateWithin brokenHeaders 6 1 none)).1.isOk = false ∧
    (insideBuilder.run (Build.aggregateWithin brokenHeaders 6 1 none)).2.underway = [0] ∧
    (insideBuilder.run (Build.aggregateWithin brokenHeaders 6 1 none)).2.waiting = insideBuilder.waiting ∧
    ∃ levels outer base, ∃ start done : Builder,
      start.run (Build.aggregateWithin brokenHeaders levels 3 outer) = (.ok base, done) ∧
      [0] <:+ start.underway := by
  obtain ⟨hcalls, -, -⟩ := books_in_order brokenHeaders
  obtain ⟨horder, hwaiting⟩ := hcalls insideBuilder 6 1 none
  obtain ⟨hfails, hbase⟩ := broken_fails
  obtain ⟨base, hbase⟩ := Option.isSome_iff_exists.1 hbase
  refine ⟨hfails, horder.underway, hwaiting (.inl hfails), ?_⟩
  obtain ⟨-, start, done, ⟨levels, outer, rfl⟩, hrun, hinside, -⟩ := horder.aggregates.built 3 base rfl hbase
  exact ⟨levels, outer, base, start, done, hrun, hinside⟩

end HeaderModel
