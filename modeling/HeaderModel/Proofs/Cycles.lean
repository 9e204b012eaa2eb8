/-
Cycles.

Building ends, and it fails for a cycle exactly where there is one.
- `Grounded.acc`: nothing that is remembered leads to a cycle, since it was made from what was remembered before.
- `aggregateAbove_inStep`, `interfaceAbove_inStep`: the recursion never gets below as many levels as there are elements,
  so it does not matter what would happen there.
- `cycles_found_exactly`: after any requests, a lookup ends; if it succeeds, its element leads to no cycle, and if it
  blames an element for a cycle, that element lies on one to which its element leads.
-/
import HeaderModel.Proofs.Blame
import HeaderModel.Proofs.Lookups

namespace HeaderModel

/-! ## What is remembered leads to no cycle -/

section Memory

variable {α : Type} {Made : List (NodeId × α) → NodeId → α → Prop} {memory : List (NodeId × α)}
  {needs : NodeId → NodeId → Prop} {i : NodeId}

/-- if all that an element needs was there before it was made, what is remembered leads to no infinite chain of needs -/
theorem Grounded.acc (hm : Grounded Made memory)
    (hneeds : ∀ older k a, Made older k a → ∀ j, needs k j → (older.lookup j).isSome)
    (hi : (memory.lookup i).isSome) : Acc (fun j k => needs k j) i := by
  induction hm generalizing i with
  | nil => cases hi
  | @cons memory k a _ _ hmade ih =>
    by_cases hik : i = k
    · subst hik
      exact ⟨i, fun j hij => ih (hneeds memory i a hmade j hij)⟩
    · rw [List.lookup_cons, beq_false_of_ne hik] at hi
      exact ih hi

end Memory

namespace Build

variable {h : Headers} {c : Builder}

/-- an element that was asked for by its id was there -/
theorem isSome_of_recalled {α β : Type} {memory : List (NodeId × α)} {id : String} {j : NodeId}
    {f : NodeId → α → Build β} {t : β} (hj : h.document.placeOf id = .ok j)
    (hrun : (c.run (of (h.document.placeOf id) >>= fun j => recallFrom memory j >>= f j)).1 = .ok t) :
    (memory.lookup j).isSome := by
  rw [hj] at hrun
  obtain ⟨j', hj', hrest⟩ := Builder.run_bind_eq_ok.1 hrun
  obtain rfl := Except.ok.inj hj'
  obtain ⟨a, ha, -⟩ := Builder.run_bind_eq_ok.1 hrest
  exact Option.isSome_of_eq_some (run_recallFrom_eq_ok.1 ha)

/-- what an aggregate needs was there before it was made -/
theorem madeAggregate_needs {older : List (NodeId × Aggregate)} {i : NodeId} {a : Aggregate}
    (hmade : MadeAggregate h older i a) {j : NodeId} (hij : h.document.Needs i j) : (older.lookup j).isSome := by
  rcases hij with ⟨id, hid, hj⟩ | hnests
  · obtain ⟨outer, -, hbody⟩ := hmade
    obtain ⟨base, hbase, -⟩ := Builder.run_bind_eq_ok.1 (hbody (.new (.empty "")))
    obtain ⟨c', s, t, hstep⟩ := Builder.foldlM_ran hbase id hid
    exact isSome_of_recalled hj hstep
  · exact hmade.nested hnests

/-- what an interface inherits was there before it was made -/
theorem madeInterface_inherits {older : List (NodeId × Interface)} {i : NodeId} {built : Interface}
    (hmade : MadeInterface h older i built) {j : NodeId} (hij : h.document.Inherits i j) :
    (older.lookup j).isSome := by
  obtain ⟨id, hid, hj⟩ := hij
  have hrun := hmade (.new (.empty ""))
  rw [interfaceBody_eq] at hrun
  obtain ⟨inherited, hbases, -⟩ := Builder.run_bind_eq_ok.1 hrun
  obtain ⟨c', s, t, hstep⟩ := Builder.foldlM_ran hbases id hid
  exact isSome_of_recalled hj hstep

/-- an aggregate that was built leads to no cycle -/
theorem acyclic_of_aggregate (hc : Settled h c) {i : NodeId} {a : Aggregate} (hrun : (c.run (aggregate h i)).1 = .ok a)
    {x : NodeId} (hx : h.document.Reaches i x) : ¬Relation.TransGen h.document.Needs x x := by
  obtain ⟨hsound, -⟩ := aggregate_recounts i c hc.aggregatesSound
  have hi := aggregate_remembers i c hc.aggregatesSound a hrun
  have hacc := hsound.grounded.acc (fun _ _ _ hmade _ => madeAggregate_needs hmade) (Option.isSome_of_eq_some hi)
  exact not_transGen_of_acc hacc hx

/-- an interface that was built leads to no cycle -/
theorem acyclic_of_interface (hc : Settled h c) {i : NodeId} {a : Interface} (hrun : (c.run (interface h i)).1 = .ok a)
    {x : NodeId} (hx : Relation.ReflTransGen h.document.Inherits i x) :
    ¬Relation.TransGen h.document.Inherits x x := by
  obtain ⟨hsound, -, -, hok⟩ := interface_recounts i c hc.interfacesSound
  have hi := run_recallFrom_eq_ok.1 (hok a hrun _ (.refl _) c)
  have hacc := hsound.grounded.acc (fun _ _ _ hmade _ => madeInterface_inherits hmade) (Option.isSome_of_eq_some hi)
  exact not_transGen_of_acc hacc hx

end Build

/-! ## The recursion ends -/

namespace Build

/-- building an aggregate down to a number of levels, with anything below them -/
def aggregateAbove (h : Headers) (below : NodeId → Option Enclosing → Build Aggregate) :
    Nat → NodeId → Option Enclosing → Build Aggregate
  | 0 => below
  | levels + 1 => aggregateOnce h (aggregateAbove h below levels)

/-- building an interface down to a number of levels, with anything below them -/
def interfaceAbove (h : Headers) (below : NodeId → Build Interface) : Nat → NodeId → Build Interface
  | 0 => below
  | levels + 1 => interfaceOnce h (interfaceAbove h below levels)

/-- two builders are the same, inside some elements -/
def Inside (path : List NodeId) (c b : Builder) : Prop := c = b ∧ b.underway = path

theorem lasting_inside (path : List NodeId) : Lasting (fun _ => Eq) (Inside path) := by
  refine ⟨fun c b _ hcb => ?_, fun c b e e' he hcb => ?_⟩
  · obtain ⟨rfl, hb⟩ := hcb
    exact ⟨rfl, hb⟩
  · obtain ⟨rfl, hb⟩ := hcb
    obtain ⟨i, a, a', rfl, rfl, halike⟩ := he
    rw [halike.eq]
    exact ⟨rfl, hb⟩

variable {h : Headers} {path : List NodeId} {levels : Nat}

/-- **Building an aggregate never gets below the levels that are left.** -/
theorem aggregateAbove_inStep (below : NodeId → Option Enclosing → Build Aggregate) (k : Nat)
    (hp : h.document.Path path levels) (i : NodeId) (outer : Option Enclosing) :
    InStep False (Inside path) (Aggregate.Alike (fun _ => Eq) i) (aggregateAbove h below (levels + k) i outer)
      (aggregateWithin h levels i outer) := by
  induction levels generalizing path i outer with
  | zero => exact absurd rfl hp.levels_ne_zero
  | succ levels ih =>
    rintro c b ⟨rfl, hc⟩
    rw [Nat.succ_add, aggregateAbove, Builder.run_aggregateOnce, Builder.run_aggregateWithin]
    cases c.aggregates.lookup i with
    | some a => exact .ok (.rfl fun _ _ => rfl) ⟨rfl, hc⟩
    | none =>
      by_cases hi : i ∈ c.underway
      · simp only [hi, if_true]
        exact .error ⟨rfl, hc⟩
      · have hbody : InStep False (Inside (i :: path)) (Aggregate.Alike (fun _ => Eq) i)
            (aggregateBody h (aggregateAbove h below (levels + k)) (h.document.node i) outer)
            (aggregateBody h (aggregateWithin h levels) (h.document.node i) outer) := by
          refine aggregateBody_inStep (lasting_inside _) rfl (fun j hj => ?_) fun j _ hj => ?_
          · exact ih (hp.cons (hc ▸ hi) (Document.lt_size_of_listsBase hj)) j none
          · exact ih (hp.cons (hc ▸ hi) (Document.lt_size_of_nests hj)) j _
        have hagree := hbody (c.claiming i) (c.claiming i) ⟨rfl, congrArg (i :: ·) hc⟩
        simp only [hi, if_false]
        generalize (c.claiming i).run (aggregateBody h (aggregateAbove h below (levels + k)) (h.document.node i) outer)
          = p, (c.claiming i).run (aggregateBody h (aggregateWithin h levels) (h.document.node i) outer) = q at hagree
        cases hagree with
        | ok halike hcb =>
          obtain ⟨rfl, hd⟩ := hcb
          refine .ok halike ⟨by rw [halike.eq], ?_⟩
          exact (congrArg (·.erase i) hd).trans (List.erase_cons_head ..)
        | error hcb =>
          obtain ⟨rfl, hd⟩ := hcb
          exact .error ⟨rfl, (congrArg (·.erase i) hd).trans (List.erase_cons_head ..)⟩
        | lenient hl => exact hl.elim

/-- **Building an interface never gets below the levels that are left.** -/
theorem interfaceAbove_inStep (below : NodeId → Build Interface) (k : Nat) (hp : h.document.Path path levels)
    (i : NodeId) :
    InStep False (Inside path) Eq (interfaceAbove h below (levels + k) i) (interfaceWithin h levels i) := by
  induction levels generalizing path i with
  | zero => exact absurd rfl hp.levels_ne_zero
  | succ levels ih =>
    rintro c b ⟨rfl, hc⟩
    rw [Nat.succ_add, interfaceAbove, Builder.run_interfaceOnce, Builder.run_interfaceWithin]
    cases c.interfaces.lookup i with
    | some a => exact .ok rfl ⟨rfl, hc⟩
    | none =>
      by_cases hi : i ∈ c.underway
      · simp only [hi, if_true]
        exact .error ⟨rfl, hc⟩
      · have hbody : InStep False (Inside (i :: path)) Eq
            (interfaceBody h (interfaceAbove h below (levels + k)) (h.document.node i))
            (interfaceBody h (interfaceWithin h levels) (h.document.node i)) :=
          interfaceBody_inStep (lasting_inside _).noting fun j hj =>
            ih (hp.cons (hc ▸ hi) (Document.lt_size_of_listsBase hj)) j
        have hagree := hbody (c.claiming i) (c.claiming i) ⟨rfl, congrArg (i :: ·) hc⟩
        simp only [hi, if_false]
        generalize (c.claiming i).run (interfaceBody h (interfaceAbove h below (levels + k)) (h.document.node i)) = p,
          (c.claiming i).run (interfaceBody h (interfaceWithin h levels) (h.document.node i)) = q at hagree
        cases hagree with
        | ok heq hcb =>
          obtain ⟨rfl, hd⟩ := hcb
          subst heq
          exact .ok rfl ⟨rfl, (congrArg (·.erase i) hd).trans (List.erase_cons_head ..)⟩
        | error hcb =>
          obtain ⟨rfl, hd⟩ := hcb
          exact .error ⟨rfl, (congrArg (·.erase i) hd).trans (List.erase_cons_head ..)⟩
        | lenient hl => exact hl.elim

/-- the same results, and the same builders after it -/
theorem Agree.eq {α : Type} {Q : α → α → Prop} {p q : Except BuildError α × Builder}
    (hagree : Agree False (Inside path) Q p q) (hQ : ∀ a a', Q a a' → a = a') : p = q := by
  cases hagree with
  | ok ha hcb => rw [hQ _ _ ha, hcb.1]
  | error hcb => rw [hcb.1]
  | lenient hl => exact hl.elim

end Build

/-! ## Lookups -/

/-- What an answer says about cycles is right, and there is one. If there is an aggregate or interface, its element leads
to no cycle. If an element is blamed for a cycle, it lies on one to which the element leads. -/
structure Document.Exact {α : Type} (d : Document) (needs : NodeId → NodeId → Prop) (id : String)
    (answer : Except BuildError α) : Prop where
  ends : answer ≠ .error (.halted .endless)
  acyclic : ∀ a, answer = .ok a →
    ∃ i, d.placeOf id = .ok i ∧ ∀ x, Relation.ReflTransGen needs i x → ¬Relation.TransGen needs x x
  blamed : ∀ blamed name, answer = .error (.cycle blamed name) →
    ∃ i x, d.placeOf id = .ok i ∧ d.Placed x ∧ (d.node x).id = blamed ∧ (d.node x).name = name ∧
      Relation.ReflTransGen needs i x ∧ Relation.TransGen needs x x

/-- Lookups of an id end. No type chain is followed forever, and it does not matter what is below more levels than there
are elements, because no recursion gets there. -/
structure Headers.LookupsEnd (h : Headers) (c : Builder) (id : String) : Prop where
  chains : ∀ typeId t, (h.document.follow h.scope.boundNames typeId t).outcome ≠ .error (.halted .endless)
  aggregate : ∀ below levels, h.document.nodes.size < levels →
    c.run (Build.of (h.document.placeOf id) >>= fun i => Build.aggregateAbove h below levels i none) =
      c.run (Build.aggregateWithId h id)
  interface : ∀ below levels, h.document.nodes.size < levels →
    c.run (Build.of (h.document.placeOf id) >>= Build.interfaceAbove h below levels) =
      c.run (Build.interfaceWithId h id)

section Lookups

variable {h : Headers} {c : Builder}

theorem lookupsEnd (hends : h.document.ChainsEnd h.scope.boundNames) (hc : c.underway = []) (id : String) :
    h.LookupsEnd c id := by
  refine ⟨fun typeId t herr => ?_, fun below levels hlevels => ?_, fun below levels hlevels => ?_⟩
  · exact BuildError.ne_halted (Document.follow_breaks hends herr) _ rfl
  · obtain ⟨k, rfl⟩ : ∃ k, levels = h.document.nodes.size + 1 + k := Nat.exists_eq_add_of_le hlevels
    rw [Build.aggregateWithId, Builder.run_bind, Builder.run_bind, Builder.run_of]
    cases h.document.placeOf id with
    | error e => rfl
    | ok i =>
      have hagree := Build.aggregateAbove_inStep below k (.start h.document) i none c c ⟨rfl, hc⟩
      exact hagree.eq fun _ _ ha => ha.eq
  · obtain ⟨k, rfl⟩ : ∃ k, levels = h.document.nodes.size + 1 + k := Nat.exists_eq_add_of_le hlevels
    rw [Build.interfaceWithId, Builder.run_bind, Builder.run_bind, Builder.run_of]
    cases h.document.placeOf id with
    | error e => rfl
    | ok i =>
      have hagree := Build.interfaceAbove_inStep below k (.start h.document) i c c ⟨rfl, hc⟩
      exact hagree.eq fun _ _ ha => ha

/-- a lookup answers exactly if success means that there is no cycle, and an error blames rightly -/
theorem exact_lookup {α : Type} {d : Document} {needs : NodeId → NodeId → Prop} {f : NodeId → Build α}
    (hneeds : ∀ p k, needs p k → d.Needs p k)
    (hok : ∀ i a, (c.run (f i)).1 = .ok a → ∀ x, Relation.ReflTransGen needs i x → ¬Relation.TransGen needs x x)
    (herr : ∀ i e, (c.run (f i)).1 = .error e → d.Blames needs i e) (id : String) :
    d.Exact needs id (c.run (Build.of (d.placeOf id) >>= f)).1 := by
  rw [Builder.run_bind, Builder.run_of]
  cases hi : d.placeOf id with
  | error e =>
    have hplain := Document.isPlain_of_placeOf hi
    refine ⟨fun hrun => BuildError.ne_halted hplain _ (Except.error.inj hrun), fun a hrun => (nomatch hrun), fun blamed name hrun => ?_⟩
    rw [Except.error.inj hrun] at hplain
    cases hplain
  | ok i =>
    refine ⟨fun hrun => (herr i _ hrun).ends rfl, fun a hrun => ⟨i, hi, hok i a hrun⟩, fun blamed name hrun => ?_⟩
    obtain ⟨x, hid, hname, hx, hloop⟩ := (herr i _ hrun).blamed blamed name rfl
    have hreached : d.Reaches i x := Relation.ReflTransGen.mono hneeds _ _ hx
    exact ⟨i, x, hi, hreached.placed ⟨id, hi⟩, hid, hname, hx, hloop⟩

end Lookups

/-- **Cycles are found exactly, and building always ends.** If all type chains end, then after any requests, successful
or not, looking up an aggregate or an interface ends. If it succeeds, the element leads to no cycle along what it needs:
for an aggregate, the bases that it lists and the aggregates that are nested in it as types of members; for an interface,
the bases. If it blames an element for a cycle, that element lies on one to which the element leads. -/
theorem cycles_found_exactly (h : Headers) (m : Module) (requests : List Request) (id : String)
    (hends : h.document.ChainsEnd h.scope.boundNames) :
    h.LookupsEnd ((Builder.new m).afterAll h requests) id ∧
    h.document.Exact h.document.Needs id
      (((Builder.new m).afterAll h requests).run (Build.aggregateWithId h id)).1 ∧
    h.document.Exact h.document.Inherits id
      (((Builder.new m).afterAll h requests).run (Build.interfaceWithId h id)).1 := by
  have hc := settled_afterAll h m requests
  generalize (Builder.new m).afterAll h requests = c at hc
  refine ⟨lookupsEnd hends hc.underway id, ?_, ?_⟩
  · refine exact_lookup (fun _ _ hk => hk) (fun i a hrun x hx => Build.acyclic_of_aggregate hc hrun hx) ?_ id
    exact fun i => (Build.aggregateWithin_blames hends (.start _ _ i) none c hc.underway).2
  · refine exact_lookup (fun _ _ hk => .inl hk) (fun i a hrun x hx => Build.acyclic_of_interface hc hrun hx) ?_ id
    exact fun i => (Build.interfaceWithin_blames hends (.start _ _ i) c hc.underway).2

/-! ## A diamond and a cycle -/

/-- an aggregate with a base that has a common base twice over, and another base that is inherited by an aggregate
nested in its own base -/
def cyclicReading : Markup.Reading :=
  ⟨[.opens "CastXML" (some []) false,
    .opens "Struct" (some [("id", "a"), ("name", "Top")]) true,
    .opens "Struct" (some [("id", "l"), ("name", "Left"), ("bases", "a")]) true,
    .opens "Struct" (some [("id", "r"), ("name", "Right"), ("bases", "a a")]) true,
    .opens "Struct" (some [("id", "d"), ("name", "Diamond"), ("bases", "l r")]) true,
    .opens "Struct" (some [("id", "s"), ("name", "Looped"), ("bases", "t")]) true,
    .opens "Struct" (some [("id", "t"), ("name", "Holder")]) true,
    .opens "Field" (some [("id", "m1"), ("name", "part"), ("type", "u"), ("context", "t")]) true,
    .opens "Struct" (some [("id", "u"), ("name", "Part"), ("bases", "s"), ("context", "t")]) true,
    .opens "Struct" (some [("id", "x"), ("name", "Outer"), ("bases", "d s")]) true,
    .opens "PointerType" (some [("id", "p"), ("type", "x")]) true,
    .opens "Field" (some [("id", "m2"), ("name", "back"), ("type", "p"), ("context", "d")]) true,
    .closes], false⟩

/-- its document, with nothing in scope -/
def cyclicHeaders : Headers := ⟨((Document.ofReading cyclicReading).toOption).getD (.ofRoot "" []), .empty⟩

/-- a member that points back is no cycle and a base that is met again is none; a nested aggregate that inherits is one,
and it is not the aggregate that was asked for that is blamed -/
theorem diamond_beside_cycle :
    cyclicHeaders.document.ChainsEnd cyclicHeaders.scope.boundNames ∧
    (((Builder.new (.empty "M")).afterAll cyclicHeaders [.aggregate "x", .all]).run
        (Build.aggregateWithId cyclicHeaders "x")).1 = .error (.cycle "s" "Looped") ∧
    cyclicHeaders.document.Exact cyclicHeaders.document.Needs "x"
      (((Builder.new (.empty "M")).afterAll cyclicHeaders [.aggregate "x", .all]).run
        (Build.aggregateWithId cyclicHeaders "x")).1 ∧
    (((Builder.new (.empty "M")).afterAll cyclicHeaders [.aggregate "x", .all]).run
        (Build.aggregateWithId cyclicHeaders "d")).1.isOk = true ∧
    cyclicHeaders.document.Exact cyclicHeaders.document.Needs "d"
      (((Builder.new (.empty "M")).afterAll cyclicHeaders [.aggregate "x", .all]).run
        (Build.aggregateWithId cyclicHeaders "d")).1 := by
  have hends : cyclicHeaders.document.ChainsEnd cyclicHeaders.scope.boundNames :=
    Document.chainsEnd_of_back (by decide +kernel)
  have hblamed : (((Builder.new (.empty "M")).afterAll cyclicHeaders [.aggregate "x", .all]).run
      (Build.aggregateWithId cyclicHeaders "x")).1.map (fun _ => ()) = .error (.cycle "s" "Looped") := by
    decide +kernel
  refine ⟨hends, eq_error_of_map hblamed, ?_, by decide +kernel, ?_⟩
  · exact (cycles_found_exactly cyclicHeaders (.empty "M") [.aggregate "x", .all] "x" hends).2.1
  · exact (cycles_found_exactly cyclicHeaders (.empty "M") [.aggregate "x", .all] "d" hends).2.1

end HeaderModel
