/-
Requests.

A builder is asked for aggregates, for interfaces and for the whole module, in any order. A request that fails leaves
what was built until then in memory, so that later requests meet a builder with a history.
- `declaration_cases`: what taking an element can do, said once. It builds an aggregate, or an interface, or it does
  neither and touches no memory.
- `settled_afterAll`: between requests nothing is underway, nothing waits, and both memories are grounded.
-/
import HeaderModel.Proofs.Memory

namespace HeaderModel

variable {α β ι : Type}

/-- what a builder can be asked -/
inductive Request where
  | aggregate (id : String)
  | interface (id : String)
  | all
  deriving DecidableEq, Repr

namespace Builder

/-- the builder after a request, whether or not it succeeded -/
def after (h : Headers) (b : Builder) : Request → Builder
  | .aggregate id => (b.run (Build.aggregateWithId h id)).2
  | .interface id => (b.run (Build.interfaceWithId h id)).2
  | .all => (b.run (Build.allFiles h)).2

/-- the builder after a history of requests -/
def afterAll (h : Headers) (b : Builder) (requests : List Request) : Builder := requests.foldl (after h) b

theorem afterAll_append (h : Headers) (b : Builder) (rs ss : List Request) :
    b.afterAll h (rs ++ ss) = (b.afterAll h rs).afterAll h ss := List.foldl_append ..

end Builder

namespace Build

/-! ## Invariants of actions -/

/-- an action leads from builders with a property to builders with it, whether or not it succeeds -/
def Keeps (I : Builder → Prop) (x : Build α) : Prop := ∀ b, I b → I (b.run x).2

section Rules

variable {I : Builder → Prop}

theorem keeps_of (r : Except BuildError α) : Keeps I (of r) := by
  intro b hb
  rw [Builder.run_of]
  exact hb

theorem Keeps.bind {x : Build α} {f : α → Build β} (hx : Keeps I x) (hf : ∀ a, Keeps I (f a)) : Keeps I (x >>= f) := by
  intro b hb
  have hc := hx b hb
  rw [Builder.run_bind]
  generalize b.run x = p at hc ⊢
  obtain ⟨e | a, c⟩ := p
  · exact hc
  · exact hf a c hc

theorem Keeps.map {x : Build α} (hx : Keeps I x) (f : α → β) : Keeps I (f <$> x) := by
  intro b hb
  rw [Builder.run_map]
  exact hx b hb

theorem Keeps.forM {f : ι → Build PUnit} {xs : List ι} (hf : ∀ i ∈ xs, Keeps I (f i)) : Keeps I (xs.forM f) := by
  induction xs with
  | nil => exact fun _ hb => hb
  | cons i xs ih => exact (hf i List.mem_cons_self).bind fun _ => ih fun j hj => hf j (List.mem_cons_of_mem i hj)

theorem Keeps.foldlM {f : α → ι → Build α} {xs : List ι} (hf : ∀ i ∈ xs, ∀ s, Keeps I (f s i)) (s : α) :
    Keeps I (xs.foldlM f s) := by
  induction xs generalizing s with
  | nil => exact fun _ hb => hb
  | cons i xs ih =>
    rw [List.foldlM_cons]
    exact (hf i List.mem_cons_self s).bind fun s' => ih (fun j hj => hf j (List.mem_cons_of_mem i hj)) s'

theorem Steady.keeps {x : Build α} (hx : Steady x) (hI : ∀ b ns, I b → I (b.noting ns)) : Keeps I x := by
  obtain ⟨r, ns, hx⟩ := hx
  intro b hb
  rw [hx]
  exact hI b ns hb

end Rules

/-! ## Taking an element -/

/-- an action that touches only the numbers of nameless enumerations and the notices, and depends on nothing else -/
def Aside (x : Build α) : Prop :=
  ∃ f : List (String × Nat) → Except BuildError α × List (String × Nat) × List Notice,
    ∀ b : Builder, b.run x =
      ((f b.enumCounts).1, { b with enumCounts := (f b.enumCounts).2.1 }.noting (f b.enumCounts).2.2)

theorem Steady.aside {x : Build α} (hx : Steady x) : Aside x := by
  obtain ⟨r, ns, hx⟩ := hx
  exact ⟨fun counts => (r, counts, ns), hx⟩

theorem Aside.bind {x : Build α} {f : α → Build β} (hx : Aside x) (hf : ∀ a, Aside (f a)) : Aside (x >>= f) := by
  obtain ⟨g, hg⟩ := hx
  choose k hk using hf
  refine ⟨fun counts =>
    match g counts with
    | (.ok a, counts', ns) => ((k a counts').1, (k a counts').2.1, ns ++ (k a counts').2.2)
    | (.error e, counts', ns) => (.error e, counts', ns), fun b => ?_⟩
  rw [Builder.run_bind, hg b]
  dsimp only
  generalize g b.enumCounts = p
  rcases p with ⟨e | a, counts', ns⟩
  · rfl
  · simp only [hk]
    simp [Builder.noting]

theorem aside_numberedName (h : Headers) (n : Node) : Aside (numberedName h n) := by
  refine (steady_of _).aside.bind fun file => (steady_of _).aside.bind fun unit => ?_
  exact ⟨fun counts =>
    (.ok (Text.toUpperText unit ++ "_ENUM_" ++ toString ((counts.lookup (Text.asciiLower unit)).getD 0)),
      (Text.asciiLower unit, (counts.lookup (Text.asciiLower unit)).getD 0 + 1) :: counts, []), fun b => by
    simp [Builder.run_bind, Builder.run_map, Except.map]⟩

theorem aside_enumeration (h : Headers) (n : Node) : Aside (enumeration h n) := by
  unfold enumeration
  split_ifs
  · exact (aside_numberedName h n).bind fun _ => (steady_pure _).aside
  · exact ((steady_pure _).bind fun _ => steady_pure _).aside

theorem steady_initialized (h : Headers) (n : Node) : Steady (initialized h n) := by
  unfold initialized typeNameOf
  refine (steady_of _).bind fun _ => ((steady_of _).bind fun _ => (steady_report _).bind fun _ => steady_pure _).bind
    fun typeName => ?_
  dsimp only
  split_ifs
  · split
    · exact steady_pure _
    · exact (steady_report _).bind fun _ => steady_pure _
  · exact steady_pure _

/-- whether an element is read as an aggregate -/
def declaresAggregate (n : Node) : Bool := n.kind.isAggregate && (n.kind = .unionType || !n.hasAttr "abstract")

theorem initialized_ne_aggregate (h : Headers) (n : Node) (b : Builder) (a : Aggregate) :
    (b.run (initialized h n)).1 ≠ .ok (some (.aggregate a)) := by
  intro hrun
  obtain ⟨typeId, -, hrun⟩ := Builder.run_bind_eq_ok.1 hrun
  obtain ⟨typeName, -, hrun⟩ := Builder.run_bind_eq_ok.1 hrun
  dsimp only at hrun
  split_ifs at hrun
  · split at hrun
    · cases hrun
    · obtain ⟨_, -, hrun⟩ := Builder.run_bind_eq_ok.1 hrun
      cases hrun
  · cases hrun

/-- What taking an element does: it builds an aggregate or an interface, or touches no memory and declares no
aggregate. -/
theorem declaration_cases (h : Headers) (i : NodeId) :
    (declaresAggregate (h.document.node i) = true ∧
      declaration h i = (fun a => some (.aggregate a)) <$> aggregate h i) ∨
    (declaresAggregate (h.document.node i) = false ∧
      declaration h i = (fun a => some (.interface a)) <$> interface h i) ∨
    ((h.document.node i).kind.isAggregate = false ∧ Aside (declaration h i) ∧
      ∀ b : Builder, ∀ a, (b.run (declaration h i)).1 ≠ .ok (some (.aggregate a))) := by
  unfold declaration declaresAggregate
  dsimp only
  cases hk : (h.document.node i).kind with
  | enumeration =>
    refine .inr (.inr ⟨rfl, (aside_enumeration h _).bind fun _ => (steady_pure _).aside, fun b a hrun => ?_⟩)
    obtain ⟨_, -, hrun⟩ := Builder.run_bind_eq_ok.1 hrun
    cases hrun
  | function =>
    by_cases hinline : (h.document.node i).hasAttr "inline"
    · simp only [hinline, if_true]
      exact .inr (.inr ⟨rfl, (steady_pure _).aside, fun b a hrun => by cases hrun⟩)
    · simp only [hinline]
      refine .inr (.inr ⟨rfl, ((steady_signature h _).bind fun _ => steady_pure _).aside, fun b a hrun => ?_⟩)
      obtain ⟨_, -, hrun⟩ := Builder.run_bind_eq_ok.1 hrun
      cases hrun
  | classType | structType =>
    by_cases ha : (h.document.node i).hasAttr "abstract"
    · exact .inr (.inl ⟨by simp [ha], by simp only [ha, if_true]; rfl⟩)
    · exact .inl ⟨by simp [ha, Kind.isAggregate], by simp only [ha]; rfl⟩
  | unionType => exact .inl ⟨rfl, rfl⟩
  | variableDecl =>
    by_cases hinit : (h.document.node i).hasAttr "init"
    · simp only [hinit, if_true]
      exact .inr (.inr ⟨rfl, (steady_initialized h _).aside, initialized_ne_aggregate h _⟩)
    · simp only [hinit]
      exact .inr (.inr ⟨rfl, (steady_pure _).aside, fun b a hrun => by cases hrun⟩)
  | _ => exact .inr (.inr ⟨rfl, (steady_pure _).aside, fun b a hrun => by cases hrun⟩)

theorem declaration_aggregate {h : Headers} {i : NodeId} (hdeclares : declaresAggregate (h.document.node i) = true) :
    declaration h i = (fun a => some (.aggregate a)) <$> aggregate h i := by
  rcases declaration_cases h i with ⟨-, heq⟩ | ⟨hnot, -⟩ | ⟨hnot, -⟩
  · exact heq
  · rw [hdeclares] at hnot
    cases hnot
  · rw [declaresAggregate, hnot] at hdeclares
    cases hdeclares

end Build

namespace Builder

/-- two builders have the same memories, marks and waiting aggregates -/
structure SameWork (b c : Builder) : Prop where
  aggregates : c.aggregates = b.aggregates
  interfaces : c.interfaces = b.interfaces
  underway : c.underway = b.underway
  waiting : c.waiting = b.waiting

theorem SameWork.within {b c : Builder} (hbc : SameWork b c) : b.Within c :=
  ⟨fun _ _ hi => hbc.aggregates ▸ hi, fun _ _ hi => hbc.interfaces ▸ hi⟩

/-- a builder with one more declaration in a unit -/
def adding (b : Builder) (slot : Nat) (entry : Entry) : Builder := { b with module := b.module.add slot entry }

/-- a builder that reads a unit -/
def opening (b : Builder) (unit : String) : Builder :=
  { b with module := (b.module.withUnit unit).2, current := some (b.module.withUnit unit).1 }

theorem run_openUnit (b : Builder) (unit : String) :
    b.run (Build.openUnit unit) = (.ok (b.module.withUnit unit).1, b.opening unit) := by
  simp [Build.openUnit, run_bind, run_map, Except.map, opening]

end Builder

namespace Build

/-- What taking one declaration does with the outcome of building it. -/
theorem run_take (h : Headers) (slot : Nat) (unit : String) (i : NodeId) (b : Builder) :
    b.run (take h slot unit i) =
      match b.run (declaration h i) with
      | (.ok (some d), c) => (.ok ⟨⟩, c.adding slot ⟨some i, d⟩)
      | (.ok none, c) => (.ok ⟨⟩, c)
      | (.error e, c) =>
        if e.endsRun then (.error e, c)
        else (.ok ⟨⟩, c.noting [.skippedDeclaration unit (h.document.node i).name e]) := by
  unfold take
  rw [Builder.run_bind, Builder.run_outcome]
  rcases b.run (declaration h i) with ⟨e | _ | d, c⟩
  · dsimp only
    split_ifs <;> rfl
  · rfl
  · rfl

section Rules

variable {h : Headers} {I : Builder → Prop}

theorem declaration_keeps (hstill : ∀ b c, Builder.SameWork b c → I b → I c) (hagg : ∀ i, Keeps I (aggregate h i))
    (hint : ∀ i, Keeps I (interface h i)) (i : NodeId) : Keeps I (declaration h i) := by
  rcases declaration_cases h i with ⟨-, hd⟩ | ⟨-, hd⟩ | ⟨-, ⟨f, hf⟩, -⟩
  · rw [hd]
    exact (hagg i).map _
  · rw [hd]
    exact (hint i).map _
  · intro b hb
    rw [hf]
    exact hstill b _ ⟨rfl, rfl, rfl, rfl⟩ hb

theorem take_keeps (hstill : ∀ b c, Builder.SameWork b c → I b → I c) (hagg : ∀ i, Keeps I (aggregate h i))
    (hint : ∀ i, Keeps I (interface h i)) (slot : Nat) (unit : String) (i : NodeId) :
    Keeps I (take h slot unit i) := by
  intro b hb
  have hc := declaration_keeps hstill hagg hint i b hb
  rw [run_take]
  generalize b.run (declaration h i) = p at hc
  rcases p with ⟨e | _ | d, c⟩
  · dsimp only
    split_ifs
    · exact hc
    · exact hstill c _ ⟨rfl, rfl, rfl, rfl⟩ hc
  · exact hc
  · exact hstill c _ ⟨rfl, rfl, rfl, rfl⟩ hc

theorem file_keeps (hstill : ∀ b c, Builder.SameWork b c → I b → I c) (hagg : ∀ i, Keeps I (aggregate h i))
    (hint : ∀ i, Keeps I (interface h i)) (fileId : String) (elements : List NodeId) :
    Keeps I (file h fileId elements) := by
  refine (keeps_of _).bind fun unit => ?_
  split_ifs
  · split
    · exact fun _ hb => hb
    · refine Keeps.bind (fun b hb => ?_) fun slot => Keeps.forM fun i _ => take_keeps hstill hagg hint slot unit i
      rw [Builder.run_openUnit]
      exact hstill b _ ⟨rfl, rfl, rfl, rfl⟩ hb
  · exact fun _ hb => hb

/-- Building the module keeps what building elements keeps, if it is a matter of memories, marks and waiting
aggregates only. -/
theorem allFiles_keeps (hstill : ∀ b c, Builder.SameWork b c → I b → I c) (hagg : ∀ i, Keeps I (aggregate h i))
    (hint : ∀ i, Keeps I (interface h i)) : Keeps I (allFiles h) := by
  unfold allFiles
  exact (Keeps.forM fun f _ => file_keeps hstill hagg hint f.1 f.2).bind fun _ b hb =>
    hstill b _ ⟨rfl, rfl, rfl, rfl⟩ hb

end Rules

/-! ## What building one element leaves alone -/

/-- The body of an aggregate keeps what waiting and the building of other aggregates keep. -/
theorem aggregateBody_keeps {h : Headers} {I : Builder → Prop} (hI : Indifferent I)
    {build : NodeId → Option Enclosing → Build Aggregate} (hbuild : ∀ j outer, Keeps I (build j outer)) (n : Node)
    (outer : Option Enclosing) : Keeps I (aggregateBody h build n outer) := by
  refine Keeps.bind (Keeps.foldlM (fun id _ recorded => (keeps_of _).bind fun j => (hbuild j none).bind fun base =>
    (steady_pure _).keeps hI.noting) _) fun base => ?_
  refine Keeps.bind (Keeps.foldlM (fun f _ l => ?_) _) fun _ _ hb => hb
  refine ((steady_field h _ _).keeps hI.noting).bind fun f' => (keeps_of _).bind fun typeId =>
    (keeps_of _).bind fun j => ?_
  split_ifs
  · exact (hbuild j _).bind fun inner _ hb => hb
  · exact (hbuild j _).bind fun inner => Keeps.bind (fun b hb => hI.awaiting b _ hb) fun _ _ hb => hb
  · exact fun _ hb => hb

/-- The body of an interface keeps what the building of other interfaces keeps. -/
theorem interfaceBody_keeps {h : Headers} {I : Builder → Prop} (hnoting : ∀ b ns, I b → I (b.noting ns))
    {build : NodeId → Build Interface} (hbuild : ∀ j, Keeps I (build j)) (n : Node) :
    Keeps I (interfaceBody h build n) := by
  rw [interfaceBody_eq]
  refine (Keeps.foldlM (fun id _ sofar => ?_) _).bind fun inherited => (steady_interfaceRest h _ inherited).keeps hnoting
  rw [inherit_eq]
  exact (keeps_of _).bind fun j => (hbuild j).bind fun parent => (steady_inheritRest h sofar j parent).keeps hnoting

/-- Building an aggregate keeps what claiming, waiting, giving up and finishing keep. -/
theorem aggregateWithin_keeps {h : Headers} {I : Builder → Prop} (hI : Indifferent I)
    (hclaim : ∀ b i, I b → I (b.claiming i)) (hgive : ∀ b i mark, I b → I (b.abandoning i mark))
    (hfinish : ∀ b i built outer mark, I b → I (b.finishing i built outer mark)) (levels : Nat) (i : NodeId)
    (outer : Option Enclosing) : Keeps I (aggregateWithin h levels i outer) := by
  induction levels generalizing i outer with
  | zero => exact fun _ hb => hb
  | succ levels ih =>
    have hbody := aggregateBody_keeps (h := h) hI ih (h.document.node i) outer
    intro b hb
    rw [Builder.run_aggregateWithin]
    cases b.aggregates.lookup i with
    | some built => exact hb
    | none =>
      have hc := hbody (b.claiming i) (hclaim b i hb)
      dsimp only
      split_ifs
      · exact hb
      · generalize (b.claiming i).run (aggregateBody h (aggregateWithin h levels) (h.document.node i) outer) = p at hc ⊢
        rcases p with ⟨e | built, c⟩
        · exact hgive c i _ hc
        · exact hfinish c i built outer _ hc

/-- Building an interface keeps what claiming, releasing and concluding keep. -/
theorem interfaceWithin_keeps {h : Headers} {I : Builder → Prop} (hnoting : ∀ b ns, I b → I (b.noting ns))
    (hclaim : ∀ b i, I b → I (b.claiming i)) (hrelease : ∀ b i, I b → I (b.releasing i))
    (hconclude : ∀ b i built, I b → I (b.concluding i built)) (levels : Nat) (i : NodeId) :
    Keeps I (interfaceWithin h levels i) := by
  induction levels generalizing i with
  | zero => exact fun _ hb => hb
  | succ levels ih =>
    have hbody := interfaceBody_keeps (h := h) hnoting ih (h.document.node i)
    intro b hb
    rw [Builder.run_interfaceWithin]
    cases b.interfaces.lookup i with
    | some built => exact hb
    | none =>
      have hc := hbody (b.claiming i) (hclaim b i hb)
      dsimp only
      split_ifs
      · exact hb
      · generalize (b.claiming i).run (interfaceBody h (interfaceWithin h levels) (h.document.node i)) = p at hc ⊢
        rcases p with ⟨e | built, c⟩
        · exact hrelease c i hc
        · exact hconclude c i built hc

/-- aggregates do not touch the memory of interfaces -/
theorem aggregateWithin_interfaces (h : Headers) (levels : Nat) (i : NodeId) (outer : Option Enclosing) (b : Builder) :
    (b.run (aggregateWithin h levels i outer)).2.interfaces = b.interfaces :=
  aggregateWithin_keeps (I := fun c => c.interfaces = b.interfaces) ⟨fun _ _ hc => hc, fun _ _ hc => hc⟩
    (fun _ _ hc => hc) (fun _ _ _ hc => hc) (fun _ _ _ _ _ hc => hc) levels i outer b rfl

/-- interfaces touch neither the memory of aggregates nor what waits, and declare nothing -/
theorem interfaceWithin_frame (h : Headers) (levels : Nat) (i : NodeId) (b : Builder) :
    (b.run (interfaceWithin h levels i)).2.aggregates = b.aggregates ∧
    (b.run (interfaceWithin h levels i)).2.waiting = b.waiting ∧
    (b.run (interfaceWithin h levels i)).2.module = b.module :=
  interfaceWithin_keeps
    (I := fun c => c.aggregates = b.aggregates ∧ c.waiting = b.waiting ∧ c.module = b.module)
    (fun _ _ hc => hc) (fun _ _ hc => hc) (fun _ _ hc => hc) (fun _ _ _ hc => hc) levels i b ⟨rfl, rfl, rfl⟩

/-- an aggregate that is not nested leaves nothing waiting that did not wait before -/
theorem aggregate_waiting (h : Headers) (i : NodeId) {b : Builder} (hb : b.waiting = []) :
    (b.run (aggregate h i)).2.waiting = [] := by
  unfold aggregate
  rw [Builder.run_aggregateWithin]
  cases b.aggregates.lookup i with
  | some built => exact hb
  | none =>
    dsimp only
    split_ifs
    · exact hb
    · rcases (b.claiming i).run (aggregateBody h (aggregateWithin h _) (h.document.node i) none) with ⟨e | built, c⟩
      all_goals simp [Builder.abandoning, Builder.finishing, hb]

end Build

/-! ## Between requests -/

/-- a builder between requests: what it remembers is in order, and nothing is underway or waits -/
structure Settled (h : Headers) (b : Builder) : Prop where
  aggregates : Grounded (MadeAggregate h) b.aggregates
  interfaces : Grounded (MadeInterface h) b.interfaces
  underway : b.underway = []
  waiting : b.waiting = []

namespace Settled

variable {h : Headers} {b : Builder}

theorem aggregatesSound (hb : Settled h b) : b.AggregatesSound h :=
  ⟨hb.aggregates, fun _ hi => absurd (hb.underway ▸ hi) List.not_mem_nil⟩

theorem interfacesSound (hb : Settled h b) : b.InterfacesSound h :=
  ⟨hb.interfaces, fun _ hi => absurd (hb.underway ▸ hi) List.not_mem_nil⟩

end Settled

theorem settled_new (h : Headers) (m : Module) : Settled h (Builder.new m) := ⟨.nil, .nil, rfl, rfl⟩

theorem settled_aggregate {h : Headers} (i : NodeId) : Build.Keeps (Settled h) (Build.aggregate h i) := by
  intro b hb
  obtain ⟨hsound, hgrows, -, -⟩ := Build.aggregate_recounts i b hb.aggregatesSound
  refine ⟨hsound.grounded, ?_, hgrows.underway.trans hb.underway, Build.aggregate_waiting h i hb.waiting⟩
  rw [Build.aggregate, Build.aggregateWithin_interfaces]
  exact hb.interfaces

theorem settled_interface {h : Headers} (i : NodeId) : Build.Keeps (Settled h) (Build.interface h i) := by
  intro b hb
  obtain ⟨hsound, hgrows, -, -⟩ := Build.interface_recounts i b hb.interfacesSound
  obtain ⟨haggregates, hwaiting, -⟩ := Build.interfaceWithin_frame h _ i b
  exact ⟨haggregates ▸ hb.aggregates, hsound.grounded, hgrows.underway.trans hb.underway, hwaiting.trans hb.waiting⟩

theorem Settled.sameWork {h : Headers} {b c : Builder} (hb : Settled h b) (hbc : Builder.SameWork b c) : Settled h c :=
  ⟨hbc.aggregates ▸ hb.aggregates, hbc.interfaces ▸ hb.interfaces, hbc.underway.trans hb.underway,
    hbc.waiting.trans hb.waiting⟩

theorem settled_declaration {h : Headers} (i : NodeId) : Build.Keeps (Settled h) (Build.declaration h i) :=
  Build.declaration_keeps (fun _ _ hbc hb => hb.sameWork hbc) settled_aggregate settled_interface i

theorem settled_take {h : Headers} (slot : Nat) (unit : String) (i : NodeId) :
    Build.Keeps (Settled h) (Build.take h slot unit i) :=
  Build.take_keeps (fun _ _ hbc hb => hb.sameWork hbc) settled_aggregate settled_interface slot unit i

theorem settled_file {h : Headers} (fileId : String) (elements : List NodeId) :
    Build.Keeps (Settled h) (Build.file h fileId elements) :=
  Build.file_keeps (fun _ _ hbc hb => hb.sameWork hbc) settled_aggregate settled_interface fileId elements

theorem settled_allFiles {h : Headers} : Build.Keeps (Settled h) (Build.allFiles h) :=
  Build.allFiles_keeps (fun _ _ hbc hb => hb.sameWork hbc) settled_aggregate settled_interface

/-- one request keeps a builder settled -/
theorem Settled.after {h : Headers} {b : Builder} (hb : Settled h b) (r : Request) : Settled h (b.after h r) := by
  cases r with
  | aggregate id => exact ((Build.keeps_of _).bind fun i => settled_aggregate i) b hb
  | interface id => exact ((Build.keeps_of _).bind fun i => settled_interface i) b hb
  | all => exact settled_allFiles b hb

/-- **Between requests a builder is settled,** whatever was asked before and however it ended. -/
theorem Settled.afterAll {h : Headers} {b : Builder} (hb : Settled h b) (requests : List Request) :
    Settled h (b.afterAll h requests) := by
  induction requests generalizing b with
  | nil => exact hb
  | cons r requests ih => exact ih (hb.after r)

theorem settled_afterAll (h : Headers) (m : Module) (requests : List Request) :
    Settled h ((Builder.new m).afterAll h requests) := (settled_new h m).afterAll requests

end HeaderModel
