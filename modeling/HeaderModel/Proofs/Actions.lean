/-
Running builder actions.

The run of a composed action is the composition of the runs (`run_bind` and its like), so what an action does to a
builder can be computed.
- `Build.Steady`: most actions only look things up and report. Their result is the same for every builder, and they
  change nothing but the notices.
- `run_aggregateWithin`, `run_interfaceWithin`: what building an element does, said once. It answers from memory,
  refuses an element that is already being built, or runs the body and remembers or gives up its result.
-/
import Mathlib.Tactic
import HeaderModel.Build.Assembly

namespace HeaderModel

variable {α β : Type}

/-- what was computed from the result of a run, is so for a result that there is -/
theorem exists_ok_of_computed {ε : Type} {x : Except ε α} {f : α → β} {v : β} (hcomputed : x.toOption.map f = some v) :
    ∃ a, x = .ok a ∧ f a = v := by
  cases x with
  | error e => cases hcomputed
  | ok a => exact ⟨a, rfl, Option.some.inj hcomputed⟩

/-- an error is left as it is when something is computed from results -/
theorem eq_error_of_map {ε : Type} {x : Except ε α} {f : α → β} {e : ε} (herr : x.map f = .error e) : x = .error e := by
  cases x with
  | error e' =>
    obtain rfl := Except.error.inj herr
    rfl
  | ok a => cases herr

/-! ## Runs of composed actions -/

namespace Builder

@[simp] theorem run_pure (b : Builder) (a : α) : b.run (pure a : Build α) = (.ok a, b) := rfl

@[simp] theorem run_throw (b : Builder) (e : BuildError) : b.run (throw e : Build α) = (.error e, b) := rfl

@[simp] theorem run_get (b : Builder) : b.run (get : Build Builder) = (.ok b, b) := rfl

@[simp] theorem run_set (b c : Builder) : b.run (set c : Build PUnit) = (.ok ⟨⟩, c) := rfl

@[simp] theorem run_modify (b : Builder) (f : Builder → Builder) :
    b.run (modify f : Build PUnit) = (.ok ⟨⟩, f b) := rfl

@[simp] theorem run_outcome (b : Builder) (x : Build α) :
    b.run (Build.outcome x) = (.ok (b.run x).1, (b.run x).2) := rfl

@[simp] theorem run_of (b : Builder) (r : Except BuildError α) : b.run (Build.of r) = (r, b) := by
  cases r <;> rfl

theorem run_bind (b : Builder) (x : Build α) (f : α → Build β) :
    b.run (x >>= f) =
      match b.run x with
      | (.ok a, c) => c.run (f a)
      | (.error e, c) => (.error e, c) := by
  show StateT.run (ExceptT.run x >>= ExceptT.bindCont f) b = _
  unfold Builder.run
  rw [StateT.run_bind]
  show (match StateT.run (ExceptT.run x) b with
    | (r, c) => StateT.run (ExceptT.bindCont f r) c) = _
  rcases StateT.run (ExceptT.run x) b with ⟨_ | a, c⟩ <;> rfl

theorem run_map (b : Builder) (x : Build α) (f : α → β) : b.run (f <$> x) = ((b.run x).1.map f, (b.run x).2) := by
  rw [map_eq_pure_bind, run_bind]
  rcases b.run x with ⟨_ | a, c⟩ <;> rfl

theorem run_bind_ok {b c : Builder} {x : Build α} {a : α} (hx : b.run x = (.ok a, c)) (f : α → Build β) :
    b.run (x >>= f) = c.run (f a) := by
  rw [run_bind, hx]

theorem run_bind_error {b c : Builder} {x : Build α} {e : BuildError} (hx : b.run x = (.error e, c))
    (f : α → Build β) : b.run (x >>= f) = (.error e, c) := by
  rw [run_bind, hx]

theorem run_bind_eq_ok {b : Builder} {x : Build α} {f : α → Build β} {r : β} :
    (b.run (x >>= f)).1 = .ok r ↔ ∃ a, (b.run x).1 = .ok a ∧ ((b.run x).2.run (f a)).1 = .ok r := by
  rw [run_bind]
  rcases b.run x with ⟨e | a, c⟩
  · simp
  · simp

theorem run_bind_eq_error {b : Builder} {x : Build α} {f : α → Build β} {e : BuildError} :
    (b.run (x >>= f)).1 = .error e ↔
      (b.run x).1 = .error e ∨ ∃ a, (b.run x).1 = .ok a ∧ ((b.run x).2.run (f a)).1 = .error e := by
  rw [run_bind]
  rcases b.run x with ⟨e' | a, c⟩
  · simp
  · simp

/-- a fold that fails does so at one of its elements -/
theorem run_foldlM_eq_error {f : β → α → Build β} {xs : List α} {b : Builder} {s : β} {e : BuildError}
    (hrun : (b.run (xs.foldlM f s)).1 = .error e) :
    ∃ before x after t, xs = before ++ x :: after ∧ (b.run (before.foldlM f s)).1 = .ok t ∧
      ((b.run (before.foldlM f s)).2.run (f t x)).1 = .error e := by
  induction xs generalizing b s with
  | nil => cases hrun
  | cons x xs ih =>
    rw [List.foldlM_cons] at hrun
    rcases run_bind_eq_error.1 hrun with hfails | ⟨t, hok, hrest⟩
    · exact ⟨[], x, xs, s, rfl, rfl, hfails⟩
    · obtain ⟨before, y, after, u, rfl, hbefore, hfails⟩ := ih hrest
      have hfirst : b.run (f s x) = (.ok t, (b.run (f s x)).2) := Prod.ext hok rfl
      refine ⟨x :: before, y, after, u, rfl, ?_, ?_⟩
      · rw [List.foldlM_cons, run_bind_ok hfirst]
        exact hbefore
      · rw [List.foldlM_cons, run_bind_ok hfirst]
        exact hfails

/-- a builder with more to report -/
def noting (b : Builder) (ns : List Notice) : Builder := { b with notices := b.notices ++ ns }

@[simp] theorem run_report (b : Builder) (ns : List Notice) : b.run (Build.report ns) = (.ok ⟨⟩, b.noting ns) := rfl

@[simp] theorem noting_nil (b : Builder) : b.noting [] = b := by
  simp [noting]

@[simp] theorem noting_noting (b : Builder) (ms ns : List Notice) :
    (b.noting ms).noting ns = b.noting (ms ++ ns) := by
  simp [noting]

end Builder

/-! ## Actions that only look things up -/

/-- the result is the same for every builder, and only notices are added -/
def Build.Steady (x : Build α) : Prop := ∃ r ns, ∀ b : Builder, b.run x = (r, b.noting ns)

namespace Build

theorem steady_pure (a : α) : Steady (pure a) := ⟨.ok a, [], by simp⟩

theorem steady_throw (e : BuildError) : Steady (throw e : Build α) := ⟨.error e, [], by simp⟩

theorem steady_of (r : Except BuildError α) : Steady (of r) := ⟨r, [], by simp⟩

theorem steady_report (ns : List Notice) : Steady (report ns) := ⟨.ok ⟨⟩, ns, by simp⟩

theorem Steady.bind {x : Build α} {f : α → Build β} (hx : Steady x) (hf : ∀ a, Steady (f a)) :
    Steady (x >>= f) := by
  obtain ⟨r, ns, hx⟩ := hx
  cases r with
  | error e => exact ⟨.error e, ns, fun b => Builder.run_bind_error (hx b) f⟩
  | ok a =>
    obtain ⟨s, ms, hf⟩ := hf a
    refine ⟨s, ns ++ ms, fun b => ?_⟩
    rw [Builder.run_bind_ok (hx b), hf, Builder.noting_noting]

theorem Steady.mapM {f : α → Build β} (hf : ∀ a, Steady (f a)) (as : List α) : Steady (as.mapM f) := by
  induction as with
  | nil => exact steady_pure []
  | cons a as ih =>
    rw [List.mapM_cons]
    exact (hf a).bind fun _ => ih.bind fun _ => steady_pure _

theorem Steady.foldlM {f : β → α → Build β} (hf : ∀ b a, Steady (f b a)) (as : List α) (b : β) :
    Steady (as.foldlM f b) := by
  induction as generalizing b with
  | nil => exact steady_pure b
  | cons a as ih =>
    rw [List.foldlM_cons]
    exact (hf b a).bind fun b' => ih b'

theorem steady_typeOf (h : Headers) (typeId : String) : Steady (typeOf h typeId) :=
  (steady_of _).bind fun _ => (steady_report _).bind fun _ => steady_pure _

theorem steady_meaningOf (n : Node) : Steady (meaningOf n) := by
  unfold meaningOf
  split
  · exact steady_pure _
  · exact (steady_report _).bind fun _ => steady_pure _

theorem steady_parameter (h : Headers) (position : Nat) (n : Node) : Steady (parameter h position n) :=
  (steady_meaningOf n).bind fun _ => (steady_of _).bind fun _ => (steady_typeOf h _).bind fun _ => steady_pure _

theorem steady_signature (h : Headers) (n : Node) : Steady (signature h n) :=
  (steady_meaningOf n).bind fun _ =>
    (Steady.mapM (fun _ => steady_parameter h _ _) _).bind fun _ =>
      (steady_of _).bind fun _ => (steady_typeOf h _).bind fun _ => steady_pure _

theorem steady_guidOf (name : String) (uuid : Option String) : Steady (guidOf name uuid) := by
  unfold guidOf
  split
  · exact steady_pure _
  · split
    · exact steady_pure _
    · exact (steady_report _).bind fun _ => steady_pure _

theorem steady_addSlots (a b : UInt32) : Steady (addSlots a b) := by
  unfold addSlots
  split_ifs
  · exact steady_pure _
  · exact steady_throw _

theorem steady_openSlot (h : Headers) (sofar : MethodTable) (n : Node) : Steady (openSlot h sofar n) :=
  (steady_signature h n).bind fun _ => (steady_addSlots _ _).bind fun _ => steady_pure _

theorem steady_groupSlots (first : UInt32) (table : MethodTable) : Steady (groupSlots first table) :=
  (steady_addSlots _ _).bind fun _ => steady_pure _

theorem steady_bitWidth (n : Node) : Steady (bitWidth n) := by
  unfold bitWidth
  split
  · exact steady_pure _
  · split_ifs
    · exact steady_pure _
    · split
      · exact steady_pure _
      · exact steady_throw _

theorem steady_field (h : Headers) (offset : Nat) (n : Node) : Steady (field h offset n) :=
  (steady_bitWidth n).bind fun _ => (steady_of _).bind fun _ => (steady_typeOf h _).bind fun _ => steady_pure _

end Build

/-! ## Building an element -/

namespace Module

/-- declarations added at the end of the unit that is being read, if any -/
def adding (m : Module) : Option Nat → List Entry → Module
  | none, _ => m
  | some unit, entries => entries.foldl (fun m entry => m.add unit entry) m

@[simp] theorem adding_nil (m : Module) (unit : Option Nat) : m.adding unit [] = m := by
  cases unit <;> rfl

theorem adding_append (m : Module) (unit : Option Nat) (es fs : List Entry) :
    m.adding unit (es ++ fs) = (m.adding unit es).adding unit fs := by
  cases unit with
  | none => rfl
  | some unit => exact List.foldl_append ..

end Module

namespace Builder

theorem run_declare (b : Builder) (entry : Entry) :
    b.run (Build.declare entry) = (.ok ⟨⟩, { b with module := b.module.adding b.current [entry] }) := by
  unfold Build.declare
  rw [run_modify]
  rcases b with ⟨m, _ | unit, as, is, us, ws, es, ns⟩ <;> rfl

theorem run_forM_declare (b : Builder) (entries : List Entry) :
    b.run (entries.forM Build.declare) = (.ok ⟨⟩, { b with module := b.module.adding b.current entries }) := by
  induction entries generalizing b with
  | nil => simp [List.forM_nil]
  | cons entry entries ih =>
    show b.run (Build.declare entry >>= fun _ => entries.forM Build.declare) = _
    rw [run_bind_ok (run_declare b entry), ih, ← Module.adding_append]
    rfl

/-- a builder at the start of an element -/
def claiming (b : Builder) (i : NodeId) : Builder := { b with underway := i :: b.underway }

/-- a builder at the end of an element -/
def releasing (b : Builder) (i : NodeId) : Builder := { b with underway := b.underway.erase i }

/-- a builder that gave up an aggregate, and with it what came to wait after a point -/
def abandoning (b : Builder) (i : NodeId) (mark : Nat) : Builder :=
  { b with underway := b.underway.erase i, waiting := b.waiting.take mark }

/-- a builder that finished an aggregate; if it is not nested, what came to wait after a point is declared -/
def finishing (b : Builder) (i : NodeId) (built : Aggregate) (outer : Option Build.Enclosing) (mark : Nat) :
    Builder :=
  { b with
    underway := b.underway.erase i
    aggregates := (i, built) :: b.aggregates
    waiting := if outer.isNone then b.waiting.take mark else b.waiting
    module := if outer.isNone then b.module.adding b.current (b.waiting.drop mark) else b.module }

/-- a builder that finished an interface -/
def concluding (b : Builder) (i : NodeId) (built : Interface) : Builder :=
  { b with underway := b.underway.erase i, interfaces := (i, built) :: b.interfaces }

theorem run_during (b : Builder) (h : Headers) (i : NodeId) (x : Build α) :
    b.run (Build.during h i x) =
      if i ∈ b.underway then (.error (Build.cycleAt (h.document.node i)), b)
      else (.ok ((b.claiming i).run x).1, (((b.claiming i).run x).2).releasing i) := by
  by_cases hi : i ∈ b.underway
  · simp [Build.during, Build.claim, run_bind, hi, Build.cycleAt]
  · simp [Build.during, Build.claim, Build.release, run_bind, run_map, hi, claiming, releasing, Except.map]

end Builder

namespace Build

/-- one round of building an aggregate, given how the ones it needs are built -/
def aggregateOnce (h : Headers) (build : NodeId → Option Enclosing → Build Aggregate) (i : NodeId)
    (outer : Option Enclosing) : Build Aggregate := do
  let b ← get
  match b.aggregates.lookup i with
  | some built => return built
  | none =>
    let mark := b.waiting.length
    match ← during h i (aggregateBody h build (h.document.node i) outer) with
    | .error e =>
      forgetWaiting mark
      throw e
    | .ok built =>
      rememberAggregate i built
      if outer.isNone then declareWaiting mark
      return built

/-- one round of building an interface, given how its bases are built -/
def interfaceOnce (h : Headers) (build : NodeId → Build Interface) (i : NodeId) : Build Interface := do
  match (← get).interfaces.lookup i with
  | some built => return built
  | none =>
    let built ← of (← during h i (interfaceBody h build (h.document.node i)))
    rememberInterface i built
    return built

theorem aggregateWithin_succ (h : Headers) (levels : Nat) :
    aggregateWithin h (levels + 1) = aggregateOnce h (aggregateWithin h levels) := rfl

theorem interfaceWithin_succ (h : Headers) (levels : Nat) :
    interfaceWithin h (levels + 1) = interfaceOnce h (interfaceWithin h levels) := rfl

end Build

namespace Builder

/-- What one round of building an aggregate does. -/
theorem run_aggregateOnce (b : Builder) (h : Headers) (build : NodeId → Option Build.Enclosing → Build Aggregate)
    (i : NodeId) (outer : Option Build.Enclosing) :
    b.run (Build.aggregateOnce h build i outer) =
      match b.aggregates.lookup i with
      | some built => (.ok built, b)
      | none =>
        if i ∈ b.underway then (.error (Build.cycleAt (h.document.node i)), b)
        else
          match (b.claiming i).run (Build.aggregateBody h build (h.document.node i) outer) with
          | (.error e, c) => (.error e, c.abandoning i b.waiting.length)
          | (.ok built, c) => (.ok built, c.finishing i built outer b.waiting.length) := by
  rw [Build.aggregateOnce, run_bind_ok (run_get b)]
  cases hl : b.aggregates.lookup i with
  | some built => rfl
  | none =>
    by_cases hi : i ∈ b.underway
    · simp [run_bind, run_during, hi]
    · simp only [run_bind, run_during, hi, if_false]
      rcases (b.claiming i).run (Build.aggregateBody h build (h.document.node i) outer) with ⟨e | built, c⟩
      · rfl
      · cases outer with
        | some outer => rfl
        | none =>
          simp only [Build.rememberAggregate, Build.declareWaiting, Build.forgetWaiting, run_bind, run_modify, run_get,
            run_forM_declare, run_pure, Option.isNone_none, if_true]
          rfl

/-- What building an aggregate does. -/
theorem run_aggregateWithin (b : Builder) (h : Headers) (levels : Nat) (i : NodeId)
    (outer : Option Build.Enclosing) :
    b.run (Build.aggregateWithin h (levels + 1) i outer) =
      match b.aggregates.lookup i with
      | some built => (.ok built, b)
      | none =>
        if i ∈ b.underway then (.error (Build.cycleAt (h.document.node i)), b)
        else
          match (b.claiming i).run
            (Build.aggregateBody h (Build.aggregateWithin h levels) (h.document.node i) outer) with
          | (.error e, c) => (.error e, c.abandoning i b.waiting.length)
          | (.ok built, c) => (.ok built, c.finishing i built outer b.waiting.length) := by
  rw [Build.aggregateWithin_succ]
  exact run_aggregateOnce b h _ i outer

/-- What one round of building an interface does. -/
theorem run_interfaceOnce (b : Builder) (h : Headers) (build : NodeId → Build Interface) (i : NodeId) :
    b.run (Build.interfaceOnce h build i) =
      match b.interfaces.lookup i with
      | some built => (.ok built, b)
      | none =>
        if i ∈ b.underway then (.error (Build.cycleAt (h.document.node i)), b)
        else
          match (b.claiming i).run (Build.interfaceBody h build (h.document.node i)) with
          | (.error e, c) => (.error e, c.releasing i)
          | (.ok built, c) => (.ok built, c.concluding i built) := by
  rw [Build.interfaceOnce, run_bind_ok (run_get b)]
  cases hl : b.interfaces.lookup i with
  | some built => rfl
  | none =>
    by_cases hi : i ∈ b.underway
    · simp [run_bind, run_during, hi]
    · simp only [run_bind, run_during, hi, if_false]
      rcases (b.claiming i).run (Build.interfaceBody h build (h.document.node i)) with ⟨e | built, c⟩ <;> rfl

/-- What building an interface does. -/
theorem run_interfaceWithin (b : Builder) (h : Headers) (levels : Nat) (i : NodeId) :
    b.run (Build.interfaceWithin h (levels + 1) i) =
      match b.interfaces.lookup i with
      | some built => (.ok built, b)
      | none =>
        if i ∈ b.underway then (.error (Build.cycleAt (h.document.node i)), b)
        else
          match (b.claiming i).run (Build.interfaceBody h (Build.interfaceWithin h levels) (h.document.node i)) with
          | (.error e, c) => (.error e, c.releasing i)
          | (.ok built, c) => (.ok built, c.concluding i built) := by
  rw [Build.interfaceWithin_succ]
  exact run_interfaceOnce b h _ i

end Builder

end HeaderModel
