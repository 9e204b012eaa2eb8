/-
Comparing runs.

`Build.InStep` relates two actions that start from related builders: both give related results, or both fail with the
same error, and the builders stay related. A lenient comparison asks nothing when the left action fails; it carries a
success from the left to the right. `Build.Recounts` relates an action to a variant that only looks up what the
action has remembered by its end. Each relation has one rule for every way of composing actions.
-/
import HeaderModel.Proofs.Entries

namespace HeaderModel

variable {α β γ δ ι : Type}

namespace Build

/-! ## Two actions in step -/

/-- how two runs may end, with builders related by `R` and results related by `Q` -/
inductive Agree (lenient : Prop) (R : Builder → Builder → Prop) (Q : α → β → Prop) :
    Except BuildError α × Builder → Except BuildError β × Builder → Prop where
  | ok {a a' c b} : Q a a' → R c b → Agree lenient R Q (.ok a, c) (.ok a', b)
  | error {e c b} : R c b → Agree lenient R Q (.error e, c) (.error e, b)
  | lenient {e c p} : lenient → Agree lenient R Q (.error e, c) p

/-- runs from related builders agree -/
def InStep (lenient : Prop) (R : Builder → Builder → Prop) (Q : α → β → Prop) (x : Build α) (y : Build β) : Prop :=
  ∀ c b, R c b → Agree lenient R Q (c.run x) (b.run y)

section Rules

variable {lenient : Prop} {R : Builder → Builder → Prop} {Q : α → β → Prop} {Q' : γ → δ → Prop}

theorem InStep.pure {a : α} {a' : β} (h : Q a a') : InStep lenient R Q (Pure.pure a) (Pure.pure a') :=
  fun _ _ hR => .ok h hR

theorem InStep.throw (e : BuildError) : InStep lenient R Q (MonadExcept.throw e) (MonadExcept.throw e) :=
  fun _ _ hR => .error hR

theorem InStep.bind {x : Build α} {y : Build β} {f : α → Build γ} {g : β → Build δ} (hx : InStep lenient R Q x y)
    (hf : ∀ a a', Q a a' → InStep lenient R Q' (f a) (g a')) : InStep lenient R Q' (x >>= f) (y >>= g) := by
  intro c b hR
  rw [Builder.run_bind, Builder.run_bind]
  have hxy := hx c b hR
  generalize c.run x = p, b.run y = q at hxy
  cases hxy with
  | ok hQ hR => exact hf _ _ hQ _ _ hR
  | error hR => exact .error hR
  | lenient hl => exact .lenient hl

theorem inStep_of (r : Except BuildError α) :
    InStep lenient R (fun a a' => a = a' ∧ r = .ok a) (of r) (of r) := by
  intro c b hR
  rw [Builder.run_of, Builder.run_of]
  cases r with
  | ok a => exact .ok ⟨rfl, rfl⟩ hR
  | error e => exact .error hR

theorem Steady.inStep {x : Build α} (hx : Steady x)
    (hR : ∀ c b ns, R c b → R (c.noting ns) (b.noting ns)) : InStep lenient R Eq x x := by
  obtain ⟨r, ns, hx⟩ := hx
  intro c b h
  rw [hx, hx]
  cases r with
  | ok a => exact .ok rfl (hR _ _ _ h)
  | error e => exact .error (hR _ _ _ h)

theorem InStep.foldlM {f : α → ι → Build α} {g : β → ι → Build β} {xs : List ι}
    (hf : ∀ i ∈ xs, ∀ s t, Q s t → InStep lenient R Q (f s i) (g t i)) {s : α} {t : β} (hst : Q s t) :
    InStep lenient R Q (xs.foldlM f s) (xs.foldlM g t) := by
  induction xs generalizing s t with
  | nil => exact .pure hst
  | cons i xs ih =>
    rw [List.foldlM_cons, List.foldlM_cons]
    exact (hf i List.mem_cons_self s t hst).bind fun s' t' h =>
      ih (fun j hj => hf j (List.mem_cons_of_mem i hj)) h

theorem InStep.forM {f g : ι → Build PUnit} {xs : List ι} (hf : ∀ i ∈ xs, InStep lenient R Eq (f i) (g i)) :
    InStep lenient R Eq (xs.forM f) (xs.forM g) := by
  induction xs with
  | nil => exact .pure rfl
  | cons i xs ih =>
    exact (hf i List.mem_cons_self).bind fun _ _ _ => ih fun j hj => hf j (List.mem_cons_of_mem i hj)

end Rules

end Build

/-! ## What a builder keeps while it builds elements -/

namespace Builder

/-- `c` has built more than `b`: memories grow, aggregates are declared in the current unit or come to wait, and nothing
else but the notices changes -/
structure Grows (b c : Builder) : Prop where
  current : c.current = b.current
  underway : c.underway = b.underway
  enumCounts : c.enumCounts = b.enumCounts
  aggregates : b.aggregates <:+ c.aggregates
  interfaces : b.interfaces <:+ c.interfaces
  waiting : ∃ ws, c.waiting = b.waiting ++ ws ∧ ∀ e ∈ ws, e.isAggregate = true
  module : ∃ es, c.module = b.module.adding b.current es ∧ ∀ e ∈ es, e.isAggregate = true

theorem grows_noting (b : Builder) (ns : List Notice) : Grows b (b.noting ns) :=
  ⟨rfl, rfl, rfl, List.suffix_refl _, List.suffix_refl _, ⟨[], (List.append_nil _).symm, by simp⟩,
    ⟨[], (Module.adding_nil ..).symm, by simp⟩⟩

theorem Grows.refl (b : Builder) : Grows b b := by
  have hnone := grows_noting b []
  rwa [noting_nil] at hnone

theorem Grows.trans {a b c : Builder} (h₁ : Grows a b) (h₂ : Grows b c) : Grows a c := by
  obtain ⟨ws, hws, hws'⟩ := h₁.waiting
  obtain ⟨vs, hvs, hvs'⟩ := h₂.waiting
  obtain ⟨es, hes, hes'⟩ := h₁.module
  obtain ⟨fs, hfs, hfs'⟩ := h₂.module
  refine ⟨h₂.current.trans h₁.current, h₂.underway.trans h₁.underway, h₂.enumCounts.trans h₁.enumCounts,
    h₁.aggregates.trans h₂.aggregates, h₁.interfaces.trans h₂.interfaces, ⟨ws ++ vs, ?_, ?_⟩, ⟨es ++ fs, ?_, ?_⟩⟩
  · rw [hvs, hws, List.append_assoc]
  · exact fun e he => (List.mem_append.1 he).elim (hws' e) (hvs' e)
  · rw [hfs, hes, h₁.current, Module.adding_append]
  · exact fun e he => (List.mem_append.1 he).elim (hes' e) (hfs' e)

/-- all that `b` remembers is remembered in `m` -/
structure Within (b m : Builder) : Prop where
  aggregates : ∀ i a, b.aggregates.lookup i = some a → m.aggregates.lookup i = some a
  interfaces : ∀ i a, b.interfaces.lookup i = some a → m.interfaces.lookup i = some a

theorem Within.refl (b : Builder) : b.Within b := ⟨fun _ _ => id, fun _ _ => id⟩

theorem Within.trans {b c m : Builder} (h₁ : b.Within c) (h₂ : c.Within m) : b.Within m :=
  ⟨fun i a h => h₂.aggregates i a (h₁.aggregates i a h), fun i a h => h₂.interfaces i a (h₁.interfaces i a h)⟩

end Builder

namespace Build

/-! ## An action recounted from memory -/

/-- The action keeps the builder in order; when it succeeds, the variant `y` gives the same result from any memory that
has what the action has remembered by its end. -/
def Recounts (Good : Builder → Prop) (x : Build α) (y : Builder → Build α) : Prop :=
  ∀ b, Good b → Good (b.run x).2 ∧ b.Grows (b.run x).2 ∧ b.Within (b.run x).2 ∧
    ∀ a, (b.run x).1 = .ok a → ∀ m, (b.run x).2.Within m → ∀ c : Builder, (c.run (y m)).1 = .ok a

section Rules

variable {Good : Builder → Prop}

theorem Recounts.bind {x : Build α} {y : Builder → Build α} {f : α → Build β} {g : Builder → α → Build β}
    (hx : Recounts Good x y) (hf : ∀ a, Recounts Good (f a) (g · a)) :
    Recounts Good (x >>= f) (fun m => y m >>= g m) := by
  intro b hb
  obtain ⟨hgood, hgrows, hwithin, hok⟩ := hx b hb
  rw [Builder.run_bind]
  generalize b.run x = p at hgood hgrows hwithin hok
  obtain ⟨e | a, b'⟩ := p
  · exact ⟨hgood, hgrows, hwithin, fun _ h => nomatch h⟩
  · obtain ⟨hgood', hgrows', hwithin', hok'⟩ := hf a b' hgood
    refine ⟨hgood', hgrows.trans hgrows', hwithin.trans hwithin', fun a' ha' m hm c => ?_⟩
    have hy : (c.run (y m)).1 = .ok a := hok a rfl m (hwithin'.trans hm) c
    rw [Builder.run_bind]
    generalize c.run (y m) = q at hy
    obtain ⟨r, c'⟩ := q
    cases hy
    exact hok' a' ha' m hm c'

theorem Steady.recounts {x : Build α} (hx : Steady x) (hGood : ∀ b ns, Good b → Good (b.noting ns)) :
    Recounts Good x (fun _ => x) := by
  obtain ⟨r, ns, hx⟩ := hx
  intro b hb
  simp only [hx]
  exact ⟨hGood b ns hb, b.grows_noting ns, ⟨fun _ _ => id, fun _ _ => id⟩, fun _ h _ _ _ => h⟩

theorem Recounts.of_bind {r : Except BuildError α} {f : α → Build β} {g : Builder → α → Build β}
    (hf : ∀ a, r = .ok a → Recounts Good (f a) (g · a)) :
    Recounts Good (of r >>= f) (fun m => of r >>= g m) := by
  cases r with
  | ok a => exact hf a rfl
  | error e =>
    intro b hb
    rw [Builder.run_bind_error (Builder.run_of b _)]
    exact ⟨hb, .refl b, .refl b, fun _ h => nomatch h⟩

theorem Recounts.foldlM {f : α → ι → Build α} {g : Builder → α → ι → Build α} {xs : List ι}
    (hpure : ∀ b ns, Good b → Good (b.noting ns)) (hf : ∀ i ∈ xs, ∀ s, Recounts Good (f s i) (g · s i)) (s : α) :
    Recounts Good (xs.foldlM f s) (fun m => xs.foldlM (g m) s) := by
  induction xs generalizing s with
  | nil => exact (steady_pure s).recounts hpure
  | cons i xs ih =>
    simp only [List.foldlM_cons]
    exact (hf i List.mem_cons_self s).bind fun s' => ih (fun j hj => hf j (List.mem_cons_of_mem i hj)) s'

end Rules

end Build

end HeaderModel
