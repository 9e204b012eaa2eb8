/-
Independence of history.

Two builders build the same element in step, where the left one remembers at least what the right one does. What only
the left one remembers, the right one builds again (`aggregate_rebuilt`, `interface_rebuilt`); everything else both
build. The left one may start with any history, the right one with none.
- `aggregateWithin_inStep`, `interfaceWithin_inStep`: the comparison, by induction on the levels.
- `answers_independent_of_history`: after any requests, successful or not, a builder answers as a fresh one does.
-/
import HeaderModel.Proofs.Rebuilding
import HeaderModel.Proofs.Requests

namespace HeaderModel

namespace Build

theorem Agree.mono {α β : Type} {lenient : Prop} {R R' : Builder → Builder → Prop} {Q : α → β → Prop}
    {p : Except BuildError α × Builder} {q : Except BuildError β × Builder} (h : Agree lenient R Q p q)
    (hR : ∀ c b, R c b → R' c b) : Agree lenient R' Q p q := by
  cases h with
  | ok hQ h => exact .ok hQ (hR _ _ h)
  | error h => exact .error (hR _ _ h)
  | lenient hl => exact .lenient hl

end Build

/-! ## Interfaces in step -/

namespace Builder

/-- both builders are inside the same elements, and the left one remembers all that the right one does -/
structure InterfacesLead (h : Headers) (path : List NodeId) (c b : Builder) : Prop where
  underway : c.underway = path
  sound : c.InterfacesSound h
  covered : b.InterfacesCovered h c.interfaces path

section InterfacesLead

variable {h : Headers} {path : List NodeId} {c b : Builder} {i : NodeId} {a : Interface}

theorem InterfacesLead.lookup_none (hR : InterfacesLead h path c b) (hc : c.interfaces.lookup i = none) :
    b.interfaces.lookup i = none := by
  cases hb : b.interfaces.lookup i with
  | none => rfl
  | some a =>
    rw [hR.covered.covered i a hb] at hc
    cases hc

theorem InterfacesLead.claiming (hR : InterfacesLead h path c b) (hc : c.interfaces.lookup i = none)
    (hb : b.interfaces.lookup i = none) : InterfacesLead h (i :: path) (c.claiming i) (b.claiming i) :=
  ⟨congrArg (i :: ·) hR.underway, hR.sound.claiming hc, congrArg (i :: ·) hR.covered.underway,
    hR.covered.sound.claiming hb, hR.covered.covered⟩

theorem InterfacesLead.releasing (hR : InterfacesLead h (i :: path) c b) :
    InterfacesLead h path (c.releasing i) (b.releasing i) := by
  have hc : c.underway.erase i = path := by rw [hR.underway, List.erase_cons_head]
  have hb : b.underway.erase i = path := by rw [hR.covered.underway, List.erase_cons_head]
  exact ⟨hc, hR.sound.releasing i, hb, hR.covered.sound.releasing i, hR.covered.covered⟩

theorem InterfacesLead.concluding (hR : InterfacesLead h (i :: path) c b) (hc : (c.concluding i a).InterfacesSound h)
    (hb : (b.concluding i a).InterfacesSound h) :
    InterfacesLead h path (c.concluding i a) (b.concluding i a) := by
  have hi : c.interfaces.lookup i = none := hR.sound.unfinished i (hR.underway ▸ List.mem_cons_self)
  have hwider : b.InterfacesCovered h (c.concluding i a).interfaces (i :: path) :=
    ⟨hR.covered.underway, hR.covered.sound, fun j a' hj => lookup_cons_of_some hi (hR.covered.covered j a' hj)⟩
  refine ⟨?_, hc, hwider.concluding List.lookup_cons_self hb⟩
  show c.underway.erase i = path
  rw [hR.underway, List.erase_cons_head]

end InterfacesLead

end Builder

/-- what the left builder remembers the right one builds again -/
theorem interface_recalled {h : Headers} {levels : Nat} {path : List NodeId} {c b : Builder} {i : NodeId}
    {a : Interface} (hp : h.document.Path path levels) (hR : Builder.InterfacesLead h path c b) (ha : c.interfaces.lookup i = some a) :
    Build.Agree False (Builder.InterfacesLead h path) Eq (.ok a, c) (b.run (Build.interfaceWithin h levels i)) := by
  have hagain := interface_rebuilt hR.sound.grounded hR.sound.grounded (List.suffix_refl _) hp
    (hR.underway ▸ hR.sound.unfinished) i c b hR.covered
  have hleft : c.run (recallFrom c.interfaces i) = (.ok a, c) := by
    rw [recallFrom, ha]
    rfl
  rw [hleft] at hagain
  generalize b.run (Build.interfaceWithin h levels i) = q at hagain
  cases hagain with
  | ok heq hcovered => exact .ok heq ⟨hR.underway, hR.sound, hcovered⟩

/-- **Interfaces are built in step,** whatever the left builder remembers beyond the right one. -/
theorem interfaceWithin_inStep {h : Headers} {levels : Nat} {path : List NodeId} (hp : h.document.Path path levels)
    (i : NodeId) :
    Build.InStep False (Builder.InterfacesLead h path) Eq (Build.interfaceWithin h levels i)
      (Build.interfaceWithin h levels i) := by
  induction levels generalizing path i with
  | zero => exact absurd rfl hp.levels_ne_zero
  | succ levels ih =>
    intro c b hR
    have hc := (Build.interfaceWithin_recounts (levels + 1) i c hR.sound).1
    have hb := (Build.interfaceWithin_recounts (levels + 1) i b hR.covered.sound).1
    cases hl : c.interfaces.lookup i with
    | some a =>
      rw [Builder.run_interfaceWithin, hl]
      exact interface_recalled hp hR hl
    | none =>
      have hlb := hR.lookup_none hl
      rw [Builder.run_interfaceWithin] at hc hb ⊢
      rw [Builder.run_interfaceWithin]
      simp only [hl, hlb, hR.underway, hR.covered.underway] at hc hb ⊢
      by_cases hi : i ∈ path
      · simp only [hi, if_true]
        exact .error hR
      · have hbody : Build.InStep False (Builder.InterfacesLead h (i :: path)) Eq
            (Build.interfaceBody h (Build.interfaceWithin h levels) (h.document.node i))
            (Build.interfaceBody h (Build.interfaceWithin h levels) (h.document.node i)) :=
          Build.interfaceBody_inStep
            (fun _ _ _ hR => ⟨hR.underway, ⟨hR.sound.grounded, hR.sound.unfinished⟩, hR.covered.underway,
              ⟨hR.covered.sound.grounded, hR.covered.sound.unfinished⟩, hR.covered.covered⟩)
            fun j hj => ih (hp.cons hi (Document.lt_size_of_listsBase hj)) j
        have hagree := hbody _ _ (hR.claiming hl hlb)
        simp only [hi, if_false] at hc hb ⊢
        generalize (c.claiming i).run (Build.interfaceBody h (Build.interfaceWithin h levels) (h.document.node i)) = p
          at hagree hc ⊢
        generalize (b.claiming i).run (Build.interfaceBody h (Build.interfaceWithin h levels) (h.document.node i)) = q
          at hagree hb ⊢
        cases hagree with
        | ok heq hR =>
          subst heq
          exact .ok rfl (hR.concluding hc hb)
        | error hR => exact .error hR.releasing
        | lenient hl => exact hl.elim

/-! ## Aggregates in step -/

namespace Builder

/-- both builders are inside the same elements, and the left one remembers all that the right one does, under other
names perhaps -/
structure AggregatesLead (h : Headers) (path : List NodeId) (c b : Builder) : Prop where
  underway : c.underway = path
  sound : c.AggregatesSound h
  covered : b.AggregatesCovered h c.aggregates path

section AggregatesLead

variable {h : Headers} {path : List NodeId} {c b : Builder} {i : NodeId}

theorem AggregatesLead.lookup_none (hR : AggregatesLead h path c b) (hc : c.aggregates.lookup i = none) :
    b.aggregates.lookup i = none := by
  cases hb : b.aggregates.lookup i with
  | none => rfl
  | some a =>
    obtain ⟨a₀, ha₀, -⟩ := hR.covered.covered i a hb
    rw [ha₀] at hc
    cases hc

theorem AggregatesLead.claiming (hR : AggregatesLead h path c b) (hc : c.aggregates.lookup i = none)
    (hb : b.aggregates.lookup i = none) : AggregatesLead h (i :: path) (c.claiming i) (b.claiming i) :=
  ⟨congrArg (i :: ·) hR.underway, hR.sound.claiming hc, congrArg (i :: ·) hR.covered.underway,
    hR.covered.sound.claiming hb, hR.covered.covered⟩

theorem AggregatesLead.abandoning (hR : AggregatesLead h (i :: path) c b) (mark mark' : Nat) :
    AggregatesLead h path (c.abandoning i mark) (b.abandoning i mark') := by
  have hc : c.underway.erase i = path := by rw [hR.underway, List.erase_cons_head]
  have hb : b.underway.erase i = path := by rw [hR.covered.underway, List.erase_cons_head]
  exact ⟨hc, hR.sound.abandoning i mark, hb, hR.covered.sound.abandoning i mark', hR.covered.covered⟩

theorem AggregatesLead.finishing {a a' : Aggregate} {outer outer' : Option Build.Enclosing} {mark mark' : Nat}
    (hR : AggregatesLead h (i :: path) c b) (ha : a.Alike h.document.Names i a')
    (hc : (c.finishing i a outer mark).AggregatesSound h) (hb : (b.finishing i a' outer' mark').AggregatesSound h) :
    AggregatesLead h path (c.finishing i a outer mark) (b.finishing i a' outer' mark') := by
  have hi : c.aggregates.lookup i = none := hR.sound.unfinished i (hR.underway ▸ List.mem_cons_self)
  have hwider : b.AggregatesCovered h (c.finishing i a outer mark).aggregates (i :: path) := by
    refine ⟨hR.covered.underway, hR.covered.sound, fun j a'' hj => ?_⟩
    obtain ⟨a₀, ha₀, halike⟩ := hR.covered.covered j a'' hj
    exact ⟨a₀, lookup_cons_of_some hi ha₀, halike⟩
  refine ⟨?_, hc, hwider.finishing List.lookup_cons_self ha hb⟩
  show c.underway.erase i = path
  rw [hR.underway, List.erase_cons_head]

end AggregatesLead

/-- since two earlier builders, the left one has declared what the right one has, less some aggregates, and the same
holds of what came to wait -/
structure Quieter (Names : NodeId → String → String → Prop) (c₀ b₀ c b : Builder) : Prop where
  current : c.current = c₀.current ∧ b.current = b₀.current
  waiting : ∃ ws vs, c.waiting = c₀.waiting ++ ws ∧ b.waiting = b₀.waiting ++ vs ∧ Trimmed (Entry.Alike Names) ws vs
  module : ∃ es fs, c.module = c₀.module.adding c₀.current es ∧ b.module = b₀.module.adding b₀.current fs ∧
    Trimmed (Entry.Alike Names) es fs

section Quieter

variable {Names : NodeId → String → String → Prop} {c₀ b₀ c₁ b₁ c b : Builder} {i : NodeId}

/-- the left builder stays while the right one goes on -/
theorem Grows.quieter (hb : b₀.Grows b) (c : Builder) : Quieter Names c b₀ c b := by
  obtain ⟨vs, hvs, hvs'⟩ := hb.waiting
  obtain ⟨fs, hfs, hfs'⟩ := hb.module
  exact ⟨⟨rfl, hb.current⟩, ⟨[], vs, (List.append_nil _).symm, hvs, .none hvs'⟩,
    ⟨[], fs, (Module.adding_nil ..).symm, hfs, .none hfs'⟩⟩

theorem Quieter.refl (Names : NodeId → String → String → Prop) (c b : Builder) : Quieter Names c b c b :=
  (Grows.refl b).quieter c

theorem Quieter.trans (h₁ : Quieter Names c₀ b₀ c₁ b₁) (h₂ : Quieter Names c₁ b₁ c b) : Quieter Names c₀ b₀ c b := by
  obtain ⟨ws, vs, hws, hvs, hquiet⟩ := h₁.waiting
  obtain ⟨ws', vs', hws', hvs', hquiet'⟩ := h₂.waiting
  obtain ⟨es, fs, hes, hfs, hless⟩ := h₁.module
  obtain ⟨es', fs', hes', hfs', hless'⟩ := h₂.module
  refine ⟨⟨h₂.current.1.trans h₁.current.1, h₂.current.2.trans h₁.current.2⟩,
    ⟨ws ++ ws', vs ++ vs', ?_, ?_, hquiet.append hquiet'⟩, ⟨es ++ es', fs ++ fs', ?_, ?_, hless.append hless'⟩⟩
  · rw [hws', hws, List.append_assoc]
  · rw [hvs', hvs, List.append_assoc]
  · rw [hes', hes, h₁.current.1, Module.adding_append]
  · rw [hfs', hfs, h₁.current.2, Module.adding_append]

theorem Quieter.awaiting (hq : Quieter Names c₀ b₀ c b) {e e' : Entry} (he : e.Alike Names e') :
    Quieter Names c₀ b₀ (c.awaiting e) (b.awaiting e') := by
  obtain ⟨ws, vs, hws, hvs, hquiet⟩ := hq.waiting
  refine ⟨hq.current, ⟨ws ++ [e], vs ++ [e'], ?_, ?_, hquiet.append (.kept he .nil)⟩, hq.module⟩
  · rw [Builder.awaiting, hws, List.append_assoc]
  · rw [Builder.awaiting, hvs, List.append_assoc]

theorem Quieter.abandoning (hq : Quieter Names (c₀.claiming i) (b₀.claiming i) c b) :
    Quieter Names c₀ b₀ (c.abandoning i c₀.waiting.length) (b.abandoning i b₀.waiting.length) := by
  obtain ⟨ws, vs, hws, hvs, -⟩ := hq.waiting
  refine ⟨hq.current, ⟨[], [], ?_, ?_, .nil⟩, hq.module⟩
  · rw [Builder.abandoning, hws, List.append_nil]
    exact List.take_left
  · rw [Builder.abandoning, hvs, List.append_nil]
    exact List.take_left

theorem Quieter.finishing (hq : Quieter Names (c₀.claiming i) (b₀.claiming i) c b) {a a' : Aggregate}
    {outer outer' : Option Build.Enclosing} (houter : outer.isNone = outer'.isNone) :
    Quieter Names c₀ b₀ (c.finishing i a outer c₀.waiting.length) (b.finishing i a' outer' b₀.waiting.length) := by
  obtain ⟨ws, vs, hws, hvs, hquiet⟩ := hq.waiting
  obtain ⟨es, fs, hes, hfs, hless⟩ := hq.module
  change c.waiting = c₀.waiting ++ ws at hws
  change b.waiting = b₀.waiting ++ vs at hvs
  unfold Builder.finishing
  rw [houter]
  cases outer'.isNone with
  | false => exact ⟨hq.current, ⟨ws, vs, hws, hvs, hquiet⟩, ⟨es, fs, hes, hfs, hless⟩⟩
  | true =>
    simp only [if_true, hws, hvs, List.take_left, List.drop_left, hes, hfs, hq.current.1, hq.current.2]
    exact ⟨⟨rfl, rfl⟩, ⟨[], [], (List.append_nil _).symm, (List.append_nil _).symm, .nil⟩,
      ⟨es ++ ws, fs ++ vs, (Module.adding_append ..).symm, (Module.adding_append ..).symm, hless.append hquiet⟩⟩

end Quieter

end Builder

/-- both builders lead on a path, and the left one has done no more than the right one since two earlier builders -/
def Builder.Leads (h : Headers) (path : List NodeId) (c₀ b₀ c b : Builder) : Prop :=
  Builder.AggregatesLead h path c b ∧ Builder.Quieter h.document.Names c₀ b₀ c b

theorem lasting_leads (h : Headers) (path : List NodeId) (c₀ b₀ : Builder) :
    Build.Lasting h.document.Names (Builder.Leads h path c₀ b₀) := by
  refine ⟨fun c b ns hR => ⟨?_, hR.2.current, hR.2.waiting, hR.2.module⟩,
    fun c b e e' he hR => ⟨?_, hR.2.awaiting he⟩⟩
  all_goals exact ⟨hR.1.underway, ⟨hR.1.sound.grounded, hR.1.sound.unfinished⟩, hR.1.covered.underway,
    ⟨hR.1.covered.sound.grounded, hR.1.covered.sound.unfinished⟩, hR.1.covered.covered⟩

/-- what the left builder remembers the right one builds again, and may declare again -/
theorem aggregate_recalled {h : Headers} {levels : Nat} {path : List NodeId} {c b : Builder} {i : NodeId}
    {a : Aggregate} (hp : h.document.Path path levels) (hR : Builder.AggregatesLead h path c b) (ha : c.aggregates.lookup i = some a)
    {outer : Option Build.Enclosing}
    (hname : h.document.NameOf i (Build.aggregateName (h.document.node i).name outer)) :
    Build.Agree False (Builder.Leads h path c b) (Aggregate.Alike h.document.Names i) (.ok a, c)
      (b.run (Build.aggregateWithin h levels i outer)) := by
  have hagain := aggregate_rebuilt hR.sound.grounded hR.sound.grounded (List.suffix_refl _) hp
    (hR.underway ▸ hR.sound.unfinished) i hname c b hR.covered
  have hgrows := (Build.aggregateWithin_recounts levels i outer hname b hR.covered.sound).2.1
  have hleft : c.run (recallFrom c.aggregates i) = (.ok a, c) := by
    rw [recallFrom, ha]
    rfl
  rw [hleft] at hagain
  generalize b.run (Build.aggregateWithin h levels i outer) = q at hagain hgrows
  cases hagain with
  | ok halike hcovered => exact .ok halike ⟨⟨hR.underway, hR.sound, hcovered⟩, hgrows.quieter c⟩

/-- **Aggregates are built in step,** whatever the left builder remembers beyond the right one, and the left one then
does no more than the right one. -/
theorem aggregateWithin_inStep {h : Headers} {levels : Nat} {path : List NodeId} (hp : h.document.Path path levels)
    (i : NodeId) {outer outer' : Option Build.Enclosing} (houter : outer.isNone = outer'.isNone)
    (hname : h.document.NameOf i (Build.aggregateName (h.document.node i).name outer))
    (hname' : h.document.NameOf i (Build.aggregateName (h.document.node i).name outer')) (c₀ b₀ : Builder) :
    Build.InStep False (Builder.Leads h path c₀ b₀) (Aggregate.Alike h.document.Names i)
      (Build.aggregateWithin h levels i outer) (Build.aggregateWithin h levels i outer') := by
  induction levels generalizing path i outer outer' c₀ b₀ with
  | zero => exact absurd rfl hp.levels_ne_zero
  | succ levels ih =>
    intro c b ⟨hR, hq⟩
    -- what happens from here on is compared first; then it is added to what happened before
    suffices hagree : Build.Agree False (Builder.Leads h path c b) (Aggregate.Alike h.document.Names i)
        (c.run (Build.aggregateWithin h (levels + 1) i outer))
        (b.run (Build.aggregateWithin h (levels + 1) i outer')) from
      hagree.mono fun c' b' hR' => ⟨hR'.1, hq.trans hR'.2⟩
    have hc := (Build.aggregateWithin_recounts (levels + 1) i outer hname c hR.sound).1
    have hb := (Build.aggregateWithin_recounts (levels + 1) i outer' hname' b hR.covered.sound).1
    cases hl : c.aggregates.lookup i with
    | some a =>
      rw [Builder.run_aggregateWithin, hl]
      exact aggregate_recalled hp hR hl hname'
    | none =>
      have hlb := hR.lookup_none hl
      rw [Builder.run_aggregateWithin] at hc hb ⊢
      rw [Builder.run_aggregateWithin]
      simp only [hl, hlb, hR.underway, hR.covered.underway] at hc hb ⊢
      by_cases hi : i ∈ path
      · simp only [hi, if_true]
        exact .error ⟨hR, .refl _ c b⟩
      · have hbody : Build.InStep False (Builder.Leads h (i :: path) (c.claiming i) (b.claiming i))
            (Aggregate.Alike h.document.Names i)
            (Build.aggregateBody h (Build.aggregateWithin h levels) (h.document.node i) outer)
            (Build.aggregateBody h (Build.aggregateWithin h levels) (h.document.node i) outer') := by
          refine Build.aggregateBody_inStep (lasting_leads h _ _ _) ⟨hname, hname'⟩ (fun j hj => ?_)
            fun j k hj => ?_
          · exact ih (hp.cons hi (Document.lt_size_of_listsBase hj)) j rfl (.declared j) (.declared j) _ _
          · refine ih (hp.cons hi (Document.lt_size_of_nests hj)) j ?_ ?_ ?_ _ _
            · rfl
            · exact .nested hname hj.isNestedIn
            · exact .nested hname' hj.isNestedIn
        have hagree := hbody _ _ ⟨hR.claiming hl hlb, .refl _ _ _⟩
        simp only [hi, if_false] at hc hb ⊢
        generalize (c.claiming i).run (Build.aggregateBody h (Build.aggregateWithin h levels) (h.document.node i) outer)
          = p at hagree hc ⊢
        generalize (b.claiming i).run
          (Build.aggregateBody h (Build.aggregateWithin h levels) (h.document.node i) outer') = q at hagree hb ⊢
        cases hagree with
        | ok halike hR => exact .ok halike ⟨hR.1.finishing halike hc hb, hR.2.finishing houter⟩
        | error hR => exact .error ⟨hR.1.abandoning _ _, hR.2.abandoning⟩
        | lenient hl => exact hl.elim

/-! ## Answers -/

/-- both fail with the same error, or both succeed with related results -/
def Agreeing {α : Type} (Q : α → α → Prop) : Except BuildError α → Except BuildError α → Prop
  | .ok a, .ok a' => Q a a'
  | .error e, .error e' => e = e'
  | _, _ => False

theorem Build.Agree.agreeing {α : Type} {R : Builder → Builder → Prop} {Q : α → α → Prop}
    {p q : Except BuildError α × Builder} (h : Agree False R Q p q) : Agreeing Q p.1 q.1 := by
  cases h with
  | ok hQ _ => exact hQ
  | error _ => exact rfl
  | lenient hl => exact hl.elim

theorem Agreeing.mono {α : Type} {Q Q' : α → α → Prop} {x y : Except BuildError α} (h : Agreeing Q x y)
    (hQ : ∀ a a', Q a a' → Q' a a') : Agreeing Q' x y := by
  rcases x with e | a <;> rcases y with e' | a'
  · exact h
  · exact h
  · exact h
  · exact hQ a a' h

theorem Agreeing.eq {α : Type} {x y : Except BuildError α} (h : Agreeing Eq x y) : x = y := by
  rcases x with e | a <;> rcases y with e' | a'
  · exact congrArg Except.error h
  · exact h.elim
  · exact h.elim
  · exact congrArg Except.ok h

theorem interface_inStep (h : Headers) (i : NodeId) :
    Build.InStep False (Builder.InterfacesLead h []) Eq (Build.interface h i) (Build.interface h i) :=
  interfaceWithin_inStep (.start _) i

theorem aggregate_inStep (h : Headers) (i : NodeId) (c₀ b₀ : Builder) :
    Build.InStep False (Builder.Leads h [] c₀ b₀) (Aggregate.Alike h.document.Names i) (Build.aggregate h i)
      (Build.aggregate h i) := by
  unfold Build.aggregate
  refine aggregateWithin_inStep (.start _) i ?_ ?_ ?_ c₀ b₀
  · rfl
  · exact .declared i
  · exact .declared i

/-- two names of an element: they are equal, or the element is nested in another one and got both names there -/
def Document.Renamed (d : Document) (i : NodeId) (s s' : String) : Prop :=
  s = s' ∨ (∃ k, Build.isNestedIn (d.node k) (d.node i) = true) ∧ d.NameOf i s ∧ d.NameOf i s'

theorem Document.Names.renamed {d : Document} {i : NodeId} {s s' : String} (hs : d.Names i s s') :
    d.Renamed i s s' := by
  cases hs.1 with
  | nested _ hnest => exact .inr ⟨⟨_, hnest⟩, hs⟩
  | declared =>
    cases hs.2 with
    | nested _ hnest => exact .inr ⟨⟨_, hnest⟩, hs⟩
    | declared => exact .inl rfl

theorem Settled.interfacesLead_new {h : Headers} {c : Builder} (hc : Settled h c) (m : Module) :
    Builder.InterfacesLead h [] c (Builder.new m) :=
  ⟨hc.underway, hc.interfacesSound, rfl, (settled_new h m).interfacesSound, fun _ _ hj => nomatch hj⟩

theorem Settled.aggregatesLead_new {h : Headers} {c : Builder} (hc : Settled h c) (m : Module) :
    Builder.AggregatesLead h [] c (Builder.new m) :=
  ⟨hc.underway, hc.aggregatesSound, rfl, (settled_new h m).aggregatesSound, fun _ _ hj => nomatch hj⟩

/-- **Answers do not depend on history.** After any requests, successful or not, an interface is what a fresh builder
answers, or fails with the same error. An aggregate fails with the same error, or agrees with what a fresh builder
answers in all but the names of nested aggregates. -/
theorem answers_independent_of_history (h : Headers) (m m' : Module) (requests : List Request) (id : String) :
    (((Builder.new m).afterAll h requests).run (Build.interfaceWithId h id)).1 =
      ((Builder.new m').run (Build.interfaceWithId h id)).1 ∧
    Agreeing (fun a a' => ∃ i, h.document.placeOf id = .ok i ∧ a.Alike h.document.Renamed i a')
      (((Builder.new m).afterAll h requests).run (Build.aggregateWithId h id)).1
      ((Builder.new m').run (Build.aggregateWithId h id)).1 := by
  have hc := settled_afterAll h m requests
  generalize (Builder.new m).afterAll h requests = c at hc
  unfold Build.interfaceWithId Build.aggregateWithId
  cases hi : h.document.placeOf id with
  | error e => exact ⟨rfl, rfl⟩
  | ok i =>
    constructor
    · have hagree := interface_inStep h i c (Builder.new m') (hc.interfacesLead_new m')
      exact hagree.agreeing.eq
    · have hagree := aggregate_inStep h i c (Builder.new m') c (Builder.new m') ⟨hc.aggregatesLead_new m', .refl _ _ _⟩
      exact hagree.agreeing.mono fun a a' halike => ⟨i, rfl, halike.mono fun _ _ _ hs => hs.renamed⟩

end HeaderModel
