/-
The fate of nested aggregates.

A nested aggregate waits until the outermost one is done. Then it is declared, or given up if that one failed. So an
element that is remembered has its own nested aggregates declared, or kept waiting, or it is dropped: the element that
holds it cannot be built, or is dropped as well. `Builder.Fate` adds this to the ledger of a run.
- `not_builds_of_error`: an element that fails inside elements that cannot be built cannot be built itself. So what was
  dropped once is never asked for again by an element that succeeds.
- `aggregate_fate`: the fate of all that building one aggregate remembers, whether or not it succeeds.
-/
import HeaderModel.Proofs.Declarations

namespace HeaderModel

/-! ## What an element needs and encloses -/

namespace Document

/-- an element has a member whose type is nested in it -/
def Holds (d : Document) (p k : NodeId) : Prop := d.Nests (d.node p) k

/-- an element is nested in another one, directly or in one that is nested in it, and all of them are among some -/
def EnclosesAmong (d : Document) (ks : List NodeId) : NodeId → NodeId → Prop :=
  Relation.TransGen fun p k => d.Holds p k ∧ k ∈ ks

/-- an element is built on the way when another one is: it is a base, or nested -/
def Needs (d : Document) (p k : NodeId) : Prop := d.ListsBase (d.node p) k ∨ d.Holds p k

/-- an element is built on the way when another one is, at any depth -/
def Reaches (d : Document) : NodeId → NodeId → Prop := Relation.ReflTransGen d.Needs

/-- on the way from a root, some element lists the aggregate as a base -/
def BaseOn (d : Document) (root k : NodeId) : Prop := ∃ p, d.Reaches root p ∧ d.ListsBase (d.node p) k

theorem EnclosesAmong.mono {d : Document} {ks ls : List NodeId} {p k : NodeId} (hk : d.EnclosesAmong ks p k)
    (h : ks ⊆ ls) : d.EnclosesAmong ls p k := by
  induction hk with
  | single hk => exact .single ⟨hk.1, h hk.2⟩
  | tail _ hk ih => exact ih.tail ⟨hk.1, h hk.2⟩

/-- what a placed element reaches is placed -/
theorem Reaches.placed {d : Document} {p k : NodeId} (hk : d.Reaches p k) (hp : d.Placed p) : d.Placed k := by
  cases hk with
  | refl => exact hp
  | tail _ hneeds =>
    rcases hneeds with ⟨id, -, hid⟩ | ⟨f, -, hf, -⟩
    · exact ⟨id, hid⟩
    · cases hid : f.need "type" with
      | error e => rw [typePlace, hid] at hf; cases hf
      | ok id =>
        rw [typePlace, hid] at hf
        exact ⟨id, hf⟩

end Document

namespace Headers

/-- nothing that is underway can be built in the end -/
structure Doomed (h : Headers) (levels : Nat) (b : Builder) : Prop where
  path : h.document.Path b.underway levels
  fails : ∀ u ∈ b.underway, h.builds u = false

/-- an element that cannot be built is underway like the others -/
theorem Doomed.claiming {h : Headers} {levels : Nat} {b : Builder} {i : NodeId} (hb : h.Doomed (levels + 1) b)
    (hd : h.document.Indexed) (hplaced : h.document.Placed i) (hi : i ∉ b.underway) (hbuilds : h.builds i = false) :
    h.Doomed levels (b.claiming i) := by
  obtain ⟨id, hid⟩ := hplaced
  have hsize := (hd.known _ (Document.mem_of_lookup (Document.placeOf_eq_ok.1 hid))).1
  refine ⟨hb.path.cons hi hsize, fun u hu => ?_⟩
  rcases List.mem_cons.1 hu with rfl | hu
  · exact hbuilds
  · exact hb.fails u hu

end Headers

/-! ## Failing again -/

section Failing

variable {h : Headers} {memory : List (NodeId × Aggregate)} {i : NodeId} {a : Aggregate}

/-- what is remembered has a name that its element can get, and so have all that it mentions -/
theorem alike_self (hm : Grounded (MadeAggregate h) memory) (ha : memory.lookup i = some a) :
    a.Alike h.document.Names i a := by
  induction hm generalizing i a with
  | nil => cases ha
  | @cons memory j a' hm _ hmade ih =>
    by_cases hij : i = j
    · subst hij
      rw [List.lookup_cons_self] at ha
      cases ha
      obtain ⟨outer, hname, hmade⟩ := hmade
      have hrecall : ∀ k, Build.InStep False (fun _ _ => True) (Aggregate.Alike h.document.Names k)
          (recallFrom memory k) (recallFrom memory k) := by
        intro k
        unfold recallFrom
        cases hk : memory.lookup k with
        | none => exact .throw _
        | some a' => exact .pure (ih hk)
      have hbody : Build.InStep False (fun _ _ => True) (Aggregate.Alike h.document.Names i)
          (Build.aggregateBody h (fun k _ => recallFrom memory k) (h.document.node i) outer)
          (Build.aggregateBody h (fun k _ => recallFrom memory k) (h.document.node i) outer) :=
        Build.aggregateBody_inStep ⟨fun _ _ _ h => h, fun _ _ _ _ _ h => h⟩ ⟨hname, hname⟩
          (fun k _ => hrecall k) (fun k _ _ => hrecall k)
      have hagree := hbody (.new (.empty "")) (.new (.empty "")) trivial
      have hok := hmade (.new (.empty ""))
      generalize (Builder.new (.empty "")).run
        (Build.aggregateBody h (fun k _ => recallFrom memory k) (h.document.node i) outer) = p at hagree hok
      cases hagree with
      | ok halike _ =>
        cases hok
        exact halike
      | error _ => cases hok
      | lenient hl => exact hl.elim
    · rw [List.lookup_cons, beq_false_of_ne hij] at ha
      exact ih ha

/-- **What fails on the way to elements that cannot be built cannot be built itself.** If it could, a builder with the
same memory would succeed on it. All that it needs would then be remembered, and none of that is underway. -/
theorem not_builds_of_error {levels : Nat} {outer : Option Build.Enclosing} {b : Builder} (hb : b.AggregatesSound h)
    (hdoomed : h.Doomed levels b) (hname : h.document.NameOf i (Build.aggregateName (h.document.node i).name outer))
    {e : BuildError} (hrun : (b.run (Build.aggregateWithin h levels i outer)).1 = .error e) : h.builds i = false := by
  by_contra hbuilds
  rw [Bool.not_eq_false] at hbuilds
  set c : Builder := { Builder.new (.empty "") with aggregates := b.aggregates } with hc
  have hsettled : Settled h c := ⟨hb.grounded, .nil, rfl, rfl⟩
  have hagain := hsettled.isOk_aggregate i
  have hafter := settled_aggregate i c hsettled
  have hwithin := (Build.aggregate_recounts i c hsettled.aggregatesSound).2.2.1
  have hremembers := Build.aggregate_remembers i c hsettled.aggregatesSound
  rw [hbuilds] at hagain
  generalize c.run (Build.aggregate h i) = p at hagain hafter hwithin hremembers
  obtain ⟨e' | a, d⟩ := p
  · cases hagain
  · have hcovered : b.AggregatesCovered h d.aggregates b.underway :=
      ⟨rfl, hb, fun j a' hj => ⟨a', hwithin.aggregates j a' hj, alike_self hb.grounded hj⟩⟩
    have hapart : Apart d.aggregates b.underway := by
      intro u hu
      by_contra hsome
      have hbuilt := hafter.builds_of_isSome (Option.isSome_iff_ne_none.2 hsome)
      rw [hdoomed.fails u hu] at hbuilt
      cases hbuilt
    have hrebuilt := aggregate_rebuilt hafter.aggregates hafter.aggregates (List.suffix_refl _) hdoomed.path hapart i
      hname d b hcovered
    have hrecalled : (d.run (recallFrom d.aggregates i)).1 = .ok a := run_recallFrom_eq_ok.2 (hremembers a rfl)
    generalize d.run (recallFrom d.aggregates i) = q, b.run (Build.aggregateWithin h levels i outer) = q'
      at hrebuilt hrecalled hrun
    cases hrebuilt with
    | ok _ _ => cases hrun
    | error _ => cases hrecalled
    | lenient _ => cases hrecalled

end Failing

/-! ## Accounts with fates -/

namespace Builder

/-- an element came to be remembered between two builders and is none of some owners -/
structure Dropped (b c : Builder) (owners : List NodeId) (k : NodeId) : Prop where
  new : b.aggregates.lookup k = none
  remembered : (c.aggregates.lookup k).isSome
  apart : k ∉ owners

/-- A ledger of a run inside an element, on the way to a root. All that was remembered is an owner whose nested
aggregates are declared or kept waiting; only a run that failed may have dropped some. Owners whose aggregates are
declared are bases or the root, or enclosed in such; those whose aggregates wait are enclosed in the element. -/
structure Fate (h : Headers) (root : NodeId) (levels : Nat) (p : NodeId) (succeeded : Bool) (b c : Builder)
    (declared kept extra : List NodeId) : Prop where
  ledger : Ledger h b c declared kept extra
  dropped : ∀ k, Dropped b c (declared ++ kept) k → succeeded = false ∧ (h.Doomed levels b →
    ∃ q, h.document.Reaches root q ∧ h.document.Holds q k ∧ (h.builds q = false ∨ Dropped b c (declared ++ kept) q))
  based : ∀ k ∈ declared, ∃ t ∈ declared, (t = root ∨ h.document.BaseOn root t) ∧
    (t = k ∨ h.document.EnclosesAmong declared t k)
  enclosed : ∀ k ∈ kept, h.document.EnclosesAmong kept p k
  reached : ∀ k ∈ declared ++ kept, h.document.Reaches root k

section Fate

variable {h : Headers} {root p i : NodeId} {levels : Nat} {succeeded : Bool} {b c : Builder}
  {declared kept extra : List NodeId}

/-- nothing new is remembered, and nothing is declared or kept -/
theorem Fate.still (hledger : Ledger h b c [] [] extra) (hsame : c.aggregates = b.aggregates) :
    Fate h root levels p succeeded b c [] [] extra := by
  refine ⟨hledger, fun k hk => ?_, fun _ hk => absurd hk List.not_mem_nil,
    fun _ hk => absurd hk List.not_mem_nil, fun _ hk => absurd hk List.not_mem_nil⟩
  have hsome := hk.remembered
  rw [hsame, hk.new] at hsome
  cases hsome

theorem Fate.refl (h : Headers) (root : NodeId) (levels : Nat) (p : NodeId) (succeeded : Bool) (b : Builder) :
    Fate h root levels p succeeded b b [] [] [] := .still (.refl h b) rfl

theorem bookkeeping_fate (h : Headers) (root : NodeId) (levels : Nat) (p : NodeId) :
    Build.Bookkeeping (Fate h root levels p) where
  noting succeeded b ns := .still ((Build.bookkeeping_ledger h).noting succeeded b ns) rfl
  awaiting ha := .still (Build.ledger_awaiting ha) rfl
  trans {_ b c d declared kept _ declared' kept' _} h₁ h₂ hgrows hwithin hwithin' := by
    have hparts : ∀ k, k ∈ declared ++ declared' ++ (kept ++ kept') ↔ k ∈ (declared ++ kept) ++ (declared' ++ kept') :=
      fun k => (append_parts_perm ..).mem_iff
    refine ⟨h₁.ledger.trans h₂.ledger hwithin hwithin' hgrows.current, fun k hk => ?_, fun k hk => ?_, fun k hk => ?_,
      fun k hk => ?_⟩
    · have hapart := hk.apart
      rw [hparts, List.mem_append, not_or] at hapart
      cases hc : c.aggregates.lookup k with
      | some a => exact nomatch (h₁.dropped k ⟨hk.new, hc ▸ rfl, hapart.1⟩).1
      | none =>
        refine (h₂.dropped k ⟨hc, hk.remembered, hapart.2⟩).imp_right fun hholder hdoomed => ?_
        obtain ⟨q, hreached, hholds, hq⟩ := hholder ⟨hgrows.underway ▸ hdoomed.path, hgrows.underway ▸ hdoomed.fails⟩
        refine ⟨q, hreached, hholds, hq.imp_right fun hq => ⟨?_, hq.remembered, fun hmem => ?_⟩⟩
        · exact hwithin.lookup_none hq.new
        · rw [hparts, List.mem_append, or_iff_left hq.apart] at hmem
          have hsome := (h₁.ledger.owned.built q hmem).2.1
          rw [hq.new] at hsome
          cases hsome
    · rcases List.mem_append.1 hk with hk | hk
      · obtain ⟨t, ht, hbase, hpath⟩ := h₁.based k hk
        exact ⟨t, List.mem_append_left _ ht, hbase, hpath.imp_right (·.mono (List.subset_append_left ..))⟩
      · obtain ⟨t, ht, hbase, hpath⟩ := h₂.based k hk
        exact ⟨t, List.mem_append_right _ ht, hbase, hpath.imp_right (·.mono (List.subset_append_right ..))⟩
    · rcases List.mem_append.1 hk with hk | hk
      · exact (h₁.enclosed k hk).mono (List.subset_append_left ..)
      · exact (h₂.enclosed k hk).mono (List.subset_append_right ..)
    · exact (List.mem_append.1 ((hparts k).1 hk)).elim (h₁.reached k) (h₂.reached k)

/-- what an owner's nested aggregates wait in holds the owner, or another owner does -/
theorem Fate.holder_of_kept (hf : Fate h root levels p succeeded b c declared kept extra) {k : NodeId} (hk : k ∈ kept) :
    ∃ q, h.document.Holds q k ∧ (q = p ∨ q ∈ kept) := by
  obtain ⟨q, hpath, hholds⟩ := Relation.TransGen.tail'_iff.1 (hf.enclosed k hk)
  refine ⟨q, hholds.1, ?_⟩
  cases hpath with
  | refl => exact .inl rfl
  | tail _ hq => exact .inr hq.2

/-- an aggregate that fails drops what waits in it -/
theorem Fate.abandoning (hf : Fate h root levels i succeeded (b.claiming i) c declared kept extra)
    (hreached : h.document.Reaches root i)
    (hfails : h.Doomed (levels + 1) b → h.Doomed levels (b.claiming i) ∧ h.builds i = false) :
    Fate h root (levels + 1) p false b (c.abandoning i b.waiting.length) declared [] [] := by
  refine ⟨hf.ledger.abandoning, fun k hk => ⟨rfl, fun hdoomed => ?_⟩, hf.based, fun _ hk => absurd hk List.not_mem_nil,
    fun k hk => hf.reached k (List.mem_append_left _ (by rwa [List.append_nil] at hk))⟩
  obtain ⟨hdoomed, hbuilds⟩ := hfails hdoomed
  have hapart := hk.apart
  rw [List.append_nil] at hapart ⊢
  by_cases hkept : k ∈ kept
  · obtain ⟨q, hholds, rfl | hq⟩ := hf.holder_of_kept hkept
    · exact ⟨q, hreached, hholds, .inl hbuilds⟩
    · have hmem : q ∈ declared ++ kept := List.mem_append_right _ hq
      obtain ⟨hnew, hsome, -⟩ := hf.ledger.owned.built q hmem
      refine ⟨q, hf.reached q hmem, hholds, .inr ⟨hnew, hsome, fun hdeclared => ?_⟩⟩
      exact (List.nodup_append'.1 hf.ledger.owned.nodup).2.2 hdeclared hq
  · have hboth : k ∉ declared ++ kept := fun hmem => (List.mem_append.1 hmem).elim hapart hkept
    obtain ⟨q, hq, hholds, hdropped⟩ := (hf.dropped k ⟨hk.new, hk.remembered, hboth⟩).2 hdoomed
    exact ⟨q, hq, hholds, hdropped.imp_right fun hq =>
      ⟨hq.new, hq.remembered, fun hdeclared => hq.apart (List.mem_append_left _ hdeclared)⟩⟩

/-- once an aggregate has succeeded, nothing was dropped on the way -/
theorem Fate.not_dropped (hf : Fate h root levels i true (b.claiming i) c declared kept extra) {d : Builder}
    {built : Aggregate} (hd : d.aggregates = (i, built) :: c.aggregates) {k : NodeId} :
    ¬Dropped b d (declared ++ (kept ++ [i])) k := by
  rintro ⟨hnew, hsome, hapart⟩
  rw [← List.append_assoc, List.mem_append, not_or, List.mem_singleton] at hapart
  rw [hd, List.lookup_cons, beq_false_of_ne hapart.2] at hsome
  exact nomatch (hf.dropped k ⟨hnew, hsome, hapart.1⟩).1

theorem Fate.reached_append (hf : Fate h root levels i true (b.claiming i) c declared kept extra)
    (hreached : h.document.Reaches root i) {k : NodeId} (hk : k ∈ declared ++ (kept ++ [i])) :
    h.document.Reaches root k := by
  rw [← List.append_assoc, List.mem_append, List.mem_singleton] at hk
  rcases hk with hk | rfl
  · exact hf.reached k hk
  · exact hreached

/-- an aggregate that is nested in another one keeps its own waiting, for the other one to take over -/
theorem Fate.nested (hf : Fate h root levels i true (b.claiming i) c declared kept extra) {built : Aggregate}
    {outer : Build.Enclosing} {mark : Nat}
    (hledger : Ledger h b (c.finishing i built (some outer) mark) declared (kept ++ [i]) [])
    (hholds : h.document.Holds p i) (hreached : h.document.Reaches root i) :
    Fate h root (levels + 1) p true b (c.finishing i built (some outer) mark) declared (kept ++ [i]) [] := by
  have hi : h.document.Holds p i ∧ i ∈ kept ++ [i] := ⟨hholds, List.mem_append_right _ (List.mem_singleton_self i)⟩
  refine ⟨hledger, fun k hk => absurd hk (hf.not_dropped rfl), hf.based, fun k hk => ?_,
    fun k => hf.reached_append hreached⟩
  rcases List.mem_append.1 hk with hk | hk
  · exact .head hi ((hf.enclosed k hk).mono (List.subset_append_left ..))
  · obtain rfl := List.mem_singleton.1 hk
    exact .single hi

/-- the outermost aggregate declares all that waits in it -/
theorem Fate.outermost (hf : Fate h root levels i true (b.claiming i) c declared kept extra) {built : Aggregate}
    {mark : Nat} (hledger : Ledger h b (c.finishing i built none mark) (declared ++ (kept ++ [i])) [] [])
    (hbase : i = root ∨ h.document.BaseOn root i) (hreached : h.document.Reaches root i) :
    Fate h root (levels + 1) p true b (c.finishing i built none mark) (declared ++ (kept ++ [i])) [] [] := by
  have hi : i ∈ declared ++ (kept ++ [i]) := by simp
  refine ⟨hledger, fun k hk => absurd hk ?_, fun k hk => ?_, fun _ hk => absurd hk List.not_mem_nil, fun k hk => ?_⟩
  · rw [List.append_nil]
    exact hf.not_dropped rfl
  · rcases List.mem_append.1 hk with hk | hk
    · obtain ⟨t, ht, hstart, hpath⟩ := hf.based k hk
      exact ⟨t, List.mem_append_left _ ht, hstart, hpath.imp_right (·.mono (List.subset_append_left ..))⟩
    · refine ⟨i, hi, hbase, ?_⟩
      rcases List.mem_append.1 hk with hk | hk
      · exact .inr ((hf.enclosed k hk).mono fun j hj => List.mem_append_right _ (List.mem_append_left _ hj))
      · obtain rfl := List.mem_singleton.1 hk
        exact .inl rfl
  · rw [List.append_nil] at hk
    exact hf.reached_append hreached hk

end Fate

end Builder

/-! ## The fate of what one aggregate needs -/

namespace Build

variable {h : Headers} {root : NodeId}

/-- how an element is asked for: as the root, as a base, or as a nested type of the element that asks -/
inductive Asked (d : Document) (root p i : NodeId) : Option Enclosing → Prop where
  | root : i = root → Asked d root p i none
  | base : d.BaseOn root i → Asked d root p i none
  | nested {outer : Enclosing} : d.Holds p i → Asked d root p i (some outer)

/-- what an element asks for while it is built -/
theorem AsksFor.asked {d : Document} {root i j : NodeId} {outer : Option Enclosing} (hasks : AsksFor d i j outer)
    (hreached : d.Reaches root i) : Asked d root i j outer ∧ d.Needs i j := by
  cases outer with
  | none => exact ⟨.base ⟨i, hreached, hasks⟩, .inl hasks⟩
  | some outer => exact ⟨.nested hasks, .inr hasks⟩

theorem aggregateWithin_fate (hd : h.document.Indexed) (levels : Nat) {i p : NodeId} {outer : Option Enclosing}
    (hasked : Asked h.document root p i outer) (hreached : h.document.Reaches root i) (hplaced : h.document.Placed i)
    (hname : h.document.NameOf i (aggregateName (h.document.node i).name outer)) {b : Builder}
    (hb : b.AggregatesSound h) :
    ∃ declared kept, Builder.Fate h root levels p (b.run (aggregateWithin h levels i outer)).1.isOk b
      (b.run (aggregateWithin h levels i outer)).2 declared kept [] ∧ (outer = none → kept = []) := by
  induction levels generalizing i p outer b with
  | zero => exact ⟨[], [], .refl .., fun _ => rfl⟩
  | succ levels ih =>
    have hfails := fun (e : BuildError) (hdoomed : h.Doomed (levels + 1) b) =>
      not_builds_of_error (e := e) hb hdoomed hname
    rw [Builder.run_aggregateWithin] at hfails ⊢
    cases hl : b.aggregates.lookup i with
    | some built => exact ⟨[], [], .refl .., fun _ => rfl⟩
    | none =>
      by_cases hi : i ∈ b.underway
      · simp only [hi, if_true]
        exact ⟨[], [], .refl .., fun _ => rfl⟩
      · have hbody : Accounted h (Builder.Fate h root levels i) (h.document.siblings (h.document.node i))
            (aggregateBody h (aggregateWithin h levels) (h.document.node i) outer) := by
          refine aggregateWithin_accounted (Builder.bookkeeping_fate h root levels i) hname ?_
          intro j outer' hasks hplaced' hname' c hc
          obtain ⟨hasked', hneeds⟩ := hasks.asked hreached
          obtain ⟨declared, kept, hfate, -⟩ := ih hasked' (hreached.tail hneeds) hplaced' hname' hc
          exact ⟨declared, kept, hfate⟩
        obtain ⟨hsound, hgrows, hwithin, declared, kept, extra, hfate, hextra⟩ := hbody (b.claiming i) (hb.claiming hl)
        simp only [hl, hi, if_false] at hfails ⊢
        generalize (b.claiming i).run (aggregateBody h (aggregateWithin h levels) (h.document.node i) outer) = p
          at hsound hgrows hwithin hfate hextra hfails
        obtain ⟨e | built, c⟩ := p
        · refine ⟨declared, [], hfate.abandoning hreached fun hdoomed => ?_, fun _ => rfl⟩
          have hbuilds : h.builds i = false := hfails e hdoomed rfl
          exact ⟨hdoomed.claiming hd hplaced hi hbuilds, hbuilds⟩
        · obtain rfl := hextra built rfl
          have hnew : c.aggregates.lookup i = none := hsound.unfinished i hgrows.mem_underway
          have hsettled : Builder.Ledger h b (c.finishing i built none b.waiting.length) (declared ++ (kept ++ [i]))
              [] [] := hfate.ledger.settling hplaced hwithin hnew hgrows.current
          cases hasked with
          | nested hholds =>
            refine ⟨declared, kept ++ [i], hfate.nested ?_ hholds hreached, fun h => nomatch h⟩
            exact hfate.ledger.keeping hplaced hwithin hnew
          | root hroot => exact ⟨_, [], hfate.outermost hsettled (.inl hroot) hreached, fun _ => rfl⟩
          | base hbase => exact ⟨_, [], hfate.outermost hsettled (.inr hbase) hreached, fun _ => rfl⟩

/-- **The fate of what an aggregate needs.** Whether or not it succeeds, it declares the nested aggregates of owners
that it built, and leaves nothing waiting. What else it came to remember, it dropped because it failed. -/
theorem aggregate_fate (hd : h.document.Indexed) {i : NodeId} (hplaced : h.document.Placed i) {c : Builder}
    (hc : Settled h c) :
    ∃ owners, Builder.Fate h i (h.document.nodes.size + 1) i (h.builds i) c (c.run (aggregate h i)).2 owners [] [] ∧
      h.Doomed (h.document.nodes.size + 1) c := by
  have hname : h.document.NameOf i (aggregateName (h.document.node i).name none) := .declared i
  obtain ⟨owners, kept, hfate, hkept⟩ :=
    aggregateWithin_fate hd (h.document.nodes.size + 1) (.root rfl) .refl hplaced hname hc.aggregatesSound
  obtain rfl := hkept rfl
  rw [← hc.isOk_aggregate i]
  refine ⟨owners, hfate, ⟨hc.underway ▸ .start _, fun u hu => ?_⟩⟩
  rw [hc.underway] at hu
  cases hu

end Build

end HeaderModel
