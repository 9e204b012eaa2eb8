/-
The ledger of nested aggregates.

A nested aggregate is declared beside the outermost one once for every named member that has it as its type. The
members belong to the aggregate in which it is nested, and that one is built once. So what an action declares, and what
it leaves waiting, is accounted for by the owners that it built (`Builder.Ledger`).
- `Ledger.trans`: accounts of two actions add up.
- `aggregate_ledger`: building an aggregate that is not nested, whether it succeeds or fails, declares the nested
  aggregates of owners that it built, and leaves nothing waiting.
-/
import HeaderModel.Proofs.Indexing
import HeaderModel.Proofs.Memory

namespace HeaderModel

/-! ## Named members of nested types -/

namespace Document

/-- the nested aggregate that a member declares: its type, if that is nested in the owner and the member has a name -/
def declaredBy (d : Document) (owner member : Node) : List NodeId :=
  match d.typePlace member with
  | .ok j => if Build.isNestedIn owner (d.node j) ∧ member.name ≠ "" then [j] else []
  | .error _ => []

/-- the nested aggregates that an element declares, one for each named member -/
def siblings (d : Document) (owner : Node) : List NodeId := (d.childrenOf owner .field).flatMap (d.declaredBy owner)

/-- the nested aggregates that owners declare -/
def siblingsOf (d : Document) (owners : List NodeId) : List NodeId := owners.flatMap fun k => d.siblings (d.node k)

@[simp] theorem siblingsOf_nil (d : Document) : d.siblingsOf [] = [] := rfl

@[simp] theorem siblingsOf_append (d : Document) (ks ls : List NodeId) :
    d.siblingsOf (ks ++ ls) = d.siblingsOf ks ++ d.siblingsOf ls := List.flatMap_append

@[simp] theorem siblingsOf_singleton (d : Document) (k : NodeId) : d.siblingsOf [k] = d.siblings (d.node k) :=
  List.flatMap_singleton _ _

/-- the nested aggregates that an element declares are types of its members, nested in it -/
theorem nests_of_mem_siblings {d : Document} {owner : Node} {j : NodeId} (hj : j ∈ d.siblings owner) :
    d.Nests owner j := by
  obtain ⟨f, hmem, hf⟩ := List.mem_flatMap.1 hj
  unfold declaredBy at hf
  split at hf
  · rename_i hplace
    split_ifs at hf with hcond
    · obtain rfl := List.mem_singleton.1 hf
      exact ⟨f, hmem, hplace, hcond.1⟩
    · exact absurd hf List.not_mem_nil
  · exact absurd hf List.not_mem_nil

theorem isNestedIn_of_mem_siblings {d : Document} {owner : Node} {j : NodeId} (hj : j ∈ d.siblings owner) :
    Build.isNestedIn owner (d.node j) = true := (nests_of_mem_siblings hj).isNestedIn

/-- a nested element names the element in which it is nested as its context -/
theorem context_of_isNestedIn {owner type : Node} (hnest : Build.isNestedIn owner type = true) :
    type.attr? "context" = some owner.id := by
  unfold Build.isNestedIn at hnest
  simpa using (Bool.and_eq_true_iff.1 hnest).2

theorem isAggregate_of_isNestedIn {owner type : Node} (hnest : Build.isNestedIn owner type = true) :
    type.kind.isAggregate = true := (Bool.and_eq_true_iff.1 hnest).1

/-- an element is nested in one element only -/
theorem Indexed.owner_unique {d : Document} (hd : d.Indexed) {k l j : NodeId} (hk : d.Placed k) (hl : d.Placed l)
    (hjk : Build.isNestedIn (d.node k) (d.node j) = true) (hjl : Build.isNestedIn (d.node l) (d.node j) = true) :
    k = l := by
  have hid : (d.node k).id = (d.node l).id :=
    Option.some.inj ((context_of_isNestedIn hjk).symm.trans (context_of_isNestedIn hjl))
  have hplace := hd.placeOf_id hk
  rw [hid, hd.placeOf_id hl] at hplace
  exact (Except.ok.inj hplace).symm

end Document

/-- two lists of two parts, joined part by part -/
theorem append_parts_perm {α : Type} (as bs as' bs' : List α) :
    (as ++ as' ++ (bs ++ bs')).Perm ((as ++ bs) ++ (as' ++ bs')) := by
  rw [List.append_assoc, List.append_assoc]
  refine List.Perm.append_left as ?_
  rw [← List.append_assoc, ← List.append_assoc]
  exact List.perm_append_comm.append_right bs'

/-- the declaration of a remembered aggregate -/
def recordOf (memory : List (NodeId × Aggregate)) (j : NodeId) : Entry :=
  ⟨some j, .aggregate ((memory.lookup j).getD ⟨"", false, none, []⟩)⟩

theorem recordOf_eq {memory : List (NodeId × Aggregate)} {j : NodeId} {a : Aggregate} (ha : memory.lookup j = some a) :
    recordOf memory j = ⟨some j, .aggregate a⟩ := by
  rw [recordOf, ha]
  rfl

/-- the nested aggregates of owners come to nothing exactly if no owner has any -/
theorem siblings_records_eq_nil_iff {d : Document} {owners : List NodeId} {memory : List (NodeId × Aggregate)}
    {es : List Entry} (hes : es.Perm ((d.siblingsOf owners).map (recordOf memory))) :
    es = [] ↔ ∀ k ∈ owners, d.siblings (d.node k) = [] := by
  have hempty : es = [] ↔ d.siblingsOf owners = [] := by
    constructor
    · rintro rfl
      exact List.map_eq_nil_iff.1 hes.nil_eq.symm
    · intro hnil
      rw [hnil] at hes
      exact hes.eq_nil
  rw [hempty]
  exact List.flatMap_eq_nil_iff

/-! ## Ledgers -/

namespace Builder

/-- owners were built between two builders, and other elements are remembered by the end -/
structure Owned (h : Headers) (b c : Builder) (owners js : List NodeId) : Prop where
  built : ∀ k ∈ owners, b.aggregates.lookup k = none ∧ (c.aggregates.lookup k).isSome ∧ h.document.Placed k
  nodup : owners.Nodup
  known : ∀ j ∈ js, (c.aggregates.lookup j).isSome

/-- All that was declared and came to wait between two builders, in terms of owners that were built between them: the
nested aggregates of some owners are declared, those of others wait, and some extra ones wait. -/
structure Ledger (h : Headers) (b c : Builder) (declared kept extra : List NodeId) : Prop where
  owned : Owned h b c (declared ++ kept) (h.document.siblingsOf (declared ++ kept) ++ extra)
  module : ∃ es, c.module = b.module.adding b.current es ∧
    es.Perm ((h.document.siblingsOf declared).map (recordOf c.aggregates))
  waiting : ∃ ws, c.waiting = b.waiting ++ ws ∧
    ws.Perm ((h.document.siblingsOf kept ++ extra).map (recordOf c.aggregates))

section Ledger

variable {h : Headers} {b c d : Builder}

theorem Within.isSome {i : NodeId} (hw : b.Within c) (hi : (b.aggregates.lookup i).isSome) :
    (c.aggregates.lookup i).isSome := by
  obtain ⟨a, ha⟩ := Option.isSome_iff_exists.1 hi
  rw [hw.aggregates i a ha]
  rfl

/-- what is not remembered later was not remembered before -/
theorem Within.lookup_none {i : NodeId} (hw : b.Within c) (hi : c.aggregates.lookup i = none) :
    b.aggregates.lookup i = none := by
  cases hb : b.aggregates.lookup i with
  | none => rfl
  | some a =>
    rw [hw.aggregates i a hb] at hi
    cases hi

/-- what is remembered is declared the same later on -/
theorem Within.map_recordOf {is : List NodeId} (hw : b.Within c) (hi : ∀ i ∈ is, (b.aggregates.lookup i).isSome) :
    is.map (recordOf c.aggregates) = is.map (recordOf b.aggregates) := by
  refine List.map_congr_left fun i hmem => ?_
  obtain ⟨a, ha⟩ := Option.isSome_iff_exists.1 (hi i hmem)
  rw [recordOf_eq ha, recordOf_eq (hw.aggregates i a ha)]

section Owned

variable {owners owners' js js' : List NodeId}

theorem Owned.nil (h : Headers) (b c : Builder) : Owned h b c [] [] :=
  ⟨fun _ hk => absurd hk List.not_mem_nil, .nil, fun _ hj => absurd hj List.not_mem_nil⟩

theorem Owned.perm (ho : Owned h b c owners js) (hk : owners'.Perm owners) (hj : js' ⊆ js) : Owned h b c owners' js' :=
  ⟨fun k hk' => ho.built k (hk.mem_iff.1 hk'), hk.nodup_iff.2 ho.nodup, fun j hj' => ho.known j (hj hj')⟩

theorem Owned.trans (h₁ : Owned h b c owners js) (h₂ : Owned h c d owners' js') (hbc : b.Within c) (hcd : c.Within d) :
    Owned h b d (owners ++ owners') (js ++ js') := by
  refine ⟨fun k hk => ?_, ?_, fun j hj => ?_⟩
  · rcases List.mem_append.1 hk with hk | hk
    · obtain ⟨hnone, hsome, hplaced⟩ := h₁.built k hk
      exact ⟨hnone, hcd.isSome hsome, hplaced⟩
    · exact ⟨hbc.lookup_none (h₂.built k hk).1, (h₂.built k hk).2⟩
  · refine List.nodup_append'.2 ⟨h₁.nodup, h₂.nodup, fun k hk hk' => ?_⟩
    have hsome := (h₁.built k hk).2.1
    rw [(h₂.built k hk').1] at hsome
    cases hsome
  · rcases List.mem_append.1 hj with hj | hj
    · exact hcd.isSome (h₁.known j hj)
    · exact h₂.known j hj

end Owned

variable {declared kept extra declared' kept' extra' : List NodeId}

theorem Ledger.refl (h : Headers) (b : Builder) : Ledger h b b [] [] [] :=
  ⟨.nil h b b, ⟨[], (Module.adding_nil ..).symm, .nil⟩, ⟨[], (List.append_nil _).symm, .nil⟩⟩

/-- what two actions declare and keep adds up -/
theorem Ledger.trans (h₁ : Ledger h b c declared kept extra) (h₂ : Ledger h c d declared' kept' extra')
    (hbc : b.Within c) (hcd : c.Within d) (hcurrent : c.current = b.current) :
    Ledger h b d (declared ++ declared') (kept ++ kept') (extra ++ extra') := by
  have hknown : ∀ j ∈ h.document.siblingsOf declared ++ (h.document.siblingsOf kept ++ extra),
      (c.aggregates.lookup j).isSome := by
    intro j hj
    refine h₁.owned.known j ?_
    rwa [Document.siblingsOf_append, List.append_assoc]
  refine ⟨(h₁.owned.trans h₂.owned hbc hcd).perm (append_parts_perm ..) fun j hj => ?_, ?_, ?_⟩
  · simp only [Document.siblingsOf_append, List.mem_append] at hj ⊢
    tauto
  · obtain ⟨es, hes, hperm⟩ := h₁.module
    obtain ⟨es', hes', hperm'⟩ := h₂.module
    refine ⟨es ++ es', by rw [hes', hes, hcurrent, Module.adding_append], ?_⟩
    rw [Document.siblingsOf_append, List.map_append,
      hcd.map_recordOf fun j hj => hknown j (List.mem_append_left _ hj)]
    exact hperm.append hperm'
  · obtain ⟨ws, hws, hperm⟩ := h₁.waiting
    obtain ⟨ws', hws', hperm'⟩ := h₂.waiting
    refine ⟨ws ++ ws', by rw [hws', hws, List.append_assoc], ?_⟩
    rw [← hcd.map_recordOf fun j hj => hknown j (List.mem_append_right _ hj)] at hperm
    refine (hperm.append hperm').trans ?_
    rw [← List.map_append, Document.siblingsOf_append]
    exact (append_parts_perm ..).symm.map _

end Ledger

end Builder

namespace Build

variable {α β ι : Type} {h : Headers}

/-! ## Accounted actions -/

/-- a kind of account between two builders, of what is declared, what is kept waiting, and what waits beside that,
after a run that succeeded or failed -/
abbrev Account := Bool → Builder → Builder → List NodeId → List NodeId → List NodeId → Prop

/-- accounts take in notices and waiting aggregates, and those of two runs add up -/
structure Bookkeeping (L : Account) : Prop where
  noting : ∀ succeeded b ns, L succeeded b (b.noting ns) [] [] []
  awaiting : ∀ {b : Builder} {j a}, b.aggregates.lookup j = some a →
    L true b (b.awaiting ⟨some j, .aggregate a⟩) [] [] [j]
  trans : ∀ {succeeded} {b c d : Builder} {declared kept extra declared' kept' extra'}, L true b c declared kept extra →
    L succeeded c d declared' kept' extra' → b.Grows c → b.Within c → c.Within d →
    L succeeded b d (declared ++ declared') (kept ++ kept') (extra ++ extra')

theorem Bookkeeping.refl {L : Account} (hL : Bookkeeping L) (succeeded : Bool) (b : Builder) :
    L succeeded b b [] [] [] := by
  have hnoted := hL.noting succeeded b []
  rwa [Builder.noting_nil] at hnoted

/-- a remembered aggregate comes to wait -/
theorem ledger_awaiting {b : Builder} {j : NodeId} {a : Aggregate} (ha : b.aggregates.lookup j = some a) :
    Builder.Ledger h b (b.awaiting ⟨some j, .aggregate a⟩) [] [] [j] := by
  have hnil := Builder.Owned.nil h b (b.awaiting ⟨some j, .aggregate a⟩)
  refine ⟨⟨hnil.built, hnil.nodup, fun k hk => ?_⟩, (Builder.Ledger.refl h b).module,
    ⟨[recordOf b.aggregates j], ?_, .refl _⟩⟩
  · obtain rfl := List.mem_singleton.1 hk
    exact Option.isSome_iff_exists.2 ⟨a, ha⟩
  · rw [recordOf_eq ha]
    rfl

theorem bookkeeping_ledger (h : Headers) : Bookkeeping fun _ => Builder.Ledger h where
  noting _ b _ := ⟨.nil h _ _, (Builder.Ledger.refl h b).module, (Builder.Ledger.refl h b).waiting⟩
  awaiting := ledger_awaiting
  trans h₁ h₂ hgrows hwithin hwithin' := h₁.trans h₂ hwithin hwithin' hgrows.current

/-- the action keeps a builder sound and has an account; if it succeeds, given extra aggregates have come to wait -/
def Accounted (h : Headers) (L : Account) (extra : List NodeId) (x : Build α) : Prop :=
  ∀ b : Builder, b.AggregatesSound h →
    (b.run x).2.AggregatesSound h ∧ b.Grows (b.run x).2 ∧ b.Within (b.run x).2 ∧
      ∃ declared kept extra', L (b.run x).1.isOk b (b.run x).2 declared kept extra' ∧
        ∀ a, (b.run x).1 = .ok a → extra' = extra

/-- what the action returns is remembered as an element -/
def Remembers (h : Headers) (i : NodeId) (x : Build Aggregate) : Prop :=
  ∀ b : Builder, b.AggregatesSound h → ∀ a, (b.run x).1 = .ok a → (b.run x).2.aggregates.lookup i = some a

section Rules

variable {L : Account} (hL : Bookkeeping L)
include hL

theorem Steady.accounted {x : Build α} (hx : Steady x) : Accounted h L [] x := by
  obtain ⟨r, ns, hx⟩ := hx
  intro b hb
  rw [hx]
  exact ⟨⟨hb.grounded, hb.unfinished⟩, b.grows_noting ns, ⟨fun _ _ => id, fun _ _ => id⟩, [], [], [],
    hL.noting r.isOk b ns, fun _ _ => rfl⟩

theorem Accounted.bind {extra extra' : List NodeId} {x : Build α} {f : α → Build β} (hx : Accounted h L extra x)
    (hf : ∀ a, Accounted h L extra' (f a)) : Accounted h L (extra ++ extra') (x >>= f) := by
  intro b hb
  obtain ⟨hsound, hgrows, hwithin, declared, kept, found, haccount, hfound⟩ := hx b hb
  rw [Builder.run_bind]
  generalize b.run x = p at hsound hgrows hwithin haccount hfound
  obtain ⟨e | a, c⟩ := p
  · exact ⟨hsound, hgrows, hwithin, declared, kept, found, haccount, fun _ h => nomatch h⟩
  · obtain ⟨hsound', hgrows', hwithin', declared', kept', found', haccount', hfound'⟩ := hf a c hsound
    refine ⟨hsound', hgrows.trans hgrows', hwithin.trans hwithin', declared ++ declared', kept ++ kept',
      found ++ found', hL.trans haccount haccount' hgrows hwithin hwithin', fun a' ha' => ?_⟩
    rw [hfound a rfl, hfound' a' ha']

/-- an action that leaves nothing extra waiting, and what follows -/
theorem Accounted.andThen {extra : List NodeId} {x : Build α} {f : α → Build β} (hx : Accounted h L [] x)
    (hf : ∀ a, Accounted h L extra (f a)) : Accounted h L extra (x >>= f) := Accounted.bind hL hx hf

theorem Accounted.of_bind {extra : List NodeId} {r : Except BuildError α} {f : α → Build β}
    (hf : ∀ a, r = .ok a → Accounted h L extra (f a)) : Accounted h L extra (of r >>= f) := by
  cases r with
  | ok a => exact hf a rfl
  | error e =>
    intro b hb
    rw [Builder.run_bind_error (Builder.run_of b _)]
    exact ⟨hb, .refl b, .refl b, [], [], [], hL.refl false b, fun _ h => nomatch h⟩

theorem Accounted.foldlM {extra : ι → List NodeId} {f : α → ι → Build α} {xs : List ι}
    (hf : ∀ i ∈ xs, ∀ s, Accounted h L (extra i) (f s i)) (s : α) :
    Accounted h L (xs.flatMap extra) (xs.foldlM f s) := by
  induction xs generalizing s with
  | nil => exact (steady_pure s).accounted hL
  | cons i xs ih =>
    rw [List.foldlM_cons, List.flatMap_cons]
    exact (hf i List.mem_cons_self s).bind hL fun s' => ih (fun j hj => hf j (List.mem_cons_of_mem i hj)) s'

theorem Accounted.awaited {x : Build Aggregate} {j : NodeId} (hx : Accounted h L [] x) (hj : Remembers h j x)
    (f : Aggregate → α) :
    Accounted h L [j] (do
      let inner ← x
      modify (·.awaiting ⟨some j, .aggregate inner⟩)
      return f inner) := by
  intro b hb
  obtain ⟨hsound, hgrows, hwithin, declared, kept, found, haccount, hfound⟩ := hx b hb
  have hremembered := hj b hb
  rw [Builder.run_bind]
  generalize b.run x = p at hsound hgrows hwithin haccount hfound hremembered
  obtain ⟨e | inner, c⟩ := p
  · exact ⟨hsound, hgrows, hwithin, declared, kept, found, haccount, fun _ h => nomatch h⟩
  · have hwait : c.Within (c.awaiting ⟨some j, .aggregate inner⟩) := ⟨fun _ _ => id, fun _ _ => id⟩
    have haccount' := hL.trans haccount (hL.awaiting (hremembered inner rfl)) hgrows hwithin hwait
    refine ⟨⟨hsound.grounded, hsound.unfinished⟩, hgrows.trans (c.grows_awaiting rfl), ⟨hwithin.aggregates,
      hwithin.interfaces⟩, _, _, _, haccount', fun _ _ => ?_⟩
    rw [hfound inner rfl]
    rfl

/-! ## The body of an aggregate -/

theorem member_accounted {build : NodeId → Option Enclosing → Build Aggregate} {owner n : Node} {name : String}
    (hn : n ∈ h.document.childrenOf owner .field)
    (hbuild : ∀ j k, h.document.Nests owner j → h.document.Placed j →
      Accounted h L [] (build j (some ⟨name, k⟩)) ∧ Remembers h j (build j (some ⟨name, k⟩))) (l : Layout) :
    Accounted h L (h.document.declaredBy owner n) (member h build owner name l n) := by
  refine ((steady_field h l.offset n).accounted hL).andThen hL fun f => ?_
  refine .of_bind hL fun typeId hid => .of_bind hL fun j hj => ?_
  have hplace : h.document.typePlace n = .ok j := by
    rw [Document.typePlace, hid]
    exact hj
  have hextra : h.document.declaredBy owner n =
      if isNestedIn owner (h.document.node j) ∧ n.name ≠ "" then [j] else [] := by
    rw [Document.declaredBy, hplace]
  rw [hextra]
  by_cases hnest : isNestedIn owner (h.document.node j)
  · obtain ⟨haccounted, hremembers⟩ := hbuild j l.nested ⟨n, hn, hplace, hnest⟩ ⟨typeId, hj⟩
    by_cases hname : n.name = ""
    · simp only [hnest, hname, ne_eq, not_true, and_false, if_false, if_true]
      exact haccounted.andThen hL fun inner => (steady_pure _).accounted hL
    · simp only [hnest, hname, ne_eq, not_false_iff, and_self, if_true, if_false]
      exact haccounted.awaited hL hremembers _
  · simp only [hnest]
    exact (steady_pure _).accounted hL

theorem baseName_accounted {build : NodeId → Option Enclosing → Build Aggregate} {n : Node}
    (hbuild : ∀ j, h.document.ListsBase n j → h.document.Placed j → Accounted h L [] (build j none)) :
    Accounted h L [] (baseName h build n) := by
  have hfold : Accounted h L (n.bases.flatMap fun _ => []) (baseName h build n) :=
    Accounted.foldlM hL (fun id hid recorded => .of_bind hL fun j hj =>
      (hbuild j ⟨id, hid, hj⟩ ⟨id, hj⟩).andThen hL fun _ => (steady_pure _).accounted hL) none
  rwa [List.flatMap_eq_nil_iff.2 fun _ _ => rfl] at hfold

/-- the body of an aggregate leaves its own nested aggregates waiting, one for each named member -/
theorem aggregateBody_accounted {build : NodeId → Option Enclosing → Build Aggregate} {n : Node}
    {outer : Option Enclosing}
    (hbase : ∀ j, h.document.ListsBase n j → h.document.Placed j → Accounted h L [] (build j none))
    (hnest : ∀ j k, h.document.Nests n j → h.document.Placed j →
      Accounted h L [] (build j (some ⟨aggregateName n.name outer, k⟩)) ∧
        Remembers h j (build j (some ⟨aggregateName n.name outer, k⟩))) :
    Accounted h L (h.document.siblings n) (aggregateBody h build n outer) := by
  refine (baseName_accounted hL hbase).andThen hL fun base => ?_
  rw [← List.append_nil (h.document.siblings n)]
  exact (Accounted.foldlM hL (fun f hf l => member_accounted hL hf hnest l) Layout.start).bind hL fun l =>
    (steady_pure _).accounted hL

end Rules

end Build

/-! ## The end of an aggregate -/

namespace Builder

section Closing

variable {h : Headers} {b c : Builder} {i : NodeId} {declared kept extra : List NodeId}

/-- an aggregate that fails gives up what waits, but not what is declared -/
theorem Ledger.abandoning (hl : Ledger h (b.claiming i) c declared kept extra) :
    Ledger h b (c.abandoning i b.waiting.length) declared [] [] := by
  obtain ⟨ws, hws, -⟩ := hl.waiting
  refine ⟨⟨fun k hk => hl.owned.built k ?_, ?_, fun j hj => hl.owned.known j ?_⟩, hl.module, [], ?_, .nil⟩
  · rw [List.append_nil] at hk
    exact List.mem_append_left _ hk
  · rw [List.append_nil]
    exact hl.owned.nodup.of_append_left
  · simp only [List.append_nil, Document.siblingsOf_append, List.mem_append] at hj ⊢
    exact .inl (.inl hj)
  · rw [Builder.abandoning, hws, List.append_nil]
    exact List.take_left

/-- an aggregate that succeeds takes its own nested aggregates over -/
theorem Ledger.adopt (hl : Ledger h (b.claiming i) c declared kept (h.document.siblings (h.document.node i)))
    (hplaced : h.document.Placed i) (hbc : (b.claiming i).Within c) (hc : c.aggregates.lookup i = none) {a : Aggregate}
    {d : Builder} (hcd : c.Within d) (hd : d.aggregates.lookup i = some a)
    (hmodule : d.module = c.module) (hwaiting : d.waiting = c.waiting) :
    Ledger h b d declared (kept ++ [i]) [] := by
  have hknown : ∀ j ∈ h.document.siblingsOf declared ++
      (h.document.siblingsOf kept ++ h.document.siblings (h.document.node i)), (c.aggregates.lookup j).isSome := by
    intro j hj
    refine hl.owned.known j ?_
    rwa [Document.siblingsOf_append, List.append_assoc]
  have hi : Owned h c d [i] [] :=
    ⟨fun k hk => by
      obtain rfl := List.mem_singleton.1 hk
      exact ⟨hc, Option.isSome_iff_exists.2 ⟨a, hd⟩, hplaced⟩,
    List.nodup_singleton i, fun _ hj => absurd hj List.not_mem_nil⟩
  have howned := hl.owned.trans hi hbc hcd
  rw [List.append_assoc] at howned
  refine ⟨⟨howned.built, howned.nodup, fun j hj => howned.known j ?_⟩, ?_, ?_⟩
  · simpa using hj
  · obtain ⟨es, hes, hperm⟩ := hl.module
    refine ⟨es, hmodule.trans hes, ?_⟩
    rw [hcd.map_recordOf fun j hj => hknown j (List.mem_append_left _ hj)]
    exact hperm
  · obtain ⟨ws, hws, hperm⟩ := hl.waiting
    refine ⟨ws, hwaiting.trans hws, ?_⟩
    rw [List.append_nil, Document.siblingsOf_append, Document.siblingsOf_singleton,
      hcd.map_recordOf fun j hj => hknown j (List.mem_append_right _ hj)]
    exact hperm

/-- what waited is declared -/
theorem Ledger.declareKept (hl : Ledger h b c declared kept []) {d : Builder} (hd : d.aggregates = c.aggregates)
    (hcurrent : c.current = b.current)
    (hmodule : d.module = c.module.adding c.current (c.waiting.drop b.waiting.length))
    (hwaiting : d.waiting = c.waiting.take b.waiting.length) : Ledger h b d (declared ++ kept) [] [] := by
  obtain ⟨es, hes, hperm⟩ := hl.module
  obtain ⟨ws, hws, hperm'⟩ := hl.waiting
  rw [List.append_nil] at hperm'
  refine ⟨?_, ⟨es ++ ws, ?_, ?_⟩, ⟨[], ?_, .nil⟩⟩
  · rw [List.append_nil (declared ++ kept)]
    exact ⟨hd ▸ hl.owned.built, hl.owned.nodup, hd ▸ hl.owned.known⟩
  · rw [hmodule, hws, List.drop_left, hes, hcurrent, Module.adding_append]
  · rw [hd, Document.siblingsOf_append, List.map_append]
    exact hperm.append hperm'
  · rw [hwaiting, hws, List.take_left, List.append_nil]

/-- a nested aggregate that succeeds keeps what waits, for the one in which it is nested -/
theorem Ledger.keeping (hl : Ledger h (b.claiming i) c declared kept (h.document.siblings (h.document.node i)))
    (hplaced : h.document.Placed i) (hbc : (b.claiming i).Within c) (hc : c.aggregates.lookup i = none)
    {built : Aggregate} {outer : Build.Enclosing} {mark : Nat} :
    Ledger h b (c.finishing i built (some outer) mark) declared (kept ++ [i]) [] :=
  hl.adopt hplaced hbc hc ⟨fun _ _ => lookup_cons_of_some hc, fun _ _ => id⟩ List.lookup_cons_self rfl rfl

/-- any other aggregate that succeeds declares what waits -/
theorem Ledger.settling (hl : Ledger h (b.claiming i) c declared kept (h.document.siblings (h.document.node i)))
    (hplaced : h.document.Placed i) (hbc : (b.claiming i).Within c) (hc : c.aggregates.lookup i = none)
    (hcurrent : c.current = b.current) {built : Aggregate} :
    Ledger h b (c.finishing i built none b.waiting.length) (declared ++ (kept ++ [i])) [] [] := by
  have hadopted : Ledger h b { c with aggregates := (i, built) :: c.aggregates } declared (kept ++ [i]) [] :=
    hl.adopt hplaced hbc hc ⟨fun _ _ => lookup_cons_of_some hc, fun _ _ => id⟩ List.lookup_cons_self rfl rfl
  exact hadopted.declareKept rfl hcurrent rfl rfl

end Closing

end Builder

namespace Build

variable {h : Headers}

theorem aggregateWithin_remembers (levels : Nat) {i : NodeId} {outer : Option Enclosing}
    (hname : h.document.NameOf i (aggregateName (h.document.node i).name outer)) :
    Remembers h i (aggregateWithin h levels i outer) := by
  intro b hb a ha
  exact run_recallFrom_eq_ok.1 ((aggregateWithin_recounts levels i outer hname b hb).2.2.2 a ha _ (.refl _) b)

theorem aggregate_remembers (i : NodeId) : Remembers h i (aggregate h i) := fun b hb a ha =>
  run_recallFrom_eq_ok.1 ((aggregate_recounts i b hb).2.2.2 a ha _ (.refl _) b)

/-- an element asks for its bases as they are, and for the nested types of its members with itself around them -/
def AsksFor (d : Document) (i j : NodeId) : Option Enclosing → Prop
  | none => d.ListsBase (d.node i) j
  | some _ => d.Nests (d.node i) j

/-- the body of an aggregate is accounted for if the aggregates that it asks for are -/
theorem aggregateWithin_accounted {L : Account} (hL : Bookkeeping L) {levels : Nat} {i : NodeId}
    {outer : Option Enclosing} (hname : h.document.NameOf i (aggregateName (h.document.node i).name outer))
    (hchild : ∀ j outer', AsksFor h.document i j outer' → h.document.Placed j →
      h.document.NameOf j (aggregateName (h.document.node j).name outer') → ∀ b : Builder, b.AggregatesSound h →
        ∃ declared kept, L (b.run (aggregateWithin h levels j outer')).1.isOk b
          (b.run (aggregateWithin h levels j outer')).2 declared kept []) :
    Accounted h L (h.document.siblings (h.document.node i))
      (aggregateBody h (aggregateWithin h levels) (h.document.node i) outer) := by
  have haccounted : ∀ j outer', AsksFor h.document i j outer' → h.document.Placed j →
      h.document.NameOf j (aggregateName (h.document.node j).name outer') →
      Accounted h L [] (aggregateWithin h levels j outer') := by
    intro j outer' hasks hplaced hname' b hb
    obtain ⟨hsound, hgrows, hwithin, -⟩ := aggregateWithin_recounts levels j outer' hname' b hb
    obtain ⟨declared, kept, haccount⟩ := hchild j outer' hasks hplaced hname' b hb
    exact ⟨hsound, hgrows, hwithin, declared, kept, [], haccount, fun _ _ => rfl⟩
  refine aggregateBody_accounted hL (fun j hj hplaced => ?_) fun j k hj hplaced => ?_
  · exact haccounted j none hj hplaced (.declared j)
  · have hname' : h.document.NameOf j (aggregateName (h.document.node j).name
        (some ⟨aggregateName (h.document.node i).name outer, k⟩)) := .nested hname hj.isNestedIn
    exact ⟨haccounted j (some _) hj hplaced hname', aggregateWithin_remembers levels hname'⟩

theorem aggregateWithin_ledger (levels : Nat) {i : NodeId} {outer : Option Enclosing} (hplaced : h.document.Placed i)
    (hname : h.document.NameOf i (aggregateName (h.document.node i).name outer)) {b : Builder}
    (hb : b.AggregatesSound h) :
    ∃ declared kept, Builder.Ledger h b (b.run (aggregateWithin h levels i outer)).2 declared kept [] ∧
      (outer = none → kept = []) := by
  induction levels generalizing i outer b with
  | zero => exact ⟨[], [], .refl h b, fun _ => rfl⟩
  | succ levels ih =>
    rw [Builder.run_aggregateWithin]
    cases hl : b.aggregates.lookup i with
    | some built => exact ⟨[], [], .refl h b, fun _ => rfl⟩
    | none =>
      by_cases hi : i ∈ b.underway
      · simp only [hi, if_true]
        exact ⟨[], [], .refl h b, fun _ => rfl⟩
      · have hbody : Accounted h (fun _ => Builder.Ledger h) (h.document.siblings (h.document.node i))
            (aggregateBody h (aggregateWithin h levels) (h.document.node i) outer) := by
          refine aggregateWithin_accounted (bookkeeping_ledger h) hname ?_
          intro j outer' _ hplaced' hname' c hc
          obtain ⟨declared, kept, hledger, -⟩ := ih hplaced' hname' hc
          exact ⟨declared, kept, hledger⟩
        obtain ⟨hsound, hgrows, hwithin, declared, kept, extra, hledger, hextra⟩ :=
          hbody (b.claiming i) (hb.claiming hl)
        simp only [hi, if_false]
        generalize (b.claiming i).run (aggregateBody h (aggregateWithin h levels) (h.document.node i) outer) = p
          at hsound hgrows hwithin hledger hextra
        obtain ⟨e | built, c⟩ := p
        · exact ⟨declared, [], hledger.abandoning, fun _ => rfl⟩
        · obtain rfl := hextra built rfl
          have hnew : c.aggregates.lookup i = none := hsound.unfinished i hgrows.mem_underway
          cases outer with
          | some outer => exact ⟨declared, kept ++ [i], hledger.keeping hplaced hwithin hnew, fun h => nomatch h⟩
          | none => exact ⟨_, [], hledger.settling hplaced hwithin hnew hgrows.current, fun _ => rfl⟩

/-- **The ledger of an aggregate that is not nested:** whether or not it succeeds, it declares the nested aggregates of
owners that it built, each as often as the owner has named members of it, and leaves nothing waiting. -/
theorem aggregate_ledger {i : NodeId} (hplaced : h.document.Placed i) {b : Builder} (hb : b.AggregatesSound h) :
    ∃ owners, Builder.Ledger h b (b.run (aggregate h i)).2 owners [] [] := by
  have hname : h.document.NameOf i (aggregateName (h.document.node i).name none) := .declared i
  obtain ⟨owners, kept, hledger, hkept⟩ := aggregateWithin_ledger (h.document.nodes.size + 1) hplaced hname hb
  obtain rfl := hkept rfl
  exact ⟨owners, hledger⟩

end Build

end HeaderModel
