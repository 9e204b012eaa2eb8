/-
Counting slots in 32 bits.

The slots of an interface are counted by an unsigned number of 32 bits, and the counts of all bases are added up. The
exact number of slots (`Document.SlotSum`) goes along every path to a base, so it can double from one level to the next.
A sum that does not fit stops the program, without an answer.
- `counts_of_grounded`: what is remembered was counted exactly.
- `interfaceWithin_overflow`: the program stops only for an interface whose slots do not fit (`Document.Overfull`).
- `interface_counted`: after any requests, a lookup of an interface counts exactly or leads to one that is overfull.
- `doubled_slots_overflow`: an interface over 31 levels that double the slots, for which the program stops.
-/
import HeaderModel.Proofs.Blame
import HeaderModel.Proofs.VtableSlots

namespace HeaderModel

/-! ## Exact numbers of slots -/

namespace Document

/-- the exact number of slots of interfaces given by their ids: those of their bases, each as often as it is listed, and
their own -/
inductive SlotSum (d : Document) : List String → Nat → Prop where
  | nil : SlotSum d [] 0
  | cons {id : String} {ids : List String} {n : Node} {start sum : Nat} : d.element id = .ok n →
      SlotSum d n.bases start → SlotSum d ids sum →
      SlotSum d (id :: ids) (start + (d.slotOpeners id).length + sum)

section SlotSum

variable {d : Document} {ids : List String} {sum sum' : Nat}

theorem SlotSum.unique (hsum : d.SlotSum ids sum) (hsum' : d.SlotSum ids sum') : sum = sum' := by
  induction hsum generalizing sum' with
  | nil =>
    cases hsum'
    rfl
  | cons hid _ _ ihbases ihrest =>
    cases hsum' with
    | cons hid' hbases hrest =>
      obtain rfl := Except.ok.inj (hid.symm.trans hid')
      rw [ihbases hbases, ihrest hrest]

theorem SlotSum.append {ids' : List String} (hsum : d.SlotSum ids sum) (hsum' : d.SlotSum ids' sum') :
    d.SlotSum (ids ++ ids') (sum + sum') := by
  induction hsum with
  | nil =>
    rw [Nat.zero_add]
    exact hsum'
  | cons hid hbases _ _ ih =>
    rw [Nat.add_assoc]
    exact .cons hid hbases ih

theorem SlotSum.of_append {ids' : List String} (hsum : d.SlotSum (ids ++ ids') sum) :
    ∃ first rest, d.SlotSum ids first ∧ d.SlotSum ids' rest ∧ first + rest = sum := by
  induction ids generalizing sum with
  | nil => exact ⟨0, sum, .nil, hsum, Nat.zero_add _⟩
  | cons id ids ih =>
    cases hsum with
    | cons hid hbases hrest =>
      obtain ⟨first, rest, hfirst, hlast, rfl⟩ := ih hrest
      exact ⟨_, rest, .cons hid hbases hfirst, hlast, Nat.add_assoc ..⟩

theorem exists_of_bases {id : String} (hid : (d.element id).map Node.bases = .ok ids) :
    ∃ n, d.element id = .ok n ∧ n.bases = ids := by
  cases hn : d.element id with
  | ok n =>
    rw [hn] at hid
    exact ⟨n, rfl, Except.ok.inj hid⟩
  | error e =>
    rw [hn] at hid
    cases hid

/-- two interfaces that list the same bases and have as many methods have twice the slots of one -/
theorem SlotSum.double {x y : String} {own : Nat} (hsum : d.SlotSum ids sum)
    (hx : (d.element x).map Node.bases = .ok ids) (hy : (d.element y).map Node.bases = .ok ids)
    (hown : (d.slotOpeners x).length = own) (hown' : (d.slotOpeners y).length = own) :
    d.SlotSum [x, y] (2 * (sum + own)) := by
  obtain ⟨n, hx, hbases⟩ := exists_of_bases hx
  obtain ⟨n', hy, hbases'⟩ := exists_of_bases hy
  have hboth : d.SlotSum [x, y] (sum + (d.slotOpeners x).length + (sum + (d.slotOpeners y).length + 0)) :=
    .cons hx (hbases ▸ hsum) (.cons hy (hbases' ▸ hsum) .nil)
  rw [hown, hown'] at hboth
  rwa [Nat.two_mul]

end SlotSum

end Document

/-! ## Slots that fit -/

namespace Document

variable {d : Document} {i x : NodeId} {start : Nat}

/-- The slots of an interface do not fit in 32 bits: there are too many below some of its first bases, or too many with
its own, of which one more is counted than there are. -/
inductive Overfull (d : Document) (i : NodeId) : Prop where
  | bases {ids : List String} {sum : Nat} : ids <+: (d.node i).bases → d.SlotSum ids sum → 2 ^ 32 ≤ sum → Overfull d i
  | own {start : Nat} : d.SlotSum (d.node i).bases start →
      2 ^ 32 ≤ start + ((d.childrenOf (d.node i) .method).filter Build.opensSlot).length + 1 → Overfull d i

/-- an interface that is inherited has no more slots -/
theorem SlotSum.le_of_inherits (hsum : d.SlotSum (d.node i).bases start)
    (hx : Relation.ReflTransGen d.Inherits i x) :
    ∃ sum, d.SlotSum (d.node x).bases sum ∧
      sum + ((d.childrenOf (d.node x) .method).filter Build.opensSlot).length ≤
        start + ((d.childrenOf (d.node i) .method).filter Build.opensSlot).length := by
  induction hx with
  | refl => exact ⟨start, hsum, le_rfl⟩
  | @tail y z _ hyz ih =>
    obtain ⟨sum, hy, hle⟩ := ih
    obtain ⟨id, hid, hz⟩ := hyz
    obtain ⟨before, after, hbases⟩ := List.append_of_mem hid
    rw [hbases] at hy
    obtain ⟨first, rest, -, hrest, rfl⟩ := hy.of_append
    obtain ⟨helement, hown⟩ := slotOpeners_of_placeOf hz
    cases hrest with
    | cons hid' hbases' _ =>
      obtain rfl := Except.ok.inj (helement.symm.trans hid')
      rw [hown] at hle
      exact ⟨_, hbases', by omega⟩

/-- no interface that one inherits is overfull if the one's slots fit -/
theorem SlotSum.not_overfull (hsum : d.SlotSum (d.node i).bases start)
    (hfits : start + ((d.childrenOf (d.node i) .method).filter Build.opensSlot).length + 1 < 2 ^ 32)
    (hx : Relation.ReflTransGen d.Inherits i x) : ¬d.Overfull x := by
  obtain ⟨sum, hsum', hle⟩ := hsum.le_of_inherits hx
  rintro (⟨⟨rest, hbases⟩, hids, hbig⟩ | ⟨hown, hbig⟩)
  · rw [← hbases] at hsum'
    obtain ⟨first, rest', hfirst, -, rfl⟩ := hsum'.of_append
    rw [hfirst.unique hids] at hle
    omega
  · rw [hown.unique hsum'] at hbig
    omega

end Document

/-! ## What is remembered -/

section Counts

variable {h : Headers} {memory : List (NodeId × Interface)} {c : Builder} {i : NodeId} {built : Interface}

/-- an interface counts from the exact number of slots of its bases on, and its slots fit -/
def Headers.Counts (h : Headers) (n : Node) (built : Interface) : Prop :=
  ∃ start, h.document.SlotSum n.bases start ∧
    built.FillsFrom h start ((h.document.childrenOf n .method).filter Build.opensSlot) ∧
    start + ((h.document.childrenOf n .method).filter Build.opensSlot).length + 1 < 2 ^ 32

/-- what bases count adds up to their exact number of slots -/
theorem sum_counts {ids : List String} {parents : List Interface}
    (hparents : List.Forall₂ (fun id parent => ∃ j, h.document.placeOf id = .ok j ∧ memory.lookup j = some parent)
      ids parents)
    (hcounts : ∀ j parent, memory.lookup j = some parent → h.Counts (h.document.node j) parent) :
    h.document.SlotSum ids (parents.map (·.slotCount.toNat)).sum := by
  induction hparents with
  | nil => exact .nil
  | @cons id parent ids parents hparent _ ih =>
    obtain ⟨j, hj, hlookup⟩ := hparent
    obtain ⟨start, hbases, hfills, -⟩ := hcounts j parent hlookup
    obtain ⟨helement, hown⟩ := Document.slotOpeners_of_placeOf hj
    rw [List.map_cons, List.sum_cons, hfills.slotCount, ← hown]
    exact .cons helement hbases ih

/-- what was taken in of bases that are remembered is their exact number of slots -/
theorem slotSum_of_inherited {ids : List String} {inherited : Build.Inherited}
    (hcounts : ∀ j parent, memory.lookup j = some parent → h.Counts (h.document.node j) parent)
    (hrun : (c.run (ids.foldlM (Build.inherit h (recallFrom memory)) ⟨none, 0⟩)).1 = .ok inherited) :
    h.document.SlotSum ids inherited.slots.toNat := by
  obtain ⟨parents, hfound, hslots⟩ := run_foldlM_inherit hrun
  have hsum : inherited.slots.toNat = (parents.map (·.slotCount.toNat)).sum := hslots.trans (Nat.zero_add _)
  rw [hsum]
  exact sum_counts hfound hcounts

/-- **Every remembered interface counts from the exact number of slots of its bases on.** -/
theorem counts_of_grounded (hm : Grounded (MadeInterface h) memory) (hi : memory.lookup i = some built) :
    h.Counts (h.document.node i) built := by
  refine hm.forall_entries (P := fun i built => h.Counts (h.document.node i) built)
    (fun older k made _ _ hmade hold => ?_) hi
  have hrun := hmade (.new (.empty ""))
  rw [Build.interfaceBody_eq] at hrun
  obtain ⟨inherited, hinherited, hrun⟩ := Builder.run_bind_eq_ok.1 hrun
  obtain ⟨hfills, hfits⟩ := run_interfaceRest hrun
  exact ⟨_, slotSum_of_inherited hold hinherited, hfills, hfits⟩

end Counts

/-! ## Slots that do not fit -/

namespace Build

variable {h : Headers} {c : Builder} {levels : Nat} {i : NodeId}

theorem run_addSlots_eq_error {a b : UInt32} {e : BuildError} (hrun : (c.run (addSlots a b)).1 = .error e) :
    2 ^ 32 ≤ a.toNat + b.toNat := by
  rw [run_addSlots] at hrun
  split at hrun
  next => cases hrun
  next hbig => exact Nat.le_of_not_lt hbig

/-- only sums of slots overflow -/
theorem tolerant_fits (h : Headers) : Tolerant h (fun _ => True) (· ≠ .halted .overflow) := by
  refine ⟨⟨fun _ _ _ => trivial, fun _ _ _ => trivial⟩, fun e he => BuildError.ne_halted he _, fun typeId t e he => ?_⟩
  rcases Document.follow_fails he with hplain | rfl
  · exact BuildError.ne_halted hplain _
  · exact nofun

theorem inheritRest_overflow {sofar : Inherited} {parent : Interface}
    (hrun : (c.run (inheritRest h sofar i parent)).1 = .error (.halted .overflow)) :
    2 ^ 32 ≤ sofar.slots.toNat + parent.slotCount.toNat := by
  have hadd : ∀ (c : Builder) (base : Option String),
      (c.run (addSlots sofar.slots parent.slotCount >>= fun slots => pure (⟨base, slots⟩ : Inherited))).1 =
        .error (.halted .overflow) → 2 ^ 32 ≤ sofar.slots.toNat + parent.slotCount.toNat := by
    intro c base hrun
    rcases Builder.run_bind_eq_error.1 hrun with hfails | ⟨slots, -, hrest⟩
    · exact run_addSlots_eq_error hfails
    · cases hrest
  unfold inheritRest at hrun
  split at hrun
  · exact hadd _ _ hrun
  · rcases Builder.run_bind_eq_error.1 hrun with hfails | ⟨represented, -, hrest⟩
    · exact absurd rfl (((tolerant_fits h).represented _ c trivial).2 _ hfails)
    · exact hadd _ _ hrest

theorem interfaceRest_overflow {n : Node} {inherited : Inherited}
    (hrun : (c.run (interfaceRest h n inherited)).1 = .error (.halted .overflow)) :
    2 ^ 32 ≤ inherited.slots.toNat + ((h.document.childrenOf n .method).filter opensSlot).length + 1 := by
  rcases Builder.run_bind_eq_error.1 hrun with hfails | ⟨said, -, hrun⟩
  · exact absurd rfl (((tolerant_fits h).meaningOf n c trivial).2 _ hfails)
  rcases Builder.run_bind_eq_error.1 hrun with hfails | ⟨guid, -, hrun⟩
  · exact absurd rfl (((tolerant_fits h).guidOf _ _ _ trivial).2 _ hfails)
  rcases Builder.run_bind_eq_error.1 hrun with hfails | ⟨table, htable, hrun⟩
  · obtain ⟨before, n', after, opened, hown, hopened, hfails⟩ := Builder.run_foldlM_eq_error hfails
    obtain ⟨-, -, -, -, hnext⟩ := run_foldlM_openSlot hopened
    have hsofar : opened.next.toNat = inherited.slots.toNat + before.length := hnext
    have hbig : 2 ^ 32 ≤ opened.next.toNat + 1 := by
      rcases Builder.run_bind_eq_error.1 hfails with hfails | ⟨signature, -, hfails⟩
      · exact absurd rfl (((tolerant_fits h).signature _ _ trivial).2 _ hfails)
      · rcases Builder.run_bind_eq_error.1 hfails with hfails | ⟨next, -, hrest⟩
        · exact run_addSlots_eq_error hfails
        · cases hrest
    rw [hown, List.length_append, List.length_cons]
    omega
  · obtain ⟨-, -, -, -, hnext⟩ := run_foldlM_openSlot htable
    rcases Builder.run_bind_eq_error.1 hrun with hfails | ⟨methods, -, hrest⟩
    · rcases Builder.run_bind_eq_error.1 hfails with hfails | ⟨further, -, hrest⟩
      · have hbig : 2 ^ 32 ≤ table.next.toNat + 1 := run_addSlots_eq_error hfails
        rwa [hnext] at hbig
      · cases hrest
    · cases hrest

/-- what bases are built from a sound builder: the builder stays sound, and their slots were counted exactly -/
theorem inherit_counts (hc : c.InterfacesSound h) {ids : List String} (hids : ids <+: (h.document.node i).bases)
    {inherited : Inherited}
    (hrun : (c.run (ids.foldlM (inherit h (interfaceWithin h levels)) ⟨none, 0⟩)).1 = .ok inherited) :
    (c.run (ids.foldlM (inherit h (interfaceWithin h levels)) ⟨none, 0⟩)).2.InterfacesSound h ∧
      h.document.SlotSum ids inherited.slots.toNat := by
  have hGood : ∀ b ns, Builder.InterfacesSound h b → Builder.InterfacesSound h (b.noting ns) :=
    fun _ _ hb => ⟨hb.grounded, hb.unfinished⟩
  obtain ⟨hsound, -, -, hok⟩ := Recounts.foldlM hGood (fun id hid sofar => inherit_recounts hGood (hids.subset hid)
    (fun j _ => interfaceWithin_recounts levels j) sofar) ⟨none, 0⟩ c hc
  have hrecalled := hok inherited hrun _ (.refl _) c
  exact ⟨hsound, slotSum_of_inherited (fun j parent hj => counts_of_grounded hsound.grounded hj) hrecalled⟩

/-- a base that is built counts its exact number of slots -/
theorem slotSum_of_built (hc : c.InterfacesSound h) {id : String} {j : NodeId} {parent : Interface}
    (hj : h.document.placeOf id = .ok j) (hrun : (c.run (interfaceWithin h levels j)).1 = .ok parent) :
    h.document.SlotSum [id] parent.slotCount.toNat := by
  obtain ⟨hsound, -, -, hok⟩ := interfaceWithin_recounts levels j c hc
  have hlookup := run_recallFrom_eq_ok.1 (hok parent hrun _ (.refl _) c)
  obtain ⟨start, hstart, hfills, -⟩ := counts_of_grounded hsound.grounded hlookup
  obtain ⟨helement, hown⟩ := Document.slotOpeners_of_placeOf hj
  rw [hfills.slotCount, ← hown]
  exact .cons helement hstart .nil

/-- a base at which the program stops: it stops the program itself, or has too many slots with the bases before it -/
theorem inherit_overflow (hc : c.InterfacesSound h) {before after : List String} {id : String} {sofar : Inherited}
    (hbases : (h.document.node i).bases = before ++ id :: after) (hsum : h.document.SlotSum before sofar.slots.toNat)
    (hrun : (c.run (inherit h (interfaceWithin h levels) sofar id)).1 = .error (.halted .overflow)) :
    (∃ j, h.document.Inherits i j ∧ (c.run (interfaceWithin h levels j)).1 = .error (.halted .overflow)) ∨
      h.document.Overfull i := by
  rw [inherit_eq] at hrun
  rcases Builder.run_bind_eq_error.1 hrun with hplace | ⟨j, hj, hrun⟩
  · rw [Builder.run_of] at hplace
    exact absurd rfl (BuildError.ne_halted (Document.isPlain_of_placeOf hplace) .overflow)
  · rw [Builder.run_of] at hj hrun
    rcases Builder.run_bind_eq_error.1 hrun with hfails | ⟨parent, hparent, hrest⟩
    · exact .inl ⟨j, ⟨id, hbases ▸ List.mem_append_right _ List.mem_cons_self, hj⟩, hfails⟩
    · have hids : before ++ [id] <+: (h.document.node i).bases := ⟨after, by rw [hbases]; simp⟩
      exact .inr (.bases hids (hsum.append (slotSum_of_built hc hj hparent)) (inheritRest_overflow hrest))

/-- **Only an interface that inherits an overfull one stops the program.** -/
theorem interfaceWithin_overflow (hc : c.InterfacesSound h)
    (hrun : (c.run (interfaceWithin h levels i)).1 = .error (.halted .overflow)) :
    ∃ x, Relation.ReflTransGen h.document.Inherits i x ∧ h.document.Overfull x := by
  induction levels generalizing i c with
  | zero => cases hrun
  | succ levels ih =>
    rw [Builder.run_interfaceWithin] at hrun
    cases hl : c.interfaces.lookup i with
    | some built =>
      rw [hl] at hrun
      cases hrun
    | none =>
      rw [hl] at hrun
      dsimp only at hrun
      split at hrun
      · cases hrun
      -- the body fails at a base, or with the own methods
      have hbody : ((c.claiming i).run (interfaceBody h (interfaceWithin h levels) (h.document.node i))).1 =
          .error (.halted .overflow) := by
        generalize (c.claiming i).run (interfaceBody h (interfaceWithin h levels) (h.document.node i)) = p at hrun
        obtain ⟨e | built, c'⟩ := p
        · exact hrun
        · cases hrun
      have hclaimed := hc.claiming hl
      rw [interfaceBody_eq] at hbody
      rcases Builder.run_bind_eq_error.1 hbody with hfails | ⟨inherited, hinherited, hrest⟩
      · obtain ⟨before, id, after, sofar, hbases, hbefore, hfails⟩ := Builder.run_foldlM_eq_error hfails
        have hprefix : before <+: (h.document.node i).bases := ⟨id :: after, hbases.symm⟩
        obtain ⟨hsound, hsum⟩ := inherit_counts hclaimed hprefix hbefore
        rcases inherit_overflow hsound hbases hsum hfails with ⟨j, hij, hfails⟩ | hfull
        · obtain ⟨x, hx, hfull⟩ := ih hsound hfails
          exact ⟨x, .head hij hx, hfull⟩
        · exact ⟨i, .refl, hfull⟩
      · obtain ⟨-, hsum⟩ := inherit_counts hclaimed (List.prefix_refl _) hinherited
        exact ⟨i, .refl, .own hsum (interfaceRest_overflow hrest)⟩

end Build

/-! ## Lookups -/

/-- a completed interface is an entry of a grounded memory -/
theorem Builder.Completes.remembered {h : Headers} {b : Builder} {id : String} {built : Interface} (hb : Settled h b)
    (hbuilt : b.Completes h id built) :
    ∃ i memory, h.document.placeOf id = .ok i ∧ Grounded (MadeInterface h) memory ∧ memory.lookup i = some built := by
  obtain ⟨i, hi, hrun⟩ := Builder.run_bind_eq_ok.1 hbuilt
  rw [Builder.run_of] at hi hrun
  obtain ⟨hsound, -, -, hok⟩ := Build.interface_recounts i b hb.interfacesSound
  exact ⟨i, _, hi, hsound.grounded, run_recallFrom_eq_ok.1 (hok built hrun _ (.refl _) b)⟩

/-- The slots of a completed interface are exact: with the exact number of slots of its bases as their start, its
methods fill the slots from there on. They fit, and so do those of every interface that it inherits. -/
structure Headers.CountsExactly (h : Headers) (id : String) (built : Interface) (i : NodeId) (start : Nat) : Prop where
  place : h.document.placeOf id = .ok i
  sum : h.document.SlotSum (h.document.node i).bases start
  unique : ∀ start', h.document.SlotSum (h.document.node i).bases start' → start' = start
  fills : built.FillsFrom h start (h.document.slotOpeners id)
  fits : start + (h.document.slotOpeners id).length + 1 < 2 ^ 32
  below : ∀ x, Relation.ReflTransGen h.document.Inherits i x → ¬h.document.Overfull x

/-- **Slots are counted exactly, or the program stops.** After any requests, a lookup of an interface that succeeds has
counted exactly, and no interface that it inherits is overfull. A lookup that stops the program for slots that do not fit
leads to an interface that is overfull. -/
theorem interface_counted (h : Headers) (m : Module) (requests : List Request) (id : String) :
    (∀ built, ((Builder.new m).afterAll h requests).Completes h id built →
      ∃ i start, h.CountsExactly id built i start) ∧
    ((((Builder.new m).afterAll h requests).run (Build.interfaceWithId h id)).1 = .error (.halted .overflow) →
      ∃ i x, h.document.placeOf id = .ok i ∧ Relation.ReflTransGen h.document.Inherits i x ∧
        h.document.Overfull x) := by
  have hb := settled_afterAll h m requests
  generalize (Builder.new m).afterAll h requests = b at hb
  refine ⟨fun built hbuilt => ?_, fun hrun => ?_⟩
  · obtain ⟨i, memory, hi, hm, hlookup⟩ := hbuilt.remembered hb
    obtain ⟨start, hsum, hfills, hfits⟩ := counts_of_grounded hm hlookup
    have hown := (Document.slotOpeners_of_placeOf hi).2
    refine ⟨i, start, hi, hsum, fun start' hsum' => hsum'.unique hsum, ?_, ?_, fun x => hsum.not_overfull hfits⟩
    · rw [hown]
      exact hfills
    · rw [hown]
      exact hfits
  · rcases Builder.run_bind_eq_error.1 hrun with hplace | ⟨i, hi, hrun⟩
    · rw [Builder.run_of] at hplace
      exact absurd rfl (BuildError.ne_halted (Document.isPlain_of_placeOf hplace) .overflow)
    · rw [Builder.run_of] at hi hrun
      obtain ⟨x, hx, hfull⟩ := Build.interfaceWithin_overflow hb.interfacesSound hrun
      exact ⟨i, x, hi, hx, hfull⟩

/-! ## Slots that double -/

/-- the ids of the two interfaces on a level -/
def levelIds (k : Nat) : List String := ["a" ++ toString k, "b" ++ toString k]

/-- an interface above the lowest level, which has the two interfaces of the level below as its bases -/
def levelStruct (id below : String) : Node :=
  ⟨.structType, [("id", id), ("name", id), ("bases", below)], [], none⟩

/-- two interfaces with one method each, 31 levels of two interfaces above them, and one more with a method of its own -/
def doubledHeaders : Headers :=
  let below := fun k => " ".intercalate (levelIds k)
  let levels := (List.range 31).flatMap fun k => (levelIds (k + 1)).map fun id => levelStruct id (below k)
  ⟨⟨"CastXML", [], ([
      ⟨.fundamentalType, [("id", "t"), ("name", "int")], [], none⟩,
      ⟨.structType, [("id", "a0"), ("name", "a0")], [2], none⟩, intMethod 1 "One" [],
      ⟨.structType, [("id", "b0"), ("name", "b0")], [4], none⟩, intMethod 3 "One" []] ++ levels ++
      [⟨.structType, [("id", "top"), ("name", "Top"), ("bases", below 31)], [68], none⟩,
      intMethod 67 "Own" []]).toArray,
    [], ("t", 0) :: ("a0", 1) :: ("b0", 3) :: ("top", 67) ::
      (List.range 31).flatMap fun k => (levelIds (k + 1)).zip [2 * k + 5, 2 * k + 6], []⟩, .empty⟩

theorem lowest_level : ∀ id ∈ levelIds 0,
    (doubledHeaders.document.element id).map Node.bases = .ok [] ∧
      (doubledHeaders.document.slotOpeners id).length = 1 := by
  decide +kernel

theorem next_level : ∀ k < 31, ∀ id ∈ levelIds (k + 1),
    (doubledHeaders.document.element id).map Node.bases = .ok (levelIds k) ∧
      (doubledHeaders.document.slotOpeners id).length = 0 := by
  decide +kernel

/-- the two interfaces of a level have twice the slots of the level below -/
theorem slotSum_level (k : Nat) (hk : k ≤ 31) : doubledHeaders.document.SlotSum (levelIds k) (2 ^ (k + 1)) := by
  induction k with
  | zero =>
    obtain ⟨ha, hown⟩ := lowest_level ("a" ++ toString 0) (by simp [levelIds])
    obtain ⟨hb, hown'⟩ := lowest_level ("b" ++ toString 0) (by simp [levelIds])
    exact Document.SlotSum.nil.double ha hb hown hown'
  | succ k ih =>
    obtain ⟨ha, hown⟩ := next_level k hk ("a" ++ toString (k + 1)) (by simp [levelIds])
    obtain ⟨hb, hown'⟩ := next_level k hk ("b" ++ toString (k + 1)) (by simp [levelIds])
    have hpow : 2 ^ (k + 1 + 1) = 2 * (2 ^ (k + 1) + 0) := Nat.pow_succ'
    rw [hpow]
    exact (ih (Nat.le_of_succ_le hk)).double ha hb hown hown'

/-- a builder that was asked for an interface below the topmost one -/
def doubledBuilder : Builder := (Builder.new (.empty "M")).afterAll doubledHeaders [.interface "a31"]

theorem top_bases : (doubledHeaders.document.element "top").map Node.bases = .ok (levelIds 31) := by decide +kernel

theorem top_stops :
    (doubledBuilder.run (Build.interfaceWithId doubledHeaders "top")).1 = .error (.halted .overflow) := by
  decide +kernel

/-- the bases of the topmost interface have 2 ^ 32 slots, and the program stops when it counts them -/
theorem doubled_slots_overflow :
    (doubledBuilder.run (Build.interfaceWithId doubledHeaders "top")).1 = .error (.halted .overflow) ∧
      (doubledHeaders.document.element "top").map Node.bases = .ok (levelIds 31) ∧
      doubledHeaders.document.SlotSum (levelIds 31) (2 ^ 32) := by
  exact ⟨top_stops, top_bases, slotSum_level 31 le_rfl⟩

/-- an interface below the topmost one as it is built -/
def halfInterface : Interface := ⟨"a31", none, none, none, [], 2147483648⟩

/-- each of the two bases of the topmost interface is counted exactly; together they are too many -/
theorem doubled_slots_counted :
    doubledBuilder.Completes doubledHeaders "a31" halfInterface ∧
      (∃ i, doubledHeaders.CountsExactly "a31" halfInterface i (2 ^ 31)) ∧
      (doubledBuilder.run (Build.interfaceWithId doubledHeaders "top")).1 = .error (.halted .overflow) ∧
      ∃ i x, doubledHeaders.document.placeOf "top" = .ok i ∧
        Relation.ReflTransGen doubledHeaders.document.Inherits i x ∧ doubledHeaders.document.Overfull x := by
  have hhalf : doubledBuilder.Completes doubledHeaders "a31" halfInterface := by
    unfold Builder.Completes
    decide +kernel
  obtain ⟨hcounted, -⟩ := interface_counted doubledHeaders (.empty "M") [.interface "a31"] "a31"
  obtain ⟨i, start, hexact⟩ := hcounted halfInterface hhalf
  have hbases := (next_level 30 (by decide) "a31" (by decide)).1
  rw [(Document.slotOpeners_of_placeOf hexact.place).1] at hbases
  have hsum : doubledHeaders.document.SlotSum (doubledHeaders.document.node i).bases (2 ^ 31) :=
    Except.ok.inj hbases ▸ slotSum_level 30 (by decide)
  obtain rfl := hexact.unique _ hsum
  refine ⟨hhalf, ⟨i, hexact⟩, top_stops, ?_⟩
  exact (interface_counted doubledHeaders (.empty "M") [.interface "a31"] "top").2 top_stops

end HeaderModel
