/-
Slots of a whole interface.

An interface takes the slots after those of its bases. Its body adds up what the bases count (`run_foldlM_inherit`) and
gives each own method the next slot (`run_foldlM_openSlot`), so its methods fill a block (`run_interfaceRest`). Every sum
is exact, since one that does not fit stops the program (`run_addSlots`). Along a chain of single inheritance the blocks
follow each other without a gap.
- `interface_slots`: both facts, for every interface that a builder completes after any requests.
-/
import HeaderModel.Proofs.MethodSlots
import HeaderModel.Proofs.Rebuilding
import HeaderModel.Proofs.Requests

namespace HeaderModel

/-- the methods of an element that open slots, in declaration order -/
def Document.slotOpeners (d : Document) (id : String) : List Node :=
  match d.element id with
  | .ok n => (d.childrenOf n .method).filter Build.opensSlot
  | .error _ => []

theorem Document.slotOpeners_of_placeOf {d : Document} {id : String} {j : NodeId} (hj : d.placeOf id = .ok j) :
    d.element id = .ok (d.node j) ∧
      d.slotOpeners id = (d.childrenOf (d.node j) .method).filter Build.opensSlot := by
  have helement : d.element id = .ok (d.node j) := by rw [element, hj]; rfl
  exact ⟨helement, by rw [slotOpeners, helement]⟩

/-- the methods are given ones, in order, and take the slots from a start on -/
structure Interface.FillsFrom (h : Headers) (start : Nat) (own : List Node) (built : Interface) : Prop where
  signatures : List.Forall₂ (fun n method => ∀ c : Builder, (c.run (Build.signature h n)).1 = .ok method.signature)
    own built.methods
  slots : built.methods.map (·.slot.toNat) = List.range' start own.length
  groupedSlots : (built.methods.map (·.groupedSlot.toNat)).Perm (List.range' start own.length)
  slotCount : built.slotCount.toNat = start + own.length

/-! ## The body of an interface -/

section Body

variable {h : Headers} {memory : List (NodeId × Interface)} {c : Builder}

/-- a sum of counts is exact, and stops the program if it does not fit -/
theorem run_addSlots (c : Builder) (a b : UInt32) :
    c.run (Build.addSlots a b) =
      (if a.toNat + b.toNat < 2 ^ 32 then .ok (a + b) else .error (.halted .overflow), c) := by
  show c.run (if a.toNat + b.toNat < 2 ^ 32 then pure (a + b) else throw (.halted .overflow)) = _
  split_ifs
  · rfl
  · rfl

theorem run_addSlots_eq_ok {a b sum : UInt32} (hrun : (c.run (Build.addSlots a b)).1 = .ok sum) :
    sum.toNat = a.toNat + b.toNat := by
  rw [run_addSlots] at hrun
  split at hrun
  next hfits =>
    cases hrun
    rw [UInt32.toNat_add, Nat.mod_eq_of_lt hfits]
  next => cases hrun

theorem run_inheritRest {sofar next : Build.Inherited} {j : NodeId} {parent : Interface}
    (hrun : (c.run (Build.inheritRest h sofar j parent)).1 = .ok next) :
    next.slots.toNat = sofar.slots.toNat + parent.slotCount.toNat := by
  have hadd : ∀ (c : Builder) (base : Option String),
      (c.run (Build.addSlots sofar.slots parent.slotCount >>= fun slots => pure (⟨base, slots⟩ : Build.Inherited))).1 =
        .ok next → next.slots.toNat = sofar.slots.toNat + parent.slotCount.toNat := by
    intro c base hrun
    obtain ⟨slots, hslots, hrun⟩ := Builder.run_bind_eq_ok.1 hrun
    cases hrun
    exact run_addSlots_eq_ok hslots
  unfold Build.inheritRest at hrun
  split at hrun
  · exact hadd _ _ hrun
  · obtain ⟨represented, -, hrun⟩ := Builder.run_bind_eq_ok.1 hrun
    exact hadd _ _ hrun

theorem run_inherit {sofar next : Build.Inherited} {id : String}
    (hrun : (c.run (Build.inherit h (recallFrom memory) sofar id)).1 = .ok next) :
    ∃ parent, (∃ j, h.document.placeOf id = .ok j ∧ memory.lookup j = some parent) ∧
      next.slots.toNat = sofar.slots.toNat + parent.slotCount.toNat := by
  rw [Build.inherit_eq] at hrun
  obtain ⟨j, hj, hrun⟩ := Builder.run_bind_eq_ok.1 hrun
  obtain ⟨parent, hparent, hrun⟩ := Builder.run_bind_eq_ok.1 hrun
  rw [Builder.run_of] at hj
  exact ⟨parent, ⟨j, hj, run_recallFrom_eq_ok.1 hparent⟩, run_inheritRest hrun⟩

/-- the bases add up their slots, each as often as it is listed -/
theorem run_foldlM_inherit {ids : List String} {sofar inherited : Build.Inherited}
    (hrun : (c.run (ids.foldlM (Build.inherit h (recallFrom memory)) sofar)).1 = .ok inherited) :
    ∃ parents, List.Forall₂ (fun id parent => ∃ j, h.document.placeOf id = .ok j ∧ memory.lookup j = some parent)
        ids parents ∧
      inherited.slots.toNat = sofar.slots.toNat + (parents.map (·.slotCount.toNat)).sum := by
  induction ids generalizing sofar c with
  | nil =>
    cases hrun
    exact ⟨[], .nil, rfl⟩
  | cons id ids ih =>
    rw [List.foldlM_cons] at hrun
    obtain ⟨next, hnext, hrun⟩ := Builder.run_bind_eq_ok.1 hrun
    obtain ⟨parent, hparent, hslots⟩ := run_inherit hnext
    obtain ⟨parents, hparents, hsum⟩ := ih hrun
    refine ⟨parent :: parents, .cons hparent hparents, ?_⟩
    rw [hsum, hslots, List.map_cons, List.sum_cons, Nat.add_assoc]

theorem run_mapM_eq_ok {α β : Type} {f : α → Build β} (hf : ∀ a, Build.Steady (f a)) {as : List α} {bs : List β}
    (hrun : (c.run (as.mapM f)).1 = .ok bs) :
    List.Forall₂ (fun a b => ∀ c : Builder, (c.run (f a)).1 = .ok b) as bs := by
  induction as generalizing bs c with
  | nil =>
    cases hrun
    exact .nil
  | cons a as ih =>
    rw [List.mapM_cons] at hrun
    obtain ⟨b, hb, hrun⟩ := Builder.run_bind_eq_ok.1 hrun
    obtain ⟨bs', hbs, hrun⟩ := Builder.run_bind_eq_ok.1 hrun
    cases hrun
    refine .cons (fun c' => ?_) (ih hbs)
    obtain ⟨r, ns, hsteady⟩ := hf a
    rw [hsteady] at hb ⊢
    exact hb

/-- methods that open slots take the next ones, in order -/
theorem run_foldlM_openSlot {own : List Node} {sofar table : Build.MethodTable}
    (hrun : (c.run (own.foldlM (Build.openSlot h) sofar)).1 = .ok table) :
    ∃ methods, table.methods = sofar.methods ++ methods ∧
      List.Forall₂ (fun n method => ∀ c : Builder, (c.run (Build.signature h n)).1 = .ok method.signature)
        own methods ∧
      methods.map (·.slot.toNat) = List.range' sofar.next.toNat own.length ∧
      table.next.toNat = sofar.next.toNat + own.length := by
  induction own generalizing sofar c with
  | nil =>
    cases hrun
    exact ⟨[], (List.append_nil _).symm, .nil, rfl, rfl⟩
  | cons n own ih =>
    rw [List.foldlM_cons] at hrun
    obtain ⟨opened, hopened, hrun⟩ := Builder.run_bind_eq_ok.1 hrun
    obtain ⟨signature, hsignature, hopened⟩ := Builder.run_bind_eq_ok.1 hopened
    obtain ⟨next, hnext, hopened⟩ := Builder.run_bind_eq_ok.1 hopened
    cases hopened
    have hnext : next.toNat = sofar.next.toNat + 1 := run_addSlots_eq_ok hnext
    obtain ⟨methods, hmethods, hsignatures, hslots, hlast⟩ := ih hrun
    refine ⟨⟨signature, sofar.next, sofar.next⟩ :: methods, ?_, .cons (fun c' => ?_) hsignatures, ?_, ?_⟩
    · rw [hmethods, List.append_assoc, List.singleton_append]
    · obtain ⟨r, ns, hsteady⟩ := Build.steady_signature h n
      rw [hsteady] at hsignature ⊢
      exact hsignature
    · rw [List.map_cons, hslots, hnext]
      rfl
    · rw [hlast, hnext, List.length_cons]
      omega

/-- an interface has the name of its element, and a method for each of the own methods that opens a slot -/
theorem interfaceRest_ok {n : Node} {inherited : Build.Inherited} {built : Interface}
    (hrun : (c.run (Build.interfaceRest h n inherited)).1 = .ok built) :
    ∃ methods, built.name = n.name ∧ built.methods = assignGroupedSlots inherited.slots methods ∧
      List.Forall₂ (fun n method => ∀ c : Builder, (c.run (Build.signature h n)).1 = .ok method.signature)
        ((h.document.childrenOf n .method).filter Build.opensSlot) methods ∧
      methods.map (·.slot.toNat) =
        List.range' inherited.slots.toNat ((h.document.childrenOf n .method).filter Build.opensSlot).length ∧
      built.slotCount.toNat =
        inherited.slots.toNat + ((h.document.childrenOf n .method).filter Build.opensSlot).length ∧
      inherited.slots.toNat + ((h.document.childrenOf n .method).filter Build.opensSlot).length + 1 < 2 ^ 32 := by
  obtain ⟨said, -, hrun⟩ := Builder.run_bind_eq_ok.1 hrun
  obtain ⟨guid, -, hrun⟩ := Builder.run_bind_eq_ok.1 hrun
  obtain ⟨table, htable, hrun⟩ := Builder.run_bind_eq_ok.1 hrun
  obtain ⟨grouped, hgrouped, hrun⟩ := Builder.run_bind_eq_ok.1 hrun
  obtain ⟨further, hfurther, hgrouped⟩ := Builder.run_bind_eq_ok.1 hgrouped
  cases hrun
  cases hgrouped
  obtain ⟨methods, hmethods, hsignatures, hslots, hnext⟩ := run_foldlM_openSlot htable
  refine ⟨table.methods, rfl, rfl, ?_, ?_, hnext, ?_⟩
  · rw [hmethods]
    exact hsignatures
  · rw [hmethods]
    exact hslots
  · rw [← hnext]
    have hone : further.toNat = table.next.toNat + 1 := run_addSlots_eq_ok hfurther
    rw [← hone]
    exact further.toNat_lt

/-- the methods of an interface have the signatures that their elements spell -/
theorem interfaceRest_signatures {n : Node} {inherited : Build.Inherited} {built : Interface}
    (hrun : (c.run (Build.interfaceRest h n inherited)).1 = .ok built) :
    List.Forall₂ (fun n method => ∀ c : Builder, (c.run (Build.signature h n)).1 = .ok method.signature)
      ((h.document.childrenOf n .method).filter Build.opensSlot) built.methods := by
  obtain ⟨methods, -, hbuilt, hmade, -⟩ := interfaceRest_ok hrun
  have hsignatures := List.forall₂_map_right_iff
    (R := fun n signature => ∀ c : Builder, (c.run (Build.signature h n)).1 = .ok signature) |>.2 hmade
  rw [hbuilt]
  rwa [← signatures_assignGroupedSlots inherited.slots, List.forall₂_map_right_iff] at hsignatures

/-- the own methods take the slots after the inherited ones, and these and one more stay below 2 ^ 32 -/
theorem run_interfaceRest {n : Node} {inherited : Build.Inherited} {built : Interface}
    (hrun : (c.run (Build.interfaceRest h n inherited)).1 = .ok built) :
    built.FillsFrom h inherited.slots.toNat ((h.document.childrenOf n .method).filter Build.opensSlot) ∧
      inherited.slots.toNat + ((h.document.childrenOf n .method).filter Build.opensSlot).length + 1 < 2 ^ 32 := by
  have hsignatures := interfaceRest_signatures hrun
  obtain ⟨methods, -, hbuilt, hmade, hslots, hcount, hfits⟩ := interfaceRest_ok hrun
  generalize (h.document.childrenOf n .method).filter Build.opensSlot = own
    at hsignatures hmade hslots hcount hfits ⊢
  have hlength : methods.length = own.length := hmade.length_eq.symm
  refine ⟨⟨hsignatures, ?_, ?_, hcount⟩, hfits⟩
  · calc built.methods.map (·.slot.toNat)
        = ((assignGroupedSlots inherited.slots methods).map (·.slot)).map UInt32.toNat := by
          rw [hbuilt, List.map_map]; rfl
      _ = methods.map (·.slot.toNat) := by rw [slots_assignGroupedSlots, List.map_map]; rfl
      _ = List.range' inherited.slots.toNat own.length := hslots
  · rw [hbuilt, ← hlength]
    exact assignGroupedSlots_perm (by omega)

end Body

/-! ## Completed interfaces -/

/-- the builder completes the interface with an id -/
def Builder.Completes (h : Headers) (b : Builder) (id : String) (built : Interface) : Prop :=
  (b.run (Build.interfaceWithId h id)).1 = .ok built

section Completes

variable {h : Headers} {b : Builder} {id : String} {built : Interface}

/-- what a completed interface was made from is completed too -/
theorem Builder.Completes.made (hb : Settled h b) (hbuilt : b.Completes h id built) :
    ∃ i older, h.document.placeOf id = .ok i ∧ MadeInterface h older i built ∧
      ∀ id' parent, (∃ j, h.document.placeOf id' = .ok j ∧ older.lookup j = some parent) →
        b.Completes h id' parent := by
  obtain ⟨i, hi, hrun⟩ := Builder.run_bind_eq_ok.1 hbuilt
  rw [Builder.run_of] at hi hrun
  obtain ⟨hsound, -, hwithin, hok⟩ := Build.interface_recounts i b hb.interfacesSound
  have hlookup : (b.run (Build.interface h i)).2.interfaces.lookup i = some built :=
    run_recallFrom_eq_ok.1 (hok built hrun _ (.refl _) b)
  obtain ⟨older, hsuffix, holder, hmade⟩ := hsound.grounded.made hlookup
  refine ⟨i, older, hi, hmade, fun id' parent ⟨j, hj, hparent⟩ => ?_⟩
  have hagree := interface_rebuilt hsound.grounded holder hsuffix (.start h.document) (fun _ hu => nomatch hu) j b b
    ⟨hb.underway, hb.interfacesSound, hwithin.interfaces⟩
  have hleft : (b.run (recallFrom older j)).1 = .ok parent := run_recallFrom_eq_ok.2 hparent
  refine Builder.run_bind_eq_ok.2 ⟨j, by rw [Builder.run_of]; exact hj, ?_⟩
  rw [Builder.run_of]
  show (b.run (Build.interfaceWithin h (h.document.nodes.size + 1) j)).1 = .ok parent
  generalize b.run (recallFrom older j) = p, b.run (Build.interfaceWithin h (h.document.nodes.size + 1) j) = q
    at hagree hleft
  cases hagree with
  | ok heq _ =>
    cases hleft
    rw [heq]
  | error _ => cases hleft
  | lenient _ => cases hleft

/-- a completed interface takes the slots after those that its bases count -/
theorem Builder.Completes.fillsFrom (hb : Settled h b) (hbuilt : b.Completes h id built) :
    ∃ n parents, h.document.element id = .ok n ∧ List.Forall₂ (b.Completes h) n.bases parents ∧
      built.FillsFrom h (parents.map (·.slotCount.toNat)).sum (h.document.slotOpeners id) := by
  obtain ⟨i, older, hi, hmade, hparents⟩ := hbuilt.made hb
  obtain ⟨helement, hown⟩ := Document.slotOpeners_of_placeOf hi
  have hrun := hmade b
  rw [Build.interfaceBody_eq] at hrun
  obtain ⟨inherited, hinherited, hrun⟩ := Builder.run_bind_eq_ok.1 hrun
  obtain ⟨parents, hfound, hsum⟩ := run_foldlM_inherit hinherited
  have hstart : inherited.slots.toNat = (parents.map (·.slotCount.toNat)).sum := hsum.trans (Nat.zero_add _)
  refine ⟨h.document.node i, parents, helement, hfound.imp hparents, ?_⟩
  rw [hown, ← hstart]
  exact (run_interfaceRest hrun).1

end Completes

/-! ## Chains of single inheritance -/

/-- ids of elements, each of which lists exactly the next one as its base; the last one lists none -/
inductive Document.Chain (d : Document) : List String → Prop where
  | root {id : String} {n : Node} : d.element id = .ok n → n.bases = [] → Chain d [id]
  | derived {id base : String} {rest : List String} {n : Node} : Chain d (base :: rest) → d.element id = .ok n →
      n.bases = [base] → Chain d (id :: base :: rest)

/-- the methods that open slots along a chain -/
def Document.slotOpenersOf (d : Document) (ids : List String) : List Node := ids.flatMap d.slotOpeners

/-- every number below the last count is the slot of exactly one method along a chain, and the grouped slot of one -/
structure CoversSlots (built : Interface) (chain : List Interface) : Prop where
  slots : (chain.flatMap fun i => i.methods.map (·.slot.toNat)).Perm (List.range built.slotCount.toNat)
  groupedSlots : (chain.flatMap fun i => i.methods.map (·.groupedSlot.toNat)).Perm (List.range built.slotCount.toNat)

/-- a block put after the numbers below its start -/
theorem range'_append_range (start n : Nat) :
    (List.range' start n ++ List.range start).Perm (List.range (start + n)) := by
  rw [List.range_add, ← List.range'_eq_map_range]
  exact List.perm_append_comm

theorem Document.Chain.coversSlots {h : Headers} {b : Builder} {ids : List String} (hb : Settled h b)
    (hchain : h.document.Chain ids) :
    ∀ id rest built, ids = id :: rest → b.Completes h id built →
      built.slotCount.toNat = (h.document.slotOpenersOf ids).length ∧
      ∃ ancestors, List.Forall₂ (b.Completes h) rest ancestors ∧ CoversSlots built (built :: ancestors) := by
  induction hchain with
  | @root id n hid hbases =>
    rintro _ _ built ⟨⟩ hbuilt
    obtain ⟨n', parents, hid', hparents, hfills⟩ := hbuilt.fillsFrom hb
    obtain rfl := Except.ok.inj (hid.symm.trans hid')
    rw [hbases, List.forall₂_nil_left_iff] at hparents
    subst hparents
    have hown : h.document.slotOpenersOf [id] = h.document.slotOpeners id := List.append_nil _
    rw [hown]
    have hcount : built.slotCount.toNat = (h.document.slotOpeners id).length := by simpa using hfills.slotCount
    refine ⟨hcount, [], .nil, ?_, ?_⟩
    · rw [List.flatMap_singleton, hfills.slots, hcount, List.range_eq_range']
      exact .refl _
    · rw [List.flatMap_singleton, hcount, List.range_eq_range']
      exact hfills.groupedSlots
  | @derived id base rest n _ hid hbases ih =>
    rintro _ _ built ⟨⟩ hbuilt
    obtain ⟨n', parents, hid', hparents, hfills⟩ := hbuilt.fillsFrom hb
    obtain rfl := Except.ok.inj (hid.symm.trans hid')
    rw [hbases] at hparents
    obtain ⟨parent, parents, hparent, hnone, rfl⟩ := List.forall₂_cons_left_iff.1 hparents
    rw [List.forall₂_nil_left_iff] at hnone
    subst hnone
    have hown : h.document.slotOpenersOf (id :: base :: rest) =
        h.document.slotOpeners id ++ h.document.slotOpenersOf (base :: rest) := List.flatMap_cons
    rw [hown, List.length_append]
    obtain ⟨hcount, ancestors, hancestors, hcovers⟩ := ih base rest parent rfl hparent
    rw [List.map_singleton, List.sum_singleton] at hfills
    refine ⟨by rw [hfills.slotCount, hcount, Nat.add_comm], parent :: ancestors, .cons hparent hancestors, ?_, ?_⟩
    · rw [List.flatMap_cons, hfills.slots, hfills.slotCount]
      exact (hcovers.slots.append_left _).trans (range'_append_range _ _)
    · rw [List.flatMap_cons, hfills.slotCount]
      exact (hfills.groupedSlots.append hcovers.groupedSlots).trans (range'_append_range _ _)

/-- **Slots are contiguous and none is shared.** For every interface that a builder completes, after any requests: its
methods take the slots after those that its bases count, in declaration order; grouped by overloads they take the same
slots; and the count goes on by their number. Along a chain of single inheritance every number below the last count is
the slot of exactly one method, and the grouped slot of exactly one method. -/
theorem interface_slots (h : Headers) (m : Module) (requests : List Request) (id : String) (built : Interface)
    (hbuilt : ((Builder.new m).afterAll h requests).Completes h id built) :
    (∃ n parents, h.document.element id = .ok n ∧
      List.Forall₂ (((Builder.new m).afterAll h requests).Completes h) n.bases parents ∧
      built.FillsFrom h (parents.map (·.slotCount.toNat)).sum (h.document.slotOpeners id)) ∧
    ∀ rest, h.document.Chain (id :: rest) →
      ∃ ancestors, List.Forall₂ (((Builder.new m).afterAll h requests).Completes h) rest ancestors ∧
        CoversSlots built (built :: ancestors) := by
  have hb := settled_afterAll h m requests
  refine ⟨hbuilt.fillsFrom hb, fun rest hchain => ?_⟩
  obtain ⟨-, ancestors, hancestors, hcovers⟩ := hchain.coversSlots hb id rest built rfl hbuilt
  exact ⟨ancestors, hancestors, hcovers⟩

/-- a pure virtual method that returns `int` -/
def intMethod (owner : NodeId) (name : String) (more : List Markup.Attribute) : Node :=
  ⟨.method, [("name", name), ("returns", "t"), ("pure_virtual", "1")] ++ more, [], some owner⟩

/-- an interface with two methods, and a derived one with an override and with two overloads around another method -/
def derivedHeaders : Headers :=
  ⟨⟨"CastXML", [], #[
      ⟨.fundamentalType, [("id", "t"), ("name", "int")], [], none⟩,
      ⟨.structType, [("id", "a"), ("name", "IBase")], [2, 3], none⟩,
      intMethod 1 "Read" [],
      intMethod 1 "Write" [],
      ⟨.structType, [("id", "b"), ("name", "IDerived"), ("bases", "a")], [5, 6, 7, 8], none⟩,
      intMethod 4 "Get" [],
      intMethod 4 "Read" [("overrides", "m")],
      intMethod 4 "Put" [],
      intMethod 4 "Get" []],
    [], [("t", 0), ("a", 1), ("b", 4)], []⟩, .empty⟩

/-- the derived interface of `derivedHeaders` -/
def derivedInterface : Interface :=
  let signature := fun name => (⟨name, none, [], ⟨"int", "", [], false, false⟩⟩ : Signature)
  ⟨"IDerived", none, none, none, [⟨signature "Get", 2, 3⟩, ⟨signature "Put", 3, 4⟩, ⟨signature "Get", 4, 2⟩], 5⟩

theorem interface_slots_of_derived :
    ((Builder.new (.empty "M")).afterAll derivedHeaders [.interface "none", .interface "a"]).Completes
      derivedHeaders "b" derivedInterface ∧
    derivedHeaders.document.Chain ["b", "a"] ∧
    ∃ ancestors, List.Forall₂ (((Builder.new (.empty "M")).afterAll derivedHeaders
        [.interface "none", .interface "a"]).Completes derivedHeaders) ["a"] ancestors ∧
      CoversSlots derivedInterface (derivedInterface :: ancestors) := by
  have hbuilt : ((Builder.new (.empty "M")).afterAll derivedHeaders [.interface "none", .interface "a"]).Completes
      derivedHeaders "b" derivedInterface := by
    unfold Builder.Completes
    decide +kernel
  have hchain : derivedHeaders.document.Chain ["b", "a"] :=
    .derived (.root (n := derivedHeaders.document.node 1) rfl rfl) (n := derivedHeaders.document.node 4) rfl rfl
  exact ⟨hbuilt, hchain, (interface_slots derivedHeaders _ _ _ _ hbuilt).2 ["a"] hchain⟩

end HeaderModel
