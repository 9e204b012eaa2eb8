/-
Units that stay open.

Building a module opens unit after unit, and closes the last one when it is done. When it stops at an error, the unit
that it read stays open. Nested aggregates that a later lookup builds are then declared there, as if the file were
still being read.
- `afterAll_hasOpen`: which unit is open after any requests is a matter of the headers. None is, unless the module was
  asked for and building it stops.
- `lookup_leaves_module_iff`: looking up an interface leaves the module as it was. Looking up an aggregate does exactly
  if no unit is open, or if the owners that it builds on the way have no nested aggregates to declare.
- `lookup_leaves_built_module`: so lookups leave the module alone if it can be built.
- `stopped_lookup_declares`: a module that cannot be built, and a lookup that adds to it.
-/
import HeaderModel.Proofs.Lookups
import HeaderModel.Proofs.Outcomes

namespace HeaderModel

/-! ## The unit where building stops -/

namespace Headers

/-- the unit that is opened for a file: its own, if that is in scope and covered -/
def unitOpenedBy (h : Headers) (f : String × List NodeId) : Option String :=
  match h.document.unitOfFile f.1 with
  | .error _ => none
  | .ok unit => if h.scope.hasUnit unit && (h.scope.coverage? unit).isSome then some unit else none

/-- the unit that is open where taking some files stops, when a unit was open before; none if it does not stop -/
def unitWhereStopped (h : Headers) (unit : Option String) : List (String × List NodeId) → Option String
  | [] => none
  | f :: files =>
    let unit := (h.unitOpenedBy f).or unit
    if h.faultsFrom f = [] then h.unitWhereStopped unit files else unit

/-- the unit that a fresh builder leaves open when it builds the module -/
def unitLeft (h : Headers) : Option String := h.unitWhereStopped none h.document.files

theorem unitWhereStopped_of_no_faults {h : Headers} {unit : Option String} {files : List (String × List NodeId)}
    (hfaults : files.flatMap h.faultsFrom = []) : h.unitWhereStopped unit files = none := by
  induction files generalizing unit with
  | nil => rfl
  | cons f files ih =>
    rw [List.flatMap_cons, List.append_eq_nil_iff] at hfaults
    obtain ⟨hfirst, hrest⟩ := hfaults
    rw [unitWhereStopped, if_pos hfirst]
    exact ih hrest

/-- a build that stops again stops in the same unit: it opens a unit on the way, or leaves open what was -/
theorem unitWhereStopped_or (h : Headers) (unit unit' : Option String) (files : List (String × List NodeId)) :
    h.unitWhereStopped (unit.or unit') files =
      (h.unitWhereStopped unit files).or (if files.flatMap h.faultsFrom = [] then none else unit') := by
  induction files generalizing unit with
  | nil => rfl
  | cons f files ih =>
    rw [unitWhereStopped, unitWhereStopped, ← Option.or_assoc]
    by_cases hfirst : h.faultsFrom f = []
    · simp only [hfirst, if_true, List.flatMap_cons, List.nil_append]
      exact ih _
    · simp [hfirst]

theorem unitWhereStopped_unitLeft (h : Headers) : h.unitWhereStopped h.unitLeft h.document.files = h.unitLeft := by
  have hagain := h.unitWhereStopped_or none h.unitLeft h.document.files
  rw [Option.none_or] at hagain
  rw [hagain]
  by_cases hfaults : h.document.files.flatMap h.faultsFrom = []
  · rw [if_pos hfaults, Option.or_none]
    rfl
  · rw [if_neg hfaults]
    exact Option.or_self

/-- a module that can be built leaves no unit open -/
theorem unitLeft_of_model {h : Headers} {m M : Module} (hM : (h.model m).1 = .ok M) : h.unitLeft = none :=
  unitWhereStopped_of_no_faults (faults_of_model hM)

end Headers

/-! ## Builders with an open unit -/

namespace Builder

/-- the builder has the unit with a name open, or no unit -/
def HasOpen (c : Builder) : Option String → Prop
  | none => c.current = none
  | some unit => ∃ slot, c.ReadsUnit slot unit

section HasOpen

variable {b c : Builder} {unit : Option String}

theorem Stays.hasOpen (hbc : b.Stays c) (hb : b.HasOpen unit) : c.HasOpen unit := by
  cases unit with
  | none => exact hbc.current.trans hb
  | some unit =>
    obtain ⟨slot, hslot⟩ := hb
    exact ⟨slot, hbc.readsUnit hslot⟩

theorem HasOpen.current_eq_none_iff (hc : c.HasOpen unit) : c.current = none ↔ unit = none := by
  cases unit with
  | none => exact iff_of_true hc rfl
  | some unit =>
    obtain ⟨slot, hslot⟩ := hc
    simp [hslot.1]

/-- what is open is a unit of the module -/
theorem HasOpen.reads (hc : c.HasOpen unit) {slot : Nat} (hslot : c.current = some slot) : c.Reads slot := by
  cases unit with
  | none =>
    have hnone : none = some slot := hc.symm.trans hslot
    cases hnone
  | some unit =>
    obtain ⟨slot', hreads⟩ := hc
    obtain rfl := Option.some.inj (hreads.1.symm.trans hslot)
    exact hreads.reads

/-- additions leave the module as it was exactly if there are none, or no unit to add them to -/
theorem HasOpen.adding_eq_self_iff (hc : c.HasOpen unit) (es : List Entry) :
    c.module.adding c.current es = c.module ↔ c.current = none ∨ es = [] := by
  cases hslot : c.current with
  | none => exact iff_of_true rfl (.inl rfl)
  | some slot =>
    rw [Module.adding_eq_self_iff (hc.reads hslot).2]
    simp

end HasOpen

end Builder

section Requests

variable {h : Headers} {b c : Builder} {unit : Option String}

/-- taking the declarations of a file opens the unit of the file, or leaves open what was -/
theorem file_hasOpen (hc : Settled h c) (hunit : c.HasOpen unit) (f : String × List NodeId) :
    (c.run (Build.file h f.1 f.2)).2.HasOpen ((h.unitOpenedBy f).or unit) := by
  unfold Build.file Headers.unitOpenedBy
  rw [Builder.run_bind, Builder.run_of]
  cases h.document.unitOfFile f.1 with
  | error e => exact hunit
  | ok own =>
    dsimp only
    by_cases hscope : h.scope.hasUnit own = true
    · simp only [hscope, if_true, Bool.true_and]
      cases h.scope.coverage? own with
      | none => exact hunit
      | some coverage =>
        dsimp only
        rw [Builder.run_bind, Builder.run_openUnit]
        obtain ⟨-, hkey⟩ := Module.located_withUnit c.module own
        have hopened : Settled h (c.opening own) ∧ (c.opening own).ReadsUnit (c.module.withUnit own).1 own :=
          ⟨hc.sameWork ⟨rfl, rfl, rfl, rfl⟩, rfl, hkey⟩
        have hround : ∀ i, Build.Keeps (fun d => Settled h d ∧ d.ReadsUnit (c.module.withUnit own).1 own)
            (Build.take h (c.module.withUnit own).1 own i) := fun i d hd =>
          ⟨settled_take _ own i d hd.1, (take_stays hd.1 _ own i).readsUnit hd.2⟩
        exact ⟨_, (Build.Keeps.forM (fun i _ => hround i) _ hopened).2⟩
    · simp only [hscope]
      exact hunit

/-- where taking some files stops, the unit of the last file that was read is open -/
theorem files_hasOpen (hc : Settled h c) (hunit : c.HasOpen unit) (files : List (String × List NodeId)) {e : BuildError}
    (hstops : (c.run (files.forM fun f => Build.file h f.1 f.2)).1 = .error e) :
    (c.run (files.forM fun f => Build.file h f.1 f.2)).2.HasOpen (h.unitWhereStopped unit files) := by
  induction files generalizing c unit with
  | nil => cases hstops
  | cons f files ih =>
    have hcons : (f :: files).forM (fun f => Build.file h f.1 f.2) =
      Build.file h f.1 f.2 >>= fun _ => files.forM fun f => Build.file h f.1 f.2 := rfl
    have hfirst := file_stops hc f
    have hopen := file_hasOpen hc hunit f
    have hsettled := settled_file f.1 f.2 c hc
    rw [hcons, Builder.run_bind] at hstops ⊢
    rw [Headers.unitWhereStopped]
    generalize c.run (Build.file h f.1 f.2) = p at hfirst hopen hsettled hstops ⊢
    obtain ⟨r, d⟩ := p
    cases hfaults : h.faultsFrom f with
    | nil =>
      rw [hfaults] at hfirst
      obtain rfl : r = .ok ⟨⟩ := hfirst
      exact ih hsettled hopen hstops
    | cons e' es =>
      rw [hfaults] at hfirst
      obtain rfl : r = .error e' := hfirst
      exact hopen

/-- building the module closes all units, or leaves one open where it stops -/
theorem allFiles_hasOpen (hc : Settled h c) (hunit : c.HasOpen unit) :
    (c.run (Build.allFiles h)).2.HasOpen (h.unitWhereStopped unit h.document.files) := by
  have hstop := allFiles_stops hc
  have hopen := fun e => files_hasOpen (e := e) hc hunit h.document.files
  rw [Build.allFiles, Builder.run_bind] at hstop ⊢
  generalize c.run (h.document.files.forM fun f => Build.file h f.1 f.2) = p at hstop hopen ⊢
  obtain ⟨e | _, d⟩ := p
  · exact hopen e rfl
  · have hfaults : h.faults = [] := by
      cases hfaults : h.faults with
      | nil => rfl
      | cons e es =>
        rw [hfaults] at hstop
        cases hstop
    rw [Headers.unitWhereStopped_of_no_faults hfaults]
    rfl

/-- a request for the whole module leaves open what it always leaves open; a lookup opens and closes nothing -/
theorem Settled.after_hasOpen (hb : Settled h b) (hunit : b.HasOpen unit) (hleft : unit = none ∨ unit = h.unitLeft)
    (r : Request) : (b.after h r).HasOpen (if r = .all then h.unitLeft else unit) := by
  by_cases hr : r = .all
  · subst hr
    have hopen := allFiles_hasOpen hb hunit
    rw [if_pos rfl]
    rcases hleft with rfl | rfl
    · exact hopen
    · rwa [h.unitWhereStopped_unitLeft] at hopen
  · rw [if_neg hr]
    exact (hb.after_grows hr).1.stays.hasOpen hunit

theorem Settled.afterAll_hasOpen_from (hb : Settled h b) (hunit : b.HasOpen unit)
    (hleft : unit = none ∨ unit = h.unitLeft) (requests : List Request) :
    (b.afterAll h requests).HasOpen (if .all ∈ requests then h.unitLeft else unit) := by
  induction requests generalizing b unit with
  | nil => exact hunit
  | cons r requests ih =>
    have hfirst := hb.after_hasOpen hunit hleft r
    have hrest := ih (hb.after r) hfirst (by split_ifs <;> simp [hleft])
    show ((b.after h r).afterAll h requests).HasOpen _
    by_cases hr : r = .all
    · simpa [hr] using hrest
    · simpa [hr, Ne.symm hr] using hrest

end Requests

/-- **Which unit is open after requests.** None is, as long as the module was not asked for. After that it is the unit
in which building the module stops, if it stops in one, however often it was tried and whatever was looked up. -/
theorem afterAll_hasOpen (h : Headers) (m : Module) (requests : List Request) :
    ((Builder.new m).afterAll h requests).HasOpen (if .all ∈ requests then h.unitLeft else none) := by
  have hnone : (Builder.new m).HasOpen none := rfl
  exact (settled_new h m).afterAll_hasOpen_from hnone (.inl rfl) requests

/-! ## Lookups -/

/-- What looking up an aggregate does. Owners are built on the way: bases, and what is enclosed in them or in the
aggregate. Their nested aggregates are added to the unit that is open. What else comes to be remembered is dropped,
because the aggregate cannot be built. -/
structure Builder.LookedUp (h : Headers) (i : NodeId) (c d : Builder) (owners : List NodeId) (es : List Entry) :
    Prop where
  nodup : owners.Nodup
  built : ∀ k ∈ owners, c.aggregates.lookup k = none ∧ (d.aggregates.lookup k).isSome
  based : ∀ k ∈ owners, ∃ t ∈ owners, (t = i ∨ h.document.BaseOn i t) ∧ (t = k ∨ h.document.EnclosesAmong owners t k)
  dropped : ∀ k, Dropped c d owners k → h.builds i = false ∧
    ∃ q, h.document.Holds q k ∧ (h.builds q = false ∨ Dropped c d owners q)
  module : d.module = c.module.adding c.current es
  entries : es.Perm ((h.document.siblingsOf owners).map (recordOf d.aggregates))

section LookedUp

variable {h : Headers} {c d : Builder} {i : NodeId} {unit : Option String} {owners : List NodeId} {es : List Entry}

theorem aggregate_lookedUp (hd : h.document.Indexed) (hplaced : h.document.Placed i) (hc : Settled h c) :
    ∃ owners es, c.LookedUp h i (c.run (Build.aggregate h i)).2 owners es := by
  obtain ⟨owners, hfate, hdoomed⟩ := Build.aggregate_fate hd hplaced hc
  obtain ⟨es, hes, hperm⟩ := hfate.ledger.module
  have howned := hfate.ledger.owned
  have hdropped := hfate.dropped
  rw [List.append_nil] at howned hdropped
  refine ⟨owners, es, ?_⟩
  constructor
  case nodup => exact howned.nodup
  case built =>
    intro k hk
    obtain ⟨hnew, hsome, -⟩ := howned.built k hk
    exact ⟨hnew, hsome⟩
  case based => exact hfate.based
  case dropped =>
    intro k hk
    obtain ⟨hfails, hholder⟩ := hdropped k hk
    obtain ⟨q, -, hholds, hq⟩ := hholder hdoomed
    exact ⟨hfails, q, hholds, hq⟩
  case module => exact hes
  case entries => exact hperm

theorem Builder.LookedUp.module_eq_iff (hl : c.LookedUp h i d owners es) (hunit : c.HasOpen unit) :
    d.module = c.module ↔ unit = none ∨ ∀ k ∈ owners, h.document.siblings (h.document.node k) = [] := by
  rw [hl.module, hunit.adding_eq_self_iff, hunit.current_eq_none_iff]
  exact or_congr_right (siblings_records_eq_nil_iff hl.entries)

theorem after_interface_module (h : Headers) (c : Builder) (id : String) :
    (c.after h (.interface id)).module = c.module := by
  have hafter : c.after h (.interface id) = (c.run (Build.of (h.document.placeOf id) >>= Build.interface h)).2 := rfl
  rw [hafter, Builder.run_bind, Builder.run_of]
  cases h.document.placeOf id with
  | error e => rfl
  | ok i => exact (Build.interfaceWithin_frame h _ i c).2.2

/-- a lookup of an id that no element has does nothing -/
theorem after_aggregate_unknown {id : String} {e : BuildError} (hid : h.document.placeOf id = .error e) (c : Builder) :
    c.after h (.aggregate id) = c := by
  show (c.run (Build.of (h.document.placeOf id) >>= Build.aggregate h)).2 = c
  rw [hid]
  rfl

end LookedUp

/-- **When a lookup leaves the module as it was.** After any requests, whether or not they succeeded, an interface can be
looked up without a change to the module. So can an aggregate, exactly if the module was not asked for yet, or building
it leaves no unit open, or no owner that is built on the way has a named member whose type is nested in it. Otherwise
these nested aggregates are added to the unit that was left open. -/
theorem lookup_leaves_module_iff (h : Headers) (hd : h.document.Loaded) (m : Module) (requests : List Request)
    {c : Builder} (hc : (Builder.new m).afterAll h requests = c) :
    c.HasOpen (if .all ∈ requests then h.unitLeft else none) ∧
    (∀ id, (c.after h (.interface id)).module = c.module) ∧
    (∀ id e, h.document.placeOf id = .error e → c.after h (.aggregate id) = c) ∧
    ∀ id i, h.document.placeOf id = .ok i →
      ∃ owners es, c.LookedUp h i (c.after h (.aggregate id)) owners es ∧
        ((c.after h (.aggregate id)).module = c.module ↔
          .all ∉ requests ∨ h.unitLeft = none ∨ ∀ k ∈ owners, h.document.siblings (h.document.node k) = []) := by
  have hopen := afterAll_hasOpen h m requests
  have hsettled := settled_afterAll h m requests
  rw [hc] at hopen hsettled
  refine ⟨hopen, after_interface_module h c, ?_, ?_⟩
  · intro id e hid
    exact after_aggregate_unknown hid c
  · intro id i hid
    obtain ⟨owners, es, hlooked⟩ := aggregate_lookedUp hd.indexed ⟨id, hid⟩ hsettled
    rw [← after_aggregate hid] at hlooked
    refine ⟨owners, es, hlooked, ?_⟩
    rw [hlooked.module_eq_iff hopen]
    -- before the module is asked for no unit is open, and after that the one in which building it stops
    by_cases hall : .all ∈ requests
    · simp [hall]
    · simp [hall]

/-- if the module can be built, lookups leave it as it is, before and after -/
theorem lookup_leaves_built_module (h : Headers) {m₀ M : Module} (hM : (h.model m₀).1 = .ok M) (m : Module)
    (requests : List Request) {r : Request} (hr : r ≠ .all) :
    (((Builder.new m).afterAll h requests).after h r).module = ((Builder.new m).afterAll h requests).module := by
  have hopen := afterAll_hasOpen h m requests
  have hsettled := settled_afterAll h m requests
  rw [Headers.unitLeft_of_model hM, ite_self] at hopen
  obtain ⟨es, hes, -⟩ := (hsettled.after_grows hr).1.module
  rw [hes, (hopen : Builder.current _ = none)]
  rfl

/-! ## A module that cannot be built -/

/-- a file `a.h` with a function that returns an unknown type, and an aggregate with a nested one -/
def stoppedReading : Markup.Reading :=
  ⟨[.opens "CastXML" (some []) false,
    .opens "Namespace" (some [("id", "n")]) true,
    .opens "Function" (some [("id", "g"), ("name", "call"), ("returns", "x"), ("context", "n"), ("file", "f")]) true,
    .opens "Struct" (some [("id", "o"), ("name", "OUTER"), ("context", "n"), ("file", "f")]) true,
    .opens "Field" (some [("id", "m1"), ("name", "inner"), ("type", "i"), ("context", "o")]) true,
    .opens "Struct" (some [("id", "i"), ("name", "In"), ("context", "o")]) true,
    .opens "File" (some [("id", "f"), ("name", "a.h")]) true,
    .closes], false⟩

/-- its document, with the file in scope -/
def stoppedHeaders : Headers :=
  ⟨((Document.ofReading stoppedReading).toOption).getD (.ofRoot "" []), Scope.empty.addUnit "a" true []⟩

/-- the builder that was asked for the whole module -/
def stoppedBuilder : Builder := (Builder.new (.empty "M")).afterAll stoppedHeaders [.all]

theorem stopped_loaded : stoppedHeaders.document.Loaded := .read (r := stoppedReading) (by decide +kernel)

theorem stopped_fails : ((Builder.new (.empty "M")).run (Build.allFiles stoppedHeaders)).1 = .error (.unknownId "x") := by
  decide +kernel

theorem stopped_names : (stoppedBuilder.after stoppedHeaders (.aggregate "o")).module.entries.map (·.decl.name) =
    ["OUTER_In_INNER"] := by
  decide +kernel

/-- building the module stops, and a lookup then declares a nested aggregate in the file where it stopped -/
theorem stopped_lookup_declares :
    stoppedHeaders.document.Loaded ∧
      ((Builder.new (.empty "M")).run (Build.allFiles stoppedHeaders)).1 = .error (.unknownId "x") ∧
      (((Builder.new (.empty "M")).afterAll stoppedHeaders [.all]).after stoppedHeaders (.aggregate "o")).module ≠
        ((Builder.new (.empty "M")).afterAll stoppedHeaders [.all]).module := by
  refine ⟨stopped_loaded, stopped_fails, fun hsame => ?_⟩
  have hnames := stopped_names
  rw [stoppedBuilder, hsame] at hnames
  exact absurd hnames (by decide +kernel)

/-- so the unit of the file was left open, and an owner that the lookup built has a nested aggregate -/
theorem stopped_owner :
    stoppedBuilder.HasOpen (some "a") ∧
      ∃ owners es, stoppedBuilder.LookedUp stoppedHeaders 2 (stoppedBuilder.after stoppedHeaders (.aggregate "o"))
        owners es ∧ ¬∀ k ∈ owners, stoppedHeaders.document.siblings (stoppedHeaders.document.node k) = [] := by
  obtain ⟨hopen, -, -, hlookups⟩ := lookup_leaves_module_iff stoppedHeaders stopped_loaded (.empty "M") [.all]
    (c := stoppedBuilder) rfl
  have hleft : stoppedHeaders.unitLeft = some "a" := by decide +kernel
  have hplace : stoppedHeaders.document.placeOf "o" = .ok 2 := by decide +kernel
  obtain ⟨owners, es, hlooked, hiff⟩ := hlookups "o" 2 hplace
  refine ⟨by simpa [hleft] using hopen, owners, es, hlooked, fun hnone => ?_⟩
  have hnames := stopped_names
  rw [hiff.2 (.inr (.inr hnone))] at hnames
  exact absurd hnames (by decide +kernel)

end HeaderModel
