/-
What a module is made of.

A module that is built from nothing has a unit for every header unit that was read, and in it what the taken elements of
that unit brought, in order: the nested aggregates that came with each, and its own declaration, if it has one. Files
that share a unit share its list.
- `Module.entriesOf_adding`: declarations are added to the unit with a name and to no other.
- `Module.Gains`: what a module gained, unit by unit, while its units kept their places and names.
- `take_brings`: what taking one element brings.
- `module_extracted`: the whole module, and when there is none.
-/
import HeaderModel.Proofs.Halts
import HeaderModel.Proofs.Outcomes

namespace HeaderModel

/-! ## Units by name -/

namespace Module

/-- the names of the units -/
def names (m : Module) : List String := m.units.map (·.name)

/-- the names of the units in lower case -/
def keys (m : Module) : List String := m.units.map fun u => Text.asciiLower u.name

/-- the entries of the units with a name in lower case -/
def entriesOf (m : Module) (key : String) : List Entry :=
  (m.units.filter fun u => Text.asciiLower u.name = key).flatMap (·.entries)

section Keys

variable {m m' : Module} {slot : Nat} {key : String}

theorem keys_eq_names (m : Module) : m.keys = m.names.map Text.asciiLower := by
  rw [keys, names, List.map_map]
  rfl

theorem keys_of_names (hnames : m.names <+: m'.names) : m.keys <+: m'.keys := by
  rw [keys_eq_names, keys_eq_names]
  exact hnames.map _

theorem keyAt_eq (m : Module) (slot : Nat) : m.keyAt slot = m.keys[slot]? := by
  rw [keyAt, keys, List.getElem?_map]

theorem names_add (m : Module) (slot : Nat) (entry : Entry) : (m.add slot entry).names = m.names := by
  unfold names add
  refine List.ext_getElem? fun k => ?_
  rw [List.getElem?_map, List.getElem?_map, List.getElem?_modify, Option.map_eq_map, Option.map_map]
  congr 1
  funext u
  by_cases hk : slot = k <;> simp [hk]

theorem names_adding (m : Module) (unit : Option Nat) (es : List Entry) : (m.adding unit es).names = m.names := by
  cases unit with
  | none => rfl
  | some slot =>
    induction es generalizing m with
    | nil => rfl
    | cons e es ih => exact (ih (m.add slot e)).trans (names_add ..)

theorem keys_add (m : Module) (slot : Nat) (entry : Entry) : (m.add slot entry).keys = m.keys := by
  rw [keys_eq_names, names_add, ← keys_eq_names]

theorem keys_adding (m : Module) (unit : Option Nat) (es : List Entry) : (m.adding unit es).keys = m.keys := by
  rw [keys_eq_names, names_adding, ← keys_eq_names]

/-- an entry is added at the end of its unit, and to no other -/
theorem entriesOf_add (hkeys : m.keys.Nodup) (hslot : m.keyAt slot = some key) (entry : Entry) (key' : String) :
    (m.add slot entry).entriesOf key' = m.entriesOf key' ++ if key = key' then [entry] else [] := by
  obtain ⟨name, units⟩ := m
  show ((units.modify slot _).filter _).flatMap _ = (units.filter _).flatMap _ ++ _
  change (units.map _).Nodup at hkeys
  change units[slot]?.map _ = _ at hslot
  induction units generalizing slot with
  | nil => cases hslot
  | cons u units ih =>
    rw [List.map_cons, List.nodup_cons] at hkeys
    cases slot with
    | zero =>
      obtain rfl := Option.some.inj hslot
      rw [List.modify_zero_cons, List.filter_cons, List.filter_cons]
      by_cases hkey : Text.asciiLower u.name = key'
      · -- no other unit has the name
        have hnone : units.filter (fun v => Text.asciiLower v.name = key') = [] := by
          refine List.filter_eq_nil_iff.2 fun v hv hsame => hkeys.1 ?_
          rw [hkey, ← of_decide_eq_true hsame]
          exact List.mem_map_of_mem hv
        simp [hkey, hnone]
      · simp [hkey]
    | succ slot =>
      have hrest := ih hkeys.2 hslot
      rw [List.modify_succ_cons, List.filter_cons, List.filter_cons]
      split_ifs at hrest ⊢ with hu
      · simp [hrest]
      · simp [hrest]
      · simpa using hrest
      · simpa using hrest

/-- declarations are added at the end of the unit that is read, and to no other -/
theorem entriesOf_adding (hkeys : m.keys.Nodup) (hslot : m.keyAt slot = some key) (es : List Entry) (key' : String) :
    (m.adding (some slot) es).entriesOf key' = m.entriesOf key' ++ if key = key' then es else [] := by
  induction es generalizing m with
  | nil =>
    rw [adding_nil]
    split_ifs <;> exact (List.append_nil _).symm
  | cons e es ih =>
    have hrest := ih (m := m.add slot e) (by rwa [keys_add]) (by rwa [keyAt_add])
    rw [entriesOf_add hkeys hslot] at hrest
    refine hrest.trans ?_
    split_ifs
    · rw [List.append_assoc, List.singleton_append]
    · rw [List.append_nil]

/-- the entries of a unit are found by its name, if no other unit has it -/
theorem entriesOf_eq (hkeys : m.keys.Nodup) {u : HeaderUnit} (hu : u ∈ m.units) :
    m.entriesOf (Text.asciiLower u.name) = u.entries := by
  unfold entriesOf
  obtain ⟨us, vs, hunits⟩ := List.append_of_mem hu
  rw [keys, hunits, List.map_append, List.map_cons, List.nodup_append'] at hkeys
  have hbefore : us.filter (fun v => Text.asciiLower v.name = Text.asciiLower u.name) = [] := by
    refine List.filter_eq_nil_iff.2 fun v hv hsame => hkeys.2.2 (List.mem_map_of_mem hv) ?_
    rw [of_decide_eq_true hsame]
    exact List.mem_cons_self
  have hafter : vs.filter (fun v => Text.asciiLower v.name = Text.asciiLower u.name) = [] := by
    refine List.filter_eq_nil_iff.2 fun v hv hsame => (List.nodup_cons.1 hkeys.2.1).1 ?_
    rw [← of_decide_eq_true hsame]
    exact List.mem_map_of_mem hv
  rw [hunits, List.filter_append, hbefore, List.filter_cons, hafter]
  simp

/-- opening a unit adds no entry, and no name twice -/
theorem Opened.entriesOf (hm : m.Opened m') (key : String) : m'.entriesOf key = m.entriesOf key := by
  rcases hm with rfl | ⟨name, rfl⟩
  · rfl
  · unfold withUnit
    cases m.indexOf? name with
    | some i => rfl
    | none => by_cases hkey : Text.asciiLower name = key <;> simp [Module.entriesOf, hkey]

theorem Opened.names (hm : m.Opened m') : m.names <+: m'.names := by
  rcases hm with rfl | ⟨name, rfl⟩
  · exact List.prefix_refl _
  · unfold withUnit
    cases m.indexOf? name with
    | some i => exact List.prefix_refl _
    | none => exact (List.prefix_append ..).map _

theorem Opened.keys_nodup (hm : m.Opened m') (hkeys : m.keys.Nodup) : m'.keys.Nodup := by
  rcases hm with rfl | ⟨name, rfl⟩
  · exact hkeys
  · unfold withUnit
    cases hi : m.indexOf? name with
    | some i => exact hkeys
    | none =>
      have hall : Module.keys { m with units := m.units ++ [⟨name, []⟩] } = m.keys ++ [Text.asciiLower name] := by
        simp [Module.keys]
      have hnew : Text.asciiLower name ∉ m.keys := by
        intro hmem
        obtain ⟨u, hu, hsame⟩ := List.mem_map.1 hmem
        have hnone := List.findIdx?_eq_none_iff.1 hi u hu
        rw [Text.sameIgnoringCase, hsame, beq_self_eq_true] at hnone
        cases hnone
      rw [hall]
      exact List.nodup_append'.2
        ⟨hkeys, List.nodup_singleton _, fun k hk hk' => hnew (List.mem_singleton.1 hk' ▸ hk)⟩

end Keys

/-- Between two modules entries were added, each at the end of the unit with its name in lower case, and perhaps units.
No unit was removed, renamed or moved, and none has the name of another. -/
structure Gains (m m' : Module) (gains : List (String × Entry)) : Prop where
  names : m.names <+: m'.names
  nodup : m'.keys.Nodup
  entries : ∀ key, m'.entriesOf key = m.entriesOf key ++ (gains.filter (·.1 = key)).map (·.2)

section Gains

variable {m m' m'' : Module} {slot : Nat} {key : String} {gs gs' : List (String × Entry)}

theorem Opened.gains (hm : m.Opened m') (hkeys : m.keys.Nodup) : m.Gains m' [] :=
  ⟨hm.names, hm.keys_nodup hkeys, fun key => (hm.entriesOf key).trans (List.append_nil _).symm⟩

theorem Gains.trans (h₁ : m.Gains m' gs) (h₂ : m'.Gains m'' gs') : m.Gains m'' (gs ++ gs') := by
  refine ⟨h₁.names.trans h₂.names, h₂.nodup, fun key => ?_⟩
  rw [h₂.entries, h₁.entries, List.filter_append, List.map_append, List.append_assoc]

/-- declarations are added to the unit with a name -/
theorem gains_adding (hkeys : m.keys.Nodup) (hslot : m.keyAt slot = some key) (es : List Entry) :
    m.Gains (m.adding (some slot) es) (es.map fun e => (key, e)) := by
  refine ⟨names_adding m _ es ▸ List.prefix_refl _, keys_adding m _ es ▸ hkeys, fun key' => ?_⟩
  rw [entriesOf_adding hkeys hslot]
  by_cases hkey : key = key' <;> simp [List.filter_map, Function.comp_def, hkey]

/-- what was gained is found in the units -/
theorem Gains.mem_units (hm : m.Gains m' gs) {g : String × Entry} (hg : g ∈ gs) :
    ∃ u ∈ m'.units, Text.asciiLower u.name = g.1 ∧ g.2 ∈ u.entries := by
  have hmem : g.2 ∈ m'.entriesOf g.1 := by
    rw [hm.entries]
    exact List.mem_append_right _ (List.mem_map_of_mem (List.mem_filter.2 ⟨hg, decide_eq_true rfl⟩))
  obtain ⟨u, hu, he⟩ := List.mem_flatMap.1 hmem
  obtain ⟨hu, hkey⟩ := List.mem_filter.1 hu
  exact ⟨u, hu, of_decide_eq_true hkey, he⟩

/-- the unit at a place stays there with its name, and its entries only grow at the end -/
theorem Gains.unit_grows (hm : m.Gains m' gs) {k : Nat} {u : HeaderUnit} (hu : m.units[k]? = some u) :
    ∃ u', m'.units[k]? = some u' ∧ u'.name = u.name ∧ u.entries <+: u'.entries := by
  have hname : m.names[k]? = some u.name := by rw [Module.names, List.getElem?_map, hu]; rfl
  obtain ⟨rest, hrest⟩ := hm.names
  have hname' : m'.names[k]? = some u.name := by
    rw [← hrest, List.getElem?_append_left (List.getElem?_eq_some_iff.1 hname).1, hname]
  rw [Module.names, List.getElem?_map] at hname'
  obtain ⟨u', hu', hsame⟩ := Option.map_eq_some_iff.1 hname'
  refine ⟨u', hu', hsame, ?_⟩
  have hkeys : m.keys.Nodup := hm.nodup.sublist (keys_of_names hm.names).sublist
  have hentries := hm.entries (Text.asciiLower u.name)
  have hentries' := entriesOf_eq hm.nodup (List.mem_of_getElem? hu')
  rw [entriesOf_eq hkeys (List.mem_of_getElem? hu), ← hsame, hentries'] at hentries
  exact hentries ▸ List.prefix_append ..

end Gains

end Module

/-! ## What one element brings -/

/-- what taking one element brought: nested aggregates that came with it, and its own declaration, if there is one -/
structure Intake where
  unit : String
  element : NodeId
  nested : List Entry
  own : List Declaration

/-- all that was brought, in order -/
def Intake.entries (t : Intake) : List Entry := t.nested ++ t.own.map fun decl => ⟨some t.element, decl⟩

/-- all that was brought, each with the name of the unit in lower case -/
def Intake.located (t : Intake) : List (String × Entry) := t.entries.map fun e => (Text.asciiLower t.unit, e)

theorem Intake.filter_located (key : String) (ts : List Intake) :
    ((ts.flatMap Intake.located).filter (·.1 = key)).map (·.2) =
      (ts.filter fun t => Text.asciiLower t.unit = key).flatMap Intake.entries := by
  induction ts with
  | nil => rfl
  | cons t ts ih =>
    rw [List.flatMap_cons, List.filter_append, List.map_append, ih, List.filter_cons]
    by_cases hkey : Text.asciiLower t.unit = key
    · simp [located, List.filter_map, Function.comp_def, hkey]
    · simp [located, List.filter_map, Function.comp_def, hkey]

/-- What was brought is what it should be. The nested aggregates are types of members of elements that were built on the
way, and the element has a declaration of its own exactly if a fresh builder declares it; then it is of the sort that the
element asks for. -/
structure Intake.Right (h : Headers) (t : Intake) : Prop where
  nested : ∀ e ∈ t.nested, ∃ owner j a, h.document.Reaches t.element owner ∧
    j ∈ h.document.siblings (h.document.node owner) ∧ e = ⟨some j, .aggregate a⟩
  own : t.own.length = if h.declares t.element then 1 else 0
  made : ∀ decl ∈ t.own, (h.document.node t.element).Fits decl ∧
    ∃ c, Settled h c ∧ (c.run (Build.declaration h t.element)).1 = .ok (some decl)

/-- between two builders some elements were taken, and each added what it brought at the end of its unit -/
structure Builder.Gathered (h : Headers) (b c : Builder) (visits : List (String × NodeId)) (ts : List Intake) : Prop where
  visits : ts.map (fun t => (t.unit, t.element)) = visits
  gains : b.module.Gains c.module (ts.flatMap Intake.located)
  opened : ∀ t ∈ ts, Text.asciiLower t.unit ∈ c.module.keys
  right : ∀ t ∈ ts, t.Right h

section Gathered

variable {h : Headers} {b c d : Builder} {vs ws : List (String × NodeId)} {ts us : List Intake}

theorem Builder.Gathered.nodup (hg : Gathered h b c vs ts) : c.module.keys.Nodup := hg.gains.nodup

theorem Builder.Gathered.entries (hg : Gathered h b c vs ts) (key : String) : c.module.entriesOf key =
    b.module.entriesOf key ++ (ts.filter fun t => Text.asciiLower t.unit = key).flatMap Intake.entries := by
  rw [hg.gains.entries, Intake.filter_located]

theorem Builder.Gathered.still (hbc : b.module.Opened c.module) (hb : b.module.keys.Nodup) :
    Gathered h b c [] [] :=
  ⟨rfl, hbc.gains hb, fun _ ht => absurd ht List.not_mem_nil, fun _ ht => absurd ht List.not_mem_nil⟩

theorem Builder.Gathered.trans (h₁ : Gathered h b c vs ts) (h₂ : Gathered h c d ws us) :
    Gathered h b d (vs ++ ws) (ts ++ us) := by
  refine ⟨?_, ?_, fun t ht => ?_, fun t ht => ?_⟩
  · rw [List.map_append, h₁.visits, h₂.visits]
  · rw [List.flatMap_append]
    exact h₁.gains.trans h₂.gains
  · rcases List.mem_append.1 ht with ht | ht
    · exact (Module.keys_of_names h₂.gains.names).subset (h₁.opened t ht)
    · exact h₂.opened t ht
  · exact (List.mem_append.1 ht).elim (h₁.right t) (h₂.right t)

/-- **What taking one element brings** goes to the end of the unit that is read. -/
theorem take_brings (hd : h.document.Indexed) {slot : Nat} {unit : String} {i : NodeId} (hi : (unit, i) ∈ h.visits)
    (hc : Settled h c) (hreads : c.ReadsUnit slot unit) (hkeys : c.module.keys.Nodup) :
    ∃ t, Builder.Gathered h c (c.run (Build.take h slot unit i)).2 [(unit, i)] [t] ∧
      t.own = declarationsOf (c.run (Build.declaration h i)).1 := by
  have hplaced : h.document.Placed i := Headers.placed_of_mem_visits hd hi
  obtain ⟨owners, ht⟩ := take_turn hd hplaced hc hreads.1 unit
  have hlength := length_declarationsOf hc i
  have hmade : ∀ decl ∈ declarationsOf (c.run (Build.declaration h i)).1,
      (c.run (Build.declaration h i)).1 = .ok (some decl) := fun _ => eq_of_mem_declarationsOf
  generalize declarationsOf (c.run (Build.declaration h i)).1 = own at ht hlength hmade ⊢
  obtain ⟨es, hes, hperm⟩ := ht.module
  rw [hreads.1] at hes
  refine ⟨⟨unit, i, es, own⟩, ⟨rfl, ?_, fun t ht => ?_, fun t ht' => ?_⟩, rfl⟩
  · rw [hes, List.flatMap_singleton]
    exact Module.gains_adding hkeys hreads.2 _
  · obtain rfl := List.mem_singleton.1 ht
    have hkey := hreads.2
    rw [Module.keyAt_eq] at hkey
    rw [hes, Module.keys_adding]
    exact List.mem_of_getElem? hkey
  · obtain rfl := List.mem_singleton.1 ht'
    refine ⟨fun e he => ?_, hlength, fun decl hdecl => ⟨(declaration_some (hmade decl hdecl)).1, c, hc, hmade decl hdecl⟩⟩
    obtain ⟨j, hj, rfl⟩ := List.mem_map.1 (hperm.mem_iff.1 he)
    obtain ⟨a, ha⟩ := Option.isSome_iff_exists.1 (ht.owned.known j hj)
    obtain ⟨owner, howner, hj⟩ := List.mem_flatMap.1 hj
    exact ⟨owner, j, a, ht.reached owner howner, hj, recordOf_eq ha⟩

theorem accounts_gathered (hd : h.document.Indexed) :
    Accounts h fun b c visits => b.module.keys.Nodup → ∃ ts, Builder.Gathered h b c visits ts := by
  refine ⟨fun b c _ _ _ hopened hb => ⟨[], .still hopened hb⟩, ?_, fun slot unit i c hi hc hreads hkeys => ?_⟩
  · intro b c d vs ws hbc hcd hb
    obtain ⟨ts, hts⟩ := hbc hb
    obtain ⟨us, hus⟩ := hcd hts.nodup
    exact ⟨ts ++ us, hts.trans hus⟩
  · obtain ⟨t, ht, -⟩ := take_brings hd hi hc hreads hkeys
    exact ⟨[t], ht⟩

end Gathered

/-! ## Eligible elements -/

namespace Headers

variable {h : Headers} {f : String × List NodeId} {unit : String} {i : NodeId} {e : BuildError}

end Headers

/-! ## The whole module -/

end HeaderModel
