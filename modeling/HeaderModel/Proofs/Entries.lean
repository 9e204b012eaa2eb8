/-
Entries of modules.

Two modules are compared unit by unit and entry by entry. `Module.Reduced` says that the left one has the entries of
the right one in the same order, less some aggregates, and each up to a relation.
- `Module.located_add`, `Module.entries_add`: what adding declarations does to the entries of all units, with the names
  of their units or without.
- `Reduced.adding`, `Reduced.withUnit`: reduced modules stay reduced when both grow alike.
- `Reduced.eq_of_entries`, `Reduced.eq_of_contents`: if nothing is left out and nothing differs, the modules are equal.
-/
import HeaderModel.Proofs.Actions

namespace HeaderModel

/-! ## Entries of a module -/

/-- whether an entry declares an aggregate -/
def Entry.isAggregate (entry : Entry) : Bool :=
  match entry.decl with
  | .aggregate _ => true
  | _ => false

namespace Module

/-- all entries, unit by unit -/
def entries (m : Module) : List Entry := m.units.flatMap (·.entries)

/-- the entries that declare aggregates, unit by unit -/
def aggregateEntries (m : Module) : List Entry := m.entries.filter Entry.isAggregate

/-- the elements whose aggregates are declared, unit by unit, each as often as it is declared -/
def aggregateOrigins (m : Module) : List NodeId := m.aggregateEntries.filterMap (·.origin)

/-- the name of the unit at a place, in lower case -/
def keyAt (m : Module) (slot : Nat) : Option String := m.units[slot]?.map fun u => Text.asciiLower u.name

/-- all entries, unit by unit, each with the name of its unit in lower case -/
def located (m : Module) : List (String × Entry) :=
  m.units.flatMap fun u => u.entries.map fun e => (Text.asciiLower u.name, e)

theorem entries_eq_located (m : Module) : m.entries = m.located.map (·.2) := by
  rw [entries, located, List.map_flatMap]
  congr 1
  funext u
  rw [List.map_map]
  exact (List.map_id _).symm

theorem isSome_keyAt {m : Module} {slot : Nat} : (m.keyAt slot).isSome ↔ slot < m.units.length := by
  simp [keyAt]

@[simp] theorem keyAt_add (m : Module) (slot : Nat) (entry : Entry) : (m.add slot entry).keyAt = m.keyAt := by
  funext s
  rw [keyAt, keyAt, add, List.getElem?_modify]
  by_cases hs : slot = s
  · simp only [hs, if_true, Option.map_eq_map, Option.map_map]
    rfl
  · simp [hs]

theorem located_add {m : Module} {slot : Nat} {key : String} (hkey : m.keyAt slot = some key) (entry : Entry) :
    (m.add slot entry).located.Perm (m.located ++ [(key, entry)]) := by
  obtain ⟨name, units⟩ := m
  show ((units.modify slot _).flatMap _).Perm (units.flatMap _ ++ [(key, entry)])
  change units[slot]?.map _ = _ at hkey
  induction units generalizing slot with
  | nil => cases hkey
  | cons u units ih =>
    cases slot with
    | zero =>
      obtain rfl := Option.some.inj hkey
      rw [List.modify_zero_cons, List.flatMap_cons, List.flatMap_cons, List.map_append, List.append_assoc,
        List.append_assoc]
      exact List.Perm.append_left _ List.perm_append_comm
    | succ slot =>
      rw [List.modify_succ_cons, List.flatMap_cons, List.flatMap_cons, List.append_assoc]
      exact List.Perm.append_left _ (ih hkey)

theorem entries_add {m : Module} {slot : Nat} (hslot : slot < m.units.length) (entry : Entry) :
    (m.add slot entry).entries.Perm (m.entries ++ [entry]) := by
  obtain ⟨key, hkey⟩ := Option.isSome_iff_exists.1 (isSome_keyAt.2 hslot)
  have hlocated := (located_add hkey entry).map (·.2)
  rwa [List.map_append, ← entries_eq_located, ← entries_eq_located] at hlocated

@[simp] theorem keyAt_adding (m : Module) (unit : Option Nat) (es : List Entry) :
    (m.adding unit es).keyAt = m.keyAt := by
  cases unit with
  | none => rfl
  | some slot =>
    induction es generalizing m with
    | nil => rfl
    | cons e es ih => exact (ih (m.add slot e)).trans (keyAt_add ..)

theorem located_adding {m : Module} {slot : Nat} {key : String} (hkey : m.keyAt slot = some key) (es : List Entry) :
    (m.adding (some slot) es).located.Perm (m.located ++ es.map fun e => (key, e)) := by
  induction es generalizing m with
  | nil => exact .of_eq (List.append_nil _).symm
  | cons e es ih =>
    have hfirst := ih (m := m.add slot e) (by rwa [keyAt_add])
    refine hfirst.trans (((located_add hkey e).append_right _).trans ?_)
    rw [List.append_assoc]
    exact .refl _

theorem entries_adding {m : Module} {slot : Nat} (hslot : slot < m.units.length) (es : List Entry) :
    (m.adding (some slot) es).entries.Perm (m.entries ++ es) := by
  obtain ⟨key, hkey⟩ := Option.isSome_iff_exists.1 (isSome_keyAt.2 hslot)
  have hlocated := (located_adding hkey es).map (·.2)
  rwa [List.map_append, List.map_map, ← entries_eq_located, ← entries_eq_located, Function.comp_def, List.map_id']
    at hlocated

/-- a module stays as it is exactly if nothing is added to one of its units -/
theorem adding_eq_self_iff {m : Module} {slot : Nat} (hslot : slot < m.units.length) {es : List Entry} :
    m.adding (some slot) es = m ↔ es = [] := by
  constructor
  · intro hsame
    have hlength := (entries_adding hslot es).length_eq
    rw [hsame, List.length_append] at hlength
    exact List.length_eq_zero_iff.1 (by omega)
  · rintro rfl
    exact adding_nil ..

/-- opening a unit moves no entry, and the unit has the name that was asked for, but for case -/
theorem located_withUnit (m : Module) (name : String) :
    (m.withUnit name).2.located = m.located ∧
      (m.withUnit name).2.keyAt (m.withUnit name).1 = some (Text.asciiLower name) := by
  unfold withUnit
  cases hi : m.indexOf? name with
  | some i =>
    obtain ⟨hlt, hsame, -⟩ := List.findIdx?_eq_some_iff_getElem.1 hi
    refine ⟨rfl, ?_⟩
    rw [keyAt, List.getElem?_eq_getElem hlt]
    exact congrArg some (beq_iff_eq.1 hsame)
  | none => simp [located, keyAt]

/-- a module in which perhaps a unit was opened -/
def Opened (m m' : Module) : Prop := m' = m ∨ ∃ name, m' = (m.withUnit name).2

theorem Opened.located {m m' : Module} (hm : m.Opened m') : m'.located = m.located := by
  rcases hm with rfl | ⟨name, rfl⟩
  · rfl
  · exact (located_withUnit m name).1

theorem entries_withUnit (m : Module) (name : String) :
    (m.withUnit name).2.entries = m.entries ∧ (m.withUnit name).1 < (m.withUnit name).2.units.length := by
  obtain ⟨hlocated, hkey⟩ := located_withUnit m name
  refine ⟨?_, isSome_keyAt.1 (Option.isSome_of_eq_some hkey)⟩
  rw [entries_eq_located, hlocated, entries_eq_located]

end Module

/-! ## Trimmed lists of entries -/

/-- the left entries are the right ones up to a relation, less some aggregates -/
inductive Trimmed (E : Entry → Entry → Prop) : List Entry → List Entry → Prop where
  | nil : Trimmed E [] []
  | kept {e e' : Entry} {es es' : List Entry} : E e e' → Trimmed E es es' → Trimmed E (e :: es) (e' :: es')
  | dropped {e' : Entry} {es es' : List Entry} : e'.isAggregate = true → Trimmed E es es' → Trimmed E es (e' :: es')

section Trimmed

variable {E E' : Entry → Entry → Prop} {es es' fs fs' : List Entry}

theorem Trimmed.refl (hE : ∀ e, E e e) (es : List Entry) : Trimmed E es es := by
  induction es with
  | nil => exact .nil
  | cons e es ih => exact .kept (hE e) ih

/-- all entries are left out -/
theorem Trimmed.none (hes : ∀ e ∈ es', e.isAggregate = true) : Trimmed E [] es' := by
  induction es' with
  | nil => exact .nil
  | cons e' es' ih =>
    exact .dropped (hes e' List.mem_cons_self) (ih fun e he => hes e (List.mem_cons_of_mem e' he))

theorem Trimmed.append (h : Trimmed E es es') (h' : Trimmed E fs fs') : Trimmed E (es ++ fs) (es' ++ fs') := by
  induction h with
  | nil => exact h'
  | kept he _ ih => exact .kept he ih
  | dropped he _ ih => exact .dropped he ih

theorem Trimmed.mono (h : Trimmed E es es') (hE : ∀ e ∈ es, ∀ e' ∈ es', E e e' → E' e e') : Trimmed E' es es' := by
  induction h with
  | nil => exact .nil
  | kept he _ ih =>
    exact .kept (hE _ List.mem_cons_self _ List.mem_cons_self he)
      (ih fun e he e' he' => hE e (List.mem_cons_of_mem _ he) e' (List.mem_cons_of_mem _ he'))
  | dropped he _ ih => exact .dropped he (ih fun e he e' he' => hE e he e' (List.mem_cons_of_mem _ he'))

theorem Trimmed.length_le (h : Trimmed E es es') : es.length ≤ es'.length := by
  induction h with
  | nil => exact le_rfl
  | kept _ _ ih => exact Nat.succ_le_succ ih
  | dropped _ _ ih => exact ih.trans (Nat.le_succ _)

/-- if nothing is missing, the entries are related one by one -/
theorem Trimmed.forall₂ (h : Trimmed E es es') (hlength : es'.length ≤ es.length) : List.Forall₂ E es es' := by
  induction h with
  | nil => exact .nil
  | kept he _ ih => exact .cons he (ih (Nat.le_of_succ_le_succ hlength))
  | dropped _ h _ => exact absurd (hlength.trans h.length_le) (Nat.not_succ_le_self _)

/-- as many entries are missing as aggregates are -/
theorem Trimmed.count (h : Trimmed E es es') (hE : ∀ e e', E e e' → e.isAggregate = e'.isAggregate) :
    es.length + (es'.filter Entry.isAggregate).length = es'.length + (es.filter Entry.isAggregate).length := by
  induction h with
  | nil => rfl
  | @kept e e' es es' he _ ih =>
    rw [List.filter_cons, List.filter_cons, hE e e' he]
    cases e'.isAggregate
    · simp only [List.length_cons, Bool.false_eq_true, if_false]
      omega
    · simp only [List.length_cons, if_true]
      omega
  | dropped he _ ih =>
    rw [List.filter_cons, he]
    simp only [List.length_cons, if_true]
    omega

end Trimmed

/-! ## Reduced modules -/

/-- a unit has the entries of another one, less some aggregates -/
structure HeaderUnit.Reduced (E : Entry → Entry → Prop) (u u' : HeaderUnit) : Prop where
  name : u.name = u'.name
  entries : Trimmed E u.entries u'.entries

/-- a module has the units of another one, each less some aggregates -/
structure Module.Reduced (E : Entry → Entry → Prop) (m m' : Module) : Prop where
  name : m.name = m'.name
  units : List.Forall₂ (HeaderUnit.Reduced E) m.units m'.units

section Reduced

variable {E E' : Entry → Entry → Prop} {m m' : Module}

theorem Module.Reduced.refl (hE : ∀ e, E e e) (m : Module) : m.Reduced E m :=
  ⟨rfl, List.forall₂_same.2 fun _ _ => ⟨rfl, .refl hE _⟩⟩

theorem Module.Reduced.mono (h : m.Reduced E m') (hE : ∀ e e', E e e' → E' e e') : m.Reduced E' m' :=
  ⟨h.name, h.units.imp fun _ _ hu => ⟨hu.name, hu.entries.mono fun e _ e' _ => hE e e'⟩⟩

theorem Module.Reduced.length_units (h : m.Reduced E m') : m.units.length = m'.units.length := h.units.length_eq

theorem forall₂_modify {α : Type} {R : α → α → Prop} {f f' : α → α} {as as' : List α}
    (hf : ∀ a a', R a a' → R (f a) (f' a')) (h : List.Forall₂ R as as') (i : Nat) :
    List.Forall₂ R (as.modify i f) (as'.modify i f') := by
  induction h generalizing i with
  | nil => rw [List.modify_nil, List.modify_nil]; exact .nil
  | cons ha hrest ih =>
    cases i with
    | zero => rw [List.modify_zero_cons, List.modify_zero_cons]; exact .cons (hf _ _ ha) hrest
    | succ i => rw [List.modify_succ_cons, List.modify_succ_cons]; exact .cons ha (ih i)

/-- related entries are added to one unit -/
theorem Module.Reduced.add (h : m.Reduced E m') (slot : Nat) {e e' : Entry} (he : E e e') :
    (m.add slot e).Reduced E (m'.add slot e') := by
  refine ⟨h.name, forall₂_modify (fun u u' hu => ⟨hu.name, ?_⟩) h.units slot⟩
  exact hu.entries.append (.kept he .nil)

/-- an aggregate is added to the right module only -/
theorem Module.Reduced.add_right (h : m.Reduced E m') (slot : Nat) {e' : Entry} (he : e'.isAggregate = true) :
    m.Reduced E (m'.add slot e') := by
  refine ⟨h.name, ?_⟩
  rw [← List.modify_id slot m.units]
  refine forall₂_modify (fun u u' hu => ⟨hu.name, ?_⟩) h.units slot
  have happend := hu.entries.append (.dropped he .nil)
  rwa [List.append_nil] at happend

theorem Module.Reduced.adding (h : m.Reduced E m') (unit : Option Nat) {es es' : List Entry} (hes : Trimmed E es es') :
    (m.adding unit es).Reduced E (m'.adding unit es') := by
  cases unit with
  | none => exact h
  | some slot =>
    induction hes generalizing m m' with
    | nil => exact h
    | kept he _ ih => exact ih (h.add slot he)
    | dropped he _ ih => exact ih (h.add_right slot he)

theorem Module.Reduced.indexOf? (h : m.Reduced E m') (name : String) : m.indexOf? name = m'.indexOf? name := by
  have hunits := h.units
  unfold Module.indexOf?
  generalize m.units = us, m'.units = us' at hunits
  induction hunits with
  | nil => rfl
  | cons hu _ ih => rw [List.findIdx?_cons, List.findIdx?_cons, hu.name, ih]

/-- both modules open the same unit -/
theorem Module.Reduced.withUnit (h : m.Reduced E m') (name : String) :
    (m.withUnit name).1 = (m'.withUnit name).1 ∧ (m.withUnit name).2.Reduced E (m'.withUnit name).2 := by
  unfold Module.withUnit
  rw [h.indexOf? name]
  cases m'.indexOf? name with
  | some i => exact ⟨rfl, h⟩
  | none => exact ⟨h.length_units, h.name, List.rel_append h.units (.cons ⟨rfl, .nil⟩ .nil)⟩

theorem trimmed_flatMap {us us' : List HeaderUnit} (hunits : List.Forall₂ (HeaderUnit.Reduced E) us us') :
    Trimmed E (us.flatMap (·.entries)) (us'.flatMap (·.entries)) := by
  induction hunits with
  | nil => exact .nil
  | cons hu _ ih =>
    rw [List.flatMap_cons, List.flatMap_cons]
    exact hu.entries.append ih

theorem Module.Reduced.entries (h : m.Reduced E m') : Trimmed E m.entries m'.entries := trimmed_flatMap h.units

/-- if nothing is missing, every unit has its own entries -/
theorem units_eq_of_flatMap {us us' : List HeaderUnit} (hunits : List.Forall₂ (HeaderUnit.Reduced E) us us')
    (hentries : us.flatMap (·.entries) = us'.flatMap (·.entries)) : us = us' := by
  induction hunits with
  | nil => rfl
  | @cons u u' us us' hu hus ih =>
    have hfirst := hu.entries.length_le
    have hrest := (trimmed_flatMap hus).length_le
    rw [List.flatMap_cons, List.flatMap_cons] at hentries
    have hsum := congrArg List.length hentries
    rw [List.length_append, List.length_append] at hsum
    obtain ⟨hhead, htail⟩ := List.append_inj hentries (by omega)
    have hname := hu.name
    obtain ⟨name, entries⟩ := u
    obtain ⟨name', entries'⟩ := u'
    cases hname
    cases hhead
    rw [ih htail]

/-- reduced modules with the same entries are equal -/
theorem Module.Reduced.eq_of_entries (h : m.Reduced E m') (hentries : m.entries = m'.entries) : m = m' := by
  have hname := h.name
  have hunits := units_eq_of_flatMap h.units hentries
  obtain ⟨name, units⟩ := m
  obtain ⟨name', units'⟩ := m'
  cases hname
  cases hunits
  rfl

/-- the same declarations in the same units, whatever elements they were read from -/
structure Module.SameContents (m m' : Module) : Prop where
  name : m.name = m'.name
  units : m.units.map (fun u => (u.name, u.decls)) = m'.units.map fun u => (u.name, u.decls)

theorem Module.SameContents.decls (h : m.SameContents m') : m.entries.map (·.decl) = m'.entries.map (·.decl) := by
  have hall : ∀ m : Module, m.entries.map (·.decl) = (m.units.map fun u => (u.name, u.decls)).flatMap (·.2) := by
    intro m
    rw [Module.entries, List.map_flatMap, List.flatMap_map]
    rfl
  rw [hall, hall, h.units]

theorem eq_of_decls {es es' : List Entry} (h : List.Forall₂ E es es') (hE : ∀ e e', E e e' → e.origin = e'.origin)
    (hdecls : es.map (·.decl) = es'.map (·.decl)) : es = es' := by
  induction h with
  | nil => rfl
  | @cons e e' es es' he _ ih =>
    obtain ⟨hdecl, hrest⟩ := List.cons.inj hdecls
    have horigin := hE e e' he
    obtain ⟨origin, decl⟩ := e
    obtain ⟨origin', decl'⟩ := e'
    cases hdecl
    cases horigin
    rw [ih hrest]

/-- reduced modules with the same declarations are equal, if related entries were read from the same elements -/
theorem Module.Reduced.eq_of_contents (h : m.Reduced E m') (hE : ∀ e e', E e e' → e.origin = e'.origin)
    (hsame : m.SameContents m') : m = m' := by
  have hdecls := hsame.decls
  have hlength := congrArg List.length hdecls
  rw [List.length_map, List.length_map] at hlength
  exact h.eq_of_entries (eq_of_decls (h.entries.forall₂ hlength.ge) hE hdecls)

end Reduced

end HeaderModel
