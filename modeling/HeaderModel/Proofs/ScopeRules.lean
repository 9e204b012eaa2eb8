/-
The rules of a scope.

Rules are added to a scope one after the other. What the scope says of a unit does not depend on their order: a unit is
in scope if some rule is for it, covered fully if one of its rules says so, and otherwise covered in the names that its
rules list together. The case of a unit's name does not matter.
- `Scope.units_addRules`, `Scope.coverages_addRules`: a scope to which rules were added, in closed form.
- `Coverage.Same`, `Scope.Same`: coverages and scopes that say the same; they are read alike (`Scope.Same.read_alike`).
- `rules_merge`: so the same rules make the same scope, in any order and however often each is given.
-/
import Mathlib
import HeaderModel.Config
import HeaderModel.Proofs.OverloadScan

namespace HeaderModel

namespace UnitRule

/-- the unit that a rule is for, as a scope knows it -/
def key (r : UnitRule) : String := Text.asciiLower r.unit

/-- whether a rule covers its unit fully -/
def isFull (r : UnitRule) : Bool := r.attach.getD false

/-- a rule is for a unit, in whatever case either is written -/
def IsFor (r : UnitRule) (unit : String) : Prop := Text.asciiLower r.unit = Text.asciiLower unit

instance (r : UnitRule) (unit : String) : Decidable (r.IsFor unit) :=
  inferInstanceAs (Decidable (Text.asciiLower r.unit = Text.asciiLower unit))

end UnitRule

/-- all names that rules list for a unit -/
def namesFor (rules : List UnitRule) (unit : String) : List String :=
  (rules.filter fun r => r.IsFor unit).flatMap (·.names)

/-- what rules for one unit cover of it -/
def coverageBy (rules : List UnitRule) : Option Coverage :=
  if rules.any (·.isFull) then some .full
  else if (rules.flatMap (·.names)).isEmpty then none
  else some (.only (rules.flatMap (·.names)))

/-! ## The closed form -/

section ClosedForm

variable {rules : List UnitRule} {r : UnitRule} {bound : List String} {unit key name : String}

/-- one more rule of a unit extends what is covered of it, unless it asks for nothing -/
theorem coverageBy_append : coverageBy (rules ++ [r]) =
    if !r.isFull && r.names.isEmpty then coverageBy rules
    else some (.extend (coverageBy rules) r.isFull r.names) := by
  have hany : (rules ++ [r]).any (·.isFull) = (rules.any (·.isFull) || r.isFull) := by simp
  have hnames : (rules ++ [r]).flatMap (·.names) = rules.flatMap (·.names) ++ r.names := by simp
  unfold coverageBy
  rw [hany, hnames]
  cases hr : r.isFull with
  | true => simp [Coverage.extend]
  | false =>
    cases rules.any (·.isFull) with
    | true => cases hempty : r.names.isEmpty <;> simp [Coverage.extend]
    | false =>
      cases hlisted : rules.flatMap (·.names) with
      | nil => cases hempty : r.names.isEmpty <;> simp [Coverage.extend, hempty]
      | cons n ns =>
        cases hempty : r.names.isEmpty with
        | true => simp [List.isEmpty_iff.1 hempty]
        | false => simp [Coverage.extend]

theorem coverageBy_eq_full_iff : coverageBy rules = some .full ↔ ∃ r ∈ rules, r.isFull = true := by
  unfold coverageBy
  split_ifs with hany hempty
  · exact iff_of_true rfl (List.any_eq_true.1 hany)
  · exact iff_of_false (by simp) fun hfull => hany (List.any_eq_true.2 hfull)
  · exact iff_of_false (by simp) fun hfull => hany (List.any_eq_true.2 hfull)

theorem coverageBy_eq_only_iff {names : List String} : coverageBy rules = some (.only names) ↔
    (¬∃ r ∈ rules, r.isFull = true) ∧ names = rules.flatMap (·.names) ∧ names ≠ [] := by
  unfold coverageBy
  split_ifs with hany hempty
  · exact iff_of_false (by simp) fun h => h.1 (List.any_eq_true.1 hany)
  · refine iff_of_false (by simp) ?_
    rintro ⟨-, rfl, hne⟩
    exact hne (List.isEmpty_iff.1 hempty)
  · rw [List.isEmpty_iff] at hempty
    constructor
    · rintro ⟨⟩
      exact ⟨fun hfull => hany (List.any_eq_true.2 hfull), rfl, hempty⟩
    · rintro ⟨-, rfl, -⟩
      rfl

theorem coverageBy_eq_none_iff : coverageBy rules = none ↔
    (¬∃ r ∈ rules, r.isFull = true) ∧ rules.flatMap (·.names) = [] := by
  unfold coverageBy
  split_ifs with hany hempty
  · exact iff_of_false (by simp) fun h => h.1 (List.any_eq_true.1 hany)
  · exact iff_of_true rfl ⟨fun hfull => hany (List.any_eq_true.2 hfull), List.isEmpty_iff.1 hempty⟩
  · exact iff_of_false (by simp) fun h => hempty (List.isEmpty_iff.2 h.2)

namespace Scope

theorem addRules_append (s : Scope) : s.addRules (rules ++ [r]) =
    (s.addRules rules).addUnit r.unit (r.attach.getD false) r.names :=
  List.foldl_append ..

@[simp] theorem addUnit_boundNames (s : Scope) (isFull : Bool) (names : List String) :
    (s.addUnit unit isFull names).boundNames = s.boundNames := by
  unfold addUnit
  dsimp only
  split_ifs <;> rfl

@[simp] theorem addUnit_units (s : Scope) (isFull : Bool) (names : List String) :
    (s.addUnit unit isFull names).units = Text.asciiLower unit :: s.units := by
  unfold addUnit
  dsimp only
  split_ifs <;> rfl

theorem addUnit_coverages (s : Scope) (isFull : Bool) (names : List String) :
    (s.addUnit unit isFull names).coverages.lookup key =
      if key = Text.asciiLower unit ∧ ¬(!isFull && names.isEmpty) then
        some (.extend (s.coverages.lookup key) isFull names)
      else s.coverages.lookup key := by
  unfold addUnit
  dsimp only
  by_cases hnothing : (!isFull && names.isEmpty) = true
  · rw [if_pos hnothing, if_neg fun h => h.2 hnothing]
  · rw [if_neg hnothing, List.lookup_cons]
    by_cases hkey : key = Text.asciiLower unit
    · subst hkey
      rw [if_pos ⟨rfl, hnothing⟩, beq_self_eq_true]
      rfl
    · rw [if_neg fun h => hkey h.1, beq_false_of_ne hkey]

theorem boundNames_addRules (s : Scope) : (s.addRules rules).boundNames = s.boundNames := by
  induction rules using List.reverseRecOn with
  | nil => rfl
  | append_singleton rules r ih => rw [addRules_append, addUnit_boundNames, ih]

/-- **The units in scope** are those of the rules. -/
theorem units_addRules (rules : List UnitRule) :
    ({ empty with boundNames := bound }.addRules rules).units = (rules.map (·.key)).reverse := by
  induction rules using List.reverseRecOn with
  | nil => rfl
  | append_singleton rules r ih =>
    rw [addRules_append, addUnit_units, ih, List.map_append, List.reverse_append]
    rfl

/-- **What is covered of a unit** is what its own rules cover. -/
theorem coverages_addRules (rules : List UnitRule) (key : String) :
    ({ empty with boundNames := bound }.addRules rules).coverages.lookup key =
      coverageBy (rules.filter (·.key = key)) := by
  induction rules using List.reverseRecOn with
  | nil => rfl
  | append_singleton rules r ih =>
    rw [addRules_append, addUnit_coverages, ih, List.filter_append]
    by_cases hkey : r.key = key
    · have hone : [r].filter (·.key = key) = [r] := List.filter_cons_of_pos (decide_eq_true hkey)
      have hown : key = Text.asciiLower r.unit := hkey.symm
      rw [hone, coverageBy_append]
      by_cases hnothing : (!r.isFull && r.names.isEmpty) = true
      · rw [if_pos hnothing, if_neg fun h => h.2 hnothing]
      · rw [if_neg hnothing, if_pos ⟨hown, hnothing⟩]
        rfl
    · have hnone : [r].filter (·.key = key) = [] := List.filter_cons_of_neg (by simpa using hkey)
      rw [hnone, List.append_nil, if_neg fun h => hkey h.1.symm]

theorem hasUnit_addRules : ({ empty with boundNames := bound }.addRules rules).hasUnit unit = true ↔
    ∃ r ∈ rules, r.IsFor unit := by
  rw [hasUnit, units_addRules, List.contains_iff_mem, List.mem_reverse, List.mem_map]
  rfl

theorem coverage?_addRules : ({ empty with boundNames := bound }.addRules rules).coverage? unit =
    coverageBy (rules.filter fun r => r.IsFor unit) :=
  coverages_addRules rules (Text.asciiLower unit)

end Scope

end ClosedForm

/-! ## Scopes that say the same -/

/-- two coverages of a unit that say the same: the order and the repetition of names do not count -/
inductive Coverage.Same : Coverage → Coverage → Prop
  | full : Same .full .full
  | only {names names' : List String} (hnames : ∀ name, name ∈ names ↔ name ∈ names') : Same (.only names) (.only names')

/-- two scopes that say the same of bound names and of every unit -/
structure Scope.Same (s t : Scope) : Prop where
  bound : ∀ name, name ∈ s.boundNames ↔ name ∈ t.boundNames
  units : ∀ key, key ∈ s.units ↔ key ∈ t.units
  coverages : ∀ key, Option.Rel Coverage.Same (s.coverages.lookup key) (t.coverages.lookup key)

section Same

variable {c c' : Coverage} {s t : Scope} {rules rules' : List UnitRule} {unit : String}

/-- coverages that say the same cover the same declarations -/
theorem Coverage.Same.covers_eq (hsame : c.Same c') : c.covers = c'.covers := by
  cases hsame with
  | full => rfl
  | only hnames =>
    funext name
    exact Bool.eq_iff_iff.2 (by simpa [covers] using hnames name)

/-- coverages that say the same list the same names -/
theorem Coverage.Same.names_eq (hsame : c.Same c') : c.names = c'.names := by
  cases hsame with
  | full => rfl
  | @only names names' hnames =>
    have hperm : names.eraseDups.Perm names'.eraseDups := by
      refine (List.perm_ext_iff_of_nodup (nodup_eraseDups names) (nodup_eraseDups names')).2 fun name => ?_
      rw [List.mem_eraseDups, List.mem_eraseDups]
      exact hnames name
    -- two sorted lists with the same members are the same list
    exact List.Perm.eq_of_pairwise' (List.pairwise_mergeSort' (· ≤ ·) _) (List.pairwise_mergeSort' (· ≤ ·) _)
      ((List.mergeSort_perm ..).trans (hperm.trans (List.mergeSort_perm ..).symm))

/-- Scopes that say the same have the same units, cover the same declarations of each, and list the same names. -/
theorem Scope.Same.read_alike (hsame : s.Same t) : s.hasUnit = t.hasUnit ∧ ∀ unit,
    (s.coverage? unit).map Coverage.covers = (t.coverage? unit).map Coverage.covers ∧
    (s.coverage? unit).map Coverage.names = (t.coverage? unit).map Coverage.names := by
  constructor
  · funext unit
    exact Bool.eq_iff_iff.2 (by simpa [hasUnit] using hsame.units (Text.asciiLower unit))
  · intro unit
    have hrel : Option.Rel Coverage.Same (s.coverage? unit) (t.coverage? unit) :=
      hsame.coverages (Text.asciiLower unit)
    generalize s.coverage? unit = covered at hrel ⊢
    generalize t.coverage? unit = covered' at hrel ⊢
    cases hrel with
    | none => exact ⟨rfl, rfl⟩
    | some hcovered => exact ⟨congrArg some hcovered.covers_eq, congrArg some hcovered.names_eq⟩

/-- the same rules cover the same -/
theorem coverageBy_same (hrules : ∀ r, r ∈ rules ↔ r ∈ rules') :
    Option.Rel Coverage.Same (coverageBy rules) (coverageBy rules') := by
  have hany : rules.any (·.isFull) = rules'.any (·.isFull) := by
    rw [Bool.eq_iff_iff, List.any_eq_true, List.any_eq_true]
    simp only [hrules]
  have hnames : ∀ name, name ∈ rules.flatMap (·.names) ↔ name ∈ rules'.flatMap (·.names) := by
    simp only [List.mem_flatMap, hrules, implies_true]
  have hempty : (rules.flatMap (·.names)).isEmpty = (rules'.flatMap (·.names)).isEmpty := by
    rw [Bool.eq_iff_iff, List.isEmpty_iff, List.isEmpty_iff, List.eq_nil_iff_forall_not_mem,
      List.eq_nil_iff_forall_not_mem]
    simp only [hnames]
  unfold coverageBy
  rw [← hany, ← hempty]
  split_ifs
  · exact .some .full
  · exact .none
  · exact .some (.only hnames)

/-- the same rules make the same scope -/
theorem Scope.Same.of_rules {bound : List String} (hrules : ∀ r, r ∈ rules ↔ r ∈ rules') :
    ({ empty with boundNames := bound }.addRules rules).Same ({ empty with boundNames := bound }.addRules rules') where
  bound name := by rw [boundNames_addRules, boundNames_addRules]
  units key := by simp only [units_addRules, List.mem_reverse, List.mem_map, hrules]
  coverages key := by
    rw [coverages_addRules, coverages_addRules]
    exact coverageBy_same fun r => by rw [List.mem_filter, List.mem_filter, hrules]

end Same

/-- **Rules merge.** Whatever rules are added to an empty scope, a unit is in scope exactly if a rule is for it, in any
case of its letters. It is covered fully exactly if a rule for it says so. Otherwise the names count that its rules list
together: if there are any, the unit is covered in these, and if not, it is not covered. So the same rules make the same
scope, in any order and any of them repeated, and only what is in scope is covered. -/
theorem rules_merge (bound : List String) (rules : List UnitRule) :
    (∀ unit, ({ Scope.empty with boundNames := bound }.addRules rules).hasUnit unit = true ↔
      ∃ r ∈ rules, r.IsFor unit) ∧
    (∀ unit, ({ Scope.empty with boundNames := bound }.addRules rules).coverage? unit = some .full ↔
      ∃ r ∈ rules, r.IsFor unit ∧ r.isFull = true) ∧
    (∀ unit names, ({ Scope.empty with boundNames := bound }.addRules rules).coverage? unit = some (.only names) ↔
      (¬∃ r ∈ rules, r.IsFor unit ∧ r.isFull = true) ∧ names = namesFor rules unit ∧ names ≠ []) ∧
    (∀ unit, ({ Scope.empty with boundNames := bound }.addRules rules).coverage? unit = none ↔
      (¬∃ r ∈ rules, r.IsFor unit ∧ r.isFull = true) ∧ namesFor rules unit = []) ∧
    (∀ rules' : List UnitRule, (∀ r, r ∈ rules ↔ r ∈ rules') →
      ({ Scope.empty with boundNames := bound }.addRules rules).Same
        ({ Scope.empty with boundNames := bound }.addRules rules')) ∧
    ∀ unit, (({ Scope.empty with boundNames := bound }.addRules rules).coverage? unit).isSome = true →
      ({ Scope.empty with boundNames := bound }.addRules rules).hasUnit unit = true := by
  have hfull : ∀ unit, (∃ r ∈ rules.filter fun r => r.IsFor unit, r.isFull = true) ↔
      ∃ r ∈ rules, r.IsFor unit ∧ r.isFull = true := fun unit => by
    simp only [List.mem_filter, decide_eq_true_eq, and_assoc]
  refine ⟨fun _ => Scope.hasUnit_addRules, fun unit => ?_, fun unit names => ?_, fun unit => ?_,
    fun rules' => Scope.Same.of_rules, fun unit hsome => ?_⟩
  · rw [Scope.coverage?_addRules, coverageBy_eq_full_iff, hfull]
  · rw [Scope.coverage?_addRules, coverageBy_eq_only_iff, hfull]
    rfl
  · rw [Scope.coverage?_addRules, coverageBy_eq_none_iff, hfull]
    rfl
  · rw [Scope.coverage?_addRules] at hsome
    -- without a rule for the unit nothing is covered
    rw [Scope.hasUnit_addRules]
    by_contra hnone
    have hnil : (rules.filter fun r => r.IsFor unit) = [] :=
      List.filter_eq_nil_iff.2 fun r hr hfor => hnone ⟨r, hr, of_decide_eq_true hfor⟩
    rw [hnil] at hsome
    cases hsome

/-- rules that write their units in several ways -/
def shapeRules : List UnitRule :=
  [⟨"Shapes", none, ["Box"]⟩, ⟨"colors", some true, []⟩, ⟨"SHAPES", some false, ["Arc", "Box"]⟩, ⟨"Colors", none, ["Red"]⟩,
    ⟨"base", none, []⟩]

/-- Two lists for one unit are joined, a full rule wins over a list, and a rule that asks for nothing only brings its
unit into scope. In another order, and with one of them twice, the rules make the same scope. -/
theorem shapeRules_merge :
    (Scope.empty.addRules shapeRules).coverage? "shapeS" = some (.only ["Box", "Arc", "Box"]) ∧
    (Scope.empty.addRules shapeRules).coverage? "COLORS" = some .full ∧
    (Scope.empty.addRules shapeRules).coverage? "Base" = none ∧
    (Scope.empty.addRules shapeRules).hasUnit "COLORS" = true ∧
    (Scope.empty.addRules shapeRules).Same (Scope.empty.addRules
      [⟨"base", none, []⟩, ⟨"SHAPES", some false, ["Arc", "Box"]⟩, ⟨"Colors", none, ["Red"]⟩, ⟨"Shapes", none, ["Box"]⟩,
        ⟨"colors", some true, []⟩, ⟨"Colors", none, ["Red"]⟩]) := by
  refine ⟨by decide, by decide, by decide, (rules_merge [] shapeRules).2.2.2.2.2 "COLORS" (by decide),
    (rules_merge [] shapeRules).2.2.2.2.1 _ fun r => ?_⟩
  simp only [shapeRules, List.mem_cons, List.not_mem_nil, or_false]
  tauto

end HeaderModel
