/-
Fundamental types in any order of their words.

The words of a spelling are counted, and `long`, `short` and `unsigned` are applied at the end, so it does not matter
where these stand. The base is another matter: the last word that names one counts, and `signed` names `int`. So
`signed` takes the place of a base that stands before it, but not of one that stands behind it.
- `Spelling.foldl_step`: what words have said in the end depends on their order in the base only.
- `same_name_iff`: the order matters exactly if `signed` stands with another base than `int`, and the base shows in the
  name.
- `char_signed`: `char signed` is not called like `signed char`.
-/
import Mathlib.Tactic
import HeaderModel.Typing.Fundamental

namespace HeaderModel

namespace Spelling

/-! ## What words say -/

/-- the base that a word names, if it names one; `signed` alone is an `int` -/
def baseOf? (word : String) : Option String :=
  if word = "signed" then some "int" else if word ∈ baseWords then some word else none

/-- the bases that words name, in order -/
def basesOf (words : List String) : List String := words.filterMap baseOf?

/-- what words have said in the end -/
def ofWords (words : List String) : Spelling :=
  ⟨decide ("unsigned" ∈ words), (basesOf words).getLastD "", words.count "short", words.count "long"⟩

theorem baseOf?_of_mem {word : String} (hword : word ∈ baseWords) : baseOf? word = some word := by
  have hne : word ≠ "signed" := by
    rintro rfl
    revert hword
    decide
  simp [baseOf?, hne, hword]

theorem basesOf_append_singleton {words : List String} {word base : String} (hword : baseOf? word = some base) :
    basesOf (words ++ [word]) = basesOf words ++ [base] := by
  simp [basesOf, List.filterMap_append, hword]

theorem basesOf_append_other {words : List String} {word : String} (hword : baseOf? word = none) :
    basesOf (words ++ [word]) = basesOf words := by
  simp [basesOf, List.filterMap_append, hword]

/-- the last word that names a base decides -/
theorem base_ofWords_append {words : List String} {word base : String} (hword : baseOf? word = some base) :
    (ofWords (words ++ [word])).base = base := by
  simp [ofWords, basesOf_append_singleton hword]

theorem step_ofWords (words : List String) (word : String) : (ofWords words).step word = ofWords (words ++ [word]) := by
  unfold step
  split_ifs with hunsigned hsigned hlong hshort hbase
  · subst hunsigned
    have hnone : baseOf? "unsigned" = none := by decide
    simp [ofWords, basesOf_append_other hnone]
  · subst hsigned
    have hint : baseOf? "signed" = some "int" := by decide
    simp [ofWords, basesOf_append_singleton hint]
  · subst hlong
    have hnone : baseOf? "long" = none := by decide
    simp [ofWords, basesOf_append_other hnone]
  · subst hshort
    have hnone : baseOf? "short" = none := by decide
    simp [ofWords, basesOf_append_other hnone]
  · have hsome : baseOf? word = some word := baseOf?_of_mem (by simpa using hbase)
    simp [ofWords, basesOf_append_singleton hsome, Ne.symm hunsigned, hlong, hshort]
  · have hnone : baseOf? word = none := by simp [baseOf?, hsigned, List.contains_iff_mem.not.1 hbase]
    simp [ofWords, basesOf_append_other hnone, Ne.symm hunsigned, hlong, hshort]

/-- **What words have said in the end.** Only the base depends on their order. -/
theorem foldl_step (words : List String) : words.foldl step empty = ofWords words := by
  induction words using List.reverseRecOn with
  | nil => rfl
  | append_singleton words word ih => rw [List.foldl_append, ih, List.foldl_cons, List.foldl_nil, step_ofWords]

/-- another order changes nothing but the base -/
theorem ofWords_perm {us words : List String} (h : us.Perm words) :
    ofWords us = { ofWords words with base := (ofWords us).base } := by
  simp [ofWords, h.mem_iff, h.count_eq]

/-! ## Where the base shows -/

/-- the base shows in the name: no `short` and no two `long` stand in its place, and one `long` does so for all bases but
`double` -/
def ShowsBase (s : Spelling) : Prop := s.shorts ≠ 1 ∧ s.longs ≠ 2 ∧ (s.longs = 1 → s.base = "double")

theorem name_eq_iff_sizedBase {s t : Spelling} (h : t.isUnsigned = s.isUnsigned) :
    t.name = s.name ↔ t.sizedBase = s.sizedBase := by
  unfold name
  rw [h]
  cases s.isUnsigned
  · simp
  · simp [String.append_right_inj]

/-- the name tells a base from `int` exactly if it shows the base, and that is not `int` -/
theorem name_int_eq_iff (s : Spelling) : { s with base := "int" }.name = s.name ↔ s.ShowsBase → s.base = "int" := by
  have hsized : { s with base := "int" }.name = s.name ↔ { s with base := "int" }.sizedBase = s.sizedBase :=
    name_eq_iff_sizedBase rfl
  rw [hsized]
  unfold sizedBase ShowsBase
  by_cases hshort : s.shorts = 1
  · simp [hshort]
  · by_cases hlong : s.longs = 1
    · by_cases hdouble : s.base = "double"
      · simp [hshort, hlong, hdouble]
      · simp [hshort, hlong, hdouble]
    · by_cases htwo : s.longs = 2
      · simp [hshort, htwo]
      · simp [hshort, hlong, htwo, eq_comm]

end Spelling

/-! ## Spellings with one base -/

/-- words that spell a fundamental type: known ones, with at most one base beside `signed` -/
structure Spells (words : List String) : Prop where
  known : ∀ word ∈ words, word ∈ modifierWords ∨ word ∈ baseWords
  oneBase : words.countP (· ∈ baseWords) ≤ 1

/-- whether `signed` and another base than `int` compete for a place that shows in the name -/
def Contested (words : List String) : Prop :=
  "signed" ∈ words ∧ ∃ base ∈ words, base ∈ baseWords ∧ base ≠ "int" ∧
    words.count "short" ≠ 1 ∧ words.count "long" ≠ 2 ∧ (words.count "long" = 1 → base = "double")

instance (words : List String) : Decidable (Contested words) :=
  inferInstanceAs (Decidable ("signed" ∈ words ∧ ∃ base ∈ words, base ∈ baseWords ∧ base ≠ "int" ∧
    words.count "short" ≠ 1 ∧ words.count "long" ≠ 2 ∧ (words.count "long" = 1 → base = "double")))

section Spells

variable {words us vs : List String}

theorem Spells.perm (h : Spells words) (hus : us.Perm words) : Spells us := by
  refine ⟨fun word hword => h.known word (hus.mem_iff.1 hword), ?_⟩
  rw [hus.countP_eq]
  exact h.oneBase

theorem Spells.base_unique (h : Spells words) {b b' : String} (hb : b ∈ words) (hbase : b ∈ baseWords)
    (hb' : b' ∈ words) (hbase' : b' ∈ baseWords) : b = b' := by
  have hone := h.oneBase
  have hmem : b ∈ words.filter (· ∈ baseWords) := List.mem_filter.2 ⟨hb, by simpa using hbase⟩
  have hmem' : b' ∈ words.filter (· ∈ baseWords) := List.mem_filter.2 ⟨hb', by simpa using hbase'⟩
  rw [List.countP_eq_length_filter] at hone
  generalize words.filter (· ∈ baseWords) = bases at hone hmem hmem'
  match bases, hone with
  | [], _ => exact absurd hmem List.not_mem_nil
  | [base], _ => rw [List.mem_singleton.1 hmem, List.mem_singleton.1 hmem']

/-- known words have no spaces in them, so that they come back from their spelling -/
theorem Spells.spellingWords_intercalate (h : Spells words) (hne : words ≠ []) :
    spellingWords (" ".intercalate words) = words := by
  have hspaces : ∀ word ∈ modifierWords ++ baseWords, ' ' ∉ word.toList := by decide
  have hpieces : ∀ piece ∈ words.map String.toList, ' ' ∉ piece := by
    intro piece hpiece
    obtain ⟨word, hword, rfl⟩ := List.mem_map.1 hpiece
    exact hspaces word (List.mem_append.2 (h.known word hword))
  have hspace : " ".toList = [' '] := rfl
  unfold spellingWords
  rw [String.toList_intercalate, hspace, Text.piecesAt_eq_splitOn, List.splitOn_intercalate ' ' hpieces (by simpa),
    List.map_map]
  simp [Function.comp_def]

/-- the short name of words in some order -/
theorem Spells.fundamentalName_intercalate (h : Spells words) :
    fundamentalName (" ".intercalate words) = (Spelling.ofWords words).name := by
  by_cases hne : words = []
  · subst hne
    decide
  · rw [fundamentalName, h.spellingWords_intercalate hne, Spelling.foldl_step]

namespace Spelling

theorem mem_basesOf {base : String} :
    base ∈ basesOf words ↔ "signed" ∈ words ∧ base = "int" ∨ base ∈ words ∧ base ∈ baseWords := by
  constructor
  · intro hbase
    obtain ⟨word, hword, hnames⟩ := List.mem_filterMap.1 hbase
    unfold baseOf? at hnames
    split_ifs at hnames with hsigned hknown
    · exact .inl ⟨hsigned ▸ hword, (Option.some.inj hnames).symm⟩
    · obtain rfl := Option.some.inj hnames
      exact .inr ⟨hword, hknown⟩
  · rintro (⟨hsigned, rfl⟩ | ⟨hword, hknown⟩)
    · exact List.mem_filterMap.2 ⟨"signed", hsigned, rfl⟩
    · exact List.mem_filterMap.2 ⟨base, hword, baseOf?_of_mem hknown⟩

/-- two orders with different bases name both of them -/
theorem mem_basesOf_of_base_ne (hus : us.Perm words) (hvs : vs.Perm words)
    (hne : (ofWords us).base ≠ (ofWords vs).base) : (ofWords us).base ∈ basesOf words := by
  have hbases : (basesOf us).Perm (basesOf vs) := (hus.trans hvs.symm).filterMap _
  have hwords : (basesOf us).Perm (basesOf words) := hus.filterMap _
  have hsome : basesOf us ≠ [] := by
    intro hnil
    rw [hnil] at hbases
    apply hne
    simp [ofWords, hnil, hbases.nil_eq.symm]
  rw [← hwords.mem_iff, ofWords, List.getLastD_eq_getLast?, List.getLast?_eq_some_getLast hsome]
  exact List.getLast_mem hsome

/-- with nothing contested, an order with the base `int` is called like an order with another base -/
theorem name_eq_of_int (hfree : ¬Contested words) (hus : us.Perm words) (hvs : vs.Perm words)
    (hsigned : "signed" ∈ words) (hint : (ofWords us).base = "int") (hword : (ofWords vs).base ∈ words)
    (hknown : (ofWords vs).base ∈ baseWords) : (ofWords us).name = (ofWords vs).name := by
  have hsame : ofWords us = { ofWords vs with base := "int" } := by
    rw [ofWords_perm (hus.trans hvs.symm), hint]
  rw [hsame, name_int_eq_iff]
  rintro ⟨hshort, hlong, hdouble⟩
  by_contra hne
  refine hfree ⟨hsigned, (ofWords vs).base, hword, hknown, hne, ?_, ?_, ?_⟩
  · rwa [← hvs.count_eq]
  · rwa [← hvs.count_eq]
  · rwa [← hvs.count_eq]

end Spelling

/-- **When the order of the words does not matter.** All orders of the words of a fundamental type give it the same name,
exactly if `signed` does not stand with another base than `int` that shows in the name. -/
theorem same_name_iff (hwords : Spells words) :
    (∀ us vs : List String, us.Perm words → vs.Perm words →
      fundamentalName (" ".intercalate us) = fundamentalName (" ".intercalate vs)) ↔ ¬Contested words := by
  constructor
  · rintro hsame ⟨hsigned, base, hbase, hknown, hne, hshort, hlong, hdouble⟩
    have hus : (words.erase "signed" ++ ["signed"]).Perm words :=
      (List.perm_append_singleton ..).trans (List.perm_cons_erase hsigned).symm
    have hvs : (words.erase base ++ [base]).Perm words :=
      (List.perm_append_singleton ..).trans (List.perm_cons_erase hbase).symm
    have hname := hsame _ _ hus hvs
    rw [(hwords.perm hus).fundamentalName_intercalate, (hwords.perm hvs).fundamentalName_intercalate,
      Spelling.ofWords_perm hus, Spelling.ofWords_perm hvs, Spelling.base_ofWords_append rfl,
      Spelling.base_ofWords_append (Spelling.baseOf?_of_mem hknown)] at hname
    exact hne ((Spelling.name_int_eq_iff { Spelling.ofWords words with base := base }).1 hname
      ⟨hshort, hlong, hdouble⟩)
  · intro hfree us vs hus hvs
    rw [(hwords.perm hus).fundamentalName_intercalate, (hwords.perm hvs).fundamentalName_intercalate]
    by_cases heq : (Spelling.ofWords us).base = (Spelling.ofWords vs).base
    · rw [Spelling.ofWords_perm hus, Spelling.ofWords_perm hvs, heq]
    · have hb := Spelling.mem_basesOf.1 (Spelling.mem_basesOf_of_base_ne hus hvs heq)
      have hb' := Spelling.mem_basesOf.1 (Spelling.mem_basesOf_of_base_ne hvs hus (Ne.symm heq))
      rcases hb with ⟨hsigned, hint⟩ | ⟨hword, hknown⟩
      · rcases hb' with ⟨-, hint'⟩ | ⟨hword', hknown'⟩
        · exact absurd (hint.trans hint'.symm) heq
        · exact Spelling.name_eq_of_int hfree hus hvs hsigned hint hword' hknown'
      · rcases hb' with ⟨hsigned, hint'⟩ | ⟨hword', hknown'⟩
        · exact (Spelling.name_eq_of_int hfree hvs hus hsigned hint' hword hknown).symm
        · exact absurd (hwords.base_unique hword hknown hword' hknown') heq

end Spells

/-- `long` takes the place of `char`, so the order does not matter beside it; it leaves `double`, so there it does -/
theorem orders_of_long :
    Spells ["signed", "long", "char", "unsigned"] ∧
    (∀ us : List String, us.Perm ["signed", "long", "char", "unsigned"] →
      fundamentalName (" ".intercalate us) = "unsigned long") ∧
    Spells ["signed", "long", "double"] ∧
    ¬∀ us vs : List String, us.Perm ["signed", "long", "double"] → vs.Perm ["signed", "long", "double"] →
      fundamentalName (" ".intercalate us) = fundamentalName (" ".intercalate vs) := by
  have hchar : Spells ["signed", "long", "char", "unsigned"] := ⟨by decide, by decide⟩
  have hdouble : Spells ["signed", "long", "double"] := ⟨by decide, by decide⟩
  refine ⟨hchar, fun us hus => ?_, hdouble, fun hsame => ?_⟩
  · have hname := (same_name_iff hchar).2 (by decide) us _ hus (.refl _)
    rw [hname]
    decide
  · exact absurd (by decide) ((same_name_iff hdouble).1 hsame)

/-- `signed` takes the place of `char` if it stands behind it, and not if it stands before it -/
theorem char_signed :
    Spells ["char", "signed"] ∧ ["signed", "char"].Perm ["char", "signed"] ∧
      fundamentalName (" ".intercalate ["signed", "char"]) = "char" ∧
      fundamentalName (" ".intercalate ["char", "signed"]) = "int" :=
  ⟨⟨by decide, by decide⟩, .swap _ _ _, by decide, by decide⟩

end HeaderModel
