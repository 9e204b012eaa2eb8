/-
Tags read back as they are written.

- `isName`: the names of markup. None of their characters means anything to a reader of tags (`isWord_of_isName`).
- `attributes?_renderAttributes`: the attributes of a written tag are read as they were, whatever their values.
- `splitTag?_of_passes`: a written tag ends where it was ended; quotes hide the ends that values may contain.
- `readFrom_opening`, `readFrom_closing`: what a reading makes of a written tag.
- `nodup_of_readFrom`: no reading reports a tag that has an attribute twice.
-/
import HeaderModel.Document.Dump
import Mathlib.Data.List.TakeWhile
import Mathlib.Tactic

namespace HeaderModel

namespace Markup

/-! ## Names -/

/-- the characters that start a name -/
def nameStarts : Text.CharSet := [
  (0x3A, 0x3A), (0x41, 0x5A), (0x5F, 0x5F), (0x61, 0x7A), (0xC0, 0xD6), (0xD8, 0xF6), (0xF8, 0x2FF), (0x370, 0x37D),
  (0x37F, 0x1FFF), (0x200C, 0x200D), (0x2070, 0x218F), (0x2C00, 0x2FEF), (0x3001, 0xD7FF), (0xF900, 0xFDCF),
  (0xFDF0, 0xFFFD), (0x10000, 0xEFFFF)]

/-- the characters that continue a name -/
def nameContinues : Text.CharSet :=
  nameStarts ++ [(0x2D, 0x2E), (0x30, 0x39), (0xB7, 0xB7), (0x300, 0x36F), (0x203F, 0x2040)]

/-- a name of an element or an attribute -/
def isName (s : String) : Bool :=
  match s.toList with
  | [] => false
  | c :: cs => nameStarts.has c && cs.all nameContinues.has

/-- the characters that mean something inside a tag -/
def specials : List Char := [' ', '\t', '\r', '\n', '=', '"', '\'', '<', '>', '/', '!', '?']

/-- a text that a tag's reader takes as a whole -/
structure IsWord (cs : List Char) : Prop where
  nonempty : cs ≠ []
  plain : ∀ c ∈ cs, c ∉ specials

section Words

variable {c : Char} {cs : List Char} {s : String}

theorem not_mem_specials (h : nameContinues.has c = true) : c ∉ specials := by
  have hspecials : (specials.all fun d => !nameContinues.has d) = true := rfl
  intro hc
  have hnot := List.all_eq_true.1 hspecials c hc
  rw [h] at hnot
  cases hnot

theorem isWord_of_isName (h : isName s = true) : IsWord s.toList := by
  unfold isName at h
  split at h
  · cases h
  · next c cs heq =>
    rw [heq]
    obtain ⟨hc, hcs⟩ := Bool.and_eq_true_iff.1 h
    have hstart : nameContinues.has c = true := by
      rw [Text.CharSet.has, nameContinues, List.any_append, Bool.or_eq_true]
      exact .inl hc
    refine ⟨List.cons_ne_nil c cs, fun d hd => ?_⟩
    rcases List.mem_cons.1 hd with rfl | hd
    · exact not_mem_specials hstart
    · exact not_mem_specials (List.all_eq_true.1 hcs d hd)

theorem isBlank_of_not_special (h : c ∉ specials) : isBlank c = false := by
  simp only [specials, List.mem_cons, not_or] at h
  simp [isBlank, h]

theorem inKey_of_not_special (h : c ∉ specials) : inKey c = true := by
  rw [inKey, isBlank_of_not_special h]
  simp only [specials, List.mem_cons, not_or] at h
  simp [h]

end Words

/-! ## Attributes -/

section Attributes

variable {cs rest : List Char}

/-- a run of characters of a class ends at the first that is not of the class -/
theorem takeWhile_run {p : Char → Bool} {w : List Char} {c : Char} (hw : ∀ d ∈ w, p d = true) (hc : p c = false)
    (rest : List Char) : (w ++ c :: rest).takeWhile p = w := by
  rw [List.takeWhile_append_of_pos hw, List.takeWhile_cons_of_neg (by simp [hc]), List.append_nil]

theorem dropWhile_run {p : Char → Bool} {w : List Char} {c : Char} (hw : ∀ d ∈ w, p d = true) (hc : p c = false)
    (rest : List Char) : (w ++ c :: rest).dropWhile p = c :: rest := by
  rw [List.dropWhile_append_of_pos hw, List.dropWhile_cons_of_neg (by simp [hc])]

/-- no character of a written value ends it or ends the tag -/
theorem not_mem_escape (cs : List Char) : '"' ∉ escape cs := by
  intro h
  obtain ⟨c, -, hc⟩ := List.mem_flatMap.1 h
  unfold escapeChar at hc
  split_ifs at hc with h1 h2 h3 h4 h5
  · revert hc; decide
  · revert hc; decide
  · revert hc; decide
  · revert hc; decide
  · revert hc; decide
  · exact h5 (List.mem_singleton.1 hc).symm

theorem ne_quote_of_mem_escape {c : Char} (h : c ∈ escape cs) : decide (c ≠ '"') = true :=
  decide_eq_true fun hc => not_mem_escape cs (hc ▸ h)

theorem value?_written (cs rest : List Char) :
    value? ('=' :: '"' :: (escape cs ++ '"' :: rest)) = some (escape cs, rest) := by
  have hequals := dropWhile_run (p := isBlank) (w := []) (c := '=') nofun rfl ('"' :: (escape cs ++ '"' :: rest))
  have hopens := dropWhile_run (p := isBlank) (w := []) (c := '"') nofun rfl (escape cs ++ '"' :: rest)
  rw [List.nil_append] at hequals hopens
  have htake := takeWhile_run (w := escape cs) (c := '"') (fun _ hc => ne_quote_of_mem_escape hc) rfl rest
  have hdrop := dropWhile_run (w := escape cs) (c := '"') (fun _ hc => ne_quote_of_mem_escape hc) rfl rest
  simp only [value?, hequals, hopens, decide_true, Bool.true_or, if_true, hdrop, htake]

theorem attributes?_renderAttributes (seen : List (List Char)) (as : List Attribute) (hwords : ∀ a ∈ as, IsWord a.1.toList)
    (hnodup : (as.map (·.1)).Nodup) (hseen : ∀ a ∈ as, a.1.toList ∉ seen) :
    attributes? seen (renderAttributes as) = some as := by
  induction as generalizing seen with
  | nil => rw [attributes?]; rfl
  | cons a as ih =>
    obtain ⟨name, value⟩ := a
    obtain ⟨hnonempty, hplain⟩ := hwords _ List.mem_cons_self
    obtain ⟨first, following, hname⟩ := List.exists_cons_of_ne_nil hnonempty
    dsimp only at hname hplain
    rw [hname] at hplain
    rw [List.map_cons, List.nodup_cons] at hnodup
    set others := renderAttributes as with hothers
    have htext : renderAttributes ((name, value) :: as) =
        ' ' :: first :: (following ++ '=' :: '"' :: (escape value.toList ++ '"' :: others)) := by
      simp [renderAttributes, hname, hothers]
    have hstart : (renderAttributes ((name, value) :: as)).dropWhile isBlank =
        first :: (following ++ '=' :: '"' :: (escape value.toList ++ '"' :: others)) := by
      rw [htext]
      have hblank : ∀ c ∈ [' '], isBlank c = true := by simp [isBlank]
      exact dropWhile_run hblank (isBlank_of_not_special (hplain first List.mem_cons_self)) _
    have hkey : ∀ c ∈ following, inKey c = true := fun c hc =>
      inKey_of_not_special (hplain c (List.mem_cons_of_mem _ hc))
    have htake := takeWhile_run (c := '=') hkey rfl ('"' :: (escape value.toList ++ '"' :: others))
    have hdrop := dropWhile_run (c := '=') hkey rfl ('"' :: (escape value.toList ++ '"' :: others))
    have hnew : (first :: following) ∉ seen := hname ▸ hseen _ List.mem_cons_self
    have hlater : attributes? ((first :: following) :: seen) others = some as := by
      refine ih _ (fun b hb => hwords b (List.mem_cons_of_mem _ hb)) hnodup.2 fun b hb hmem => ?_
      rcases List.mem_cons.1 hmem with hsame | hmem
      · rw [← hname] at hsame
        exact hnodup.1 (List.mem_map.2 ⟨b, hb, String.toList_injective hsame⟩)
      · exact hseen b (List.mem_cons_of_mem _ hb) hmem
    rw [attributes?]
    split
    · next hnil =>
      rw [hstart] at hnil
      cases hnil
    · next c cs hcons =>
      rw [hstart] at hcons
      obtain ⟨rfl, rfl⟩ := List.cons.inj hcons
      split
      · next hnone =>
        rw [hdrop, value?_written] at hnone
        cases hnone
      · next written after hsome =>
        rw [hdrop, value?_written] at hsome
        obtain ⟨rfl, rfl⟩ := Prod.mk.inj (Option.some.inj hsome)
        rw [htake, if_neg (by simpa using hnew), unescape?_escape, Option.bind_some, hlater, ← hname,
          String.ofList_toList, String.ofList_toList]
        rfl

end Attributes

/-! ## Where a tag ends -/

section Passing

variable {w v : List Char}

/-- a text inside a tag with all its quotes closed and no end of the tag outside them -/
def Passes (w : List Char) : Prop :=
  ∀ cs, splitTag? none (w ++ cs) = (splitTag? none cs).map fun s => (w ++ s.1, s.2)

theorem passes_nil : Passes [] := fun cs => by simp

theorem Passes.append (hw : Passes w) (hv : Passes v) : Passes (w ++ v) := fun cs => by
  rw [List.append_assoc, hw, hv, Option.map_map]
  simp only [Function.comp_def, List.append_assoc]

theorem passes_char {c : Char} (hc : c ∉ ['>', '"', '\'']) : Passes [c] := fun cs => by
  simp only [List.mem_cons, not_or] at hc
  simp [splitTag?, hc]

theorem passes_plain (h : ∀ c ∈ w, c ∉ ['>', '"', '\'']) : Passes w := by
  induction w with
  | nil => exact passes_nil
  | cons c w ih =>
    exact (passes_char (h c List.mem_cons_self)).append (ih fun d hd => h d (List.mem_cons_of_mem _ hd))

theorem IsWord.passes (h : IsWord w) : Passes w := passes_plain fun c hc hends =>
  h.plain c hc (by revert hends; simp [specials]; tauto)

/-- quotes hide everything up to where they close -/
theorem passes_quoted (hv : '"' ∉ v) : Passes ('"' :: (v ++ ['"'])) := fun cs => by
  have hinside : ∀ v, '"' ∉ v →
      splitTag? (some '"') (v ++ '"' :: cs) = (splitTag? none cs).map fun s => (v ++ '"' :: s.1, s.2) := by
    intro v
    induction v with
    | nil => intro _; simp [splitTag?]
    | cons c v ih =>
      intro hv
      rw [List.mem_cons, not_or] at hv
      simp [splitTag?, Ne.symm hv.1, ih hv.2, Function.comp_def]
  have hopen : splitTag? none ('"' :: (v ++ '"' :: cs)) =
      (splitTag? (some '"') (v ++ '"' :: cs)).map fun s => ('"' :: s.1, s.2) := by simp [splitTag?]
  rw [List.cons_append, List.append_assoc, List.singleton_append, hopen, hinside v hv, Option.map_map]
  simp [Function.comp_def]

theorem passes_renderAttributes {as : List Attribute} (hwords : ∀ a ∈ as, IsWord a.1.toList) :
    Passes (renderAttributes as) := by
  induction as with
  | nil => exact passes_nil
  | cons a as ih =>
    have hname := (hwords a List.mem_cons_self).passes
    have hvalue := passes_quoted (not_mem_escape a.2.toList)
    have hrest := ih fun b hb => hwords b (List.mem_cons_of_mem _ hb)
    have hall := ((passes_char (c := ' ') (by decide)).append hname).append
      (((passes_char (c := '=') (by decide)).append hvalue).append hrest)
    simpa [renderAttributes] using hall

/-- a tag ends at the first end that is outside quotes -/
theorem splitTag?_of_passes (hw : Passes w) (rest : List Char) :
    splitTag? none (w ++ '>' :: rest) = some (w, rest) := by
  rw [hw]
  simp [splitTag?]

end Passing

/-! ## What stands between `<` and `>` -/

section Contents

variable {tag : String} {as : List Attribute}

/-- what can be written as a tag and read again -/
structure Writable (tag : String) (as : List Attribute) : Prop where
  tag : IsWord tag.toList
  keys : ∀ a ∈ as, IsWord a.1.toList
  nodup : (as.map (·.1)).Nodup

theorem renderAttributes_ends (has : as ≠ []) : ∃ w, renderAttributes as = w ++ ['"'] := by
  induction as with
  | nil => exact absurd rfl has
  | cons a as ih =>
    cases as with
    | nil => exact ⟨' ' :: a.1.toList ++ "=\"".toList ++ escape a.2.toList, by simp [renderAttributes]⟩
    | cons b as =>
      obtain ⟨w, hw⟩ := ih (List.cons_ne_nil b as)
      refine ⟨' ' :: a.1.toList ++ "=\"".toList ++ escape a.2.toList ++ ['"'] ++ w, ?_⟩
      rw [List.append_assoc, ← hw]
      simp [renderAttributes]

theorem Writable.getLast?_ne (h : Writable tag as) : (tag.toList ++ renderAttributes as).getLast? ≠ some '/' := by
  by_cases has : as = []
  · subst has
    rw [renderAttributes, List.flatMap_nil, List.append_nil]
    exact fun hlast => h.tag.plain '/' (List.mem_of_getLast? hlast) (by decide)
  · obtain ⟨w, hw⟩ := renderAttributes_ends has
    rw [hw, ← List.append_assoc, List.getLast?_concat]
    decide

theorem Writable.ofOpening (h : Writable tag as) (isEmpty : Bool) :
    Tag.ofOpening (tag.toList ++ renderAttributes as) isEmpty = .opening tag (some as) isEmpty := by
  have hname : ∀ c ∈ tag.toList, (!isBlank c) = true := fun c hc => by
    rw [isBlank_of_not_special (h.tag.plain c hc), Bool.not_false]
  have hread := attributes?_renderAttributes [] as h.keys h.nodup fun _ _ => List.not_mem_nil
  have hcut : (tag.toList ++ renderAttributes as).takeWhile (fun c => !isBlank c) = tag.toList ∧
      (tag.toList ++ renderAttributes as).dropWhile (fun c => !isBlank c) = renderAttributes as := by
    cases as with
    | nil =>
      rw [renderAttributes, List.flatMap_nil, List.append_nil]
      exact ⟨List.takeWhile_eq_self_iff.2 hname, List.dropWhile_eq_nil_iff.2 hname⟩
    | cons a as => exact ⟨takeWhile_run hname rfl _, dropWhile_run hname rfl _⟩
  rw [Tag.ofOpening, hcut.1, hcut.2, hread, String.ofList_toList]

/-- what opens with a word is an opening tag -/
theorem IsWord.ofContent {w : List Char} (h : IsWord w) (cs : List Char) :
    Tag.ofContent (w ++ cs) =
      if (w ++ cs).getLast? = some '/' then Tag.ofOpening (w ++ cs).dropLast true
      else Tag.ofOpening (w ++ cs) false := by
  obtain ⟨c, w', rfl⟩ := List.exists_cons_of_ne_nil h.nonempty
  have hc := h.plain c List.mem_cons_self
  rw [List.cons_append]
  unfold Tag.ofContent
  split
  · next heq =>
    obtain ⟨rfl, -⟩ := List.cons.inj heq
    exact absurd (by decide) hc
  · rfl

theorem IsWord.markup? {w : List Char} (h : IsWord w) (cs : List Char) :
    markup? (w ++ cs) = (splitTag? none (w ++ cs)).map fun s => (some (Tag.ofContent s.1), s.2) := by
  obtain ⟨c, w', rfl⟩ := List.exists_cons_of_ne_nil h.nonempty
  have hc := h.plain c List.mem_cons_self
  rw [List.cons_append]
  unfold Markup.markup?
  split
  case h_6 => rfl
  all_goals
    rename_i heq
    obtain ⟨rfl, -⟩ := List.cons.inj heq
    exact absurd (by decide) hc

/-- a written tag that opens an element is read as it was -/
theorem Writable.markup?_opening (h : Writable tag as) (rest : List Char) :
    markup? (tag.toList ++ renderAttributes as ++ '>' :: rest) = some (some (.opening tag (some as) false), rest) := by
  have hsplit := splitTag?_of_passes (h.tag.passes.append (passes_renderAttributes h.keys)) rest
  rw [List.append_assoc] at hsplit ⊢
  rw [h.tag.markup?, hsplit, Option.map_some, h.tag.ofContent, if_neg h.getLast?_ne, h.ofOpening]

/-- so is a tag of an element with nothing in it -/
theorem Writable.markup?_empty (h : Writable tag as) (rest : List Char) :
    markup? (tag.toList ++ renderAttributes as ++ '/' :: '>' :: rest) =
      some (some (.opening tag (some as) true), rest) := by
  have hpasses := (h.tag.passes.append (passes_renderAttributes h.keys)).append (passes_char (c := '/') (by decide))
  have hsplit := splitTag?_of_passes hpasses rest
  have hends : (tag.toList ++ renderAttributes as ++ ['/']).getLast? = some '/' := List.getLast?_concat
  have hdrop : (tag.toList ++ renderAttributes as ++ ['/']).dropLast = tag.toList ++ renderAttributes as :=
    List.dropLast_concat
  simp only [List.append_assoc, List.cons_append, List.nil_append] at hsplit hends hdrop ⊢
  rw [h.tag.markup?, hsplit, Option.map_some, h.tag.ofContent, if_pos hends, hdrop, h.ofOpening]

/-- so is a tag that closes an element -/
theorem IsWord.markup?_closing (h : IsWord tag.toList) (rest : List Char) :
    Markup.markup? ('/' :: (tag.toList ++ '>' :: rest)) = some (some (.closing tag), rest) := by
  have hsplit := splitTag?_of_passes ((passes_char (c := '/') (by decide)).append h.passes) rest
  have htrim : Text.trimEnd isBlank tag.toList = tag.toList := by
    have hlast : tag.toList.reverse.dropWhile isBlank = tag.toList.reverse := by
      refine List.dropWhile_eq_self_iff.2 fun hlength => ?_
      have hmem := List.mem_reverse.1 (List.getElem_mem hlength)
      rw [isBlank_of_not_special (h.plain _ hmem)]
      exact Bool.false_ne_true
    rw [Text.trimEnd, hlast, List.reverse_reverse]
  have hcontent : Tag.ofContent ('/' :: tag.toList) = .closing tag := by
    rw [Tag.ofContent, htrim, String.ofList_toList]
  have hslash : Markup.markup? ('/' :: (tag.toList ++ '>' :: rest)) =
      (splitTag? none ('/' :: (tag.toList ++ '>' :: rest))).map fun s => (some (Tag.ofContent s.1), s.2) := rfl
  rw [List.singleton_append, List.cons_append] at hsplit
  rw [hslash, hsplit, Option.map_some, hcontent]

end Contents

/-! ## Whole texts -/

section Texts

variable (opened : List String) {gap inside rest : List Char} {tag : String} {as : List Attribute} {isEmpty : Bool}

/-- several events in front of a reading -/
def Reading.afterAll (events : List Event) (r : Reading) : Reading := { r with events := events ++ r.events }

theorem readFrom_opening (hgap : ∀ c ∈ gap, c ≠ '<')
    (h : markup? inside = some (some (.opening tag (some as) isEmpty), rest)) :
    readFrom opened (gap ++ '<' :: inside) =
      (readFrom (if isEmpty then opened else tag :: opened) rest).after (.opens tag (some as) isEmpty) := by
  have hcut := dropWhile_run (p := (· ≠ '<')) (c := '<') (fun c hc => decide_eq_true (hgap c hc)) rfl inside
  rw [readFrom]
  split
  · next hnil =>
    rw [hcut] at hnil
    cases hnil
  · next c cs hcons =>
    rw [hcut] at hcons
    obtain ⟨rfl, rfl⟩ := List.cons.inj hcons
    split <;> rename_i hmarkup <;> rw [h] at hmarkup <;> cases hmarkup
    rfl

theorem readFrom_closing (hgap : ∀ c ∈ gap, c ≠ '<') (h : markup? inside = some (some (.closing tag), rest)) :
    readFrom (tag :: opened) (gap ++ '<' :: inside) = (readFrom opened rest).after .closes := by
  have hcut := dropWhile_run (p := (· ≠ '<')) (c := '<') (fun c hc => decide_eq_true (hgap c hc)) rfl inside
  rw [readFrom]
  split
  · next hnil =>
    rw [hcut] at hnil
    cases hnil
  · next c cs hcons =>
    rw [hcut] at hcons
    obtain ⟨rfl, rfl⟩ := List.cons.inj hcons
    split <;> rename_i hmarkup <;> rw [h] at hmarkup <;> cases hmarkup
    exact if_pos rfl

/-- the declaration in front of the root is passed over -/
theorem readFrom_declaration (rest : List Char) :
    readFrom opened ("<?xml version=\"1.0\"?>\n<".toList ++ rest) = readFrom opened ('\n' :: '<' :: rest) := by
  have hmarkup : markup? ("?xml version=\"1.0\"?>\n<".toList ++ rest) = some (none, '\n' :: '<' :: rest) := rfl
  rw [readFrom]
  split
  · next hnil => cases hnil
  · next c cs hcons =>
    obtain ⟨rfl, rfl⟩ : '<' = c ∧ "?xml version=\"1.0\"?>\n<".toList ++ rest = cs := List.cons.inj hcons
    split <;> rename_i h <;> rw [hmarkup] at h <;> cases h
    rfl

theorem readFrom_nil : readFrom opened [] = ⟨[], false⟩ := by
  rw [readFrom]
  rfl

end Texts

/-! ## What is read has no attribute twice -/

section Distinct

/-- the names that are read are new and different -/
theorem nodup_of_attributes? {seen : List (List Char)} {cs : List Char} {as : List Attribute}
    (h : attributes? seen cs = some as) : (as.map (·.1)).Nodup ∧ ∀ a ∈ as, a.1.toList ∉ seen := by
  fun_induction attributes? seen cs generalizing as with
  | case1 seen cs hnil =>
    cases h
    exact ⟨.nil, fun _ ha => absurd ha List.not_mem_nil⟩
  | case2 => cases h
  | case3 => cases h
  | case4 seen cs first following hcons key value rest hvalue hnew =>
    rename_i ih
    obtain ⟨text, -, h⟩ := Option.bind_eq_some_iff.1 h
    obtain ⟨later, hlater, rfl⟩ := Option.map_eq_some_iff.1 h
    obtain ⟨hnodup, hfresh⟩ := ih hlater
    refine ⟨List.nodup_cons.2 ⟨fun hmem => ?_, hnodup⟩, fun a ha => ?_⟩
    · obtain ⟨b, hb, hsame⟩ := List.mem_map.1 hmem
      refine hfresh b hb (List.mem_cons.2 (.inl ?_))
      rw [hsame, String.toList_ofList]
    · rcases List.mem_cons.1 ha with rfl | ha
      · rw [String.toList_ofList]
        simpa using hnew
      · exact fun hmem => hfresh a ha (List.mem_cons_of_mem _ hmem)

theorem nodup_of_markup? {cs rest : List Char} {tag : String} {as : List Attribute} {isEmpty : Bool}
    (h : markup? cs = some (some (.opening tag (some as) isEmpty), rest)) : (as.map (·.1)).Nodup := by
  have hopening : ∀ content e, Tag.ofOpening content e = .opening tag (some as) isEmpty → (as.map (·.1)).Nodup := by
    intro content e hread
    simp only [Tag.ofOpening, Tag.opening.injEq] at hread
    exact (nodup_of_attributes? hread.2.1).1
  have hcontent : ∀ content, Tag.ofContent content = .opening tag (some as) isEmpty → (as.map (·.1)).Nodup := by
    intro content hread
    unfold Tag.ofContent at hread
    split at hread
    · cases hread
    · split_ifs at hread
      · exact hopening _ _ hread
      · exact hopening _ _ hread
  -- what is passed over is no tag
  have hskip : ∀ x : Option (List Char),
      (x.map fun s => (none, s)) ≠ some (some (Tag.opening tag (some as) isEmpty), rest) := by
    intro x hx
    obtain ⟨s, -, hs⟩ := Option.map_eq_some_iff.1 hx
    cases hs
  unfold markup? at h
  split at h
  case h_2 =>
    split_ifs at h
    exact absurd h (hskip _)
  case h_4 => cases h
  case h_6 =>
    obtain ⟨s, -, hs⟩ := Option.map_eq_some_iff.1 h
    exact hcontent s.1 (Option.some.inj (Prod.mk.inj hs).1)
  all_goals exact absurd h (hskip _)

theorem nodup_of_readFrom {opened : List String} {cs : List Char} {tag : String} {as : List Attribute} {isEmpty : Bool}
    (h : .opens tag (some as) isEmpty ∈ (readFrom opened cs).events) : (as.map (·.1)).Nodup := by
  fun_induction readFrom opened cs with
  | case1 => cases h
  | case2 => cases h
  | case3 _ _ _ _ _ _ _ ih => exact ih h
  | case4 opened cs first following hcons name attributes e rest hmarkup ih =>
    rcases List.mem_cons.1 h with hhere | hlater
    · cases hhere
      exact nodup_of_markup? hmarkup
    · exact ih hlater
  | case5 _ _ _ _ _ _ _ _ ih =>
    rcases List.mem_cons.1 h with hhere | hlater
    · cases hhere
    · exact ih hlater
  | case6 => cases h
  | case7 => cases h

end Distinct

end Markup

end HeaderModel
