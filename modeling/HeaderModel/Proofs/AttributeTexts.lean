/-
The text of an attribute string.

White space and double quotes are taken out inside parentheses before the text is cut at its blanks. How deep a place is
in parentheses depends on everything in front of it, and a `)` too many makes it negative; so a text says the same
behind another one only if that one closes as many parentheses as it opens.
- `stripNested_append`: what is taken out of a text depends on what stands in front of it only by the depth there.
- `sameUpToPadding_iff`: two texts are the same without what is taken out, exactly if one is reached from the other by
  putting in and taking out white space and quotes inside parentheses. So nothing else is taken out.
- `items_of_texts`: the items of two texts side by side are those of each, and padding inside parentheses is not seen.
-/
import Mathlib.Tactic
import HeaderModel.Sal.Item

namespace HeaderModel.Sal

/-- how deep in parentheses a place behind a text is -/
def depth (cs : List Char) : Int := cs.count '(' - cs.count ')'

/-- a character that means nothing inside parentheses -/
def IsPadding (c : Char) : Prop := Text.isSpace c = true ∨ c = '"'

/-- the second text is the first with one more character that means nothing, at a place inside parentheses -/
inductive Padded : List Char → List Char → Prop
  | intro {front rest : List Char} {c : Char} (hdepth : 0 < depth front) (hc : IsPadding c) :
      Padded (front ++ rest) (front ++ c :: rest)

/-- one text is reached from the other by putting in and taking out padding -/
def SameUpToPadding : List Char → List Char → Prop := Relation.EqvGen Padded

/-! ## The depth of a place -/

@[simp] theorem depth_nil : depth [] = 0 := rfl

theorem depth_append (front rest : List Char) : depth (front ++ rest) = depth front + depth rest := by
  simp only [depth, List.count_append]
  omega

@[simp] theorem depth_open (cs : List Char) : depth ('(' :: cs) = 1 + depth cs := by
  simp only [depth, List.count_cons_self, List.count_cons_of_ne (show '(' ≠ ')' by decide)]
  omega

@[simp] theorem depth_close (cs : List Char) : depth (')' :: cs) = depth cs - 1 := by
  simp only [depth, List.count_cons_self, List.count_cons_of_ne (show ')' ≠ '(' by decide)]
  omega

theorem depth_other {c : Char} (cs : List Char) (hopen : c ≠ '(') (hclose : c ≠ ')') : depth (c :: cs) = depth cs := by
  simp [depth, List.count_cons_of_ne hopen, List.count_cons_of_ne hclose]

theorem depth_eq_zero_iff {cs : List Char} : depth cs = 0 ↔ cs.count '(' = cs.count ')' := by
  unfold depth
  omega

/-! ## What is taken out -/

theorem IsPadding.ne {c : Char} (hc : IsPadding c) : c ≠ '(' ∧ c ≠ ')' := by
  constructor <;> rintro rfl <;> revert hc <;> unfold IsPadding <;> decide

/-- padding is taken out inside parentheses -/
theorem stripNested_padding {d : Int} {c : Char} (cs : List Char) (hd : 0 < d) (hc : IsPadding c) :
    stripNested d (c :: cs) = stripNested d cs := by
  obtain ⟨hopen, hclose⟩ := hc.ne
  have hout : (0 < d && (Text.isSpace c || c = '"')) = true := by simpa [hd, IsPadding] using hc
  simp only [stripNested, if_neg hopen, if_neg hclose, if_pos hout]

/-- any other character stays -/
theorem stripNested_kept {d : Int} {c : Char} (cs : List Char) (hc : ¬(0 < d ∧ IsPadding c)) :
    stripNested d (c :: cs) = c :: stripNested (d + depth [c]) cs := by
  by_cases hopen : c = '('
  · simp [stripNested, hopen]
  by_cases hclose : c = ')'
  · simp [stripNested, hclose, Int.sub_eq_add_neg]
  have hin : ¬(0 < d && (Text.isSpace c || c = '"')) = true := by simpa [IsPadding] using hc
  simp only [stripNested, if_neg hopen, if_neg hclose, if_neg hin, depth_other [] hopen hclose, depth_nil, add_zero]

/-- what is taken out of a text depends on the text in front only by the depth there -/
theorem stripNested_append (d : Int) (front rest : List Char) :
    stripNested d (front ++ rest) = stripNested d front ++ stripNested (d + depth front) rest := by
  induction front generalizing d with
  | nil => simp [stripNested]
  | cons c front ih =>
    have hdepth : depth (c :: front) = depth [c] + depth front := depth_append [c] front
    by_cases hc : 0 < d ∧ IsPadding c
    · have hflat : depth [c] = 0 := depth_other [] hc.2.ne.1 hc.2.ne.2
      rw [List.cons_append, stripNested_padding _ hc.1 hc.2, stripNested_padding _ hc.1 hc.2, ih, hdepth, hflat, zero_add]
    · rw [List.cons_append, stripNested_kept _ hc, stripNested_kept _ hc, ih, List.cons_append, hdepth, add_assoc]

theorem stripNested_of_padded {cs cs' : List Char} (h : Padded cs cs') : stripNested 0 cs = stripNested 0 cs' := by
  obtain ⟨hdepth, hc⟩ := h
  rw [stripNested_append, stripNested_append, stripNested_padding _ (by simpa using hdepth) hc]

/-- what is taken out of a text is padding, also when it stands behind another text -/
theorem sameUpToPadding_stripNested (front cs : List Char) :
    SameUpToPadding (front ++ cs) (front ++ stripNested (depth front) cs) := by
  induction cs generalizing front with
  | nil => exact .refl _
  | cons c cs ih =>
    by_cases hc : 0 < depth front ∧ IsPadding c
    · rw [stripNested_padding cs hc.1 hc.2]
      exact .trans _ _ _ (.symm _ _ (.rel _ _ (.intro hc.1 hc.2))) (ih front)
    · rw [stripNested_kept cs hc, ← depth_append]
      simpa using ih (front ++ [c])

/-- two texts have the same text without what is taken out, if they differ in padding and in nothing else -/
theorem sameUpToPadding_iff {cs cs' : List Char} :
    SameUpToPadding cs cs' ↔ stripNested 0 cs = stripNested 0 cs' := by
  constructor
  · intro h
    induction h with
    | rel _ _ hstep => exact stripNested_of_padded hstep
    | refl _ => rfl
    | symm _ _ _ ih => exact ih.symm
    | trans _ _ _ _ _ ih ih' => exact ih.trans ih'
  · intro heq
    have hleft := sameUpToPadding_stripNested [] cs
    have hright := sameUpToPadding_stripNested [] cs'
    rw [depth_nil, heq] at hleft
    exact hleft.trans _ _ _ (hright.symm _ _)

/-! ## Items -/

/-- behind a text that opens as many parentheses as it closes, a blank begins a new text -/
theorem itemsOf_append {cs : List Char} (hcs : depth cs = 0) (cs' : List Char) :
    itemsOf (cs ++ ' ' :: cs') = itemsOf cs ++ itemsOf cs' := by
  have hblank : stripNested 0 (' ' :: cs') = ' ' :: stripNested 0 cs' := by
    rw [stripNested_kept cs' (by simp)]
    rfl
  simp only [itemsOf, stripNested_append, hcs, add_zero, hblank, Text.piecesAt_eq_splitOn,
    List.splitOn_append_cons_self, List.map_append]

/-- **Items are local.** The items of two texts with a blank between them are those of the first and those of the
second, if the first has as many `(` as `)`, in whatever order. White space and double quotes inside parentheses may be
put in and taken out anywhere without a change of the items. -/
theorem items_of_texts :
    (∀ s t : String, s.toList.count '(' = s.toList.count ')' → items (s ++ " " ++ t) = items s ++ items t) ∧
    ∀ s s' : String, SameUpToPadding s.toList s'.toList → items s = items s' := by
  constructor
  · intro s t hcount
    have htext : (s ++ " " ++ t).toList = s.toList ++ ' ' :: t.toList := by simp
    rw [items, htext, itemsOf_append (depth_eq_zero_iff.2 hcount)]
    rfl
  · intro s s' hsame
    have hstripped := sameUpToPadding_iff.1 hsame
    simp only [items, itemsOf, hstripped]

/-- behind `)a( b`, which closes first, an item that is left open; and a blank and quotes inside parentheses -/
theorem items_of_crossed_texts :
    (")a( b".toList.count '(' = ")a( b".toList.count ')' ∧
      items (")a( b" ++ " " ++ "annotate(SAL_end") = items ")a( b" ++ items "annotate(SAL_end") ∧
    SameUpToPadding "annotate(SAL_pre) x".toList "annotate( SAL_pre\") x".toList ∧
      items "annotate(SAL_pre) x" = items "annotate( SAL_pre\") x" := by
  have hcount : ")a( b".toList.count '(' = ")a( b".toList.count ')' := by decide
  have hblank : Padded "annotate(SAL_pre) x".toList "annotate( SAL_pre) x".toList :=
    @Padded.intro "annotate(".toList "SAL_pre) x".toList ' ' (by decide) (.inl (by decide))
  have hquote : Padded "annotate( SAL_pre) x".toList "annotate( SAL_pre\") x".toList :=
    @Padded.intro "annotate( SAL_pre".toList ") x".toList '"' (by decide) (.inr rfl)
  have hsame : SameUpToPadding "annotate(SAL_pre) x".toList "annotate( SAL_pre\") x".toList :=
    .trans _ _ _ (.rel _ _ hblank) (.rel _ _ hquote)
  exact ⟨⟨hcount, items_of_texts.1 _ _ hcount⟩, hsame, items_of_texts.2 _ _ hsame⟩

end HeaderModel.Sal
