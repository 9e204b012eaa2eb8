/-
Definitions that are collected from texts.

A line marker says from which header the next lines come, and a definition belongs to the unit of the header that was
marked last. A header leads to one unit, however the directories before its file name are spelled and whatever the case.
- `fileName_eq_iff`, `unitName_of_sameFileName`: what the file name of a path is, and that two spellings of one file
  name lead to one unit.
- `unitOfMarker_eq_some_iff`: which unit a path names.
- `markedFile?_eq_some_iff`: what a line marker is.
- `mem_definitionsFrom`: which definitions the lines of a text make, and of which units.
- `MacroTable.has_ofTexts`: a table that was collected from texts has the definitions of these, and no others.
-/
import Mathlib
import HeaderModel.MacroTable
import HeaderModel.Proofs.Tags

namespace HeaderModel

/-! ## Names of units -/

theorem Text.toLower_eq_iff {c d : Char} (hd : d.isAlpha = false) : c.toLower = d ↔ c = d := by
  by_cases hc : c.isUpper = true
  · have hlower : c.toLower ≠ d := by
      rintro rfl
      simp [Char.isAlpha, hc] at hd
    have hsame : c ≠ d := by
      rintro rfl
      simp [Char.isAlpha, hc] at hd
    exact iff_of_false hlower hsame
  · rw [Char.toLower_eq_of_not_isUpper hc]

theorem Text.asciiLower_asciiLower (s : String) : Text.asciiLower (Text.asciiLower s) = Text.asciiLower s := by
  unfold Text.asciiLower
  rw [String.toList_ofList, List.map_map]
  congr 1
  exact List.map_congr_left fun c _ => Char.toLower_toLower_eq_toLower c

/-- a run of characters of a class goes to the end of a text, or up to a character that is not of the class -/
theorem takeWhile_cases (p : Char → Bool) (cs : List Char) :
    cs.takeWhile p = cs ∨ ∃ c rest, p c = false ∧ cs = cs.takeWhile p ++ c :: rest := by
  induction cs with
  | nil => exact .inl rfl
  | cons c cs ih =>
    cases hc : p c with
    | false =>
      rw [List.takeWhile_cons_of_neg (by simp [hc])]
      exact .inr ⟨c, cs, hc, rfl⟩
    | true =>
      rw [List.takeWhile_cons_of_pos hc]
      refine ih.imp (congrArg (c :: ·)) ?_
      rintro ⟨d, rest, hd, hcs⟩
      exact ⟨d, rest, hd, congrArg (c :: ·) hcs⟩

/-- the file name of a path: it has no separator in it, and is the whole path or stands behind a separator -/
def HasFileName (path name : List Char) : Prop :=
  '/' ∉ name ∧ '\\' ∉ name ∧
    (path = name ∨ ∃ directory, path = directory ++ '/' :: name ∨ path = directory ++ '\\' :: name)

theorem isSeparator_iff {c : Char} : isSeparator c = true ↔ c = '/' ∨ c = '\\' := by
  simp [isSeparator]

theorem fileName_eq_iff {path name : List Char} : fileName path = name ↔ HasFileName path name := by
  unfold fileName
  constructor
  · rintro rfl
    have hnone : ∀ c ∈ (path.reverse.takeWhile fun c => !isSeparator c).reverse, isSeparator c = false := fun c hc => by
      simpa using List.mem_takeWhile_imp (List.mem_reverse.1 hc)
    refine ⟨fun hmem => Bool.noConfusion (hnone '/' hmem), fun hmem => Bool.noConfusion (hnone '\\' hmem), ?_⟩
    obtain hall | ⟨c, rest, hc, hpath⟩ := takeWhile_cases (fun c => !isSeparator c) path.reverse
    · rw [hall, List.reverse_reverse]
      exact .inl rfl
    · have hsplit := congrArg List.reverse hpath
      rw [List.reverse_reverse, List.reverse_append, List.reverse_cons, List.append_assoc, List.singleton_append]
        at hsplit
      refine .inr ⟨rest.reverse, ?_⟩
      obtain rfl | rfl := isSeparator_iff.1 (by simpa using hc)
      · exact .inl hsplit
      · exact .inr hsplit
  · rintro ⟨hslash, hbackslash, hpath⟩
    have hname : ∀ c ∈ name.reverse, (!isSeparator c) = true := by
      intro c hc
      rw [Bool.not_eq_true', ← Bool.not_eq_true, isSeparator_iff]
      rintro (rfl | rfl)
      · exact hslash (List.mem_reverse.1 hc)
      · exact hbackslash (List.mem_reverse.1 hc)
    rcases hpath with rfl | ⟨directory, rfl | rfl⟩
    · rw [List.takeWhile_eq_self_iff.2 hname, List.reverse_reverse]
    · rw [List.reverse_append, List.reverse_cons, List.append_assoc, List.singleton_append,
        Markup.takeWhile_run hname (by decide), List.reverse_reverse]
    · rw [List.reverse_append, List.reverse_cons, List.append_assoc, List.singleton_append,
        Markup.takeWhile_run hname (by decide), List.reverse_reverse]

/-- the stem of a file name: what stands before its last dot if anything does, and the whole name if nothing does -/
def HasStem (name stem : List Char) : Prop :=
  (stem ≠ [] ∧ ∃ extension, '.' ∉ extension ∧ name = stem ++ '.' :: extension) ∨ (stem = name ∧ '.' ∉ name.tail)

/-- a name has a last dot or none -/
theorem lastDot_cases (name : List Char) :
    '.' ∉ name ∨ ∃ stem extension, '.' ∉ extension ∧ name = stem ++ '.' :: extension := by
  obtain hall | ⟨c, rest, hc, hname⟩ := takeWhile_cases (fun c => decide (c ≠ '.')) name.reverse
  · refine .inl fun hdot => ?_
    rw [← List.mem_reverse, ← hall] at hdot
    simpa using List.mem_takeWhile_imp hdot
  · obtain rfl : c = '.' := by simpa using hc
    have hsplit := congrArg List.reverse hname
    rw [List.reverse_reverse, List.reverse_append, List.reverse_cons, List.append_assoc, List.singleton_append] at hsplit
    refine .inr ⟨rest.reverse, _, fun hdot => ?_, hsplit⟩
    simpa using List.mem_takeWhile_imp (List.mem_reverse.1 hdot)

theorem beforeLastDot_eq_nil {name : List Char} (hname : '.' ∉ name) : beforeLastDot name = [] := by
  have hall : name.reverse.dropWhile (· ≠ '.') = [] := by
    rw [List.dropWhile_eq_nil_iff]
    intro c hc
    rw [decide_eq_true_eq]
    rintro rfl
    exact hname (List.mem_reverse.1 hc)
  rw [beforeLastDot, hall]
  rfl

theorem beforeLastDot_append {stem extension : List Char} (hext : '.' ∉ extension) :
    beforeLastDot (stem ++ '.' :: extension) = stem := by
  have hdrop : (extension.reverse ++ '.' :: stem.reverse).dropWhile (· ≠ '.') = '.' :: stem.reverse := by
    refine Text.dropWhile_append_of_head (fun c hc => ?_) ?_
    · rw [decide_eq_true_eq]
      rintro rfl
      exact hext (List.mem_reverse.1 hc)
    · rintro _ ⟨⟩
      rfl
  rw [beforeLastDot, List.reverse_append, List.reverse_cons, List.append_assoc, List.singleton_append, hdrop,
    List.drop_one, List.tail_cons, List.reverse_reverse]

theorem stem_eq_iff {name stem : List Char} :
    (if (beforeLastDot name).isEmpty then name else beforeLastDot name) = stem ↔ HasStem name stem := by
  have hleft : ∀ stem, (∃ extension, '.' ∉ extension ∧ name = stem ++ '.' :: extension) → beforeLastDot name = stem := by
    rintro stem ⟨extension, hext, rfl⟩
    exact beforeLastDot_append hext
  unfold HasStem
  cases hbefore : beforeLastDot name with
  | nil =>
    have htail : '.' ∉ name.tail := by
      obtain hno | ⟨before, extension, hext, rfl⟩ := lastDot_cases name
      · exact fun hdot => hno (List.mem_of_mem_tail hdot)
      · rw [beforeLastDot_append hext] at hbefore
        rwa [hbefore]
    rw [List.isEmpty_nil, if_pos rfl]
    constructor
    · rintro rfl
      exact .inr ⟨rfl, htail⟩
    · rintro (⟨hstem, hshape⟩ | ⟨rfl, -⟩)
      · exact absurd (hbefore.symm.trans (hleft stem hshape)).symm hstem
      · rfl
  | cons c cs =>
    obtain hno | ⟨before, extension, hext, hshape⟩ := lastDot_cases name
    · rw [beforeLastDot_eq_nil hno] at hbefore
      cases hbefore
    · have hsame := hleft before ⟨extension, hext, hshape⟩
      rw [hbefore] at hsame
      subst hsame
      rw [List.isEmpty_cons, if_neg Bool.false_ne_true]
      constructor
      · rintro rfl
        exact .inl ⟨List.cons_ne_nil _ _, extension, hext, hshape⟩
      · rintro (⟨-, hshape'⟩ | ⟨-, htail⟩)
        · exact hbefore.symm.trans (hleft stem hshape')
        · refine absurd ?_ htail
          rw [hshape, List.cons_append, List.tail_cons]
          exact List.mem_append_right _ List.mem_cons_self

/-- two paths that spell one file name, whatever directories and separators stand before it and whatever the case -/
def SameFileName (p q : String) : Prop :=
  ∃ name name', HasFileName p.toList name ∧ HasFileName q.toList name' ∧ name.map Char.toLower = name'.map Char.toLower

theorem beforeLastDot_toLower (name : List Char) :
    beforeLastDot (name.map Char.toLower) = (beforeLastDot name).map Char.toLower := by
  have hdot : ((fun c => decide (c ≠ '.')) ∘ Char.toLower) = fun c => decide (c ≠ '.') := by
    funext c
    exact decide_eq_decide.2 (not_congr (Text.toLower_eq_iff rfl))
  unfold beforeLastDot
  rw [← List.map_reverse, List.dropWhile_map, hdot, ← List.map_drop, ← List.map_reverse]

/-- **One unit for one file name,** however it is spelled. -/
theorem unitName_of_sameFileName {p q : String} (hpq : SameFileName p q) :
    Text.asciiLower (unitName p) = Text.asciiLower (unitName q) := by
  -- in lower case the unit is a function of the file name in lower case
  have hname : ∀ path, (unitName path).toList.map Char.toLower =
      let name := (fileName path.toList).map Char.toLower
      if (beforeLastDot name).isEmpty then name else beforeLastDot name := by
    intro path
    unfold unitName
    rw [String.toList_ofList]
    dsimp only
    rw [beforeLastDot_toLower, List.isEmpty_map]
    split_ifs <;> rfl
  obtain ⟨name, name', hp, hq, hsame⟩ := hpq
  unfold Text.asciiLower
  rw [hname, hname, fileName_eq_iff.2 hp, fileName_eq_iff.2 hq, hsame]

/-- a path names a header unit: it does not start with `<`, and the unit is the stem of its file name in lower case -/
def NamesUnit (path : List Char) (unit : String) : Prop :=
  path.head? ≠ some '<' ∧
    ∃ name stem, HasFileName path name ∧ HasStem name stem ∧ unit = Text.asciiLower (String.ofList stem)

/-- **The unit of a path** in a line marker. -/
theorem unitOfMarker_eq_some_iff {path : List Char} {unit : String} :
    unitOfMarker path = some unit ↔ NamesUnit path unit := by
  unfold unitOfMarker NamesUnit unitName
  dsimp only
  rw [String.toList_ofList]
  by_cases hangle : path.head? = some '<'
  · rw [if_pos hangle]
    exact ⟨nofun, fun h => absurd hangle h.1⟩
  · rw [if_neg hangle, Option.some.injEq]
    constructor
    · rintro rfl
      exact ⟨hangle, _, _, fileName_eq_iff.1 rfl, stem_eq_iff.1 rfl, rfl⟩
    · rintro ⟨-, name, stem, hname, hstem, rfl⟩
      rw [fileName_eq_iff.2 hname, stem_eq_iff.2 hstem]

/-- the directory and the last extension do not count, and neither does the case -/
theorem unitOfMarker_header : unitOfMarker "C:\\Sdk.10/Inc\\Sample.Gen.H".toList = some "sample.gen" := by decide +kernel

/-! ## Line markers -/

/-- A line is shaped as a line marker of a path: a hash, a number, and the path in quotes. White space stands before the
number and before the quotes, and may stand before the hash. Anything may follow. -/
def MarkerShape (line path : List Char) : Prop :=
  ∃ before gap number gap' rest,
    (∀ c ∈ before, Text.isSpace c = true) ∧
    (∀ c ∈ gap, Text.isSpace c = true) ∧ gap ≠ [] ∧
    (∀ c ∈ number, Text.isDecimalDigit c = true) ∧ number ≠ [] ∧
    (∀ c ∈ gap', Text.isSpace c = true) ∧ gap' ≠ [] ∧
    line = before ++ '#' :: (gap ++ (number ++ (gap' ++ '"' :: (path ++ '"' :: rest))))

/-- a line marker of a path, which is not empty and has no quote in it -/
structure Marks (line path : List Char) : Prop where
  shape : MarkerShape line path
  path_ne_nil : path ≠ []
  quote_notMem : '"' ∉ path

theorem Text.CharSet.has_eq_false {s t : Text.CharSet} (hst : ∀ r ∈ s, ∀ r' ∈ t, r.2 < r'.1 ∨ r'.2 < r.1) {c : Char}
    (hc : s.has c = true) : t.has c = false := by
  unfold CharSet.has at hc ⊢
  obtain ⟨r, hr, hin⟩ := List.any_eq_true.1 hc
  refine List.any_eq_false.2 fun r' hr' hin' => ?_
  simp only [Bool.and_eq_true, decide_eq_true_eq] at hin hin'
  have hapart := hst r hr r' hr'
  omega

theorem isSpace_of_digit {c : Char} (hc : Text.isDecimalDigit c = true) : Text.isSpace c = false :=
  Text.CharSet.has_eq_false (s := Text.decimalDigits) (by decide) hc

theorem isDecimalDigit_of_space {c : Char} (hc : Text.isSpace c = true) : Text.isDecimalDigit c = false :=
  Text.CharSet.has_eq_false (s := Text.whiteSpace) (by decide) hc

/-- a text that gets shorter loses some characters of a class -/
theorem exists_run {p : Char → Bool} {cs : List Char} (hcs : cs.length ≠ (cs.dropWhile p).length) :
    ∃ w, (∀ c ∈ w, p c = true) ∧ w ≠ [] ∧ cs = w ++ cs.dropWhile p := by
  refine ⟨cs.takeWhile p, fun c hc => List.mem_takeWhile_imp hc, fun hnil => hcs ?_, ?_⟩
  · conv_lhs => rw [← List.takeWhile_append_dropWhile (p := p) (l := cs), hnil, List.nil_append]
  · exact List.takeWhile_append_dropWhile.symm

/-- a run of characters is taken away from the front of a text -/
theorem dropWhile_run_of_ne_nil {p q : Char → Bool} {w v : List Char} (hw : ∀ c ∈ w, p c = true)
    (hv : ∀ c ∈ v, q c = true) (hne : v ≠ []) (hpq : ∀ c, q c = true → p c = false) (rest : List Char) :
    (w ++ (v ++ rest)).dropWhile p = v ++ rest := by
  obtain ⟨c, cs, rfl⟩ := List.exists_cons_of_ne_nil hne
  exact Markup.dropWhile_run hw (hpq c (hv c List.mem_cons_self)) (cs ++ rest)

/-- what is read as a line marker has the shape of one -/
theorem marks_of_markedFile? {line path : List Char} (hmarked : markedFile? line = some path) : Marks line path := by
  unfold markedFile? at hmarked
  split at hmarked
  · next rest hline =>
    dsimp only at hmarked
    split at hmarked
    · next name hopens =>
      split_ifs at hmarked with hmarker
      obtain rfl := Option.some.inj hmarked
      simp only [Bool.and_eq_true, decide_eq_true_eq, Bool.not_eq_true', List.isEmpty_eq_false_iff] at hmarker
      obtain ⟨⟨⟨⟨hgap, hnumber⟩, hgap'⟩, hpath⟩, hcloses⟩ := hmarker
      obtain ⟨gap, hgap, hgapne, hrest⟩ := exists_run hgap
      obtain ⟨number, hnumber, hnumberne, hafter⟩ := exists_run hnumber
      obtain ⟨gap', hgap', hgapne', hquote⟩ := exists_run hgap'
      obtain hall | ⟨c, after, hc, hname⟩ := takeWhile_cases (· ≠ '"') name
      · exact absurd (congrArg List.length hall) hcloses
      obtain rfl : c = '"' := by simpa using hc
      refine ⟨⟨line.takeWhile Text.isSpace, gap, number, gap', after, fun c hc => List.mem_takeWhile_imp hc, hgap,
        hgapne, hnumber, hnumberne, hgap', hgapne', ?_⟩, hpath, fun hmem => ?_⟩
      · rw [← hname, ← hopens, ← hquote, ← hafter, ← hrest, ← hline, List.takeWhile_append_dropWhile]
      · simpa using List.mem_takeWhile_imp hmem
    · cases hmarked
  · cases hmarked

/-- a line marker is read as one -/
theorem Marks.marked {line path : List Char} (hline : Marks line path) : markedFile? line = some path := by
  obtain ⟨⟨before, gap, number, gap', rest, hbefore, hgap, hgapne, hnumber, hnumberne, hgap', hgapne', rfl⟩, hpath,
    hquote⟩ := hline
  have hhash := Markup.dropWhile_run hbefore (c := '#') (by decide)
    (gap ++ (number ++ (gap' ++ '"' :: (path ++ '"' :: rest))))
  have hfirst := dropWhile_run_of_ne_nil hgap hnumber hnumberne (fun c => isSpace_of_digit)
    (gap' ++ '"' :: (path ++ '"' :: rest))
  have hsecond := dropWhile_run_of_ne_nil hnumber hgap' hgapne' (fun c => isDecimalDigit_of_space)
    ('"' :: (path ++ '"' :: rest))
  have hopens := Markup.dropWhile_run hgap' (c := '"') (by decide) (path ++ '"' :: rest)
  have hname : (path ++ '"' :: rest).takeWhile (· ≠ '"') = path :=
    Markup.takeWhile_run (fun c hc => decide_eq_true (ne_of_mem_of_not_mem hc hquote)) (by decide) rest
  unfold markedFile?
  simp only [hhash, hfirst, hsecond, hopens, hname]
  rw [if_pos]
  have hgaplen := List.length_pos_iff.2 hgapne
  have hnumberlen := List.length_pos_iff.2 hnumberne
  have hgaplen' := List.length_pos_iff.2 hgapne'
  simp only [List.length_append, List.length_cons, Bool.and_eq_true, decide_eq_true_eq, Bool.not_eq_true',
    List.isEmpty_eq_false_iff]
  refine ⟨⟨⟨⟨?_, ?_⟩, ?_⟩, hpath⟩, ?_⟩
  all_goals omega

/-- **What a line marker is.** -/
theorem markedFile?_eq_some_iff {line path : List Char} : markedFile? line = some path ↔ Marks line path :=
  ⟨marks_of_markedFile?, Marks.marked⟩

/-! ## Definitions of a text -/

/-- a definition and the unit to which it belongs -/
structure UnitDefinition where
  unit : String
  name : String
  value : String
  deriving DecidableEq, Repr

/-- the definition that a line makes for the unit of the lines there -/
def definitionOf? (current : Option String) (line : List Char) : Option UnitDefinition :=
  match current, definition? line with
  | some unit, some (name, value) => some ⟨unit, name, value⟩
  | _, _ => none

/-- the definitions that lines make, in order, when the first of them belong to some unit or to none -/
def definitionsFrom (current : Option String) : List (List Char) → List UnitDefinition
  | [] => []
  | line :: rest =>
    match markedFile? line with
    | some path => definitionsFrom (unitOfMarker path) rest
    | none => (definitionOf? current line).toList ++ definitionsFrom current rest

/-- the definitions that a text makes -/
def definitionsIn (text : String) : List UnitDefinition := definitionsFrom none (Text.lines text.toList)

/-- a line defines a name, and no line before it is a line marker -/
def DefinesFirst (lines : List (List Char)) (name value : String) : Prop :=
  ∃ before line after, lines = before ++ line :: after ∧ (∀ l ∈ before, ∀ path, ¬Marks l path) ∧
    definition? line = some (name, value)

/-- a line defines a name, and the last line marker before it is one of a file -/
def DefinesUnder (lines : List (List Char)) (path : List Char) (name value : String) : Prop :=
  ∃ before marker after, lines = before ++ marker :: after ∧ Marks marker path ∧ DefinesFirst after name value

section Definitions

variable {current : Option String} {line path : List Char} {lines : List (List Char)} {name value : String}
  {e : UnitDefinition}

theorem mem_definitionOf? :
    e ∈ (definitionOf? current line).toList ↔ current = some e.unit ∧ definition? line = some (e.name, e.value) := by
  obtain ⟨unit, name, value⟩ := e
  rw [Option.mem_toList]
  unfold definitionOf?
  cases current with
  | none => simp
  | some u =>
    cases definition? line with
    | none => simp
    | some d => simp [Prod.ext_iff]

/-- a line marker defines nothing, since white space follows its hash -/
theorem Marks.definition? (hline : Marks line path) : definition? line = none := by
  obtain ⟨before, gap, number, gap', rest, hbefore, hgap, hgapne, -, -, -, -, rfl⟩ := hline.shape
  -- the character behind the hash is white space in the one case and a letter in the other
  obtain ⟨c, gap, rfl⟩ := List.exists_cons_of_ne_nil hgapne
  have hc : 'd' ≠ c := by
    rintro rfl
    exact absurd (hgap 'd' List.mem_cons_self) (by decide)
  have hhash := Markup.dropWhile_run hbefore (c := '#') (by decide)
    (c :: gap ++ (number ++ (gap' ++ '"' :: (path ++ '"' :: rest))))
  unfold HeaderModel.definition? Text.after?
  rw [hhash, if_neg]
  · rfl
  · have hstart : "#define".toList = '#' :: 'd' :: "efine".toList := by decide
    rw [hstart, List.cons_append]
    simp [List.isPrefixOf, hc]

theorem definesFirst_cons : DefinesFirst (line :: lines) name value ↔
    definition? line = some (name, value) ∨ (∀ path, ¬Marks line path) ∧ DefinesFirst lines name value := by
  constructor
  · rintro ⟨before, l, after, heq, hbefore, hdefines⟩
    cases before with
    | nil =>
      obtain ⟨rfl, -⟩ := List.cons.inj heq
      exact .inl hdefines
    | cons first before =>
      obtain ⟨rfl, rfl⟩ := List.cons.inj heq
      exact .inr ⟨hbefore line List.mem_cons_self, before, l, after, rfl,
        fun l hl => hbefore l (List.mem_cons_of_mem line hl), hdefines⟩
  · rintro (hdefines | ⟨hline, before, l, after, rfl, hbefore, hdefines⟩)
    · exact ⟨[], line, lines, rfl, fun l hl => absurd hl List.not_mem_nil, hdefines⟩
    · exact ⟨line :: before, l, after, rfl, List.forall_mem_cons.2 ⟨hline, hbefore⟩, hdefines⟩

theorem definesUnder_cons : DefinesUnder (line :: lines) path name value ↔
    Marks line path ∧ DefinesFirst lines name value ∨ DefinesUnder lines path name value := by
  constructor
  · rintro ⟨before, marker, after, heq, hmarks, hdefines⟩
    cases before with
    | nil =>
      obtain ⟨rfl, rfl⟩ := List.cons.inj heq
      exact .inl ⟨hmarks, hdefines⟩
    | cons first before =>
      obtain ⟨rfl, rfl⟩ := List.cons.inj heq
      exact .inr ⟨before, marker, after, rfl, hmarks, hdefines⟩
  · rintro (⟨hmarks, hdefines⟩ | ⟨before, marker, after, rfl, hmarks, hdefines⟩)
    · exact ⟨[], line, lines, rfl, hmarks, hdefines⟩
    · exact ⟨line :: before, marker, after, rfl, hmarks, hdefines⟩

/-- **The definitions that lines make.** Each is made by a line of its own, and its unit is that of the file which the
last line marker before this line names, or the one to which the first lines belong if there is no marker before. -/
theorem mem_definitionsFrom : e ∈ definitionsFrom current lines ↔
    (current = some e.unit ∧ DefinesFirst lines e.name e.value) ∨
      ∃ path, unitOfMarker path = some e.unit ∧ DefinesUnder lines path e.name e.value := by
  induction lines generalizing current with
  | nil => simp [definitionsFrom, DefinesFirst, DefinesUnder]
  | cons line lines ih =>
    simp only [definesFirst_cons, definesUnder_cons]
    cases hmarked : markedFile? line with
    | some path =>
      -- the lines behind a line marker have its unit, whatever the unit was before
      have hline := markedFile?_eq_some_iff.1 hmarked
      have hunique : ∀ other, Marks line other ↔ other = path := fun other => by
        rw [← markedFile?_eq_some_iff, hmarked, Option.some.injEq, eq_comm]
      simp only [definitionsFrom, hmarked, ih, hline.definition?, hunique]
      simp [and_or_left, exists_or]
    | none =>
      have hline : ∀ other, ¬Marks line other := fun other hother => by
        rw [markedFile?_eq_some_iff.2 hother] at hmarked
        cases hmarked
      simp only [definitionsFrom, hmarked, List.mem_append, mem_definitionOf?, ih, hline]
      simp [and_or_left, or_assoc]

end Definitions

/-! ## Tables -/

namespace MacroTable

/-- a table has a definition of a name for a unit -/
def Has (t : MacroTable) (unit name : String) : Prop := ∃ own, (unit, own) ∈ t ∧ name ∈ own.map (·.1)

/-- a table in which definitions are recorded one after the other -/
def recordAll (t : MacroTable) (es : List UnitDefinition) : MacroTable :=
  es.foldl (fun t e => t.record e.unit e.name e.value) t

/-- the table that is collected from some texts -/
def ofTexts (texts : List String) : MacroTable := texts.foldl collect []

section Tables

variable {t : MacroTable} {unit name value unit' name' : String}

theorem mem_redefine {own : List (String × String)} :
    name' ∈ (redefine name value own).map (·.1) ↔ name' = name ∨ name' ∈ own.map (·.1) := by
  unfold redefine
  by_cases hname : name' = name
  · simp [hname]
  · simp [hname]

/-- recording a definition adds its name to its unit, and leaves the names of the unit and of others -/
theorem has_record :
    (t.record unit name value).Has unit' name' ↔ (unit' = unit ∧ name' = name) ∨ t.Has unit' name' := by
  induction t with
  | nil => simp [record, Has]
  | cons d rest ih =>
    obtain ⟨u, own⟩ := d
    have hcons : ∀ own' rest', Has ((u, own') :: rest') unit' name' ↔
        (unit' = u ∧ name' ∈ own'.map (·.1)) ∨ MacroTable.Has rest' unit' name' := by
      intro own' rest'
      unfold Has
      simp only [List.mem_cons, Prod.mk.injEq, or_and_right, exists_or, and_assoc, exists_and_left, exists_eq_left]
    unfold record
    by_cases hu : u = unit
    · subst hu
      rw [if_pos rfl, hcons, hcons, mem_redefine]
      tauto
    · rw [if_neg hu, hcons, hcons, ih]
      tauto

theorem has_recordAll {es : List UnitDefinition} :
    (t.recordAll es).Has unit name ↔ t.Has unit name ∨ ∃ e ∈ es, e.unit = unit ∧ e.name = name := by
  unfold recordAll
  induction es generalizing t with
  | nil => simp
  | cons e es ih =>
    rw [List.foldl_cons, ih, has_record]
    simp only [List.exists_mem_cons_iff, eq_comm]
    tauto

/-- a line marker changes the unit of the lines that follow, and any other line records what it defines -/
theorem step_eq (s : Collecting) (line : List Char) : s.step line =
    match markedFile? line with
    | some path => ⟨s.table, unitOfMarker path⟩
    | none => ⟨s.table.recordAll (definitionOf? s.current line).toList, s.current⟩ := by
  obtain ⟨table, current⟩ := s
  unfold Collecting.step definitionOf?
  cases markedFile? line with
  | some path => rfl
  | none =>
    cases current with
    | none => cases definition? line <;> rfl
    | some unit => cases definition? line <;> rfl

theorem table_foldl_step (s : Collecting) (lines : List (List Char)) :
    (lines.foldl Collecting.step s).table = s.table.recordAll (definitionsFrom s.current lines) := by
  induction lines generalizing s with
  | nil => rfl
  | cons line lines ih =>
    rw [List.foldl_cons, ih, step_eq, definitionsFrom]
    cases markedFile? line with
    | some path => rfl
    | none => exact (List.foldl_append ..).symm

/-- what a text defines is recorded -/
theorem collect_eq (t : MacroTable) (text : String) : t.collect text = t.recordAll (definitionsIn text) :=
  table_foldl_step ⟨t, none⟩ (Text.lines text.toList)

/-- **What a table has that was collected from texts:** the names that are defined in one of them under a line marker of
a file, each for the unit of this file. -/
theorem has_ofTexts {texts : List String} : (ofTexts texts).Has unit name ↔
    ∃ text ∈ texts, ∃ path value, unitOfMarker path = some unit ∧
      DefinesUnder (Text.lines text.toList) path name value := by
  have hcollected : ∀ t : MacroTable, (texts.foldl collect t).Has unit name ↔
      t.Has unit name ∨ ∃ text ∈ texts, ∃ e ∈ definitionsIn text, e.unit = unit ∧ e.name = name := by
    induction texts with
    | nil => simp
    | cons text texts ih =>
      intro t
      rw [List.foldl_cons, ih, collect_eq, has_recordAll, List.exists_mem_cons_iff, or_assoc]
  have hdefined : ∀ text, (∃ e ∈ definitionsIn text, e.unit = unit ∧ e.name = name) ↔
      ∃ path value, unitOfMarker path = some unit ∧ DefinesUnder (Text.lines text.toList) path name value := by
    intro text
    constructor
    · rintro ⟨e, he, rfl, rfl⟩
      obtain ⟨hnone, -⟩ | ⟨path, hpath, hdefines⟩ := mem_definitionsFrom.1 he
      · cases hnone
      · exact ⟨path, e.value, hpath, hdefines⟩
    · rintro ⟨path, value, hpath, hdefines⟩
      exact ⟨⟨unit, name, value⟩, mem_definitionsFrom.2 (.inr ⟨path, hpath, hdefines⟩), rfl, rfl⟩
  have hempty : ¬MacroTable.Has [] unit name := by simp [Has]
  unfold ofTexts
  rw [hcollected, or_iff_right hempty]
  exact exists_congr fun text => and_congr_right fun _ => hdefined text

end Tables

end MacroTable

end HeaderModel
