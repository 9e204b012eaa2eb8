/-
The last definitions.

Texts make events: a line that defines a name is one, for the unit of the file that the last line marker before it names.
A table that is collected from texts has the units of their events, in the order of the first events, and for each unit
those of its events that no later one defines anew, in their order.
- `definition?_eq_some_iff`: what a line defines.
- `eventAt?_eq_some_iff`, `definitionsIn_eq`: the events of a text, line by line.
- `MacroTable.recordAll_eq`: a table in which events were recorded, in closed form.
- `last_definitions_kept`: so this is what a table has that was collected from texts.
-/
import HeaderModel.Proofs.MacroTexts
import HeaderModel.Proofs.OverloadScan

namespace HeaderModel

/-! ## Lines that define a name -/

/-- a name that may be defined: a letter or `_`, and then word characters -/
def IsMacroName (name : List Char) : Prop :=
  ∃ c cs, name = c :: cs ∧ isNameStart c = true ∧ ∀ d ∈ cs, Text.isWordChar d = true

/-- a text that neither begins nor ends with white space, and is not empty -/
structure IsTrimmed (cs : List Char) : Prop where
  nonempty : cs ≠ []
  head : ∀ c ∈ cs.head?, Text.isSpace c = false
  last : ∀ c ∈ cs.getLast?, Text.isSpace c = false

/-- A line defines a name and gives it a value: `#define`, the name and the value. White space separates them, and may
stand before and behind them. -/
structure Defines (line name value : List Char) : Prop where
  isName : IsMacroName name
  isTrimmed : IsTrimmed value
  shape : ∃ before gap gap' after,
    (∀ c ∈ before, Text.isSpace c = true) ∧
    (∀ c ∈ gap, Text.isSpace c = true) ∧ gap ≠ [] ∧
    (∀ c ∈ gap', Text.isSpace c = true) ∧ gap' ≠ [] ∧
    (∀ c ∈ after, Text.isSpace c = true) ∧
    line = before ++ ("#define".toList ++ (gap ++ (name ++ (gap' ++ (value ++ after)))))

section Lines

variable {cs line name value : List Char} {c : Char}

theorem isWordChar_of_isNameStart (hc : isNameStart c = true) : Text.isWordChar c = true := by
  have hrange : ∀ r ∈ Text.wordCharacters, r.1 ≤ c.toNat → c.toNat ≤ r.2 → Text.isWordChar c = true :=
    fun r hr hfirst hlast => List.any_eq_true.2 ⟨r, hr, by simp [hfirst, hlast]⟩
  have hupper : (0x41, 0x5A) ∈ Text.wordCharacters := by decide +kernel
  have hlower : (0x61, 0x7A) ∈ Text.wordCharacters := by decide +kernel
  have hunderscore : (0x5F, 0x5F) ∈ Text.wordCharacters := by decide +kernel
  simp only [isNameStart, Char.isAlpha, Char.isUpper, Char.isLower, Bool.or_eq_true, Bool.and_eq_true,
    decide_eq_true_eq] at hc
  rcases hc with (hc | hc) | rfl
  · exact hrange _ hupper hc.1 hc.2
  · exact hrange _ hlower hc.1 hc.2
  · exact hrange _ hunderscore le_rfl le_rfl

theorem isWordChar_of_space (hc : Text.isSpace c = true) : Text.isWordChar c = false :=
  Text.CharSet.has_eq_false (s := Text.whiteSpace) (by decide +kernel) hc

theorem isSpace_of_isNameStart (hc : isNameStart c = true) : Text.isSpace c = false := by
  rw [Bool.eq_false_iff]
  intro hspace
  have hword := isWordChar_of_space hspace
  rw [isWordChar_of_isNameStart hc] at hword
  cases hword

/-- what is left of a text when it is trimmed stands in it between white space, and has none at its ends -/
theorem trim_eq_iff (hvalue : value ≠ []) : Text.trim cs = value ↔
    IsTrimmed value ∧ ∃ before after, (∀ c ∈ before, Text.isSpace c = true) ∧
      (∀ c ∈ after, Text.isSpace c = true) ∧ cs = before ++ (value ++ after) := by
  constructor
  · intro hcs
    subst hcs
    exact ⟨⟨hvalue, Text.head_trimBoth _ cs, Text.getLast_trimBoth _ cs⟩, Text.exists_trimBoth _ cs⟩
  · rintro ⟨htrimmed, before, after, hbefore, hafter, rfl⟩
    exact Text.trimBoth_of_ends hbefore hafter hvalue htrimmed.head htrimmed.last

theorem after?_eq_some_iff {opening : String} {rest : List Char} :
    Text.after? opening cs = some rest ↔ cs = opening.toList ++ rest := by
  unfold Text.after?
  constructor
  · intro h
    split_ifs at h with hprefix
    obtain ⟨rest', rfl⟩ := List.isPrefixOf_iff_prefix.1 hprefix
    rw [← String.length_toList, List.drop_left] at h
    rw [Option.some.inj h]
  · rintro rfl
    rw [if_pos (List.isPrefixOf_iff_prefix.2 (List.prefix_append ..)), ← String.length_toList, List.drop_left]

/-- what is read as a definition is one -/
theorem defines_of_definition? {name value : String} (hline : definition? line = some (name, value)) :
    Defines line name.toList value.toList := by
  unfold definition? at hline
  obtain ⟨rest, hrest, hline⟩ := Option.bind_eq_some_iff.1 hline
  dsimp only at hline
  split_ifs at hline with hdefines
  obtain ⟨rfl, rfl⟩ := Prod.mk.inj (Option.some.inj hline)
  simp only [Bool.and_eq_true, decide_eq_true_eq, Bool.not_eq_true', List.isEmpty_eq_false_iff] at hdefines
  obtain ⟨⟨⟨hgap, hname⟩, hgap'⟩, hvalue⟩ := hdefines
  rw [String.toList_ofList, String.toList_ofList]
  obtain ⟨gap, hgap, hgapne, hsplit⟩ := exists_run hgap
  obtain ⟨htrimmed, gap', after, hspace, hafter, hbehind⟩ := (trim_eq_iff hvalue).1 rfl
  have htext := List.prefix_iff_eq_append.1 (List.takeWhile_prefix (l := rest.dropWhile Text.isSpace) Text.isWordChar)
  -- what follows the name begins with white space, and the value does not
  have hgapne' : gap' ≠ [] := by
    rintro rfl
    obtain ⟨c, hc, hcspace⟩ := (Option.any_eq_true _ _).1 hgap'
    rw [hbehind, List.nil_append, List.head?_append_of_ne_nil _ hvalue] at hc
    rw [htrimmed.head c hc] at hcspace
    cases hcspace
  refine ⟨?_, htrimmed, line.takeWhile Text.isSpace, gap, gap', after, fun c hc => List.mem_takeWhile_imp hc, hgap,
    hgapne, hspace, hgapne', hafter, ?_⟩
  · obtain ⟨c, hc, hstart⟩ := (Option.any_eq_true _ _).1 hname
    obtain ⟨cs, hcs⟩ := List.head?_eq_some_iff.1 hc
    exact ⟨c, cs, hcs, hstart, fun d hd => List.mem_takeWhile_imp (hcs ▸ List.mem_cons_of_mem c hd)⟩
  · rw [← hbehind, htext, ← hsplit, ← after?_eq_some_iff.1 hrest, List.takeWhile_append_dropWhile]

/-- a definition is read as one -/
theorem Defines.read {name value : String} (hline : Defines line name.toList value.toList) :
    definition? line = some (name, value) := by
  obtain ⟨⟨c, cs, hname, hc, hcs⟩, htrimmed, before, gap, gap', after, hbefore, hgap, hgapne, hgap', hgapne', hafter,
    rfl⟩ := hline
  obtain ⟨g, gs, rfl⟩ := List.exists_cons_of_ne_nil hgapne'
  have hspace := hgap' g List.mem_cons_self
  have hhash : (before ++ ("#define".toList ++ (gap ++ (name.toList ++ (g :: gs ++ (value.toList ++ after)))))).dropWhile
      Text.isSpace = "#define".toList ++ (gap ++ (name.toList ++ (g :: gs ++ (value.toList ++ after)))) := by
    refine Text.dropWhile_append_of_head hbefore ?_
    rintro _ ⟨⟩
    decide
  have htext : (gap ++ (name.toList ++ (g :: gs ++ (value.toList ++ after)))).dropWhile Text.isSpace =
      name.toList ++ (g :: gs ++ (value.toList ++ after)) := by
    refine Text.dropWhile_append_of_head hgap ?_
    rw [hname]
    rintro _ ⟨⟩
    exact isSpace_of_isNameStart hc
  have hword : (name.toList ++ (g :: gs ++ (value.toList ++ after))).takeWhile Text.isWordChar = name.toList := by
    refine Markup.takeWhile_run (fun d hd => ?_) (isWordChar_of_space hspace) _
    rw [hname] at hd
    exact (List.mem_cons.1 hd).elim (fun h => h ▸ isWordChar_of_isNameStart hc) (hcs d)
  have htrim := (trim_eq_iff htrimmed.nonempty).2 ⟨htrimmed, g :: gs, after, hgap', hafter, rfl⟩
  have hgaplen := List.length_pos_iff.2 hgapne
  unfold definition?
  rw [hhash, after?_eq_some_iff.2 rfl]
  simp only [Option.bind_eq_bind, Option.bind_some, htext, hword, List.drop_left, htrim, String.ofList_toList]
  rw [if_pos]
  rw [Bool.and_eq_true, Bool.and_eq_true, Bool.and_eq_true]
  refine ⟨⟨⟨?_, ?_⟩, ?_⟩, ?_⟩
  · rw [decide_eq_true_eq, List.length_append]
    omega
  · rw [hname]
    exact hc
  · exact hspace
  · simp [htrimmed.nonempty]

/-- **What a line defines.** -/
theorem definition?_eq_some_iff {name value : String} :
    definition? line = some (name, value) ↔ Defines line name.toList value.toList :=
  ⟨defines_of_definition?, Defines.read⟩

end Lines

/-! ## Events of a text -/

/-- The line at a place makes an event: it defines a name, and the last line marker before it is that of a path which names
the unit of the event. -/
def MakesEvent (lines : List (List Char)) (k : Nat) (e : UnitDefinition) : Prop :=
  ∃ before marker between path line, lines.take k = before ++ marker :: between ∧ Marks marker path ∧
    (∀ l ∈ between, ∀ other, ¬Marks l other) ∧ NamesUnit path e.unit ∧
    lines[k]? = some line ∧ Defines line e.name.toList e.value.toList

/-- the unit to which lines belong that follow some others: that of the last line marker there, or the one before -/
def unitAfter (current : Option String) (before : List (List Char)) : Option String :=
  match before.reverse.findSome? markedFile? with
  | some path => unitOfMarker path
  | none => current

/-- the event that the line at a place makes, if the first lines belong to some unit or to none -/
def eventAt? (current : Option String) (lines : List (List Char)) (k : Nat) : Option UnitDefinition :=
  lines[k]?.bind (definitionOf? (unitAfter current (lines.take k)))

/-- the events of a text, one line after the other -/
def eventsOfText (text : String) : List UnitDefinition :=
  let lines := Text.lines text.toList
  (List.range lines.length).filterMap (eventAt? none lines)

/-- the events of some texts, one text after the other -/
def eventsOf (texts : List String) : List UnitDefinition := texts.flatMap eventsOfText

section Events

variable {current : Option String} {line : List Char} {lines : List (List Char)} {k : Nat} {e : UnitDefinition}

theorem unitAfter_eq_some_iff {unit : String} : unitAfter none lines = some unit ↔
    ∃ before marker between path, lines = before ++ marker :: between ∧ Marks marker path ∧
      (∀ l ∈ between, ∀ other, ¬Marks l other) ∧ NamesUnit path unit := by
  have hunmarked : ∀ l, markedFile? l = none ↔ ∀ other, ¬Marks l other := fun l => by
    simp only [← markedFile?_eq_some_iff, Option.eq_none_iff_forall_ne_some]
  have hfound : ∀ path, lines.reverse.findSome? markedFile? = some path ↔
      ∃ before marker between, lines = before ++ marker :: between ∧ Marks marker path ∧
        ∀ l ∈ between, ∀ other, ¬Marks l other := by
    intro path
    rw [List.findSome?_eq_some_iff]
    constructor
    · rintro ⟨between, marker, before, hsplit, hmarker, hbetween⟩
      refine ⟨before.reverse, marker, between.reverse, ?_, markedFile?_eq_some_iff.1 hmarker, fun l hl => ?_⟩
      · rw [← lines.reverse_reverse, hsplit]
        simp
      · exact (hunmarked l).1 (hbetween l (List.mem_reverse.1 hl))
    · rintro ⟨before, marker, between, rfl, hmarker, hbetween⟩
      exact ⟨between.reverse, marker, before.reverse, by simp, markedFile?_eq_some_iff.2 hmarker,
        fun l hl => (hunmarked l).2 (hbetween l (List.mem_reverse.1 hl))⟩
  unfold unitAfter
  simp only [← unitOfMarker_eq_some_iff]
  constructor
  · intro hunit
    split at hunit
    · next path hpath =>
      obtain ⟨before, marker, between, hsplit, hmarker, hbetween⟩ := (hfound path).1 hpath
      exact ⟨before, marker, between, path, hsplit, hmarker, hbetween, hunit⟩
    · cases hunit
  · rintro ⟨before, marker, between, path, hsplit, hmarker, hbetween, hunit⟩
    rw [(hfound path).2 ⟨before, marker, between, hsplit, hmarker, hbetween⟩]
    exact hunit

/-- **Which event a line makes.** -/
theorem eventAt?_eq_some_iff : eventAt? none lines k = some e ↔ MakesEvent lines k e := by
  have hdefinition : ∀ unit line, definitionOf? unit line = some e ↔
      unit = some e.unit ∧ Defines line e.name.toList e.value.toList := fun unit line => by
    rw [← Option.mem_toList, mem_definitionOf?, definition?_eq_some_iff]
  unfold eventAt? MakesEvent
  rw [Option.bind_eq_some_iff]
  simp only [hdefinition, unitAfter_eq_some_iff]
  constructor
  · rintro ⟨line, hline, ⟨before, marker, between, path, hsplit, hmarker, hbetween, hunit⟩, hdefines⟩
    exact ⟨before, marker, between, path, line, hsplit, hmarker, hbetween, hunit, hline, hdefines⟩
  · rintro ⟨before, marker, between, path, line, hsplit, hmarker, hbetween, hunit, hline, hdefines⟩
    exact ⟨line, hline, ⟨before, marker, between, path, hsplit, hmarker, hbetween, hunit⟩, hdefines⟩

theorem unitAfter_cons : unitAfter current (line :: lines) = unitAfter (unitAfter current [line]) lines := by
  unfold unitAfter
  rw [List.reverse_cons, List.findSome?_append]
  cases lines.reverse.findSome? markedFile? with
  | some path => rfl
  | none => rfl

theorem eventAt?_succ : eventAt? current (line :: lines) (k + 1) = eventAt? (unitAfter current [line]) lines k := by
  rw [eventAt?, eventAt?, List.take_succ_cons, unitAfter_cons, List.getElem?_cons_succ]

theorem definitionsFrom_eq : definitionsFrom current lines =
    (List.range lines.length).filterMap (eventAt? current lines) := by
  induction lines generalizing current with
  | nil => rfl
  | cons line lines ih =>
    have hrest : (List.range lines.length).filterMap (eventAt? current (line :: lines) ∘ Nat.succ) =
        definitionsFrom (unitAfter current [line]) lines :=
      (List.filterMap_congr fun k _ => eventAt?_succ).trans ih.symm
    have hfirst : eventAt? current (line :: lines) 0 = definitionOf? current line := rfl
    rw [List.length_cons, List.range_succ_eq_map, List.filterMap_cons, List.filterMap_map, hrest, hfirst,
      definitionsFrom, unitAfter, List.reverse_singleton, List.findSome?_singleton]
    cases hmarked : markedFile? line with
    | some path =>
      -- a line marker defines nothing
      have hnone : definitionOf? current line = none := by
        unfold definitionOf?
        rw [(markedFile?_eq_some_iff.1 hmarked).definition?]
        cases current <;> rfl
      rw [hnone]
    | none => cases definitionOf? current line <;> rfl

/-- the events of a text are the definitions that it makes -/
theorem definitionsIn_eq (text : String) : definitionsIn text = eventsOfText text := definitionsFrom_eq

end Events

/-! ## Last events -/

/-- the events that no later one defines anew -/
def lastEvents : List UnitDefinition → List UnitDefinition
  | [] => []
  | e :: es => if es.any fun f => f.unit = e.unit && f.name = e.name then lastEvents es else e :: lastEvents es

/-- the names and values that the last events give to a unit -/
def lastDefinitions (es : List UnitDefinition) (unit : String) : List (String × String) :=
  ((lastEvents es).filter (·.unit = unit)).map fun e => (e.name, e.value)

/-- the units of events, in the order of their first events -/
def unitsOf (es : List UnitDefinition) : List String := (es.map (·.unit)).eraseDups

/-- an event is the last one that gives a value to a name of a unit -/
def IsLast (es : List UnitDefinition) (e : UnitDefinition) : Prop :=
  ∃ before after, es = before ++ e :: after ∧ ∀ f ∈ after, ¬(f.unit = e.unit ∧ f.name = e.name)

section Last

variable {es : List UnitDefinition} {e f : UnitDefinition} {unit name value : String}

theorem mem_lastEvents : e ∈ lastEvents es ↔ IsLast es e := by
  induction es with
  | nil => simp [lastEvents, IsLast]
  | cons f es ih =>
    have hcons : IsLast (f :: es) e ↔ (e = f ∧ ∀ f ∈ es, ¬(f.unit = e.unit ∧ f.name = e.name)) ∨ IsLast es e := by
      constructor
      · rintro ⟨before, after, hsplit, hafter⟩
        cases before with
        | nil =>
          obtain ⟨rfl, rfl⟩ := List.cons.inj hsplit
          exact .inl ⟨rfl, hafter⟩
        | cons _ before =>
          obtain ⟨-, rfl⟩ := List.cons.inj hsplit
          exact .inr ⟨before, after, rfl, hafter⟩
      · rintro (⟨rfl, hlater⟩ | ⟨before, after, rfl, hafter⟩)
        · exact ⟨[], es, rfl, hlater⟩
        · exact ⟨f :: before, after, rfl, hafter⟩
    rw [hcons, ← ih, lastEvents]
    split_ifs with hlater
    · refine ⟨.inr, fun hcase => hcase.resolve_left ?_⟩
      rintro ⟨rfl, hnone⟩
      obtain ⟨g, hg, hsame⟩ := List.any_eq_true.1 hlater
      exact hnone g hg (by simpa using hsame)
    · rw [List.mem_cons]
      refine or_congr_left ⟨fun heq => ⟨heq, ?_⟩, And.left⟩
      subst heq
      intro g hg hsame
      exact hlater (List.any_eq_true.2 ⟨g, hg, by simpa using hsame⟩)

theorem lastEvents_sublist (es : List UnitDefinition) : (lastEvents es).Sublist es := by
  induction es with
  | nil => exact .slnil
  | cons e es ih =>
    rw [lastEvents]
    split_ifs
    · exact ih.cons e
    · exact ih.cons_cons e

/-- one more event takes away those that it defines anew -/
theorem lastEvents_append : lastEvents (es ++ [e]) =
    (lastEvents es).filter (fun f => !(f.unit = e.unit && f.name = e.name)) ++ [e] := by
  induction es with
  | nil => rfl
  | cons f es ih =>
    have hany : (es ++ [e]).any (fun g => g.unit = f.unit && g.name = f.name) =
        (es.any (fun g => g.unit = f.unit && g.name = f.name) || (f.unit = e.unit && f.name = e.name)) := by
      simp [eq_comm]
    rw [List.cons_append, lastEvents, lastEvents, hany, ih]
    cases es.any fun g => g.unit = f.unit && g.name = f.name with
    | true => rfl
    | false =>
      by_cases hsame : f.unit = e.unit ∧ f.name = e.name
      · simp [hsame]
      · have hkept : (decide (f.unit = e.unit) && decide (f.name = e.name)) = false := by simpa using hsame
        rw [Bool.false_or, hkept, if_neg Bool.false_ne_true, if_neg Bool.false_ne_true,
          List.filter_cons_of_pos (by simp [hkept]), List.cons_append]

/-- one more event defines a name of its unit anew, and leaves the other units as they are -/
theorem lastDefinitions_append : lastDefinitions (es ++ [e]) unit =
    if unit = e.unit then redefine e.name e.value (lastDefinitions es unit) else lastDefinitions es unit := by
  unfold lastDefinitions redefine
  rw [lastEvents_append, List.filter_append, List.map_append, List.filter_filter, List.filter_map, List.filter_filter]
  by_cases hunit : unit = e.unit
  · subst hunit
    have hone : [e].filter (·.unit = e.unit) = [e] := List.filter_cons_of_pos (decide_eq_true rfl)
    rw [if_pos rfl, hone, List.map_singleton]
    congr 2
    refine List.filter_congr fun f _ => ?_
    by_cases hf : f.unit = e.unit <;> simp [hf]
  · have hnone : [e].filter (·.unit = unit) = [] := List.filter_cons_of_neg (by simpa using Ne.symm hunit)
    rw [if_neg hunit, hnone, List.map_nil, List.append_nil]
    congr 1
    refine List.filter_congr fun f _ => ?_
    by_cases hf : f.unit = unit
    · simp [hf, hunit]
    · simp [hf]

theorem unitsOf_append : unitsOf (es ++ [e]) = if e.unit ∈ unitsOf es then unitsOf es else unitsOf es ++ [e.unit] := by
  unfold unitsOf
  rw [List.map_append, List.map_singleton, eraseDups_append_singleton]
  simp only [List.mem_eraseDups]
  split_ifs
  · exact List.append_nil _
  · rfl

theorem nodup_unitsOf : (unitsOf es).Nodup := nodup_eraseDups _

theorem mem_unitsOf : unit ∈ unitsOf es ↔ ∃ e ∈ es, e.unit = unit := by
  rw [unitsOf, List.mem_eraseDups, List.mem_map]

theorem mem_lastDefinitions : (name, value) ∈ lastDefinitions es unit ↔ IsLast es ⟨unit, name, value⟩ := by
  rw [← mem_lastEvents, lastDefinitions, List.mem_map]
  constructor
  · rintro ⟨⟨u, n, v⟩, hmem, heq⟩
    obtain ⟨he, hunit⟩ := List.mem_filter.1 hmem
    obtain rfl : u = unit := of_decide_eq_true hunit
    obtain ⟨rfl, rfl⟩ := Prod.mk.inj heq
    exact he
  · intro he
    exact ⟨_, List.mem_filter.2 ⟨he, decide_eq_true rfl⟩, rfl⟩

/-- a unit has each name once -/
theorem nodup_lastDefinitions : ((lastDefinitions es unit).map (·.1)).Nodup := by
  induction es using List.reverseRecOn with
  | nil => exact .nil
  | append_singleton es e ih =>
    rw [lastDefinitions_append]
    split_ifs
    · unfold redefine
      rw [List.map_append]
      refine List.nodup_append'.2 ⟨(ih.sublist (List.filter_sublist.map _)), List.nodup_singleton _, ?_⟩
      intro name hname hname'
      obtain ⟨d, hd, rfl⟩ := List.mem_map.1 hname
      have hnot := (List.mem_filter.1 hd).2
      rw [List.mem_singleton.1 hname'] at hnot
      simp at hnot
    · exact ih

end Last

/-! ## Tables of last definitions -/

namespace MacroTable

/-- the table of the last definitions of events -/
def ofEvents (es : List UnitDefinition) : MacroTable := (unitsOf es).map fun unit => (unit, lastDefinitions es unit)

section Tables

variable {es : List UnitDefinition} {unit name value : String} {texts : List String}

/-- recording a definition changes the table of its unit, which is added at the end if it is new -/
theorem record_map {units : List String} (hunits : units.Nodup) (f : String → List (String × String)) :
    record (units.map fun u => (u, f u)) unit name value =
      if unit ∈ units then units.map fun u => (u, if u = unit then redefine name value (f u) else f u)
      else (units.map fun u => (u, f u)) ++ [(unit, [(name, value)])] := by
  induction units with
  | nil => rfl
  | cons u units ih =>
    obtain ⟨hnew, hunits⟩ := List.nodup_cons.1 hunits
    rw [List.map_cons, record]
    by_cases hu : u = unit
    · subst hu
      rw [if_pos rfl, if_pos List.mem_cons_self, List.map_cons, if_pos rfl]
      congr 1
      refine List.map_congr_left fun v hv => ?_
      rw [if_neg (ne_of_mem_of_not_mem hv hnew)]
    · rw [if_neg hu, ih hunits, List.map_cons, if_neg hu]
      by_cases hmem : unit ∈ units
      · rw [if_pos hmem, if_pos (List.mem_cons_of_mem u hmem)]
      · rw [if_neg hmem, if_neg (fun h => (List.mem_cons.1 h).elim (Ne.symm hu) hmem), List.cons_append]

/-- **A table in which events were recorded,** in closed form. -/
theorem recordAll_eq (es : List UnitDefinition) : recordAll [] es = ofEvents es := by
  induction es using List.reverseRecOn with
  | nil => rfl
  | append_singleton es e ih =>
    have hstep : recordAll [] (es ++ [e]) = (recordAll [] es).record e.unit e.name e.value := List.foldl_append ..
    rw [hstep, ih, ofEvents, ofEvents, record_map nodup_unitsOf, unitsOf_append]
    simp only [lastDefinitions_append]
    split_ifs with hmem
    · refine List.map_congr_left fun unit _ => ?_
      split_ifs <;> rfl
    · -- nothing was defined in a new unit before
      have hnew : lastDefinitions es e.unit = [] := by
        refine List.eq_nil_iff_forall_not_mem.2 fun ⟨name, value⟩ hd => hmem (mem_unitsOf.2 ?_)
        obtain ⟨before, after, rfl, -⟩ := mem_lastDefinitions.1 hd
        exact ⟨_, List.mem_append_right _ List.mem_cons_self, rfl⟩
      rw [List.map_append, List.map_singleton, if_pos rfl, hnew]
      congr 1
      refine List.map_congr_left fun unit hunit => ?_
      rw [if_neg (ne_of_mem_of_not_mem hunit hmem)]

/-- a table that is collected from texts is that of their events -/
theorem ofTexts_eq (texts : List String) : ofTexts texts = ofEvents (eventsOf texts) := by
  have hcollected : ∀ t : MacroTable, texts.foldl collect t = t.recordAll (eventsOf texts) := by
    induction texts with
    | nil => exact fun _ => rfl
    | cons text texts ih =>
      intro t
      rw [List.foldl_cons, ih, collect_eq, definitionsIn_eq, eventsOf, eventsOf, List.flatMap_cons]
      exact (List.foldl_append ..).symm
  exact (hcollected []).trans (recordAll_eq _)

theorem ofUnit?_ofEvents : (ofEvents es).ofUnit? unit =
    if Text.asciiLower unit ∈ unitsOf es then some (lastDefinitions es (Text.asciiLower unit)) else none := by
  unfold ofUnit? ofEvents
  induction unitsOf es with
  | nil => rfl
  | cons u units ih =>
    rw [List.map_cons, List.lookup_cons, ih]
    by_cases hu : Text.asciiLower unit = u
    · simp [hu]
    · simp [hu, beq_false_of_ne hu]

end Tables

end MacroTable

/-- **A table has the last definitions of its texts.** The lines of the texts make events, each for the unit of the file
that the last line marker before it in its text names. The table that is collected from the texts has the units of the
events, in the order of the first events, and for each unit the last events, in their order: those that no later event
of the same unit and name follows. So a unit has every name once, with its last value; and it is found in any case. -/
theorem last_definitions_kept (texts : List String) :
    (∀ lines k e, eventAt? none lines k = some e ↔ MakesEvent lines k e) ∧
    MacroTable.ofTexts texts =
      (unitsOf (eventsOf texts)).map (fun unit => (unit, lastDefinitions (eventsOf texts) unit)) ∧
    (unitsOf (eventsOf texts)).Nodup ∧
    (lastEvents (eventsOf texts)).Sublist (eventsOf texts) ∧
    (∀ unit, ((lastDefinitions (eventsOf texts) unit).map (·.1)).Nodup ∧
      ∀ name value, (name, value) ∈ lastDefinitions (eventsOf texts) unit ↔
        IsLast (eventsOf texts) ⟨unit, name, value⟩) ∧
    ∀ unit, (MacroTable.ofTexts texts).ofUnit? unit =
      if Text.asciiLower unit ∈ unitsOf (eventsOf texts) then
        some (lastDefinitions (eventsOf texts) (Text.asciiLower unit))
      else none := by
  refine ⟨fun _ _ _ => eventAt?_eq_some_iff, MacroTable.ofTexts_eq texts, nodup_unitsOf, lastEvents_sublist _,
    fun unit => ⟨nodup_lastDefinitions, fun _ _ => mem_lastDefinitions⟩, fun unit => ?_⟩
  rw [MacroTable.ofTexts_eq, MacroTable.ofUnit?_ofEvents]

/-- a unit is left and read again: the name that is defined anew stands behind the one that is not -/
example : MacroTable.ofTexts ["# 1 \"a/Sample.h\"\n#define VERSION 3\n#define EMPTY\n#define FLAG (1 << 2)\n" ++
    "# 1 \"<built-in>\"\n#define __STDC__ 1\n# 12 \"a\\other.h\"\n#define MAX 0xFF \n",
    "#define LOST 1\n# 20 \"SAMPLE.h\" 2\n#define VERSION 4"] =
      [("sample", [("FLAG", "(1 << 2)"), ("VERSION", "4")]), ("other", [("MAX", "0xFF")])] := by
  decide +kernel

end HeaderModel
