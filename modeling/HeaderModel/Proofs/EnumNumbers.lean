/-
The numbers of enumerations.

An enumeration without a usable name is numbered. There is one counter for every header unit, whatever the files of the
unit and the case in which they write it, and nothing else moves it. So the numbers of a unit run from zero on, in the
order in which its enumerations are taken.
- `Text.toUpperText_congr`: the names of a unit that differ in case only have one upper case.
- `declaration_numbered`: what an enumeration without a name is called, and what becomes of the counters.
- `declaration_counts`, `declaration_names`: so one element moves its own counter at most, and no other one gets a number.
- `Builder.Numbered`: between two builders every unit went on numbering where it had stopped.
- `enumerations_numbered`: so a built module has the numbers of every unit, without gaps and in order.
-/
import Mathlib
import HeaderModel.Proofs.Extraction
import HeaderModel.Proofs.HeaderUnits

namespace HeaderModel

/-! ## Upper case -/

section UpperCase

variable {s t : String}

theorem Text.upperOf_toLower (c : Char) : Text.upperOf c.toLower = Text.upperOf c := by
  by_cases hc : c.isUpper = true
  · have hletters : ∀ k : Fin 26, upperOf (Char.ofNat (65 + k)).toLower = upperOf (Char.ofNat (65 + k)) := by
      decide +kernel
    obtain ⟨hfirst, hlast⟩ : 65 ≤ c.toNat ∧ c.toNat ≤ 90 := by
      simpa [Char.isUpper, UInt32.le_iff_toNat_le] using hc
    have hletter := hletters ⟨c.toNat - 65, by omega⟩
    have hplace : 65 + (c.toNat - 65) = c.toNat := by omega
    rwa [hplace, Char.ofNat_toNat] at hletter
  · rw [Char.toLower_eq_of_not_isUpper hc]

theorem Text.toUpperText_asciiLower (s : String) : Text.toUpperText (Text.asciiLower s) = Text.toUpperText s := by
  unfold toUpperText asciiLower
  rw [String.toList_ofList, List.flatMap_map]
  simp only [upperOf_toLower]

/-- the names of a unit that differ in case only have one upper case -/
theorem Text.toUpperText_congr (hst : Text.asciiLower s = Text.asciiLower t) : Text.toUpperText s = Text.toUpperText t := by
  rw [← toUpperText_asciiLower s, hst, toUpperText_asciiLower]

end UpperCase

/-! ## Elements and entries that are numbered -/

/-- the name of the enumeration of a unit with a number -/
def numberedText (unit : String) (n : Nat) : String := Text.toUpperText unit ++ "_ENUM_" ++ toString n

theorem numberedText_congr {unit unit' : String} (hunit : Text.asciiLower unit = Text.asciiLower unit') (n : Nat) :
    numberedText unit n = numberedText unit' n := by
  rw [numberedText, numberedText, Text.toUpperText_congr hunit]

theorem numberedText_injective (unit : String) {n n' : Nat} (hsame : numberedText unit n = numberedText unit n') :
    n = n' :=
  Nat.repr_injective ((String.append_right_inj _).1 hsame)

/-- an element is an enumeration that has to be numbered -/
def Node.isNumbered (n : Node) : Bool := n.kind = .enumeration && Build.isNameless n.name

/-- the enumerations of a unit among visited elements that have to be numbered, in order -/
def Document.numberedIn (d : Document) (unit : String) (visits : List (String × NodeId)) : List NodeId :=
  (visits.filter fun v => Text.asciiLower v.1 = Text.asciiLower unit && (d.node v.2).isNumbered).map (·.2)

/-- an entry is an enumeration that was numbered, because its element has no name of its own -/
def Entry.isNumbered (d : Document) (e : Entry) : Bool :=
  match e.decl with
  | .enumeration _ => e.origin.any fun i => Build.isNameless (d.node i).name
  | _ => false

/-- what numbered entries are made from, and what they are called -/
def numberedNames (d : Document) (es : List Entry) : List (Option NodeId × String) :=
  (es.filter (Entry.isNumbered d)).map fun e => (e.origin, e.decl.name)

/-- elements with the names of a unit, numbered from a number on -/
def numberedFrom (unit : String) (start : Nat) (elements : List NodeId) : List (Option NodeId × String) :=
  (elements.zipIdx start).map fun p => (some p.1, numberedText unit p.2)

/-- how many enumerations of a unit were numbered -/
def Builder.enumCount (b : Builder) (unit : String) : Nat := (b.enumCounts.lookup (Text.asciiLower unit)).getD 0

section Numbered

variable {d : Document} {unit unit' : String} {vs ws : List (String × NodeId)} {es es' : List Entry} {i : NodeId}

theorem Document.numberedIn_append : d.numberedIn unit (vs ++ ws) = d.numberedIn unit vs ++ d.numberedIn unit ws := by
  rw [numberedIn, List.filter_append, List.map_append]
  rfl

theorem Document.numberedIn_singleton : d.numberedIn unit [(unit', i)] =
    if Text.asciiLower unit' = Text.asciiLower unit ∧ (d.node i).isNumbered = true then [i] else [] := by
  unfold numberedIn
  split_ifs with hnumbered
  · rw [List.filter_cons_of_pos (by simpa using hnumbered)]
    rfl
  · rw [List.filter_cons_of_neg (by simpa using hnumbered)]
    rfl

theorem numberedNames_append : numberedNames d (es ++ es') = numberedNames d es ++ numberedNames d es' := by
  rw [numberedNames, List.filter_append, List.map_append]
  rfl

theorem numberedNames_eq_nil (hes : ∀ e ∈ es, e.isNumbered d = false) : numberedNames d es = [] := by
  rw [numberedNames, List.filter_eq_nil_iff.2 fun e he => by simp [hes e he], List.map_nil]

theorem numberedFrom_append {start : Nat} {js ks : List NodeId} :
    numberedFrom unit start (js ++ ks) = numberedFrom unit start js ++ numberedFrom unit (start + js.length) ks := by
  rw [numberedFrom, List.zipIdx_append, List.map_append]
  rfl

/-- no number is used twice -/
theorem nodup_numberedFrom (unit : String) (start : Nat) (js : List NodeId) :
    ((numberedFrom unit start js).map (·.2)).Nodup := by
  have hnumbers : (numberedFrom unit start js).map (·.2) = (List.range' start js.length).map (numberedText unit) := by
    rw [← List.zipIdx_map_snd, numberedFrom, List.map_map, List.map_map]
    rfl
  rw [hnumbers]
  exact List.Nodup.map (fun _ _ => numberedText_injective unit) List.nodup_range'

end Numbered

/-! ## Counters -/

section Counters

variable {h : Headers} {c : Builder} {i : NodeId} {n : Node} {file unit unit' : String}

theorem Builder.enumCount_congr {b : Builder} (hcounts : c.enumCounts = b.enumCounts) (unit : String) :
    c.enumCount unit = b.enumCount unit := by
  rw [enumCount, hcounts]
  rfl

/-- a builder that has numbered one more enumeration of a unit -/
def Builder.counting (c : Builder) (unit : String) : Builder :=
  { c with enumCounts := (Text.asciiLower unit, c.enumCount unit + 1) :: c.enumCounts }

theorem Builder.enumCount_counting : (c.counting unit).enumCount unit' =
    c.enumCount unit' + if Text.asciiLower unit = Text.asciiLower unit' then 1 else 0 := by
  unfold counting enumCount
  rw [List.lookup_cons]
  by_cases hunit : Text.asciiLower unit' = Text.asciiLower unit
  · simp [hunit]
  · simp [Ne.symm hunit, beq_false_of_ne hunit]

/-- **An enumeration without a name of its own** gets the next number of its unit. -/
theorem run_enumeration_numbered (hname : Build.isNameless n.name = true) (hfile : n.attr? "file" = some file)
    (hunit : h.document.unitOfFile file = .ok unit) (c : Builder) :
    ∃ e, c.run (Build.enumeration h n) = (.ok e, c.counting unit) ∧ e.name = numberedText unit (c.enumCount unit) := by
  have hneed : n.need "file" = .ok file := by rw [Node.need, hfile]
  unfold Build.enumeration Build.numberedName
  simp only [hname, if_true, Builder.run_bind, Builder.run_of, hneed, hunit]
  exact ⟨_, rfl, rfl⟩

theorem Builder.enumCount_of_lower (hunit : Text.asciiLower unit = Text.asciiLower unit') :
    c.enumCount unit = c.enumCount unit' := by
  rw [enumCount, enumCount, hunit]

/-- a visited enumeration without a name gets the next number of the unit from which it is taken -/
theorem declaration_numbered (hd : h.document.Indexed) (hi : (unit, i) ∈ h.visits)
    (hnumbered : (h.document.node i).isNumbered = true) (c : Builder) :
    ∃ e, c.run (Build.declaration h i) = (.ok (some (.enumeration e)), c.counting unit) ∧
      e.name = numberedText unit (c.enumCount unit) := by
  obtain ⟨hkind, hnameless⟩ : (h.document.node i).kind = .enumeration ∧
      Build.isNameless (h.document.node i).name = true := by
    simpa [Node.isNumbered] using hnumbered
  obtain ⟨file, own, hfile, hown, hsame⟩ := inUnit_of_mem_visits hd hi
  obtain ⟨e, he, hname⟩ := run_enumeration_numbered hnameless hfile hown c
  refine ⟨e, ?_, ?_⟩
  · unfold Build.declaration
    simp only [hkind, Builder.run_bind, he]
    rw [Builder.counting, Builder.counting, hsame, Builder.enumCount_of_lower hsame]
    rfl
  · rw [hname, numberedText_congr hsame, Builder.enumCount_of_lower hsame]

/-- **No other element moves a counter.** -/
theorem declaration_enumCounts (hc : Settled h c) (hi : (h.document.node i).isNumbered = false) :
    (c.run (Build.declaration h i)).2.enumCounts = c.enumCounts := by
  have hsteady : ∀ {α : Type} {x : Build α}, Build.Steady x → (c.run x).2.enumCounts = c.enumCounts := by
    rintro α x ⟨r, ns, hx⟩
    rw [hx]
    rfl
  rcases Build.declaration_cases h i with ⟨-, heq⟩ | ⟨-, heq⟩ | ⟨hother, -, -⟩
  · rw [heq, Builder.run_map]
    exact (Build.aggregate_recounts i c hc.aggregatesSound).2.1.enumCounts
  · rw [heq, Builder.run_map]
    exact (Build.interface_recounts i c hc.interfacesSound).2.1.enumCounts
  · unfold Build.declaration
    dsimp only
    cases hkind : (h.document.node i).kind with
    | enumeration =>
      have hname : Build.isNameless (h.document.node i).name = false := by simpa [Node.isNumbered, hkind] using hi
      unfold Build.enumeration
      simp only [hname]
      rfl
    | function =>
      dsimp only
      split_ifs
      · rfl
      · exact hsteady ((Build.steady_signature h _).bind fun _ => Build.steady_pure _)
    | variableDecl =>
      dsimp only
      split_ifs
      · exact hsteady (Build.steady_initialized h _)
      · rfl
    | classType | structType | unionType =>
      rw [hkind] at hother
      cases hother
    | _ => rfl

/-- what an element declares is numbered only if the element is -/
theorem isNumbered_of_declared {decl : Declaration} (hfits : (h.document.node i).Fits decl)
    (hi : (h.document.node i).isNumbered = false) : Entry.isNumbered h.document ⟨some i, decl⟩ = false := by
  cases decl with
  | enumeration e =>
    have hkind : (h.document.node i).kind = .enumeration := hfits
    simpa [Entry.isNumbered, Node.isNumbered, hkind] using hi
  | _ => rfl

/-- the counters after an element was declared -/
theorem declaration_counts (hd : h.document.Indexed) (hi : (unit, i) ∈ h.visits) (hc : Settled h c) (unit' : String) :
    (c.run (Build.declaration h i)).2.enumCount unit' =
      c.enumCount unit' + (h.document.numberedIn unit' [(unit, i)]).length := by
  rw [Document.numberedIn_singleton]
  by_cases hnumbered : (h.document.node i).isNumbered = true
  · obtain ⟨e, hrun, -⟩ := declaration_numbered hd hi hnumbered c
    rw [hrun, Builder.enumCount_counting]
    by_cases hunit : Text.asciiLower unit = Text.asciiLower unit' <;> simp [hunit, hnumbered]
  · rw [Builder.enumCount_congr (declaration_enumCounts hc (by simpa using hnumbered)), if_neg fun h => hnumbered h.2]
    rfl

/-- the number that an element gets, if it gets one -/
theorem declaration_names (hd : h.document.Indexed) (hi : (unit, i) ∈ h.visits) (c : Builder) :
    numberedNames h.document ((declarationsOf (c.run (Build.declaration h i)).1).map fun decl => ⟨some i, decl⟩) =
      if (h.document.node i).isNumbered = true then [(some i, numberedText unit (c.enumCount unit))] else [] := by
  split_ifs with hnumbered
  · obtain ⟨e, hrun, hname⟩ := declaration_numbered hd hi hnumbered c
    have hentry : Entry.isNumbered h.document ⟨some i, .enumeration e⟩ = true := by
      rw [Node.isNumbered, Bool.and_eq_true] at hnumbered
      exact hnumbered.2
    rw [hrun, declarationsOf, List.map_singleton, numberedNames, List.filter_cons_of_pos hentry]
    exact congrArg (fun name => [(some i, name)]) hname
  · refine numberedNames_eq_nil fun e he => ?_
    obtain ⟨decl, hdecl, rfl⟩ := List.mem_map.1 he
    exact isNumbered_of_declared (declaration_some (eq_of_mem_declarationsOf hdecl)).1 (by simpa using hnumbered)

theorem take_enumCounts {slot : Nat} : (c.run (Build.take h slot unit i)).2.enumCounts =
    (c.run (Build.declaration h i)).2.enumCounts := by
  rw [Build.run_take]
  generalize c.run (Build.declaration h i) = p
  obtain ⟨e | _ | decl, d⟩ := p
  · dsimp only
    split_ifs <;> rfl
  · rfl
  · rfl

end Counters

/-! ## Numbers that go on -/

/-- Between two builders some elements were taken, and every unit went on numbering where it had stopped. -/
structure Builder.Numbered (h : Headers) (b c : Builder) (visits : List (String × NodeId)) (ts : List Intake) : Prop where
  gathered : Gathered h b c visits ts
  counts : ∀ unit, c.enumCount unit = b.enumCount unit + (h.document.numberedIn unit visits).length
  names : ∀ unit, numberedNames h.document
      ((ts.filter fun t => Text.asciiLower t.unit = Text.asciiLower unit).flatMap Intake.entries) =
    numberedFrom unit (b.enumCount unit) (h.document.numberedIn unit visits)

section Steps

variable {h : Headers} {b c d : Builder} {vs ws : List (String × NodeId)} {ts us : List Intake}

theorem Builder.Numbered.still (hbc : b.module.Opened c.module) (hcounts : c.enumCounts = b.enumCounts)
    (hb : b.module.keys.Nodup) : Numbered h b c [] [] :=
  ⟨.still hbc hb, enumCount_congr hcounts, fun _ => rfl⟩

theorem Builder.Numbered.trans (h₁ : Numbered h b c vs ts) (h₂ : Numbered h c d ws us) :
    Numbered h b d (vs ++ ws) (ts ++ us) := by
  refine ⟨h₁.gathered.trans h₂.gathered, fun unit => ?_, fun unit => ?_⟩
  · rw [h₂.counts, h₁.counts, Document.numberedIn_append, List.length_append, Nat.add_assoc]
  · rw [List.filter_append, List.flatMap_append, numberedNames_append, h₁.names, h₂.names, h₁.counts,
      Document.numberedIn_append, numberedFrom_append]

theorem Intake.entries_singleton (t : Intake) (unit : String) :
    ([t].filter fun t => Text.asciiLower t.unit = Text.asciiLower unit).flatMap Intake.entries =
      if Text.asciiLower t.unit = Text.asciiLower unit then t.entries else [] := by
  split_ifs with hunit
  · rw [List.filter_cons_of_pos (by simpa using hunit)]
    exact List.flatMap_singleton ..
  · rw [List.filter_cons_of_neg (by simpa using hunit)]
    rfl

/-- only its own declaration can have a number, since nested aggregates are no enumerations -/
theorem Intake.Right.names {t : Intake} (ht : t.Right h) : numberedNames h.document t.entries =
    numberedNames h.document (t.own.map fun decl => ⟨some t.element, decl⟩) := by
  have hnested : numberedNames h.document t.nested = [] := by
    refine numberedNames_eq_nil fun e he => ?_
    obtain ⟨_, _, _, -, -, rfl⟩ := ht.nested e he
    rfl
  rw [Intake.entries, numberedNames_append, hnested, List.nil_append]

/-- **One element** is numbered next in its unit if it has to be, and otherwise changes no number. -/
theorem take_numbers (hd : h.document.Indexed) {slot : Nat} {unit : String} {i : NodeId} (hi : (unit, i) ∈ h.visits)
    (hc : Settled h c) (hreads : c.ReadsUnit slot unit) (hkeys : c.module.keys.Nodup) :
    ∃ t, Builder.Numbered h c (c.run (Build.take h slot unit i)).2 [(unit, i)] [t] := by
  obtain ⟨t, hgathered, hown⟩ := take_brings hd hi hc hreads hkeys
  obtain ⟨rfl, rfl⟩ : t.unit = unit ∧ t.element = i := by simpa using hgathered.visits
  have hright := hgathered.right t List.mem_cons_self
  refine ⟨t, hgathered, fun unit' => ?_, fun unit' => ?_⟩
  · rw [Builder.enumCount_congr take_enumCounts, declaration_counts hd hi hc]
  · rw [Intake.entries_singleton, Document.numberedIn_singleton]
    by_cases hunit : Text.asciiLower t.unit = Text.asciiLower unit'
    · rw [if_pos hunit, hright.names, hown, declaration_names hd hi, numberedText_congr hunit,
        Builder.enumCount_of_lower hunit]
      by_cases hnumbered : (h.document.node t.element).isNumbered = true
      · rw [if_pos hnumbered, if_pos ⟨hunit, hnumbered⟩]
        rfl
      · rw [if_neg hnumbered, if_neg fun h => hnumbered h.2]
        rfl
    · rw [if_neg hunit, if_neg fun h => hunit h.1]
      rfl

theorem accounts_numbered (hd : h.document.Indexed) :
    Accounts h fun b c visits => b.module.keys.Nodup → ∃ ts, Builder.Numbered h b c visits ts := by
  refine ⟨fun b c _ _ hcounts hopened hb => ⟨[], .still hopened hcounts hb⟩, ?_, fun slot unit i c hi hc hreads hkeys => ?_⟩
  · intro b c d vs ws hbc hcd hb
    obtain ⟨ts, hts⟩ := hbc hb
    obtain ⟨us, hus⟩ := hcd hts.gathered.nodup
    exact ⟨ts ++ us, hts.trans hus⟩
  · obtain ⟨t, ht⟩ := take_numbers hd hi hc hreads hkeys
    exact ⟨[t], ht⟩

end Steps

/-- **The enumerations of a unit are numbered without gaps and in order.** When a module is built, every enumeration that
is taken and has no name of its own is declared in the unit of its file. The numbers of a unit start at zero and go up by
one, in the order in which its enumerations are taken, whichever files of the unit they come from, in whatever case these
write it, and whatever else is taken or skipped between them. So no two of them have one name. -/
theorem enumerations_numbered (h : Headers) (m M : Module) (hd : h.document.Loaded) (hm : m.keys.Nodup)
    (hM : (h.model m).1 = .ok M) :
    (∀ v ∈ h.visits, (h.document.node v.2).isNumbered = true → Text.asciiLower v.1 ∈ M.keys) ∧
    ∀ u ∈ M.units, ∃ added, u.entries = m.entriesOf (Text.asciiLower u.name) ++ added ∧
      (∀ unit, Text.asciiLower unit = Text.asciiLower u.name →
        (added.filter (Entry.isNumbered h.document)).map (fun e => (e.origin, e.decl.name)) =
          (h.document.numberedIn unit h.visits).zipIdx.map
            fun p => (some p.1, Text.toUpperText unit ++ "_ENUM_" ++ toString p.2)) ∧
      ((added.filter (Entry.isNumbered h.document)).map (·.decl.name)).Nodup := by
  obtain ⟨c, -, hnumbered, -, rfl⟩ := (accounts_numbered hd.indexed).model hM
  obtain ⟨ts, hts⟩ := hnumbered hm
  refine ⟨fun v hv _ => ?_, fun u hu => ?_⟩
  · rw [← hts.gathered.visits] at hv
    obtain ⟨t, ht, rfl⟩ := List.mem_map.1 hv
    exact hts.gathered.opened t ht
  · have hnames : ∀ unit, Text.asciiLower unit = Text.asciiLower u.name →
        numberedNames h.document
            ((ts.filter fun t => Text.asciiLower t.unit = Text.asciiLower u.name).flatMap Intake.entries) =
          numberedFrom unit 0 (h.document.numberedIn unit h.visits) := fun unit hunit => hunit ▸ hts.names unit
    refine ⟨_, ?_, hnames, ?_⟩
    · rw [← Module.entriesOf_eq hts.gathered.nodup hu]
      exact hts.gathered.entries _
    · have hnodup := nodup_numberedFrom u.name 0 (h.document.numberedIn u.name h.visits)
      rwa [← hnames u.name rfl, numberedNames, List.map_map] at hnodup

/-! ## Two files of one unit -/

/-- a file `dir/straße.h` with two enumerations without a name and one with a name, and a file `Straße.h` with an
aggregate that fails for a bad number and an enumeration whose name is none -/
def streetReading : Markup.Reading :=
  ⟨[.opens "CastXML" (some []) false,
    .opens "Namespace" (some [("id", "n")]) true,
    .opens "Enumeration" (some [("id", "e1"), ("context", "n"), ("file", "g")]) true,
    .opens "Struct" (some [("id", "b"), ("name", "BROKEN"), ("context", "n"), ("file", "f")]) true,
    .opens "Field" (some [("id", "m"), ("name", "x"), ("type", "b"), ("bits", "many"), ("context", "b")]) true,
    .opens "Enumeration" (some [("id", "e2"), ("name", "$_1"), ("context", "n"), ("file", "f")]) true,
    .opens "Enumeration" (some [("id", "e3"), ("name", "COLOR"), ("context", "n"), ("file", "g")]) true,
    .opens "Enumeration" (some [("id", "e4"), ("name", ""), ("context", "n"), ("file", "g")]) true,
    .opens "File" (some [("id", "f"), ("name", "Straße.h")]) true,
    .opens "File" (some [("id", "g"), ("name", "dir/straße.h")]) true,
    .closes], false⟩

/-- its document, with the unit in scope in yet another case -/
def streetHeaders : Headers :=
  ⟨((Document.ofReading streetReading).toOption).getD (.ofRoot "" []), Scope.empty.addUnit "STRAßE" true []⟩

/-- the second file goes on numbering after the first one; the aggregate that is skipped takes no number -/
theorem street_enumerations_numbered :
    streetHeaders.document.Loaded ∧ (Module.empty "M").keys.Nodup ∧
    ∃ M, (streetHeaders.model (.empty "M")).1 = .ok M ∧
      M.units.map (fun u => (u.name, u.decls.map (·.name))) =
        [("straße", ["STRASSE_ENUM_0", "COLOR", "STRASSE_ENUM_1", "STRASSE_ENUM_2"])] ∧
      ∀ u ∈ M.units, ((u.entries.filter (Entry.isNumbered streetHeaders.document)).map (·.decl.name)).Nodup := by
  have hloaded : streetHeaders.document.Loaded := .read (r := streetReading) (by decide +kernel)
  obtain ⟨M, hM, hunits⟩ := exists_ok_of_computed (x := (streetHeaders.model (.empty "M")).1)
    (f := fun M => M.units.map fun u => (u.name, u.decls.map (·.name)))
    (v := [("straße", ["STRASSE_ENUM_0", "COLOR", "STRASSE_ENUM_1", "STRASSE_ENUM_2"])]) (by decide +kernel)
  refine ⟨hloaded, .nil, M, hM, hunits, fun u hu => ?_⟩
  obtain ⟨added, hadded, -, hnodup⟩ := (enumerations_numbered streetHeaders (.empty "M") M hloaded .nil hM).2 u hu
  rwa [hadded]

end HeaderModel
