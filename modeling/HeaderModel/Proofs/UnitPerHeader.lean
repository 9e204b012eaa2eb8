/-
One unit for every header.

A module is used in three ways: a unit is asked for, the declarations of headers are built into it, and definitions that
were collected from texts are added to it. Whatever the order, a header has one unit, which is found by its name without
regard to case and to which everything from this header goes.
- `gains_addTo`, `after_all_gains`, `Use.gains`: what a use adds to the units of a module, and nothing else changes.
- `withUnit_of_same`: asking for a unit that exists finds it, and leaves the module alone.
- `one_unit_per_header`: so units are never removed, renamed, moved or split, and the definitions that follow a line
  marker of a file are in one unit with the declarations of the elements of this file.
-/
import HeaderModel.Proofs.Extraction
import HeaderModel.Proofs.MacroTexts

namespace HeaderModel

/-! ## Adding definitions -/

/-- the entry of a definition -/
def Entry.ofDefinition (d : String × String) : Entry := ⟨none, .definition ⟨d.1, d.2⟩⟩

/-- what the definitions of a table add, each with the name of its unit in lower case -/
def MacroTable.gains (t : MacroTable) (scope : Scope) : List (String × Entry) :=
  (t.filter fun own => scope.hasUnit own.1).flatMap fun own =>
    own.2.map fun d => (Text.asciiLower own.1, .ofDefinition d)

namespace Module

variable {m : Module} {unit : String} {k : Nat} {u : HeaderUnit}

theorem addDefinitions_eq (m : Module) (unit : String) (own : List (String × String)) :
    m.addDefinitions unit own =
      (m.withUnit unit).2.adding (some (m.withUnit unit).1) (own.map Entry.ofDefinition) :=
  List.foldl_map.symm

theorem gains_addDefinitions (hm : m.keys.Nodup) (unit : String) (own : List (String × String)) :
    m.Gains (m.addDefinitions unit own) (own.map fun d => (Text.asciiLower unit, .ofDefinition d)) := by
  have hopened : m.Gains (m.withUnit unit).2 [] := Opened.gains (.inr ⟨unit, rfl⟩) hm
  obtain ⟨-, hkey⟩ := located_withUnit m unit
  have hadded := hopened.trans (gains_adding hopened.nodup hkey (own.map Entry.ofDefinition))
  rw [List.map_map] at hadded
  rw [addDefinitions_eq]
  exact hadded

/-- **What a table adds to a module:** the definitions of the units in scope, each to its unit. -/
theorem gains_addTo (hm : m.keys.Nodup) (t : MacroTable) (scope : Scope) :
    m.Gains (t.addTo scope m) (t.gains scope) := by
  unfold MacroTable.addTo MacroTable.gains
  induction t generalizing m with
  | nil => exact Opened.gains (.inl rfl) hm
  | cons own t ih =>
    rw [List.foldl_cons, List.filter_cons]
    by_cases hscope : scope.hasUnit own.1 = true
    · rw [if_pos hscope, if_pos hscope, List.flatMap_cons]
      have hfirst := gains_addDefinitions hm own.1 own.2
      exact hfirst.trans (ih hfirst.nodup)
    · rw [if_neg hscope, if_neg hscope]
      exact ih hm

/-- **A unit that exists is found,** in any case of its name, and the module stays as it is. -/
theorem withUnit_of_same (hm : m.keys.Nodup) (hu : m.units[k]? = some u)
    (hsame : Text.sameIgnoringCase u.name unit = true) : m.withUnit unit = (k, m) := by
  have hindex : m.indexOf? unit = some k := by
    obtain ⟨hk, rfl⟩ := List.getElem?_eq_some_iff.1 hu
    refine List.findIdx?_eq_some_iff_getElem.2 ⟨hk, hsame, fun j hj hother => ?_⟩
    -- a unit before it has another name
    have hkeys : m.keys[j]? = m.keys[k]? := by
      rw [← keyAt_eq, ← keyAt_eq, keyAt, keyAt, List.getElem?_eq_getElem hk, List.getElem?_eq_getElem (hj.trans hk)]
      exact congrArg some ((beq_iff_eq.1 hother).trans (beq_iff_eq.1 hsame).symm)
    have hlength : j < m.keys.length := by simpa [keys] using hj.trans hk
    exact hj.ne ((List.getElem?_inj hlength hm).1 hkeys)
  rw [withUnit, hindex]

end Module

/-! ## Building headers -/

/-- What a build takes: the elements of the headers in order, all of them unless it stops, and each brings what it
should. -/
structure Headers.Took (h : Headers) (ts : List Intake) : Prop where
  visits : ts.map (fun t => (t.unit, t.element)) <+: h.visits
  complete : h.faults = [] → ts.map (fun t => (t.unit, t.element)) = h.visits
  right : ∀ t ∈ ts, t.Right h

section Building

variable {h : Headers} {c : Builder}

/-- **What a build adds to a module,** whether or not it succeeds: what the elements bring that it takes, each in the
unit of its file. -/
theorem after_all_gains (hd : h.document.Indexed) (hc : Settled h c) (hkeys : c.module.keys.Nodup) :
    ∃ ts, h.Took ts ∧ c.module.Gains (c.after h .all).module (ts.flatMap Intake.located) := by
  obtain ⟨vs, hvs, hfirst, hall⟩ := (accounts_gathered hd).allFiles_accounted hc
  obtain ⟨ts, hts⟩ := hvs hkeys
  obtain rfl := hts.visits
  refine ⟨ts, ⟨hfirst, fun hfaults => hall ?_, hts.right⟩, hts.gains⟩
  rw [allFiles_stops hc, hfaults]
  rfl

theorem afterAll_all_gains (hd : h.document.Indexed) (hc : Settled h c) (hkeys : c.module.keys.Nodup) (times : Nat) :
    ∃ tss : List (List Intake), tss.length = times ∧ (∀ ts ∈ tss, h.Took ts) ∧
      c.module.Gains (c.afterAll h (List.replicate times .all)).module (tss.flatten.flatMap Intake.located) := by
  induction times generalizing c with
  | zero => exact ⟨[], rfl, fun _ hts => absurd hts List.not_mem_nil, Module.Opened.gains (.inl rfl) hkeys⟩
  | succ times ih =>
    -- the next build meets what this one left behind, which is settled even if this one stopped
    obtain ⟨ts, hts, hfirst⟩ := after_all_gains hd hc hkeys
    obtain ⟨tss, hlength, htss, hrest⟩ := ih (hc.after .all) hfirst.nodup
    refine ⟨ts :: tss, congrArg (· + 1) hlength, List.forall_mem_cons.2 ⟨hts, htss⟩, ?_⟩
    rw [List.flatten_cons, List.flatMap_append]
    exact hfirst.trans hrest

end Building

/-! ## Uses of a module -/

/-- what is done to a module: a unit is asked for, a builder builds headers into it so many times, or definitions are
added -/
inductive Module.Use where
  | unit (name : String)
  | build (h : Headers) (loaded : h.document.Loaded) (times : Nat)
  | define (t : MacroTable) (scope : Scope)

/-- a module after a use, whether or not its builds succeeded -/
def Module.after (m : Module) : Module.Use → Module
  | .unit name => (m.withUnit name).2
  | .build h _ times => ((Builder.new m).afterAll h (List.replicate times .all)).module
  | .define t scope => t.addTo scope m

/-- a module after some uses -/
def Module.afterUses (m : Module) (uses : List Module.Use) : Module := uses.foldl Module.after m

/-- What a use brings, each entry with the name of its unit in lower case. Asking for a unit brings nothing. Each build
brings what belongs to the elements that it takes, and a table its definitions of units in scope. -/
inductive Module.Use.Brings : Module.Use → List (String × Entry) → Prop where
  | unit (name : String) : Brings (.unit name) []
  | build {h : Headers} (loaded : h.document.Loaded) {tss : List (List Intake)} : (∀ ts ∈ tss, h.Took ts) →
      Brings (.build h loaded tss.length) (tss.flatten.flatMap Intake.located)
  | define (t : MacroTable) (scope : Scope) : Brings (.define t scope) (t.gains scope)

section Uses

variable {m M : Module} {uses : List Module.Use}

/-- a module gains what a use brings -/
theorem Module.Use.gains (hm : m.keys.Nodup) (use : Module.Use) :
    ∃ gs, use.Brings gs ∧ m.Gains (m.after use) gs := by
  cases use with
  | unit name => exact ⟨[], .unit name, Module.Opened.gains (.inr ⟨name, rfl⟩) hm⟩
  | build h loaded times =>
    obtain ⟨tss, rfl, htss, hgains⟩ := afterAll_all_gains loaded.indexed (settled_new h m) hm times
    exact ⟨_, .build loaded htss, hgains⟩
  | define t scope => exact ⟨t.gains scope, .define t scope, Module.gains_addTo hm t scope⟩

theorem Module.afterUses_gains (hm : m.keys.Nodup) (uses : List Module.Use) :
    ∃ gs, List.Forall₂ Module.Use.Brings uses gs ∧ m.Gains (m.afterUses uses) gs.flatten := by
  induction uses generalizing m with
  | nil => exact ⟨[], .nil, Module.Opened.gains (.inl rfl) hm⟩
  | cons use uses ih =>
    obtain ⟨gs, hbrings, hfirst⟩ := use.gains hm
    obtain ⟨gss, hall, hrest⟩ := ih hfirst.nodup
    exact ⟨gs :: gss, .cons hbrings hall, hfirst.trans hrest⟩

/-- the entries of a module that was empty are what the uses brought, each in the unit with its name -/
theorem Module.Gains.sorted {gs : List (String × Entry)} {name : String} (hM : (Module.empty name).Gains M gs) :
    ∀ u ∈ M.units, u.entries = (gs.filter (·.1 = Text.asciiLower u.name)).map (·.2) := by
  intro u hu
  rw [← Module.entriesOf_eq hM.nodup hu, hM.entries]
  rfl

/-- the definitions that follow a line marker of a file are gained by the unit of the file -/
theorem mem_gains_ofTexts {texts : List String} {scope : Scope} {p q text name value : String}
    {before after : List (List Char)} {marker : List Char} (hp : p ≠ "") (hquote : '"' ∉ p.toList)
    (hangle : p.toList.head? ≠ some '<') (hpq : SameFileName p q) (hscope : scope.hasUnit (unitName q) = true)
    (htext : text ∈ texts) (hlines : Text.lines text.toList = before ++ marker :: after)
    (hmarker : MarkerShape marker p.toList) (hdefines : DefinesFirst after name value) :
    ∃ v, (Text.asciiLower (unitName q), Entry.ofDefinition (name, v)) ∈ (MacroTable.ofTexts texts).gains scope := by
  have hmarks : Marks marker p.toList := ⟨hmarker, fun hnil => hp (String.toList_inj.1 hnil), hquote⟩
  have hunit : unitOfMarker p.toList = some (Text.asciiLower (unitName q)) := by
    unfold unitOfMarker
    rw [if_neg hangle, String.ofList_toList, unitName_of_sameFileName hpq]
  obtain ⟨own, hown, hname⟩ := MacroTable.has_ofTexts.2
    ⟨text, htext, p.toList, value, hunit, before, marker, after, hlines, hmarks, hdefines⟩
  obtain ⟨⟨n, v⟩, hd, rfl⟩ := List.mem_map.1 hname
  have hin : scope.hasUnit (Text.asciiLower (unitName q)) = true := by
    rw [Scope.hasUnit, Text.asciiLower_asciiLower]
    exact hscope
  refine ⟨v, List.mem_flatMap.2 ⟨_, List.mem_filter.2 ⟨hown, hin⟩, List.mem_map.2 ⟨(n, v), hd, ?_⟩⟩⟩
  rw [Text.asciiLower_asciiLower]

/-- what is taken from a file is taken from the unit of the name of the file -/
theorem visitsFrom_of_name {h : Headers} {f : String × List NodeId} {n : Node} (hn : h.document.element f.1 = .ok n) :
    h.visitsFrom f = (h.takenFrom f).map fun i => (unitName n.name, i) := by
  unfold Headers.visitsFrom Document.unitOfFile
  rw [hn]
  rfl

end Uses

/-! ## One unit for one header -/

/-- the unit with a name has an entry, whatever the case of the name -/
def Module.HasIn (M : Module) (unit : String) (entry : Entry) : Prop :=
  ∃ u ∈ M.units, Text.sameIgnoringCase u.name unit = true ∧ entry ∈ u.entries

theorem Module.Gains.hasIn {m M : Module} {gs : List (String × Entry)} (hM : m.Gains M gs) {unit key : String}
    {entry : Entry} (hg : (key, entry) ∈ gs) (hkey : Text.asciiLower key = Text.asciiLower unit) :
    M.HasIn unit entry := by
  obtain ⟨u, hu, rfl, he⟩ := hM.mem_units hg
  rw [Text.asciiLower_asciiLower] at hkey
  exact ⟨u, hu, beq_iff_eq.2 hkey, he⟩

/-- what one of the uses brings is brought by all together -/
theorem mem_flatten_of_brings {uses : List Module.Use} {gss : List (List (String × Entry))}
    (hall : List.Forall₂ Module.Use.Brings uses gss) {use : Module.Use} (huse : use ∈ uses) :
    ∃ gs, use.Brings gs ∧ ∀ g ∈ gs, g ∈ gss.flatten := by
  induction hall with
  | nil => cases huse
  | @cons use' gs uses gss hbrings _ ih =>
    rcases List.mem_cons.1 huse with rfl | huse
    · exact ⟨gs, hbrings, fun g hg => List.mem_append_left _ hg⟩
    · obtain ⟨gs', hbrings', hmem⟩ := ih huse
      exact ⟨gs', hbrings', fun g hg => List.mem_append_right _ (hmem g hg)⟩

/-- a build that does not stop brings the declaration of every element that is declared -/
theorem Headers.Took.mem_located {h : Headers} {ts : List Intake} (hts : h.Took ts) (hfaults : h.faults = [])
    {unit : String} {i : NodeId} (hvisit : (unit, i) ∈ h.visits) (hdeclares : h.declares i = true) :
    ∃ d, (Text.asciiLower unit, (⟨some i, d⟩ : Entry)) ∈ ts.flatMap Intake.located := by
  rw [← hts.complete hfaults] at hvisit
  obtain ⟨t, ht, heq⟩ := List.mem_map.1 hvisit
  obtain ⟨rfl, rfl⟩ := Prod.mk.inj heq
  have hlength := (hts.right t ht).own
  rw [if_pos hdeclares] at hlength
  obtain ⟨d, hown⟩ := List.length_eq_one_iff.1 hlength
  have hentry : ⟨some t.element, d⟩ ∈ t.entries := by
    rw [Intake.entries, hown]
    exact List.mem_append_right _ List.mem_cons_self
  exact ⟨d, List.mem_flatMap.2 ⟨t, ht, List.mem_map_of_mem hentry⟩⟩

theorem Module.Use.Brings.mem_located {h : Headers} {loaded : h.document.Loaded} {times : Nat}
    {gs : List (String × Entry)} (hgs : Module.Use.Brings (.build h loaded times) gs) (htimes : 0 < times)
    (hfaults : h.faults = []) {unit : String} {i : NodeId} (hvisit : (unit, i) ∈ h.visits)
    (hdeclares : h.declares i = true) : ∃ d, (Text.asciiLower unit, (⟨some i, d⟩ : Entry)) ∈ gs := by
  cases hgs with
  | @build _ _ tss htss =>
    obtain ⟨ts, hts⟩ := List.exists_mem_of_length_pos htimes
    obtain ⟨d, hd⟩ := (htss ts hts).mem_located hfaults hvisit hdeclares
    obtain ⟨t, ht, hg⟩ := List.mem_flatMap.1 hd
    exact ⟨d, List.mem_flatMap.2 ⟨t, List.mem_flatten_of_mem hts ht, hg⟩⟩

/-- **Every header has one unit.** Take a module that was empty, after any uses.
- No two units have the same name, up to case.
- Whatever is done next, every unit keeps its place and its name, and its entries only grow at the end.
- Asking for the name of a unit, in any case, finds the place of the unit and leaves the module alone.
- The entries of a unit are what the uses brought under its name, in order, and all that was brought is in some unit.
- If `p` and `q` spell one file name, the definitions that follow a line marker of `p` are in the unit of `q`, and what
  a build takes from a file that is called `q` is taken from this unit, so that its declarations are there too. -/
theorem one_unit_per_header (name : String) (uses : List Module.Use) {M : Module}
    (hM : (Module.empty name).afterUses uses = M) :
    M.keys.Nodup ∧
    (∀ (more : List Module.Use) (k : Nat) (u : HeaderUnit), M.units[k]? = some u →
      ∃ u', (M.afterUses more).units[k]? = some u' ∧ u'.name = u.name ∧ u.entries <+: u'.entries) ∧
    (∀ (k : Nat) (u : HeaderUnit) (unit : String), M.units[k]? = some u →
      Text.sameIgnoringCase u.name unit = true → M.withUnit unit = (k, M)) ∧
    (∃ gss, List.Forall₂ Module.Use.Brings uses gss ∧ (∀ g ∈ gss.flatten, M.HasIn g.1 g.2) ∧
      ∀ u ∈ M.units, u.entries = (gss.flatten.filter (·.1 = Text.asciiLower u.name)).map (·.2)) ∧
    ∀ p q, p ≠ "" → '"' ∉ p.toList → p.toList.head? ≠ some '<' → SameFileName p q →
      (∀ texts scope, .define (.ofTexts texts) scope ∈ uses → scope.hasUnit (unitName q) = true →
        ∀ text ∈ texts, ∀ before marker after, Text.lines text.toList = before ++ marker :: after →
          MarkerShape marker p.toList → ∀ n v, DefinesFirst after n v →
            ∃ v', M.HasIn (unitName q) (.ofDefinition (n, v'))) ∧
      ∀ h loaded times, .build h loaded times ∈ uses → ∀ f ∈ h.document.files, ∀ n,
        h.document.element f.1 = .ok n → n.name = q →
          h.visitsFrom f = (h.takenFrom f).map (fun i => (unitName q, i)) ∧
          (h.faults = [] → 0 < times → ∀ i ∈ h.takenFrom f, h.declares i = true →
            ∃ d, M.HasIn (unitName q) ⟨some i, d⟩) := by
  obtain ⟨gss, hbrings, hgains⟩ := Module.afterUses_gains (m := .empty name) .nil uses
  rw [hM] at hgains
  have hlower := Text.asciiLower_asciiLower
  refine ⟨hgains.nodup, ?_, ?_, ⟨gss, hbrings, fun g hg => hgains.hasIn hg rfl, hgains.sorted⟩, ?_⟩
  · intro more k u hu
    obtain ⟨_, -, hmore⟩ := Module.afterUses_gains hgains.nodup more
    exact hmore.unit_grows hu
  · intro k u unit hu hsame
    exact Module.withUnit_of_same hgains.nodup hu hsame
  · intro p q hp hquote hangle hpq
    constructor
    · intro texts scope huse hscope text htext before marker after hlines hmarker n v hdefines
      obtain ⟨gs, hgs, hall⟩ := mem_flatten_of_brings hbrings huse
      obtain ⟨v', hv'⟩ := mem_gains_ofTexts hp hquote hangle hpq hscope htext hlines hmarker hdefines
      cases hgs with
      | define => exact ⟨v', hgains.hasIn (hall _ hv') (hlower _)⟩
    · rintro h loaded times huse f hf n hn rfl
      have hvisits := visitsFrom_of_name hn
      refine ⟨hvisits, fun hfaults htimes i hi hdeclares => ?_⟩
      have hvisit : (unitName n.name, i) ∈ h.visits := by
        refine List.mem_flatMap.2 ⟨f, hf, ?_⟩
        rw [hvisits]
        exact List.mem_map_of_mem hi
      obtain ⟨gs, hgs, hall⟩ := mem_flatten_of_brings hbrings huse
      obtain ⟨d, hd⟩ := hgs.mem_located htimes hfaults hvisit hdeclares
      exact ⟨d, hgains.hasIn (hall _ hd) (hlower _)⟩

/-! ## Two spellings of a file name -/

/-- a text with a definition that follows a line marker of `Sample.h`, and one that follows a marker of no file -/
def sampleText : String :=
  "# 1 \"<built-in>\"\n#define __STDC__ 1\n# 1 \"C:\\sdk\\Sample.h\" 1\n#define SAMPLE_VERSION 3\n"

/-- an enumeration in a file that is called `SAMPLE.H` and stands in another directory -/
def sampleReading : Markup.Reading :=
  ⟨[.opens "CastXML" (some []) false,
    .opens "Namespace" (some [("id", "n")]) true,
    .opens "Enumeration" (some [("id", "e"), ("name", "COLOR"), ("context", "n"), ("file", "f")]) true,
    .opens "File" (some [("id", "f"), ("name", "/usr/include/SAMPLE.H")]) true,
    .closes], false⟩

/-- its document, with the file in scope -/
def sampleHeaders : Headers :=
  ⟨((Document.ofReading sampleReading).toOption).getD (.ofRoot "" []), Scope.empty.addUnit "sample" true []⟩

theorem sample_loaded : sampleHeaders.document.Loaded := .read (r := sampleReading) (by decide +kernel)

/-- the definitions are added, then the headers are built, and then the unit is asked for -/
def sampleUses : List Module.Use :=
  [.define (.ofTexts [sampleText]) sampleHeaders.scope, .build sampleHeaders sample_loaded 1, .unit "Sample"]

/-- the definition and the enumeration are in one unit, which is the only one -/
theorem sample_in_one_unit :
    ∃ M, (Module.empty "M").afterUses sampleUses = M ∧ M.keys.Nodup ∧
      M.units.map (fun u => (u.name, u.decls.map (·.name))) = [("sample", ["SAMPLE_VERSION", "COLOR"])] ∧
      (∃ v, M.HasIn "SAMPLE" (.ofDefinition ("SAMPLE_VERSION", v))) ∧ ∃ d, M.HasIn "SAMPLE" ⟨some 1, d⟩ := by
  have hunit : unitName "/usr/include/SAMPLE.H" = "SAMPLE" := by decide +kernel
  obtain ⟨hdistinct, -, -, -, hheader⟩ := one_unit_per_header "M" sampleUses rfl
  have hsame : SameFileName "C:\\sdk\\Sample.h" "/usr/include/SAMPLE.H" :=
    ⟨_, _, fileName_eq_iff.1 rfl, fileName_eq_iff.1 rfl, by decide +kernel⟩
  obtain ⟨hdefinitions, hbuilds⟩ := hheader "C:\\sdk\\Sample.h" "/usr/include/SAMPLE.H" (by decide) (by decide)
    (by decide) hsame
  rw [hunit] at hdefinitions hbuilds
  refine ⟨_, rfl, hdistinct, by decide +kernel, ?_, ?_⟩
  · have hmarker : markedFile? "# 1 \"C:\\sdk\\Sample.h\" 1".toList = some "C:\\sdk\\Sample.h".toList := by
      decide +kernel
    refine hdefinitions [sampleText] sampleHeaders.scope List.mem_cons_self (by decide +kernel) sampleText
      List.mem_cons_self ["# 1 \"<built-in>\"".toList, "#define __STDC__ 1".toList] _
      ["#define SAMPLE_VERSION 3".toList] (by decide +kernel) (markedFile?_eq_some_iff.1 hmarker).shape
      "SAMPLE_VERSION" "3" ?_
    exact ⟨[], _, [], rfl, nofun, by decide +kernel⟩
  · have hfile : sampleHeaders.document.files = [("f", [1])] := by decide +kernel
    have hname : sampleHeaders.document.element "f" = .ok (sampleHeaders.document.node 2) := by decide +kernel
    have hbuild : Module.Use.build sampleHeaders sample_loaded 1 ∈ sampleUses := by simp [sampleUses]
    obtain ⟨-, hdeclared⟩ := hbuilds sampleHeaders sample_loaded 1 hbuild ("f", [1]) (hfile ▸ List.mem_cons_self)
      _ hname (by decide +kernel)
    exact hdeclared (by decide +kernel) one_pos 1 (by decide +kernel) (by decide +kernel)

end HeaderModel
