/-
GUIDs from initializers.

An initializer of a GUID is a row of eleven integers between braces. Braces, suffix letters and spaces are taken out of
it wherever they stand, and what is left between the commas has to spell the integers. Each of them is taken modulo the
width of its place, the first three in little-endian order.
- `ofInitializer?_eq_some_iff`: a text is read exactly if it is between braces and has eleven integers of 64 bits for
  its fields.
- `holds_ofIntegers?`: the sixteen bytes are the integers modulo the width of their places.
- `hasFields_of_writes`: the fields are the integers that are written, whatever the suffixes, spaces and inner braces.
- `guid_of_fields`: so an initializer is read as the GUID with the bytes that it writes, initializers of different
  integers are told apart if the integers fit their places, and anything else between braces is no GUID.
-/
import Mathlib.Tactic
import HeaderModel.Guid
import HeaderModel.Proofs.Decimals
import HeaderModel.Proofs.Tags

namespace HeaderModel.Guid

/-- eleven integers, in the places of a GUID -/
@[ext]
structure Fields where
  first : Int
  second : Int
  third : Int
  tail : Vector Int 8

/-- the integers in their order -/
def Fields.values (f : Fields) : List Int := [f.first, f.second, f.third] ++ f.tail.toList

/-- the integers of 64 bits, with a sign -/
def InWord (v : Int) : Prop := -2 ^ 63 ≤ v ∧ v < 2 ^ 63
  deriving Decidable

/-- integers that fit the width of their places -/
structure Fields.Fits (f : Fields) : Prop where
  first : 0 ≤ f.first ∧ f.first < 2 ^ 32
  second : 0 ≤ f.second ∧ f.second < 2 ^ 16
  third : 0 ≤ f.third ∧ f.third < 2 ^ 16
  tail : ∀ v ∈ f.tail.toList, 0 ≤ v ∧ v < 2 ^ 8

/-- an integer in decimal with a run of suffix letters behind it -/
def IsField (field : List Char) (v : Int) : Prop :=
  ∃ suffix, field = (toString v).toList ++ suffix ∧ ∀ c ∈ suffix, c ∈ ['u', 'U', 'l', 'L']

/-- A text writes eleven integers between braces: fields with commas between them, any number of braces around the last
eight, and spaces anywhere. -/
def Writes (text : String) (f : Fields) : Prop :=
  ∃ front back braces, List.Forall₂ IsField front [f.first, f.second, f.third] ∧
    List.Forall₂ IsField back f.tail.toList ∧
    text.toList.filter (· ≠ ' ') = '{' :: ([','].intercalate front ++ ',' :: (List.replicate braces '{' ++
      [','].intercalate back ++ List.replicate braces '}') ++ ['}'])

/-- a text stands between braces, but for white space around them -/
def InBraces (text : String) (inside : List Char) : Prop :=
  ∃ before after, text.toList = before ++ '{' :: (inside ++ '}' :: after) ∧
    (∀ c ∈ before, Text.isSpace c = true) ∧ ∀ c ∈ after, Text.isSpace c = true

/-- a text without the characters that may stand in it besides its integers and commas -/
def cleaned (cs : List Char) : List Char := cs.filter (· ∉ ['{', '}', 'u', 'U', 'l', 'L', ' '])

/-- a text is, when it is cleaned, a row of integers of 64 bits with commas between them -/
def HasFields (cs : List Char) (values : List Int) : Prop :=
  ∃ fields, List.Forall₂ (fun field v => Text.Spells field v ∧ InWord v) fields values ∧
    cleaned cs = [','].intercalate fields

/-- the number that a row of bytes is, the lowest byte first -/
def number (bs : List UInt8) : Nat := Nat.ofDigits 256 (bs.map UInt8.toNat)

/-- the bytes of a GUID are integers modulo the width of their places -/
structure Holds (g : Guid) (f : Fields) : Prop where
  length : g.bytes.length = 16
  first : (number (g.bytes.take 4) : Int) = f.first % 2 ^ 32
  second : (number ((g.bytes.drop 4).take 2) : Int) = f.second % 2 ^ 16
  third : (number ((g.bytes.drop 6).take 2) : Int) = f.third % 2 ^ 16
  tail : (g.bytes.drop 8).map (fun b => (b.toNat : Int)) = f.tail.toList.map (· % 2 ^ 8)

/-! ## Bytes -/

@[simp] theorem length_littleEndian (width n : Nat) : (littleEndian width n).length = width := by
  induction width generalizing n with
  | zero => rfl
  | succ width ih => simp [littleEndian, ih]

/-- the bytes of a number are the number again, as far as there is room -/
theorem number_littleEndian (width n : Nat) : number (littleEndian width n) = n % 256 ^ width := by
  induction width generalizing n with
  | zero => simp [number, littleEndian, Nat.mod_one]
  | succ width ih =>
    have hlow : (UInt8.ofNat n).toNat = n % 256 := UInt8.toNat_ofNat'
    have hrest : Nat.ofDigits 256 ((littleEndian width (n / 256)).map UInt8.toNat) = n / 256 % 256 ^ width := ih _
    rw [number, littleEndian, List.map_cons, Nat.ofDigits_cons, hrest, hlow, Nat.pow_succ', Nat.mod_mul]

theorem toNat_ofInt32 (v : Int) : ((UInt32.ofInt v).toNat : Int) = v % 2 ^ 32 := by
  rw [UInt32.ofInt, UInt32.toNat_ofNat']
  omega

theorem toNat_ofInt16 (v : Int) : ((UInt16.ofInt v).toNat : Int) = v % 2 ^ 16 := by
  rw [UInt16.ofInt, UInt16.toNat_ofNat']
  omega

theorem toNat_ofInt8 (v : Int) : ((UInt8.ofInt v).toNat : Int) = v % 2 ^ 8 := by
  rw [UInt8.ofInt, UInt8.toNat_ofNat']
  omega

theorem length_bytes (g : Guid) : g.bytes.length = 16 := by
  simp [bytes]

theorem number_first (g : Guid) : number (g.bytes.take 4) = g.first.toNat := by
  have hplace : g.bytes.take 4 = littleEndian 4 g.first.toNat := by simp [bytes]
  rw [hplace, number_littleEndian]
  exact Nat.mod_eq_of_lt g.first.toNat_lt

theorem number_second (g : Guid) : number ((g.bytes.drop 4).take 2) = g.second.toNat := by
  have hplace : (g.bytes.drop 4).take 2 = littleEndian 2 g.second.toNat := by simp [bytes]
  rw [hplace, number_littleEndian]
  exact Nat.mod_eq_of_lt g.second.toNat_lt

theorem number_third (g : Guid) : number ((g.bytes.drop 6).take 2) = g.third.toNat := by
  have hplace : (g.bytes.drop 6).take 2 = littleEndian 2 g.third.toNat := by
    simp [bytes, List.drop_append, List.drop_of_length_le]
  rw [hplace, number_littleEndian]
  exact Nat.mod_eq_of_lt g.third.toNat_lt

theorem drop_bytes (g : Guid) : g.bytes.drop 8 = g.tail.toList := by
  simp [bytes, List.drop_append, List.drop_of_length_le]

/-- **The bytes of a GUID** are its integers modulo the width of their places. -/
theorem holds_ofIntegers? (f : Fields) : ∃ g, ofIntegers? f.values = some g ∧ Holds g f := by
  have htail : f.tail.toList.length = 8 := Vector.length_toList
  obtain ⟨t₀, t₁, t₂, t₃, t₄, t₅, t₆, t₇, heq⟩ :
      ∃ t₀ t₁ t₂ t₃ t₄ t₅ t₆ t₇, f.tail.toList = [t₀, t₁, t₂, t₃, t₄, t₅, t₆, t₇] := by
    match f.tail.toList, htail with
    | [t₀, t₁, t₂, t₃, t₄, t₅, t₆, t₇], _ => exact ⟨t₀, t₁, t₂, t₃, t₄, t₅, t₆, t₇, rfl⟩
  refine ⟨_, by rw [Fields.values, heq]; rfl, ?_⟩
  exact {
    length := length_bytes _
    first := by rw [number_first, toNat_ofInt32]
    second := by rw [number_second, toNat_ofInt16]
    third := by rw [number_third, toNat_ofInt16]
    tail := by
      rw [drop_bytes, Vector.toList_mk, heq]
      simp only [List.map_cons, List.map_nil, toNat_ofInt8] }

theorem Fields.values_ne_nil (f : Fields) : f.values ≠ [] := List.cons_ne_nil _ _

/-- a GUID comes of eleven integers -/
theorem exists_fields_of_ofIntegers? {values : List Int} {g : Guid} (h : ofIntegers? values = some g) :
    ∃ f : Fields, f.values = values := by
  unfold ofIntegers? at h
  split at h
  · next v₀ v₁ v₂ t₀ t₁ t₂ t₃ t₄ t₅ t₆ t₇ => exact ⟨⟨v₀, v₁, v₂, #v[t₀, t₁, t₂, t₃, t₄, t₅, t₆, t₇]⟩, rfl⟩
  · cases h

theorem Fields.Fits.inWord {f : Fields} (hf : f.Fits) : ∀ v ∈ f.values, InWord v := by
  have hfirst := hf.first
  have hsecond := hf.second
  have hthird := hf.third
  intro v hv
  rcases List.mem_append.1 hv with hv | hv
  · simp only [List.mem_cons, List.not_mem_nil, or_false] at hv
    unfold InWord
    rcases hv with rfl | rfl | rfl <;> omega
  · have htail := hf.tail v hv
    unfold InWord
    omega

theorem eq_of_emod_eq {v v' n : Int} (h : v % n = v' % n) (hv : 0 ≤ v ∧ v < n) (hv' : 0 ≤ v' ∧ v' < n) : v = v' := by
  rwa [Int.emod_eq_of_lt hv.1 hv.2, Int.emod_eq_of_lt hv'.1 hv'.2] at h

theorem Fields.Fits.map_emod {f : Fields} (hf : f.Fits) : f.tail.toList.map (· % 2 ^ 8) = f.tail.toList := by
  calc f.tail.toList.map (· % 2 ^ 8)
      = f.tail.toList.map id := List.map_congr_left fun v hv => Int.emod_eq_of_lt (hf.tail v hv).1 (hf.tail v hv).2
    _ = f.tail.toList := List.map_id _

/-- integers that fit their places are the same if the bytes are -/
theorem Holds.unique {g : Guid} {f f' : Fields} (h : Holds g f) (h' : Holds g f') (hf : f.Fits) (hf' : f'.Fits) :
    f = f' := by
  have htail : f.tail.toList = f'.tail.toList := by
    have hsame := h.tail.symm.trans h'.tail
    rwa [hf.map_emod, hf'.map_emod] at hsame
  apply Fields.ext
  · exact eq_of_emod_eq (h.first.symm.trans h'.first) hf.first hf'.first
  · exact eq_of_emod_eq (h.second.symm.trans h'.second) hf.second hf'.second
  · exact eq_of_emod_eq (h.third.symm.trans h'.third) hf.third hf'.third
  · exact Vector.toList_inj.1 htail

/-! ## Reading -/

theorem mapM_eq_some_iff {α β : Type} {f : α → Option β} {as : List α} {bs : List β} :
    as.mapM f = some bs ↔ List.Forall₂ (fun a b => f a = some b) as bs := by
  induction as generalizing bs with
  | nil => simp [eq_comm]
  | cons a as ih =>
    rw [List.mapM_cons, List.forall₂_cons_left_iff]
    cases f a with
    | none => simp
    | some b =>
      cases has : as.mapM f with
      | none => simp [has, ← ih]
      | some bs' => simp [has, ← ih, eq_comm]

theorem inBraces_iff {text : String} {inside : List Char} :
    InBraces text inside ↔ Text.trim text.toList = '{' :: (inside ++ ['}']) := by
  constructor
  · rintro ⟨before, after, htext, hbefore, hafter⟩
    have hlast : ('{' :: (inside ++ ['}'])).getLast? = some '}' := by rw [← List.cons_append, List.getLast?_concat]
    have htrim := Text.trimBoth_of_ends (p := Text.isSpace) hbefore hafter (List.cons_ne_nil '{' (inside ++ ['}']))
      (by rintro _ ⟨⟩; rfl) (by rw [hlast]; rintro _ ⟨⟩; rfl)
    rwa [List.cons_append, List.append_assoc, List.singleton_append, ← htext] at htrim
  · intro htrim
    obtain ⟨before, after, hbefore, hafter, htext⟩ := Text.exists_trimBoth Text.isSpace text.toList
    rw [← Text.trim, htrim] at htext
    exact ⟨before, after, by simpa using htext, hbefore, hafter⟩

theorem InBraces.unique {text : String} {inside inside' : List Char} (h : InBraces text inside)
    (h' : InBraces text inside') : inside = inside' := by
  have hsame := (inBraces_iff.1 h).symm.trans (inBraces_iff.1 h')
  simpa using hsame

theorem exists_inside_iff {body : List Char} : (body.head? = some '{' ∧ body.getLast? = some '}') ↔
    ∃ inside, body = '{' :: (inside ++ ['}']) := by
  constructor
  · rintro ⟨hhead, hlast⟩
    obtain ⟨rest, rfl⟩ := List.head?_eq_some_iff.1 hhead
    rcases List.eq_nil_or_concat' rest with rfl | ⟨inside, final, rfl⟩
    · simp at hlast
    · rw [← List.cons_append, List.getLast?_concat, Option.some_inj] at hlast
      exact ⟨inside, by rw [hlast]⟩
  · rintro ⟨inside, rfl⟩
    rw [← List.cons_append, List.getLast?_concat]
    exact ⟨rfl, rfl⟩

theorem filter_isFiller (cs : List Char) : cs.filter (fun c => !isFiller c) = cleaned cs := by
  unfold isFiller cleaned
  simp only [List.contains_eq_mem, decide_not]

theorem cleaned_inBraces (inside : List Char) : cleaned ('{' :: (inside ++ ['}'])) = cleaned inside := by
  simp [cleaned]

/-- the fields are what is read between the commas -/
theorem mapM_piecesAt_iff {cs : List Char} {values : List Int} (hne : values ≠ []) :
    (Text.piecesAt ',' (cleaned cs)).mapM (Text.intWithin? (UInt64.size / 2)) = some values ↔ HasFields cs values := by
  have hread : ∀ field v, Text.intWithin? (UInt64.size / 2) field = some v ↔ Text.Spells field v ∧ InWord v := by
    intro field v
    exact Text.intWithin?_eq_some_iff (by decide)
  simp only [mapM_eq_some_iff, hread, Text.piecesAt_eq_splitOn]
  constructor
  · intro hfields
    exact ⟨_, hfields, (List.intercalate_splitOn ',').symm⟩
  · rintro ⟨fields, hfields, hjoined⟩
    have hcomma : ∀ field ∈ fields, ',' ∉ field :=
      ((List.forall₂_and_left _ _).1 (hfields.imp fun field v h => ⟨h.1.comma_not_mem, h⟩)).1
    have hnonempty : fields ≠ [] := by
      rintro rfl
      cases hfields
      exact hne rfl
    rw [hjoined, List.splitOn_intercalate ',' hcomma hnonempty]
    exact hfields

/-- between braces the fields are read -/
theorem InBraces.ofInitializer? {text : String} {inside : List Char} (h : InBraces text inside) :
    ofInitializer? text =
      ((Text.piecesAt ',' (cleaned inside)).mapM (Text.intWithin? (UInt64.size / 2))).bind ofIntegers? := by
  have hbody := inBraces_iff.1 h
  obtain ⟨hhead, hlast⟩ := exists_inside_iff.2 ⟨inside, hbody⟩
  simp only [Guid.ofInitializer?, hhead, hlast, decide_true, Bool.and_self, if_true]
  rw [filter_isFiller, hbody, cleaned_inBraces]

/-- what is not between braces is not read -/
theorem exists_inBraces_of_ofInitializer? {text : String} {g : Guid} (h : ofInitializer? text = some g) :
    ∃ inside, InBraces text inside := by
  have hbraces : ((Text.trim text.toList).head? = some '{' && (Text.trim text.toList).getLast? = some '}') = true := by
    by_contra hfails
    rw [ofInitializer?, if_neg hfails] at h
    cases h
  rw [Bool.and_eq_true, decide_eq_true_iff, decide_eq_true_iff] at hbraces
  obtain ⟨inside, hinside⟩ := exists_inside_iff.1 hbraces
  exact ⟨inside, inBraces_iff.2 hinside⟩

/-- **What is read as a GUID:** eleven integers of 64 bits between braces. -/
theorem ofInitializer?_eq_some_iff {text : String} {g : Guid} : ofInitializer? text = some g ↔
    ∃ inside, ∃ f : Fields, InBraces text inside ∧ HasFields inside f.values ∧ ofIntegers? f.values = some g := by
  constructor
  · intro h
    obtain ⟨inside, hinside⟩ := exists_inBraces_of_ofInitializer? h
    rw [hinside.ofInitializer?] at h
    obtain ⟨values, hread, hg⟩ := Option.bind_eq_some_iff.1 h
    obtain ⟨f, rfl⟩ := exists_fields_of_ofIntegers? hg
    exact ⟨inside, f, hinside, (mapM_piecesAt_iff f.values_ne_nil).1 hread, hg⟩
  · rintro ⟨inside, f, hinside, hfields, hg⟩
    rw [hinside.ofInitializer?, (mapM_piecesAt_iff f.values_ne_nil).2 hfields, Option.bind_some, hg]

/-! ## Writing -/

theorem intercalate_append {α : Type} {sep : List α} {as bs : List (List α)} (ha : as ≠ []) (hb : bs ≠ []) :
    sep.intercalate (as ++ bs) = sep.intercalate as ++ sep ++ sep.intercalate bs := by
  induction as with
  | nil => exact absurd rfl ha
  | cons a as ih =>
    cases as with
    | nil => rw [List.singleton_append, List.intercalate_cons_of_ne_nil hb, List.intercalate_singleton]
    | cons a' as =>
      rw [List.cons_append, List.cons_append, List.intercalate_cons_cons, ← List.cons_append, ih (by simp),
        List.intercalate_cons_cons]
      simp only [List.append_assoc]

/-- what is between the outer braces of a text, up to spaces -/
theorem exists_inBraces {text : String} {body : List Char}
    (h : text.toList.filter (· ≠ ' ') = '{' :: (body ++ ['}'])) :
    ∃ inside, InBraces text inside ∧ inside.filter (· ≠ ' ') = body := by
  obtain ⟨before, rest, htext, hbefore, -, hrest⟩ := List.filter_eq_cons_iff.1 h
  obtain ⟨inside, closing, rfl, hinside, hclosing⟩ := List.filter_eq_append_iff.1 hrest
  obtain ⟨gap, after, rfl, hgap, -, hafter⟩ := List.filter_eq_cons_iff.1 hclosing
  have hspace : ∀ {cs : List Char}, (∀ c ∈ cs, ¬decide (c ≠ ' ') = true) → ∀ c ∈ cs, Text.isSpace c = true := by
    intro cs hcs c hc
    have hc' : c = ' ' := by simpa using hcs c hc
    rw [hc']
    rfl
  refine ⟨inside ++ gap, ⟨before, after, by simpa using htext, hspace hbefore, hspace ?_⟩, ?_⟩
  · exact List.filter_eq_nil_iff.1 hafter
  · rw [List.filter_append, List.filter_eq_nil_iff.2 hgap, List.append_nil, hinside]

/-- spaces are cleaned away with the rest -/
theorem cleaned_filter (cs : List Char) : cleaned (cs.filter (· ≠ ' ')) = cleaned cs := by
  rw [cleaned, cleaned, List.filter_filter]
  apply List.filter_congr
  intro c hc
  by_cases hspace : c = ' '
  · simp [hspace]
  · simp [hspace]

theorem cleaned_append (cs ds : List Char) : cleaned (cs ++ ds) = cleaned cs ++ cleaned ds := List.filter_append ..

theorem cleaned_eq_nil {cs : List Char} (h : ∀ c ∈ cs, c ∈ ['{', '}', 'u', 'U', 'l', 'L', ' ']) : cleaned cs = [] := by
  rw [cleaned, List.filter_eq_nil_iff]
  intro c hc
  rw [decide_eq_true_iff, not_not]
  exact h c hc

theorem cleaned_toString (v : Int) : cleaned (toString v).toList = (toString v).toList := by
  rw [cleaned, List.filter_eq_self]
  intro c hc
  rw [decide_eq_true_iff]
  intro hfiller
  simp only [List.mem_cons, List.not_mem_nil, or_false] at hfiller
  have hplace := (Text.spells_toString v).mem hc
  rcases hfiller with rfl | rfl | rfl | rfl | rfl | rfl | rfl <;> revert hplace <;> decide

theorem IsField.cleaned {field : List Char} {v : Int} (h : IsField field v) :
    Guid.cleaned field = (toString v).toList := by
  obtain ⟨suffix, rfl, hsuffix⟩ := h
  rw [cleaned_append, cleaned_toString, cleaned_eq_nil, List.append_nil]
  intro c hc
  have hletter := hsuffix c hc
  simp only [List.mem_cons, List.not_mem_nil, or_false] at hletter ⊢
  tauto

/-- integers with the same suffix behind each of them -/
theorem forall₂_isField (suffix : List Char) (hsuffix : ∀ c ∈ suffix, c ∈ ['u', 'U', 'l', 'L']) (values : List Int) :
    List.Forall₂ IsField (values.map fun v => (toString v).toList ++ suffix) values := by
  rw [List.forall₂_map_left_iff, List.forall₂_same]
  intro v hv
  exact ⟨suffix, rfl, hsuffix⟩

/-- fields are cleaned one by one -/
theorem cleaned_intercalate {fields : List (List Char)} {values : List Int} (h : List.Forall₂ IsField fields values) :
    cleaned ([','].intercalate fields) = [','].intercalate (values.map fun v => (toString v).toList) := by
  induction h with
  | nil => rfl
  | @cons field v fields values hfield hrest ih =>
    cases hrest with
    | nil => simpa using hfield.cleaned
    | cons hnext hrest =>
      rw [List.intercalate_cons_cons, cleaned_append, cleaned_append, hfield.cleaned, ih]
      simp only [List.map_cons, List.intercalate_cons_cons]
      rfl

/-- **The fields of what is written:** the integers, whatever their suffixes and the spaces and braces around them. -/
theorem hasFields_of_writes {text : String} {f : Fields} (hwrites : Writes text f) (hword : ∀ v ∈ f.values, InWord v) :
    ∃ inside, InBraces text inside ∧ HasFields inside f.values := by
  obtain ⟨front, back, braces, hfront, hback, htext⟩ := hwrites
  obtain ⟨inside, hinside, hbody⟩ := exists_inBraces htext
  refine ⟨inside, hinside, f.values.map fun v => (toString v).toList, ?_, ?_⟩
  · rw [List.forall₂_map_left_iff, List.forall₂_same]
    intro v hv
    exact ⟨Text.spells_toString v, hword v hv⟩
  · have hfields : List.Forall₂ IsField (front ++ back) f.values := List.rel_append hfront hback
    have hfront_ne : front ≠ [] := by
      rintro rfl
      cases hfront
    have hback_ne : back ≠ [] := by
      rintro rfl
      have hlength := hback.length_eq
      rw [Vector.length_toList] at hlength
      cases hlength
    have hopening : cleaned (List.replicate braces '{') = [] := cleaned_eq_nil (by simp)
    have hclosing : cleaned (List.replicate braces '}') = [] := cleaned_eq_nil (by simp)
    -- the inner braces are cleaned away, so the two parts stand side by side as eleven fields
    calc cleaned inside
        = cleaned (inside.filter (· ≠ ' ')) := (cleaned_filter inside).symm
      _ = cleaned ([','].intercalate front) ++ cleaned [','] ++ cleaned ([','].intercalate back) := by
          rw [hbody, List.append_cons]
          simp only [cleaned_append, hopening, hclosing, List.nil_append, List.append_nil]
      _ = cleaned ([','].intercalate (front ++ back)) := by
          rw [intercalate_append hfront_ne hback_ne, cleaned_append, cleaned_append]
      _ = [','].intercalate (f.values.map fun v => (toString v).toList) := cleaned_intercalate hfields

/-- **GUIDs from initializers.** What writes eleven integers is read as the GUID of their bytes, different integers that
fit their places are read as different GUIDs, and a text between braces is read as none if its fields are not eleven
integers. -/
theorem guid_of_fields :
    (∀ text f, Writes text f → (∀ v ∈ f.values, InWord v) → ∃ g, ofInitializer? text = some g ∧ Holds g f) ∧
      (∀ text text' f f', Writes text f → Writes text' f' → f.Fits → f'.Fits → f ≠ f' →
        ofInitializer? text ≠ ofInitializer? text') ∧
      ∀ text inside, InBraces text inside → (¬∃ f : Fields, HasFields inside f.values) → ofInitializer? text = none := by
  have hread : ∀ text f, Writes text f → (∀ v ∈ f.values, InWord v) → ∃ g, ofInitializer? text = some g ∧ Holds g f := by
    intro text f hwrites hword
    obtain ⟨inside, hinside, hfields⟩ := hasFields_of_writes hwrites hword
    obtain ⟨g, hg, hholds⟩ := holds_ofIntegers? f
    exact ⟨g, ofInitializer?_eq_some_iff.2 ⟨inside, f, hinside, hfields, hg⟩, hholds⟩
  refine ⟨hread, ?_, ?_⟩
  · intro text text' f f' hwrites hwrites' hfits hfits' hne hsame
    obtain ⟨g, hg, hholds⟩ := hread text f hwrites hfits.inWord
    obtain ⟨g', hg', hholds'⟩ := hread text' f' hwrites' hfits'.inWord
    obtain rfl : g = g' := Option.some_inj.1 (hg.symm.trans (hsame.trans hg'))
    exact hne (hholds.unique hholds' hfits hfits')
  · intro text inside hinside hfields
    rw [Option.eq_none_iff_forall_ne_some]
    intro g hg
    obtain ⟨inside', f, hinside', hf, -⟩ := ofInitializer?_eq_some_iff.1 hg
    obtain rfl := hinside.unique hinside'
    exact hfields ⟨f, hf⟩

/-- The theorem at an initializer from the tests, at two that differ in their last integer, and at one whose last field is
a letter. -/
theorem guid_of_written_fields :
    (∃ g, ofInitializer? "\x7b-1135593225ul, 9184u, 18784u, \x7b150u, 218u, 51u, 171u, 175u, 89u, 53u, 236u\x7d\x7d" = some g ∧
      Holds g ⟨-1135593225, 9184, 18784, #v[150, 218, 51, 171, 175, 89, 53, 236]⟩) ∧
    ofInitializer? "\x7b1u,2u,3u,\x7b4u,5u,6u,7u,8u,9u,10u,11u\x7d\x7d" ≠
      ofInitializer? "\x7b1,2,3,4L,5L,6L,7L,8L,9L,10L,12L\x7d" ∧
    ofInitializer? "\x7b1u, 2u, 3u, \x7b4u, 5u, 6u, 7u, 8u, 9u, 10u, x\x7d\x7d" = none := by
  obtain ⟨hread, happart, hnone⟩ := guid_of_fields
  refine ⟨hread _ _ ⟨_, _, 1, .cons ⟨['u', 'l'], rfl, by simp⟩ (forall₂_isField ['u'] (by simp) _),
    forall₂_isField ['u'] (by simp) _, by decide⟩ (by decide), ?_, ?_⟩
  · refine happart _ _ ⟨1, 2, 3, #v[4, 5, 6, 7, 8, 9, 10, 11]⟩ ⟨1, 2, 3, #v[4, 5, 6, 7, 8, 9, 10, 12]⟩
      ⟨_, _, 1, forall₂_isField ['u'] (by simp) _, forall₂_isField ['u'] (by simp) _, by decide⟩
      ⟨_, _, 0, forall₂_isField [] (by simp) _, forall₂_isField ['L'] (by simp) _, by decide⟩
      ⟨by decide, by decide, by decide, by decide⟩ ⟨by decide, by decide, by decide, by decide⟩ (by simp)
  · refine hnone _ "1u, 2u, 3u, \x7b4u, 5u, 6u, 7u, 8u, 9u, 10u, x\x7d".toList ⟨[], [], by decide, by simp, by simp⟩ ?_
    rintro ⟨f, hf⟩
    have hread := (mapM_piecesAt_iff f.values_ne_nil).2 hf
    have hfails : (Text.piecesAt ',' (cleaned "1u, 2u, 3u, \x7b4u, 5u, 6u, 7u, 8u, 9u, 10u, x\x7d".toList)).mapM
        (Text.intWithin? (UInt64.size / 2)) = none := by decide
    rw [hfails] at hread
    cases hread

end HeaderModel.Guid
