/-
Markup as a sequence of events.

`Reading.ofText` goes through a document from left to right and reports the elements that open and
close. Text, comments, sections of character data, processing instructions, declarations and the
document type are passed over. The reading stops at the first fault of the markup; the events before
it are kept, because a consumer may find a fault of its own in them.

Tags are matched by name as they close; tags still open at the end of the text are accepted.
-/
import HeaderModel.Markup.Entity
import HeaderModel.Text.Split

namespace HeaderModel.Markup

/-- a name and its value, references replaced -/
abbrev Attribute := String × String

/-- what the reader reports; the attributes are `none` when they cannot be read -/
inductive Event where
  | opens (tag : String) (attributes : Option (List Attribute)) (isEmpty : Bool)
  | closes
  deriving DecidableEq, Repr

/-- the events up to the end of the text, or up to the first fault -/
structure Reading where
  events : List Event
  faulty : Bool
  deriving DecidableEq, Repr

/-- the white space of markup -/
def isBlank (c : Char) : Bool := c = ' ' || c = '\t' || c = '\r' || c = '\n'

/-! ## Attributes -/

/-- a character that continues the name of an attribute -/
def inKey (c : Char) : Bool := c ≠ '=' && !isBlank c

/-- what follows an attribute's name: the value as it is written, and what follows it -/
def value? (cs : List Char) : Option (List Char × List Char) :=
  match cs.dropWhile isBlank with
  | '=' :: afterEquals =>
    match afterEquals.dropWhile isBlank with
    | quote :: afterQuote =>
      if quote = '"' || quote = '\'' then
        match afterQuote.dropWhile (· ≠ quote) with
        | _ :: rest => some (afterQuote.takeWhile (· ≠ quote), rest)
        | [] => none
      else none
    | [] => none
  | _ => none

theorem length_dropWhile_le {p : Char → Bool} (cs : List Char) : (cs.dropWhile p).length ≤ cs.length :=
  (List.dropWhile_suffix p).length_le

theorem length_rest_of_value? {cs value rest : List Char} (h : value? cs = some (value, rest)) :
    rest.length < cs.length := by
  simp only [value?] at h
  split at h
  · next afterEquals heq =>
    split at h
    · next quote afterQuote hq =>
      split at h
      · split at h
        · next c r hr =>
          simp only [Option.some.injEq, Prod.mk.injEq] at h
          obtain ⟨-, rfl⟩ := h
          have h1 := length_dropWhile_le (p := (· ≠ quote)) afterQuote
          have h2 := length_dropWhile_le (p := isBlank) afterEquals
          have h3 := length_dropWhile_le (p := isBlank) cs
          rw [hr] at h1
          rw [hq] at h2
          rw [heq] at h3
          simp only [List.length_cons] at h1 h2 h3
          omega
        · simp at h
      · simp at h
    · simp at h
  · simp at h

/-- the attributes in a tag's remaining text, in order; a name has at least one character and stands only once -/
def attributes? (seen : List (List Char)) (cs : List Char) : Option (List Attribute) :=
  match _h : cs.dropWhile isBlank with
  | [] => some []
  | first :: following =>
    let key := first :: following.takeWhile inKey
    match _hv : value? (following.dropWhile inKey) with
    | none => none
    | some (value, rest) =>
      if seen.contains key then none
      else
        (unescape? value).bind fun text =>
          (attributes? (key :: seen) rest).map ((String.ofList key, String.ofList text) :: ·)
termination_by cs.length
decreasing_by
  have h1 := length_rest_of_value? _hv
  have h2 := length_dropWhile_le (p := inKey) following
  have h3 := length_dropWhile_le (p := isBlank) cs
  rw [_h] at h3
  simp only [List.length_cons] at h3
  omega

/-! ## Tags -/

/-- a tag: a closing name, or an opening name with attributes -/
inductive Tag where
  | closing (name : String)
  | opening (name : String) (attributes : Option (List Attribute)) (isEmpty : Bool)
  deriving DecidableEq, Repr

/-- an opening tag: the name runs to the first white space, the attributes follow -/
def Tag.ofOpening (content : List Char) (isEmpty : Bool) : Tag :=
  let isName := fun c => !isBlank c
  .opening (String.ofList (content.takeWhile isName)) (attributes? [] (content.dropWhile isName)) isEmpty

/-- the tag with the given text between `<` and `>` -/
def Tag.ofContent (content : List Char) : Tag :=
  match content with
  | '/' :: name => .closing (String.ofList (Text.trimEnd isBlank name))
  | _ =>
    if content.getLast? = some '/' then Tag.ofOpening content.dropLast true
    else Tag.ofOpening content false

/-! ## What stands between `<` and `>` -/

/-- the text up to the next `>` outside quotes, and what follows it -/
def splitTag? (quote : Option Char) : List Char → Option (List Char × List Char)
  | [] => none
  | c :: cs =>
    match quote with
    | some q => (splitTag? (if c = q then none else some q) cs).map fun s => (c :: s.1, s.2)
    | none =>
      if c = '>' then some ([], cs)
      else (splitTag? (if c = '"' || c = '\'' then some c else none) cs).map fun s => (c :: s.1, s.2)

/-- what follows the first occurrence of an ending -/
def restAfter? (ending : List Char) : List Char → Option (List Char)
  | [] => none
  | c :: cs =>
    if ending.isPrefixOf (c :: cs) then some ((c :: cs).drop ending.length) else restAfter? ending cs

/-- the text up to the `>` that balances every `<` before it, and what follows it -/
def splitBalanced? (depth : Nat) : List Char → Option (List Char × List Char)
  | [] => none
  | c :: cs =>
    if c = '<' then (splitBalanced? (depth + 1) cs).map fun s => (c :: s.1, s.2)
    else if c = '>' then
      match depth with
      | 0 => some ([], cs)
      | depth + 1 => (splitBalanced? depth cs).map fun s => (c :: s.1, s.2)
    else (splitBalanced? depth cs).map fun s => (c :: s.1, s.2)

/-- what follows a document type, which needs something after its keyword -/
def restAfterDocumentType? (cs : List Char) : Option (List Char) :=
  (splitBalanced? 0 cs).bind fun s =>
    if "doctype".toList.isPrefixOf (s.1.map Char.toLower) && (s.1.drop 7).any (fun c => !isBlank c) then some s.2
    else none

/-- one piece of markup after its `<`: a tag, or something to pass over (`none`), and what follows it -/
def markup? : List Char → Option (Option Tag × List Char)
  | '!' :: '-' :: '-' :: cs => (restAfter? "-->".toList cs).map (none, ·)
  | '!' :: '[' :: cs =>
    if "CDATA[".toList.isPrefixOf cs then (restAfter? "]]>".toList cs).map (none, ·) else none
  | '!' :: cs => (restAfterDocumentType? cs).map (none, ·)
  | '?' :: '>' :: _ => none
  | '?' :: cs => (restAfter? "?>".toList cs).map (none, ·)
  | cs => (splitTag? none cs).map fun s => (some (Tag.ofContent s.1), s.2)

theorem length_rest_of_splitTag? {quote : Option Char} {cs a rest : List Char}
    (h : splitTag? quote cs = some (a, rest)) : rest.length ≤ cs.length := by
  induction cs generalizing quote a rest with
  | nil => simp [splitTag?] at h
  | cons c cs ih =>
    simp only [splitTag?] at h
    split at h
    · obtain ⟨s, hs, he⟩ := Option.map_eq_some_iff.1 h
      have := ih hs
      cases he
      simp only [List.length_cons]
      omega
    · split at h
      · cases h
        simp
      · obtain ⟨s, hs, he⟩ := Option.map_eq_some_iff.1 h
        have := ih hs
        cases he
        simp only [List.length_cons]
        omega

theorem length_rest_of_restAfter? {ending cs rest : List Char} (h : restAfter? ending cs = some rest) :
    rest.length ≤ cs.length := by
  induction cs with
  | nil => simp [restAfter?] at h
  | cons c cs ih =>
    simp only [restAfter?] at h
    split at h
    · cases h
      simp only [List.length_drop]
      omega
    · have := ih h
      simp only [List.length_cons]
      omega

theorem length_rest_of_splitBalanced? {depth : Nat} {cs a rest : List Char}
    (h : splitBalanced? depth cs = some (a, rest)) : rest.length ≤ cs.length := by
  induction cs generalizing depth a rest with
  | nil => simp [splitBalanced?] at h
  | cons c cs ih =>
    have step : ∀ {d : Nat}, (splitBalanced? d cs).map (fun s => (c :: s.1, s.2)) = some (a, rest) →
        rest.length ≤ (c :: cs).length := by
      intro d hd
      obtain ⟨s, hs, he⟩ := Option.map_eq_some_iff.1 hd
      have := ih hs
      cases he
      simp only [List.length_cons]
      omega
    simp only [splitBalanced?] at h
    split at h
    · exact step h
    · split at h
      · cases depth with
        | zero => cases h; simp
        | succ d => exact step h
      · exact step h

theorem length_rest_of_markup? {cs rest : List Char} {m : Option Tag} (h : markup? cs = some (m, rest)) :
    rest.length ≤ cs.length := by
  unfold markup? at h
  split at h
  · obtain ⟨r, hr, he⟩ := Option.map_eq_some_iff.1 h
    have := length_rest_of_restAfter? hr
    cases he
    simp only [List.length_cons]
    omega
  · split at h
    · obtain ⟨r, hr, he⟩ := Option.map_eq_some_iff.1 h
      have := length_rest_of_restAfter? hr
      cases he
      simp only [List.length_cons]
      omega
    · simp at h
  · obtain ⟨r, hr, he⟩ := Option.map_eq_some_iff.1 h
    obtain ⟨s, hs, hc⟩ := Option.bind_eq_some_iff.1 hr
    have := length_rest_of_splitBalanced? hs
    split at hc
    · cases hc
      cases he
      simp only [List.length_cons]
      omega
    · simp at hc
  · simp at h
  · obtain ⟨r, hr, he⟩ := Option.map_eq_some_iff.1 h
    have := length_rest_of_restAfter? hr
    cases he
    simp only [List.length_cons]
    omega
  · obtain ⟨s, hs, he⟩ := Option.map_eq_some_iff.1 h
    have := length_rest_of_splitTag? hs
    cases he
    exact this

/-! ## Whole texts -/

/-- put an event in front of a reading -/
def Reading.after (e : Event) (r : Reading) : Reading := { r with events := e :: r.events }

/-- the reading of what is left of a text, given the names of the open tags, innermost first -/
def readFrom (opened : List String) (cs : List Char) : Reading :=
  match _h : cs.dropWhile (· ≠ '<') with
  | [] => ⟨[], false⟩
  | _ :: inside =>
    match _hm : markup? inside with
    | none => ⟨[], true⟩
    | some (none, rest) => readFrom opened rest
    | some (some (.opening name attributes isEmpty), rest) =>
      (readFrom (if isEmpty then opened else name :: opened) rest).after (.opens name attributes isEmpty)
    | some (some (.closing name), rest) =>
      match opened with
      | innermost :: outer => if innermost = name then (readFrom outer rest).after .closes else ⟨[], true⟩
      | [] => ⟨[], true⟩
termination_by cs.length
decreasing_by
  all_goals
    have h1 := length_rest_of_markup? _hm
    have h2 := length_dropWhile_le (p := (· ≠ '<')) cs
    rw [_h] at h2
    simp only [List.length_cons] at h2
    omega

/-- the reading of a whole document -/
def Reading.ofText (s : String) : Reading := readFrom [] (Text.dropByteOrderMark s.toList)

end HeaderModel.Markup
