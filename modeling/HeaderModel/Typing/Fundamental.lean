/-
Fundamental types.

A fundamental type is spelled by words in any order (`long unsigned int`); its short name has one
form (`unsigned long`). A later word of the base overrides an earlier one, and `long`, `short` and
`unsigned` are applied at the end. Words that are not known are passed over and reported.
-/
import HeaderModel.Notice
import HeaderModel.Text.Split

namespace HeaderModel

/-- what the words of a spelling have said so far -/
structure Spelling where
  isUnsigned : Bool
  base : String
  shorts : Nat
  longs : Nat
  deriving DecidableEq, Repr

/-- the words that name a base -/
def baseWords : List String := ["bool", "void", "char", "double", "int", "float", "wchar_t"]

/-- the words that modify a base -/
def modifierWords : List String := ["unsigned", "signed", "long", "short"]

namespace Spelling

/-- nothing said yet -/
def empty : Spelling := ⟨false, "", 0, 0⟩

/-- take in one word -/
def step (s : Spelling) (word : String) : Spelling :=
  if word = "unsigned" then { s with isUnsigned := true }
  else if word = "signed" then { s with base := "int" }
  else if word = "long" then { s with longs := s.longs + 1 }
  else if word = "short" then { s with shorts := s.shorts + 1 }
  else if baseWords.contains word then { s with base := word }
  else s

/-- the base after `long` and `short` -/
def sizedBase (s : Spelling) : String :=
  if s.shorts = 1 then "short"
  else if s.longs = 1 then (if s.base = "double" then "long double" else "long")
  else if s.longs = 2 then "long long"
  else s.base

/-- the short name -/
def name (s : Spelling) : String := if s.isUnsigned then "unsigned " ++ s.sizedBase else s.sizedBase

end Spelling

/-- the words of a spelling -/
def spellingWords (spelling : String) : List String :=
  (Text.piecesAt ' ' spelling.toList).map String.ofList

/-- the short name of a fundamental type -/
def fundamentalName (spelling : String) : String := ((spellingWords spelling).foldl Spelling.step Spelling.empty).name

/-- the words of a spelling that are not known -/
def fundamentalNotices (spelling : String) : List Notice :=
  ((spellingWords spelling).filter fun w => !(modifierWords.contains w || baseWords.contains w)).map
    fun w => .unknownTypeWord w spelling

end HeaderModel
