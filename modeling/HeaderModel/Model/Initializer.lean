/-
Initializers of constants.

An initializer may be wrapped in a cast, `((TYPE)value)`, or only in parentheses. The value is cut out
of the first pair of parentheses that holds anything on its line: the pair ends at the last `)` of the
line, and a cast in front ends at the last `)` that leaves a value behind it. A float that ends in a
bare `.F` gets its digit.
-/
import HeaderModel.Text.Split

namespace HeaderModel

/-- everything before the last closing parenthesis, if there is one -/
def beforeLastClosing? (cs : List Char) : Option (List Char) :=
  match cs.reverse.dropWhile (· ≠ ')') with
  | [] => none
  | _ :: before => some before.reverse

/-- everything after the last closing parenthesis that has text before and after it -/
def afterCast? (cs : List Char) : Option (List Char) :=
  match cs with
  | [] => none
  | first :: rest =>
    (beforeLastClosing? rest.dropLast).map fun inside => (first :: rest).drop (inside.length + 2)

/-- the value in parentheses that open at the start of the text -/
def parenthesized? : List Char → Option (List Char)
  | '(' :: rest =>
    match beforeLastClosing? (rest.takeWhile (· ≠ '\n')) with
    | none | some [] => none
    | some body =>
      match body with
      | '(' :: cast => some ((afterCast? cast).getD body)
      | _ => some body
  | _ => none

/-- the value in the first parentheses that hold one -/
def firstParenthesized? : List Char → Option (List Char)
  | [] => none
  | c :: cs =>
    match parenthesized? (c :: cs) with
    | some value => some value
    | none => firstParenthesized? cs

/-- put a zero before the suffix of a float without digits after its point -/
def completeFloats : List Char → List Char
  | '.' :: c :: rest =>
    if c = 'F' || c = 'f' then '.' :: '0' :: 'F' :: completeFloats rest else '.' :: completeFloats (c :: rest)
  | c :: rest => c :: completeFloats rest
  | [] => []

/-- the value of an initializer, without one cast around it -/
def initializerValue (init : String) : String :=
  String.ofList (completeFloats ((firstParenthesized? init.toList).getD init.toList))

end HeaderModel
