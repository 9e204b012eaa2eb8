/-
The items of an attribute string.

A declaration carries its source annotations, its calling convention and its `uuid` as one string.
White space and double quotes inside parentheses mean nothing and are taken out first; what is left is
cut at blanks, and every piece is one item.
-/
import HeaderModel.Text.Split

namespace HeaderModel

/-- how a function is called -/
inductive Convention where
  | stdCall
  | cDecl
  | thisCall
  deriving DecidableEq, Repr

namespace Sal

/-- one item of an attribute string -/
inductive Item where
  | blockBegin
  | blockEnd
  | pre
  | post
  | valid
  | maybeNull
  | range (writable singleElement : Bool)
  | convention (convention : Convention)
  | uuid (text : String)
  | other (text : String)
  deriving DecidableEq, Repr

/-- a string without the white space and quotes inside parentheses, given how deep it starts -/
def stripNested (depth : Int) : List Char → List Char
  | [] => []
  | c :: cs =>
    if c = '(' then c :: stripNested (depth + 1) cs
    else if c = ')' then c :: stripNested (depth - 1) cs
    else if 0 < depth && (Text.isSpace c || c = '"') then stripNested depth cs
    else c :: stripNested depth cs

/-- the text of a `uuid`, without its closing parenthesis, quotes and braces -/
def uuidText (cs : List Char) : List Char :=
  Text.trimBoth (fun c => c = '"' || c = '{' || c = '}') (Text.trimBoth (· = ')') cs)

/-- the item that a piece stands for -/
def Item.ofPiece (piece : List Char) : Item :=
  let opens := fun (s : String) => s.toList.isPrefixOf piece
  let holds := fun (s : String) => Text.occursIn s.toList piece
  if opens "SAL_begin" then .blockBegin
  else if opens "SAL_end" then .blockEnd
  else if opens "SAL_pre" then .pre
  else if opens "SAL_post" then .post
  else if opens "SAL_valid" then .valid
  else if opens "SAL_maybenull" || (opens "SAL_null" && holds "__maybe") then .maybeNull
  else if opens "SAL_readableTo" || opens "SAL_writableTo" then
    .range (opens "SAL_writableTo") (holds "SPECSTRINGIZE(1)" || holds "elementCount(1)")
  else if opens "__stdcall__" then .convention .stdCall
  else if opens "__cdecl__" then .convention .cDecl
  else if opens "__thiscall__" then .convention .thisCall
  else
    match Text.after? "uuid(" piece with
    | some rest => .uuid (String.ofList (uuidText rest))
    | none => .other (String.ofList piece)

/-- a piece without the wrapper that stands around an annotation -/
def unwrap (piece : List Char) : List Char := (Text.after? "annotate(" piece).getD piece

/-- the items of a string of characters -/
def itemsOf (cs : List Char) : List Item :=
  (Text.piecesAt ' ' (stripNested 0 cs)).map fun piece => Item.ofPiece (unwrap piece)

/-- the items of an attribute string -/
def items (attributes : String) : List Item := itemsOf attributes.toList

end Sal

end HeaderModel
