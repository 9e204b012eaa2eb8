/-
The document as text again.

`Document.dump` writes the document as it stands after contexts have been settled and names have been
changed: every element on a line of its own, two blanks deeper than the element that holds it.
Elements that no root holds are left out.
-/
import HeaderModel.Document.Basic

namespace HeaderModel

/-- attributes as they stand in a tag -/
def renderAttributes (attributes : List Markup.Attribute) : List Char :=
  attributes.flatMap fun a => ' ' :: a.1.toList ++ "=\"".toList ++ Markup.escape a.2.toList ++ ['"']

/-- the start of a line at a depth -/
def lineStart (depth : Nat) : List Char := '\n' :: List.replicate (2 * depth) ' '

/-- a closing tag -/
def renderClosing (tag : String) : List Char := "</".toList ++ tag.toList ++ ['>']

namespace Document

/-- an element and what it holds, down to a number of levels -/
def renderNode (d : Document) : Nat → Nat → NodeId → List Char
  | 0, _, _ => []
  | levels + 1, depth, i =>
    let n := d.node i
    let start := lineStart depth ++ '<' :: n.kind.tag.toList ++ renderAttributes n.attributes
    if n.children.isEmpty then start ++ "/>".toList
    else
      start ++ '>' :: n.children.flatMap (d.renderNode levels (depth + 1)) ++ lineStart depth
        ++ renderClosing n.kind.tag

/-- the document as text; no path from a root is longer than the number of nodes -/
def dump (d : Document) : String :=
  String.ofList ("<?xml version=\"1.0\"?>\n<".toList ++ d.rootTag.toList ++ renderAttributes d.rootAttributes
    ++ '>' :: d.roots.flatMap (d.renderNode d.nodes.size 1) ++ '\n' :: renderClosing d.rootTag)

end Document

end HeaderModel
