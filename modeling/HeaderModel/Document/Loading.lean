/-
Reading a document.

The first element must be the root. An element inside another element stays with it; an element
directly below the root is a top-level element, needs an id of its own, and is listed under its file.
When the markup ends, every top-level element that names a context moves under the element it names,
so that an aggregate owns its fields and methods. Faults are found in document order, whether in the
markup or in what it says.
-/
import HeaderModel.Document.Basic

namespace HeaderModel

/-- a document while it is read, with the elements that are open, innermost first -/
structure Loading where
  document : Option Document
  opened : List NodeId
  deriving DecidableEq, Repr

/-- append to the list of a key, which is added at the end if it is new -/
def appendTo {α : Type} (key : String) (a : α) : List (String × List α) → List (String × List α)
  | [] => [(key, [a])]
  | (k, as) :: rest => if k = key then (k, as ++ [a]) :: rest else (k, as) :: appendTo key a rest

/-- a document that has only its root -/
def Document.ofRoot (tag : String) (attributes : List Markup.Attribute) : Document :=
  ⟨tag, attributes, #[], [], [], []⟩

/-- add an element inside another -/
def Document.addNested (d : Document) (owner : NodeId) (kind : Kind) (attributes : List Markup.Attribute) :
    Document :=
  let added := { d with nodes := d.nodes.push ⟨kind, attributes, [], some owner⟩ }
  added.modifyNode owner fun n => { n with children := n.children ++ [d.nodes.size] }

/-- add an element directly below the root -/
def Document.addTopLevel (d : Document) (kind : Kind) (attributes : List Markup.Attribute) :
    Except BuildError Document := do
  let here := d.nodes.size
  let n : Node := ⟨kind, attributes, [], none⟩
  let id ← n.need "id"
  if (d.ids.lookup id).isSome then throw (.malformed (.duplicateId id))
  return { d with
    nodes := d.nodes.push n
    roots := d.roots ++ [here]
    ids := d.ids ++ [(id, here)]
    files := match n.attr? "file" with
      | some file => appendTo file here d.files
      | none => d.files }

/-- the attributes of a tag, if they could be read -/
def readable (attributes : Option (List Markup.Attribute)) : Except BuildError (List Markup.Attribute) :=
  match attributes with
  | some as => .ok as
  | none => .error (.malformed .unreadable)

/-- the tags that a root may have -/
def rootTags : List String := ["GCC_XML", "CastXML"]

/-- take in one event -/
def Loading.step (s : Loading) : Markup.Event → Except BuildError Loading
  | .closes => .ok { s with opened := s.opened.tail }
  | .opens tag attributes isEmpty =>
    match s.document with
    | none => do
      if !rootTags.contains tag then throw (.malformed (.unexpectedRoot tag))
      return { s with document := some (.ofRoot tag (← readable attributes)) }
    | some d => do
      let kind := Kind.ofTag tag
      let as ← readable attributes
      let added ← match s.opened with
        | owner :: _ => pure (d.addNested owner kind as)
        | [] => d.addTopLevel kind as
      return ⟨some added, if isEmpty then s.opened else d.nodes.size :: s.opened⟩

/-- move one element under the element that it names as its context -/
def Document.settle (d : Document) (i : NodeId) : Except BuildError Document :=
  match (d.node i).attr? "context" with
  | none => .ok { d with roots := d.roots ++ [i] }
  | some context => do
    let owner ← d.placeOf context
    let moved := d.modifyNode i fun n => { n with parent := some owner }
    return moved.modifyNode owner fun n => { n with children := n.children ++ [i] }

/-- move every element under its context, in document order -/
def Document.settleAll (d : Document) : Except BuildError Document :=
  d.roots.foldlM Document.settle { d with roots := [] }

/-- the document that a reading of markup describes -/
def Document.ofReading (r : Markup.Reading) : Except BuildError Document := do
  let s ← r.events.foldlM Loading.step ⟨none, []⟩
  if r.faulty then throw (.malformed .unreadable)
  match s.document with
  | none => throw (.malformed .noRoot)
  | some d => d.settleAll

/-- read a document -/
def Document.ofText (text : String) : Except BuildError Document :=
  Document.ofReading (Markup.Reading.ofText text)

end HeaderModel
