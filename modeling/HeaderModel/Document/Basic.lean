/-
The indexed document.

A document is an arena of nodes. A node knows its attributes, the nodes below it and the node above
it; the document knows which nodes have nothing above them, finds every top-level element by its id,
and lists the top-level elements of every file.
-/
import HeaderModel.BuildError
import HeaderModel.Document.Kind
import HeaderModel.Markup.Event

namespace HeaderModel

/-- the place of a node in its document -/
abbrev NodeId := Nat

/-- one element -/
structure Node where
  kind : Kind
  attributes : List Markup.Attribute
  children : List NodeId
  parent : Option NodeId
  deriving DecidableEq, Repr

/-- an element with nothing in it -/
def Node.blank : Node := ⟨.other "", [], [], none⟩

namespace Node

/-- the value of an attribute -/
def attr? (n : Node) (name : String) : Option String := n.attributes.lookup name

/-- whether an attribute is present, whatever its value -/
def hasAttr (n : Node) (name : String) : Bool := (n.attr? name).isSome

/-- whether an attribute is present and not blank -/
def isSet (n : Node) (name : String) : Bool :=
  match n.attr? name with
  | some value => !Text.isBlank value
  | none => false

/-- the id, or the empty text -/
def id (n : Node) : String := (n.attr? "id").getD ""

/-- the declared name, or the empty text for an anonymous element -/
def name (n : Node) : String := (n.attr? "name").getD ""

/-- the value of an attribute that must be there -/
def need (n : Node) (name : String) : Except BuildError String :=
  match n.attr? name with
  | some value => .ok value
  | none => .error (.noAttribute name n.id)

/-- the attributes with one of them set; a new one goes to the end -/
def setIn (name value : String) : List Markup.Attribute → List Markup.Attribute
  | [] => [(name, value)]
  | (key, old) :: rest => if key = name then (key, value) :: rest else (key, old) :: setIn name value rest

/-- set an attribute -/
def withAttr (n : Node) (name value : String) : Node := { n with attributes := setIn name value n.attributes }

/-- the ids in the space-separated list of bases -/
def bases (n : Node) : List String :=
  ((Text.piecesAt ' ' ((n.attr? "bases").getD "").toList).filter (!·.isEmpty)).map String.ofList

end Node

/-- a document: its root tag, its nodes, and what is found by id and by file -/
structure Document where
  rootTag : String
  rootAttributes : List Markup.Attribute
  nodes : Array Node
  roots : List NodeId
  ids : List (String × NodeId)
  files : List (String × List NodeId)
  deriving DecidableEq, Repr

namespace Document

/-- the node at a place -/
def node (d : Document) (i : NodeId) : Node := d.nodes.getD i .blank

/-- the place of the top-level element with an id -/
def placeOf (d : Document) (id : String) : Except BuildError NodeId :=
  match d.ids.lookup id with
  | some i => .ok i
  | none => .error (.unknownId id)

/-- the top-level element with an id -/
def element (d : Document) (id : String) : Except BuildError Node := (d.placeOf id).map d.node

/-- the top-level elements of a kind, in document order -/
def ofKind (d : Document) (kind : Kind) : List NodeId :=
  (d.ids.map (·.2)).filter fun i => (d.node i).kind = kind

/-- change one node -/
def modifyNode (d : Document) (i : NodeId) (f : Node → Node) : Document := { d with nodes := d.nodes.modify i f }

/-- set an attribute of one node; ids are still found as they were when the document was read -/
def withAttr (d : Document) (i : NodeId) (name value : String) : Document :=
  d.modifyNode i (·.withAttr name value)

end Document

end HeaderModel
