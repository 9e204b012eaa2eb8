/-
Structs and unions.

The members of an aggregate get offsets in the order in which they are declared: each member opens the
next place, except that a bit field shares its place with what follows and that the members of a union
share one place. A member whose type is nested in the aggregate is built with it. If the member has no
name, its fields become fields of the aggregate; if it has one, the nested aggregate is declared beside
the outermost one.
-/
import HeaderModel.Build.State

namespace HeaderModel.Build

/-- where a nested aggregate belongs: the name of the enclosing one, and its number in there -/
structure Enclosing where
  name : String
  number : Nat
  deriving DecidableEq, Repr

/-- the name of an aggregate -/
def aggregateName (declared : String) : Option Enclosing → String
  | none => declared
  | some outer =>
    if declared = "" then outer.name ++ "_INNER_" ++ toString outer.number
    else outer.name ++ "_" ++ declared ++ "_INNER"

/-- the width of a bit field; none if the element is no bit field -/
def bitWidth (n : Node) : Build (Option Nat) :=
  match n.attr? "bits" with
  | none => return none
  | some bits =>
    if bits = "" then return none
    else
      match Text.word32? bits with
      | some width => return some width
      | none => throw (.badNumber "bits" bits n.id)

/-- the field that a member element declares at an offset -/
def field (h : Headers) (offset : Nat) (n : Node) : Build Field := do
  let bits ← bitWidth n
  let type ← typeOf h (← of (n.need "type"))
  return ⟨if n.name = "" then "field" ++ toString offset else n.name, type, offset, bits⟩

/-- The fields of the members so far, the next offset, and the number of nested aggregates. Offsets are exact here. The
program keeps them in 32 bits and stops at one that does not fit, so an aggregate that it completes has smaller ones. -/
structure Layout where
  fields : List Field
  offset : Nat
  nested : Nat
  deriving DecidableEq, Repr

/-- nothing laid out yet -/
def Layout.start : Layout := ⟨[], 0, 0⟩

/-- add the fields of a member without a name -/
def Layout.inline (l : Layout) (isUnion : Bool) (inner : List Field) : Layout :=
  let moved := inner.map fun f => { f with offset := f.offset + l.offset }
  let last := (moved.getLast?.map (·.offset)).getD l.offset
  ⟨l.fields ++ moved, if isUnion then l.offset else last + 1, l.nested + 1⟩

/-- add one field -/
def Layout.push (l : Layout) (isUnion : Bool) (f : Field) : Layout :=
  { l with fields := l.fields ++ [f], offset := if isUnion || f.bits.isSome then l.offset else l.offset + 1 }

/-- whether the type of a member is an aggregate nested in the member's owner -/
def isNestedIn (owner type : Node) : Bool := type.kind.isAggregate && type.attr? "context" == some owner.id

/-- lay out one member -/
def member (h : Headers) (build : NodeId → Option Enclosing → Build Aggregate) (owner : Node) (name : String)
    (l : Layout) (n : Node) : Build Layout := do
  let isUnion := owner.kind = .unionType
  let f ← field h l.offset n
  let typeId ← of (h.document.placeOf (← of (n.need "type")))
  if isNestedIn owner (h.document.node typeId) then
    let inner ← build typeId (some ⟨name, l.nested⟩)
    if n.name = "" then return l.inline isUnion inner.fields
    else
      modify fun b => { b with waiting := b.waiting ++ [⟨some typeId, .aggregate inner⟩] }
      return { l with nested := l.nested + 1 }.push isUnion { f with type := { f.type with name := inner.name } }
  else return l.push isUnion f

/-- the recorded base: the last listed base that has none of its own -/
def baseName (h : Headers) (build : NodeId → Option Enclosing → Build Aggregate) (n : Node) :
    Build (Option String) :=
  n.bases.foldlM (fun recorded id => do
    let base ← build (← of (h.document.placeOf id)) none
    return if base.base.isNone then some base.name else recorded) none

/-- the aggregate that an element declares, given how others are built -/
def aggregateBody (h : Headers) (build : NodeId → Option Enclosing → Build Aggregate) (n : Node)
    (outer : Option Enclosing) : Build Aggregate := do
  let name := aggregateName n.name outer
  let base ← baseName h build n
  let layout ← (h.document.childrenOf n .field).foldlM (member h build n name) .start
  return ⟨name, n.kind = .unionType, base, layout.fields⟩

/-- forget the nested aggregates that came to wait after a point -/
def forgetWaiting (mark : Nat) : Build Unit := modify fun b => { b with waiting := b.waiting.take mark }

/-- declare the nested aggregates that came to wait after a point -/
def declareWaiting (mark : Nat) : Build Unit := do
  let waiting := (← get).waiting.drop mark
  forgetWaiting mark
  waiting.forM declare

/-- remember an aggregate -/
def rememberAggregate (i : NodeId) (a : Aggregate) : Build Unit :=
  modify fun b => { b with aggregates := (i, a) :: b.aggregates }

/-- build an aggregate, once per element, through at most a number of levels -/
def aggregateWithin (h : Headers) : Nat → NodeId → Option Enclosing → Build Aggregate
  | 0, i, _ => throw (cycleAt (h.document.node i))
  | levels + 1, i, outer => do
    let b ← get
    match b.aggregates.lookup i with
    | some built => return built
    | none =>
      let mark := b.waiting.length
      match ← during h i (aggregateBody h (aggregateWithin h levels) (h.document.node i) outer) with
      | .error e =>
        forgetWaiting mark
        throw e
      | .ok built =>
        rememberAggregate i built
        if outer.isNone then declareWaiting mark
        return built

/-- build an aggregate; no level meets an element twice, so there are no more levels than elements -/
def aggregate (h : Headers) (i : NodeId) : Build Aggregate :=
  aggregateWithin h (h.document.nodes.size + 1) i none

end HeaderModel.Build
