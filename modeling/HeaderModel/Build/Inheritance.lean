/-
Interfaces.

The slots of an interface follow those of its bases. Every new pure virtual method opens a slot; a
method that overrides one uses the slot that is there. The recorded base is the first one that the
model represents by name. Slots are counted in 32 bits, and a count that does not fit stops the program.
-/
import HeaderModel.Build.Signature
import HeaderModel.Model.Slots

namespace HeaderModel.Build

/-- whether a type has a name in the model: it is bound, or its header unit is in scope -/
def isRepresented (h : Headers) (n : Node) : Except BuildError Bool :=
  let isBound := h.scope.boundNames.contains n.name
  match n.attr? "file" with
  | some file => (h.document.unitOfFile file).map fun unit => h.scope.hasUnit unit || isBound
  | none => .ok isBound

/-- the sum of two counts of slots, if it fits -/
def addSlots (a b : UInt32) : Build UInt32 :=
  if a.toNat + b.toNat < UInt32.size then return a + b else throw (.halted .overflow)

/-- the recorded base so far, and the slots of the bases so far -/
structure Inherited where
  base : Option String
  slots : UInt32
  deriving DecidableEq, Repr

/-- take in one base -/
def inherit (h : Headers) (build : NodeId → Build Interface) (sofar : Inherited) (id : String) :
    Build Inherited := do
  let i ← of (h.document.placeOf id)
  let parent ← build i
  let base ← match sofar.base with
    | some name => pure (some name)
    | none => do
      let represented ← of (isRepresented h (h.document.node i))
      pure (if represented then some parent.name else none)
  return ⟨base, ← addSlots sofar.slots parent.slotCount⟩

/-- a method that opens a slot -/
def opensSlot (n : Node) : Bool := n.isSet "pure_virtual" && !n.isSet "overrides"

/-- the GUID that a `uuid` spells, if it spells one -/
def guidOf (name : String) : Option String → Build (Option Guid)
  | none => return none
  | some uuid =>
    match Guid.ofText? uuid with
    | some guid => return some guid
    | none => do
      report [.uuidNotGuid name uuid]
      return none

/-- the methods so far, and the slot of the next one -/
structure MethodTable where
  methods : List Method
  next : UInt32
  deriving DecidableEq, Repr

/-- give a method the next slot -/
def openSlot (h : Headers) (sofar : MethodTable) (n : Node) : Build MethodTable := do
  let signature ← signature h n
  return ⟨sofar.methods ++ [⟨signature, sofar.next, sofar.next⟩], ← addSlots sofar.next 1⟩

/-- the methods with overloads grouped, from the first free slot on; the program counts one slot further than it gives,
so that one must fit too -/
def groupSlots (first : UInt32) (table : MethodTable) : Build (List Method) := do
  let _ ← addSlots table.next 1
  return assignGroupedSlots first table.methods

/-- the interface that an element declares, given how others are built -/
def interfaceBody (h : Headers) (build : NodeId → Build Interface) (n : Node) : Build Interface := do
  let inherited ← n.bases.foldlM (inherit h build) ⟨none, 0⟩
  let uuid := (← meaningOf n).bind (·.guid)
  let guid ← guidOf n.name uuid
  let own := (h.document.childrenOf n .method).filter opensSlot
  let table ← own.foldlM (openSlot h) ⟨[], inherited.slots⟩
  let methods ← groupSlots inherited.slots table
  return ⟨n.name, inherited.base, uuid, guid, methods, table.next⟩

/-- remember an interface -/
def rememberInterface (i : NodeId) (built : Interface) : Build Unit :=
  modify fun b => { b with interfaces := (i, built) :: b.interfaces }

/-- build an interface, once per element, through at most a number of levels -/
def interfaceWithin (h : Headers) : Nat → NodeId → Build Interface
  | 0, i => throw (cycleAt (h.document.node i))
  | levels + 1, i => do
    match (← get).interfaces.lookup i with
    | some built => return built
    | none =>
      let built ← of (← during h i (interfaceBody h (interfaceWithin h levels) (h.document.node i)))
      rememberInterface i built
      return built

/-- build an interface; no level meets an element twice, so there are no more levels than elements -/
def interface (h : Headers) (i : NodeId) : Build Interface := interfaceWithin h (h.document.nodes.size + 1) i

end HeaderModel.Build
