/-
Slots of overloaded methods.

A compiler of the platform lays out the methods of an interface in declaration order, except that all
overloads of a name stand where the first of them stands, the newest first.
-/
import HeaderModel.Model.Declaration

namespace HeaderModel

/-- put a method in front of the methods of its name, or at the end if there is none -/
def placeMethod (method : Nat × String) : List (Nat × String) → List (Nat × String)
  | [] => [method]
  | other :: rest => if other.2 = method.2 then method :: other :: rest else other :: placeMethod method rest

/-- the methods by number, with overloads grouped -/
def groupedMethods (names : List String) : List (Nat × String) :=
  names.zipIdx.foldl (fun placed m => placeMethod (m.2, m.1) placed) []

/-- the numbers of the methods in the order of their slots -/
def groupedOrder (names : List String) : List Nat := (groupedMethods names).map (·.1)

/-- give every method its slot with overloads grouped, counting from the first free slot -/
def assignGroupedSlots (first : UInt32) (methods : List Method) : List Method :=
  let order := groupedOrder (methods.map (·.signature.name))
  methods.mapIdx fun i m => { m with groupedSlot := first + UInt32.ofNat (order.idxOf i) }

end HeaderModel
