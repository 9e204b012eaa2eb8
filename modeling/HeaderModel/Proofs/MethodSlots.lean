/-
Slots within one interface.

Grouping overloads permutes the methods, so the grouped slots are the slots in another order: every method still has
one of its own.
- `groupedOrder_perm`: the grouped order is a permutation of the numbers of the methods.
- `assignGroupedSlots_perm`: the grouped slots fill the block that starts at the first free slot.
-/
import Mathlib.Tactic
import HeaderModel.Model.Slots

namespace HeaderModel

/-! ## The grouped order -/

theorem placeMethod_perm (method : Nat × String) (placed : List (Nat × String)) :
    (placeMethod method placed).Perm (method :: placed) := by
  induction placed with
  | nil => exact .refl _
  | cons other rest ih =>
    unfold placeMethod
    split_ifs
    · exact .refl _
    · exact (ih.cons other).trans (.swap ..)

theorem foldl_placeMethod_perm (ms : List (String × Nat)) (placed : List (Nat × String)) :
    (ms.foldl (fun placed m => placeMethod (m.2, m.1) placed) placed).Perm (ms.map Prod.swap ++ placed) := by
  induction ms generalizing placed with
  | nil => exact .refl _
  | cons m ms ih =>
    rw [List.foldl_cons, List.map_cons, List.cons_append]
    exact (ih _).trans ((List.Perm.append_left _ (placeMethod_perm _ _)).trans List.perm_middle)

/-- grouping overloads loses no method and doubles none -/
theorem groupedOrder_perm (names : List String) : (groupedOrder names).Perm (List.range names.length) := by
  have hfold : (groupedMethods names).Perm (names.zipIdx.map Prod.swap) := by
    have h := foldl_placeMethod_perm names.zipIdx []
    rwa [List.append_nil] at h
  have hnumbers : (names.zipIdx.map Prod.swap).map (·.1) = List.range names.length := by
    rw [List.map_map, List.range_eq_range']
    exact List.zipIdx_map_snd 0 names
  rw [← hnumbers]
  exact hfold.map _

/-- the places in a permutation of the first numbers are a permutation of them -/
theorem map_idxOf_perm {order : List Nat} {n : Nat} (h : order.Perm (List.range n)) :
    ((List.range n).map order.idxOf).Perm (List.range n) := by
  have hnodup : order.Nodup := h.nodup_iff.2 List.nodup_range
  have hself : order.map order.idxOf = List.range order.length := by
    refine List.ext_getElem (by simp) fun k hk _ => ?_
    rw [List.getElem_map, List.getElem_range]
    exact hnodup.idxOf_getElem k (by simpa using hk)
  have hlen : order.length = n := by rw [h.length_eq, List.length_range]
  calc ((List.range n).map order.idxOf).Perm (order.map order.idxOf) := (h.map _).symm
    _ = List.range n := by rw [hself, hlen]

/-! ## Slots -/

/-- a slot number that does not overflow -/
theorem toNat_slot {first : UInt32} {k : Nat} (h : first.toNat + k < 2 ^ 32) :
    (first + UInt32.ofNat k).toNat = first.toNat + k := by
  rw [UInt32.toNat_add, UInt32.toNat_ofNat', Nat.mod_eq_of_lt (by omega : k < 2 ^ 32), Nat.mod_eq_of_lt h]

@[simp] theorem length_assignGroupedSlots (first : UInt32) (methods : List Method) :
    (assignGroupedSlots first methods).length = methods.length := by
  simp [assignGroupedSlots]

theorem signatures_assignGroupedSlots (first : UInt32) (methods : List Method) :
    (assignGroupedSlots first methods).map (·.signature) = methods.map (·.signature) := by
  refine List.ext_getElem (by simp) fun k _ _ => ?_
  simp [assignGroupedSlots]

theorem slots_assignGroupedSlots (first : UInt32) (methods : List Method) :
    (assignGroupedSlots first methods).map (·.slot) = methods.map (·.slot) := by
  refine List.ext_getElem (by simp) fun k _ _ => ?_
  simp [assignGroupedSlots]

/-- **The grouped slots fill the block** that starts at the first free slot, one method each. -/
theorem assignGroupedSlots_perm {first : UInt32} {methods : List Method}
    (h : first.toNat + methods.length < 2 ^ 32) :
    ((assignGroupedSlots first methods).map (·.groupedSlot.toNat)).Perm
      (List.range' first.toNat methods.length) := by
  have horder := groupedOrder_perm (methods.map (·.signature.name))
  rw [List.length_map] at horder
  have hplaces := map_idxOf_perm horder
  have hslots : (assignGroupedSlots first methods).map (·.groupedSlot.toNat) =
      ((List.range methods.length).map (groupedOrder (methods.map (·.signature.name))).idxOf).map
        (first.toNat + ·) := by
    refine List.ext_getElem (by simp) fun k hk _ => ?_
    have hplace : (groupedOrder (methods.map (·.signature.name))).idxOf k < methods.length := by
      rw [← List.mem_range, ← hplaces.mem_iff]
      exact List.mem_map_of_mem (List.mem_range.2 (by simpa using hk))
    simp only [assignGroupedSlots, List.getElem_map, List.getElem_mapIdx, List.getElem_range]
    exact toNat_slot (by omega)
  rw [hslots, List.range'_eq_map_range]
  exact hplaces.map _

end HeaderModel
