/-
What is reported about blocks.

A `begin` and an `end` of blocks are brackets among the items, and whatever else stands there is passed over. The scan
counts the blocks that are open and goes on behind an `end` too many, so nothing that is wrong hides anything later.
- `scan_blocks`: the scan counts the blocks that are open, and has a notice for each `end` that ends nothing.
- `blocks_reported`: every `end` and every `begin` without a partner is reported, and nothing else.
-/
import Mathlib.Tactic
import HeaderModel.Proofs.Brackets
import HeaderModel.Proofs.Meanings

namespace HeaderModel.Sal

open Brackets

/-- the items of blocks are brackets -/
def Item.side : Item → Option Side
  | .blockBegin => some .opening
  | .blockEnd => some .closing
  | _ => none

/-- one item more is counted as a bracket is, and reported if it is a stray end -/
theorem Scan.step_blocks {s : Scan} {t : Tally} (x : Item) (hopened : s.opened = t.opened)
    (hnotices : s.notices = List.replicate t.strays .blockEndWithoutBegin) :
    (s.step x).opened = (t.step Item.side x).opened ∧
    (s.step x).notices = List.replicate (t.step Item.side x).strays .blockEndWithoutBegin := by
  cases x with
  | blockBegin => exact ⟨congrArg (· + 1) hopened, hnotices⟩
  | blockEnd =>
    rw [t.step_closing (show Item.side .blockEnd = some .closing from rfl)]
    cases hcount : s.opened with
    | zero => simp [Scan.step, hcount, ← hopened, hnotices, List.replicate_succ']
    | succ opened => simp [Scan.step, hcount, ← hopened, hnotices]
  | _ => exact ⟨hopened, hnotices⟩

/-- the scan counts the blocks as brackets are counted -/
theorem scan_blocks (items : List Item) : (scan items).opened = (tally Item.side items).opened ∧
    (scan items).notices = List.replicate (tally Item.side items).strays .blockEndWithoutBegin := by
  induction items using List.reverseRecOn with
  | nil => exact ⟨rfl, rfl⟩
  | append_singleton items x ih =>
    rw [scan_append_singleton, tally_append_singleton]
    exact Scan.step_blocks x ih.1 ih.2

/-- the notices are those of the stray ends and one of the stray begins -/
theorem notices_eq (items : List Item) : notices items =
    List.replicate (strayClosings Item.side items).ncard .blockEndWithoutBegin ++
      if (strayOpenings Item.side items).ncard = 0 then []
      else [.unbalancedBlocks (strayOpenings Item.side items).ncard] := by
  obtain ⟨hopened, hnotices⟩ := scan_blocks items
  rw [ncard_strayClosings, ncard_strayOpenings, ← hopened, ← hnotices]
  rfl

/-- an item is reported when the scan comes to it, if it is an end without a begin, and is passed over otherwise -/
theorem notices_step {front rest : List Item} {x : Item} :
    (front.length ∈ strayClosings Item.side (front ++ x :: rest) →
      (scan (front ++ [x])).notices = (scan front).notices ++ [.blockEndWithoutBegin]) ∧
    (front.length ∉ strayClosings Item.side (front ++ x :: rest) →
      (scan (front ++ [x])).notices = (scan front).notices) := by
  have hsplit : front ++ x :: rest = (front ++ [x]) ++ rest := by simp
  rw [hsplit, mem_strayClosings_append (by simp), mem_strayClosings_append_singleton, (scan_blocks _).2,
    (scan_blocks front).2, tally_append_singleton, Tally.strays_step]
  simp only [length_notMem_strayClosings, false_or, true_and]
  constructor
  · intro hend
    rw [if_pos hend, List.replicate_succ']
  · intro hend
    rw [if_neg hend]

/-- **Blocks that do not match are reported exactly.** An `end` that ends no block is reported where it stands, each
once and in order, and after the last item there is one warning more if a `begin` was never ended, with the number of
these. So nothing is reported if the blocks are balanced, and only then. -/
theorem blocks_reported (items : List Item) :
    (notices items).map (fun n => (n.level, n.message, n.fields)) =
      List.replicate (strayClosings Item.side items).ncard
        (.warning, "SAL annotation block end without begin (broken Clang/CastXML version)", []) ++
      (if (strayOpenings Item.side items).ncard = 0 then []
        else [(.warning, "unbalanced SAL annotation blocks (broken Clang/CastXML version)",
          [("open", toString (strayOpenings Item.side items).ncard)])]) ∧
    (∀ front x rest, items = front ++ x :: rest →
      (front.length ∈ strayClosings Item.side items →
        (scan (front ++ [x])).notices = (scan front).notices ++ [.blockEndWithoutBegin]) ∧
      (front.length ∉ strayClosings Item.side items → (scan (front ++ [x])).notices = (scan front).notices)) ∧
    (notices items = [] ↔ Balanced Item.side items) := by
  refine ⟨?_, ?_, ?_⟩
  · rw [notices_eq, List.map_append, List.map_replicate]
    split
    · rfl
    · rfl
  · rintro front x rest rfl
    exact notices_step
  · rw [notices_eq, balanced_iff_no_strays, List.append_eq_nil_iff, List.replicate_eq_nil_iff]
    split
    · next hnone => simp [hnone]
    · next hsome => simp [hsome]

/-- an `end` in front of any `begin` is reported at once, and a later one that ends a block is not -/
theorem blocks_reported_of_crossed :
    (0 ∈ strayClosings Item.side [.blockEnd, .blockBegin, .pre, .blockBegin, .blockEnd] ∧
      (scan [.blockEnd]).notices = (scan []).notices ++ [.blockEndWithoutBegin]) ∧
    (4 ∉ strayClosings Item.side [.blockEnd, .blockBegin, .pre, .blockBegin, .blockEnd] ∧
      (scan [.blockEnd, .blockBegin, .pre, .blockBegin, .blockEnd]).notices =
        (scan [.blockEnd, .blockBegin, .pre, .blockBegin]).notices) := by
  have hreported := (blocks_reported [.blockEnd, .blockBegin, .pre, .blockBegin, .blockEnd]).2.1
  have hfirst : 0 ∈ strayClosings Item.side ([] ++ [.blockEnd]) :=
    mem_strayClosings_append_singleton.2 (.inr ⟨rfl, rfl, rfl⟩)
  have hstray : 0 ∈ strayClosings Item.side ([.blockEnd] ++ [.blockBegin, .pre, .blockBegin, .blockEnd]) :=
    (mem_strayClosings_append (by decide) _).2 hfirst
  have hpartner : 4 ∉ strayClosings Item.side [.blockEnd, .blockBegin, .pre, .blockBegin, .blockEnd] := fun h =>
    h.2 3 ⟨[.blockEnd, .blockBegin, .pre], .blockBegin, [], .blockEnd, [], rfl, rfl, rfl, .nil, rfl, rfl⟩
  exact ⟨⟨hstray, (hreported [] .blockEnd _ rfl).1 hstray⟩,
    hpartner, (hreported [.blockEnd, .blockBegin, .pre, .blockBegin] .blockEnd [] rfl).2 hpartner⟩

end HeaderModel.Sal
