/-
Brackets.

Some letters of a row open or close a pair, the others are passed over. A row is balanced if its brackets pair up
(`Balanced`), and in any row an opening and a closing bracket are partners if what stands between them is balanced
(`Partners`). A bracket without a partner is a stray one. One pass from left to right with two counters finds out about
all of this (`Tally`).
- `exists_innermost`: where a bracket is open, there is an innermost one, and what follows it is balanced.
- `ncard_strayClosings`, `ncard_strayOpenings`: the counters count the stray brackets.
- `balanced_iff_tally`: a row is balanced if neither counter has counted any.
-/
import Mathlib.Tactic

namespace HeaderModel.Brackets

/-- the side of a pair on which a bracket stands -/
inductive Side where
  | opening
  | closing
  deriving DecidableEq, Repr

section

variable {α : Type} (side : α → Option Side)

/-- a row in which every bracket is closed or opened by another one -/
inductive Balanced : List α → Prop
  | nil : Balanced []
  | letter {x : α} {rest : List α} (hx : side x = none) (hrest : Balanced rest) : Balanced (x :: rest)
  | pair {x y : α} {inner rest : List α} (hx : side x = some .opening) (hinner : Balanced inner)
      (hy : side y = some .closing) (hrest : Balanced rest) : Balanced (x :: (inner ++ y :: rest))

/-- the brackets at two places open and close one pair -/
def Partners (l : List α) (i j : Nat) : Prop :=
  ∃ front x inner y rest, l = front ++ x :: (inner ++ y :: rest) ∧ side x = some .opening ∧
    side y = some .closing ∧ Balanced side inner ∧ front.length = i ∧ front.length + inner.length + 1 = j

/-- the places of the opening brackets that are never closed -/
def strayOpenings (l : List α) : Set Nat := {i | l[i]?.bind side = some .opening ∧ ∀ j, ¬Partners side l i j}

/-- the places of the closing brackets that close nothing -/
def strayClosings (l : List α) : Set Nat := {j | l[j]?.bind side = some .closing ∧ ∀ i, ¬Partners side l i j}

/-- how many brackets are open behind a row, and how many have closed nothing -/
@[ext] structure Tally where
  opened : Nat
  strays : Nat
  deriving DecidableEq, Repr

/-- count one letter more -/
def Tally.step (t : Tally) (x : α) : Tally :=
  match side x with
  | none => t
  | some .opening => { t with opened := t.opened + 1 }
  | some .closing =>
    match t.opened with
    | 0 => { t with strays := t.strays + 1 }
    | opened + 1 => { t with opened := opened }

/-- count a row -/
def tally (l : List α) : Tally := l.foldl (Tally.step side) ⟨0, 0⟩

/-! ## Counting -/

variable {side} {l : List α} {x z : α}

@[simp] theorem tally_nil : tally side [] = ⟨0, 0⟩ := rfl

theorem tally_append_singleton : tally side (l ++ [z]) = (tally side l).step side z := by
  simp [tally]

theorem Tally.step_letter (t : Tally) (hx : side x = none) : t.step side x = t := by
  simp [Tally.step, hx]

theorem Tally.step_opening (t : Tally) (hx : side x = some .opening) :
    t.step side x = ⟨t.opened + 1, t.strays⟩ := by
  simp [Tally.step, hx]

theorem Tally.step_closing (t : Tally) (hx : side x = some .closing) :
    t.step side x = if t.opened = 0 then ⟨0, t.strays + 1⟩ else ⟨t.opened - 1, t.strays⟩ := by
  obtain ⟨opened, strays⟩ := t
  cases opened <;> simp [Tally.step, hx]

/-- a closing bracket is a stray one where nothing is open -/
theorem Tally.strays_step (t : Tally) : (t.step side x).strays =
    if side x = some .closing ∧ t.opened = 0 then t.strays + 1 else t.strays := by
  cases hx : side x with
  | none => simp [t.step_letter hx]
  | some s =>
    cases s with
    | opening => simp [t.step_opening hx]
    | closing =>
      rw [t.step_closing hx]
      split <;> simp_all

theorem Balanced.append {front rest : List α} (hfront : Balanced side front) (hrest : Balanced side rest) :
    Balanced side (front ++ rest) := by
  induction hfront with
  | nil => exact hrest
  | letter hx _ ih => exact .letter hx ih
  | pair hx hinner hy _ _ ih => simpa using Balanced.pair hx hinner hy ih

theorem balanced_of_letters (hl : ∀ x ∈ l, side x = none) : Balanced side l := by
  induction l with
  | nil => exact .nil
  | cons x l ih => exact .letter (hl x (by simp)) (ih fun y hy => hl y (by simp [hy]))

theorem Balanced.append_letter (hl : Balanced side l) (hz : side z = none) : Balanced side (l ++ [z]) :=
  hl.append (.letter hz .nil)

theorem Balanced.append_pair {front inner : List α} (hfront : Balanced side front) (hx : side x = some .opening)
    (hinner : Balanced side inner) (hz : side z = some .closing) : Balanced side (front ++ x :: inner ++ [z]) := by
  simpa using hfront.append (.pair hx hinner hz .nil)

/-- a balanced row leaves the counters as they were -/
theorem Balanced.foldl_step (hl : Balanced side l) (t : Tally) : l.foldl (Tally.step side) t = t := by
  induction hl generalizing t with
  | nil => rfl
  | letter hx _ ih => rw [List.foldl_cons, t.step_letter hx, ih]
  | pair hx _ hy _ ihinner ihrest =>
    rw [List.foldl_cons, List.foldl_append, ihinner, List.foldl_cons, t.step_opening hx,
      Tally.step_closing _ hy, ihrest]
    simp

/-! ## The innermost open bracket -/

/-- the bracket at a place is open behind the row, and no other one behind it is -/
def Innermost (side : α → Option Side) (l : List α) (i : Nat) : Prop :=
  ∃ front x inner, l = front ++ x :: inner ∧ side x = some .opening ∧ Balanced side inner ∧ front.length = i

theorem tally_open {front inner : List α} (hx : side x = some .opening) (hinner : Balanced side inner) :
    tally side (front ++ x :: inner) = ⟨(tally side front).opened + 1, (tally side front).strays⟩ := by
  rw [tally, List.foldl_append, List.foldl_cons, hinner.foldl_step, Tally.step_opening _ hx]
  rfl

/-- where a bracket is open, an innermost one is, and without it one bracket less is open -/
theorem exists_innermost {n : Nat} (hopened : (tally side l).opened = n + 1) :
    ∃ front x inner, l = front ++ x :: inner ∧ side x = some .opening ∧ Balanced side inner ∧
      tally side front = ⟨n, (tally side l).strays⟩ := by
  -- a closing bracket takes the innermost one away, and the next one is found in what stands in front of that
  induction hlen : l.length using Nat.strong_induction_on generalizing l n with
  | _ len ih =>
  subst hlen
  rcases List.eq_nil_or_concat' l with rfl | ⟨l, z, rfl⟩
  · simp at hopened
  have hshort : l.length < (l ++ [z]).length := by simp
  rw [tally_append_singleton] at hopened ⊢
  cases hz : side z with
  | none =>
    rw [Tally.step_letter _ hz] at hopened ⊢
    obtain ⟨front, x, inner, rfl, hx, hinner, hfront⟩ := ih _ hshort hopened rfl
    exact ⟨front, x, inner ++ [z], by simp, hx, hinner.append_letter hz, hfront⟩
  | some s =>
    cases s with
    | opening =>
      rw [Tally.step_opening _ hz] at hopened ⊢
      refine ⟨l, z, [], rfl, hz, .nil, ?_⟩
      rw [← Nat.succ.inj hopened]
    | closing =>
      have hl : (tally side l).opened = n + 1 + 1 := by
        rw [Tally.step_closing _ hz] at hopened
        split at hopened
        · simp at hopened
        · simp only at hopened
          omega
      have hstrays : ((tally side l).step side z).strays = (tally side l).strays := by
        simp [Tally.strays_step, hl]
      obtain ⟨front, x, inner, rfl, hx, hinner, hfront⟩ := ih _ hshort hl rfl
      have hnext : (tally side front).opened = n + 1 := by rw [hfront]
      obtain ⟨front, x', inner', rfl, hx', hinner', hfront'⟩ := ih _ (by simp) hnext rfl
      refine ⟨front, x', inner' ++ x :: inner ++ [z], by simp, hx', hinner'.append_pair hx hinner hz, ?_⟩
      rw [hfront', hstrays, hfront]

theorem opened_eq_zero_iff : (tally side l).opened = 0 ↔ ∀ i, ¬Innermost side l i := by
  constructor
  · rintro hopened i ⟨front, x, inner, rfl, hx, hinner, -⟩
    simp [tally_open hx hinner] at hopened
  · intro hnone
    by_contra hopened
    obtain ⟨n, hn⟩ := Nat.exists_eq_succ_of_ne_zero hopened
    obtain ⟨front, x, inner, rfl, hx, hinner, -⟩ := exists_innermost hn
    exact hnone _ ⟨front, x, inner, rfl, hx, hinner, rfl⟩

theorem strays_le_foldl (l : List α) (t : Tally) : t.strays ≤ (l.foldl (Tally.step side) t).strays := by
  induction l generalizing t with
  | nil => exact le_rfl
  | cons x l ih =>
    have hstep : t.strays ≤ (t.step side x).strays := by
      rw [Tally.strays_step]
      split <;> omega
    exact hstep.trans (ih _)

/-- a balanced row leaves nothing open -/
theorem Balanced.not_open {front inner : List α} (hl : Balanced side (front ++ x :: inner))
    (hx : side x = some .opening) : ¬Balanced side inner := by
  intro hinner
  have hnone := hl.foldl_step ⟨0, 0⟩
  rw [← tally, tally_open hx hinner] at hnone
  simp at hnone

/-- in a balanced row nothing is closed that was not opened -/
theorem Balanced.not_close {inner rest : List α} (hl : Balanced side (inner ++ x :: rest))
    (hx : side x = some .closing) : ¬Balanced side inner := by
  intro hinner
  have hnone := hl.foldl_step ⟨0, 0⟩
  rw [List.foldl_append, List.foldl_cons, hinner.foldl_step, Tally.step_closing _ hx] at hnone
  have hmono := @strays_le_foldl _ side rest ⟨0, 0 + 1⟩
  simp_all

theorem Innermost.le {i j : Nat} (hi : Innermost side l i) (hj : Innermost side l j) : j ≤ i := by
  obtain ⟨front, x, inner, rfl, hx, hinner, rfl⟩ := hi
  obtain ⟨front', x', inner', heq, hx', hinner', rfl⟩ := hj
  rcases List.append_eq_append_iff.1 heq with ⟨mid, rfl, hmid⟩ | ⟨mid, rfl, -⟩
  · cases mid with
    | nil => simp
    | cons y mid =>
      obtain ⟨-, rfl⟩ := List.cons_eq_cons.1 hmid
      exact absurd hinner' (hinner.not_open hx')
  · simp

/-- what is open behind a row has no partner in it -/
theorem Innermost.not_partners {i : Nat} (hi : Innermost side l i) (j : Nat) : ¬Partners side l i j := by
  obtain ⟨front, x, inner, rfl, hx, hinner, rfl⟩ := hi
  rintro ⟨front', x', inner', y, rest, heq, hx', hy, hinner', hlen, -⟩
  obtain ⟨rfl, hcons⟩ := List.append_inj heq hlen.symm
  obtain ⟨-, rfl⟩ := List.cons_eq_cons.1 hcons
  exact hinner.not_close hy hinner'

/-- a row is balanced if the counters have counted nothing -/
theorem balanced_iff_tally : Balanced side l ↔ tally side l = ⟨0, 0⟩ := by
  constructor
  · intro hl
    exact hl.foldl_step ⟨0, 0⟩
  intro htally
  induction hlen : l.length using Nat.strong_induction_on generalizing l with
  | _ len ih =>
  subst hlen
  rcases List.eq_nil_or_concat' l with rfl | ⟨l, z, rfl⟩
  · exact .nil
  rw [tally_append_singleton] at htally
  cases hz : side z with
  | none =>
    rw [Tally.step_letter _ hz] at htally
    exact (ih _ (by simp) htally rfl).append_letter hz
  | some s =>
    cases s with
    | opening => simp [Tally.step_opening _ hz] at htally
    | closing =>
      rw [Tally.step_closing _ hz] at htally
      split at htally
      · simp at htally
      · next hopened =>
        obtain ⟨hone, hstrays⟩ := Tally.mk.inj htally
        have hl : (tally side l).opened = 0 + 1 := by omega
        obtain ⟨front, x, inner, rfl, hx, hinner, hfront⟩ := exists_innermost hl
        rw [hstrays] at hfront
        exact (ih _ (by simp) hfront rfl).append_pair hx hinner hz

/-! ## One letter more -/

theorem bind_side_append_singleton {i : Nat} {s : Side} :
    (l ++ [z])[i]?.bind side = some s ↔ l[i]?.bind side = some s ∨ i = l.length ∧ side z = some s := by
  rcases lt_trichotomy i l.length with hlt | rfl | hgt
  · simp [List.getElem?_append_left hlt, hlt.ne]
  · simp
  · have hout : (l ++ [z])[i]? = none := List.getElem?_eq_none (by simp; omega)
    simp [hout, List.getElem?_eq_none hgt.le, hgt.ne']

/-- one letter more is a new partner only of the innermost open bracket -/
theorem partners_append_singleton {i j : Nat} :
    Partners side (l ++ [z]) i j ↔
      Partners side l i j ∨ j = l.length ∧ side z = some .closing ∧ Innermost side l i := by
  constructor
  · rintro ⟨front, x, inner, y, rest, heq, hx, hy, hinner, hi, hj⟩
    rcases List.eq_nil_or_concat' rest with rfl | ⟨rest, w, rfl⟩
    · have heq' : l ++ [z] = (front ++ x :: inner) ++ [y] := by simpa using heq
      obtain ⟨rfl, hlast⟩ := List.append_inj' heq' rfl
      obtain rfl := List.singleton_inj.1 hlast
      refine .inr ⟨?_, hy, front, x, inner, rfl, hx, hinner, hi⟩
      simp [← hj, Nat.add_assoc]
    · have heq' : l ++ [z] = (front ++ x :: (inner ++ y :: rest)) ++ [w] := by simpa using heq
      obtain ⟨rfl, -⟩ := List.append_inj' heq' rfl
      exact .inl ⟨front, x, inner, y, rest, rfl, hx, hy, hinner, hi, hj⟩
  · rintro (⟨front, x, inner, y, rest, rfl, hx, hy, hinner, hi, hj⟩ | ⟨rfl, hz, front, x, inner, rfl, hx, hinner, hi⟩)
    · exact ⟨front, x, inner, y, rest ++ [z], by simp, hx, hy, hinner, hi, hj⟩
    · exact ⟨front, x, inner, z, [], by simp, hx, hz, hinner, hi, by simp [Nat.add_assoc]⟩

theorem Partners.lt_length {i j : Nat} (h : Partners side l i j) : i < l.length ∧ j < l.length := by
  obtain ⟨front, x, inner, y, rest, rfl, -, -, -, rfl, rfl⟩ := h
  simp only [List.length_append, List.length_cons]
  omega

/-- what stands between partners is balanced -/
theorem partners_at {front inner rest : List α} {x y : α} (hx : side x = some .opening) (hy : side y = some .closing) :
    Partners side (front ++ x :: (inner ++ y :: rest)) front.length (front.length + inner.length + 1) ↔
      Balanced side inner := by
  constructor
  · rintro ⟨front', x', inner', y', rest', heq, -, -, hinner, hi, hj⟩
    obtain ⟨rfl, hcons⟩ := List.append_inj heq hi.symm
    obtain ⟨-, hrest⟩ := List.cons_eq_cons.1 hcons
    obtain ⟨rfl, -⟩ := List.append_inj hrest (by omega)
    exact hinner
  · intro hinner
    exact ⟨front, x, inner, y, rest, rfl, hx, hy, hinner, rfl, rfl⟩

theorem lt_length_of_bind_side {i : Nat} {s : Side} (hi : l[i]?.bind side = some s) : i < l.length := by
  obtain ⟨x, hx, -⟩ := Option.bind_eq_some_iff.1 hi
  exact (List.getElem?_eq_some_iff.1 hx).1

/-- a closing bracket at the end is a stray one if nothing is open -/
theorem mem_strayClosings_append_singleton {j : Nat} : j ∈ strayClosings side (l ++ [z]) ↔
    j ∈ strayClosings side l ∨ j = l.length ∧ side z = some .closing ∧ (tally side l).opened = 0 := by
  simp only [strayClosings, Set.mem_ofPred_eq, bind_side_append_singleton, partners_append_singleton,
    opened_eq_zero_iff]
  constructor
  · rintro ⟨hclosing | ⟨rfl, hz⟩, hnone⟩
    · left
      refine ⟨hclosing, ?_⟩
      intro i hpartners
      exact hnone i (.inl hpartners)
    · right
      refine ⟨rfl, hz, ?_⟩
      intro i hinnermost
      exact hnone i (.inr ⟨rfl, hz, hinnermost⟩)
  · rintro (⟨hclosing, hnone⟩ | ⟨rfl, hz, hnone⟩)
    · refine ⟨.inl hclosing, ?_⟩
      rintro i (hpartners | ⟨rfl, -⟩)
      · exact hnone i hpartners
      · exact (lt_length_of_bind_side hclosing).ne rfl
    · refine ⟨.inr ⟨rfl, hz⟩, ?_⟩
      rintro i (hpartners | ⟨-, -, hinnermost⟩)
      · exact hpartners.lt_length.2.ne rfl
      · exact hnone i hinnermost

/-- whether a closing bracket is a stray one is settled by what stands in front of it -/
theorem mem_strayClosings_append {j : Nat} (hj : j < l.length) (rest : List α) :
    j ∈ strayClosings side (l ++ rest) ↔ j ∈ strayClosings side l := by
  induction rest using List.reverseRecOn with
  | nil => simp
  | append_singleton rest z ih =>
    have hend : j ≠ (l ++ rest).length := by
      rw [List.length_append]
      omega
    rw [← List.append_assoc, mem_strayClosings_append_singleton, ih]
    exact or_iff_left fun hlast => hend hlast.1

/-- a closing bracket at the end takes the innermost open bracket from the stray ones -/
theorem mem_strayOpenings_append_singleton {i : Nat} : i ∈ strayOpenings side (l ++ [z]) ↔
    i ∈ strayOpenings side l ∧ ¬(side z = some .closing ∧ Innermost side l i) ∨
      i = l.length ∧ side z = some .opening := by
  simp only [strayOpenings, Set.mem_ofPred_eq, bind_side_append_singleton, partners_append_singleton]
  constructor
  · rintro ⟨hopening | ⟨rfl, hz⟩, hnone⟩
    · left
      refine ⟨⟨hopening, ?_⟩, ?_⟩
      · intro j hpartners
        exact hnone j (.inl hpartners)
      · intro hend
        exact hnone l.length (.inr ⟨rfl, hend⟩)
    · exact .inr ⟨rfl, hz⟩
  · rintro (⟨⟨hopening, hnone⟩, hinnermost⟩ | ⟨rfl, hz⟩)
    · refine ⟨.inl hopening, ?_⟩
      rintro j (hpartners | ⟨-, hend⟩)
      · exact hnone j hpartners
      · exact hinnermost hend
    · refine ⟨.inr ⟨rfl, hz⟩, ?_⟩
      rintro j (hpartners | ⟨-, hclosing, -⟩)
      · exact hpartners.lt_length.1.ne rfl
      · rw [hz] at hclosing
        cases hclosing

theorem Innermost.mem_strayOpenings {i : Nat} (hi : Innermost side l i) : i ∈ strayOpenings side l := by
  refine ⟨?_, hi.not_partners⟩
  obtain ⟨front, x, inner, rfl, hx, -, rfl⟩ := hi
  simpa using hx

theorem finite_strayOpenings : (strayOpenings side l).Finite :=
  (Set.finite_lt_nat l.length).subset fun _ hi => lt_length_of_bind_side hi.1

theorem finite_strayClosings : (strayClosings side l).Finite :=
  (Set.finite_lt_nat l.length).subset fun _ hj => lt_length_of_bind_side hj.1

/-! ## The stray brackets are counted -/

theorem length_notMem_strayClosings : l.length ∉ strayClosings side l := fun hj => (lt_length_of_bind_side hj.1).ne rfl

theorem length_notMem_strayOpenings : l.length ∉ strayOpenings side l := fun hi => (lt_length_of_bind_side hi.1).ne rfl

/-- the closing brackets that close nothing are as many as were counted -/
theorem ncard_strayClosings (l : List α) : (strayClosings side l).ncard = (tally side l).strays := by
  induction l using List.reverseRecOn with
  | nil => simp [strayClosings]
  | append_singleton l z ih =>
    rw [tally_append_singleton, Tally.strays_step]
    by_cases hend : side z = some .closing ∧ (tally side l).opened = 0
    · have hset : strayClosings side (l ++ [z]) = insert l.length (strayClosings side l) := by
        ext j
        simp [mem_strayClosings_append_singleton, hend, or_comm]
      rw [hset, Set.ncard_insert_of_notMem length_notMem_strayClosings finite_strayClosings, ih, if_pos hend]
    · have hset : strayClosings side (l ++ [z]) = strayClosings side l := by
        ext j
        simp [mem_strayClosings_append_singleton, hend]
      rw [hset, ih, if_neg hend]

/-- the opening brackets that are never closed are as many as are open behind the row -/
theorem ncard_strayOpenings (l : List α) : (strayOpenings side l).ncard = (tally side l).opened := by
  induction l using List.reverseRecOn with
  | nil => simp [strayOpenings]
  | append_singleton l z ih =>
    rw [tally_append_singleton]
    cases hz : side z with
    | none =>
      have hset : strayOpenings side (l ++ [z]) = strayOpenings side l := by
        ext i
        simp [mem_strayOpenings_append_singleton, hz]
      rw [hset, ih, Tally.step_letter _ hz]
    | some s =>
      cases s with
      | opening =>
        have hset : strayOpenings side (l ++ [z]) = insert l.length (strayOpenings side l) := by
          ext i
          simp [mem_strayOpenings_append_singleton, hz, or_comm]
        rw [hset, Set.ncard_insert_of_notMem length_notMem_strayOpenings finite_strayOpenings, ih,
          Tally.step_opening _ hz]
      | closing =>
        rw [Tally.step_closing _ hz]
        by_cases hopened : (tally side l).opened = 0
        · have hset : strayOpenings side (l ++ [z]) = strayOpenings side l := by
            ext i
            simp [mem_strayOpenings_append_singleton, hz, opened_eq_zero_iff.1 hopened]
          rw [hset, ih, if_pos hopened, hopened]
        · obtain ⟨i, hi⟩ := not_forall_not.1 (mt opened_eq_zero_iff.2 hopened)
          have hset : strayOpenings side (l ++ [z]) = strayOpenings side l \ {i} := by
            ext j
            have hinnermost : Innermost side l j ↔ j = i :=
              ⟨fun hj => le_antisymm (hi.le hj) (hj.le hi), fun heq => heq ▸ hi⟩
            simp [mem_strayOpenings_append_singleton, hz, hinnermost]
          rw [hset, Set.ncard_sdiff_singleton_of_mem hi.mem_strayOpenings, ih, if_neg hopened]

/-- a row is balanced if no bracket is a stray one -/
theorem balanced_iff_no_strays :
    Balanced side l ↔ (strayClosings side l).ncard = 0 ∧ (strayOpenings side l).ncard = 0 := by
  rw [balanced_iff_tally, ncard_strayClosings, ncard_strayOpenings, Tally.ext_iff]
  exact and_comm

end

end HeaderModel.Brackets
