/-
Overloads in one scan.

The grouped order can also be found within one list of method numbers. A scan goes over the list; wherever it meets an
overload of the method at which it stands, it takes it out and puts it back in front of the overloads that it has
brought there before. `scannedOrder?` is this scan; it is none if the scan would ever look outside its list.
- `Scan.collect?_eq`: one round of the scan brings all overloads of a method together, the newest first.
- `Scan.goOn?_eq`: the rounds together group the names in the order in which they first occur.
- `groupedOrder_eq`: placing the methods one after the other groups them the same way.
- `overloads_grouped`: the scan ends inside its list with the grouped order, and what this order is.
-/
import HeaderModel.Proofs.MethodSlots

namespace HeaderModel

/-! ## The scan -/

/-- the numbers of the methods as moved so far, and the place at which a scan stands -/
structure Scan where
  order : List Nat
  place : Nat
  deriving DecidableEq, Repr

/-- the name of the method at a place -/
def nameAt? (names : List String) (order : List Nat) (k : Nat) : Option String := order[k]?.bind fun i => names[i]?

/-- where the run of methods of a name begins that ends before a place -/
def runStart? (names : List String) (order : List Nat) (name : String) : Nat → Option Nat
  | 0 => some 0
  | k + 1 => do
    let other ← nameAt? names order k
    if other = name then runStart? names order name k else return k + 1

/-- look at the method at a later place; an overload goes in front of those brought here before -/
def Scan.visit? (names : List String) (name : String) (s : Scan) (j : Nat) : Option Scan := do
  let other ← nameAt? names s.order j
  if other = name then
    let overload ← s.order[j]?
    let rest := s.order.eraseIdx j
    let k ← runStart? names rest name s.place
    return ⟨rest.insertIdx k overload, s.place + 1⟩
  else return s

/-- bring the overloads of the method at the place of the scan together -/
def Scan.collect? (names : List String) (s : Scan) : Option Scan := do
  let name ← nameAt? names s.order s.place
  (List.range' (s.place + 1) (s.order.length - (s.place + 1))).foldlM (Scan.visit? names name) s

/-! ## The scan ends -/

theorem runStart?_le {names : List String} {order : List Nat} {name : String} {place k : Nat}
    (hplace : place < order.length) (hk : runStart? names order name place = some k) : k ≤ order.length := by
  induction place with
  | zero =>
    obtain rfl := Option.some.inj hk
    exact Nat.zero_le _
  | succ place ih =>
    obtain ⟨other, -, hk⟩ := Option.bind_eq_some_iff.1 hk
    split_ifs at hk
    · exact ih (by omega) hk
    · obtain rfl := Option.some.inj hk
      omega

/-- a later method is looked at: the list keeps its length and the scan does not go back -/
theorem Scan.visit?_steady {names : List String} {name : String} {s s' : Scan} {j : Nat}
    (hs : s.visit? names name j = some s') (hj : s.place < j) :
    s'.order.length = s.order.length ∧ s.place ≤ s'.place ∧ s'.place ≤ s.place + 1 := by
  obtain ⟨other, -, hs⟩ := Option.bind_eq_some_iff.1 hs
  split_ifs at hs
  · obtain ⟨overload, hoverload, hs⟩ := Option.bind_eq_some_iff.1 hs
    obtain ⟨k, hk, hs⟩ := Option.bind_eq_some_iff.1 hs
    obtain rfl := Option.some.inj hs
    have hlt : j < s.order.length := (List.getElem?_eq_some_iff.1 hoverload).1
    have hrest : (s.order.eraseIdx j).length = s.order.length - 1 := List.length_eraseIdx_of_lt hlt
    have hle : k ≤ (s.order.eraseIdx j).length := runStart?_le (by omega) hk
    refine ⟨?_, Nat.le_succ _, le_rfl⟩
    rw [List.length_insertIdx_of_le_length hle]
    omega
  · obtain rfl := Option.some.inj hs
    exact ⟨rfl, le_rfl, Nat.le_succ _⟩

theorem Scan.visits_steady {names : List String} {name : String} {n : Nat} {s s' : Scan} {j : Nat} (hj : s.place < j)
    (hs : (List.range' j n).foldlM (Scan.visit? names name) s = some s') :
    s'.order.length = s.order.length ∧ s.place ≤ s'.place := by
  induction n generalizing s j with
  | zero =>
    obtain rfl := Option.some.inj hs
    exact ⟨rfl, le_rfl⟩
  | succ n ih =>
    rw [List.range'_succ, List.foldlM_cons] at hs
    obtain ⟨s₁, hs₁, hs⟩ := Option.bind_eq_some_iff.1 hs
    obtain ⟨hlength₁, hplace₁, hnext⟩ := visit?_steady hs₁ hj
    obtain ⟨hlength, hplace⟩ := ih (by omega) hs
    exact ⟨hlength.trans hlength₁, hplace₁.trans hplace⟩

/-- a round of the scan keeps the length of the list and does not go back -/
theorem Scan.collect?_steady {names : List String} {s s' : Scan} (hs : s.collect? names = some s') :
    s'.order.length = s.order.length ∧ s.place ≤ s'.place := by
  obtain ⟨name, -, hs⟩ := Option.bind_eq_some_iff.1 hs
  exact visits_steady (Nat.lt_succ_self _) hs

/-- go on with the scan: a round for the method at the place, and on to the next place behind its overloads -/
def Scan.goOn? (names : List String) (s : Scan) : Option (List Nat) :=
  if s.place < s.order.length then
    match hs : s.collect? names with
    | none => none
    | some s' => Scan.goOn? names ⟨s'.order, s'.place + 1⟩
  else some s.order
termination_by s.order.length - s.place
decreasing_by
  obtain ⟨hlength, hplace⟩ := Scan.collect?_steady hs
  simp only [hlength]
  omega

/-- the order that the scan leaves, starting from the order of declaration -/
def scannedOrder? (names : List String) : Option (List Nat) := Scan.goOn? names ⟨List.range names.length, 0⟩

/-! ## One round -/

section Rounds

variable {names : List String} {nameOf : Nat → String} {before group skipped after : List Nat} {name : String}

theorem nameAt?_append {l r : List Nat} {i : Nat} (hi : names[i]? = some name) :
    nameAt? names (l ++ i :: r) l.length = some name := by
  rw [nameAt?, List.getElem?_append_right le_rfl, Nat.sub_self]
  exact hi

/-- the run of a name goes back over the methods that have it, and no further -/
theorem runStart?_eq (hnames : ∀ i ∈ before ++ group, names[i]? = some (nameOf i))
    (hbefore : ∀ i ∈ before, nameOf i ≠ name) (hgroup : ∀ i ∈ group, nameOf i = name) (after : List Nat) :
    runStart? names (before ++ group ++ after) name (before ++ group).length = some before.length := by
  induction group using List.reverseRecOn generalizing after with
  | nil =>
    rw [List.append_nil] at hnames ⊢
    rcases before.eq_nil_or_concat with rfl | ⟨front, last, rfl⟩
    · rfl
    · rw [List.concat_eq_append] at hnames hbefore ⊢
      have hlast : last ∈ front ++ [last] := List.mem_append_right _ List.mem_cons_self
      rw [List.length_append, List.length_singleton, runStart?, List.append_assoc, List.singleton_append,
        nameAt?_append (hnames last hlast)]
      simp [hbefore last hlast]
  | append_singleton group last ih =>
    rw [← List.append_assoc] at hnames ⊢
    have hlast : nameOf last = name := hgroup last (by simp)
    have hrest := ih (fun i hi => hnames i (List.mem_append_left _ hi))
      (fun i hi => hgroup i (List.mem_append_left _ hi)) (last :: after)
    rw [List.length_append, List.length_singleton, runStart?, List.append_assoc, List.singleton_append,
      nameAt?_append (hnames last (by simp))]
    simpa [hlast] using hrest

/-- a method of another name stays where it is -/
theorem Scan.visit?_other {s : Scan} {l r : List Nat} {i : Nat} (horder : s.order = l ++ i :: r)
    (hi : names[i]? = some (nameOf i)) (hname : nameOf i ≠ name) : s.visit? names name l.length = some s := by
  rw [Scan.visit?, horder, nameAt?_append hi]
  simp [hname]

/-- something put in behind a list -/
theorem insertIdx_length_append {α : Type} (l r : List α) (a : α) : (l ++ r).insertIdx l.length a = l ++ a :: r := by
  induction l with
  | nil => rfl
  | cons b l ih => exact congrArg (b :: ·) ih

/-- an overload is moved to the front of its group -/
theorem Scan.visit?_overload {i x : Nat} (hnames : ∀ i ∈ before ++ group, names[i]? = some (nameOf i))
    (hbefore : ∀ i ∈ before, nameOf i ≠ name) (hgroup : ∀ i ∈ group, nameOf i = name)
    (hi : names[i]? = some name) :
    Scan.visit? names name ⟨before ++ group ++ x :: (skipped ++ i :: after), (before ++ group).length⟩
        (before ++ group ++ x :: skipped).length =
      some ⟨before ++ (i :: group) ++ x :: (skipped ++ after), (before ++ i :: group).length⟩ := by
  have horder : before ++ group ++ x :: (skipped ++ i :: after) = before ++ group ++ x :: skipped ++ i :: after := by
    rw [List.append_assoc (before ++ group), List.cons_append]
  have hmoved :
      (before ++ group ++ x :: skipped ++ i :: after)[(before ++ group ++ x :: skipped).length]? = some i := by
    rw [List.getElem?_append_right le_rfl, Nat.sub_self]
    rfl
  have hrest : (before ++ group ++ x :: skipped ++ i :: after).eraseIdx (before ++ group ++ x :: skipped).length =
      before ++ group ++ x :: (skipped ++ after) := by
    rw [List.eraseIdx_append_of_length_le le_rfl, Nat.sub_self, List.eraseIdx_cons_zero, List.append_assoc,
      List.cons_append]
  have hfront : (before ++ group ++ x :: (skipped ++ after)).insertIdx before.length i =
      before ++ (i :: group) ++ x :: (skipped ++ after) := by
    rw [List.append_assoc, insertIdx_length_append, List.append_assoc, List.cons_append]
  have hplace : (before ++ group).length + 1 = (before ++ i :: group).length := by
    simp only [List.length_append, List.length_cons]
    omega
  unfold Scan.visit?
  simp only [horder, nameAt?_append hi, hmoved, hrest, runStart?_eq hnames hbefore hgroup, hfront, hplace,
    Option.bind_eq_bind, Option.bind_some, if_true]
  rfl

/-- the rest of a round: the overloads that are still to come join the group, the newest first -/
theorem Scan.visits_eq {x : Nat} (hnames : ∀ i ∈ before ++ group ++ after, names[i]? = some (nameOf i))
    (hbefore : ∀ i ∈ before, nameOf i ≠ name) (hgroup : ∀ i ∈ group, nameOf i = name) :
    (List.range' (before ++ group ++ x :: skipped).length after.length).foldlM (Scan.visit? names name)
        ⟨before ++ group ++ x :: (skipped ++ after), (before ++ group).length⟩ =
      some ⟨before ++ ((after.filter (nameOf · = name)).reverse ++ group) ++
          x :: (skipped ++ after.filter (nameOf · ≠ name)),
        (before ++ ((after.filter (nameOf · = name)).reverse ++ group)).length⟩ := by
  induction after generalizing group skipped with
  | nil => simp
  | cons i after ih =>
    have hi : names[i]? = some (nameOf i) := hnames i (by simp)
    rw [List.length_cons, List.range'_succ, List.foldlM_cons]
    by_cases hname : nameOf i = name
    · rw [visit?_overload (fun k hk => hnames k (List.mem_append_left _ hk)) hbefore hgroup (hname ▸ hi)]
      have hrest := @ih (i :: group) skipped (fun k hk => hnames k ?_) ?_
      · have hlength :
            (before ++ i :: group ++ x :: skipped).length = (before ++ group ++ x :: skipped).length + 1 := by
          simp only [List.length_append, List.length_cons]
          omega
        rw [hlength] at hrest
        simpa [hname] using hrest
      · simp only [List.mem_append, List.mem_cons] at hk ⊢
        tauto
      · rintro k (_ | ⟨_, hk⟩)
        · exact hname
        · exact hgroup k hk
    · have horder :
          before ++ group ++ x :: (skipped ++ i :: after) = before ++ group ++ x :: skipped ++ i :: after := by
        rw [List.append_assoc (before ++ group), List.cons_append]
      rw [visit?_other horder hi hname]
      have hrest := @ih group (skipped ++ [i]) (fun k hk => hnames k ?_) hgroup
      · have hlength :
            (before ++ group ++ x :: (skipped ++ [i])).length = (before ++ group ++ x :: skipped).length + 1 := by
          simp only [List.length_append, List.length_cons, List.length_nil]
          omega
        rw [hlength] at hrest
        simpa [hname] using hrest
      · simp only [List.mem_append, List.mem_cons] at hk ⊢
        tauto

/-- **One round** brings all overloads of the method at the place of the scan together, the newest first. -/
theorem Scan.collect?_eq {x : Nat} (hnames : ∀ i ∈ before ++ x :: after, names[i]? = some (nameOf i))
    (hbefore : ∀ i ∈ before, nameOf i ≠ nameOf x) :
    Scan.collect? names ⟨before ++ x :: after, before.length⟩ =
      some ⟨before ++ (after.filter (nameOf · = nameOf x)).reverse ++ x :: after.filter (nameOf · ≠ nameOf x),
        (before ++ (after.filter (nameOf · = nameOf x)).reverse).length⟩ := by
  have hvisits := @Scan.visits_eq names nameOf before [] [] after (nameOf x) x
    (fun i hi => hnames i (by simp only [List.append_nil, List.mem_append, List.mem_cons] at hi ⊢; tauto)) hbefore
    (fun i hi => absurd hi List.not_mem_nil)
  have hlater : (before ++ x :: after).length - (before.length + 1) = after.length := by
    simp only [List.length_append, List.length_cons]
    omega
  unfold Scan.collect?
  simp only [nameAt?_append (hnames x (by simp)), hlater, Option.bind_eq_bind, Option.bind_some]
  simpa using hvisits

/-! ## The whole scan -/

/-- methods grouped by name: the names in the order in which they first occur, of each name the newest method first -/
def groupsOf (nameOf : Nat → String) (methods : List Nat) : List Nat :=
  (methods.map nameOf).eraseDups.flatMap fun name => (methods.filter (nameOf · = name)).reverse

/-- the first group is that of the first method; the others are those of the methods with other names -/
theorem groupsOf_cons (nameOf : Nat → String) (x : Nat) (methods : List Nat) :
    groupsOf nameOf (x :: methods) = (methods.filter (nameOf · = nameOf x)).reverse ++
      x :: groupsOf nameOf (methods.filter (nameOf · ≠ nameOf x)) := by
  have hnames : ((methods.map nameOf).filter fun name => !name == nameOf x) =
      (methods.filter (nameOf · ≠ nameOf x)).map nameOf := by
    rw [List.filter_map]
    congr 1
    refine List.filter_congr fun i _ => ?_
    by_cases hi : nameOf i = nameOf x <;> simp [hi]
  unfold groupsOf
  rw [List.map_cons, List.eraseDups_cons, List.flatMap_cons, List.filter_cons_of_pos (by simp), List.reverse_cons,
    List.append_assoc, List.singleton_append, hnames]
  refine congrArg (fun l => _ ++ x :: l) (List.flatMap_congr fun name hname => ?_)
  obtain ⟨i, hi, rfl⟩ := List.mem_map.1 (List.mem_eraseDups.1 hname)
  have hne : nameOf i ≠ nameOf x := by simpa using (List.mem_filter.1 hi).2
  rw [List.filter_cons_of_neg (by simpa using hne.symm), List.filter_filter]
  refine congrArg List.reverse (List.filter_congr fun j _ => ?_)
  by_cases hj : nameOf j = nameOf i
  · simp [hj, hne]
  · simp [hj]

theorem Scan.goOn?_of_collect {s s' : Scan} (hlt : s.place < s.order.length) (hs : s.collect? names = some s') :
    s.goOn? names = Scan.goOn? names ⟨s'.order, s'.place + 1⟩ := by
  rw [Scan.goOn?, if_pos hlt]
  split
  · next hnone =>
    rw [hs] at hnone
    cases hnone
  · next s'' hsome =>
    obtain rfl := Option.some.inj (hs.symm.trans hsome)
    rfl

/-- **The rounds together** group the methods by name. -/
theorem Scan.goOn?_eq (hnames : ∀ i ∈ before ++ after, names[i]? = some (nameOf i))
    (hapart : ∀ i ∈ before, ∀ j ∈ after, nameOf i ≠ nameOf j) :
    Scan.goOn? names ⟨before ++ after, before.length⟩ = some (before ++ groupsOf nameOf after) := by
  induction hn : after.length using Nat.strong_induction_on generalizing before after with
  | _ n ih =>
    subst hn
    cases after with
    | nil =>
      unfold Scan.goOn?
      simp [groupsOf]
    | cons x after =>
      have hround := Scan.collect?_eq hnames fun i hi => hapart i hi x List.mem_cons_self
      rw [Scan.goOn?_of_collect (by simp) hround, groupsOf_cons]
      -- the methods of this name are done; the others are fewer, and have other names
      have hdone : ∀ i ∈ before ++ (after.filter (nameOf · = nameOf x)).reverse ++ [x],
          i ∈ before ∨ i ∈ x :: after ∧ nameOf i = nameOf x := by
        intro i hi
        simp only [List.mem_append, List.mem_reverse, List.mem_filter, decide_eq_true_eq, List.mem_singleton] at hi
        rcases hi with (hi | ⟨hi, hname⟩) | rfl
        · exact .inl hi
        · exact .inr ⟨List.mem_cons_of_mem x hi, hname⟩
        · exact .inr ⟨List.mem_cons_self, rfl⟩
      have hother : ∀ i ∈ after.filter (nameOf · ≠ nameOf x), i ∈ after ∧ nameOf i ≠ nameOf x := by
        intro i hi
        simpa using hi
      have hfewer : (after.filter (nameOf · ≠ nameOf x)).length < (x :: after).length :=
        Nat.lt_succ_of_le (List.length_filter_le ..)
      have hrest := @ih _ hfewer (before ++ (after.filter (nameOf · = nameOf x)).reverse ++ [x])
        (after.filter (nameOf · ≠ nameOf x)) (fun i hi => hnames i ?_) (fun i hi j hj => ?_) rfl
      · simpa [List.append_assoc, Nat.add_assoc] using hrest
      · rcases List.mem_append.1 hi with hi | hi
        · exact (hdone i hi).elim (List.mem_append_left _) fun h => List.mem_append_right _ h.1
        · exact List.mem_append_right _ (List.mem_cons_of_mem x (hother i hi).1)
      · obtain ⟨hj, hname⟩ := hother j hj
        rcases hdone i hi with hi | ⟨-, hi⟩
        · exact hapart i hi j (List.mem_cons_of_mem x hj)
        · rw [hi]
          exact hname.symm

end Rounds

/-! ## The order -/

/-- the methods of a name by number, the newest first -/
def overloads (names : List String) (name : String) : List Nat :=
  ((List.range names.length).filter fun i => names[i]? = some name).reverse

/-- whether no other method has the name of a method -/
def isAlone (names : List String) (i : Nat) : Bool := names[i]?.any fun name => names.count name = 1

/-- the scan finds the groups of all names -/
theorem scannedOrder?_eq (names : List String) :
    scannedOrder? names = some (names.eraseDups.flatMap (overloads names)) := by
  have hnames : ∀ i ∈ List.range names.length, names[i]? = some (names.getD i "") := by
    intro i hi
    rw [List.getD_eq_getElem?_getD, List.getElem?_eq_getElem (List.mem_range.1 hi)]
    rfl
  have hscan := @Scan.goOn?_eq names (fun i => names.getD i "") [] (List.range names.length)
    hnames fun i hi => absurd hi List.not_mem_nil
  have hall : (List.range names.length).map (fun i => names.getD i "") = names := by
    refine List.ext_getElem (by simp) fun k hk hk' => ?_
    simp [hk']
  rw [List.nil_append, List.nil_append] at hscan
  rw [scannedOrder?]
  refine hscan.trans ?_
  unfold groupsOf overloads
  rw [hall]
  refine congrArg some (List.flatMap_congr fun name _ => congrArg List.reverse (List.filter_congr fun i hi => ?_))
  simp only [hnames i hi, Option.some_inj]

/-- one more method joins the methods of its name -/
theorem overloads_append (names : List String) (name name' : String) :
    overloads (names ++ [name]) name' =
      if name = name' then names.length :: overloads names name' else overloads names name' := by
  have hold : (List.range names.length).filter (fun i => (names ++ [name])[i]? = some name') =
      (List.range names.length).filter fun i => names[i]? = some name' := by
    refine List.filter_congr fun i hi => ?_
    rw [List.getElem?_append_left (List.mem_range.1 hi)]
  have hnew : (names ++ [name])[names.length]? = some name := by
    rw [List.getElem?_append_right le_rfl, Nat.sub_self]
    rfl
  unfold overloads
  rw [List.length_append, List.length_singleton, List.range_succ, List.filter_append, hold, List.filter_cons, hnew]
  split_ifs with h h' h'
  · simp
  · exact absurd (by simpa using h) h'
  · exact absurd (by simpa using h') h
  · simp

theorem mem_overloads {names : List String} {name : String} {i : Nat} :
    i ∈ overloads names name ↔ names[i]? = some name := by
  simp only [overloads, List.mem_reverse, List.mem_filter, List.mem_range, decide_eq_true_eq]
  exact and_iff_right_of_imp fun hi => (List.getElem?_eq_some_iff.1 hi).1

/-- a name that occurs has a newest method -/
theorem overloads_ne_nil {names : List String} {name : String} (hname : name ∈ names) : overloads names name ≠ [] := by
  obtain ⟨i, hi⟩ := List.mem_iff_getElem?.1 hname
  exact List.ne_nil_of_mem (mem_overloads.2 hi)

theorem eraseDups_append_singleton (names : List String) (name : String) :
    (names ++ [name]).eraseDups = names.eraseDups ++ if name ∈ names then [] else [name] := by
  rw [List.eraseDups_append]
  by_cases hname : name ∈ names
  · simp [List.removeAll, hname]
  · simp [List.removeAll, hname, List.eraseDups_cons]

/-- the names stand in the order in which they first occur -/
theorem eraseDups_inOrder (names : List String) :
    names.eraseDups.Pairwise fun name name' => names.idxOf name < names.idxOf name' := by
  induction names using List.reverseRecOn with
  | nil => exact .nil
  | append_singleton names name ih =>
    have hold : (names.eraseDups).Pairwise fun a b => (names ++ [name]).idxOf a < (names ++ [name]).idxOf b := by
      refine ih.imp_of_mem fun {a b} ha hb hab => ?_
      rwa [List.idxOf_append_of_mem (List.mem_eraseDups.1 ha), List.idxOf_append_of_mem (List.mem_eraseDups.1 hb)]
    rw [eraseDups_append_singleton]
    split_ifs with hname
    · rwa [List.append_nil]
    · refine List.pairwise_append.2 ⟨hold, List.pairwise_singleton .., fun a ha b hb => ?_⟩
      obtain rfl := List.mem_singleton.1 hb
      rw [List.idxOf_append_of_mem (List.mem_eraseDups.1 ha), List.idxOf_append_of_notMem hname]
      have hlt := List.idxOf_lt_length_iff.2 (List.mem_eraseDups.1 ha)
      omega

theorem nodup_eraseDups (names : List String) : names.eraseDups.Nodup :=
  (eraseDups_inOrder names).imp fun h heq => absurd h (by rw [heq]; exact Nat.lt_irrefl _)

theorem placeMethod_append {m : Nat × String} {front : List (Nat × String)} (hfront : ∀ a ∈ front, a.2 ≠ m.2)
    {rest : List (Nat × String)} (hrest : ∀ a ∈ rest.head?, a.2 = m.2) :
    placeMethod m (front ++ rest) = front ++ m :: rest := by
  induction front with
  | nil =>
    cases rest with
    | nil => rfl
    | cons a rest => exact if_pos (hrest a rfl)
  | cons a front ih =>
    rw [List.cons_append, placeMethod, if_neg (hfront a List.mem_cons_self),
      ih fun b hb => hfront b (List.mem_cons_of_mem a hb), List.cons_append]

/-- placing the methods one after the other makes the groups of all names -/
theorem groupedMethods_eq (names : List String) :
    groupedMethods names = names.eraseDups.flatMap fun name => (overloads names name).map fun i => (i, name) := by
  induction names using List.reverseRecOn with
  | nil => rfl
  | append_singleton names name ih =>
    have hplace : groupedMethods (names ++ [name]) = placeMethod (names.length, name) (groupedMethods names) := by
      simp [groupedMethods, List.zipIdx_append]
    -- the groups of other names are as before
    have hkept : ∀ l : List String, name ∉ l →
        (l.flatMap fun name' => (overloads (names ++ [name]) name').map fun i => (i, name')) =
          l.flatMap fun name' => (overloads names name').map fun i => (i, name') := by
      intro l hl
      refine List.flatMap_congr fun name' hname' => ?_
      rw [overloads_append, if_neg fun h : name = name' => hl (h ▸ hname')]
    have hapart : ∀ l : List String, name ∉ l →
        ∀ a ∈ l.flatMap fun name' => (overloads names name').map fun i => (i, name'), a.2 ≠ name := by
      rintro l hl a ha rfl
      obtain ⟨name', hname', ha⟩ := List.mem_flatMap.1 ha
      obtain ⟨i, -, rfl⟩ := List.mem_map.1 ha
      exact hl hname'
    rw [hplace, ih, eraseDups_append_singleton]
    by_cases hname : name ∈ names
    · obtain ⟨front, back, hsplit⟩ := List.append_of_mem (List.mem_eraseDups.2 hname)
      have hnodup := nodup_eraseDups names
      rw [hsplit, List.nodup_append', List.nodup_cons] at hnodup
      obtain ⟨-, ⟨hback, -⟩, hfront⟩ := hnodup
      have hfront : name ∉ front := fun h => hfront h List.mem_cons_self
      rw [if_pos hname, List.append_nil, hsplit, List.flatMap_append, List.flatMap_append, List.flatMap_cons,
        List.flatMap_cons, hkept front hfront, hkept back hback, overloads_append, if_pos rfl, List.map_cons,
        List.cons_append]
      refine placeMethod_append (hapart front hfront) fun a ha => ?_
      obtain ⟨i, group, hgroup⟩ := List.exists_cons_of_ne_nil (overloads_ne_nil hname)
      rw [hgroup] at ha
      obtain rfl := Option.some.inj ha
      rfl
    · have hnew : name ∉ names.eraseDups := fun h => hname (List.mem_eraseDups.1 h)
      have hnone : overloads names name = [] :=
        List.eq_nil_iff_forall_not_mem.2 fun i hi => hname (List.mem_of_getElem? (mem_overloads.1 hi))
      have hend := @placeMethod_append (names.length, name) _ (hapart _ hnew) []
        fun a ha => absurd ha (by simp)
      rw [List.append_nil] at hend
      rw [if_neg hname, List.flatMap_append, hkept _ hnew, hend, List.flatMap_singleton, overloads_append, if_pos rfl,
        hnone]
      rfl

theorem groupedOrder_eq (names : List String) : groupedOrder names = names.eraseDups.flatMap (overloads names) := by
  rw [groupedOrder, groupedMethods_eq, List.map_flatMap]
  refine List.flatMap_congr fun name _ => ?_
  rw [List.map_map]
  exact List.map_id _

theorem overloads_newestFirst (names : List String) (name : String) : (overloads names name).Pairwise (· > ·) :=
  List.pairwise_reverse.2 ((List.sortedLT_range _).pairwise.filter _)

theorem length_overloads (names : List String) (name : String) :
    (overloads names name).length = names.count name := by
  induction names using List.reverseRecOn with
  | nil => rfl
  | append_singleton names other ih =>
    rw [overloads_append, List.count_append]
    by_cases h : other = name
    · simp [h, ih]
    · simp [h, ih]

/-- a method that is alone stands where its name first occurs -/
theorem eq_idxOf_of_isAlone {names : List String} {name : String} {i : Nat} (hi : i ∈ overloads names name)
    (halone : isAlone names i = true) : i = names.idxOf name := by
  have hget : names[i]? = some name := mem_overloads.1 hi
  have hfirst : names.idxOf name ∈ overloads names name := by
    have hlt := List.idxOf_lt_length_iff.2 (List.mem_of_getElem? hget)
    rw [mem_overloads, List.getElem?_eq_getElem hlt, List.getElem_idxOf]
  have hone : (overloads names name).length = 1 := by
    rw [length_overloads]
    simpa [isAlone, hget] using halone
  obtain ⟨j, hj⟩ := List.length_eq_one_iff.1 hone
  rw [hj, List.mem_singleton] at hi hfirst
  exact hi.trans hfirst.symm

/-- the methods without overloads stay in the order in which they are declared -/
theorem alone_inOrder (names : List String) : ((groupedOrder names).filter (isAlone names)).Pairwise (· < ·) := by
  rw [groupedOrder_eq, List.filter_flatMap, List.pairwise_flatMap]
  refine ⟨fun name _ => ?_, (eraseDups_inOrder names).imp fun {name name'} hlt i hi j hj => ?_⟩
  · refine ((overloads_newestFirst names name).filter _).imp_of_mem fun {i j} hi hj hgt => ?_
    obtain ⟨hi, hi'⟩ := List.mem_filter.1 hi
    obtain ⟨hj, hj'⟩ := List.mem_filter.1 hj
    exact absurd hgt (by rw [eq_idxOf_of_isAlone hi hi', eq_idxOf_of_isAlone hj hj']; exact Nat.lt_irrefl _)
  · obtain ⟨hi, hi'⟩ := List.mem_filter.1 hi
    obtain ⟨hj, hj'⟩ := List.mem_filter.1 hj
    rwa [eq_idxOf_of_isAlone hi hi', eq_idxOf_of_isAlone hj hj']

/-- the overloads of a name stand together, and none of them elsewhere -/
theorem overloads_together {names : List String} {name : String} (hname : name ∈ names) :
    ∃ before after, groupedOrder names = before ++ overloads names name ++ after ∧
      ∀ i, i ∈ before ∨ i ∈ after → names[i]? ≠ some name := by
  obtain ⟨front, back, hsplit⟩ := List.append_of_mem (List.mem_eraseDups.2 hname)
  have hnodup := nodup_eraseDups names
  rw [hsplit, List.nodup_append', List.nodup_cons] at hnodup
  obtain ⟨-, ⟨hback, -⟩, hfront⟩ := hnodup
  have hothers : ∀ l : List String, name ∉ l → ∀ i ∈ l.flatMap (overloads names), names[i]? ≠ some name := by
    intro l hl i hi heq
    obtain ⟨other, hother, hi⟩ := List.mem_flatMap.1 hi
    obtain rfl := Option.some.inj ((mem_overloads.1 hi).symm.trans heq)
    exact hl hother
  refine ⟨front.flatMap (overloads names), back.flatMap (overloads names), ?_, fun i hi => hi.elim ?_ ?_⟩
  · rw [groupedOrder_eq, hsplit, List.flatMap_append, List.flatMap_cons, List.append_assoc]
  · exact hothers front (fun h => hfront h List.mem_cons_self) i
  · exact hothers back hback i

/-- **Overloads are grouped.** The scan ends, never looks outside its list, and leaves the grouped order. This order
lists the names as they first occur, of each name all its methods, the newest first. So it has every method once; the
methods of a name stand together, each behind the newer ones; and methods without overloads keep their order. -/
theorem overloads_grouped (names : List String) :
    scannedOrder? names = some (groupedOrder names) ∧
    groupedOrder names = names.eraseDups.flatMap (overloads names) ∧
    (names.eraseDups.Pairwise fun name name' => names.idxOf name < names.idxOf name') ∧
    (∀ name i, i ∈ overloads names name ↔ names[i]? = some name) ∧
    (groupedOrder names).Perm (List.range names.length) ∧
    (∀ name ∈ names, (overloads names name).Pairwise (· > ·) ∧
      ∃ before after, groupedOrder names = before ++ overloads names name ++ after ∧
        ∀ i, i ∈ before ∨ i ∈ after → names[i]? ≠ some name) ∧
    ((groupedOrder names).filter (isAlone names)).Pairwise (· < ·) := by
  have hscan : scannedOrder? names = some (groupedOrder names) := by rw [scannedOrder?_eq, groupedOrder_eq]
  exact ⟨hscan, groupedOrder_eq names, eraseDups_inOrder names, fun _ _ => mem_overloads, groupedOrder_perm names,
    fun name hname => ⟨overloads_newestFirst names name, overloads_together hname⟩, alone_inOrder names⟩

example : groupedOrder ["GetDesc", "Map", "GetDesc", "Unmap", "Map"] = [2, 0, 4, 1, 3] := by decide

end HeaderModel
