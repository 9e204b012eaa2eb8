/-
How often an aggregate is declared.

A nested aggregate is declared once for every named member that has it as its type, so two named members of one nested
type declare it twice (`shared_member_declared_twice`).
- `declared_once_iff`: this is the only way, but for namespaces that serve as bases. A module that is built from nothing
  declares every aggregate at most once if and only if no owner whose nested aggregates it declares has two named
  members of one nested type.
-/
import HeaderModel.Proofs.Declarations

namespace HeaderModel

section Accounts

variable {h : Headers}

theorem declaring_sublist (h : Headers) (taken : List NodeId) : (h.declaring taken).Sublist taken := List.filter_sublist

/-- owners declare every aggregate at most once if each of them does, and none is taken as well -/
theorem nodup_declared_iff (hd : h.document.Indexed) {owners : List NodeId} (howners : owners.Nodup)
    (hplaced : ∀ k ∈ owners, h.document.Placed k) :
    (h.declaring h.taken ++ h.document.siblingsOf owners).Nodup ↔
      ∀ k ∈ owners, (h.document.siblings (h.document.node k)).Nodup ∧
        ((h.document.node k).kind = .namespaceScope →
          ∀ j ∈ h.document.siblings (h.document.node k), j ∉ h.declaring h.taken) := by
  have htaken : (h.declaring h.taken).Nodup :=
    hd.nodup.sublist ((declaring_sublist h h.taken).trans h.taken_sublist)
  constructor
  · intro hnodup k hk
    obtain ⟨-, hsiblings, hdisjoint⟩ := List.nodup_append'.1 hnodup
    refine ⟨(List.nodup_flatMap.1 hsiblings).1 k hk, fun _ j hj hdeclared => ?_⟩
    exact hdisjoint hdeclared (List.mem_flatMap.2 ⟨k, hk, hj⟩)
  · intro hall
    refine List.nodup_append'.2 ⟨htaken, List.nodup_flatMap.2 ⟨fun k hk => (hall k hk).1, ?_⟩, fun j hj hj' => ?_⟩
    · refine howners.imp_of_mem fun {k l} hk hl hkl j hjk hjl => hkl ?_
      exact hd.owner_unique (hplaced k hk) (hplaced l hl) (Document.isNestedIn_of_mem_siblings hjk)
        (Document.isNestedIn_of_mem_siblings hjl)
    · obtain ⟨k, hk, hjk⟩ := List.mem_flatMap.1 hj'
      have hkind := kind_of_mem_taken hd (hplaced k hk) (Document.isNestedIn_of_mem_siblings hjk)
        ((declaring_sublist h h.taken).subset hj)
      exact (hall k hk).2 hkind j hjk hj

end Accounts

/-- **When every aggregate is declared at most once.** A module that is built from nothing declares the taken elements
that can be built as aggregates, and the nested aggregates of owners that were built, one for each named member. So it
declares every aggregate at most once exactly if no such owner has two named members of one nested type, and none that
is a namespace has a member whose type is declared from a file too. -/
theorem declared_once_iff (h : Headers) (name : String) (M : Module) (hd : h.document.Loaded)
    (hM : (h.model (.empty name)).1 = .ok M) :
    ∃ owners : List NodeId, owners.Nodup ∧
      (∀ k ∈ owners, (((Builder.new (.empty name)).run (Build.allFiles h)).2.aggregates.lookup k).isSome) ∧
      M.aggregateOrigins.Perm (h.declaring h.taken ++ h.document.siblingsOf owners) ∧
      (M.aggregateOrigins.Nodup ↔
        ∀ k ∈ owners, (h.document.siblings (h.document.node k)).Nodup ∧
          ((h.document.node k).kind = .namespaceScope →
            ∀ j ∈ h.document.siblings (h.document.node k), j ∉ h.declaring h.taken)) := by
  unfold Headers.model at hM
  have hpages := allFiles_pages hd.indexed (settled_new h (.empty name))
  generalize (Builder.new (.empty name)).run (Build.allFiles h) = p at hM hpages ⊢
  obtain ⟨e | _, c⟩ := p
  · cases hM
  · cases hM
    obtain ⟨owners, hpages⟩ := hpages rfl
    have horigins : c.module.aggregateOrigins.Perm (h.declaring h.taken ++ h.document.siblingsOf owners) := by
      have hperm := hpages.entries.filterMap (·.origin)
      have hnone : (Builder.new (.empty name)).module.aggregateEntries = [] := rfl
      rwa [hnone, List.nil_append, filterMap_origin_recordOf] at hperm
    refine ⟨owners, hpages.owned.nodup, fun k hk => (hpages.owned.built k hk).2.1, horigins, ?_⟩
    rw [horigins.nodup_iff]
    exact nodup_declared_iff hd.indexed hpages.owned.nodup fun k hk => (hpages.owned.built k hk).2.2

/-! ## A nested type with two members -/

/-- an aggregate in a file `a.h` with two members `a` and `b` whose type is nested in it -/
def sharedMemberReading : Markup.Reading :=
  ⟨[.opens "CastXML" (some []) false,
    .opens "Namespace" (some [("id", "n")]) true,
    .opens "Struct" (some [("id", "o"), ("name", "OUTER"), ("context", "n"), ("file", "f")]) true,
    .opens "Field" (some [("id", "m1"), ("name", "a"), ("type", "i"), ("context", "o")]) true,
    .opens "Field" (some [("id", "m2"), ("name", "b"), ("type", "i"), ("context", "o")]) true,
    .opens "Struct" (some [("id", "i"), ("name", "In"), ("context", "o")]) true,
    .opens "File" (some [("id", "f"), ("name", "a.h")]) true,
    .closes], false⟩

/-- its document, with the file in scope -/
def sharedMemberHeaders : Headers :=
  ⟨((Document.ofReading sharedMemberReading).toOption).getD (.ofRoot "" []), Scope.empty.addUnit "a" true []⟩

theorem sharedMember_loaded : sharedMemberHeaders.document.Loaded :=
  .read (r := sharedMemberReading) (by decide +kernel)

theorem sharedMember_model :
    ∃ M, (sharedMemberHeaders.model (.empty "M")).1 = .ok M ∧ M.aggregateOrigins = [4, 4, 1] :=
  exists_ok_of_computed (f := Module.aggregateOrigins) (by decide +kernel)

/-- the nested aggregate is declared twice: once for each of the two members -/
theorem shared_member_declared_twice :
    ∃ M, sharedMemberHeaders.document.Loaded ∧ (sharedMemberHeaders.model (.empty "M")).1 = .ok M ∧
      M.aggregateOrigins = [4, 4, 1] ∧ ¬M.aggregateOrigins.Nodup := by
  obtain ⟨M, hM, horigins⟩ := sharedMember_model
  refine ⟨M, sharedMember_loaded, hM, horigins, ?_⟩
  rw [horigins]
  decide

/-- so an owner that was built has two members of one nested type, or is a namespace -/
theorem shared_member_owner :
    ∃ (M : Module) (owners : List NodeId), (sharedMemberHeaders.model (.empty "M")).1 = .ok M ∧
      ¬∀ k ∈ owners, (sharedMemberHeaders.document.siblings (sharedMemberHeaders.document.node k)).Nodup ∧
        ((sharedMemberHeaders.document.node k).kind = .namespaceScope →
          ∀ j ∈ sharedMemberHeaders.document.siblings (sharedMemberHeaders.document.node k),
            j ∉ sharedMemberHeaders.declaring sharedMemberHeaders.taken) := by
  obtain ⟨M, hM, horigins⟩ := sharedMember_model
  obtain ⟨owners, -, -, -, hiff⟩ := declared_once_iff sharedMemberHeaders "M" M sharedMember_loaded hM
  refine ⟨M, owners, hM, fun hall => ?_⟩
  have hnodup := hiff.2 hall
  rw [horigins] at hnodup
  exact absurd hnodup (by decide)

end HeaderModel
