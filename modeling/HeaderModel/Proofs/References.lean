/-
References and the names of declarations.

A type use refers to an aggregate or an enumeration if the chain of its site leads there. The use bears the name that
the element has in the document, but a declaration may be called otherwise: a nested aggregate after its owner, an
enumeration without a name by a number. Only a named member whose type is nested in its owner is called after the
declaration; behind a pointer, in a parameter or in another aggregate the name of the element stays
(`pointer_keeps_raw_name`).
- `Refers.agrees_iff`: when one reference has the name of the declaration to which it refers.
- `names_agree_iff`: what all type uses of a module are called, and when all of them agree with the declarations.
-/
import HeaderModel.Proofs.TypeSites

namespace HeaderModel

/-! ## References -/

/-- a declaration of a type -/
def Declaration.isType : Declaration → Bool
  | .aggregate _ | .interface _ | .enumeration _ => true
  | _ => false

namespace Headers

/-- a declaration of the module uses a type at a site of its element -/
def Uses (h : Headers) (M : Module) (t : TypeUse) (site : TypeSite) : Prop :=
  ∃ e ∈ M.entries, ∃ i sites, e.origin = some i ∧ h.document.SitesOf i e.decl sites ∧
    (t, site) ∈ e.decl.typeUses.zip sites

/-- a type use of the module refers to an element that the module declares as a type -/
structure Refers (h : Headers) (M : Module) (t : TypeUse) (site : TypeSite) (E : NodeId) (e : Entry) : Prop where
  used : h.Uses M t site
  points : h.Points site E
  declared : e ∈ M.entries
  origin : e.origin = some E
  isType : e.decl.isType = true

/-- references have the names of the declarations to which they refer -/
def NamesAgree (h : Headers) (M : Module) : Prop := ∀ t site E e, h.Refers M t site E e → t.name = e.decl.name

/-- What a type use is called if the chain of its site leads to an aggregate or an enumeration: a named member with a
nested type is called as the module declares the nested aggregate, and any other use by the name of the element. -/
structure Called (h : Headers) (M : Module) (t : TypeUse) (site : TypeSite) : Prop where
  nested : ∀ E a, h.document.NamesNested site E → ⟨some E, .aggregate a⟩ ∈ M.entries → t.name = a.name
  own : ∀ E, h.Points site E → ¬h.document.NamesNested site E → t.name = (h.document.node E).name

end Headers

/-! ## Declarations of a whole build -/

/-- what a later builder declares beyond an earlier one belongs to elements -/
structure Builder.Tells (h : Headers) (b c : Builder) : Prop where
  within : b.Within c
  said : ∀ e ∈ c.module.entries, e ∈ b.module.entries ∨ ∃ i, e.origin = some i ∧ h.Says c i e.decl

theorem Builder.Tells.trans {h : Headers} {b c d : Builder} (hbc : Tells h b c) (hcd : Tells h c d) : Tells h b d := by
  refine ⟨hbc.within.trans hcd.within, fun e he => ?_⟩
  rcases hcd.said e he with he | hsaid
  · exact (hbc.said e he).imp_right fun ⟨i, hi, hs⟩ => ⟨i, hi, hs.mono hcd.within⟩
  · exact .inr hsaid

theorem accounts_tells {h : Headers} (hd : h.document.Indexed) : Accounts h fun b c _ => Builder.Tells h b c := by
  refine ⟨fun b c _ hbc _ hopened => ⟨hbc.within, fun e he => .inl ?_⟩, fun b c d _ _ => .trans, ?_⟩
  · rwa [Module.entries_eq_located, hopened.located, ← Module.entries_eq_located] at he
  · intro slot unit i c hi hc hreads
    obtain ⟨owners, hturn⟩ := take_turn hd (Headers.placed_of_mem_visits hd hi) hc hreads.1 unit
    exact ⟨hturn.within, fun e he => hturn.said_entries hreads.reads he⟩

/-- all that a module declares belongs to elements -/
def Builder.AllSaid (h : Headers) (c : Builder) : Prop :=
  ∀ e ∈ c.module.entries, ∃ i, e.origin = some i ∧ h.Says c i e.decl

/-! ## Names -/

section Names

variable {h : Headers} {c : Builder} {t : TypeUse} {site : TypeSite} {E : NodeId} {e : Entry}

/-- what belongs to a declaration of an element -/
theorem Builder.AllSaid.said (hsaid : c.AllSaid h) (he : e ∈ c.module.entries) (hE : e.origin = some E) :
    h.Says c E e.decl := by
  obtain ⟨i, hi, hs⟩ := hsaid e he
  obtain rfl := Option.some.inj (hE.symm.trans hi)
  exact hs

theorem Headers.Typed.called (hsaid : c.AllSaid h) (ht : h.Typed c.aggregates t site) : h.Called c.module t site := by
  refine ⟨fun E a hnested hdeclared => ?_, fun E => ht.name_of_points⟩
  obtain ⟨a', ha', hname⟩ := ht.name_of_namesNested hnested
  have ha : c.aggregates.lookup E = some a := hsaid.said hdeclared rfl
  rw [hname, Option.some.inj (ha'.symm.trans ha)]

/-- every type use is called as its site says -/
theorem called_of_uses (hc : Settled h c) (hsaid : c.AllSaid h) (ht : h.Uses c.module t site) :
    h.Called c.module t site := by
  obtain ⟨e, he, i, sites, hi, hsites, hmem⟩ := ht
  obtain ⟨sites', hsites', htyped⟩ := said_typed hc (hsaid.said he hi)
  obtain rfl := hsites.unique hsites'
  exact (List.forall₂_zip htyped hmem).called hsaid

/-- a nested element that is declared as a type, but not as an aggregate, keeps its name -/
theorem name_of_not_isAggregate (hc : Settled h c) (hs : h.Says c E e.decl) (hisType : e.decl.isType = true)
    (hkind : (h.document.node E).kind.isAggregate = true) (hnot : e.isAggregate = false) :
    e.decl.name = (h.document.node E).name := by
  obtain ⟨origin, decl⟩ := e
  cases decl with
  | aggregate a => cases hnot
  | interface a => exact interface_name hc hs
  | enumeration en =>
    rw [hs.1] at hkind
    cases hkind
  | _ => cases hisType

/-- **When one reference agrees.** A named member whose type is nested in its owner has the name under which the
aggregate is declared; if the element is declared as an interface instead, the member has to use the element's name.
Any other reference agrees exactly if the declaration has the name of the element. -/
theorem Headers.Refers.agrees_iff (hr : h.Refers c.module t site E e) (hc : Settled h c) (hsaid : c.AllSaid h) :
    t.name = e.decl.name ↔
      (¬h.document.NamesNested site E → e.decl.name = (h.document.node E).name) ∧
        (h.document.NamesNested site E → e.isAggregate = true ∨ t.name = (h.document.node E).name) := by
  have hcalled := called_of_uses hc hsaid hr.used
  by_cases hnested : h.document.NamesNested site E
  · -- what the member is called was built for the element, and only an aggregate is declared as it was built
    simp only [hnested, not_true_eq_false, false_implies, true_and, true_implies]
    cases haggregate : e.isAggregate with
    | true =>
      obtain ⟨origin, decl⟩ := e
      obtain rfl : origin = some E := hr.origin
      cases decl with
      | aggregate a => exact ⟨fun _ => .inl rfl, fun _ => hcalled.nested E a hnested hr.declared⟩
      | _ => cases haggregate
    | false =>
      have hname := name_of_not_isAggregate hc (hsaid.said hr.declared hr.origin) hr.isType hnested.isAggregate
        haggregate
      rw [hname]
      simp only [Bool.false_eq_true, false_or]
  · simp only [hnested, not_false_eq_true, true_implies, false_implies, and_true]
    rw [hcalled.own E hr.points hnested]
    exact eq_comm

end Names

/-- **References and declarations.** Everything that a module built from nothing declares belongs to an element and
uses one type for each of its sites; where the chain of the site leads to an aggregate or an enumeration, the use is
called as `Headers.Called` says. So all references have the names of the declarations to which they refer exactly if
every one of them is a named member with the declared aggregate nested in its owner, or refers to a declaration with the
name of its element. -/
theorem names_agree_iff (h : Headers) (name : String) (M : Module) (hd : h.document.Loaded)
    (hM : (h.model (.empty name)).1 = .ok M) :
    (∀ e ∈ M.entries, ∃ i sites, e.origin = some i ∧ h.document.SitesOf i e.decl sites ∧
      List.Forall₂ (h.Called M) e.decl.typeUses sites) ∧
    (h.NamesAgree M ↔ ∀ t site E e, h.Refers M t site E e →
      (¬h.document.NamesNested site E → e.decl.name = (h.document.node E).name) ∧
        (h.document.NamesNested site E → e.isAggregate = true ∨ t.name = (h.document.node E).name)) := by
  obtain ⟨c, -, htells, hsettled, rfl⟩ := (accounts_tells hd.indexed).model hM
  have hsaid : c.AllSaid h := fun e he => (htells.said e he).resolve_left List.not_mem_nil
  refine ⟨fun e he => ?_, ?_⟩
  · obtain ⟨i, hi, hs⟩ := hsaid e he
    obtain ⟨sites, hsites, htyped⟩ := said_typed hsettled hs
    exact ⟨i, sites, hi, hsites, htyped.imp fun t site ht => ht.called hsaid⟩
  · constructor
    · exact fun hagree t site E e hr => (hr.agrees_iff hsettled hsaid).1 (hagree t site E e hr)
    · exact fun hnames t site E e hr => (hr.agrees_iff hsettled hsaid).2 (hnames t site E e hr)

/-! ## A pointer to a nested aggregate -/

/-- an aggregate in a file `a.h` with a member of a nested type and a member that points to that type -/
def pointerReading : Markup.Reading :=
  ⟨[.opens "CastXML" (some []) false,
    .opens "Namespace" (some [("id", "n")]) true,
    .opens "Struct" (some [("id", "o"), ("name", "OUTER"), ("context", "n"), ("file", "f")]) true,
    .opens "Field" (some [("id", "m1"), ("name", "inner"), ("type", "i"), ("context", "o")]) true,
    .opens "Field" (some [("id", "m2"), ("name", "link"), ("type", "p"), ("context", "o")]) true,
    .opens "Struct" (some [("id", "i"), ("name", "In"), ("context", "o")]) true,
    .opens "PointerType" (some [("id", "p"), ("type", "i")]) true,
    .opens "File" (some [("id", "f"), ("name", "a.h")]) true,
    .closes], false⟩

/-- its document, with the file in scope -/
def pointerHeaders : Headers :=
  ⟨((Document.ofReading pointerReading).toOption).getD (.ofRoot "" []), Scope.empty.addUnit "a" true []⟩

/-- the nested aggregate as it is declared -/
def pointedTo : Entry := ⟨some 4, .aggregate ⟨"OUTER_In_INNER", false, none, []⟩⟩

/-- the pointer to it as it is used -/
def pointerUse : TypeUse := ⟨"In", "*", [], false, false⟩

/-- the aggregate with both members -/
def pointerOwner : Entry :=
  ⟨some 1, .aggregate ⟨"OUTER", false, none,
    [⟨"inner", ⟨"OUTER_In_INNER", "", [], false, false⟩, 0, none⟩, ⟨"link", pointerUse, 1, none⟩]⟩⟩

theorem pointer_loaded : pointerHeaders.document.Loaded := .read (r := pointerReading) (by decide +kernel)

theorem pointer_model :
    ∃ M, (pointerHeaders.model (.empty "M")).1 = .ok M ∧ M.entries = [pointedTo, pointerOwner] :=
  exists_ok_of_computed (f := Module.entries) (by decide +kernel)

/-- the second member refers to the nested aggregate -/
theorem pointer_refers {M : Module} (hM : M.entries = [pointedTo, pointerOwner]) :
    pointerHeaders.Refers M pointerUse (.member 1 (pointerHeaders.document.node 3)) 4 pointedTo := by
  have hmembers : pointerHeaders.document.childrenOf (pointerHeaders.document.node 1) .field =
      [pointerHeaders.document.node 2, pointerHeaders.document.node 3] := by decide +kernel
  have hsources : pointerHeaders.document.Sources 1
      (pointerHeaders.document.childrenOf (pointerHeaders.document.node 1) .field)
      [(1, pointerHeaders.document.node 2), (1, pointerHeaders.document.node 3)] := by
    rw [hmembers]
    refine .own (fun hname => absurd hname (by decide +kernel)) (.own (fun hname => absurd hname ?_) .nil)
    decide +kernel
  refine ⟨⟨pointerOwner, ?_, 1, _, rfl, ⟨_, hsources, rfl⟩, ?_⟩, ⟨"p", 5, ?_, ?_, ?_⟩, ?_, rfl, rfl⟩
  · rw [hM]
    exact List.mem_cons_of_mem _ List.mem_cons_self
  · exact List.mem_cons_of_mem _ List.mem_cons_self
  · decide +kernel
  · decide +kernel
  · exact .step (j := 4) (by decide +kernel) (by decide +kernel) (.stop (by decide +kernel))
  · rw [hM]
    exact List.mem_cons_self

theorem pointer_disagrees {M : Module} (hM : M.entries = [pointedTo, pointerOwner]) :
    ¬pointerHeaders.NamesAgree M := by
  intro hagree
  have hname : pointerUse.name = pointedTo.decl.name := hagree _ _ _ _ (pointer_refers hM)
  exact absurd hname (by decide)

/-- behind a pointer a nested aggregate keeps the name of its element, also in a document that is named by typedefs -/
theorem pointer_keeps_raw_name :
    ∃ M, pointerHeaders.document.Loaded ∧ pointerHeaders.document.nameByTypedef = .ok pointerHeaders.document ∧
      (pointerHeaders.model (.empty "M")).1 = .ok M ∧ M.entries = [pointedTo, pointerOwner] ∧
      ¬pointerHeaders.NamesAgree M := by
  obtain ⟨M, hM, hentries⟩ := pointer_model
  exact ⟨M, pointer_loaded, by decide +kernel, hM, hentries, pointer_disagrees hentries⟩

/-- so some reference that is no such member leads to an element that is declared under another name -/
theorem pointer_to_renamed :
    ∃ M, (pointerHeaders.model (.empty "M")).1 = .ok M ∧
      (∀ e ∈ M.entries, ∃ i sites, e.origin = some i ∧ pointerHeaders.document.SitesOf i e.decl sites ∧
        List.Forall₂ (pointerHeaders.Called M) e.decl.typeUses sites) ∧
      ¬∀ t site E e, pointerHeaders.Refers M t site E e →
        (¬pointerHeaders.document.NamesNested site E → e.decl.name = (pointerHeaders.document.node E).name) ∧
          (pointerHeaders.document.NamesNested site E → e.isAggregate = true ∨
            t.name = (pointerHeaders.document.node E).name) := by
  obtain ⟨M, hM, hentries⟩ := pointer_model
  obtain ⟨hcalled, hiff⟩ := names_agree_iff pointerHeaders "M" M pointer_loaded hM
  exact ⟨M, hM, hcalled, fun hall => pointer_disagrees hentries (hiff.2 hall)⟩

end HeaderModel
