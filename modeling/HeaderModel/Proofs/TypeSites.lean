/-
Where types are used.

A declaration uses types at sites of its element: members, arguments and results. A site spells a type by the id in
which a type chain starts, and what the declaration says about the type is what the chain spells. Only a named member
whose type is nested in the member's owner says something else: the name of the nested aggregate.
- `followFrom_name`: a chain that leads to an aggregate or an enumeration ends in the name of that element.
- `said_typed`: a declaration uses one type for every one of its sites, in order, as the site says.
-/
import HeaderModel.Proofs.Turns
import HeaderModel.Proofs.Sources
import HeaderModel.Proofs.VtableSlots

namespace HeaderModel

/-! ## Chains to named types -/

/-- an aggregate or an enumeration: a chain ends there, in the name of the element -/
def Kind.isNamedType (k : Kind) : Bool := k.isAggregate || k = .enumeration

/-- a chain goes on from the element to the type that the element names -/
def Node.passesOn (bound : List String) (n : Node) : Bool :=
  match n.kind with
  | .typedef => !bound.contains n.name
  | .pointerType | .arrayType | .referenceType | .cvQualifiedType => true
  | _ => false

namespace Document

/-- a chain of typedefs that are not bound, pointers, arrays, references and qualifiers leads from an element to an
aggregate or an enumeration -/
inductive LeadsTo (d : Document) (bound : List String) : NodeId → NodeId → Prop where
  | stop {i : NodeId} : (d.node i).kind.isNamedType = true → LeadsTo d bound i i
  | step {i j k : NodeId} : (d.node i).passesOn bound = true → d.typePlace (d.node i) = .ok j → LeadsTo d bound j k →
      LeadsTo d bound i k

variable {d : Document} {bound : List String} {i j E : NodeId}

/-- no chain goes on from an aggregate -/
theorem LeadsTo.eq_of_isAggregate (hlead : d.LeadsTo bound i E) (hi : (d.node i).kind.isAggregate = true) : i = E := by
  cases hlead with
  | stop _ => rfl
  | step hpass _ _ =>
    unfold Node.passesOn at hpass
    cases hkind : (d.node i).kind <;> simp [hkind, Kind.isAggregate] at hpass hi

/-- the next element of a chain is the one that is named as the type -/
theorem nextType_eq_map (d : Document) (n : Node) : d.nextType n = (d.typePlace n).map d.node := by
  unfold nextType typePlace element
  cases n.need "type" with
  | error e => rfl
  | ok id => rfl

theorem nextType_eq {n : Node} (hj : d.typePlace n = .ok j) : d.nextType n = .ok (d.node j) := by
  rw [nextType_eq_map, hj]
  rfl

/-- a chain stops at an aggregate or an enumeration, and takes its name -/
theorem followFrom_stop {steps : Nat} {n : Node} {t r : TypeUse} {terminal : Terminal}
    (hn : n.kind.isNamedType = true) (hrun : d.followFrom bound steps n t = ⟨r, .ok terminal⟩) : r.name = n.name := by
  cases steps with
  | zero => cases hrun
  | succ steps =>
    unfold followFrom at hrun
    cases hkind : n.kind with
    | classType | structType | unionType | enumeration =>
      simp only [hkind] at hrun
      obtain ⟨rfl, -⟩ := Resolution.mk.inj hrun
      rfl
    | _ =>
      rw [hkind] at hn
      cases hn

/-- from any other element of a chain to a named type it goes on to the next one -/
theorem followFrom_step {steps : Nat} {n : Node} {t r : TypeUse} {terminal : Terminal} (hn : n.passesOn bound = true)
    (hj : d.typePlace n = .ok j) (hrun : d.followFrom bound steps n t = ⟨r, .ok terminal⟩) :
    ∃ steps' t', d.followFrom bound steps' (d.node j) t' = ⟨r, .ok terminal⟩ := by
  cases steps with
  | zero => cases hrun
  | succ steps =>
    unfold Node.passesOn at hn
    unfold followFrom at hrun
    simp only [nextType_eq hj] at hrun
    cases hkind : n.kind with
    | typedef =>
      simp only [hkind, Bool.not_eq_true'] at hn hrun
      rw [if_neg (by simpa using hn)] at hrun
      exact ⟨_, _, hrun⟩
    | arrayType =>
      simp only [hkind] at hrun
      split at hrun
      · exact ⟨_, _, hrun⟩
      · cases hrun
    | pointerType | referenceType | cvQualifiedType =>
      simp only [hkind] at hrun
      exact ⟨_, _, hrun⟩
    | _ => simp only [hkind] at hn; cases hn

/-- **A chain that leads to a named type ends in the name of its element.** -/
theorem followFrom_name (hlead : d.LeadsTo bound i E) {steps : Nat} {t r : TypeUse} {terminal : Terminal}
    (hrun : d.followFrom bound steps (d.node i) t = ⟨r, .ok terminal⟩) : r.name = (d.node E).name := by
  induction hlead generalizing steps t with
  | stop hn => exact followFrom_stop hn hrun
  | step hpass hj _ ih =>
    obtain ⟨steps', t', hrun'⟩ := followFrom_step hpass hj hrun
    exact ih hrun'

end Document

/-! ## Sites -/

/-- a place at which a type is used -/
inductive TypeSite where
  /-- a member of an element, which is its owner -/
  | member (owner : NodeId) (member : Node)
  /-- an argument of a function or method -/
  | argument (argument : Node)
  /-- the result of a function or method -/
  | result (function : Node)

/-- the id in which the chain of a site starts -/
def TypeSite.typeId : TypeSite → Except BuildError String
  | .member _ n => n.need "type"
  | .argument n => n.need "type"
  | .result n => n.need "returns"

/-- the types that a signature uses: those of its parameters, and the result's -/
def Signature.typeUses (s : Signature) : List TypeUse := s.params.map (·.type) ++ [s.returnType]

/-- the types that a declaration uses -/
def Declaration.typeUses : Declaration → List TypeUse
  | .aggregate a => a.fields.map (·.type)
  | .interface a => a.methods.flatMap (·.signature.typeUses)
  | .function f => f.typeUses
  | _ => []

namespace Document

/-- the sites of a function or method -/
def signatureSites (d : Document) (n : Node) : List TypeSite := (d.childrenOf n .argument).map .argument ++ [.result n]

/-- the sites of the declaration that an element makes -/
def SitesOf (d : Document) (i : NodeId) : Declaration → List TypeSite → Prop
  | .aggregate _, sites =>
    ∃ ss, d.Sources i (d.childrenOf (d.node i) .field) ss ∧ sites = ss.map fun s => .member s.1 s.2
  | .interface _, sites => sites = ((d.childrenOf (d.node i) .method).filter Build.opensSlot).flatMap d.signatureSites
  | .function _, sites => sites = d.signatureSites (d.node i)
  | _, sites => sites = []

/-- the site is a named member, and its type is nested in the member's owner -/
def NamesNested (d : Document) : TypeSite → NodeId → Prop
  | .member k m, j => m.name ≠ "" ∧ d.HasNested (d.node k) m j
  | _, _ => False

theorem NamesNested.isAggregate {d : Document} {site : TypeSite} {j : NodeId} (hj : d.NamesNested site j) :
    (d.node j).kind.isAggregate = true := by
  cases site with
  | member k m => exact isAggregate_of_isNestedIn hj.2.2
  | argument n => exact hj.elim
  | result n => exact hj.elim

theorem Sources.unique {d : Document} {k : NodeId} {ms : List Node} {ss ss' : List (NodeId × Node)}
    (hss : d.Sources k ms ss) (hss' : d.Sources k ms ss') : ss = ss' := by
  induction hss generalizing ss' with
  | nil => cases hss'; rfl
  | inlined hname hnested _ _ ih₁ ih₂ =>
    cases hss' with
    | inlined hname' hnested' h₁ h₂ =>
      obtain rfl := hnested.unique hnested'
      rw [ih₁ h₁, ih₂ h₂]
    | own hnot h₂ => exact absurd hnested (hnot hname _)
  | own hnot _ ih =>
    cases hss' with
    | inlined hname' hnested' h₁ h₂ => exact absurd hnested' (hnot hname' _)
    | own _ h₂ => rw [ih h₂]

/-- the sites of a declaration are determined -/
theorem SitesOf.unique {d : Document} {i : NodeId} {decl : Declaration} {sites sites' : List TypeSite}
    (hs : d.SitesOf i decl sites) (hs' : d.SitesOf i decl sites') : sites = sites' := by
  cases decl with
  | aggregate a =>
    obtain ⟨ss, hss, rfl⟩ := hs
    obtain ⟨ss', hss', rfl⟩ := hs'
    rw [hss.unique hss']
  | _ => exact Eq.trans hs (Eq.symm hs')

end Document

/-! ## Types at sites -/

namespace Headers

/-- the chain of a site leads to an aggregate or an enumeration -/
def Points (h : Headers) (site : TypeSite) (E : NodeId) : Prop :=
  ∃ id i, site.typeId = .ok id ∧ h.document.placeOf id = .ok i ∧ h.document.LeadsTo h.scope.boundNames i E

/-- the type that is used at a site is the one that the site's chain spells, but a named member whose type is nested in
its owner calls it as the nested aggregate is called -/
def Typed (h : Headers) (memory : List (NodeId × Aggregate)) (t : TypeUse) (site : TypeSite) : Prop :=
  ∃ id r, site.typeId = .ok id ∧ h.Resolves id r ∧
    ((∀ j, ¬h.document.NamesNested site j) ∧ t = r ∨
      ∃ j a, h.document.NamesNested site j ∧ memory.lookup j = some a ∧ t = { r with name := a.name })

variable {h : Headers} {memory : List (NodeId × Aggregate)} {t : TypeUse} {site : TypeSite} {j E : NodeId}

/-- the chain of a member with a nested type ends there -/
theorem Points.eq_of_namesNested (hE : h.Points site E) (hj : h.document.NamesNested site j) : E = j := by
  obtain ⟨id, i, hid, hi, hlead⟩ := hE
  cases site with
  | member k m =>
    obtain ⟨-, hplace, hnest⟩ := hj
    have hid' : m.need "type" = .ok id := hid
    rw [Document.typePlace, hid'] at hplace
    obtain rfl : i = j := Except.ok.inj (hi.symm.trans hplace)
    exact (hlead.eq_of_isAggregate (Document.isAggregate_of_isNestedIn hnest)).symm
  | argument n => exact hj.elim
  | result n => exact hj.elim

theorem Resolves.name_eq {id : String} {i : NodeId} {r : TypeUse} (hr : h.Resolves id r)
    (hi : h.document.placeOf id = .ok i) (hlead : h.document.LeadsTo h.scope.boundNames i E) :
    r.name = (h.document.node E).name := by
  obtain ⟨terminal, hfollow⟩ := hr
  unfold Document.follow Document.element at hfollow
  rw [hi] at hfollow
  exact Document.followFrom_name hlead hfollow

/-- where the chain of a site leads to a named type, the type is called by the element's own name -/
theorem Typed.name_of_points (ht : h.Typed memory t site) (hE : h.Points site E)
    (hnot : ¬h.document.NamesNested site E) : t.name = (h.document.node E).name := by
  obtain ⟨id, r, hid, hr, ⟨-, rfl⟩ | ⟨j, a, hj, -, -⟩⟩ := ht
  · obtain ⟨id', i, hid', hi, hlead⟩ := hE
    obtain rfl := Except.ok.inj (hid.symm.trans hid')
    exact hr.name_eq hi hlead
  · obtain rfl := hE.eq_of_namesNested hj
    exact absurd hj hnot

/-- where a named member has a nested type, the type is called as the nested aggregate -/
theorem Typed.name_of_namesNested (ht : h.Typed memory t site) (hE : h.document.NamesNested site E) :
    ∃ a, memory.lookup E = some a ∧ t.name = a.name := by
  obtain ⟨id, r, hid, hr, ⟨hnot, -⟩ | ⟨j, a, hj, ha, rfl⟩⟩ := ht
  · exact absurd hE (hnot E)
  · cases site with
    | member k m =>
      obtain rfl := hE.2.unique hj.2
      exact ⟨a, ha, rfl⟩
    | argument n => exact hj.elim
    | result n => exact hj.elim

end Headers

/-! ## Declarations at their sites -/

section Said

variable {h : Headers} {memory : List (NodeId × Aggregate)} {c : Builder}

theorem Build.parameter_ok {position : Nat} {n : Node} {p : Parameter}
    (hrun : (c.run (Build.parameter h position n)).1 = .ok p) : h.Typed memory p.type (.argument n) := by
  unfold Build.parameter at hrun
  obtain ⟨said, -, hrest⟩ := Builder.run_bind_eq_ok.1 hrun
  obtain ⟨id, hid, hrest⟩ := Builder.run_bind_eq_ok.1 hrest
  obtain ⟨type, htype, hpure⟩ := Builder.run_bind_eq_ok.1 hrest
  rw [Builder.run_of] at hid
  rw [Builder.run_pure] at hpure
  obtain rfl := Except.ok.inj hpure
  exact ⟨id, type, hid, Build.typeOf_resolves htype, .inl ⟨fun _ hj => hj, rfl⟩⟩

theorem Build.signature_ok {n : Node} {s : Signature} (hrun : (c.run (Build.signature h n)).1 = .ok s) :
    List.Forall₂ (h.Typed memory) s.typeUses (h.document.signatureSites n) := by
  unfold Build.signature at hrun
  obtain ⟨said, -, hrest⟩ := Builder.run_bind_eq_ok.1 hrun
  obtain ⟨params, hparams, hrest⟩ := Builder.run_bind_eq_ok.1 hrest
  obtain ⟨id, hid, hrest⟩ := Builder.run_bind_eq_ok.1 hrest
  obtain ⟨type, htype, hpure⟩ := Builder.run_bind_eq_ok.1 hrest
  rw [Builder.run_of] at hid
  rw [Builder.run_pure] at hpure
  obtain rfl := Except.ok.inj hpure
  have hmade := run_mapM_eq_ok (fun _ => Build.steady_parameter h _ _) hparams
  have harguments : List.Forall₂ (h.Typed memory) (params.map (·.type))
      (((h.document.childrenOf n .argument).zipIdx.map Prod.fst).map .argument) := by
    rw [List.forall₂_map_left_iff, List.forall₂_map_right_iff, List.forall₂_map_right_iff]
    refine hmade.flip.imp fun p m hparameter => ?_
    exact Build.parameter_ok (hparameter c)
  rw [List.zipIdx_map_fst] at harguments
  exact List.rel_append harguments
    (.cons ⟨id, type, hid, Build.typeOf_resolves htype, .inl ⟨fun _ hj => hj, rfl⟩⟩ .nil)

/-- an interface has the name of its element, and its methods the signatures that their elements spell -/
theorem interface_made {older : List (NodeId × Interface)} {i : NodeId} {built : Interface}
    (hmade : MadeInterface h older i built) :
    built.name = (h.document.node i).name ∧
      List.Forall₂ (fun n method => ∀ c : Builder, (c.run (Build.signature h n)).1 = .ok method.signature)
        ((h.document.childrenOf (h.document.node i) .method).filter Build.opensSlot) built.methods := by
  have hrun := hmade (.new (.empty ""))
  rw [Build.interfaceBody_eq] at hrun
  obtain ⟨inherited, -, hrest⟩ := Builder.run_bind_eq_ok.1 hrun
  obtain ⟨methods, hname, -, -, -⟩ := interfaceRest_ok hrest
  exact ⟨hname, interfaceRest_signatures hrest⟩

/-- the fields of a remembered aggregate use the types that their sites spell -/
theorem aggregate_typed (hm : Grounded (MadeAggregate h) memory) {i : NodeId} {a : Aggregate}
    (ha : memory.lookup i = some a) :
    ∃ sites, h.document.SitesOf i (.aggregate a) sites ∧
      List.Forall₂ (h.Typed memory) (Declaration.aggregate a).typeUses sites := by
  obtain ⟨ss, hss, hstems⟩ := aggregate_sources hm ha
  refine ⟨_, ⟨ss, hss, rfl⟩, ?_⟩
  show List.Forall₂ _ (a.fields.map (·.type)) _
  rw [List.forall₂_map_left_iff, List.forall₂_map_right_iff]
  refine hstems.imp fun f s hf => ?_
  obtain ⟨id, r, hid, hr, ⟨hnot, htype⟩ | ⟨hnamed, j, a', hnested, ha', htype⟩⟩ := hf.type
  · exact ⟨id, r, hid, hr, .inl ⟨fun j hj => hnot j hj.2, htype⟩⟩
  · exact ⟨id, r, hid, hr, .inr ⟨j, a', ⟨hnamed, hnested⟩, ha', htype⟩⟩

/-- **A declaration uses one type for every one of its sites,** in order, as the site says. -/
theorem said_typed (hc : Settled h c) {i : NodeId} {decl : Declaration} (hs : h.Says c i decl) :
    ∃ sites, h.document.SitesOf i decl sites ∧ List.Forall₂ (h.Typed c.aggregates) decl.typeUses sites := by
  cases decl with
  | aggregate a => exact aggregate_typed hc.aggregates hs
  | interface a =>
    obtain ⟨older, -, -, hmade⟩ := hc.interfaces.made hs
    refine ⟨_, rfl, List.rel_flatMap (interface_made hmade).2.flip fun method n hn => ?_⟩
    exact Build.signature_ok (hn c)
  | function f =>
    obtain ⟨b, hrun⟩ := hs
    exact ⟨_, rfl, Build.signature_ok hrun⟩
  | _ => exact ⟨_, rfl, .nil⟩

/-- an interface is declared under the name of its element -/
theorem interface_name (hc : Settled h c) {i : NodeId} {a : Interface} (hs : h.Says c i (.interface a)) :
    a.name = (h.document.node i).name := by
  obtain ⟨older, -, -, hmade⟩ := hc.interfaces.made hs
  exact (interface_made hmade).1

end Said

end HeaderModel
