import ObjectLowering.Proofs.Type.Emitted
import ObjectLowering.Proofs.Unit.TypeOrder
import ObjectLowering.Unit.Basic

/-!
# ObjectLowering.Proofs.Unit.Built

What a unit that has been built consists of.

* `exists_of_mapM_append`: a list that has been mapped by a program that may fail can be cut where
  its outcome is cut.
* `BuiltFrom`: the types of a unit are those that some trees declare, all generated in one context,
  and the supertypes that the unit declares come first.
* `build_builtFrom`: a unit that has been built is such a unit; `build_eq_ok`: it bears the names of
  its plan.
-/

namespace ObjectLowering

open TypeDeclaration (bind_eq_ok)

section MapM

variable {ε α β : Type} {f : α → Except ε β}

theorem exists_of_mapM_cons {l : List α} {y : β} {ys : List β} (h : l.mapM f = .ok (y :: ys)) :
    ∃ x l', l = x :: l' ∧ f x = .ok y ∧ l'.mapM f = .ok ys := by
  cases l with
  | nil => cases h
  | cons x l =>
    rw [List.mapM_cons] at h
    obtain ⟨z, hz, h⟩ := bind_eq_ok h
    obtain ⟨zs, hzs, h⟩ := bind_eq_ok h
    cases h
    exact ⟨x, l, rfl, hz, hzs⟩

/-- Where the outcome is cut the list can be cut. -/
theorem exists_of_mapM_append {l : List α} {before after : List β}
    (h : l.mapM f = .ok (before ++ after)) :
    ∃ l₁ l₂, l = l₁ ++ l₂ ∧ l₁.mapM f = .ok before ∧ l₂.mapM f = .ok after := by
  induction before generalizing l with
  | nil => exact ⟨[], l, rfl, rfl, h⟩
  | cons y before ih =>
    obtain ⟨x, l', rfl, hx, h'⟩ := exists_of_mapM_cons h
    obtain ⟨l₁, l₂, rfl, h₁, h₂⟩ := ih h'
    refine ⟨x :: l₁, l₂, rfl, ?_, h₂⟩
    rw [List.mapM_cons, hx, h₁]
    rfl

theorem exists_of_mapM_eq_ok {l : List α} {ys : List β} (h : l.mapM f = .ok ys) {y : β}
    (hy : y ∈ ys) : ∃ x ∈ l, f x = .ok y := by
  obtain ⟨before, after, rfl⟩ := List.append_of_mem hy
  obtain ⟨l₁, l₂, rfl, -, h₂⟩ := exists_of_mapM_append h
  obtain ⟨x, l', rfl, hx, -⟩ := exists_of_mapM_cons h₂
  exact ⟨x, List.mem_append_right _ List.mem_cons_self, hx⟩

theorem exists_mem_of_mapM_eq_ok {l : List α} {ys : List β} (h : l.mapM f = .ok ys) {x : α}
    (hx : x ∈ l) : ∃ y ∈ ys, f x = .ok y := by
  induction l generalizing ys with
  | nil => cases hx
  | cons x' l ih =>
    rw [List.mapM_cons] at h
    obtain ⟨z, hz, h⟩ := bind_eq_ok h
    obtain ⟨zs, hzs, h⟩ := bind_eq_ok h
    cases h
    rcases List.mem_cons.1 hx with rfl | hx
    · exact ⟨z, List.mem_cons_self, hz⟩
    · obtain ⟨y, hy, hfy⟩ := ih hzs hx
      exact ⟨y, List.mem_cons_of_mem _ hy, hfy⟩

end MapM

namespace GeneratedType

/-- The type has been generated in the environment with the headers. -/
def Generated (env : Environment) (headers : HeaderMap) (g : GeneratedType) : Prop :=
  ∃ c t id, c.env = env ∧ c.headers = headers ∧ generate c t id = .ok g

theorem Generated.binding {env : Environment} {headers : HeaderMap} {g : GeneratedType}
    (h : g.Generated env headers) :
    ∃ b, env.type? g.hash = some b ∧ g.isPrivate = b.isPrivate ∧ g.supertypes = b.supertypes := by
  obtain ⟨c, t, id, rfl, -, hg⟩ := h
  obtain ⟨d, hd⟩ := exists_generatedFrom hg
  exact ⟨d.binding, hd.hash ▸ TypeDeclaration.binding_of_ofTree hd.declaration, hd.isPrivate,
    hd.supertypes⟩

/-- The types with a part in the declaration file are the public ones. -/
theorem Generated.hasPublicSurface_eq {env : Environment} {headers : HeaderMap}
    {g : GeneratedType} (h : g.Generated env headers) : g.hasPublicSurface = !g.isPrivate := by
  obtain ⟨c, t, id, -, -, hg⟩ := h
  obtain ⟨d, hd⟩ := exists_generatedFrom hg
  rw [hasPublicSurface, hd.publicDeclaration, hd.isPrivate, TypeDeclaration.publicText]
  cases d.binding.isPrivate with
  | true => simp
  | false => simp [TypeDeclaration.interface]

end GeneratedType

namespace GenerationUnit

/-! ## Declarations -/

namespace LocalDeclaration

theorem ofNode_eq_ok {env : Environment} {t : Tree} {id : NodeId} {d : LocalDeclaration}
    (h : ofNode env t id = .ok d) : d.tree = t ∧ d.id = id ∧ ∃ hash members,
      t.kind? id = some (.typeDecl (some hash) members) ∧ env.type? hash = some d.binding := by
  obtain ⟨node, hn, h⟩ := bind_eq_ok h
  obtain ⟨⟨binding, members⟩, hh, h⟩ := bind_eq_ok h
  cases h
  obtain ⟨hash, hk, hb⟩ := TypeDeclaration.header_eq_ok hh
  have hnode : t.node? id = some node := Tree.node?_of_node (GenerationError.ofTree_eq_ok hn)
  exact ⟨rfl, rfl, hash, members, by rw [Tree.kind?, hnode, Option.map_some, hk], hb⟩

/-- The declarations that have been read are those of the trees. -/
theorem mem_flatten_iff {env : Environment} {trees : List Tree}
    {declarations : List (List LocalDeclaration)}
    (h : trees.mapM (ofTree env) = .ok declarations) :
    (∀ d ∈ declarations.flatten, d.tree ∈ trees ∧ d.id ∈ d.tree.typeDecls ∧
        ofNode env d.tree d.id = .ok d) ∧
      ∀ t ∈ trees, ∀ id ∈ t.typeDecls, ∃ d ∈ declarations.flatten, d.tree = t ∧ d.id = id := by
  constructor
  · intro d hd
    obtain ⟨ds, hds, hd⟩ := List.mem_flatten.1 hd
    obtain ⟨t, ht, h⟩ := exists_of_mapM_eq_ok h hds
    obtain ⟨id, hid, hnode⟩ := exists_of_mapM_eq_ok h hd
    obtain ⟨rfl, rfl, -⟩ := ofNode_eq_ok hnode
    exact ⟨ht, hid, hnode⟩
  · intro t ht id hid
    obtain ⟨ds, hds, h⟩ := exists_mem_of_mapM_eq_ok h ht
    obtain ⟨d, hd, hnode⟩ := exists_mem_of_mapM_eq_ok h hid
    obtain ⟨htree, hid, -⟩ := ofNode_eq_ok hnode
    exact ⟨d, List.mem_flatten.2 ⟨ds, hds, hd⟩, htree, hid⟩

/-- The type that is generated from a declaration is that of its binding. -/
theorem binding_of_generate {c : GenerationContext} {d : LocalDeclaration} {g : GeneratedType}
    (h : GeneratedType.generate c d.tree d.id = .ok g) (hd : ofNode c.env d.tree d.id = .ok d) :
    g.hash = d.binding.hash ∧ g.supertypes = d.binding.supertypes := by
  obtain ⟨-, -, hash, members, hk, hb⟩ := ofNode_eq_ok hd
  obtain ⟨e, he⟩ := GeneratedType.exists_generatedFrom h
  obtain ⟨hash', members', hk', hb', -⟩ := TypeDeclaration.ofTree_eq_ok he.declaration
  rw [hk] at hk'
  cases hk'
  have hbinding : e.binding = d.binding := Option.some.inj (hb'.symm.trans hb)
  exact ⟨he.hash.trans (congrArg _ hbinding), he.supertypes.trans (congrArg _ hbinding)⟩

end LocalDeclaration

/-! ## Units -/

/-- The type is declared in the unit. -/
def Declares (u : GenerationUnit) (x : TypeHash) : Prop :=
  ∃ g ∈ u.types, g.hash = x

instance (u : GenerationUnit) (x : TypeHash) : Decidable (u.Declares x) :=
  inferInstanceAs (Decidable (∃ g ∈ u.types, g.hash = x))

theorem not_declares_iff {u : GenerationUnit} {x : TypeHash} :
    ¬ u.Declares x ↔ ∀ g ∈ u.types, g.hash ≠ x := by
  simp [Declares]

/-- The types of the unit are those that the trees declare, all generated in one context. Supertypes
that are declared in the unit come before their subtypes. -/
structure BuiltFrom (u : GenerationUnit) (c : GenerationContext) (trees : List Tree) : Prop where
  generated : ∀ g ∈ u.types, ∃ t ∈ trees, ∃ id ∈ t.typeDecls, GeneratedType.generate c t id = .ok g
  complete : ∀ t ∈ trees, ∀ id ∈ t.typeDecls,
    ∃ g ∈ u.types, GeneratedType.generate c t id = .ok g
  supertypesFirst : ∀ {before g after}, u.types = before ++ g :: after →
    ∀ x ∈ g.supertypes, u.Declares x → ∃ g' ∈ before, g'.hash = x

theorem BuiltFrom.isGenerated {u : GenerationUnit} {c : GenerationContext} {trees : List Tree}
    (h : u.BuiltFrom c trees) {g : GeneratedType} (hg : g ∈ u.types) :
    g.Generated c.env c.headers := by
  obtain ⟨t, -, id, -, hgen⟩ := h.generated g hg
  exact ⟨c, t, id, rfl, rfl, hgen⟩

/-- Positions that are put in order pick every declaration, supertypes before their subtypes. -/
theorem ordered_declarations {declarations : List LocalDeclaration} {order : List Nat}
    (h : TypeOrder.order (declarations.map fun d => ⟨d.binding, d.span⟩) = .ok order) :
    (∀ d, d ∈ order.filterMap (declarations[·]?) ↔ d ∈ declarations) ∧
      ∀ before d after, order.filterMap (declarations[·]?) = before ++ d :: after →
        ∀ x ∈ d.binding.supertypes, (∃ d' ∈ declarations, d'.binding.hash = x) →
          ∃ d' ∈ before, d'.binding.hash = x := by
  obtain ⟨hperm, hfirst⟩ := TypeOrder.order_eq_ok h
  rw [List.length_map] at hperm
  constructor
  · intro d
    rw [List.mem_filterMap]
    constructor
    · rintro ⟨i, -, hi⟩
      exact List.mem_of_getElem? hi
    · intro hd
      obtain ⟨i, hi⟩ := List.mem_iff_getElem?.1 hd
      obtain ⟨hlt, -⟩ := List.getElem?_eq_some_iff.1 hi
      exact ⟨i, hperm.mem_iff.2 (List.mem_range.2 hlt), hi⟩
  · rintro before d after hsplit x hx ⟨d', hd', hhash⟩
    obtain ⟨order₁, order₂, rfl, rfl, hrest⟩ := List.filterMap_eq_append_iff.1 hsplit
    obtain ⟨skipped, i, order₃, rfl, hskipped, hi, -⟩ := List.filterMap_eq_cons_iff.1 hrest
    obtain ⟨j, hj⟩ := TypeOrder.isSome_position?
      (List.mem_map_of_mem (f := fun d => TypeOrder.Entry.mk d.binding d.span) hd') hhash
    have hmem : j ∈ TypeOrder.supertypes (declarations.map fun d => ⟨d.binding, d.span⟩) i := by
      rw [TypeOrder.supertypes, List.getElem?_map, hi]
      exact List.mem_filterMap.2 ⟨x, hx, hj⟩
    have hjorder := hfirst (order₁ ++ skipped) i order₃ (by simp) j hmem
    obtain ⟨entry, hentry, rfl⟩ := TypeOrder.position?_eq_some hj
    rw [List.getElem?_map, Option.map_eq_some_iff] at hentry
    obtain ⟨d'', hd'', rfl⟩ := hentry
    rcases List.mem_append.1 hjorder with hjo | hjo
    · exact ⟨d'', List.mem_filterMap.2 ⟨j, hjo, hd''⟩, rfl⟩
    · rw [hskipped j hjo] at hd''
      cases hd''

/-- A unit that has been built consists of the types that its trees declare. -/
theorem build_builtFrom {plan : UnitPlan} {trees : List Tree} {env : Environment}
    {options : Options} {headers : HeaderMap} {u : GenerationUnit}
    (h : build plan trees env options headers = .ok u) :
    ∃ c : GenerationContext, c.env = env ∧ c.options = options ∧ c.headers = headers ∧
      c.strings = StringPool.ofTrees trees ∧ u.BuiltFrom c trees := by
  unfold build at h
  obtain ⟨declarations, hdeclarations, h⟩ := bind_eq_ok h
  obtain ⟨order, horder, h⟩ := bind_eq_ok h
  obtain ⟨types, htypes, h⟩ := bind_eq_ok h
  cases h
  obtain ⟨hread, hall⟩ := LocalDeclaration.mem_flatten_iff hdeclarations
  obtain ⟨hmem, hfirst⟩ := ordered_declarations horder
  refine ⟨⟨env, options, headers, declarations.flatten.map (·.binding.hash), .ofTrees trees⟩,
    rfl, rfl, rfl, rfl, ?_, ?_, ?_⟩
  · intro g hg
    obtain ⟨d, hd, hgen⟩ := exists_of_mapM_eq_ok htypes hg
    obtain ⟨ht, hid, -⟩ := hread d ((hmem d).1 hd)
    exact ⟨d.tree, ht, d.id, hid, hgen⟩
  · intro t ht id hid
    obtain ⟨d, hd, rfl, rfl⟩ := hall t ht id hid
    exact exists_mem_of_mapM_eq_ok htypes ((hmem d).2 hd)
  · rintro before g after rfl x hx ⟨g', hg', rfl⟩
    obtain ⟨ds₁, ds₂, hds, hbefore, hrest⟩ := exists_of_mapM_append htypes
    obtain ⟨d, ds₃, rfl, hgen, -⟩ := exists_of_mapM_cons hrest
    obtain ⟨d', hd', hgen'⟩ := exists_of_mapM_eq_ok htypes hg'
    obtain ⟨-, -, hd'node⟩ := hread d' ((hmem d').1 hd')
    obtain ⟨hhash', -⟩ := LocalDeclaration.binding_of_generate hgen' hd'node
    have hdmem : d ∈ declarations.flatten := (hmem d).1 (by simp [hds])
    obtain ⟨-, hsuper⟩ := LocalDeclaration.binding_of_generate hgen (hread d hdmem).2.2
    obtain ⟨e, he, hhash⟩ := hfirst ds₁ d ds₃ hds g'.hash (hsuper ▸ hx)
      ⟨d', (hmem d').1 hd', hhash'.symm⟩
    obtain ⟨k, hk, hkgen⟩ := exists_mem_of_mapM_eq_ok hbefore he
    have hemem : e ∈ declarations.flatten := (hmem e).1 (by simp [hds, he])
    obtain ⟨hkhash, -⟩ := LocalDeclaration.binding_of_generate hkgen (hread e hemem).2.2
    exact ⟨k, hk, hkhash.trans hhash⟩

theorem build_eq_ok {plan : UnitPlan} {trees : List Tree} {env : Environment} {options : Options}
    {headers : HeaderMap} {u : GenerationUnit} (h : build plan trees env options headers = .ok u) :
    u.sourceName = plan.sourceName ∧ u.outputPath = plan.outputPath ∧
      ∀ g ∈ u.types, g.Generated env headers := by
  obtain ⟨c, rfl, -, rfl, -, hu⟩ := build_builtFrom h
  unfold build at h
  obtain ⟨declarations, -, h⟩ := bind_eq_ok h
  obtain ⟨order, -, h⟩ := bind_eq_ok h
  obtain ⟨types, -, h⟩ := bind_eq_ok h
  cases h
  exact ⟨rfl, rfl, fun g hg => hu.isGenerated hg⟩

end GenerationUnit

end ObjectLowering
