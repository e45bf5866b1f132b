import ObjectLowering.Proofs.StaticAccess.Refinement
import ObjectLowering.Proofs.Type.Emitted

/-!
# ObjectLowering.Proofs.StaticAccess.Accessors

The functions that lowered code calls, and those that the declaring types provide.

* `called`: the functions that the pass may call to reach a field.
* `exists_access`: every call that lowering makes stands for an access to such a field.
* `mem_emitted`: of the functions called, the declaring type provides all but the setters of fields
  that hold pointers.
* `called_function_is_emitted`: so every call that a run makes has a declaration and a body, unless
  it stores a pointer.
-/

namespace ObjectLowering.StaticAccess

open ObjectLowering.Tree (At)

variable {env : Environment} {t : Tree}

/-- The functions that lowered code calls to reach a field. -/
def called (g : StaticField) : List FunctionRef :=
  [g.getter, g.refGetter] ++ if g.field.type.isPrimitive then [] else [g.setter]

/-- The node stands for the variable `x`, which is the field `g`, in code that may only reach it
through accessors. -/
structure Accesses (env : Environment) (t : Tree) (node : NodeId) (x : VarId) (g : StaticField) :
    Prop where
  reachable : t.Reachable node
  names : t.namedVariable? node = some x
  foreign : foreignField? env (t.owningType? node) x = some g

theorem getter_mem_called (g : StaticField) : g.getter ∈ called g :=
  List.mem_append_left _ List.mem_cons_self

theorem refGetter_mem_called (g : StaticField) : g.refGetter ∈ called g :=
  List.mem_append_left _ (List.mem_cons_of_mem _ List.mem_cons_self)

theorem setter_mem_called {g : StaticField} (h : g.field.type.isPrimitive = false) :
    g.setter ∈ called g := by
  rw [called, h, if_neg Bool.false_ne_true]
  exact List.mem_append_right _ List.mem_cons_self

/-! ## Calls that lowering makes -/

/-- An expression in parentheses stands in the same code. -/
theorem exists_at_strip {site : Site} {s : Term NodeId} (h : t.At site s) :
    ∃ site', t.At site' s.strip ∧ site'.context = site.context := by
  induction s generalizing site with
  | node l cell cs ih =>
    unfold Term.strip
    split
    · rename_i n span nilCheck inner e
      cases e
      obtain ⟨site₁, h₁, hc₁⟩ := h.exists_child (Term.namesOk_of_isAccess_eq_false rfl)
        List.mem_cons_self
      obtain ⟨site', h', hc'⟩ := ih inner List.mem_cons_self h₁
      exact ⟨site', h', hc'.trans hc₁.symm⟩
    · exact ⟨site, h, rfl⟩

/-- A call that lowering makes of the code at a site stands for an access in that code. -/
def StandsForAccess (env : Environment) (t : Tree) (s : Term NodeId) (f : FunctionRef) : Prop :=
  ∃ site a g, t.At site a ∧ a.Within s ∧ accessed? env site.context a = some g ∧ f ∈ called g

theorem StandsForAccess.of_child {l : NodeId} {cell : Cell} {cs : List (Term NodeId)}
    {c : Term NodeId} {f : FunctionRef} (h : StandsForAccess env t c f) (hc : c ∈ cs) :
    StandsForAccess env t (.node l cell cs) f := by
  obtain ⟨site, a, g, ha, hw, hg, hf⟩ := h
  exact ⟨site, a, g, ha, .child hc hw, hg, hf⟩

theorem standsForAccess_target {site : Site} {id : NodeId} {cell : Cell} {x : Term NodeId}
    {cs : List (Term NodeId)} {g : StaticField} {f : FunctionRef}
    (h : t.At site (.node id cell (x :: cs))) (hc : cell.form.isAccess = false)
    (hx : cell.form.context site.context = site.context)
    (ha : accessed? env site.context x.strip = some g) (hf : f ∈ called g) :
    StandsForAccess env t (.node id cell (x :: cs)) f := by
  obtain ⟨site₁, h₁, hc₁⟩ := h.exists_child (Term.namesOk_of_isAccess_eq_false hc)
    List.mem_cons_self
  obtain ⟨site', h', hc'⟩ := exists_at_strip h₁
  refine ⟨site', x.strip, g, h', .child List.mem_cons_self x.strip_within, ?_, hf⟩
  rw [hc', ← hc₁, hx, ha]

theorem call_of_reference {new : NodeId} {g : StaticField} {name : Cell} {r : Term NodeId}
    (h : r.Within (referenceTerm new g name)) {f : FunctionRef} {args : List NodeId}
    (hf : r.form = .functionCall f args) : f = g.refGetter := by
  rcases Term.within_node h with rfl | ⟨c, hc, h⟩
  · cases hf
  · obtain rfl := List.mem_singleton.1 hc
    rcases Term.within_node h with rfl | ⟨c, hc, _⟩
    · cases hf
      rfl
    · cases hc

/-- Every call in lowered code that was not there before stands for an access. -/
theorem exists_access {site : Site} {s : Term NodeId} (h : t.At site s) (hn : s.WellNamed)
    {new : NodeId} {r : Term NodeId} (hr : r.Within (lower env new site.context s))
    (hnew : t.size ≤ r.label) {f : FunctionRef} {args : List NodeId}
    (hf : r.form = .functionCall f args) : StandsForAccess env t s f := by
  induction s generalizing site with
  | node id cell cs ih =>
    -- nodes that were there before have numbers below the size of the tree
    have hold {q : Term NodeId} (hq : q.label ∈ (Term.node id cell cs).labels) : q ≠ r := by
      rintro rfl
      exact Nat.not_lt.2 hnew (h.holds.lt_size _ hq)
    have htop {cell' : Cell} {cs' : List (Term NodeId)} : .node id cell' cs' ≠ r :=
      hold (Term.label_mem_labels (.node id cell cs))
    have hchild {c : Term NodeId} (hc : c ∈ cs)
        (hcr : r.Within (lower env new (cell.form.context site.context) c)) :
        StandsForAccess env t (.node id cell cs) f := by
      obtain ⟨site', h', hc'⟩ := h.exists_child hn.names hc
      rw [hc'] at hcr
      exact (ih c hc h' (hn.child c hc) hcr).of_child hc
    have hrole := roleOf_role env site.context (.node id cell cs)
    generalize hk : role env site.context (.node id cell cs) = k at hrole
    cases hrole with
    | caseLabel =>
      rw [lower_caseLabel hk] at hr
      exact absurd rfl (hold (hr.labels_sublist.subset r.label_mem_labels))
    | @read _ _ _ g ha =>
      rw [lower_read hk] at hr
      rcases Term.within_node hr with rfl | ⟨c, hc, _⟩
      · cases hf
        exact ⟨site, _, g, h, .refl, ha, getter_mem_called g⟩
      · cases hc
    | @store _ _ op a b target value g hform ho ha =>
      have hctx : cell.form.context site.context = site.context := by
        rw [hform]
        rfl
      rw [lower_store hk] at hr
      rcases Term.within_node hr with rfl | ⟨c, hc, hr⟩
      · cases hf
        have hprim : g.field.type.isPrimitive = false := by
          simpa using (Bool.and_eq_true_iff.1 ho).2
        exact standsForAccess_target h (by rw [hform]; rfl) hctx ha (setter_mem_called hprim)
      · obtain rfl := List.mem_singleton.1 hc
        exact hchild (by simp) (hctx.symm ▸ hr)
    | @update _ _ op a b target value g hform ho ha =>
      have hctx : cell.form.context site.context = site.context := by
        rw [hform]
        rfl
      rw [lower_update hk] at hr
      rcases Term.within_node hr with rfl | ⟨c, hc, hr⟩
      · exact absurd rfl htop
      · rcases List.mem_cons.1 hc with rfl | hc
        · obtain rfl := call_of_reference hr hf
          exact standsForAccess_target h (by rw [hform]; rfl) hctx ha (refGetter_mem_called g)
        · obtain rfl := List.mem_singleton.1 hc
          exact hchild (by simp) (hctx.symm ▸ hr)
    | @step _ _ operand g hstep ha =>
      rw [lower_step hk] at hr
      rcases Term.within_node hr with rfl | ⟨c, hc, hr⟩
      · exact absurd rfl htop
      · obtain rfl := List.mem_singleton.1 hc
        obtain rfl := call_of_reference hr hf
        exact standsForAccess_target h (NodeKind.isAccess_of_isStep hstep)
          (NodeKind.context_of_isStep hstep _) ha (refGetter_mem_called g)
    | other =>
      rw [lower_other hk] at hr
      rcases Term.within_node hr with rfl | ⟨c, hc, hr⟩
      · exact absurd rfl htop
      · obtain ⟨d, hd, rfl⟩ := List.mem_map.1 hc
        exact hchild hd hr

theorem isStored_of_needsAccessor {context : Option TypeHash} {v : VariableBinding}
    (h : needsAccessor context v = true) : v.isStatic = true ∧ v.isPrimitiveConstant = false := by
  unfold needsAccessor at h
  split at h
  · simp only [Bool.and_eq_true, Bool.not_eq_true'] at h
    exact ⟨h.1.1.2, h.1.2⟩
  · cases h

/-- A new call that can be reached after a run stands for an access that could be reached before. -/
theorem exists_access_of_run {t' : Tree} (ht : t.WellFormed)
    (hrun : (Pass.staticAccess.run env t).1 = t') {call : NodeId} (hc : t'.Reachable call)
    (hnew : t.size ≤ call) {f : FunctionRef} {args : List NodeId}
    (hk : t'.kind? call = some (.functionCall f args)) :
    ∃ node x g, Accesses env t node x g ∧ f ∈ called g := by
  obtain ⟨s, hs⟩ := ht.exists_stores
  obtain ⟨t₁, k, o, hrun₁, ho, -, hrel⟩ := run_stores env hs
  obtain rfl : t₁ = t' := by rw [← hrun, pass_run hrun₁]
  obtain ⟨p, r, hr, hw, rfl⟩ := ho.exists_of_reachable hc
  have hkept : t.kept t.size = none := if_neg (Nat.lt_irrefl _)
  -- new nodes have no number of their own in the lowered program
  rw [← hkept, ← lower_relabel] at hrel
  have hw' := hw.relabel t.kept
  rw [hrel] at hw'
  obtain ⟨q, hq, hqr⟩ := Term.exists_within_of_relabel hw'
  have hqnew : t.size ≤ q.label := by
    have hlabel := congrArg Term.label hqr
    rw [Term.label_relabel, Term.label_relabel, Tree.kept, Tree.kept, if_neg (Nat.not_lt.2 hnew)]
      at hlabel
    by_contra hlt
    rw [if_pos (Nat.not_le.1 hlt)] at hlabel
    cases hlabel
  have hqf : q.form = .functionCall f (args.map fun _ => 0) := by
    obtain ⟨kind, hkind, hform, _⟩ := hr.has_top.kind?
    obtain rfl := Option.some.inj (hkind.symm.trans hk)
    rw [← Term.form_relabel t.kept, hqr, Term.form_relabel]
    exact hform.symm
  obtain ⟨site, a, g, ha, has, hg, hf⟩ := exists_access hs.at_root hs.named hq hqnew hqf
  obtain ⟨x, hx, hxg⟩ := Option.bind_eq_some_iff.1 hg
  have hlabel : a.label ∈ s.labels := has.labels_sublist.subset a.label_mem_labels
  refine ⟨a.label, x, g, ⟨hs.reachable_of_mem hlabel, ?_, ?_⟩, hf⟩
  · rw [Tree.namedVariable?_of_holds ha.holds (List.nodup_append.1 ha.nodup).1, hx]
  · rw [ha.owningType?, NodeKind.context_of_isAccess (isAccess_of_denotes? hx), hxg]

/-! ## Functions that the declaring type provides -/

/-- Of the functions called for a field its type provides all, except the setter of a pointer. -/
theorem mem_emitted {d : TypeDeclaration} {m : FieldMember} (hm : m ∈ d.storedFields)
    {f : FunctionRef} (hf : f ∈ called (d.accessors m.binding)) :
    f ∈ d.emitted ↔
      ¬ (f = (d.accessors m.binding).setter ∧ ∃ target, m.binding.type = .pointer target) := by
  constructor
  · rintro he ⟨rfl, target, hpointer⟩
    obtain ⟨m', _, he⟩ := List.mem_flatMap.1 he
    rcases List.mem_append.1 he with he | he
    · -- only setters take a value
      simp [StaticField.setter, StaticField.getter, StaticField.refGetter] at he
    · split at he
      · rename_i hobject
        have htype : m.binding.type = m'.binding.type :=
          congrArg FunctionRef.returnType (List.mem_singleton.1 he)
        rw [← htype, hpointer] at hobject
        cases hobject
      · cases he
  · intro hnot
    refine List.mem_flatMap.2 ⟨m, hm, ?_⟩
    rcases List.mem_append.1 hf with hf | hf
    · exact List.mem_append_left _ hf
    · split at hf
      · cases hf
      · rename_i hprim
        obtain rfl := List.mem_singleton.1 hf
        have hobject : m.binding.type.isObject = true := by
          cases htype : m.binding.type with
          | primitive p => exact absurd (congrArg TypeRef.isPrimitive htype) hprim
          | pointer target => exact absurd ⟨rfl, target, htype⟩ hnot
          | declared _ | anyObject => rfl
        rw [TypeDeclaration.accessorFunctions, hobject, if_pos rfl]
        exact List.mem_append_right _ List.mem_cons_self

/-- The field that code calls for is a stored field of the declaration that is generated. -/
theorem exists_storedField {u : Tree} {node : NodeId} {d : TypeDeclaration}
    (hd : TypeDeclaration.ofTree env u node = .ok d) {context : Option TypeHash} {x : VarId}
    {g : StaticField} (hg : foreignField? env context x = some g) (hx : u.DeclaresField node x)
    (howner : d.binding.hash = g.owner) :
    ∃ m ∈ d.storedFields, m.binding = g.field ∧ d.accessors m.binding = g := by
  obtain ⟨hv, hneeds, -, hname⟩ := foreignField?_eq_some_iff.1 hg
  obtain ⟨hstatic, hstored⟩ := isStored_of_needsAccessor hneeds
  obtain ⟨m, hm, hmv⟩ := TypeDeclaration.exists_field_of_ofTree hd hx
  have hbinding : m.binding = g.field := Option.some.inj (hmv.symm.trans hv)
  have hfull : d.name = g.ownerName := by
    have htype := TypeDeclaration.binding_of_ofTree hd
    rw [howner] at htype
    rw [Environment.fullName?, htype] at hname
    exact Option.some.inj hname
  refine ⟨m, ?_, hbinding, ?_⟩
  · refine List.mem_filter.2 ⟨List.mem_filter.2 ⟨hm, ?_⟩, ?_⟩
    · rw [hbinding, hstatic]
    · rw [hbinding, hstored]
      rfl
  · rw [TypeDeclaration.accessors, hbinding, hfull, howner]

/-- Every call that a run makes stands for an access to a field. The type of the field, where it is
generated, declares and defines the function, unless a pointer is stored. -/
theorem called_function_is_emitted {t' : Tree} (ht : t.WellFormed)
    (hrun : (Pass.staticAccess.run env t).1 = t') {call : NodeId} (hc : t'.Reachable call)
    (hnew : t.size ≤ call) {f : FunctionRef} {args : List NodeId}
    (hk : t'.kind? call = some (.functionCall f args)) :
    ∃ node x g, Accesses env t node x g ∧ f ∈ called g ∧
      ∀ (c : GenerationContext) (u : Tree) (id : NodeId) (generated : GeneratedType),
        c.env = env → u.DeclaresField id x → GeneratedType.generate c u id = .ok generated →
        generated.hash = g.owner →
        ∃ d, TypeDeclaration.ofTree env u id = .ok d ∧
          (f ∈ d.emitted ↔ ¬ (f = g.setter ∧ ∃ target, g.field.type = .pointer target)) ∧
          (f ∈ d.emitted → generated.Declares env f ∧ generated.Defines env f) := by
  obtain ⟨node, x, g, hg, hf⟩ := exists_access_of_run ht hrun hc hnew hk
  refine ⟨node, x, g, hg, hf, ?_⟩
  rintro c u id generated rfl hx hgen howner
  obtain ⟨d, hd, hhash, hemits⟩ := GeneratedType.generate_emits hgen
  obtain ⟨m, hm, hbinding, haccessors⟩ :=
    exists_storedField hd hg.foreign hx (hhash.symm.trans howner)
  refine ⟨d, hd, ?_, hemits f⟩
  rw [← hbinding, ← haccessors]
  exact mem_emitted hm (haccessors ▸ hf)

/-! ## A field that holds a pointer -/

def pointerField : StaticField where
  owner := ⟨1⟩
  ownerName := "D"
  field :=
    { name := "p", kind := .field, declaringType := some ⟨1⟩, type := .pointer (.primitive .int),
      visibility := .publicAccess, modifiers := { isStatic := true } }

def pointerEnv : Environment where
  types := #[{ name := ⟨[], ["D"]⟩, hash := ⟨1⟩ }, { name := ⟨[], ["A"]⟩, hash := ⟨2⟩ }]
  vars := #[pointerField.field,
    { name := "q", kind := .parameter, type := .pointer (.primitive .int) }]

/-- The type `D` with its field, and the type `A` with a method that runs `p = q` and `q = p`. -/
def pointerSample : Tree where
  nodes := #[
    { kind := .fieldDecl 0 none, parent := some 1 },
    { kind := .typeDecl (some ⟨1⟩) [0], parent := some 13 },
    { kind := .simpleName "p" (some (.ofVariable 0)), parent := some 4 },
    { kind := .simpleName "q" (some (.ofVariable 1)), parent := some 4 },
    { kind := .assignment .assign 2 3, parent := some 5 },
    { kind := .expressionStatement 4, parent := some 10 },
    { kind := .simpleName "q" (some (.ofVariable 1)), parent := some 8 },
    { kind := .simpleName "p" (some (.ofVariable 0)), parent := some 8 },
    { kind := .assignment .assign 6 7, parent := some 9 },
    { kind := .expressionStatement 8, parent := some 10 },
    { kind := .block [5, 9], parent := some 11 },
    { kind := .methodDecl ⟨"m", ⟨2⟩, .primitive .void, false⟩ [1] (some 10), parent := some 12 },
    { kind := .typeDecl (some ⟨2⟩) [11], parent := some 13 },
    { kind := .compilationUnit "A.java" [1, 12] [] }]
  root := some 13

def pointerLowered : Tree :=
  (Pass.staticAccess.run pointerEnv pointerSample).1

def pointerContext : GenerationContext :=
  ⟨pointerEnv, {}, .empty, [], .empty⟩

theorem pointerSample_wellFormed : pointerSample.WellFormed :=
  Tree.wellFormed_of_isTidy (by decide +kernel)

theorem pointerLowered_reachable {id : NodeId} (h : pointerLowered.Below 10 id) :
    pointerLowered.Reachable id := by
  have htype : pointerLowered.Below 13 12 := .child .top (by decide +kernel)
  have hmethod : pointerLowered.Below 13 11 := .child htype (by decide +kernel)
  have hbody : pointerLowered.Below 13 10 := .child hmethod (by decide +kernel)
  exact ⟨13, by decide +kernel, hbody.trans h⟩

theorem eq_pointerField {context : Option TypeHash} {x : VarId} {g : StaticField}
    (h : foreignField? pointerEnv context x = some g) : x = 0 ∧ g = pointerField := by
  obtain ⟨hv, hneeds, howner, hname⟩ := foreignField?_eq_some_iff.1 h
  obtain ⟨owner, ownerName, field⟩ := g
  match x with
  | 0 =>
    cases hv
    cases howner
    have hnamed : pointerEnv.fullName? ⟨1⟩ = some "D" := by decide +kernel
    cases hnamed.symm.trans hname
    exact ⟨rfl, rfl⟩
  | 1 =>
    cases hv
    cases hneeds
  | _ + 2 => cases hv

theorem called_function_is_emitted_getter :
    pointerSample.WellFormed ∧ (Pass.staticAccess.run pointerEnv pointerSample).1 = pointerLowered ∧
      pointerLowered.Reachable 15 ∧ pointerSample.size ≤ 15 ∧
      pointerLowered.kind? 15 = some (.functionCall pointerField.getter []) ∧
      ∃ generated, GeneratedType.generate pointerContext pointerSample 1 = .ok generated ∧
        generated.Declares pointerEnv pointerField.getter ∧
        generated.Defines pointerEnv pointerField.getter := by
  have hstatement : pointerLowered.Below 10 9 := .child .top (by decide +kernel)
  have hassignment : pointerLowered.Below 10 8 := .child hstatement (by decide +kernel)
  have hreach : pointerLowered.Reachable 15 :=
    pointerLowered_reachable (.child hassignment (by decide +kernel))
  have hsize : pointerSample.size ≤ 15 := by decide
  have hkind : pointerLowered.kind? 15 = some (.functionCall pointerField.getter []) := by
    decide +kernel
  refine ⟨pointerSample_wellFormed, rfl, hreach, hsize, hkind, _, rfl, ?_⟩
  obtain ⟨node, x, g, hg, hf, hgen⟩ :=
    called_function_is_emitted pointerSample_wellFormed rfl hreach hsize hkind
  obtain ⟨rfl, rfl⟩ := eq_pointerField hg.foreign
  have hfield : pointerSample.DeclaresField 1 0 :=
    ⟨_, _, 0, none, rfl, List.mem_cons_self, rfl⟩
  obtain ⟨d, hd, hiff, hemits⟩ := hgen pointerContext pointerSample 1 _ rfl hfield rfl rfl
  exact hemits (hiff.2 fun h => by cases congrArg FunctionRef.parameters h.1)

/-- The type of the field does not declare the setter that the pass calls. -/
theorem pointer_setter_is_not_declared :
    pointerSample.WellFormed ∧ pointerLowered.Reachable 14 ∧
      pointerLowered.kind? 14 = some (.functionCall pointerField.setter [3]) ∧
      ∃ generated, GeneratedType.generate pointerContext pointerSample 1 = .ok generated ∧
        generated.hash = pointerField.owner ∧
        ¬ generated.Declares pointerEnv pointerField.setter := by
  refine ⟨pointerSample_wellFormed, ?_, by decide +kernel, _, rfl, rfl, by decide +kernel⟩
  have hstatement : pointerLowered.Below 10 5 := .child .top (by decide +kernel)
  exact pointerLowered_reachable (hstatement.child (by decide +kernel))

end ObjectLowering.StaticAccess
