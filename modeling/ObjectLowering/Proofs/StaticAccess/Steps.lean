import ObjectLowering.Proofs.Position
import ObjectLowering.Proofs.StaticAccess.Rules
import ObjectLowering.Proofs.Walk

/-!
# ObjectLowering.Proofs.StaticAccess.Steps

What the visit of one node does, by the role of the term that stands there, whatever walk it is given.

* `target?_eq`: the pass finds the field that the term stands for.
* `visit_other`, `visit_caseLabel`: visits that change nothing.
* `visit_read`, `visit_update`, `visit_step`: visits that put accessors in the place of a name.
* `visit_store`: a setter call takes the place of an assignment, before its argument is walked.
-/

namespace ObjectLowering.StaticAccess

open ObjectLowering.Tree (At)

variable {env : Environment} {t : Tree} {k : Nat}

theorem target?_eq (env : Environment) {site : Site} {id : NodeId} {cell : Cell}
    {cs : List (Term NodeId)} {q : Option NodeId} {r : Term NodeId} (h : t.At site (.node id cell cs))
    (hc : ∀ outer, cell.form.context outer = outer) (hr : t.Holds q r) (hn : r.labels.Nodup) :
    target? env t id r.label = accessed? env site.context r := by
  have ho : t.owningType? id = site.context := h.owningType?.trans (hc _)
  rw [target?, Tree.resolve?, Tree.namedVariable?_of_holds hr hn, ho, accessed?]
  exact Option.bind_assoc ..

theorem visit_of_node? {walk : NodeId → AccessM Unit} {id : NodeId} {node : Node}
    (h : t.node? id = some node) : visit env walk id ⟨t, k⟩ =
      (match node.kind with
        | .assignment op left value => visitAssignment env walk id op left value
        | .simpleName .. | .qualifiedName .. | .fieldAccess .. => visitName env id
        | .step _ operand => visitStep env id operand
        | .unary op operand => if op.isStep then visitStep env id operand else return .children
        | .switchCase _ => return .skip
        | _ => return .children : AccessM Descend) ⟨t, k⟩ := by
  have hn := Tree.node_of_node? h
  rw [visit, WalkM.bind_of_ok (WalkM.tree_run _)]
  generalize t.node id = outcome at hn
  subst hn
  rfl

theorem target?_strip (env : Environment) {site : Site} {id : NodeId} {cell : Cell}
    {cs : List (Term NodeId)} {s : Term NodeId} (h : t.At site (.node id cell cs))
    (hc : ∀ outer, cell.form.context outer = outer) (hs : s ∈ cs) :
    target? env t id (t.stripParentheses s.label) = accessed? env site.context s.strip := by
  have hsub : s.labels.Sublist (Term.node id cell cs).labels :=
    Term.Within.labels_sublist (.child hs .refl)
  have hn : s.labels.Nodup := hsub.nodup (List.nodup_append.1 h.nodup).1
  have hheld := h.holds.child s hs
  obtain ⟨q, hq⟩ := hheld.within s.strip_within
  rw [Tree.stripParentheses_of_holds hheld hn]
  exact target?_eq env h hc hq (s.strip_within.labels_sublist.nodup hn)

/-! ## The visit of each kind -/

section Kinds

variable {site : Site} {id : NodeId} {cell : Cell} {walk : NodeId → AccessM Unit}

theorem visit_assignment {op : AssignOp} {a b : NodeId} {x y : Term NodeId}
    (h : t.At site (.node id cell [x, y])) (hf : cell.form = .assignment op a b) :
    visit env walk id ⟨t, k⟩ = visitAssignment env walk id op x.label y.label ⟨t, k⟩ := by
  obtain ⟨kind, hn, hk, hcs⟩ := h.holds.has
  rw [visit_of_node? hn]
  rw [hf] at hk
  cases kind with
  | assignment op' left right =>
    cases hk
    cases hcs
    rfl
  | _ => cases hk

theorem visit_stepped {x : Term NodeId} (h : t.At site (.node id cell [x]))
    (hf : cell.form.isStep = true) :
    visit env walk id ⟨t, k⟩ = visitStep env id x.label ⟨t, k⟩ := by
  obtain ⟨kind, hn, hk, hcs⟩ := h.holds.has
  rw [visit_of_node? hn]
  rw [← hk, NodeKind.isStep_form] at hf
  cases kind with
  | step op operand =>
    cases hcs
    rfl
  | unary op operand =>
    cases hcs
    exact congrFun (if_pos hf) _
  | _ => cases hf

theorem visit_access {cs : List (Term NodeId)} (h : t.At site (.node id cell cs))
    (hf : cell.form.isAccess = true) : visit env walk id ⟨t, k⟩ = visitName env id ⟨t, k⟩ := by
  obtain ⟨kind, hn, hk, hcs⟩ := h.holds.has
  rw [visit_of_node? hn]
  rw [← hk, NodeKind.isAccess_form] at hf
  cases kind with
  | simpleName | qualifiedName | fieldAccess => rfl
  | _ => cases hf

theorem visit_caseLabel {cs : List (Term NodeId)} (h : t.At site (.node id cell cs))
    (hf : cell.form.isCaseLabel = true) : visit env walk id ⟨t, k⟩ = .ok .skip ⟨t, k⟩ := by
  obtain ⟨kind, hn, hk, hcs⟩ := h.holds.has
  rw [visit_of_node? hn]
  rw [← hk, NodeKind.isCaseLabel_form] at hf
  cases kind with
  | switchCase => rfl
  | _ => cases hf

/-- A visit changes nothing where no rule applies. -/
theorem visit_other (walk : NodeId → AccessM Unit) {cs : List (Term NodeId)}
    (h : t.At site (.node id cell cs))
    (hr : RoleOf env site.context (.node id cell cs) .other) :
    visit env walk id ⟨t, k⟩ = .ok .children ⟨t, k⟩ := by
  obtain ⟨kind, hn, hk, hcs⟩ := h.holds.has
  cases hr with
  | other hcase hassign hstep ha =>
    have hstepped {x : Term NodeId} (hx : cs = [x]) (hf : cell.form.isStep = true) :
        visit env walk id ⟨t, k⟩ = .ok .children ⟨t, k⟩ := by
      subst hx
      have ht := target?_strip env h (NodeKind.context_of_isStep hf) List.mem_cons_self
      rw [hstep x hf rfl] at ht
      rw [visit_stepped h hf, visitStep, WalkM.bind_of_ok (WalkM.tree_run _)]
      simp only [ht]
      rfl
    have hname (hf : cell.form.isAccess = true) :
        visit env walk id ⟨t, k⟩ = .ok .children ⟨t, k⟩ := by
      have ht := target?_eq env h (NodeKind.context_of_isAccess hf) h.holds
        (List.nodup_append.1 h.nodup).1
      rw [ha] at ht
      rw [visit_access h hf, visitName, WalkM.bind_of_ok (WalkM.tree_run _)]
      simp only [Term.label_node] at ht ⊢
      simp only [ht]
      rfl
    cases kind with
    | simpleName | qualifiedName | fieldAccess => exact hname (by rw [← hk]; rfl)
    | step op operand =>
      obtain ⟨x, rfl, _⟩ := List.map_eq_singleton_iff.1 hcs.symm
      exact hstepped rfl (by rw [← hk]; rfl)
    | unary op operand =>
      obtain ⟨x, rfl, _⟩ := List.map_eq_singleton_iff.1 hcs.symm
      cases ho : op.isStep with
      | true => exact hstepped rfl (by rw [← hk]; exact ho)
      | false =>
        rw [visit_of_node? hn]
        simp only [ho]
        rfl
    | assignment op left right =>
      obtain ⟨x, y, rfl, _, _⟩ := Tree.eq_pair_of_map_label hcs.symm
      have ht := target?_strip env h (by rw [← hk]; exact fun _ => rfl) List.mem_cons_self
      rw [hassign op 0 0 x y hk.symm rfl] at ht
      rw [visit_assignment h hk.symm, visitAssignment, WalkM.bind_of_ok (WalkM.tree_run _)]
      simp only [ht]
      rfl
    | switchCase =>
      rw [← hk] at hcase
      cases hcase
    | _ =>
      rw [visit_of_node? hn]
      rfl

end Kinds

/-! ## New terms -/

theorem inheritNilCheck_run {old new : NodeId} {cell newCell : Cell} {p q : Option NodeId}
    {cs newCs : List NodeId} (ho : t.Has old cell p cs) (hn : t.Has new newCell q newCs)
    (hb : newCell.nilCheck = false) :
    ∃ t', inheritNilCheck old new ⟨t, k⟩ = .ok () ⟨t', k⟩ ∧ t'.root = t.root ∧ t'.size = t.size ∧
      t'.Has new { newCell with nilCheck := cell.nilCheck } q newCs ∧
      ∀ i, i ≠ new → t'.node? i = t.node? i := by
  rw [inheritNilCheck, WalkM.bind_of_ok (WalkM.tree_run _), ho.hasNilCheck]
  cases hc : cell.nilCheck with
  | false => exact ⟨t, rfl, rfl, rfl, by rwa [← hb], fun _ _ => rfl⟩
  | true =>
    obtain ⟨kind, hk, hf, hcs⟩ := hn
    have he : t.setNilCheck new true = .ok (t.update new ({ · with nilCheck := true })) := by
      rw [Tree.setNilCheck, Tree.modify, Tree.node_of_node? hk]
      rfl
    rw [if_pos rfl, WalkM.edit_of_ok he]
    refine ⟨_, rfl, rfl, Tree.size_update .., ⟨kind, ?_, hf, hcs⟩, ?_⟩
    · rw [Tree.node?_update, if_pos rfl, hk]
      rfl
    · intro i hi
      rw [Tree.node?_update, if_neg (Ne.symm hi)]

section NewTerms

variable {β : Type} {g : NodeId → β} {new : β} {c : NodeId} {cell : Cell} {p : Option NodeId}
  {cs : List NodeId}

theorem newRead_run (hg : ∀ i, t.size ≤ i → g i = new) (h : t.Has c cell p cs) (f : StaticField) :
    ∃ t' r, newRead f c ⟨t, k⟩ = .ok r.label ⟨t', k⟩ ∧ t.Adds t' r ∧
      r.relabel g = readTerm new f cell := by
  let kind : NodeKind := .functionCall f.getter []
  have hframe : ∀ i < t.size, (t.alloc kind cell.span).2.node? i = t.node? i := fun i hi =>
    Tree.node?_alloc_of_lt kind cell.span hi (by simp [kind, NodeKind.children])
  obtain ⟨t', hrun, hroot, hsize, hhas, hf⟩ := inheritNilCheck_run (k := k)
    (h.congr (hframe c h.lt_size)) (Tree.has_alloc t kind cell.span) rfl
  refine ⟨t', .node t.size ⟨kind, cell.span, cell.nilCheck⟩ [], ?_, ?_, ?_⟩
  · rw [newRead, WalkM.bind_of_ok (WalkM.tree_run _), h.span,
      WalkM.bind_of_ok (WalkM.alloc_run ..)]
    exact WalkM.bind_of_ok hrun
  · refine ⟨hroot.trans (Tree.root_alloc ..), ?_, ?_, .node hhas (by simp), ?_, ?_⟩
    · rw [hsize, Tree.size_alloc]
      exact Nat.le_succ _
    · intro i hi
      exact (hf i (Nat.ne_of_lt hi)).trans (hframe i hi)
    · simp [Term.labels_node]
    · simp [Term.labels_node]
  · rw [Term.relabel_node, hg t.size (Nat.le_refl _)]
    rfl

theorem newReference_run (hg : ∀ i, t.size ≤ i → g i = new) (h : t.Has c cell p cs)
    (f : StaticField) :
    ∃ t' r, newReference f c ⟨t, k⟩ = .ok r.label ⟨t', k⟩ ∧ t.Adds t' r ∧
      r.relabel g = referenceTerm new f cell := by
  let call : NodeKind := .functionCall f.refGetter []
  let t₁ := (t.alloc call cell.span).2
  let t₂ := (t₁.alloc (.unary .dereference t.size) cell.span).2
  have hsize₁ : t₁.size = t.size + 1 := Tree.size_alloc ..
  have hcall := Tree.has_alloc t call cell.span
  have hframe₁ : ∀ i < t.size, t₁.node? i = t.node? i := fun i hi =>
    Tree.node?_alloc_of_lt call cell.span hi (by simp [call, NodeKind.children])
  have hframe₂ : ∀ i < t.size, t₂.node? i = t.node? i := by
    intro i hi
    have hlt : i < t₁.size := by
      rw [hsize₁]
      exact Nat.lt_succ_of_lt hi
    refine (Tree.node?_alloc_of_lt _ _ hlt ?_).trans (hframe₁ i hi)
    simpa [NodeKind.children] using Nat.ne_of_lt hi
  have hadd : t₁.add (.unary .dereference t.size) = (t.size + 1, t₂) := by
    have hspan : t₁.span t.size = cell.span := hcall.span
    rw [Tree.add, NodeKind.leadingChild?, Option.map_some, Option.getD_some, hspan, ← hsize₁]
    rfl
  have href : t₂.Has (t.size + 1) ⟨.unary .dereference 0, cell.span, false⟩ none [t.size] := by
    rw [← hsize₁]
    exact Tree.has_alloc t₁ (.unary .dereference t.size) cell.span
  have hcall₂ : t₂.Has t.size ⟨call, cell.span, false⟩ (some (t.size + 1)) [] := by
    rw [← hsize₁]
    exact hcall.adopted cell.span List.mem_cons_self
  obtain ⟨t', hrun, hroot, hsize, hhas, hf⟩ := inheritNilCheck_run (k := k)
    (h.congr (hframe₂ c h.lt_size)) href rfl
  refine ⟨t', .node (t.size + 1) ⟨.unary .dereference 0, cell.span, cell.nilCheck⟩
    [.node t.size ⟨call, cell.span, false⟩ []], ?_, ?_, ?_⟩
  · have hadd' : WalkM.add (.unary .dereference t.size) (⟨t₁, k⟩ : WalkState Nat) =
        .ok (t.size + 1) ⟨t₂, k⟩ := by
      rw [WalkM.add_run, hadd]
    rw [newReference, WalkM.bind_of_ok (WalkM.tree_run _), h.span,
      WalkM.bind_of_ok (WalkM.alloc_run ..)]
    refine (WalkM.bind_of_ok hadd').trans ?_
    exact WalkM.bind_of_ok hrun
  · have hroot₂ : t₂.root = t.root := (Tree.root_alloc ..).trans (Tree.root_alloc ..)
    have hsize₂ : t₂.size = t.size + 2 := by
      rw [Tree.size_alloc, hsize₁]
    refine ⟨hroot.trans hroot₂, by omega, ?_, .node hhas ?_, ?_, ?_⟩
    · intro i hi
      exact (hf i (Nat.ne_of_lt (Nat.lt_succ_of_lt hi))).trans (hframe₂ i hi)
    · refine List.forall_mem_singleton.2 (.node (hcall₂.congr ?_) (by simp))
      exact hf t.size (Nat.ne_of_lt (Nat.lt_succ_self _))
    · simp [Term.labels_node]
    · simp [Term.labels_node]
  · have hg' := hg (t.size + 1) (Nat.le_succ _)
    simp [Term.relabel_node, referenceTerm, hg t.size (Nat.le_refl _), hg', call]

end NewTerms

theorem substitute_run {t' : Tree} {old new : NodeId} (h : t.replace old new = .ok t') :
    substitute old new ⟨t, k⟩ = .ok () ⟨t', k + 1⟩ := by
  rw [substitute, WalkM.bind_of_ok (WalkM.edit_of_ok h), WalkM.remember_run]

/-! ## Replacements -/

/-- A node that is about to stop being a name leaves no qualified name around it. -/
theorem expose_run {site : Site} {s : Term NodeId} (h : t.At site s) :
    ∃ t', t'.size = t.size ∧ t.Alters site.ids t' ∧ t'.At site.expose s ∧
      ∀ rest : AccessM Descend, (match t.qualifies? s.label with
        | some qualified => do
          WalkM.editPartly (·.convertToFieldAccess qualified)
          rest
        | none => rest : AccessM Descend) ⟨t, k⟩ = rest ⟨t', k⟩ := by
  have hn := List.nodup_append.1 h.nodup
  have hlabel : s.label ∉ site.numbers := fun hm => hn.2.2 _ s.label_mem_labels _ hm rfl
  rw [Tree.qualifies?_at h.holds.parent? h.around hlabel]
  cases hq : site.isQualifier with
  | false =>
    rw [Site.expose_of_not_isQualifier hq]
    exact ⟨t, rfl, .refl t _, h, fun _ => rfl⟩
  | true =>
    obtain ⟨p, hp⟩ : ∃ p, site.parent? = some p := by
      cases site with
      | root => cases hq
      | slot p _ _ _ _ => exact ⟨p, rfl⟩
    obtain ⟨t', hc, hroot, hsize, hs, hf⟩ :=
      Tree.convertToFieldAccess_at hq hp h.around h.named hn.2.1
    rw [if_pos rfl, hp]
    refine ⟨t', hsize, ⟨hroot, Nat.le_of_eq hsize.symm, fun i _ hi => ?_⟩, ⟨?_, hs, ?_, ?_⟩,
      fun _ => ?_⟩
    · rw [Tree.kind?, hf i hi, Tree.kind?]
    · rw [Site.parent?_expose]
      exact h.holds.congr fun i hi => hf i fun hm => hn.2.2 i hi i (site.ids_sublist.subset hm) rfl
    · rw [Site.numbers_expose]
      exact h.nodup
    · have hn' := Site.named_expose h.named
      exact hn'.of_not_isQualifier (Site.isQualifier_eq_false hn') _
    · exact WalkM.bind_of_ok (WalkM.editPartly_of_ok hc)

section Replacements

variable {β : Type} {g : NodeId → β} {new : β} {site : Site} {id : NodeId} {cell : Cell}
  {f : StaticField}

theorem visit_read {cs : List (Term NodeId)} (hg : ∀ i, t.size ≤ i → g i = new)
    (h : t.At site (.node id cell cs)) (hr : site ≠ .root)
    (ha : accessed? env site.context (.node id cell cs) = some f) :
    ∃ t' r, (∀ walk, visit env walk id ⟨t, k⟩ = .ok .skip ⟨t', k + 1⟩) ∧ t.Alters site.ids t' ∧
      t'.At site.expose r ∧ r.relabel g = readTerm new f cell := by
  have hf : cell.form.isAccess = true := by
    obtain ⟨x, hx, _⟩ := Option.bind_eq_some_iff.1 ha
    exact isAccess_of_denotes? hx
  have ht : target? env t id id = some f := by
    rw [← ha]
    exact target?_eq env h (NodeKind.context_of_isAccess hf) h.holds (List.nodup_append.1 h.nodup).1
  obtain ⟨t₁, hsize₁, halters₁, h₁, hexpose⟩ := expose_run (k := k) h
  obtain ⟨t₂, r, hread, hadds, hrel⟩ := newRead_run (k := k) (hsize₁ ▸ hg) h₁.holds.has f
  have hrn : r.isName = false := by
    rw [← Term.isName_relabel g, hrel]
    rfl
  obtain ⟨t', hrep, halters', h'⟩ :=
    h₁.replace_new hadds (Site.expose_ne_root hr) (by rw [hrn]; exact Site.named_expose h.named)
  rw [Site.ids_expose] at halters'
  refine ⟨t', r, fun walk => ?_, halters₁.trans halters', h', hrel⟩
  rw [visit_access h hf, visitName, WalkM.bind_of_ok (WalkM.tree_run _)]
  simp only [ht]
  refine (hexpose _).trans ((WalkM.bind_of_ok hread).trans ?_)
  exact WalkM.bind_of_ok (substitute_run hrep)

/-- A reference takes the place of the first child of an assignment or step. -/
theorem reference_run {x : Term NodeId} {cs : List (Term NodeId)}
    (hg : ∀ i, t.size ≤ i → g i = new) (h : t.At site (.node id cell (x :: cs)))
    (hf : cell.form.isAccess = false) (f : StaticField) :
    ∃ t₁ t' r, newReference f x.strip.label ⟨t, k⟩ = .ok r.label ⟨t₁, k⟩ ∧
      substitute x.label r.label ⟨t₁, k⟩ = .ok () ⟨t', k + 1⟩ ∧ t.Alters (id :: site.ids) t' ∧
      t'.At site (.node id cell (r :: cs)) ∧ r.relabel g = referenceTerm new f x.strip.cell := by
  have hno : cell.form.isQualifiedName = false := NodeKind.isQualifiedName_of_not_isAccess hf
  have hx : t.At (.slot id cell [] cs site) x :=
    At.into (l := []) h fun _ => Term.namesOk_of_isAccess_eq_false hf
  obtain ⟨q, hq⟩ := hx.holds.within x.strip_within
  obtain ⟨t₁, r, hrun, hadds, hrel⟩ := newReference_run (k := k) hg hq.has_top f
  have hnm : (Site.slot id cell [] cs site).Named r.isName := hx.named.of_not_isQualifier hno _
  obtain ⟨t', hrep, halters, h'⟩ := hx.replace_new hadds Site.slot_ne_root hnm
  exact ⟨t₁, t', r, hrun, substitute_run hrep, halters, h'.out, hrel⟩

theorem visit_step {x : Term NodeId} (hg : ∀ i, t.size ≤ i → g i = new)
    (h : t.At site (.node id cell [x])) (hf : cell.form.isStep = true)
    (ha : accessed? env site.context x.strip = some f) :
    ∃ t' r, (∀ walk, visit env walk id ⟨t, k⟩ = .ok .skip ⟨t', k + 1⟩) ∧
      t.Alters (id :: site.ids) t' ∧ t'.At site (.node id cell [r]) ∧
      r.relabel g = referenceTerm new f x.strip.cell := by
  obtain ⟨t₁, t', r, hnew, hsub, halters, h', hrel⟩ :=
    reference_run (k := k) hg h (NodeKind.isAccess_of_isStep hf) f
  have hx : t.stripParentheses x.label = x.strip.label :=
    Tree.stripParentheses_of_holds (h.holds.child x (by simp)) (h.nodup_child (by simp))
  have ht : target? env t id x.strip.label = some f := by
    rw [← hx, target?_strip env h (NodeKind.context_of_isStep hf) List.mem_cons_self, ha]
  refine ⟨t', r, fun walk => ?_, halters, h', hrel⟩
  rw [visit_stepped h hf, visitStep, WalkM.bind_of_ok (WalkM.tree_run _)]
  simp only [hx, ht]
  refine (WalkM.bind_of_ok hnew).trans ?_
  exact WalkM.bind_of_ok hsub

theorem visit_update {op : AssignOp} {a b : NodeId} {x y : Term NodeId}
    (hg : ∀ i, t.size ≤ i → g i = new) (h : t.At site (.node id cell [x, y]))
    (hf : cell.form = .assignment op a b)
    (ho : (op.isSimple && !f.field.type.isPrimitive) = false)
    (ha : accessed? env site.context x.strip = some f) :
    ∃ t' r, (∀ walk, visit env walk id ⟨t, k⟩ = .ok .children ⟨t', k + 1⟩) ∧
      t.Alters (id :: site.ids) t' ∧ t'.At site (.node id cell [r, y]) ∧
      r.relabel g = referenceTerm new f x.strip.cell := by
  obtain ⟨t₁, t', r, hnew, hsub, halters, h', hrel⟩ :=
    reference_run (k := k) hg h (by rw [hf]; rfl) f
  have hx : t.stripParentheses x.label = x.strip.label :=
    Tree.stripParentheses_of_holds (h.holds.child x (by simp)) (h.nodup_child (by simp))
  have ht : target? env t id x.strip.label = some f := by
    rw [← hx, target?_strip env h (by rw [hf]; exact fun _ => rfl) List.mem_cons_self, ha]
  refine ⟨t', r, fun walk => ?_, halters, h', hrel⟩
  rw [visit_assignment h hf, visitAssignment, WalkM.bind_of_ok (WalkM.tree_run _)]
  simp only [hx, ht, ho]
  refine (WalkM.bind_of_ok hnew).trans ?_
  exact WalkM.bind_of_ok hsub

/-- A call of the setter takes the place of an assignment; its argument is walked where it stands
then. -/
theorem visit_store {op : AssignOp} {a b : NodeId} {x y : Term NodeId}
    (h : t.At site (.node id cell [x, y])) (hr : site ≠ .root)
    (hf : cell.form = .assignment op a b)
    (ho : (op.isSimple && !f.field.type.isPrimitive) = true)
    (ha : accessed? env site.context x.strip = some f) :
    ∃ t', t.Alters site.ids t' ∧
      t'.At (.slot t.size ⟨.functionCall f.setter [0], cell.span, false⟩ [] [] site) y ∧
      ∀ walk, visit env walk id ⟨t, k⟩ =
        (do walk y.label; return .skip : AccessM Descend) ⟨t', k + 1⟩ := by
  let call : NodeKind := .functionCall f.setter [y.label]
  let t₁ := (t.alloc call cell.span).2
  have hn := List.nodup_append.1 h.nodup
  have hy : y.labels.Sublist ([x, y].flatMap Term.labels) := Term.labels_sublist_of_mem (by simp)
  have hid : id ∉ y.labels := fun hm =>
    (List.nodup_cons.1 (Term.labels_node .. ▸ hn.1)).1 (hy.subset hm)
  have hlabels : y.labels.Sublist (Term.node id cell [x, y]).labels := by
    rw [Term.labels_node]
    exact hy.cons id
  have hframe : ∀ i < t.size, i ≠ y.label → t₁.node? i = t.node? i := fun i hi hne =>
    Tree.node?_alloc_of_lt call cell.span hi (by simpa [call, NodeKind.children] using hne)
  -- in between, the argument belongs to the call while the assignment still holds it
  have hcall : t₁.Holds none (.node t.size ⟨.functionCall f.setter [0], cell.span, false⟩ [y]) := by
    refine .node (Tree.has_alloc t call cell.span) (List.forall_mem_singleton.2 ?_)
    exact (h.holds.child y (by simp)).adopted (hlabels.nodup hn.1) cell.span rfl
  have hold : t₁.Has id cell site.parent? [x.label, y.label] := by
    refine h.holds.has.congr (hframe id h.holds.has.lt_size ?_)
    rintro rfl
    exact hid y.label_mem_labels
  have hs : t₁.HoldsAround id site := h.around.congr fun i hi => by
    refine hframe i (h.around.lt_size i hi) ?_
    rintro rfl
    exact hn.2.2 _ (hlabels.subset y.label_mem_labels) _ hi rfl
  have hnodup : (id :: ((Term.node t.size ⟨.functionCall f.setter [0], cell.span, false⟩
      [y]).labels ++ site.numbers)).Nodup := by
    have hlt : ∀ i ∈ y.labels ++ site.numbers, i < t.size := fun i hi =>
      (List.mem_append.1 hi).elim ((h.holds.child y (by simp)).lt_size i) (h.around.lt_size i)
    rw [Term.labels_node, List.flatMap_singleton, List.cons_append]
    refine List.nodup_cons.2 ⟨?_, List.nodup_cons.2 ⟨?_, ?_⟩⟩
    · intro hm
      rcases List.mem_cons.1 hm with e | hm
      · exact Nat.ne_of_lt h.holds.has.lt_size e
      · rcases List.mem_append.1 hm with hm | hm
        · exact hid hm
        · exact hn.2.2 _ (Term.label_mem_labels (.node id cell [x, y])) _ hm rfl
    · intro hm
      exact Nat.lt_irrefl _ (hlt _ hm)
    · exact (hlabels.append_right site.numbers).nodup h.nodup
  have hnm : site.Named false := by
    have := h.named
    rwa [Term.isName, Term.form_node, hf] at this
  obtain ⟨t', hrep, halters, h'⟩ := Tree.replace_position hr hold hs hcall hnodup hnm
  have hcalled : t.Alters site.ids t₁ :=
    ⟨Tree.root_alloc .., by simp [t₁], fun i hlt _ => Tree.kind?_alloc_of_lt call cell.span hlt⟩
  refine ⟨t', hcalled.trans halters, ?_, ?_⟩
  · exact At.into (l := []) h' fun _ => trivial
  · intro walk
    have ht : target? env t id (t.stripParentheses x.label) = some f := by
      rw [target?_strip env h (by rw [hf]; exact fun _ => rfl) List.mem_cons_self, ha]
    rw [visit_assignment h hf, visitAssignment, WalkM.bind_of_ok (WalkM.tree_run _)]
    simp only [ht, ho]
    show storeBySetter walk id y.label f ⟨t, k⟩ = _
    rw [storeBySetter, WalkM.bind_of_ok (WalkM.tree_run _), h.holds.has.span,
      WalkM.bind_of_ok (WalkM.alloc_run ..)]
    exact WalkM.bind_of_ok (substitute_run hrep)

end Replacements

end ObjectLowering.StaticAccess
