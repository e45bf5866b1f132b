import ObjectLowering.Lowering.StaticAccess
import ObjectLowering.Proofs.Term

/-!
# ObjectLowering.Proofs.StaticAccess.Rules

What routing static fields through accessors means for whole programs, as a recursion over terms
that knows nothing of numbered nodes, parents or the order of a walk.

* `foreignField?`: the variables that code in a type may only reach through accessors.
* `role`: the rule that applies to a term, which depends on the term and on the type around it.
* `lower`: the program after lowering. Nodes made by lowering get the label `new`; all others keep
  theirs.
-/

namespace ObjectLowering.StaticAccess

variable {α β : Type}

/-- The field that a variable is, if code in the type `context` needs accessors for it. -/
def foreignField? (env : Environment) (context : Option TypeHash) (v : VarId) :
    Option StaticField := do
  let field ← env.variableAt? v
  guard (needsAccessor context field)
  let owner ← field.declaringType
  let ownerName ← env.fullName? owner
  return { owner, ownerName, field }

theorem foreignField?_eq_some_iff {env : Environment} {context : Option TypeHash} {x : VarId}
    {g : StaticField} : foreignField? env context x = some g ↔
      env.variableAt? x = some g.field ∧ needsAccessor context g.field = true ∧
        g.field.declaringType = some g.owner ∧ env.fullName? g.owner = some g.ownerName := by
  constructor
  · intro h
    obtain ⟨v, hv, h⟩ := Option.bind_eq_some_iff.1 h
    obtain ⟨_, hneeds, h⟩ := Option.bind_eq_some_iff.1 h
    obtain ⟨owner, howner, h⟩ := Option.bind_eq_some_iff.1 h
    obtain ⟨ownerName, hname, h⟩ := Option.bind_eq_some_iff.1 h
    cases h
    refine ⟨hv, ?_, howner, hname⟩
    unfold guard at hneeds
    split at hneeds
    · assumption
    · cases hneeds
  · rintro ⟨hv, hneeds, howner, hname⟩
    refine Option.bind_eq_some_iff.2 ⟨g.field, hv, Option.bind_eq_some_iff.2 ⟨(), if_pos hneeds, ?_⟩⟩
    refine Option.bind_eq_some_iff.2 ⟨g.owner, howner, ?_⟩
    exact Option.bind_eq_some_iff.2 ⟨g.ownerName, hname, rfl⟩

/-- The field that a name or member stands for, if code in the type `context` needs accessors for
it. -/
def accessed? (env : Environment) (context : Option TypeHash) (s : Term α) : Option StaticField :=
  s.denotes?.bind (foreignField? env context)

inductive Role where
  /-- Case labels are left alone. -/
  | caseLabel
  /-- An assignment that a call of the setter replaces. -/
  | store (field : StaticField)
  /-- An assignment whose target becomes a reference. -/
  | update (field : StaticField)
  /-- A step whose operand becomes a reference. -/
  | step (field : StaticField)
  /-- A name that a call of the getter replaces. -/
  | read (field : StaticField)
  | other

/-- The rule for an assignment, given the field that its target stands for. -/
def assignRole (op : AssignOp) : Option StaticField → Role
  | some f => if op.isSimple && !f.field.type.isPrimitive then .store f else .update f
  | none => .other

/-- The rule that applies to a term in code of the type `context`. -/
def role (env : Environment) (context : Option TypeHash) : Term α → Role
  | .node label cell children =>
    match cell.form, children with
    | .switchCase _, _ => .caseLabel
    | .assignment op _ _, [target, _] => assignRole op (accessed? env context target.strip)
    | .step _ _, [operand] => (accessed? env context operand.strip).elim .other .step
    | .unary op _, [operand] =>
      if op.isStep then (accessed? env context operand.strip).elim .other .step else .other
    -- of all other terms only names and members stand for a variable
    | _, children => (accessed? env context (.node label cell children)).elim .other .read

/-- A call that gives the value of a field, in the place of a name. -/
def readTerm (new : α) (f : StaticField) (name : Cell) : Term α :=
  .node new ⟨.functionCall f.getter [], name.span, name.nilCheck⟩ []

/-- A dereferenced call that stands for the storage of a field, in the place of a name. -/
def referenceTerm (new : α) (f : StaticField) (name : Cell) : Term α :=
  .node new ⟨.unary .dereference 0, name.span, name.nilCheck⟩
    [.node new ⟨.functionCall f.refGetter [], name.span, false⟩ []]

/-- A call that stores a value into a field, in the place of an assignment. -/
def storeTerm (new : α) (f : StaticField) (assignment : Cell) (value : Term α) : Term α :=
  .node new ⟨.functionCall f.setter [0], assignment.span, false⟩ [value]

/-- What a node says over lowered children: a qualified name whose qualifier is no name any more is
a member access. -/
def adapt (cell : Cell) : List (Term α) → Cell
  | [] => cell
  | base :: _ => if base.isName then cell else cell.expose

/-- A program with the accesses to static fields of other types routed through accessors, where
`context` is the type in whose code it stands. -/
def lower (env : Environment) (new : α) (context : Option TypeHash) : Term α → Term α
  | .node label cell children =>
    match role env context (.node label cell children), children with
    | .caseLabel, children => .node label cell children
    | .read f, _ => readTerm new f cell
    | .store f, [_, value] => storeTerm new f cell (lower env new context value)
    | .update f, [target, value] =>
      .node label cell [referenceTerm new f target.strip.cell, lower env new context value]
    | .step f, [operand] => .node label cell [referenceTerm new f operand.strip.cell]
    | _, children =>
      let children := children.map (lower env new (cell.form.context context))
      .node label (adapt cell children) children

/-! ## Which rule applies -/

/-- The rules with all that is known of a term to which each applies. -/
inductive RoleOf (env : Environment) (context : Option TypeHash) : Term α → Role → Prop where
  | caseLabel {l : α} {cell : Cell} {cs : List (Term α)} (hf : cell.form.isCaseLabel = true) :
    RoleOf env context (.node l cell cs) .caseLabel
  | store {l : α} {cell : Cell} {op : AssignOp} {a b : NodeId} {target value : Term α}
    {f : StaticField} (hf : cell.form = .assignment op a b)
    (ho : (op.isSimple && !f.field.type.isPrimitive) = true)
    (ha : accessed? env context target.strip = some f) :
    RoleOf env context (.node l cell [target, value]) (.store f)
  | update {l : α} {cell : Cell} {op : AssignOp} {a b : NodeId} {target value : Term α}
    {f : StaticField} (hf : cell.form = .assignment op a b)
    (ho : (op.isSimple && !f.field.type.isPrimitive) = false)
    (ha : accessed? env context target.strip = some f) :
    RoleOf env context (.node l cell [target, value]) (.update f)
  | step {l : α} {cell : Cell} {operand : Term α} {f : StaticField} (hf : cell.form.isStep = true)
    (ha : accessed? env context operand.strip = some f) :
    RoleOf env context (.node l cell [operand]) (.step f)
  | read {l : α} {cell : Cell} {cs : List (Term α)} {f : StaticField}
    (ha : accessed? env context (.node l cell cs) = some f) :
    RoleOf env context (.node l cell cs) (.read f)
  | other {l : α} {cell : Cell} {cs : List (Term α)} (hf : cell.form.isCaseLabel = false)
    (hassign : ∀ op a b target value, cell.form = .assignment op a b → cs = [target, value] →
      accessed? env context target.strip = none)
    (hstep : ∀ operand, cell.form.isStep = true → cs = [operand] →
      accessed? env context operand.strip = none)
    (ha : accessed? env context (.node l cell cs) = none) :
    RoleOf env context (.node l cell cs) .other

theorem accessed?_eq_none {env : Environment} {context : Option TypeHash} {s : Term α}
    (h : s.denotes? = none) : accessed? env context s = none := by
  rw [accessed?, h, Option.bind_none]

/-- Only names and members stand for a variable. -/
theorem denotes?_eq_none {l : α} {cell : Cell} {cs : List (Term α)}
    (h : cell.form.isAccess = false) : (Term.node l cell cs).denotes? = none := by
  unfold Term.denotes?
  split <;> first | (rename_i e; cases e; cases h) | rfl

theorem isAccess_of_denotes? {s : Term α} {v : VarId} (h : s.denotes? = some v) :
    s.form.isAccess = true := by
  cases s with
  | node l cell cs =>
    cases hf : cell.form.isAccess with
    | true => exact hf
    | false => cases (denotes?_eq_none hf).symm.trans h

theorem roleOf_step (env : Environment) (context : Option TypeHash) {l : α} {cell : Cell}
    {operand : Term α} (hf : cell.form.isStep = true) :
    RoleOf env context (.node l cell [operand])
      ((accessed? env context operand.strip).elim .other .step) := by
  cases ha : accessed? env context operand.strip with
  | some f => exact .step hf ha
  | none =>
    refine .other ?_ ?_ ?_ ?_
    · exact NodeKind.isCaseLabel_of_isStep hf
    · intro _ _ _ _ _ h _
      rw [h] at hf
      cases hf
    · intro _ _ e
      cases e
      exact ha
    · exact accessed?_eq_none (denotes?_eq_none (NodeKind.isAccess_of_isStep hf))

theorem roleOf_role (env : Environment) (context : Option TypeHash) (s : Term α) :
    RoleOf env context s (role env context s) := by
  cases s with
  | node l cell cs =>
    simp only [role]
    split
    · rename_i hf
      exact .caseLabel (by rw [hf]; rfl)
    · rename_i op a b target value hf
      cases ha : accessed? env context target.strip with
      | some f =>
        cases ho : op.isSimple && !f.field.type.isPrimitive with
        | true =>
          rw [assignRole, if_pos ho]
          exact .store hf ho ha
        | false =>
          rw [assignRole, ho, if_neg Bool.false_ne_true]
          exact .update hf ho ha
      | none =>
        refine .other (by rw [hf]; rfl) ?_ ?_ ?_
        · intro _ _ _ _ _ _ e
          cases e
          exact ha
        · intro _ hs _
          rw [hf] at hs
          cases hs
        · exact accessed?_eq_none (denotes?_eq_none (by rw [hf]; rfl))
    · rename_i hf
      exact roleOf_step env context (by rw [hf]; rfl)
    · rename_i op _ operand hf
      split
      · rename_i ho
        exact roleOf_step env context (by rw [hf]; exact ho)
      · rename_i ho
        refine .other (by rw [hf]; rfl) ?_ ?_ ?_
        · intro _ _ _ _ _ h
          rw [hf] at h
          cases h
        · intro _ hs
          rw [hf] at hs
          exact absurd hs ho
        · exact accessed?_eq_none (denotes?_eq_none (by rw [hf]; rfl))
    · rename_i cs _ _ hcase hassign hstep hunary
      cases ha : accessed? env context (.node l cell cs) with
      | some f => exact .read ha
      | none =>
        refine .other ?_ (fun op a b target value h e => (hassign op a b target value h e).elim)
          ?_ ha
        · cases hf : cell.form with
          | switchCase label => exact (hcase label hf).elim
          | _ => rfl
        · intro operand hs e
          cases hf : cell.form with
          | step op n => exact (hstep op n operand hf e).elim
          | unary op n => exact (hunary op n operand hf e).elim
          | _ =>
            rw [hf] at hs
            cases hs

/-! ## Lowering by rules -/

section Equations

variable {env : Environment} {new : α} {context : Option TypeHash} {l : α} {cell : Cell}
  {cs : List (Term α)} {f : StaticField}

theorem lower_caseLabel (h : role env context (.node l cell cs) = .caseLabel) :
    lower env new context (.node l cell cs) = .node l cell cs := by
  rw [lower.eq_def]
  simp only [h]

theorem lower_read (h : role env context (.node l cell cs) = .read f) :
    lower env new context (.node l cell cs) = readTerm new f cell := by
  rw [lower.eq_def]
  simp only [h]

theorem lower_store {target value : Term α}
    (h : role env context (.node l cell [target, value]) = .store f) :
    lower env new context (.node l cell [target, value]) =
      storeTerm new f cell (lower env new context value) := by
  rw [lower.eq_def]
  simp only [h]

theorem lower_update {target value : Term α}
    (h : role env context (.node l cell [target, value]) = .update f) :
    lower env new context (.node l cell [target, value]) =
      .node l cell [referenceTerm new f target.strip.cell, lower env new context value] := by
  rw [lower.eq_def]
  simp only [h]

theorem lower_step {operand : Term α}
    (h : role env context (.node l cell [operand]) = .step f) :
    lower env new context (.node l cell [operand]) =
      .node l cell [referenceTerm new f operand.strip.cell] := by
  rw [lower.eq_def]
  simp only [h]

theorem lower_other (h : role env context (.node l cell cs) = .other) :
    lower env new context (.node l cell cs) =
      .node l (adapt cell (cs.map (lower env new (cell.form.context context))))
        (cs.map (lower env new (cell.form.context context))) := by
  rw [lower.eq_def]
  simp only [h]

/-- All labels of a reference are new. -/
theorem eq_of_mem_labels_reference {new i : α} {name : Cell}
    (h : i ∈ (referenceTerm new f name).labels) : i = new := by
  simpa [referenceTerm, Term.labels_node] using h

/-- A lowered term is the term itself, if that is a case label, or else a node over lowered children
and new terms. -/
theorem lower_shape (env : Environment) (new : α) (context : Option TypeHash) (l : α) (cell : Cell)
    (cs : List (Term α)) :
    cell.form.isCaseLabel = true ∧ lower env new context (.node l cell cs) = .node l cell cs ∨
      ∃ l' cell' ds, lower env new context (.node l cell cs) = .node l' cell' ds ∧
        (l' = l ∨ l' = new) ∧ ∀ d ∈ ds, (∃ c ∈ cs, d = lower env new (cell.form.context context) c) ∨
          ∀ i ∈ d.labels, i = new := by
  have hrole := roleOf_role env context (.node l cell cs)
  generalize hk : role env context (.node l cell cs) = k at hrole
  cases hrole with
  | caseLabel hf => exact .inl ⟨hf, lower_caseLabel hk⟩
  | read => exact .inr ⟨_, _, _, lower_read hk, .inr rfl, nofun⟩
  | @store _ _ _ _ _ target value f hf =>
    have hctx : cell.form.context context = context := by rw [hf]; rfl
    refine .inr ⟨_, _, _, lower_store hk, .inr rfl, List.forall_mem_singleton.2 (.inl ?_)⟩
    exact ⟨value, by simp, by rw [hctx]⟩
  | @update _ _ _ _ _ target value f hf =>
    have hctx : cell.form.context context = context := by rw [hf]; rfl
    refine .inr ⟨_, _, _, lower_update hk, .inl rfl, List.forall_mem_cons.2 ⟨.inr ?_, ?_⟩⟩
    · exact fun i hi => eq_of_mem_labels_reference hi
    · exact List.forall_mem_singleton.2 (.inl ⟨value, by simp, by rw [hctx]⟩)
  | step =>
    refine .inr ⟨_, _, _, lower_step hk, .inl rfl, List.forall_mem_singleton.2 (.inr ?_)⟩
    exact fun i hi => eq_of_mem_labels_reference hi
  | other =>
    refine .inr ⟨_, _, _, lower_other hk, .inl rfl, List.forall_mem_map.2 fun c hc => .inl ?_⟩
    exact ⟨c, hc, rfl⟩

/-- Lowering makes no labels but that of new nodes. -/
theorem mem_labels_of_mem_lower {i : α} {s : Term α}
    (h : i ∈ (lower env new context s).labels) : i = new ∨ i ∈ s.labels := by
  induction s generalizing context with
  | node l cell cs ih =>
    rcases lower_shape env new context l cell cs with ⟨-, he⟩ | ⟨l', cell', ds, he, hl, hds⟩
    · rw [he] at h
      exact .inr h
    · rw [he, Term.labels_node, List.mem_cons, List.mem_flatMap] at h
      rcases h with rfl | ⟨d, hd, hi⟩
      · rcases hl with rfl | rfl
        · exact .inr (Term.label_mem_labels _)
        · exact .inl rfl
      · rcases hds d hd with ⟨c, hc, rfl⟩ | hnew
        · exact (ih c hc hi).imp_right (Term.labels_subset_of_mem (s := .node l cell cs) hc i)
        · exact .inl (hnew i hi)

end Equations

theorem adapt_of_not_isQualifiedName {cell : Cell} (h : cell.form.isQualifiedName = false)
    (cs : List (Term α)) : adapt cell cs = cell := by
  cases cs with
  | nil => rfl
  | cons base cs => rw [adapt, Cell.expose_of_not_isQualifiedName h, ite_self]

theorem context_adapt (context : Option TypeHash) (cell : Cell) (cs : List (Term α)) :
    (adapt cell cs).form.context context = cell.form.context context := by
  cases cs with
  | nil => rfl
  | cons base cs =>
    rw [adapt]
    split
    · rfl
    · exact cell.context_expose context

/-! ## Labels do not matter -/

theorem accessed?_relabel (env : Environment) (context : Option TypeHash) (f : α → β)
    (s : Term α) : accessed? env context (s.relabel f) = accessed? env context s := by
  rw [accessed?, Term.denotes?_relabel, accessed?]

theorem role_relabel (env : Environment) (context : Option TypeHash) (f : α → β) (s : Term α) :
    role env context (s.relabel f) = role env context s := by
  cases s with
  | node l cell cs =>
    have ha := accessed?_relabel env context f (.node l cell cs)
    rw [Term.relabel_node] at ha ⊢
    have hstrip (c : Term α) : accessed? env context (c.relabel f).strip =
        accessed? env context c.strip := by
      rw [Term.strip_relabel, accessed?_relabel]
    match cs with
    | [] => cases hf : cell.form <;> simp [role, hf] at ha ⊢ <;> rw [ha]
    | [a] => cases hf : cell.form <;> simp [role, hf, hstrip] at ha ⊢ <;> rw [ha]
    | [a, b] => cases hf : cell.form <;> simp [role, hf, hstrip] at ha ⊢ <;> rw [ha]
    | a :: b :: c :: r => cases hf : cell.form <;> simp [role, hf] at ha ⊢ <;> rw [ha]

theorem adapt_relabel (f : α → β) (cell : Cell) (cs : List (Term α)) :
    adapt cell (cs.map (Term.relabel f)) = adapt cell cs := by
  cases cs <;> simp [adapt]

theorem lower_relabel (env : Environment) (new : α) (context : Option TypeHash) (f : α → β)
    (s : Term α) :
    (lower env new context s).relabel f = lower env (f new) context (s.relabel f) := by
  induction s generalizing context with
  | node l cell cs ih =>
    have hr := role_relabel env context f (.node l cell cs)
    rw [Term.relabel_node] at hr ⊢
    have h := roleOf_role env context (.node l cell cs)
    generalize hrole : role env context (.node l cell cs) = r at h hr
    cases h with
    | caseLabel => rw [lower_caseLabel hrole, lower_caseLabel hr, Term.relabel_node]
    | read =>
      rw [lower_read hrole, lower_read hr, readTerm, Term.relabel_node]
      rfl
    | @store _ _ _ _ _ target value g =>
      simp only [List.map_cons, List.map_nil] at hr ⊢
      rw [lower_store hrole, lower_store hr, storeTerm, Term.relabel_node, storeTerm,
        List.map_singleton, ih value (by simp)]
    | @update _ _ _ _ _ target value g =>
      simp only [List.map_cons, List.map_nil] at hr ⊢
      rw [lower_update hrole, lower_update hr, Term.relabel_node, Term.strip_relabel,
        Term.cell_relabel, List.map_cons, List.map_singleton, ih value (by simp)]
      simp [referenceTerm, Term.relabel_node]
    | @step _ _ operand g =>
      simp only [List.map_cons, List.map_nil] at hr ⊢
      rw [lower_step hrole, lower_step hr, Term.relabel_node, Term.strip_relabel,
        Term.cell_relabel, List.map_singleton]
      simp [referenceTerm, Term.relabel_node]
    | other =>
      have hcs : (cs.map (lower env new (cell.form.context context))).map (Term.relabel f) =
          (cs.map (Term.relabel f)).map (lower env (f new) (cell.form.context context)) := by
        rw [List.map_map, List.map_map]
        exact List.map_congr_left fun c hc => ih c hc _
      rw [lower_other hrole, lower_other hr, Term.relabel_node, hcs, ← adapt_relabel f, hcs]

end ObjectLowering.StaticAccess
