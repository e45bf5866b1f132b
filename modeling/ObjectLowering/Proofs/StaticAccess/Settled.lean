import ObjectLowering.Proofs.StaticAccess.Rules

/-!
# ObjectLowering.Proofs.StaticAccess.Settled

What lowering leaves behind.

* `wellNamed_lower`: lowering keeps to the rules for names, since a qualified name whose qualifier
  became a call is made a member access.
* `settled_lower`: after lowering no name outside case labels needs an accessor any more.
* `Settled.role_eq`: so no rule applies to what lowering left.
-/

namespace ObjectLowering.StaticAccess

variable {α : Type}

/-- Outside case labels no name or member needs an accessor, in code of the type `context`. -/
inductive Settled (env : Environment) : Option TypeHash → Term α → Prop where
  | caseLabel {context : Option TypeHash} {l : α} {cell : Cell} {cs : List (Term α)} :
    cell.form.isCaseLabel = true → Settled env context (.node l cell cs)
  | node {context : Option TypeHash} {l : α} {cell : Cell} {cs : List (Term α)} :
    accessed? env context (.node l cell cs) = none →
      (∀ c ∈ cs, Settled env (cell.form.context context) c) → Settled env context (.node l cell cs)

variable {env : Environment} {new : α} {context : Option TypeHash}

/-! ## Names -/

theorem isSimpleName_lower (new : α) {s : Term α} (hs : s.isSimpleName = true)
    (ha : accessed? env context s = none) : (lower env new context s).cell = s.cell := by
  cases s with
  | node l cell cs =>
    replace hs : cell.form.isSimpleName = true := hs
    have hr : role env context (.node l cell cs) = .other := by
      cases hf : cell.form <;> simp_all [role, NodeKind.isSimpleName]
    have hq : cell.form.isQualifiedName = false := by
      cases hf : cell.form <;> simp_all [NodeKind.isSimpleName, NodeKind.isQualifiedName]
    rw [lower_other hr, adapt_of_not_isQualifiedName hq]
    rfl

theorem denotes?_of_cell_eq {s r : Term α} (hs : s.isSimpleName = true) (hc : r.cell = s.cell) :
    r.denotes? = s.denotes? := by
  cases s with
  | node l cell cs =>
    cases r with
    | node m cell' ds =>
      obtain rfl : cell' = cell := hc
      obtain ⟨form, span, nilCheck⟩ := cell'
      replace hs : form.isSimpleName = true := hs
      cases form with
      | simpleName name binding =>
        cases binding with
        | none => simp [Term.denotes?]
        | some b => cases b <;> simp [Term.denotes?]
      | _ => cases hs

theorem lower_member (new : α) {n : Term α} (hs : n.isSimpleName = true)
    (ha : accessed? env context n = none) : (lower env new context n).isSimpleName = true ∧
      accessed? env context (lower env new context n) = none := by
  have hc := isSimpleName_lower new hs ha
  refine ⟨?_, ?_⟩
  · rwa [Term.isSimpleName, Term.form, hc]
  · rwa [accessed?, denotes?_of_cell_eq hs hc]

/-- The names of a node after its children are lowered, if it needs no accessor itself. -/
theorem lower_names {l : α} {cell : Cell} {cs cs' : List (Term α)}
    (hn : Term.NamesOk cell.form cs) (ha : accessed? env context (.node l cell cs) = none)
    (hcs : cs' = cs.map (lower env new (cell.form.context context))) :
    Term.NamesOk (adapt cell cs').form cs' ∧
      accessed? env context (.node l (adapt cell cs') cs') = none := by
  obtain ⟨form, span, nilCheck⟩ := cell
  cases form with
  | qualifiedName a b =>
    obtain ⟨q, n, rfl, -, hs⟩ := hn
    have hn : accessed? env context n = none := by
      simpa [accessed?, Term.denotes?] using ha
    obtain ⟨hs', ha'⟩ := lower_member new hs hn
    replace hcs : cs' = [lower env new context q, lower env new context n] := hcs
    subst hcs
    cases hq : (lower env new context q).isName with
    | true =>
      rw [adapt, if_pos hq]
      exact ⟨⟨_, _, rfl, hq, hs'⟩, by simpa [accessed?, Term.denotes?] using ha'⟩
    | false =>
      rw [adapt, hq, if_neg Bool.false_ne_true, Cell.expose_of_isQualifiedName rfl]
      exact ⟨⟨_, _, rfl, hs'⟩, by simpa [accessed?, Term.denotes?] using ha'⟩
  | fieldAccess a b =>
    obtain ⟨base, n, rfl, hs⟩ := hn
    have hn : accessed? env context n = none := by
      simpa [accessed?, Term.denotes?] using ha
    obtain ⟨hs', ha'⟩ := lower_member new hs hn
    replace hcs : cs' = [lower env new context base, lower env new context n] := hcs
    subst hcs
    rw [adapt_of_not_isQualifiedName rfl]
    exact ⟨⟨_, _, rfl, hs'⟩, by simpa [accessed?, Term.denotes?] using ha'⟩
  | simpleName name binding =>
    have hd : (Term.node l ⟨.simpleName name binding, span, nilCheck⟩ cs').denotes? =
        (Term.node l ⟨.simpleName name binding, span, nilCheck⟩ cs).denotes? :=
      denotes?_of_cell_eq rfl rfl
    rw [adapt_of_not_isQualifiedName rfl]
    exact ⟨trivial, by rwa [accessed?, hd]⟩
  | _ =>
    rw [adapt_of_not_isQualifiedName rfl]
    exact ⟨trivial, accessed?_eq_none (denotes?_eq_none rfl)⟩

theorem wellNamed_reference (f : StaticField) (name : Cell) : (referenceTerm new f name).WellNamed := by
  refine .mk trivial (List.forall_mem_singleton.2 ?_)
  exact .mk trivial (by simp)

theorem wellNamed_of_relabel {r : Term NodeId} {g : NodeId → α} {f : StaticField} {name : Cell}
    (h : r.relabel g = referenceTerm new f name) : r.WellNamed := by
  refine (Term.wellNamed_relabel (f := g)).1 ?_
  rw [h]
  exact wellNamed_reference f name

theorem length_labels_of_relabel {r : Term NodeId} {g : NodeId → α} {f : StaticField}
    {name : Cell} (h : r.relabel g = referenceTerm new f name) : r.labels.length = 2 := by
  rw [← List.length_map g, ← Term.labels_relabel, h]
  simp [referenceTerm, Term.labels_node]

theorem wellNamed_lower {s : Term α} (h : s.WellNamed) :
    (lower env new context s).WellNamed := by
  induction s generalizing context with
  | node l cell cs ih =>
    have hr := roleOf_role env context (.node l cell cs)
    generalize hrole : role env context (.node l cell cs) = r at hr
    cases hr with
    | caseLabel => rwa [lower_caseLabel hrole]
    | read =>
      rw [lower_read hrole, readTerm]
      exact .mk trivial (by simp)
    | store =>
      rw [lower_store hrole, storeTerm]
      refine .mk trivial (List.forall_mem_singleton.2 ?_)
      exact ih _ (by simp) (h.child _ (by simp))
    | update hf =>
      rw [lower_update hrole]
      refine .mk (by rw [hf]; trivial) (List.forall_mem_cons.2 ⟨?_, List.forall_mem_singleton.2 ?_⟩)
      · exact wellNamed_reference ..
      · exact ih _ (by simp) (h.child _ (by simp))
    | step hf =>
      rw [lower_step hrole]
      refine .mk (Term.namesOk_of_isAccess_eq_false (NodeKind.isAccess_of_isStep hf)) ?_
      exact List.forall_mem_singleton.2 (wellNamed_reference ..)
    | other _ _ _ ha =>
      rw [lower_other hrole]
      refine .mk (lower_names h.names ha rfl).1 ?_
      intro c hc
      obtain ⟨d, hd, rfl⟩ := List.mem_map.1 hc
      exact ih d hd (h.child d hd)

/-! ## Accesses -/

theorem settled_of_isAccess {l : α} {cell : Cell} {cs : List (Term α)}
    (h : cell.form.isAccess = false) (hc : ∀ c ∈ cs, Settled env (cell.form.context context) c) :
    Settled env context (.node l cell cs) :=
  .node (accessed?_eq_none (denotes?_eq_none h)) hc

theorem settled_reference (f : StaticField) (name : Cell) :
    Settled env context (referenceTerm new f name) := by
  refine settled_of_isAccess rfl (List.forall_mem_singleton.2 ?_)
  exact settled_of_isAccess rfl (by simp)

theorem settled_lower {s : Term α} (h : s.WellNamed) :
    Settled env context (lower env new context s) := by
  induction s generalizing context with
  | node l cell cs ih =>
    have hr := roleOf_role env context (.node l cell cs)
    generalize hrole : role env context (.node l cell cs) = r at hr
    cases hr with
    | caseLabel hf =>
      rw [lower_caseLabel hrole]
      exact .caseLabel hf
    | read =>
      rw [lower_read hrole]
      exact settled_of_isAccess rfl (by simp)
    | store =>
      rw [lower_store hrole]
      refine settled_of_isAccess rfl (List.forall_mem_singleton.2 ?_)
      exact ih _ (by simp) (h.child _ (by simp))
    | update hf =>
      rw [lower_update hrole]
      refine settled_of_isAccess (by rw [hf]; rfl) ?_
      rw [hf]
      refine List.forall_mem_cons.2 ⟨settled_reference .., List.forall_mem_singleton.2 ?_⟩
      exact ih _ (by simp) (h.child _ (by simp))
    | step hf =>
      rw [lower_step hrole]
      refine settled_of_isAccess (NodeKind.isAccess_of_isStep hf) (List.forall_mem_singleton.2 ?_)
      exact settled_reference ..
    | other _ _ _ ha =>
      rw [lower_other hrole]
      refine .node (lower_names h.names ha rfl).2 ?_
      intro c hc
      obtain ⟨d, hd, rfl⟩ := List.mem_map.1 hc
      rw [context_adapt]
      exact ih d hd (h.child d hd)

theorem Settled.accessed?_eq_none {s : Term α} (h : Settled env context s) :
    accessed? env context s = none := by
  cases h with
  | caseLabel hf =>
    exact StaticAccess.accessed?_eq_none (denotes?_eq_none (NodeKind.isAccess_of_isCaseLabel hf))
  | node ha _ => exact ha

theorem Settled.child {l : α} {cell : Cell} {cs : List (Term α)}
    (h : Settled env context (.node l cell cs)) (hf : cell.form.isCaseLabel = false) :
    ∀ c ∈ cs, Settled env (cell.form.context context) c := by
  cases h with
  | caseLabel hc => exact absurd (hf.symm.trans hc) Bool.false_ne_true
  | node _ hc => exact hc

theorem settled_relabel {β : Type} {f : α → β} {s : Term α} :
    Settled env context (s.relabel f) ↔ Settled env context s := by
  induction s generalizing context with
  | node l cell cs ih =>
    rw [Term.relabel_node]
    cases hf : cell.form.isCaseLabel with
    | true => exact ⟨fun _ => .caseLabel hf, fun _ => .caseLabel hf⟩
    | false =>
      have ha := accessed?_relabel env context f (.node l cell cs)
      rw [Term.relabel_node] at ha
      refine ⟨fun h => .node ?_ ?_, fun h => .node ?_ ?_⟩
      · rw [← ha, h.accessed?_eq_none]
      · intro c hc
        exact (ih c hc).1 (h.child hf _ (List.mem_map_of_mem hc))
      · rw [ha, h.accessed?_eq_none]
      · intro c hc
        obtain ⟨d, hd, rfl⟩ := List.mem_map.1 hc
        exact (ih d hd).2 (h.child hf d hd)

theorem Settled.strip {s : Term α} (h : Settled env context s) : Settled env context s.strip := by
  fun_induction Term.strip s with
  | case1 l n span nilCheck inner ih => exact ih (h.child rfl inner (by simp))
  | case2 => exact h

/-- No rule applies to a settled term but that case labels are left alone. -/
theorem Settled.role_eq {s : Term α} (h : Settled env context s) :
    role env context s = .caseLabel ∨ role env context s = .other := by
  cases s with
  | node l cell cs =>
    have hr := roleOf_role env context (.node l cell cs)
    generalize role env context (.node l cell cs) = r at hr ⊢
    cases hr with
    | caseLabel => exact .inl rfl
    | other => exact .inr rfl
    | read ha =>
      rw [h.accessed?_eq_none] at ha
      cases ha
    | store hf _ ha | update hf _ ha =>
      have ht := (h.child (by rw [hf]; rfl) _ List.mem_cons_self).strip.accessed?_eq_none
      rw [hf] at ht
      cases ht.symm.trans ha
    | step hf ha =>
      have ho := h.child (NodeKind.isCaseLabel_of_isStep hf) _ List.mem_cons_self
      rw [NodeKind.context_of_isStep hf] at ho
      cases ho.strip.accessed?_eq_none.symm.trans ha

/-- Lowering leaves a settled program alone. -/
theorem lower_of_settled {s : Term α} (h : Settled env context s) (hn : s.WellNamed) :
    lower env new context s = s := by
  induction s generalizing context with
  | node l cell cs ih =>
    rcases h.role_eq with hrole | hrole
    · exact lower_caseLabel hrole
    · have hf : cell.form.isCaseLabel = false := by
        have hr := roleOf_role env context (.node l cell cs)
        rw [hrole] at hr
        cases hr with
        | other hf => exact hf
      have hcs : cs.map (lower env new (cell.form.context context)) = cs := by
        refine (List.map_congr_left ?_).trans (List.map_id cs)
        intro c hc
        exact ih c hc (h.child hf c hc) (hn.child c hc)
      have ha : adapt cell cs = cell := by
        cases hq : cell.form.isQualifiedName with
        | false => exact adapt_of_not_isQualifiedName hq cs
        | true =>
          obtain ⟨q, n, rfl, hname, -⟩ := Term.namesOk_of_isQualifiedName hq hn.names
          rw [adapt, if_pos hname]
      rw [lower_other hrole, hcs, ha]

end ObjectLowering.StaticAccess
