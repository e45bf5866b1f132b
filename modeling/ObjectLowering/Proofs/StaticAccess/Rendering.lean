import ObjectLowering.Proofs.Rendering
import ObjectLowering.Proofs.StaticAccess.Origins

/-!
# ObjectLowering.Proofs.StaticAccess.Rendering

What has a text before the pass has one afterwards.

* `renders_lower`, `states_lower`: lowering an expression or a statement that has a text gives one that
  has a text.
* `run_shows`: after the run the tree shows what has become of each term in the program.
* `pass_keeps_rendering`: statements and field initializers are still rendered after the pass.
-/

namespace ObjectLowering.StaticAccess

variable {α : Type} {env env' : Environment} {new : α} {context : Option TypeHash}

/-! ## Lowered terms -/

theorem textParts?_adapt {β : Type} {formOf : β → Option NodeKind} {children : List β} (cell : Cell)
    (ds : List (Term α)) : textParts? env' formOf (adapt cell ds).form children =
      textParts? env' formOf cell.form children := by
  cases hq : cell.form.isQualifiedName with
  | false => rw [adapt_of_not_isQualifiedName hq]
  | true =>
    cases ds with
    | nil => rfl
    | cons base ds =>
      rw [adapt]
      split
      · rfl
      · rw [Cell.expose_of_isQualifiedName hq]
        cases hf : cell.form <;> first | rfl | (rw [hf] at hq; cases hq)

/-- A member is lowered to a member of the same name. -/
theorem form_lower_name {l : α} {cell : Cell} {base name : Term α} (hm : cell.form.isMember = true)
    (hn : Term.NamesOk cell.form [base, name])
    (ha : accessed? env context (.node l cell [base, name]) = none) :
    (lower env new (cell.form.context context) name).form = name.form := by
  have hname : name.isSimpleName = true ∧ accessed? env context name = none := by
    obtain ⟨form, span, nilCheck⟩ := cell
    cases form with
    | qualifiedName =>
      obtain ⟨_, _, e, -, hs⟩ := hn
      cases e
      exact ⟨hs, by simpa [accessed?, Term.denotes?] using ha⟩
    | fieldAccess =>
      obtain ⟨_, _, e, hs⟩ := hn
      cases e
      exact ⟨hs, by simpa [accessed?, Term.denotes?] using ha⟩
    | _ => cases hm
  have hctx : cell.form.context context = context := by
    cases hf : cell.form <;> first | rfl | (rw [hf] at hm; cases hm)
  rw [hctx, Term.form, isSimpleName_lower new hname.1 hname.2, Term.form]

/-- The parts of a node that needs no accessor itself are lowered where they are. -/
theorem textParts?_lower {l : α} {cell : Cell} {cs : List (Term α)}
    (hn : Term.NamesOk cell.form cs) (ha : accessed? env context (.node l cell cs) = none)
    (ds : List (Term α)) :
    textParts? env' (fun c => some c.form) (adapt cell ds).form
        (cs.map (lower env new (cell.form.context context))) =
      (textParts? env' (fun c => some c.form) cell.form cs).map
        (List.map (lower env new (cell.form.context context))) := by
  rw [textParts?_adapt]
  refine textParts?_map _ fun base name hm e => ?_
  subst e
  rw [form_lower_name hm hn ha]

theorem textParts?_of_isStep {β : Type} {formOf : β → Option NodeKind} {form : NodeKind}
    {children : List β} (h : form.isStep = true) :
    textParts? env' formOf form children = some children := by
  cases form <;> first | rfl | cases h

theorem renders_reference (f : StaticField) (name : Cell) : (referenceTerm new f name).Renders env' :=
  .mk rfl (List.forall_mem_singleton.2 (.mk rfl nofun))

/-- Lowering an expression that has a text gives one that has a text. -/
theorem renders_lower {s : Term α} (hn : s.WellNamed) (h : s.Renders env') :
    (lower env new context s).Renders env' := by
  induction s generalizing context with
  | node l cell cs ih =>
    obtain ⟨parts, hparts, h⟩ := Term.renders_node.1 h
    have hrole := roleOf_role env context (.node l cell cs)
    generalize hk : role env context (.node l cell cs) = k at hrole
    cases hrole with
    | caseLabel =>
      rw [lower_caseLabel hk]
      exact .mk hparts h
    | read =>
      rw [lower_read hk]
      exact .mk rfl nofun
    | @store _ _ _ _ _ target value f hf =>
      rw [hf] at hparts
      cases hparts
      rw [lower_store hk]
      refine .mk rfl (List.forall_mem_singleton.2 ?_)
      exact ih value (by simp) (hn.child _ (by simp)) (h _ (by simp))
    | @update _ _ _ _ _ target value f hf =>
      rw [hf] at hparts
      cases hparts
      rw [lower_update hk]
      refine .mk (by rw [hf]; rfl) (List.forall_mem_cons.2 ⟨renders_reference .., ?_⟩)
      exact List.forall_mem_singleton.2 (ih value (by simp) (hn.child _ (by simp)) (h _ (by simp)))
    | step hf =>
      rw [lower_step hk]
      refine .mk (textParts?_of_isStep hf) (List.forall_mem_singleton.2 ?_)
      exact renders_reference ..
    | other hf _ _ ha =>
      rw [lower_other hk, Term.renders_node, textParts?_lower hn.names ha, exists_map_parts]
      refine ⟨parts, hparts, fun c hc => ?_⟩
      have hmem := textParts?_subset hparts hc
      exact ih c hmem (hn.child c hmem) (h c hc)

/-- What is no expression stays, over lowered children or as a case label as it was. -/
theorem lower_of_isExpression_eq_false {l : α} {cell : Cell} {cs : List (Term α)}
    (h : cell.form.isExpression = false) :
    lower env new context (.node l cell cs) = .node l cell cs ∨
      lower env new context (.node l cell cs) =
        .node l cell (cs.map (lower env new (cell.form.context context))) := by
  have hrole := roleOf_role env context (.node l cell cs)
  generalize hk : role env context (.node l cell cs) = k at hrole
  have haccess := NodeKind.isAccess_of_not_isExpression h
  cases hrole with
  | caseLabel => exact .inl (lower_caseLabel hk)
  | store hf | update hf =>
    rw [hf] at h
    cases h
  | step hf =>
    rw [NodeKind.isExpression_of_isStep hf] at h
    cases h
  | read ha =>
    rw [accessed?_eq_none (denotes?_eq_none haccess)] at ha
    cases ha
  | other =>
    rw [lower_other hk,
      adapt_of_not_isQualifiedName (NodeKind.isQualifiedName_of_not_isAccess haccess)]
    exact .inr rfl

/-- Lowering a statement that has a text gives one that has a text. -/
theorem states_lower {s : Term α} (hn : s.WellNamed) (h : s.States env') :
    (lower env new context s).States env' := by
  induction s generalizing context with
  | node l cell cs ih =>
    obtain ⟨exprs, stmts, hparts, he, hs⟩ := Term.states_node.1 h
    rcases lower_of_isExpression_eq_false (isExpression_of_statementParts? hparts) with hl | hl
    · rw [hl]
      exact h
    · rw [hl, Term.states_node, statementParts?_map, exists_map_statementParts]
      obtain ⟨hexprs, hstmts⟩ := statementParts?_subset hparts
      refine ⟨exprs, stmts, hparts, fun c hc => ?_, fun c hc => ?_⟩
      · exact renders_lower (hn.child c (hexprs hc)) (he c hc)
      · exact ih c (hstmts hc) (hn.child c (hstmts hc)) (hs c hc)

/-! ## What a term has become -/

theorem Becomes.renders {s q : Term α} (h : Becomes env new s q) (hn : s.WellNamed)
    (hs : s.Renders env') : q.Renders env' := by
  cases h with
  | same => exact hs
  | lowered => exact renders_lower hn hs
  | reference => exact renders_reference ..

/-- What is no expression is no field in parentheses either. -/
theorem Becomes.same_or_lowered {s q : Term α} (h : Becomes env new s q)
    (hf : s.form.isExpression = false) : q = s ∨ ∃ context, q = lower env new context s := by
  cases h with
  | same => exact .inl rfl
  | lowered context => exact .inr ⟨context, rfl⟩
  | reference ha =>
    have hpar (n : NodeId) : s.form ≠ .parenthesized n := fun e => by
      rw [e] at hf
      cases hf
    rw [accessed?_strip_eq_none hpar (NodeKind.isAccess_of_not_isExpression hf)] at ha
    cases ha

theorem Becomes.states {s q : Term α} (h : Becomes env new s q) (hn : s.WellNamed)
    (hs : s.States env') : q.States env' := by
  rcases h.same_or_lowered hs.isExpression with rfl | ⟨context, rfl⟩
  · exact hs
  · exact states_lower hn hs

/-- Of what is no expression the node stays. -/
theorem Becomes.exists_node {l : α} {cell : Cell} {cs : List (Term α)} {q : Term α}
    (h : Becomes env new (.node l cell cs) q) (hf : cell.form.isExpression = false) :
    ∃ ds, q = .node l cell ds ∧ List.Forall₂ (Becomes env new) cs ds := by
  have hsame : List.Forall₂ (Becomes env new) cs cs := List.forall₂_same.2 fun _ _ => .same
  rcases h.same_or_lowered hf with rfl | ⟨context, rfl⟩
  · exact ⟨cs, rfl, hsame⟩
  · rcases lower_of_isExpression_eq_false hf with he | he
    · exact ⟨cs, he, hsame⟩
    · exact ⟨_, he, forall₂_map_lower cs⟩

/-! ## Runs -/

variable {t : Tree}

theorem BecomesIn.renders {r q : Term NodeId} (h : BecomesIn env t r q) (hn : r.WellNamed)
    (hr : r.Renders env') : q.Renders env' :=
  Term.renders_relabel.1
    (Becomes.renders h (Term.wellNamed_relabel.2 hn) (Term.renders_relabel.2 hr))

theorem BecomesIn.states {r q : Term NodeId} (h : BecomesIn env t r q) (hn : r.WellNamed)
    (hr : r.States env') : q.States env' :=
  Term.states_relabel.1
    (Becomes.states h (Term.wellNamed_relabel.2 hn) (Term.states_relabel.2 hr))

theorem BecomesIn.exists_node {id : NodeId} {cell : Cell} {cs : List (Term NodeId)}
    {q : Term NodeId} (h : BecomesIn env t (.node id cell cs) q)
    (hf : cell.form.isExpression = false) (hid : id < t.size) :
    ∃ ds, q = .node id cell ds ∧ List.Forall₂ (BecomesIn env t) cs ds := by
  rw [BecomesIn, Term.relabel_node, Tree.kept_of_lt hid] at h
  obtain ⟨ds', he, hds⟩ := Becomes.exists_node h hf
  obtain ⟨qid, qcell, ds⟩ := q
  rw [Term.relabel_node] at he
  injection he with hl hc hm
  subst hc hm
  obtain rfl := Tree.eq_of_kept hl
  rw [List.forall₂_map_left_iff, List.forall₂_map_right_iff] at hds
  exact ⟨ds, rfl, hds⟩

/-- After the run the tree shows what has become of each term in the program. -/
theorem run_shows (env : Environment) {s : Term NodeId} (h : t.Stores s) :
    ∃ t' k, run env t = (t', .ok k) ∧ ∀ r : Term NodeId, r.Within s →
      ∃ q, t'.Shows q ∧ q.labels.Nodup ∧ BecomesIn env t r q := by
  obtain ⟨t', k, o, hrun, ho, halters, hbecomes, -⟩ := run_becomes env h
  refine ⟨t', k, hrun, fun r hr => ?_⟩
  rcases hbecomes r hr with ⟨q, hq, hb⟩ | hdropped
  · obtain ⟨_, hq'⟩ := ho.holds.within hq
    exact ⟨q, hq'.shows, hq.labels_sublist.nodup ho.nodup, hb⟩
  · -- no node of the term is in the program any more, and such nodes keep their kinds
    obtain ⟨_, hr'⟩ := h.holds.within hr
    refine ⟨r, hr'.shows.congr fun i hi => ?_, hr.labels_sublist.nodup h.nodup, .same⟩
    exact halters.kinds i (hr'.lt_size i hi) (hdropped i hi)

theorem statement_of_becomes {r r' : Renderer} {p : Option NodeId} {a q : Term NodeId}
    (ha : r.tree.Holds p a) (han : a.labels.Nodup) (hn : a.WellNamed) (hq : r'.tree.Shows q)
    (hqn : q.labels.Nodup) (hb : BecomesIn env r.tree a q) (henv : r'.env = r.env) {indent : Nat}
    {text : String} (h : r.statement a.label indent = .ok text) :
    ∃ text', r'.statement a.label indent = .ok text' := by
  have hst := (Renderer.statement_iff_states ha.shows han).1 ⟨text, h⟩
  have hst' : q.States r'.env := henv ▸ hb.states hn hst
  obtain ⟨id, cell, cs⟩ := a
  obtain ⟨ds, rfl, -⟩ := hb.exists_node hst.isExpression (ha.lt_size _ (Term.label_mem_labels _))
  exact (Renderer.statement_iff_states hq hqn).2 hst'

theorem initial_of_becomes {r r' : Renderer} {p : Option NodeId} {a q : Term NodeId}
    (ha : r.tree.Holds p a) (hn : a.WellNamed) (hq : r'.tree.Shows q)
    (hb : BecomesIn env r.tree a q) (henv : r'.env = r.env) {field : VarId} {initial : NodeId}
    {text : String} (hk : r.tree.kind? a.label = some (.fieldDecl field (some initial)))
    (h : r.expression initial = .ok text) : ∃ initial' text',
      r'.tree.kind? a.label = some (.fieldDecl field (some initial')) ∧
        r'.expression initial' = .ok text' := by
  obtain ⟨id, cell, cs⟩ := a
  obtain ⟨kind, hk', hf, hc⟩ := ha.has.kind?
  obtain rfl := Option.some.inj (hk.symm.trans hk')
  obtain ⟨e, rfl, rfl⟩ := List.map_eq_singleton_iff.1 hc.symm
  have he := (Renderer.expression_iff_renders (ha.child e (by simp)).shows).1 ⟨text, h⟩
  obtain ⟨ds, rfl, hds⟩ := hb.exists_node (by rw [← hf]; rfl) (ha.lt_size _ (Term.label_mem_labels _))
  cases hds with
  | @cons _ e' _ _ hbe hnil =>
    cases hnil
    have he' : e'.Renders r'.env := henv ▸ hbe.renders (hn.child e (by simp)) he
    obtain ⟨text', htext'⟩ := (Renderer.expression_iff_renders (hq.child e' (by simp))).2 he'
    obtain ⟨kind, hkind, hkf, hkc⟩ := hq.kind?
    have hfield : kind = .fieldDecl field (some e'.label) :=
      NodeKind.eq_of_form (hkf.trans hf.symm) hkc
    exact ⟨e'.label, text', hfield ▸ hkind, htext'⟩

/-- What is rendered before the pass is rendered after it, whatever names the slots of pooled strings
have: all statements, and of a field the expression that is its initial value then. -/
theorem pass_keeps_rendering (env : Environment) (t : Tree) (h : t.WellFormed) :
    ∃ t' k, Pass.staticAccess.run env t = (t', .ok k) ∧
      ∀ r r' : Renderer, r.tree = t → r'.tree = t' → r'.env = r.env → ∀ id, t.Reachable id →
        (∀ indent text, r.statement id indent = .ok text →
          ∃ text', r'.statement id indent = .ok text') ∧
        ∀ field initial text, t.kind? id = some (.fieldDecl field (some initial)) →
          r.expression initial = .ok text → ∃ initial' text',
            t'.kind? id = some (.fieldDecl field (some initial')) ∧
              r'.expression initial' = .ok text' := by
  obtain ⟨s, hs⟩ := h.exists_stores
  obtain ⟨t', k, hrun, hshows⟩ := run_shows env hs
  refine ⟨t', k, pass_run hrun, ?_⟩
  rintro r r' rfl rfl henv id hid
  obtain ⟨p, a, ha, hw, rfl⟩ := hs.exists_of_reachable hid
  obtain ⟨q, hq, hqn, hb⟩ := hshows a hw
  have hn := hs.named.within hw
  refine ⟨fun indent text htext => ?_, fun field initial text hk htext => ?_⟩
  · exact statement_of_becomes ha (hw.labels_sublist.nodup hs.nodup) hn hq hqn hb henv htext
  · exact initial_of_becomes ha hn hq hb henv hk htext

theorem pass_keeps_rendering_sample : sample.WellFormed ∧ sample.Reachable 6 ∧
    (⟨sample, sampleEnv, fun _ => none⟩ : Renderer).statement 6 0 =
      .ok "\x7b\n  D_first = D_first->next_;\n\x7d\n" ∧
    ∃ t' k text, Pass.staticAccess.run sampleEnv sample = (t', .ok k) ∧
      (⟨t', sampleEnv, fun _ => none⟩ : Renderer).statement 6 0 = .ok text := by
  have hreachable : sample.Reachable 6 :=
    ⟨9, rfl, .child (.child (.child .top (by decide : 8 ∈ sample.children 9))
      (by decide : 7 ∈ sample.children 8)) (by decide : 6 ∈ sample.children 7)⟩
  have htext : (⟨sample, sampleEnv, fun _ => none⟩ : Renderer).statement 6 0 =
      .ok "\x7b\n  D_first = D_first->next_;\n\x7d\n" := by decide +kernel
  obtain ⟨t', k, hrun, hkeeps⟩ := pass_keeps_rendering sampleEnv sample sample_wellFormed
  obtain ⟨text, h⟩ := (hkeeps ⟨sample, sampleEnv, fun _ => none⟩ ⟨t', sampleEnv, fun _ => none⟩ rfl
    rfl rfl 6 hreachable).1 0 _ htext
  exact ⟨sample_wellFormed, hreachable, htext, t', k, text, hrun, h⟩

end ObjectLowering.StaticAccess
