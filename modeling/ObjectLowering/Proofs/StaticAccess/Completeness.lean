import ObjectLowering.Proofs.Environment
import ObjectLowering.Proofs.StaticAccess.Refinement

/-!
# ObjectLowering.Proofs.StaticAccess.Completeness

Nothing is left to do after a run of the pass.

* `walkFrom_settled`: a walk over a settled program changes nothing.
* `pass_complete`: after a run no name outside case labels needs an accessor, and a second run leaves
  the tree as it is.
-/

namespace ObjectLowering

/-- The node is reachable, and no case label is above it. -/
def Tree.OutsideCaseLabels (t : Tree) (id : NodeId) : Prop :=
  t.Reachable id ∧ ∀ top, t.Reachable top → t.Below top id →
    ¬ (t.kind? top).any (·.isCaseLabel) = true

namespace StaticAccess

variable {env : Environment} {t : Tree}

/-! ## Walks over settled programs -/

theorem walkEach_settled {depth k : Nat} {site : Site} {id : NodeId} {cell : Cell}
    {l r : List (Term NodeId)} (h : t.Holds site.parent? (.node id cell (l ++ r)))
    (hw : ∀ c ∈ r, (visit env).walkFrom depth c.label ⟨t, k⟩ = .ok () ⟨t, k⟩) :
    (visit env).walkEach depth id (r.map Term.label) ⟨t, k⟩ = .ok () ⟨t, k⟩ := by
  induction r generalizing l with
  | nil => rfl
  | cons c r ih =>
    have hp := (h.child c (by simp)).parent?
    rw [List.map_cons, Visitor.walkEach_cons hp (hw c (by simp))]
    refine ih (l := l ++ [c]) ?_ fun d hd => hw d (List.mem_cons_of_mem _ hd)
    rw [List.append_assoc]
    exact h

theorem walkFrom_settled {depth k : Nat} {site : Site} {s : Term NodeId} (h : t.At site s)
    (hn : s.WellNamed) (hs : Settled env site.context s) :
    (visit env).walkFrom depth s.label ⟨t, k⟩ = .ok () ⟨t, k⟩ := by
  induction depth generalizing site s with
  | zero => rfl
  | succ depth ih =>
    cases s with
    | node id cell cs =>
      have hr := roleOf_role env site.context (.node id cell cs)
      rcases hs.role_eq with hrole | hrole
      · rw [hrole] at hr
        cases hr with
        | caseLabel hf => exact Visitor.walkFrom_of_skip (visit_caseLabel h hf)
      · rw [hrole] at hr
        have hf : cell.form.isCaseLabel = false := by
          cases hr with
          | other hf => exact hf
        rw [Term.label_node, Visitor.walkFrom_of_children (visit_other _ h hr),
          h.holds.has.children]
        refine walkEach_settled (l := []) h.holds ?_
        intro c hc
        obtain ⟨site', hc', hcx⟩ := h.exists_child hn.names hc
        exact ih hc' (hn.child c hc) (hcx ▸ hs.child hf c hc)

/-! ## After a run -/

theorem exists_at {s : Term NodeId} (h : t.Stores s) (hs : Settled env none s) {id : NodeId}
    (hid : t.OutsideCaseLabels id) :
    ∃ site r, t.At site r ∧ r.label = id ∧ r.WellNamed ∧ Settled env site.context r := by
  obtain ⟨⟨root, hroot, hb⟩, hcase⟩ := hid
  obtain rfl := Option.some.inj (h.root.symm.trans hroot)
  induction hb with
  | top => exact ⟨.root, s, h.at_root, rfl, h.named, hs⟩
  | @child id c hb hc ih =>
    obtain ⟨site, r, hr, rfl, hn, hsr⟩ := ih fun top ht hbt => hcase top ht (.child hbt hc)
    cases r with
    | node id cell cs =>
      obtain ⟨kind, hk, hkf, hcs⟩ := hr.holds.has.kind?
      have hf : cell.form.isCaseLabel = false := by
        have hnot := hcase id ⟨s.label, hroot, hb⟩ (.child .top hc)
        rw [hk, Option.any_some, ← NodeKind.isCaseLabel_form, hkf] at hnot
        exact Bool.eq_false_iff.2 hnot
      rw [Term.label_node, hr.holds.has.children] at hc
      obtain ⟨d, hd, rfl⟩ := List.mem_map.1 hc
      obtain ⟨site', hd', hcx⟩ := hr.exists_child hn.names hd
      exact ⟨site', d, hd', rfl, hn.child d hd, hcx ▸ hsr.child hf d hd⟩

theorem needsAccessor_eq_false (he : env.Built) {context : Option TypeHash} {s : Term NodeId}
    (hs : Settled env context s) {id : VarId} {v : VariableBinding} (hd : s.denotes? = some id)
    (hv : env.variableAt? id = some v) : needsAccessor context v = false := by
  have ha := hs.accessed?_eq_none
  rw [accessed?, hd, Option.bind_some] at ha
  cases hneeds : needsAccessor context v with
  | false => rfl
  | true =>
    cases ho : v.declaringType with
    | none =>
      rw [needsAccessor, ho] at hneeds
      cases hneeds
    | some owner =>
      obtain ⟨b, hb⟩ := Option.isSome_iff_exists.1 (he.isSome_type? hv ho)
      have hname : env.fullName? owner = some b.fullName := by
        rw [Environment.fullName?, hb, Option.map_some]
      have hg : foreignField? env context id = some ⟨owner, b.fullName, v⟩ :=
        foreignField?_eq_some_iff.2 ⟨hv, hneeds, ho, hname⟩
      cases ha.symm.trans hg

/-- After a run over a well-formed tree no name or member outside case labels stands for a variable
that the type around it must use accessors for, and a second run does nothing. Only names and members
stand for variables at all. -/
theorem pass_complete {env : Environment} (he : env.Built) {t : Tree} (ht : t.WellFormed) :
    ∃ t' k, Pass.staticAccess.run env t = (t', .ok k) ∧
      (∀ id v, t'.OutsideCaseLabels id → t'.resolve? env id = some v →
        needsAccessor (t'.owningType? id) v = false) ∧
      Pass.staticAccess.run env t' = (t', .ok 0) := by
  obtain ⟨s, hs⟩ := ht.exists_stores
  obtain ⟨t', k, o, hrun, ho, -, hrel⟩ := run_stores env hs
  have hsettled : Settled env none o := by
    refine (settled_relabel (f := t.kept)).1 ?_
    rw [hrel]
    exact settled_lower (Term.wellNamed_relabel.2 hs.named)
  have hagain : run env t' = (t', .ok 0) :=
    run_of_walk rfl ho.root (Visitor.walk_of_ok (walkFrom_settled ho.at_root ho.named hsettled))
  refine ⟨t', k, pass_run hrun, ?_, pass_run hagain⟩
  intro id v hid hv
  obtain ⟨site, r, hr, rfl, -, hsr⟩ := exists_at ho hsettled hid
  obtain ⟨x, hx, hv⟩ := Option.bind_eq_some_iff.1 hv
  rw [Tree.namedVariable?_of_holds hr.holds (List.nodup_append.1 hr.nodup).1] at hx
  rw [hr.owningType?, NodeKind.context_of_isAccess (isAccess_of_denotes? hx)]
  exact needsAccessor_eq_false he hsr hx hv

theorem sampleEnv_built : sampleEnv.Built :=
  Environment.built_of_distinct (by decide) (by decide)

theorem pass_complete_sample : sampleEnv.Built ∧ sample.WellFormed ∧
    ∃ t' k, Pass.staticAccess.run sampleEnv sample = (t', .ok k) ∧
      (∀ id v, t'.OutsideCaseLabels id → t'.resolve? sampleEnv id = some v →
        needsAccessor (t'.owningType? id) v = false) ∧
      Pass.staticAccess.run sampleEnv t' = (t', .ok 0) :=
  ⟨sampleEnv_built, sample_wellFormed, pass_complete sampleEnv_built sample_wellFormed⟩

end StaticAccess

end ObjectLowering
