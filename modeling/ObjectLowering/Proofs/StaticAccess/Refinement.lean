import ObjectLowering.Lowering.Pipeline
import ObjectLowering.Proofs.StaticAccess.Simulation

/-!
# ObjectLowering.Proofs.StaticAccess.Refinement

Runs of the pass over well-formed trees.

* `run_lowers`, `run_stores`: the tree stores the lowered program afterwards, in which the nodes that
  were there before keep their numbers. Nodes that are dropped from it keep their kinds.
* `pass_refines_lower`: read back without numbers, the program is the lowered one.
* `pass_keeps_wellFormed`: the tree is well-formed afterwards.
-/

namespace ObjectLowering

/-- The number of a node that is in the tree; none stands for all nodes that are not. -/
def Tree.kept (t : Tree) (i : NodeId) : Option NodeId :=
  if i < t.size then some i else none

theorem Tree.kept_of_lt {t : Tree} {i : NodeId} (h : i < t.size) : t.kept i = some i :=
  if_pos h

theorem Tree.kept_eq_none {t : Tree} {i : NodeId} (h : t.size ≤ i) : t.kept i = none :=
  if_neg (Nat.not_lt.2 h)

theorem Tree.eq_of_kept {t : Tree} {i j : NodeId} (h : t.kept i = some j) : i = j := by
  unfold kept at h
  split at h
  · exact Option.some.inj h
  · cases h

/-- The walk of a pass has levels enough for all nodes of the program. -/
theorem Tree.Stores.length_le_levels {t : Tree} {s : Term NodeId} (h : t.Stores s) :
    s.labels.length ≤ Visitor.levels t := by
  have hsize := h.holds.length_le h.nodup
  rw [Visitor.levels]
  omega

namespace StaticAccess

variable {env : Environment} {t : Tree}

-- `walk` stands for the walk of the pass, whose levels are too many to be counted down by unfolding
theorem run_of_walk {walk : NodeId → AccessM Unit} (hw : (visit env).walk = walk) {root : NodeId}
    {t' : Tree} {k : Nat} (hr : t.root = some root) (h : walk root ⟨t, 0⟩ = .ok () ⟨t', k⟩) :
    run env t = (t', .ok k) := by
  rw [run, hw, hr]
  simp only [WalkM.outcome_of_ok h]
  rfl

theorem role_unit {α : Type} {s : Term α} {source : String} {types : List NodeId}
    {native : List String} (h : s.form = .compilationUnit source types native)
    (context : Option TypeHash) : role env context s = .other := by
  cases s with
  | node l cell cs =>
    replace h : cell.form = .compilationUnit source types native := h
    have ha : accessed? env context (.node l cell cs) = none :=
      accessed?_eq_none (denotes?_eq_none (by rw [h]; rfl))
    simp only [role, h, ha]
    rfl

/-- Lowering leaves the top of a unit as it is. -/
theorem lower_unit (env : Environment) {α : Type} {s : Term α} {source : String} {types : List NodeId}
    {native : List String} (h : s.form = .compilationUnit source types native) (new : α)
    (context : Option TypeHash) : (lower env new context s).label = s.label ∧
      (lower env new context s).form = s.form := by
  cases s with
  | node l cell cs =>
    have hq : cell.form.isQualifiedName = false := by
      rw [show cell.form = _ from h]
      rfl
    rw [lower_other (role_unit h context), adapt_of_not_isQualifiedName hq]
    exact ⟨rfl, rfl⟩

theorem run_lowers (env : Environment) {s : Term NodeId} (h : t.Stores s) :
    ∃ t' k o, run env t = (t', .ok k) ∧ t'.Stores o ∧ t.Alters o.labels t' ∧
      o.relabel t.kept = lower env none none (s.relabel t.kept) := by
  obtain ⟨source, types, native, hunit⟩ := h.unit
  obtain ⟨t', k, o, hrun, halters, ho, hrel⟩ := walkFrom_lowers env (Visitor.levels t) (k := 0)
    h.at_root h.named h.length_le_levels (fun _ => role_unit hunit none) fun _ => Tree.kept_eq_none
  rw [Site.settle_of_not_isQualifier rfl] at ho
  rw [Site.ids, List.append_nil] at halters
  replace hrel : o.relabel t.kept = lower env none none (s.relabel t.kept) := hrel
  have hunit' : (s.relabel t.kept).form = .compilationUnit source types native := by
    rw [Term.form_relabel, hunit]
  obtain ⟨hl, hf⟩ := lower_unit env hunit' none none
  rw [← hrel, Term.label_relabel, Term.label_relabel] at hl
  rw [← hrel, hunit', Term.form_relabel] at hf
  have hlabel : o.label = s.label := by
    rw [Tree.kept_of_lt (h.holds.lt_size _ s.label_mem_labels)] at hl
    exact Tree.eq_of_kept hl
  refine ⟨t', k, o, run_of_walk rfl h.root (Visitor.walk_of_ok hrun), ⟨?_, ho.holds, ?_, ?_, ?_⟩,
    halters, hrel⟩
  · exact halters.root.trans (hlabel ▸ h.root)
  · exact (List.nodup_append.1 ho.nodup).1
  · refine (Term.wellNamed_relabel (f := t.kept)).1 ?_
    rw [hrel]
    exact wellNamed_lower (Term.wellNamed_relabel.2 h.named)
  · exact ⟨source, types, native, hf⟩

theorem run_stores (env : Environment) {s : Term NodeId} (h : t.Stores s) :
    ∃ t' k o, run env t = (t', .ok k) ∧ t'.Stores o ∧ t'.root = t.root ∧
      o.relabel t.kept = lower env none none (s.relabel t.kept) := by
  obtain ⟨t', k, o, hrun, ho, halters, hrel⟩ := run_lowers env h
  exact ⟨t', k, o, hrun, ho, halters.root, hrel⟩

theorem pass_run {t' : Tree} {k : Nat} (h : run env t = (t', .ok k)) :
    Pass.staticAccess.run env t = (t', .ok k) := by
  simp only [Pass.staticAccess, h]
  rfl

/-- For every well-formed tree the pass succeeds, and the program read back afterwards is the
lowered program. -/
theorem pass_refines_lower (env : Environment) (t : Tree) (h : t.WellFormed) :
    ∃ t' k s, Pass.staticAccess.run env t = (t', .ok k) ∧ t.program? = some s ∧
      t'.program? = some (lower env () none s) := by
  obtain ⟨s, hs⟩ := h.exists_stores
  obtain ⟨t', k, o, hrun, ho, -, hrel⟩ := run_stores env hs
  refine ⟨t', k, s.relabel fun _ => (), pass_run hrun, hs.program?, ?_⟩
  have hunit (r : Term NodeId) : (r.relabel t.kept).relabel (fun _ => ()) = r.relabel fun _ => () :=
    Term.relabel_relabel ..
  rw [ho.program?, ← hunit o, hrel, lower_relabel, hunit s]

/-- A field that holds an object of the type that declares it, and a member of such objects. -/
def sampleEnv : Environment where
  types := #[{ name := ⟨[], ["D"]⟩, hash := ⟨1⟩ }, { name := ⟨[], ["A"]⟩, hash := ⟨2⟩ }]
  vars := #[
    { name := "first", kind := .field, declaringType := some ⟨1⟩, type := .declared ⟨1⟩,
      modifiers := { isStatic := true } },
    { name := "next", kind := .field, declaringType := some ⟨1⟩, type := .declared ⟨1⟩ }]

/-- The type `A` with a method that runs `first = first.next`. -/
def sample : Tree where
  nodes := #[
    { kind := .simpleName "first" (some (.ofVariable 0)), parent := some 4 },
    { kind := .simpleName "first" (some (.ofVariable 0)), parent := some 3 },
    { kind := .simpleName "next" (some (.ofVariable 1)), parent := some 3 },
    { kind := .qualifiedName 1 2, parent := some 4 },
    { kind := .assignment .assign 0 3, parent := some 5 },
    { kind := .expressionStatement 4, parent := some 6 },
    { kind := .block [5], parent := some 7 },
    { kind := .methodDecl ⟨"m", ⟨2⟩, .primitive .void, false⟩ [] (some 6), parent := some 8 },
    { kind := .typeDecl (some ⟨2⟩) [7], parent := some 9 },
    { kind := .compilationUnit "A.java" [8] [] }]
  root := some 9

theorem sample_wellFormed : sample.WellFormed :=
  Tree.wellFormed_of_isTidy (by decide +kernel)

theorem pass_refines_lower_sample : sample.WellFormed ∧
    ∃ t' k s, Pass.staticAccess.run sampleEnv sample = (t', .ok k) ∧ sample.program? = some s ∧
      t'.program? = some (lower sampleEnv () none s) :=
  ⟨sample_wellFormed, pass_refines_lower sampleEnv sample sample_wellFormed⟩

/-- The pass keeps the root and the rules of well-formed trees. -/
theorem pass_keeps_wellFormed (env : Environment) (t : Tree) (h : t.WellFormed) :
    ∃ t' k, Pass.staticAccess.run env t = (t', .ok k) ∧ t'.root = t.root ∧
      t'.verifyLinks = .ok () ∧ t'.WellFormed := by
  obtain ⟨s, hs⟩ := h.exists_stores
  obtain ⟨t', k, o, hrun, ho, hroot, -⟩ := run_stores env hs
  exact ⟨t', k, pass_run hrun, hroot, ho.linked.verifyLinks, ho.wellFormed⟩

theorem pass_keeps_wellFormed_sample : sample.WellFormed ∧
    ∃ t' k, Pass.staticAccess.run sampleEnv sample = (t', .ok k) ∧ t'.root = sample.root ∧
      t'.verifyLinks = .ok () ∧ t'.WellFormed :=
  ⟨sample_wellFormed, pass_keeps_wellFormed sampleEnv sample sample_wellFormed⟩

end StaticAccess

end ObjectLowering
