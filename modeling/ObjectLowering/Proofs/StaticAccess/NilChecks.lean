import ObjectLowering.Proofs.StaticAccess.Origins

/-!
# ObjectLowering.Proofs.StaticAccess.NilChecks

Which nil checks the pass hands on.

* `Tree.SameSlot`: a slot before and after a run, and what it holds.
* `Replaces.nilCheck`: what has taken the place of a term has the check of the field in it, but the call
  that has taken the place of an assignment has none.
* `pass_nilChecks`: so it is in all slots, and all new expressions are in slots.
* `checked_assignment_loses_check`: an assignment that is checked, and the call in its place that is not.
-/

namespace ObjectLowering

/-- A slot holds `before` in one tree and `after` in the other. A node that is in both has its slots in
both; the value of an assignment that a call has replaced has become the argument of the call. -/
inductive Tree.SameSlot (t t' : Tree) : NodeId → NodeId → Prop where
  | slot {holder before after : NodeId} {j : Nat} :
    t.Reachable holder → t'.Reachable holder → (t.children holder)[j]? = some before →
      (t'.children holder)[j]? = some after → SameSlot t t' before after
  | value {assignment call target value after : NodeId} {op : AssignOp} :
    SameSlot t t' assignment call → call ≠ assignment →
      t.kind? assignment = some (.assignment op target value) →
      (t'.children call)[0]? = some after → SameSlot t t' value after

namespace StaticAccess

variable {α : Type} {env : Environment} {new : α}

/-! ## Terms that have taken the place of others -/

/-- A new term is a call for an access, a reference to the field in it, or a call for an assignment. -/
inductive Replaces (env : Environment) (new : α) : Term α → Term α → Prop where
  | read {s : Term α} {f : StaticField} :
    s.form.isAccess = true → Replaces env new s (readTerm new f s.cell)
  | reference {s : Term α} {f : StaticField} :
    s.strip.form.isAccess = true → Replaces env new s (referenceTerm new f s.strip.cell)
  | store {l : α} {cell : Cell} {op : AssignOp} {a b : NodeId} {target value value' : Term α}
    {f : StaticField} :
    cell.form = .assignment op a b → Becomes env new value value' →
      Replaces env new (.node l cell [target, value]) (storeTerm new f cell value')

theorem isAccess_of_accessed? {context : Option TypeHash} {s : Term α} {f : StaticField}
    (h : accessed? env context s = some f) : s.form.isAccess = true := by
  obtain ⟨v, hv, -⟩ := Option.bind_eq_some_iff.1 h
  exact isAccess_of_denotes? hv

theorem Becomes.replaces {s q : Term α} (h : Becomes env new s q) (hl : q.label ≠ s.label) :
    Replaces env new s q := by
  cases h with
  | same => exact absurd rfl hl
  | reference ha => exact .reference (isAccess_of_accessed? ha)
  | lowered context =>
    cases s with
    | node l cell cs =>
      have hrole := roleOf_role env context (.node l cell cs)
      generalize hk : role env context (.node l cell cs) = k at hrole
      cases hrole with
      | caseLabel =>
        rw [lower_caseLabel hk] at hl
        exact absurd rfl hl
      | read ha =>
        rw [lower_read hk]
        exact .read (s := .node l cell cs) (isAccess_of_accessed? ha)
      | store hf =>
        rw [lower_store hk]
        exact .store hf (.lowered context)
      | update =>
        rw [lower_update hk] at hl
        exact absurd rfl hl
      | step =>
        rw [lower_step hk] at hl
        exact absurd rfl hl
      | other =>
        rw [lower_other hk] at hl
        exact absurd rfl hl

theorem strip_eq_self {s : Term α} (h : s.form.isAccess = true ∨ s.form.isAssignment = true) :
    s.strip = s :=
  Term.strip_of_form_ne fun n e => by
    rw [e] at h
    rcases h with h | h <;> cases h

theorem isAssignment_of_strip {s : Term α} (h : s.strip.form.isAccess = true) :
    s.form.isAssignment = false := by
  refine Bool.eq_false_iff.2 fun ha => ?_
  rw [strip_eq_self (.inr ha)] at h
  exact absurd ((NodeKind.isAssignment_of_isAccess h).symm.trans ha) Bool.false_ne_true

/-- What has taken the place of a term has the check of the field in it, but the call that has taken the
place of an assignment has none. -/
theorem Replaces.nilCheck {s q : Term α} (h : Replaces env new s q) :
    q.cell.nilCheck = (!s.form.isAssignment && s.strip.cell.nilCheck) := by
  cases h with
  | read hf =>
    rw [NodeKind.isAssignment_of_isAccess hf, strip_eq_self (.inl hf)]
    rfl
  | reference hf =>
    rw [isAssignment_of_strip hf]
    rfl
  | store hf =>
    rw [Term.form_node, hf]
    rfl

/-- The call that has taken the place of an assignment has what has become of the value as argument. -/
theorem Replaces.argument {s q : Term α} (h : Replaces env new s q)
    (hf : s.form.isAssignment = true) : ∃ value value', s.children[1]? = some value ∧
      q.children[0]? = some value' ∧ Becomes env new value value' := by
  cases h with
  | @store _ _ _ _ _ _ value value' _ _ hb => exact ⟨value, value', rfl, rfl, hb⟩
  | read ha => exact absurd ((NodeKind.isAssignment_of_isAccess ha).symm.trans hf) Bool.false_ne_true
  | reference ha => exact absurd ((isAssignment_of_strip ha).symm.trans hf) Bool.false_ne_true

/-- Below a new term there is a call without arguments if it is a reference, and otherwise nothing or
what has become of a value. -/
theorem Replaces.cases_children {s q : Term α} (h : Replaces env new s q) :
    (q.form = .unary .dereference 0 ∧ ∃ call, q.children = [call] ∧ call.children = []) ∨
      (∀ op n, q.form ≠ .unary op n) ∧
        (q.children = [] ∨ s.form.isAssignment = true ∧ ∃ argument, q.children = [argument]) := by
  cases h with
  | read => exact .inr ⟨nofun, .inl rfl⟩
  | reference => exact .inl ⟨rfl, _, rfl, rfl⟩
  | store hf => exact .inr ⟨nofun, .inr ⟨by rw [Term.form_node, hf]; rfl, _, rfl⟩⟩

/-! ## Runs -/

variable {t t' : Tree}

theorem BecomesIn.replaces {r q : Term NodeId} (h : BecomesIn env t r q) (hr : r.label < t.size)
    (hl : q.label ≠ r.label) : Replaces env none (r.relabel t.kept) (q.relabel t.kept) := by
  refine Becomes.replaces h fun he => hl ?_
  rw [Term.label_relabel, Term.label_relabel, Tree.kept_of_lt hr] at he
  exact Tree.eq_of_kept he

theorem related_of_getElem? {β γ : Type} {related : β → γ → Prop} {bs : List β} {cs : List γ}
    {j : Nat} {b : β} {c : γ} (h : List.Forall₂ related bs cs) (hb : bs[j]? = some b)
    (hc : cs[j]? = some c) : related b c := by
  obtain ⟨hj, rfl⟩ := List.getElem?_eq_some_iff.1 hb
  obtain ⟨hj', rfl⟩ := List.getElem?_eq_some_iff.1 hc
  exact h.get hj hj'

/-- What a run has done to a program. -/
structure Ran (env : Environment) (t t' : Tree) (s o : Term NodeId) : Prop where
  before : t.Stores s
  after : t'.Stores o
  root : t'.root = t.root
  origin : ∀ q, q.Within o → q.label < t.size →
    ∃ r, r.Within s ∧ r.label = q.label ∧ BecomesIn env t r q

variable {s o : Term NodeId}

namespace Ran

/-- What is in the program before and after has become what it is then. -/
theorem exists_of_reachable (h : Ran env t t' s o) {id : NodeId} (hid : t.Reachable id)
    (hid' : t'.Reachable id) :
    ∃ r q, r.Within s ∧ q.Within o ∧ r.label = id ∧ q.label = id ∧ BecomesIn env t r q := by
  obtain ⟨_, q, -, hq, rfl⟩ := h.after.exists_of_reachable hid'
  have hlt := h.before.holds.lt_size _ (h.before.mem_of_reachable hid)
  obtain ⟨r, hr, he, hb⟩ := h.origin q hq hlt
  exact ⟨r, q, hr, hq, he, rfl, hb⟩

theorem isAssignment_form {r : Term NodeId} (h : Ran env t t' s o) (hr : r.Within s) :
    (t.kind? r.label).any (·.isAssignment) = r.form.isAssignment := by
  obtain ⟨_, hr⟩ := h.before.holds.within hr
  obtain ⟨kind, hk, hf, -⟩ := hr.has_top.kind?
  rw [hk, Option.any_some, ← NodeKind.isAssignment_form, hf]
  rfl

/-- What a slot holds afterwards has become of what it held before. -/
theorem exists_of_sameSlot (h : Ran env t t' s o) {b a : NodeId} (hba : t.SameSlot t' b a) :
    ∃ r q, r.Within s ∧ q.Within o ∧ r.label = b ∧ q.label = a ∧ BecomesIn env t r q := by
  induction hba with
  | @slot holder b a j hreach hreach' hb ha =>
    obtain ⟨x, y, hx, hy, hxl, rfl, hxy⟩ := h.exists_of_reachable hreach hreach'
    have hlt : y.label < t.size := hxl ▸ h.before.holds.lt_size _ hx.label_mem
    rw [← hxl] at hb
    obtain ⟨r, hrx, rfl, hr⟩ := h.before.exists_of_slot hx hb
    obtain ⟨q, hqy, rfl, hq⟩ := h.after.exists_of_slot hy ha
    exact ⟨r, q, hr, hq, rfl, rfl, related_of_getElem? (hxy.children hlt) hrx hqy⟩
  | @value assignment call target value a op _ hne hk ha ih =>
    obtain ⟨x, y, hx, hy, rfl, rfl, hxy⟩ := ih
    have hassign := h.isAssignment_form hx
    rw [hk] at hassign
    have hreplaces := hxy.replaces (h.before.holds.lt_size _ hx.label_mem) hne
    obtain ⟨value', arg, hxc, hyc, hb⟩ := hreplaces.argument
      (by rw [Term.form_relabel]; exact hassign.symm)
    have hvalue : (t.children x.label)[1]? = some value := by
      rw [Tree.children, hk]
      rfl
    obtain ⟨r, hrx, rfl, hr⟩ := h.before.exists_of_slot hx hvalue
    obtain ⟨q, hqy, rfl, hq⟩ := h.after.exists_of_slot hy ha
    rw [Term.children_relabel, List.getElem?_map] at hxc hyc
    rw [hrx] at hxc
    rw [hqy] at hyc
    cases hxc
    cases hyc
    exact ⟨r, q, hr, hq, rfl, rfl, hb⟩

/-- What has taken the place of an expression has the check of the field in it, and none if that is an
assignment. -/
theorem hasNilCheck (h : Ran env t t' s o) {b a : NodeId} (hba : t.SameSlot t' b a) (hne : a ≠ b) :
    t'.hasNilCheck a =
      (!(t.kind? b).any (·.isAssignment) && t.hasNilCheck (t.stripParentheses b)) := by
  obtain ⟨r, q, hr, hq, rfl, rfl, hrq⟩ := h.exists_of_sameSlot hba
  have hcheck := (hrq.replaces (h.before.holds.lt_size _ hr.label_mem) hne).nilCheck
  rw [Term.cell_relabel, Term.form_relabel, Term.strip_relabel, Term.cell_relabel] at hcheck
  obtain ⟨_, hr'⟩ := h.before.holds.within hr
  obtain ⟨_, hstrip⟩ := hr'.within r.strip_within
  obtain ⟨_, hq'⟩ := h.after.holds.within hq
  rw [h.isAssignment_form hr, hq'.has_top.hasNilCheck, hcheck,
    Tree.stripParentheses_of_holds hr' (hr.labels_sublist.nodup h.before.nodup),
    hstrip.has_top.hasNilCheck]

/-- The slots of a node that stays are the same ones. -/
theorem exists_slot (h : Ran env t t' s o) {p c : NodeId} (hp : t.Reachable p)
    (hp' : t'.Reachable p) (hc : c ∈ t'.children p) : ∃ b, t.SameSlot t' b c := by
  obtain ⟨x, y, hx, hy, hxl, rfl, hxy⟩ := h.exists_of_reachable hp hp'
  obtain ⟨j, hj⟩ := List.mem_iff_getElem?.1 hc
  have hlen := (hxy.children (hxl ▸ h.before.holds.lt_size _ hx.label_mem)).length_eq
  have hlt : j < (t.children y.label).length := by
    have hlt := (List.getElem?_eq_some_iff.1 hj).1
    rw [h.after.children_of_within hy, List.length_map] at hlt
    rw [← hxl, h.before.children_of_within hx, List.length_map]
    omega
  exact ⟨_, .slot hp hp' (List.getElem?_eq_getElem hlt) hj⟩

/-- The child of what has taken the place of an expression is called under a reference or was the value
of an assignment. -/
theorem child_of_replacement (h : Ran env t t' s o) {b p c : NodeId} (hbp : t.SameSlot t' b p)
    (hne : p ≠ b) (hc : c ∈ t'.children p) : (∃ b, t.SameSlot t' b c) ∨
      t'.kind? p = some (.unary .dereference c) ∧ t'.children c = [] := by
  obtain ⟨r, q, hr, hq, rfl, rfl, hrq⟩ := h.exists_of_sameSlot hbp
  have hreplaces := hrq.replaces (h.before.holds.lt_size _ hr.label_mem) hne
  have hchildren := h.after.children_of_within hq
  rw [hchildren] at hc
  rcases hreplaces.cases_children with ⟨hform, _, hone, hnil⟩ | ⟨-, hnil | ⟨hassign, _, hone⟩⟩
  · rw [Term.children_relabel, List.map_eq_singleton_iff] at hone
    obtain ⟨d, hd, rfl⟩ := hone
    rw [Term.children_relabel, List.map_eq_nil_iff] at hnil
    have hdq : d.Within q := Term.within_of_mem_children (by rw [hd]; exact List.mem_cons_self)
    rw [hd] at hc hchildren
    obtain rfl := List.mem_singleton.1 hc
    obtain ⟨_, hq'⟩ := h.after.holds.within hq
    obtain ⟨kind, hk, hkf, hkc⟩ := hq'.has_top.kind?
    rw [Term.form_relabel] at hform
    rw [hd] at hkc
    have hreference : kind = .unary .dereference d.label := NodeKind.eq_of_form (hkf.trans hform) hkc
    rw [hk, hreference, h.after.children_of_within (hdq.trans hq), hnil]
    exact .inr ⟨rfl, rfl⟩
  · rw [Term.children_relabel, List.map_eq_nil_iff] at hnil
    rw [hnil] at hc
    cases hc
  · rw [Term.children_relabel, List.map_eq_singleton_iff] at hone
    obtain ⟨d, hd, -⟩ := hone
    rw [hd] at hc hchildren
    obtain rfl := List.mem_singleton.1 hc
    rw [Term.form_relabel, ← h.isAssignment_form hr] at hassign
    obtain ⟨kind, hk, hkind⟩ := (Option.any_eq_true ..).1 hassign
    cases kind with
    | assignment op target value =>
      exact .inl ⟨_, .value hbp hne hk (by rw [hchildren]; rfl)⟩
    | _ => cases hkind

/-- Every node but the root is in a slot that was there before, or is the call under a reference that
is new in one. -/
theorem exists_sameSlot (h : Ran env t t' s o) {id : NodeId} (hid : t'.Reachable id) :
    t'.root = some id ∨ (∃ b, t.SameSlot t' b id) ∨ ∃ b ref, t.SameSlot t' b ref ∧ ref ≠ b ∧
      t'.kind? ref = some (.unary .dereference id) ∧ t'.children id = [] := by
  obtain ⟨root, hroot, hb⟩ := hid
  induction hb with
  | top => exact .inl hroot
  | @child p c hb hc ih =>
    by_cases hp : t.Reachable p
    · exact .inr (.inl (h.exists_slot hp ⟨root, hroot, hb⟩ hc))
    · rcases ih with hroot' | ⟨b, hbp⟩ | ⟨b, ref, -, -, -, hnil⟩
      · exact absurd ⟨p, h.root ▸ hroot', .top⟩ hp
      · have hne : p ≠ b := by
          rintro rfl
          obtain ⟨r, _, hr, -, rfl, -⟩ := h.exists_of_sameSlot hbp
          exact hp (h.before.reachable_of_mem hr.label_mem)
        exact .inr ((h.child_of_replacement hbp hne hc).imp_right fun hk => ⟨b, p, hbp, hne, hk⟩)
      · rw [hnil] at hc
        cases hc

end Ran

theorem exists_ran (env : Environment) {s : Term NodeId} (h : t.Stores s) :
    ∃ t' k o, run env t = (t', .ok k) ∧ Ran env t t' s o := by
  obtain ⟨t', k, o, hrun, ho, halters, -, horigin⟩ := run_becomes env h
  exact ⟨t', k, o, hrun, h, ho, halters.root, horigin⟩

/-- After a run each new expression is in a slot that was there before or is the call under a reference
that is in one. What has taken the place of an access, or of parentheses around one, has the check of the
access; the call that has taken the place of an assignment has none. -/
theorem pass_nilChecks (env : Environment) (t : Tree) (h : t.WellFormed) :
    ∃ t' k, Pass.staticAccess.run env t = (t', .ok k) ∧
      (∀ id, t'.Reachable id → t'.root ≠ some id → (∃ before, t.SameSlot t' before id) ∨
        ∃ before reference, t.SameSlot t' before reference ∧ reference ≠ before ∧
          t'.kind? reference = some (.unary .dereference id)) ∧
      ∀ before after, t.SameSlot t' before after → after ≠ before → t'.hasNilCheck after =
        (!(t.kind? before).any (·.isAssignment) && t.hasNilCheck (t.stripParentheses before)) := by
  obtain ⟨s, hs⟩ := h.exists_stores
  obtain ⟨t', k, o, hrun, hran⟩ := exists_ran env hs
  refine ⟨t', k, pass_run hrun, fun id hid hroot => ?_, fun b a => hran.hasNilCheck⟩
  rcases hran.exists_sameSlot hid with h | h | ⟨b, ref, hbr, hne, hk, -⟩
  · exact absurd h hroot
  · exact .inl h
  · exact .inr ⟨b, ref, hbr, hne, hk⟩

/-! ## An assignment whose value is checked -/

/-- The type `A` with a method that runs `(first = first.next).run()`, where both the assignment and
`first` must not be nil. -/
def checkedSample : Tree where
  nodes := #[
    { kind := .simpleName "first" (some (.ofVariable 0)), parent := some 4 },
    { kind := .simpleName "first" (some (.ofVariable 0)), parent := some 3, nilCheck := true },
    { kind := .simpleName "next" (some (.ofVariable 1)), parent := some 3 },
    { kind := .qualifiedName 1 2, parent := some 4 },
    { kind := .assignment .assign 0 3, parent := some 5, nilCheck := true },
    { kind := .methodCall ⟨"run", ⟨1⟩, .primitive .void, false⟩ (some 4) [], parent := some 6 },
    { kind := .expressionStatement 5, parent := some 7 },
    { kind := .block [6], parent := some 8 },
    { kind := .methodDecl ⟨"m", ⟨2⟩, .primitive .void, false⟩ [] (some 7), parent := some 9 },
    { kind := .typeDecl (some ⟨2⟩) [8], parent := some 10 },
    { kind := .compilationUnit "A.java" [9] [] }]
  root := some 10

def checkedLowered : Tree :=
  (Pass.staticAccess.run sampleEnv checkedSample).1

theorem checkedSample_wellFormed : checkedSample.WellFormed :=
  Tree.wellFormed_of_isTidy (by decide +kernel)

/-- The call of `run` is below the same nodes before and after. -/
theorem checked_reachable {t : Tree} (h : t = checkedSample ∨ t = checkedLowered) : t.Reachable 5 := by
  have hroot : t.root = some 10 := by rcases h with rfl | rfl <;> decide +kernel
  have htype : t.Below 10 9 := .child .top (by rcases h with rfl | rfl <;> decide +kernel)
  have hmethod : t.Below 10 8 := .child htype (by rcases h with rfl | rfl <;> decide +kernel)
  have hbody : t.Below 10 7 := .child hmethod (by rcases h with rfl | rfl <;> decide +kernel)
  have hstatement : t.Below 10 6 := .child hbody (by rcases h with rfl | rfl <;> decide +kernel)
  exact ⟨10, hroot, .child hstatement (by rcases h with rfl | rfl <;> decide +kernel)⟩

theorem checked_receiver : checkedSample.SameSlot checkedLowered 4 11 := by
  have hbefore : (checkedSample.children 5)[0]? = some 4 := by decide +kernel
  have hafter : (checkedLowered.children 5)[0]? = some 11 := by decide +kernel
  exact .slot (checked_reachable (.inl rfl)) (checked_reachable (.inr rfl)) hbefore hafter

/-- The value has become the argument, in which the getter has taken the place of the name. -/
theorem checked_qualifier : checkedSample.SameSlot checkedLowered 1 12 := by
  obtain ⟨root, hroot, hb⟩ := checked_reachable (.inl rfl)
  obtain ⟨root', hroot', hb'⟩ := checked_reachable (.inr rfl)
  have hassignment : checkedSample.Below root 4 := .child hb (by decide +kernel)
  have hvalue : checkedSample.Below root 3 := .child hassignment (by decide +kernel)
  have hcall : checkedLowered.Below root' 11 := .child hb' (by decide +kernel)
  have hargument : checkedLowered.Below root' 3 := .child hcall (by decide +kernel)
  have hbefore : (checkedSample.children 3)[0]? = some 1 := by decide +kernel
  have hafter : (checkedLowered.children 3)[0]? = some 12 := by decide +kernel
  exact .slot ⟨root, hroot, hvalue⟩ ⟨root', hroot', hargument⟩ hbefore hafter

theorem pass_nilChecks_getter : checkedSample.WellFormed ∧
    checkedSample.SameSlot checkedLowered 1 12 ∧ checkedSample.hasNilCheck 1 = true ∧
    checkedLowered.hasNilCheck 12 = true := by
  obtain ⟨t', k, hrun, -, hchecks⟩ := pass_nilChecks sampleEnv checkedSample checkedSample_wellFormed
  obtain rfl : t' = checkedLowered := by rw [checkedLowered, hrun]
  refine ⟨checkedSample_wellFormed, checked_qualifier, by decide, ?_⟩
  rw [hchecks 1 12 checked_qualifier (by decide)]
  decide +kernel

/-- The assignment is checked, and the call that takes its place is not. -/
theorem checked_assignment_loses_check : checkedSample.WellFormed ∧
    (Pass.staticAccess.run sampleEnv checkedSample).1 = checkedLowered ∧
    checkedSample.SameSlot checkedLowered 4 11 ∧ checkedSample.hasNilCheck 4 = true ∧
    checkedLowered.hasNilCheck 11 = false :=
  ⟨checkedSample_wellFormed, rfl, checked_receiver, by decide, by decide +kernel⟩

end StaticAccess

end ObjectLowering
