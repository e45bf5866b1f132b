import Mathlib.Data.List.Forall2
import ObjectLowering.Proofs.StaticAccess.Refinement

/-!
# ObjectLowering.Proofs.StaticAccess.Origins

What becomes of the terms in a program, and where those in the lowered program come from.

* `Becomes`: what lowering may leave in the place of a term.
* `Becomes.children`: what a term has become holds in its slots what the children have become.
* `exists_becomes_or_dropped`: a term becomes one in the lowered program, or none of its nodes is left.
* `exists_origin`: a term in the lowered program that is not new comes from one with its label.
* `run_becomes`: the same of runs.
-/

namespace ObjectLowering.StaticAccess

variable {α : Type} {env : Environment} {new : α}

/-- What lowering may leave in the place of a term: the term lowered, in the code of some type, or as it
was below a case label, or a reference to the field that it stands for. -/
inductive Becomes (env : Environment) (new : α) (s : Term α) : Term α → Prop where
  | same : Becomes env new s s
  | lowered (context : Option TypeHash) : Becomes env new s (lower env new context s)
  | reference {context : Option TypeHash} {f : StaticField} :
    accessed? env context s.strip = some f →
      Becomes env new s (referenceTerm new f s.strip.cell)

/-- Only names and members need accessors, in parentheses or not. -/
theorem accessed?_strip_eq_none {context : Option TypeHash} {s : Term α}
    (hf : ∀ n, s.form ≠ .parenthesized n) (ha : s.form.isAccess = false) :
    accessed? env context s.strip = none := by
  rw [Term.strip_of_form_ne hf]
  cases s with
  | node l cell cs => exact accessed?_eq_none (denotes?_eq_none ha)

theorem forall₂_map_lower {context : Option TypeHash} (cs : List (Term α)) :
    List.Forall₂ (Becomes env new) cs (cs.map (lower env new context)) :=
  List.forall₂_map_right_iff.2 (List.forall₂_same.2 fun _ _ => .lowered context)

/-- Unless a new term has taken its place, the node stays, over what the children have become. -/
theorem Becomes.children {l : α} {cell : Cell} {cs : List (Term α)} {q : Term α}
    (h : Becomes env new (.node l cell cs) q) (hq : q.label ≠ new) :
    ∃ cell' ds, q = .node l cell' ds ∧ List.Forall₂ (Becomes env new) cs ds := by
  have hsame : List.Forall₂ (Becomes env new) cs cs := List.forall₂_same.2 fun _ _ => .same
  cases h with
  | same => exact ⟨cell, cs, rfl, hsame⟩
  | reference => exact absurd rfl hq
  | lowered context =>
    have hrole := roleOf_role env context (.node l cell cs)
    generalize hk : role env context (.node l cell cs) = k at hrole
    cases hrole with
    | caseLabel => exact ⟨cell, cs, lower_caseLabel hk, hsame⟩
    | read =>
      rw [lower_read hk] at hq
      exact absurd rfl hq
    | store =>
      rw [lower_store hk] at hq
      exact absurd rfl hq
    | update _ _ ha =>
      exact ⟨cell, _, lower_update hk, .cons (.reference ha) (.cons (.lowered context) .nil)⟩
    | step _ ha => exact ⟨cell, _, lower_step hk, .cons (.reference ha) .nil⟩
    | other => exact ⟨_, _, lower_other hk, forall₂_map_lower cs⟩

/-- A term in the program becomes one in the lowered program, or none of its labels is left. -/
theorem exists_becomes_or_dropped (env : Environment) (context : Option TypeHash) {r s : Term α}
    (hr : r.Within s) (hn : s.labels.Nodup) (hnew : new ∉ s.labels) :
    (∃ q, q.Within (lower env new context s) ∧ Becomes env new r q) ∨
      ∀ i ∈ r.labels, i ∉ (lower env new context s).labels := by
  induction s generalizing context with
  | node l cell cs ih =>
    rcases Term.within_node hr with rfl | ⟨c, hc, hrc⟩
    · exact .inl ⟨_, .refl, .lowered context⟩
    rcases lower_shape env new context l cell cs with ⟨-, he⟩ | ⟨l', cell', ds, he, hl, hds⟩
    · rw [he]
      exact .inl ⟨r, hr, .same⟩
    rw [Term.labels_node, List.nodup_cons] at hn
    have hsub := (Term.labels_sublist_of_mem hc).subset
    have hne {i : α} (hi : i ∈ c.labels) : i ≠ new := by
      rintro rfl
      exact hnew (Term.labels_subset_of_mem (s := .node l cell cs) hc i hi)
    -- what is left of a label below the child is in the lowered child
    have hdown {i : α} (hi : i ∈ c.labels) (h : i ∈ (Term.node l' cell' ds).labels) :
        lower env new (cell.form.context context) c ∈ ds ∧
          i ∈ (lower env new (cell.form.context context) c).labels := by
      rw [Term.labels_node, List.mem_cons, List.mem_flatMap] at h
      rcases h with rfl | ⟨d, hd, hid⟩
      · rcases hl with rfl | rfl
        · exact absurd (hsub hi) hn.1
        · exact absurd rfl (hne hi)
      · rcases hds d hd with ⟨e, hm, rfl⟩ | hall
        · obtain rfl := Term.eq_of_mem_labels hn.2 hc hm hi
            ((mem_labels_of_mem_lower hid).resolve_left (hne hi))
          exact ⟨hd, hid⟩
        · exact absurd (hall i hid) (hne hi)
    have hrc' := hrc.labels_sublist.subset
    rw [he]
    by_cases hkept : lower env new (cell.form.context context) c ∈ ds
    · have hnc := (Term.labels_sublist_of_mem hc).nodup hn.2
      rcases ih c hc _ hrc hnc fun h => hne h rfl with ⟨q, hq, hb⟩ | h
      · exact .inl ⟨q, .child hkept hq, hb⟩
      · exact .inr fun i hi hmem => h i hi (hdown (hrc' hi) hmem).2
    · exact .inr fun i hi hmem => hkept (hdown (hrc' hi) hmem).1

/-- A term in the lowered program that is not new comes from one with its label. -/
theorem exists_origin (env : Environment) (context : Option TypeHash) {q s : Term α}
    (hq : q.Within (lower env new context s)) (hnew : q.label ≠ new) :
    ∃ r, r.Within s ∧ r.label = q.label ∧ Becomes env new r q := by
  induction s generalizing context with
  | node l cell cs ih =>
    have hlow : Becomes env new (.node l cell cs) (lower env new context (.node l cell cs)) :=
      .lowered context
    rcases lower_shape env new context l cell cs with ⟨-, he⟩ | ⟨l', cell', ds, he, hl, hds⟩
    · rw [he] at hq
      exact ⟨q, hq, rfl, .same⟩
    rw [he] at hq hlow
    rcases Term.within_node hq with rfl | ⟨d, hd, hqd⟩
    · rcases hl with rfl | rfl
      · exact ⟨_, .refl, rfl, hlow⟩
      · exact absurd rfl hnew
    · rcases hds d hd with ⟨c, hc, rfl⟩ | hall
      · obtain ⟨r, hr, he, hb⟩ := ih c hc _ hqd
        exact ⟨r, .child hc hr, he, hb⟩
      · exact absurd (hall _ hqd.label_mem) hnew

/-! ## Runs -/

/-- What a run may leave in the place of a term, where the numbers of new nodes do not matter. -/
def BecomesIn (env : Environment) (t : Tree) (r q : Term NodeId) : Prop :=
  Becomes env none (r.relabel t.kept) (q.relabel t.kept)

theorem BecomesIn.children {t : Tree} {r q : Term NodeId} (h : BecomesIn env t r q)
    (hq : q.label < t.size) : List.Forall₂ (BecomesIn env t) r.children q.children := by
  obtain ⟨l, cell, cs⟩ := r
  obtain ⟨ql, qcell, ds⟩ := q
  have hkept : t.kept ql = some ql := Tree.kept_of_lt hq
  rw [BecomesIn, Term.relabel_node, Term.relabel_node, hkept] at h
  obtain ⟨cell', ds', he, hds⟩ := Becomes.children h (Option.some_ne_none _)
  injection he with _ _ hm
  subst hm
  rw [List.forall₂_map_left_iff, List.forall₂_map_right_iff] at hds
  exact hds

/-- A run leaves of each term in the program what it becomes, or none of its nodes, and nodes that were
there before come from those terms. -/
theorem run_becomes (env : Environment) {t : Tree} {s : Term NodeId} (h : t.Stores s) :
    ∃ t' k o, run env t = (t', .ok k) ∧ t'.Stores o ∧ t.Alters o.labels t' ∧
      (∀ r, r.Within s → (∃ q, q.Within o ∧ BecomesIn env t r q) ∨ ∀ i ∈ r.labels, i ∉ o.labels) ∧
        ∀ q, q.Within o → q.label < t.size →
          ∃ r, r.Within s ∧ r.label = q.label ∧ BecomesIn env t r q := by
  obtain ⟨t', k, o, hrun, ho, halters, hrel⟩ := run_lowers env h
  refine ⟨t', k, o, hrun, ho, halters, fun r hr => ?_, fun q hq hlt => ?_⟩
  · have hkept : ∀ i ∈ s.labels, t.kept i = some i := fun i hi =>
      Tree.kept_of_lt (h.holds.lt_size i hi)
    have hn : (s.relabel t.kept).labels.Nodup := by
      rw [Term.labels_relabel]
      refine h.nodup.map_on fun i hi j hj he => Option.some.inj ?_
      rw [← hkept i hi, ← hkept j hj, he]
    have hnew : none ∉ (s.relabel t.kept).labels := by
      rw [Term.labels_relabel]
      intro hmem
      obtain ⟨i, hi, he⟩ := List.mem_map.1 hmem
      cases he.symm.trans (hkept i hi)
    rcases exists_becomes_or_dropped env none (hr.relabel t.kept) hn hnew with ⟨q, hw, hb⟩ | hw
    · obtain ⟨q, hq, rfl⟩ := Term.exists_within_of_relabel (hrel.symm ▸ hw)
      exact .inl ⟨q, hq, hb⟩
    · refine .inr fun i hi hio => hw (t.kept i) ?_ ?_
      · rw [Term.labels_relabel]
        exact List.mem_map_of_mem hi
      · rw [← hrel, Term.labels_relabel]
        exact List.mem_map_of_mem hio
  · have hw := hq.relabel t.kept
    rw [hrel] at hw
    have hlabel : (q.relabel t.kept).label = some q.label := by
      rw [Term.label_relabel, Tree.kept_of_lt hlt]
    obtain ⟨r', hr', he, hb⟩ := exists_origin env none hw (by rw [hlabel]; exact Option.some_ne_none _)
    obtain ⟨r, hr, rfl⟩ := Term.exists_within_of_relabel hr'
    rw [hlabel, Term.label_relabel] at he
    exact ⟨r, hr, Tree.eq_of_kept he, hb⟩

end ObjectLowering.StaticAccess
