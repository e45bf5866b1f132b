import ObjectLowering.Graph.StackSearch
import ObjectLowering.Proofs.Graph.Laws

/-!
# ObjectLowering.Proofs.Graph.StackSearch

The library that searches with a stack keeps the laws of a graph library.

* `gives_next`: a call for the next node.
* `precedes_of_firstToCome?_eq_none`: if no node that leads to one that is passed is still to come,
  nodes are passed before those that they lead to.
* `transGen_of_firstToCome?`: otherwise the node that is still to come leads back to itself.
* `lawful`: the library is lawful.
-/

namespace ObjectLowering.StackSearch

open Relation DepthFirst

/-- A search under way, as the laws of a library speak of it. -/
def state (s : State) : SearchState :=
  ⟨s.stack, s.discovered.toFinset, s.finished.toFinset⟩

variable {g : Graph} {p : Progress} {i j : Nat}

theorem gives_next (g : Graph) (s : State) : Gives g (state s) (next g s).1 (state (next g s).2) := by
  fun_induction next g s with
  | case1 discovered finished => exact .done
  | case2 node rest discovered finished hnew ih =>
    refine .discover (mt List.mem_toFinset.1 hnew) ?_
    simpa [state, push_eq] using ih
  | case3 node rest discovered finished hdiscovered hfinished ih =>
    exact .drop (List.mem_toFinset.2 (not_not.1 hdiscovered)) (List.mem_toFinset.2 hfinished) ih
  | case4 node rest discovered finished hdiscovered hfinished =>
    have hgives : Gives g (state ⟨node :: rest, discovered, finished⟩) (some node)
        ⟨rest, discovered.toFinset, insert node finished.toFinset⟩ :=
      .finish (List.mem_toFinset.2 (not_not.1 hdiscovered)) (mt List.mem_toFinset.1 hfinished)
    rwa [← List.toFinset_cons] at hgives

theorem lawful_postOrder : postOrder.Lawful state where
  empty _ := rfl
  moveTo _ _ := rfl
  next g s _ _ := gives_next g s

/-! ## The search for a cycle -/

/-- A node that is to come has not been passed, and leads to one that is. -/
theorem firstToCome?_eq_some {passed nodes : List Nat} {source : Fin g.size}
    (h : firstToCome? g passed nodes = some source) : ∃ before node after,
      nodes = before ++ node :: after ∧ node ∈ g.targets source ∧
        source.val ∉ passed ∧ source.val ∉ before ∧ source.val ≠ node := by
  induction nodes generalizing passed with
  | nil => cases h
  | cons first rest ih =>
    rw [firstToCome?, Option.or_eq_some_iff] at h
    rcases h with h | ⟨-, h⟩
    · have hfound := List.find?_some h
      simp only [decide_eq_true_eq, List.mem_cons, not_or] at hfound
      obtain ⟨htarget, hne, hpassed⟩ := hfound
      exact ⟨[], first, rest, rfl, htarget, hpassed, List.not_mem_nil, hne⟩
    · obtain ⟨before, node, after, rfl, htarget, hpassed, hbefore, hne⟩ := ih h
      rw [List.mem_cons, not_or] at hpassed
      exact ⟨first :: before, node, after, rfl, htarget, hpassed.2,
        fun hm => (List.mem_cons.1 hm).elim hpassed.1 hbefore, hne⟩

/-- If no node is to come, what leads to a node has been passed before it. -/
theorem precedes_of_firstToCome?_eq_none {passed nodes before after : List Nat} {node : Nat}
    (h : firstToCome? g passed nodes = none) (hsplit : nodes = before ++ node :: after)
    {source : Fin g.size} (htarget : node ∈ g.targets source) :
    source.val ∈ passed ∨ source.val ∈ before ∨ source.val = node := by
  induction nodes generalizing passed before with
  | nil => simp at hsplit
  | cons first rest ih =>
    rw [firstToCome?, Option.or_eq_none_iff] at h
    obtain ⟨hfirst, hrest⟩ := h
    cases before with
    | nil =>
      obtain ⟨rfl, rfl⟩ := List.cons.inj hsplit
      have hmem := List.find?_eq_none.1 hfirst source (List.mem_finRange source)
      simp only [htarget, true_and, decide_eq_true_eq, not_not, List.mem_cons] at hmem
      tauto
    | cons _ before =>
      obtain ⟨rfl, rfl⟩ := List.cons.inj hsplit
      rcases ih hrest rfl with hm | hm | hm
      · rcases List.mem_cons.1 hm with rfl | hm
        · exact .inr (.inl List.mem_cons_self)
        · exact .inl hm
      · exact .inr (.inl (List.mem_cons_of_mem _ hm))
      · exact .inr (.inr hm)

/-- Of nodes that are finished in this order, the one that is to come leads back to itself. -/
theorem transGen_of_firstToCome? (hg : g.Bounded)
    (hvisits : Visits g.targets {} (List.range g.size) p) {source : Fin g.size}
    (h : firstToCome? g [] p.finished = some source) : TransGen g.HasEdge source source := by
  obtain ⟨before, node, after, hfinished, htarget, -, hbefore, hne⟩ := firstToCome?_eq_some h
  obtain ⟨hperm, -⟩ := hvisits.finished_perm hg.lt
  have hnodup : (before ++ node :: after).Nodup :=
    hfinished ▸ hperm.nodup_iff.2 List.nodup_range
  have hsource : source.val ∈ before ++ node :: after :=
    hfinished ▸ hperm.mem_iff.2 (List.mem_range.2 source.isLt)
  have hafter : source.val ∈ after := by simpa [hbefore, hne] using hsource
  have hsettled : Settled g.targets p.finished := hvisits.settled (.start _ _) trivial
  have hback := (hfinished ▸ hsettled).of_mem hafter htarget (List.nodup_append.1 hnodup).2.1
  rw [g.leads_targets] at hback
  exact .head' (Graph.mem_targets.1 htarget) hback

theorem hasEdge_of_selfTarget? {s : State} {node : Fin g.size}
    (h : selfTarget? g s = some node) : g.HasEdge node node := by
  obtain ⟨i, -, hfound⟩ := List.exists_of_findSome?_eq_some h
  have hself := List.find?_some hfound
  simp only [decide_eq_true_eq] at hself
  obtain ⟨rfl, hself⟩ := hself
  exact Graph.mem_targets.1 hself

theorem not_hasEdge_of_selfTarget? {s : State} (h : selfTarget? g s = none)
    (hi : i ∈ s.discovered) (hlt : i < g.size) : ¬ g.HasEdge i i := by
  intro hself
  have hnone := List.findSome?_eq_none_iff.1 h i (List.mem_reverse.2 hi)
  have hmem := List.find?_eq_none.1 hnone ⟨i, hlt⟩ (List.mem_finRange _)
  exact hmem (decide_eq_true ⟨rfl, Graph.mem_targets.2 hself⟩)

/-! ## The topological sort -/

/-- The sort looks for a node on a cycle among those that a search has discovered and finished. -/
theorem toposort_eq (hg : g.Bounded) (hvisits : Visits g.targets {} (List.range g.size) p) :
    ∃ s : State, (∀ i, i ∈ s.discovered ↔ i ∈ p.discovered) ∧
      toposort g = match (selfTarget? g s).or (firstToCome? g [] p.finished) with
        | some node => .error node
        | none => .ok p.finished := by
  obtain ⟨horder, stack, hstate⟩ := lawful_postOrder.run_eq hg hvisits
  refine ⟨(postOrder.run g).2, fun i => ?_, ?_⟩
  · have hdiscovered := congrArg (i ∈ ·.discovered) hstate
    simpa [state, Progress.onStack] using hdiscovered
  · have hfinished : (postOrder.run g).1.reverse = p.finished := by
      rw [horder, List.reverse_reverse]
    rw [← hfinished]
    rfl

theorem sorted_toposort (hg : g.Bounded) {nodes : List Nat} (h : toposort g = .ok nodes) :
    nodes.Perm (List.range g.size) ∧ ∀ i j, g.HasEdge i j → [i, j].Sublist nodes := by
  obtain ⟨p, hvisits⟩ := exists_visits hg.lt {} (l := List.range g.size) fun _ => List.mem_range.1
  obtain ⟨hperm, hdiscovered⟩ := hvisits.finished_perm hg.lt
  obtain ⟨s, hs, htoposort⟩ := toposort_eq hg hvisits
  rw [htoposort] at h
  split at h
  · cases h
  · rename_i hnone
    cases h
    obtain ⟨hself, hcome⟩ := Option.or_eq_none_iff.1 hnone
    refine ⟨hperm, fun i j hij => ?_⟩
    obtain ⟨hi, hj⟩ := hg i j hij
    obtain ⟨before, after, hfinished⟩ :=
      List.append_of_mem (hperm.mem_iff.2 (List.mem_range.2 hj))
    have hne : i ≠ j := by
      rintro rfl
      have hmem : i ∈ p.discovered := (hdiscovered i).2 (hperm.mem_iff.2 (List.mem_range.2 hi))
      exact not_hasEdge_of_selfTarget? hself ((hs i).2 hmem) hi hij
    have hbefore : i ∈ before := by
      have htarget : j ∈ g.targets (⟨i, hi⟩ : Fin g.size) := Graph.mem_targets.2 hij
      have hpassed := precedes_of_firstToCome?_eq_none hcome hfinished htarget
      simpa [hne] using hpassed
    rw [hfinished]
    exact (List.singleton_sublist.2 hbefore).append (List.singleton_sublist.2 List.mem_cons_self)

theorem cyclic_toposort (hg : g.Bounded) {node : Fin g.size} (h : toposort g = .error node) :
    TransGen g.HasEdge node node := by
  obtain ⟨p, hvisits⟩ := exists_visits hg.lt {} (l := List.range g.size) fun _ => List.mem_range.1
  obtain ⟨s, -, htoposort⟩ := toposort_eq hg hvisits
  rw [htoposort] at h
  split at h
  · rename_i hsome
    cases h
    rcases Option.or_eq_some_iff.1 hsome with hself | ⟨-, hcome⟩
    · exact .single (hasEdge_of_selfTarget? hself)
    · exact transGen_of_firstToCome? hg hvisits hcome
  · cases h

theorem lawful : library.Lawful state where
  toLawful := lawful_postOrder
  sorted _ _ hg h := sorted_toposort hg h
  cyclic _ _ hg h := cyclic_toposort hg h

end ObjectLowering.StackSearch
