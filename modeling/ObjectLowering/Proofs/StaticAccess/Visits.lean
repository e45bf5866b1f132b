import Mathlib.Data.Set.Card
import ObjectLowering.Proofs.StaticAccess.Growth
import ObjectLowering.Proofs.StaticAccess.Refinement

/-!
# ObjectLowering.Proofs.StaticAccess.Visits

The walk of the pass visits every node at most once, and not many more than there were at first.

* `Accounts`: an account of visits. Each is to a node of the term walked or to a new one, none comes
  twice, and for each replacement there are two more of them at most.
* `Accounts.visit`, `Accounts.append`: the account of a node and what is walked behind it, and that of
  two terms one after the other.
* `accountsAt`: there is one for the walk from any position. By induction on the levels, which the
  nodes below the position bound; the reference that an update puts there is walked too, but the
  target for which it stands is not.
* `pass_visits`: so there is one for the run of the pass.
-/

namespace ObjectLowering

theorem Site.exists_settle_slot (id : NodeId) (cell : Cell) (before after : List (Term NodeId))
    (outer : Site) (name : Bool) : ∃ cell' outer',
      (slot id cell before after outer).settle name = slot id cell' before after outer' := by
  cases name with
  | true => exact ⟨cell, outer, rfl⟩
  | false =>
    cases before with
    | cons b before => exact ⟨cell, outer, rfl⟩
    | nil =>
      show ∃ cell' outer', (slot id cell [] after outer).expose = slot id cell' [] after outer'
      unfold expose
      split
      · exact ⟨_, _, rfl⟩
      · exact ⟨_, _, rfl⟩

theorem Tree.Stores.ncard_reachable {t : Tree} {p : Term NodeId} (h : t.Stores p) :
    {id | t.Reachable id}.ncard = p.labels.length := by
  have hset : {id | t.Reachable id} = p.labels.toFinset := by
    ext i
    rw [Set.mem_ofPred_eq, List.coe_toFinset, Set.mem_ofPred_eq]
    exact ⟨h.mem_of_reachable, h.reachable_of_mem⟩
  rw [hset, Set.ncard_coe_finset, List.toFinset_card_of_nodup h.nodup]

namespace StaticAccess

open Visitor

variable {env : Environment} {s s' s₁ : WalkState Nat} {labels : List NodeId} {id : NodeId}
  {l l' : List NodeId}

/-! ## Accounts of visits -/

/-- Between two states, nodes of a program with these numbers are visited, and new ones. -/
structure Accounts (labels : List NodeId) (s s' : WalkState Nat) (visited : List NodeId) :
    Prop where
  nodup : visited.Nodup
  known : ∀ i ∈ visited, i ∈ labels ∨ s.tree.size ≤ i ∧ i < s'.tree.size
  length_le : visited.length + 2 * s.memory ≤ labels.length + 2 * s'.memory

namespace Accounts

theorem nil (s : WalkState Nat) : Accounts [] s s [] :=
  ⟨.nil, nofun, Nat.le_refl _⟩

/-- The visit of a node, with what is walked behind it in a state that the visit has left. Nodes that
are walked behind it may be new, as long as they are counted. -/
theorem visit {rest : List NodeId} (h : Accounts rest s₁ s' l) (hgrows : Grows s s₁)
    (hgrows' : Grows s₁ s') (hid : id ∈ labels) (hlt : id < s.tree.size) (hrest : id ∉ rest)
    (hknown : ∀ i ∈ rest, i ∈ labels ∨ s.tree.size ≤ i ∧ i < s₁.tree.size)
    (hlength : rest.length + 1 + 2 * s.memory ≤ labels.length + 2 * s₁.memory) :
    Accounts labels s s' (id :: l) where
  nodup := by
    refine List.nodup_cons.2 ⟨fun hm => ?_, h.nodup⟩
    rcases h.known id hm with hm | ⟨hle, -⟩
    · exact hrest hm
    · exact Nat.not_lt.2 (Nat.le_trans hgrows.size_le hle) hlt
  known := by
    intro i hi
    rcases List.mem_cons.1 hi with rfl | hi
    · exact .inl hid
    · rcases h.known i hi with hi | ⟨hle, hnew⟩
      · refine (hknown i hi).imp_right fun hnew => ?_
        exact ⟨hnew.1, Nat.lt_of_lt_of_le hnew.2 hgrows'.size_le⟩
      · exact .inr ⟨Nat.le_trans hgrows.size_le hle, hnew⟩
  length_le := by
    have hlength' := h.length_le
    rw [List.length_cons]
    omega

/-- Two terms without common nodes, one after the other. What is new in the walk of one is no node of the
other, as these are older. -/
theorem append {others : List NodeId} (h : Accounts labels s s₁ l) (h' : Accounts others s₁ s' l')
    (hgrows : Grows s s₁) (hgrows' : Grows s₁ s') (hnodup : (labels ++ others).Nodup)
    (hlt : ∀ i ∈ labels ++ others, i < s.tree.size) :
    Accounts (labels ++ others) s s' (l ++ l') where
  nodup := by
    refine List.nodup_append.2 ⟨h.nodup, h'.nodup, ?_⟩
    rintro i hi _ hi' rfl
    rcases h'.known i hi' with hm' | ⟨hle', -⟩
    · rcases h.known i hi with hm | ⟨hle, -⟩
      · exact (List.nodup_append.1 hnodup).2.2 i hm i hm' rfl
      · exact Nat.not_lt.2 hle (hlt i (List.mem_append_right _ hm'))
    · rcases h.known i hi with hm | ⟨-, hnew⟩
      · exact Nat.not_lt.2 (Nat.le_trans hgrows.size_le hle') (hlt i (List.mem_append_left _ hm))
      · exact Nat.not_lt.2 hle' hnew
  known := by
    intro i hi
    rcases List.mem_append.1 hi with hi | hi
    · rcases h.known i hi with hm | ⟨hle, hnew⟩
      · exact .inl (List.mem_append_left _ hm)
      · exact .inr ⟨hle, Nat.lt_of_lt_of_le hnew hgrows'.size_le⟩
    · rcases h'.known i hi with hm | ⟨hle, hnew⟩
      · exact .inl (List.mem_append_right _ hm)
      · exact .inr ⟨Nat.le_trans hgrows.size_le hle, hnew⟩
  length_le := by
    have hlength := h.length_le
    have hlength' := h'.length_le
    simp only [List.length_append]
    omega

end Accounts

/-! ## Walks -/

/-- A walk of this depth succeeds, and there is an account of its visits. -/
def Accounted (env : Environment) (depth : Nat) (route : Route) (labels : List NodeId)
    (s : WalkState Nat) : Prop :=
  ∃ s' visited, (visit env).Visits depth route s visited s' ∧ Accounts labels s s' visited

/-- Walks of this depth are accounted for at every term that has no more nodes. Only the root of a tree
cannot be replaced. -/
def AccountsAt (env : Environment) (depth : Nat) : Prop :=
  ∀ {t : Tree} {k : Nat} {site : Site} {s : Term NodeId}, t.At site s → s.WellNamed →
    s.labels.length ≤ depth → (site = .root → role env none s = .other) →
    Accounted env depth (.node s.label) s.labels ⟨t, k⟩

section Roles

variable {depth k : Nat} {t : Tree} {site : Site} {cell : Cell} {f : StaticField}

/-- After a walk the position holds another term, and the nodes around it may have adapted. -/
theorem at_of_visits {s : Term NodeId} {s' : WalkState Nat} (h : t.At site s) (hn : s.WellNamed)
    (hd : s.labels.length ≤ depth) (hr : site = .root → role env none s = .other)
    (hv : (visit env).Visits depth (.node s.label) ⟨t, k⟩ l s') :
    ∃ o : Term NodeId, s'.tree.At (site.settle o.isName) o := by
  have hlowers : Lowers env (fun _ => ()) () depth := walkFrom_lowers env depth
  obtain ⟨t', k', o, hrun, -, ho, -⟩ := hlowers (k := k) h hn hd hr fun _ _ => rfl
  cases hv.run.symm.trans hrun
  exact ⟨o, ho⟩

/-- The children that are still to be walked. By induction on them, along the tree as the walk of each
leaves it: the node above and the site may have adapted to the first child, and to no other. -/
theorem accounted_each (ih : AccountsAt env depth) {cs : List (Term NodeId)}
    (before : List (Term NodeId)) (h : t.At site (.node id cell (before ++ cs)))
    (hnm : before = [] → Term.NamesOk cell.form cs) (hn : ∀ c ∈ cs, c.WellNamed)
    (hd : ∀ c ∈ cs, c.labels.length ≤ depth) :
    Accounted env depth (.each id (cs.map Term.label)) (cs.flatMap Term.labels) ⟨t, k⟩ := by
  induction cs generalizing t k site cell before with
  | nil => exact ⟨⟨t, k⟩, [], .nil, .nil _⟩
  | cons c cs ihcs =>
    obtain ⟨hnc, hncs⟩ := List.forall_mem_cons.1 hn
    obtain ⟨hdc, hdcs⟩ := List.forall_mem_cons.1 hd
    have hc : t.At (.slot id cell before cs site) c := h.into hnm
    obtain ⟨⟨t₁, k₁⟩, l, hv, hl⟩ := ih (k := k) hc hnc hdc (absurd · Site.slot_ne_root)
    obtain ⟨c', h₁⟩ := at_of_visits hc hnc hdc (absurd · Site.slot_ne_root) hv
    obtain ⟨cell', site', hsettle⟩ := Site.exists_settle_slot id cell before cs site c'.isName
    rw [hsettle] at h₁
    have h₁ : t₁.At site' (.node id cell' ((before ++ [c']) ++ cs)) := by
      rw [List.append_assoc]
      exact h₁.out
    obtain ⟨s', l', hv', hl'⟩ := ihcs (k := k₁) (before ++ [c']) h₁ (by simp) hncs hdcs
    refine ⟨s', l ++ l', .enter hc.holds.parent? hv hv', ?_⟩
    have hlabels : (c.labels ++ cs.flatMap Term.labels).Sublist
        (Term.node id cell (before ++ c :: cs)).labels := by
      rw [Term.labels_node, List.flatMap_append, List.flatMap_cons]
      exact (List.sublist_append_right _ _).cons _
    rw [List.flatMap_cons]
    exact hl.append hl' (grows_visits hv) (grows_visits hv')
      (hlabels.nodup (List.nodup_append.1 h.nodup).1)
      fun i hi => h.holds.lt_size i (hlabels.subset hi)

variable {cs : List (Term NodeId)}

theorem accounted_skip {s' : WalkState Nat} (h : t.At site (.node id cell cs))
    (ha : (visit env).Answers id ⟨t, k⟩ .skip s') :
    Accounted env (depth + 1) (.node id) (Term.node id cell cs).labels ⟨t, k⟩ := by
  have hgrows := grows_answers ha
  have hmemory : k ≤ s'.memory := hgrows.memory_le
  refine ⟨s', [id], .skip ha, (Accounts.nil s').visit hgrows (.refl s') ?_ ?_ nofun nofun ?_⟩
  · exact Term.label_mem_labels (.node id cell cs)
  · exact h.holds.has.lt_size
  · rw [Term.labels_node]
    simp only [List.length_nil, List.length_cons]
    omega

theorem accounted_store (ih : AccountsAt env depth) {op : AssignOp} {a b : NodeId}
    {x y : Term NodeId} (h : t.At site (.node id cell [x, y])) (hn : y.WellNamed)
    (hd : y.labels.length ≤ depth) (hr : site ≠ .root) (hf : cell.form = .assignment op a b)
    (ho : (op.isSimple && !f.field.type.isPrimitive) = true)
    (ha : accessed? env site.context x.strip = some f) :
    Accounted env (depth + 1) (.node id) (Term.node id cell [x, y]).labels ⟨t, k⟩ := by
  obtain ⟨t₁, -, h₁, hdefers⟩ := visit_store (k := k) h hr hf ho ha
  obtain ⟨s', l, hv, hl⟩ := ih (k := k + 1) h₁ hn hd (absurd · Site.slot_ne_root)
  have hlabels := Term.labels_pair id cell x y
  have hnodup := (List.nodup_append.1 h.nodup).1
  rw [hlabels, List.nodup_cons] at hnodup
  refine ⟨s', id :: l, .defer hdefers hv, ?_⟩
  refine hl.visit (grows_defers hdefers) (grows_visits hv) ?_ h.holds.has.lt_size ?_ ?_ ?_
  · exact Term.label_mem_labels (.node id cell [x, y])
  · exact fun hm => hnodup.1 (List.mem_append_right _ hm)
  · intro i hi
    rw [hlabels]
    exact .inl (List.mem_cons_of_mem _ (List.mem_append_right _ hi))
  · rw [hlabels]
    simp only [List.length_cons, List.length_append]
    omega

/-- A visit that has left the children for the walk to enter, maybe with new nodes among them. -/
theorem accounted_children (ih : AccountsAt env depth) {t₁ : Tree} {k₁ : Nat}
    (ha : (visit env).Answers id ⟨t, k⟩ .children ⟨t₁, k₁⟩) (hlt : id < t.size) (hid : id ∈ labels)
    (h : t₁.At site (.node id cell cs)) (hnm : Term.NamesOk cell.form cs)
    (hn : ∀ c ∈ cs, c.WellNamed) (hd : ∀ c ∈ cs, c.labels.length ≤ depth)
    (hknown : ∀ i ∈ cs.flatMap Term.labels, i ∈ labels ∨ t.size ≤ i)
    (hlength : (Term.node id cell cs).labels.length + 2 * k ≤ labels.length + 2 * k₁) :
    Accounted env (depth + 1) (.node id) labels ⟨t, k⟩ := by
  obtain ⟨s', l, hv, hl⟩ := accounted_each (k := k₁) ih [] h (fun _ => hnm) hn hd
  have hgrows := grows_visits hv
  have hchildren : t₁.children id = cs.map Term.label := h.holds.has.children
  have hnodup := (List.nodup_append.1 h.nodup).1
  rw [Term.labels_node, List.nodup_cons] at hnodup
  rw [Term.labels_node, List.length_cons] at hlength
  rw [← hchildren] at hv
  refine ⟨s', id :: l, .children ha hv, ?_⟩
  refine hl.visit (grows_answers ha) hgrows hid hlt hnodup.1 (fun i hi => ?_) hlength
  refine (hknown i hi).imp_right fun hle => ⟨hle, h.holds.lt_size i ?_⟩
  rw [Term.labels_node]
  exact List.mem_cons_of_mem _ hi

theorem le_of_mem_reference {r : Term NodeId} {name : Cell} {i : NodeId}
    (h : r.relabel t.kept = referenceTerm none f name) (hi : i ∈ r.labels) : t.size ≤ i := by
  refine Nat.not_lt.1 fun hlt => ?_
  have hm : t.kept i ∈ (referenceTerm none f name).labels := by
    rw [← h, Term.labels_relabel]
    exact List.mem_map_of_mem hi
  cases (Tree.kept_of_lt hlt).symm.trans (eq_of_mem_labels_reference hm)

/-- The two nodes of the reference make up for the target, which is left out with the replacement
counted. -/
theorem accounted_update (ih : AccountsAt env depth) {op : AssignOp} {a b : NodeId}
    {x y : Term NodeId} (h : t.At site (.node id cell [x, y])) (hn : y.WellNamed)
    (hd : 2 ≤ depth ∧ y.labels.length ≤ depth) (hf : cell.form = .assignment op a b)
    (ho : (op.isSimple && !f.field.type.isPrimitive) = false)
    (ha : accessed? env site.context x.strip = some f) :
    Accounted env (depth + 1) (.node id) (Term.node id cell [x, y]).labels ⟨t, k⟩ := by
  obtain ⟨t₁, r, hv, -, h₁, hrel⟩ := visit_update (k := k) (fun _ => Tree.kept_eq_none) h hf ho ha
  have hlength := length_labels_of_relabel hrel
  refine accounted_children ih hv h.holds.has.lt_size (Term.label_mem_labels (.node id cell [x, y]))
    h₁ (Term.namesOk_of_isAccess_eq_false (by rw [hf]; rfl)) ?_ ?_ ?_ ?_
  · exact List.forall_mem_cons.2 ⟨wellNamed_of_relabel hrel, List.forall_mem_singleton.2 hn⟩
  · exact List.forall_mem_cons.2 ⟨hlength ▸ hd.1, List.forall_mem_singleton.2 hd.2⟩
  · intro i hi
    rw [List.flatMap_cons, List.flatMap_singleton, List.mem_append] at hi
    rcases hi with hi | hi
    · exact .inr (le_of_mem_reference hrel hi)
    · rw [Term.labels_pair]
      exact .inl (List.mem_cons_of_mem _ (List.mem_append_right _ hi))
  · have hpos := x.length_labels_pos
    simp only [Term.labels_pair, List.length_cons, List.length_append]
    omega

theorem accounted_other (ih : AccountsAt env depth) (h : t.At site (.node id cell cs))
    (hn : (Term.node id cell cs).WellNamed) (hd : ∀ c ∈ cs, c.labels.length ≤ depth)
    (hr : RoleOf env site.context (.node id cell cs) .other) :
    Accounted env (depth + 1) (.node id) (Term.node id cell cs).labels ⟨t, k⟩ := by
  refine accounted_children ih (fun walk => visit_other walk h hr) h.holds.has.lt_size
    (Term.label_mem_labels (.node id cell cs)) h hn.names hn.child hd (fun i hi => .inl ?_)
    (Nat.le_refl _)
  rw [Term.labels_node]
  exact List.mem_cons_of_mem _ hi

end Roles

theorem accountsAt (env : Environment) (depth : Nat) : AccountsAt env depth := by
  induction depth with
  | zero =>
    intro t k site s _ _ hd
    have := s.length_labels_pos
    omega
  | succ depth ih =>
    intro t k site s h hn hd hroot
    cases s with
    | node id cell cs =>
      have hof := roleOf_role env site.context (.node id cell cs)
      have hne : role env site.context (.node id cell cs) ≠ .other → site ≠ .root := by
        rintro ho rfl
        exact ho (hroot rfl)
      have hlen {c : Term NodeId} (hc : c ∈ cs) : c.labels.length ≤ depth := by
        have := Term.length_labels_lt id cell hc
        omega
      generalize role env site.context (.node id cell cs) = r at hof hne
      cases hof with
      | caseLabel hf => exact accounted_skip h fun walk => visit_caseLabel h hf
      | read ha =>
        obtain ⟨t', r, hv, -⟩ := visit_read (k := k) (fun _ => Tree.kept_eq_none) h (hne (by simp)) ha
        exact accounted_skip h hv
      | step hf ha =>
        obtain ⟨t', r, hv, -⟩ := visit_step (k := k) (fun _ => Tree.kept_eq_none) h hf ha
        exact accounted_skip h hv
      | @store _ _ _ _ _ x y f hf ho ha =>
        exact accounted_store ih h (hn.child y (by simp)) (hlen (by simp)) (hne (by simp)) hf ho ha
      | @update _ _ _ _ _ x y f hf ho ha =>
        have hd' : 2 ≤ depth := by
          have := x.length_labels_pos
          have := y.length_labels_pos
          simp only [Term.labels_pair, List.length_cons, List.length_append] at hd
          omega
        exact accounted_update ih h (hn.child y (by simp)) ⟨hd', hlen (by simp)⟩ hf ho ha
      | other hf hassign hstep ha =>
        exact accounted_other ih h hn (fun c hc => hlen hc) (.other hf hassign hstep ha)

/-! ## The run of the pass -/

theorem run_accounts (env : Environment) {t : Tree} {p : Term NodeId} (h : t.Stores p) :
    ∃ t' k visited, run env t = (t', .ok k) ∧ Accounts p.labels ⟨t, 0⟩ ⟨t', k⟩ visited ∧
      Grows ⟨t, 0⟩ ⟨t', k⟩ ∧ ∀ depth, p.labels.length ≤ depth →
        (visit env).Visits depth (.node p.label) ⟨t, 0⟩ visited ⟨t', k⟩ := by
  obtain ⟨source, types, native, hunit⟩ := h.unit
  have hat (depth : Nat) (hd : p.labels.length ≤ depth) :
      Accounted env depth (.node p.label) p.labels ⟨t, 0⟩ :=
    accountsAt env depth h.at_root h.named hd fun _ => role_unit hunit none
  obtain ⟨⟨t', k⟩, visited, hv, hvisited⟩ := hat _ h.length_le_levels
  refine ⟨t', k, visited, run_of_walk rfl h.root (Visitor.walk_of_ok hv.run), hvisited,
    grows_visits hv, fun depth hd => ?_⟩
  obtain ⟨s', l, hv', -⟩ := hat depth hd
  obtain ⟨rfl, rfl⟩ := hv.unique hv'
  exact hv'

/-- The pass succeeds on every well-formed tree. Its levels are enough: every walk with as many of them
as there are nodes that can be reached makes the same visits. No node is visited twice, and for each
replacement there are two visits more than nodes at most, and one new node or two. -/
theorem pass_visits (env : Environment) (t : Tree) (h : t.WellFormed) :
    ∃ root t' k visited, t.root = some root ∧ Pass.staticAccess.run env t = (t', .ok k) ∧
      {id | t.Reachable id}.ncard ≤ Visitor.levels t ∧
      (∀ depth, {id | t.Reachable id}.ncard ≤ depth → ∀ l s,
        (visit env).Visits depth (.node root) ⟨t, 0⟩ l s ↔ l = visited ∧ s = ⟨t', k⟩) ∧
      visited.Nodup ∧ (∀ id ∈ visited, t.Reachable id ∨ t.size ≤ id ∧ id < t'.size) ∧
      visited.length ≤ {id | t.Reachable id}.ncard + 2 * k ∧
      t.size + k ≤ t'.size ∧ t'.size ≤ t.size + 2 * k := by
  obtain ⟨p, hp⟩ := h.exists_stores
  obtain ⟨t', k, visited, hrun, hvisited, hgrows, hall⟩ := run_accounts env hp
  rw [hp.ncard_reachable]
  refine ⟨p.label, t', k, visited, hp.root, pass_run hrun, hp.length_le_levels,
    fun depth hd l s => ⟨fun hv => ?_, ?_⟩, hvisited.nodup, fun id hid => ?_, ?_, ?_, ?_⟩
  · exact hv.unique (hall depth hd)
  · rintro ⟨rfl, rfl⟩
    exact hall depth hd
  · exact (hvisited.known id hid).imp_left hp.reachable_of_mem
  · exact hvisited.length_le
  · exact hgrows.1
  · exact hgrows.2

theorem pass_visits_sample : sample.WellFormed ∧
    ∃ root t' k visited, sample.root = some root ∧
      Pass.staticAccess.run sampleEnv sample = (t', .ok k) ∧
      {id | sample.Reachable id}.ncard ≤ Visitor.levels sample ∧
      (∀ depth, {id | sample.Reachable id}.ncard ≤ depth → ∀ l s,
        (visit sampleEnv).Visits depth (.node root) ⟨sample, 0⟩ l s ↔
          l = visited ∧ s = ⟨t', k⟩) ∧
      visited.Nodup ∧ (∀ id ∈ visited, sample.Reachable id ∨ sample.size ≤ id ∧ id < t'.size) ∧
      visited.length ≤ {id | sample.Reachable id}.ncard + 2 * k ∧
      sample.size + k ≤ t'.size ∧ t'.size ≤ sample.size + 2 * k :=
  ⟨sample_wellFormed, pass_visits sampleEnv sample sample_wellFormed⟩

end StaticAccess

end ObjectLowering
