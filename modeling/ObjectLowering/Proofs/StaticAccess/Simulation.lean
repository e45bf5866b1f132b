import ObjectLowering.Proofs.StaticAccess.Settled
import ObjectLowering.Proofs.StaticAccess.Steps

/-!
# ObjectLowering.Proofs.StaticAccess.Simulation

The pass, which changes a tree while it walks it, does what `lower` does to the program that the
tree stores.

* `walkEach_lowers`: walking the children of a node lowers them one by one. Where the first stops
  being a name, the node and the names around it adapt before the next is walked.
* `walkFrom_lowers`: a walk from any position leaves the lowered term there. By induction on the
  depth of the walk, which the number of nodes below the position bounds.
-/

namespace ObjectLowering.StaticAccess

variable {β : Type} {env : Environment} {g : NodeId → β} {new : β}

/-- The run succeeds and leaves at the site a term that is `s` but for its numbers. Only nodes of this
term and those around the site have changed their kinds, so what is dropped stays as it was. -/
def Leaves (g : NodeId → β) (site : Site) (s : Term β) (t : Tree) (k : Nat) (m : AccessM Unit) :
    Prop :=
  ∃ t' k' o, m ⟨t, k⟩ = .ok () ⟨t', k'⟩ ∧ t.Alters (o.labels ++ site.ids) t' ∧
    t'.At (site.settle o.isName) o ∧ o.relabel g = s

/-- Walks of this depth lower what they reach. Only the root of a tree cannot be replaced. -/
def Lowers (env : Environment) (g : NodeId → β) (new : β) (depth : Nat) : Prop :=
  ∀ {t : Tree} {k : Nat} {site : Site} {s : Term NodeId}, t.At site s → s.WellNamed →
    s.labels.length ≤ depth → (site = .root → role env none s = .other) →
    (∀ i, t.size ≤ i → g i = new) →
    Leaves g site (lower env new site.context (s.relabel g)) t k
      ((visit env).walkFrom depth s.label)

section Children

variable {depth k : Nat} {t : Tree} {site : Site} {id : NodeId} {cell : Cell}

/-- The children after the first. -/
theorem walkEach_rest (ih : Lowers env g new depth) {l r : List (Term NodeId)} (hl : l ≠ [])
    (h : t.At site (.node id cell (l ++ r))) (hn : ∀ c ∈ r, c.WellNamed)
    (hd : ∀ c ∈ r, c.labels.length ≤ depth) (hg : ∀ i, t.size ≤ i → g i = new) :
    ∃ t' k' r', (visit env).walkEach depth id (r.map Term.label) ⟨t, k⟩ = .ok () ⟨t', k'⟩ ∧
      t.Alters ((Term.node id cell (l ++ r')).labels ++ site.ids) t' ∧
      t'.At site (.node id cell (l ++ r')) ∧
      r'.map (Term.relabel g) =
        (r.map (Term.relabel g)).map (lower env new (cell.form.context site.context)) := by
  induction r generalizing l t k with
  | nil => exact ⟨t, k, [], rfl, .refl t _, h, rfl⟩
  | cons c r ihr =>
    have hc : t.At (.slot id cell l r site) c := h.into fun e => absurd e hl
    obtain ⟨t₁, k₁, c', hrun, halters₁, h₁, hrel⟩ :=
      ih (k := k) hc (hn c (by simp)) (hd c (by simp)) (absurd · Site.slot_ne_root) hg
    have hq : (Site.slot id cell l r site).isQualifier = false := by
      cases l with
      | nil => exact absurd rfl hl
      | cons => rfl
    rw [Site.settle_of_not_isQualifier hq] at h₁
    have h₁ : t₁.At site (.node id cell ((l ++ [c']) ++ r)) := by
      rw [List.append_assoc]
      exact h₁.out
    obtain ⟨t', k', r', hrest, halters', h', hrel'⟩ := ihr (k := k₁) (by simp) h₁
      (fun c hc => hn c (List.mem_cons_of_mem _ hc)) (fun c hc => hd c (List.mem_cons_of_mem _ hc))
      fun i hi => hg i (Nat.le_trans halters₁.size_le hi)
    rw [List.append_assoc] at h' halters'
    refine ⟨t', k', c' :: r', ?_, (halters₁.of_child ?_).trans halters', h', ?_⟩
    · rw [List.map_cons, Visitor.walkEach_cons hc.holds.parent? hrun, hrest]
    · simp
    · rw [List.map_cons, hrel, hrel']
      rfl

theorem walkEach_lowers (ih : Lowers env g new depth) {cs : List (Term NodeId)}
    (h : t.At site (.node id cell cs)) (hnm : Term.NamesOk cell.form cs)
    (hn : ∀ c ∈ cs, c.WellNamed) (hd : ∀ c ∈ cs, c.labels.length ≤ depth)
    (hg : ∀ i, t.size ≤ i → g i = new) :
    ∃ t' k' cs', (visit env).walkEach depth id (cs.map Term.label) ⟨t, k⟩ = .ok () ⟨t', k'⟩ ∧
      t.Alters ((Term.node id (adapt cell cs') cs').labels ++ site.ids) t' ∧
      t'.At (site.settle (adapt cell cs').form.isName) (.node id (adapt cell cs') cs') ∧
      cs'.map (Term.relabel g) =
        (cs.map (Term.relabel g)).map (lower env new (cell.form.context site.context)) := by
  have hsite : site.Named cell.form.isName := h.named
  cases cs with
  | nil =>
    refine ⟨t, k, [], rfl, .refl t _, ?_, rfl⟩
    rw [adapt, Site.settle_of_named hsite]
    exact h
  | cons c r =>
    have hc : t.At (.slot id cell [] r site) c := Tree.At.into (l := []) h fun _ => hnm
    obtain ⟨t₁, k₁, c', hrun, halters₁, h₁, hrel⟩ :=
      ih (k := k) hc (hn c (by simp)) (hd c (by simp)) (absurd · Site.slot_ne_root) hg
    rw [Site.settle_slot hsite] at h₁
    obtain ⟨t', k', r', hrest, halters', h', hrel'⟩ :=
      walkEach_rest (k := k₁) (l := [c']) ih (by simp) h₁.out
        (fun c hc => hn c (List.mem_cons_of_mem _ hc))
        (fun c hc => hd c (List.mem_cons_of_mem _ hc))
        fun i hi => hg i (Nat.le_trans halters₁.size_le hi)
    rw [Site.ids_settle] at halters'
    refine ⟨t', k', c' :: r', ?_, (halters₁.of_child List.mem_cons_self).trans halters', h', ?_⟩
    · rw [List.map_cons, Visitor.walkEach_cons hc.holds.parent? hrun, hrest]
    · have hcx : (if c'.isName then cell else cell.expose).form.context site.context =
          cell.form.context site.context := context_adapt site.context cell (c' :: r')
      rw [List.map_cons, hrel, hrel', Site.context_settle, hcx]
      rfl

end Children

/-! ## Roles that walk on -/

section Roles

variable {depth k : Nat} {t : Tree} {site : Site} {id : NodeId} {cell : Cell} {f : StaticField}

theorem leaves_store (ih : Lowers env g new depth) {op : AssignOp} {a b : NodeId}
    {x y : Term NodeId} (h : t.At site (.node id cell [x, y])) (hn : y.WellNamed)
    (hd : y.labels.length ≤ depth) (hr : site ≠ .root) (hf : cell.form = .assignment op a b)
    (ho : (op.isSimple && !f.field.type.isPrimitive) = true)
    (ha : accessed? env site.context x.strip = some f) (hg : ∀ i, t.size ≤ i → g i = new) :
    Leaves g site (storeTerm new f cell (lower env new site.context (y.relabel g))) t k
      ((visit env).walkFrom (depth + 1) id) := by
  obtain ⟨t₁, halters₁, h₁, hv⟩ :=
    visit_store (k := k) h hr hf ho ha
  obtain ⟨t', k', y', hrun, halters', h', hrel⟩ :=
    ih (k := k + 1) h₁ hn hd (absurd · Site.slot_ne_root)
      fun i hi => hg i (Nat.le_trans halters₁.size_le hi)
  rw [Site.settle_of_not_isQualifier rfl] at h'
  have h' : t'.At site (.node t.size ⟨.functionCall f.setter [0], cell.span, false⟩ [y']) := h'.out
  refine ⟨t', k', .node t.size ⟨.functionCall f.setter [0], cell.span, false⟩ [y'],
    Visitor.walkFrom_of_skip ((hv _).trans (WalkM.bind_of_ok hrun)),
    (halters₁.mono (List.subset_append_right _ _)).trans (halters'.of_child List.mem_cons_self),
    ?_, ?_⟩
  · rw [Site.settle_of_named h'.named]
    exact h'
  · rw [Term.relabel_node, List.map_singleton, hrel, hg t.size (Nat.le_refl _)]
    rfl

/-- The reference that takes the place of the target is walked too, but no rule applies there. -/
theorem leaves_update (ih : Lowers env g new depth) {op : AssignOp} {a b : NodeId}
    {x y : Term NodeId} (h : t.At site (.node id cell [x, y])) (hn : y.WellNamed)
    (hd : 2 ≤ depth ∧ y.labels.length ≤ depth) (hf : cell.form = .assignment op a b)
    (ho : (op.isSimple && !f.field.type.isPrimitive) = false)
    (ha : accessed? env site.context x.strip = some f) (hg : ∀ i, t.size ≤ i → g i = new) :
    Leaves g site (.node (g id) cell [referenceTerm new f x.strip.cell,
      lower env new site.context (y.relabel g)]) t k ((visit env).walkFrom (depth + 1) id) := by
  obtain ⟨t₁, r, hv, halters₁, h₁, hrel⟩ :=
    visit_update (k := k) hg h hf ho ha
  have hassign : cell.form.isAccess = false := by rw [hf]; rfl
  have hr : r.WellNamed := wellNamed_of_relabel hrel
  have hrl : r.labels.length = 2 := length_labels_of_relabel hrel
  obtain ⟨t', k', cs', hrun, halters', h', hrels⟩ :=
    walkEach_lowers (k := k + 1) ih h₁ (Term.namesOk_of_isAccess_eq_false hassign)
      (List.forall_mem_cons.2 ⟨hr, List.forall_mem_singleton.2 hn⟩)
      (List.forall_mem_cons.2 ⟨hrl ▸ hd.1, List.forall_mem_singleton.2 hd.2⟩)
      fun i hi => hg i (Nat.le_trans halters₁.size_le hi)
  have hcell : adapt cell cs' = cell :=
    adapt_of_not_isQualifiedName (NodeKind.isQualifiedName_of_not_isAccess hassign) cs'
  rw [hcell] at h' halters'
  refine ⟨t', k', .node id cell cs', ?_, halters₁.of_top.trans halters', h', ?_⟩
  · rw [Visitor.walkFrom_of_children (hv _), h₁.holds.has.children, hrun]
  · rw [Term.relabel_node, hrels, List.map_cons, List.map_cons, List.map_singleton,
      List.map_singleton, hrel, hf, lower_of_settled (settled_reference ..) (wellNamed_reference ..)]
    rfl

theorem leaves_other (ih : Lowers env g new depth) {cs : List (Term NodeId)}
    (h : t.At site (.node id cell cs)) (hn : (Term.node id cell cs).WellNamed)
    (hd : ∀ c ∈ cs, c.labels.length ≤ depth)
    (hr : RoleOf env site.context (.node id cell cs) .other) (hg : ∀ i, t.size ≤ i → g i = new) :
    let cs' := (cs.map (Term.relabel g)).map (lower env new (cell.form.context site.context))
    Leaves g site (.node (g id) (adapt cell cs') cs') t k
      ((visit env).walkFrom (depth + 1) id) := by
  have hv := visit_other (k := k) ((visit env).walkFrom depth) h hr
  obtain ⟨t', k', cs', hrun, halters, h', hrel⟩ :=
    walkEach_lowers (k := k) ih h hn.names hn.child hd hg
  refine ⟨t', k', .node id (adapt cell cs') cs', ?_, halters, h', ?_⟩
  · rw [Visitor.walkFrom_of_children hv, h.holds.has.children, hrun]
  · rw [Term.relabel_node, ← hrel, adapt_relabel]

end Roles

theorem walkFrom_lowers (env : Environment) (depth : Nat) : Lowers env g new depth := by
  induction depth with
  | zero =>
    intro t k site s _ _ hd
    have := s.length_labels_pos
    omega
  | succ depth ih =>
    intro t k site s h hn hd hroot hg
    cases s with
    | node id cell cs =>
      have hrole := role_relabel env site.context g (.node id cell cs)
      have hof := roleOf_role env site.context (.node id cell cs)
      have hne : role env site.context (.node id cell cs) ≠ .other → site ≠ .root := by
        rintro ho rfl
        exact ho (hroot rfl)
      have hlen {c : Term NodeId} (hc : c ∈ cs) : c.labels.length ≤ depth := by
        have := Term.length_labels_lt id cell hc
        omega
      rw [Term.relabel_node] at hrole ⊢
      generalize role env site.context (.node id cell cs) = r at hof hrole hne
      cases hof with
      | caseLabel hf =>
        rw [lower_caseLabel hrole]
        refine ⟨t, k, .node id cell cs, ?_, .refl t _, ?_, Term.relabel_node ..⟩
        · exact Visitor.walkFrom_of_skip (visit_caseLabel h hf)
        · rw [Site.settle_of_named h.named]
          exact h
      | read ha =>
        obtain ⟨t', r, hv, halters, h', hrel⟩ :=
          visit_read (k := k) hg h (hne (by simp)) ha
        have hrn : r.isName = false := by
          rw [← Term.isName_relabel g, hrel]
          rfl
        rw [lower_read hrole]
        refine ⟨t', k + 1, r, Visitor.walkFrom_of_skip (hv _),
          halters.mono (List.subset_append_right _ _), ?_, hrel⟩
        rw [hrn]
        exact h'
      | @step _ _ x f hf ha =>
        obtain ⟨t', r, hv, halters, h', hrel⟩ := visit_step (k := k) hg h hf ha
        rw [List.map_singleton, lower_step hrole, Term.strip_relabel, Term.cell_relabel]
        refine ⟨t', k + 1, .node id cell [r], Visitor.walkFrom_of_skip (hv _), halters.of_top, ?_,
          ?_⟩
        · rw [Site.settle_of_named h'.named]
          exact h'
        · rw [Term.relabel_node, List.map_singleton, hrel]
      | @store _ _ _ _ _ x y f hf ho ha =>
        rw [List.map_cons, List.map_singleton, lower_store hrole]
        exact leaves_store ih h (hn.child y (by simp)) (hlen (by simp)) (hne (by simp))
          hf ho ha hg
      | @update _ _ _ _ _ x y f hf ho ha =>
        rw [List.map_cons, List.map_singleton, lower_update hrole, Term.strip_relabel,
          Term.cell_relabel]
        have hd' : 2 ≤ depth := by
          have := x.length_labels_pos
          have := y.length_labels_pos
          simp only [Term.labels_pair, List.length_cons, List.length_append] at hd
          omega
        exact leaves_update ih h (hn.child y (by simp)) ⟨hd', hlen (by simp)⟩ hf ho ha hg
      | other hf hassign hstep ha =>
        rw [lower_other hrole]
        exact leaves_other ih h hn (fun c hc => hlen hc) (.other hf hassign hstep ha) hg

end ObjectLowering.StaticAccess
