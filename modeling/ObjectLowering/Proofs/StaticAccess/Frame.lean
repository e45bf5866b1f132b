import ObjectLowering.Proofs.Region
import ObjectLowering.Proofs.StaticAccess.Refinement

/-!
# ObjectLowering.Proofs.StaticAccess.Frame

What the pass leaves alone, also where it fails. Every visit starts at a node outside the case labels
and edits the nodes there and new ones, whatever names the program is built from.

* `Confined`: a step edits the region only, whether it succeeds or fails; `Confined.bind`: and so do
  steps in sequence.
* `confined_visit`, `confined_walkFrom`: visits and walks that start inside.
* `pass_frame`: the pass leaves all below case labels as it is, and of other nodes it changes the
  links and the kind, the kind by new nodes in its slots and by exposed members.
-/

namespace ObjectLowering

namespace Region

variable {r : Region} {σ α β : Type}

/-- The step edits the tree in the region, whether it succeeds or fails. If it succeeds, its result
and the new tree have the property. -/
def Confined (r : Region) (m : WalkM σ α) (s : WalkState σ) (Q : α → Tree → Prop) : Prop :=
  match m s with
  | .ok a s' => r.Edits s.tree s'.tree ∧ Q a s'.tree
  | .error _ s' => r.Edits s.tree s'.tree

namespace Confined

theorem edits {m : WalkM σ α} {s : WalkState σ} {Q : α → Tree → Prop} (h : r.Confined m s Q) :
    r.Edits s.tree (m.outcome s).1.tree := by
  rw [Confined] at h
  rw [WalkM.outcome]
  cases hm : m s with
  | ok a s' =>
    rw [hm] at h
    exact h.1
  | error e s' =>
    rw [hm] at h
    exact h

theorem mono {m : WalkM σ α} {s : WalkState σ} {P Q : α → Tree → Prop} (h : r.Confined m s P)
    (hpq : ∀ a t, r.Edits s.tree t → P a t → Q a t) : r.Confined m s Q := by
  rw [Confined] at h ⊢
  cases hm : m s with
  | ok a s' =>
    rw [hm] at h
    exact ⟨h.1, hpq a _ h.1 h.2⟩
  | error e s' =>
    rw [hm] at h
    exact h

theorem pure {s : WalkState σ} {Q : α → Tree → Prop} (h : r.Encloses s.tree) {a : α}
    (ha : Q a s.tree) : r.Confined (pure a) s Q :=
  ⟨.refl h, ha⟩

theorem throw {s : WalkState σ} {Q : α → Tree → Prop} (h : r.Encloses s.tree) (e : TreeError) :
    r.Confined (throw e) s Q :=
  Edits.refl h

/-- The second step starts in a tree that the first has edited. -/
theorem bind {m : WalkM σ α} {f : α → WalkM σ β} {s : WalkState σ} {P : α → Tree → Prop}
    {Q : β → Tree → Prop} (h : r.Confined m s P)
    (hf : ∀ a s', r.Edits s.tree s'.tree → P a s'.tree → r.Confined (f a) s' Q) :
    r.Confined (m >>= f) s Q := by
  rw [Confined] at h
  show match EStateM.bind m f s with
    | .ok b s' => r.Edits s.tree s'.tree ∧ Q b s'.tree
    | .error _ s' => r.Edits s.tree s'.tree
  rw [EStateM.bind]
  cases hm : m s with
  | error e s' =>
    rw [hm] at h
    exact h
  | ok a s' =>
    rw [hm] at h
    have hnext := hf a s' h.1 h.2
    rw [Confined] at hnext
    show match f a s' with
      | .ok b s'' => r.Edits s.tree s''.tree ∧ Q b s''.tree
      | .error _ s'' => r.Edits s.tree s''.tree
    cases hn : f a s' with
    | ok b s'' =>
      rw [hn] at hnext
      exact ⟨h.1.trans hnext.1, hnext.2⟩
    | error e s'' =>
      rw [hn] at hnext
      exact h.1.trans hnext

theorem tree {s : WalkState σ} (h : r.Encloses s.tree) :
    r.Confined WalkM.tree s fun t t' => t = s.tree ∧ t' = s.tree :=
  ⟨.refl h, rfl, rfl⟩

theorem remember {s : WalkState σ} (h : r.Encloses s.tree) (change : σ → σ) :
    r.Confined (WalkM.remember change) s fun _ _ => True :=
  ⟨.refl h, trivial⟩

theorem edit {s : WalkState σ} {change : Tree → Except TreeError Tree} (h : r.Encloses s.tree)
    (hc : ∀ t', change s.tree = .ok t' → r.Edits s.tree t') :
    r.Confined (WalkM.edit change) s fun _ _ => True := by
  cases ht : change s.tree with
  | ok t' =>
    rw [Confined, WalkM.edit_of_ok ht]
    exact ⟨hc t' ht, trivial⟩
  | error e =>
    rw [Confined, WalkM.edit, WalkM.bind_of_ok (WalkM.tree_run s), ht]
    exact .refl h

theorem editPartly {s : WalkState σ} {change : Tree → Tree × Except TreeError Unit}
    (hc : r.Edits s.tree (change s.tree).1) :
    r.Confined (WalkM.editPartly change) s fun _ _ => True := by
  cases ht : change s.tree with
  | mk t' outcome =>
    rw [ht] at hc
    rw [Confined, WalkM.editPartly, WalkM.bind_of_ok (WalkM.tree_run s), ht]
    cases outcome with
    | ok _ => exact ⟨hc, trivial⟩
    | error e => exact hc

/-- The number of a new node is new to the region. -/
theorem alloc {s : WalkState σ} {kind : NodeKind} (span : Span) (h : r.Encloses s.tree)
    (hc : ∀ c ∈ kind.children, r.inside c) :
    r.Confined (WalkM.alloc kind span) s fun id _ => r.size ≤ id :=
  ⟨edits_alloc span h hc, h.size_le⟩

theorem add {s : WalkState σ} {kind : NodeKind} (h : r.Encloses s.tree)
    (hc : ∀ c ∈ kind.children, r.inside c) :
    r.Confined (WalkM.add kind) s fun id _ => r.size ≤ id :=
  alloc _ h hc

/-- A loop, each round of which starts in a tree that the rounds before it have edited. -/
theorem forM {l : List α} {f : α → WalkM σ PUnit} {s : WalkState σ} (h : r.Encloses s.tree)
    (hf : ∀ a ∈ l, ∀ s, r.Encloses s.tree → r.Confined (f a) s fun _ _ => True) :
    r.Confined (l.forM f) s fun _ _ => True := by
  induction l generalizing s with
  | nil => exact pure h trivial
  | cons a l ih =>
    refine bind (hf a List.mem_cons_self s h) fun _ s' he _ => ?_
    exact ih he.encloses fun b hb => hf b (List.mem_cons_of_mem _ hb)

end Confined

end Region

namespace StaticAccess

open Region (Confined)

variable {r : Region} {env : Environment} {s : WalkState Nat}

/-! ## The steps of a visit -/

theorem confined_substitute {old new : NodeId} (h : r.Encloses s.tree) (ho : r.inside old)
    (hn : r.size ≤ new) : r.Confined (substitute old new) s fun _ _ => True :=
  .bind (.edit h fun _ ht => Region.edits_replace h ho hn ht) fun _ _ he _ =>
    .remember he.encloses _

/-- Nil checks are handed on to new nodes only. -/
theorem confined_inheritNilCheck {old new : NodeId} (h : r.Encloses s.tree) (hn : r.size ≤ new) :
    r.Confined (inheritNilCheck old new) s fun _ _ => True := by
  refine .bind (.tree h) fun t s' he _ => ?_
  split
  · refine .edit he.encloses fun t' ht => ?_
    rw [Tree.setNilCheck, Tree.modify] at ht
    cases hnode : s'.tree.node new with
    | error e =>
      rw [hnode] at ht
      cases ht
    | ok node =>
      rw [hnode] at ht
      cases ht
      exact Region.edits_update he.encloses (r.new_inside _ hn) fun node _ =>
        ⟨rfl, fun hlt => absurd hlt (Nat.not_lt.2 hn), .refl, fun _ hc => .inl hc, fun _ hp => .inl hp⟩
  · exact .pure he.encloses trivial

theorem confined_newRead (field : StaticField) {expression : NodeId} (h : r.Encloses s.tree) :
    r.Confined (newRead field expression) s fun id _ => r.size ≤ id := by
  refine .bind (.tree h) fun t s₁ he₁ _ => ?_
  refine .bind (.alloc _ he₁.encloses fun c hc => nomatch hc) fun call s₂ he₂ hcall => ?_
  exact .bind (confined_inheritNilCheck he₂.encloses hcall) fun _ s₃ he₃ _ =>
    .pure he₃.encloses hcall

theorem confined_newReference (field : StaticField) {expression : NodeId}
    (h : r.Encloses s.tree) :
    r.Confined (newReference field expression) s fun id _ => r.size ≤ id := by
  refine .bind (.tree h) fun t s₁ he₁ _ => ?_
  refine .bind (.alloc _ he₁.encloses fun c hc => nomatch hc) fun call s₂ he₂ hcall => ?_
  refine .bind (.add he₂.encloses ?_) fun reference s₃ he₃ hreference => ?_
  · intro c hc
    rw [List.mem_singleton.1 hc]
    exact r.new_inside _ hcall
  · exact .bind (confined_inheritNilCheck he₃.encloses hreference) fun _ s₄ he₄ _ =>
      .pure he₄.encloses hreference

/-! ## Visits and walks -/

/-- The walk keeps to the region from every node inside. -/
def ConfinedWalk (r : Region) (walk : NodeId → AccessM Unit) : Prop :=
  ∀ id s, r.inside id → r.Encloses s.tree → r.Confined (walk id) s fun _ _ => True

variable {walk : NodeId → AccessM Unit} {id : NodeId}

theorem confined_storeBySetter {value : NodeId} (field : StaticField) (hw : ConfinedWalk r walk)
    (h : r.Encloses s.tree) (hid : r.inside id) (hv : r.inside value) :
    r.Confined (storeBySetter walk id value field) s fun _ _ => True := by
  refine .bind (.tree h) fun t s₁ he₁ _ => ?_
  refine .bind (.alloc _ he₁.encloses ?_) fun call s₂ he₂ hcall => ?_
  · intro c hc
    rw [List.mem_singleton.1 hc]
    exact hv
  refine .bind (confined_substitute he₂.encloses hid hcall) fun _ s₃ he₃ _ => ?_
  exact .bind (hw value s₃ hv he₃.encloses) fun _ s₄ he₄ _ => .pure he₄.encloses trivial

theorem confined_visitAssignment {op : AssignOp} {left value : NodeId} (hw : ConfinedWalk r walk)
    (h : r.Encloses s.tree) (hid : r.inside id) (hl : r.inside left) (hv : r.inside value) :
    r.Confined (visitAssignment env walk id op left value) s fun _ _ => True := by
  refine .bind (.tree h) fun t s₁ he₁ _ => ?_
  dsimp only
  split
  · exact .pure he₁.encloses trivial
  · rename_i field _
    split
    · exact confined_storeBySetter field hw he₁.encloses hid hv
    · refine .bind (confined_newReference field he₁.encloses) fun new s₂ he₂ hnew => ?_
      exact .bind (confined_substitute he₂.encloses hl hnew) fun _ s₃ he₃ _ =>
        .pure he₃.encloses trivial

/-- The name around a qualifier is converted first. It stands above, so inside. -/
theorem confined_visitName (h : r.Encloses s.tree) (hid : r.inside id) :
    r.Confined (visitName env id) s fun _ _ => True := by
  refine .bind (.tree h) fun t s₁ he₁ ht => ?_
  obtain ⟨rfl, hs₁⟩ := ht
  split
  · exact .pure he₁.encloses trivial
  · rename_i field _
    have hread {s : WalkState Nat} (h : r.Encloses s.tree) :
        r.Confined (do substitute id (← newRead field id); return Descend.skip) s fun _ _ => True := by
      refine .bind (confined_newRead field h) fun new s₂ he₂ hnew => ?_
      exact .bind (confined_substitute he₂.encloses hid hnew) fun _ s₃ he₃ _ =>
        .pure he₃.encloses trivial
    dsimp only
    split
    · rename_i qualified hq
      have hp : s.tree.parent? id = some qualified := (Option.filter_eq_some_iff.1 hq).1
      have hin : r.inside qualified := h.up hid hp
      exact .bind (.editPartly (Region.edits_convertFrom he₁.encloses hin _)) fun _ s₂ he₂ _ =>
        hread he₂.encloses
    · exact hread he₁.encloses

theorem confined_visitStep {operand : NodeId} (h : r.Encloses s.tree) (ho : r.inside operand) :
    r.Confined (visitStep env id operand) s fun _ _ => True := by
  refine .bind (.tree h) fun t s₁ he₁ _ => ?_
  dsimp only
  split
  · exact .pure he₁.encloses trivial
  · rename_i field _
    refine .bind (confined_newReference field he₁.encloses) fun new s₂ he₂ hnew => ?_
    exact .bind (confined_substitute he₂.encloses ho hnew) fun _ s₃ he₃ _ =>
      .pure he₃.encloses trivial

/-- A visit sends the walk below the node only if the node is no case label. -/
theorem confined_visit (hw : ConfinedWalk r walk) (h : r.Encloses s.tree) (hid : r.inside id) :
    r.Confined (visit env walk id) s fun d t =>
      d = .children → ∀ k, t.kind? id = some k → k.isCaseLabel = false := by
  refine .bind (.tree h) fun t s₁ he₁ ht => ?_
  obtain ⟨rfl, hs₁⟩ := ht
  split
  · exact .throw he₁.encloses _
  · rename_i node hnode
    have hn : s₁.tree.node? id = some node := hs₁ ▸ Tree.node?_of_node hnode
    have hk : s₁.tree.kind? id = some node.kind := by rw [Tree.kind?, hn]; rfl
    have hsub {c : NodeId} (hl : node.kind.isCaseLabel = false) (hc : c ∈ node.kind.children) :
        r.inside c := he₁.encloses.down hid hk hl hc
    -- what a visit does to a node that is no case label never makes it one
    have hopen {m : AccessM Descend} (hl : node.kind.isCaseLabel = false)
        (hm : r.Confined m s₁ fun _ _ => True) : r.Confined m s₁ fun d t =>
          d = .children → ∀ k, t.kind? id = some k → k.isCaseLabel = false :=
      hm.mono fun _ _ he _ _ _ hk' => (he.isCaseLabel_eq hk hk').trans hl
    cases hkind : node.kind with
    | assignment op left value =>
      refine hopen (by rw [hkind]; rfl) (confined_visitAssignment hw he₁.encloses hid ?_ ?_)
      · exact hsub (by rw [hkind]; rfl) (by simp [hkind, NodeKind.children])
      · exact hsub (by rw [hkind]; rfl) (by simp [hkind, NodeKind.children])
    | simpleName | qualifiedName | fieldAccess =>
      exact hopen (by rw [hkind]; rfl) (confined_visitName he₁.encloses hid)
    | step op operand =>
      refine hopen (by rw [hkind]; rfl) (confined_visitStep he₁.encloses ?_)
      exact hsub (by rw [hkind]; rfl) (by simp [hkind, NodeKind.children])
    | unary op operand =>
      refine hopen (by rw [hkind]; rfl) ?_
      show r.Confined (if op.isStep then visitStep env id operand else return .children) s₁ _
      split
      · refine confined_visitStep he₁.encloses ?_
        exact hsub (by rw [hkind]; rfl) (by simp [hkind, NodeKind.children])
      · exact .pure he₁.encloses trivial
    | switchCase label => exact .pure he₁.encloses fun hd => by cases hd
    | _ => exact hopen (by rw [hkind]; rfl) (.pure he₁.encloses trivial)

/-- The walk enters only children of nodes inside that are no case labels, so it stays inside. -/
theorem confined_walkFrom (depth : Nat) : ConfinedWalk r ((visit env).walkFrom depth) := by
  induction depth with
  | zero => exact fun id s _ h => .pure h trivial
  | succ depth ih =>
    intro id s hid h
    rw [Visitor.walkFrom]
    refine .bind (confined_visit ih h hid) fun d s₁ he₁ hd => ?_
    cases d with
    | skip => exact .pure he₁.encloses trivial
    | children =>
      refine .bind (.tree he₁.encloses) fun t s₂ he₂ ht => ?_
      obtain ⟨rfl, -⟩ := ht
      refine .forM he₂.encloses fun child hchild s₃ h₃ => ?_
      have hin : r.inside child := by
        cases hk : s₁.tree.kind? id with
        | none => simp [Tree.children, hk] at hchild
        | some k =>
          exact he₁.encloses.down hid hk (hd rfl k hk) (by simpa [Tree.children, hk] using hchild)
      refine .bind (.tree h₃) fun _ s₄ he₄ _ => ?_
      split
      · exact ih child s₄ hin he₄.encloses
      · exact .pure he₄.encloses trivial

theorem confined_walk {t : Tree} {root : NodeId} (ht : t.Consistent) (hr : t.root = some root) :
    t.openRegion.Confined ((visit env).walk root) ⟨t, 0⟩ fun _ _ => True := by
  rw [Visitor.walk]
  refine .bind (.tree ht.encloses) fun u s he _ => ?_
  generalize Visitor.levels u = depth
  exact confined_walkFrom depth root s (ht.root_inside hr) he.encloses

theorem pass_run_fst (env : Environment) (t : Tree) :
    (Pass.staticAccess.run env t).1 = (run env t).1 := by
  simp only [Pass.staticAccess]

theorem run_fst_of_walk {walk : NodeId → AccessM Unit} (hw : (visit env).walk = walk) {t : Tree}
    {root : NodeId} (hr : t.root = some root) :
    (run env t).1 = ((walk root).outcome ⟨t, 0⟩).1.tree := by
  rw [run, hw, hr]

/-- The pass edits the part of the tree that is outside case labels. -/
theorem edits_run (env : Environment) {t : Tree} (ht : t.Consistent) :
    t.openRegion.Edits t (Pass.staticAccess.run env t).1 := by
  rw [pass_run_fst]
  cases hroot : t.root with
  | none =>
    have hrun : run env t = (t, .ok 0) := by rw [run, hroot]
    rw [hrun]
    exact .refl ht.encloses
  | some root =>
    rw [run_fst_of_walk rfl hroot]
    exact (confined_walk ht hroot).edits

/-- The pass leaves every node below a case label as it is, whether it succeeds or fails half-way. Of
every other node it keeps the position and the nil check, and its kind changes only by new nodes in
its slots and by a qualified name becoming a member access. -/
theorem pass_frame {t t' : Tree} (ht : t.Consistent) (hrun : (Pass.staticAccess.run env t).1 = t') :
    (∀ id, t.UnderCaseLabel id → t'.node? id = t.node? id) ∧
      ∀ id node, t.node? id = some node →
        ∃ node', t'.node? id = some node' ∧ node'.span = node.span ∧
          node'.nilCheck = node.nilCheck ∧ NodeKind.Changes t.size node.kind node'.kind := by
  have he : t.openRegion.Edits t t' := hrun ▸ edits_run env ht
  constructor
  · intro id hid
    exact he.outside id (ht.not_inside hid)
  · intro id node hn
    obtain ⟨node', hn', hspan, hnil, hkind⟩ := he.kept hn
    exact ⟨node', hn', hspan, hnil (Array.getElem?_eq_some_iff.1 hn).1, hkind⟩

/-- A case label over `first`, beside the name `first.next` in a chain that no name goes on. -/
def brokenSample : Tree where
  nodes := #[
    { kind := .simpleName "first" (some (.ofVariable 0)), parent := some 1 },
    { kind := .switchCase (some 0), parent := some 7 },
    { kind := .simpleName "first" (some (.ofVariable 0)), parent := some 4 },
    { kind := .simpleName "next" (some (.ofVariable 1)), parent := some 4 },
    { kind := .qualifiedName 2 3, parent := some 6 },
    { kind := .literal .null, parent := some 6 },
    { kind := .qualifiedName 4 5, parent := some 7 },
    { kind := .block [1, 6] }]
  root := some 7

def brokenLowered : Tree :=
  (Pass.staticAccess.run sampleEnv brokenSample).1

/-- The run converts the inner name and then fails at the outer one. -/
theorem pass_frame_half_way :
    brokenSample.Consistent ∧ (Pass.staticAccess.run sampleEnv brokenSample).1 = brokenLowered ∧
      (Pass.staticAccess.run sampleEnv brokenSample).2 =
        .error (.structural "static-access" (.unexpectedNode "SimpleName" "Literal" .synthetic)) ∧
      (brokenSample.UnderCaseLabel 0 ∧ brokenLowered.node? 0 = brokenSample.node? 0) ∧
      brokenLowered.kind? 4 = some (.fieldAccess 2 3) ∧
      NodeKind.Changes brokenSample.size (.qualifiedName 2 3) (.fieldAccess 2 3) := by
  have ht : brokenSample.Consistent := Tree.consistent_of_nodes (by decide) (by decide)
  have hlabel : brokenSample.UnderCaseLabel 0 :=
    ⟨1, 0, ⟨7, rfl, .child .top (by decide)⟩, by decide, by decide, .top⟩
  have hkind : brokenLowered.kind? 4 = some (.fieldAccess 2 3) := by decide +kernel
  obtain ⟨hframe, hkept⟩ := pass_frame ht rfl
  obtain ⟨node', hn', -, -, hchanges⟩ := hkept 4 _ rfl
  have hnode : node'.kind = .fieldAccess 2 3 := by
    rw [Tree.kind?, brokenLowered, hn'] at hkind
    exact Option.some.inj hkind
  exact ⟨ht, rfl, by decide +kernel, ⟨hlabel, hframe 0 hlabel⟩, hkind, hnode ▸ hchanges⟩

end StaticAccess

end ObjectLowering
