import ObjectLowering.Proofs.Walk

/-!
# ObjectLowering.Proofs.Visits

The visits that a walk makes, those of the walks that visitors start included. A log that the walk
keeps itself would not show the latter.

* `Answers`, `Defers`: what a visit does whatever walks do. Either it starts none, or it ends with the
  walk of one other node.
* `Visits`: the nodes visited, in the order of the visits. There is no rule for a node at which no
  levels are left.
* `Visits.run`: the walk ends where its visits do.
* `Visits.unique`: the visits are determined, and the same for any number of levels.
-/

namespace ObjectLowering.Visitor

variable {σ : Type} {visit : Visitor σ} {id next next' : NodeId} {d d' : Descend}
  {s s' s₁ s₂ : WalkState σ}

/-! ## Visits that start one walk at most -/

/-- The visit answers and leaves a state without any walk. -/
def Answers (visit : Visitor σ) (id : NodeId) (s : WalkState σ) (d : Descend) (s' : WalkState σ) :
    Prop :=
  ∀ walk, visit walk id s = .ok d s'

/-- The visit hands over to a walk of another node, and the walk at hand skips what is below. -/
def Defers (visit : Visitor σ) (id : NodeId) (s : WalkState σ) (next : NodeId) (s' : WalkState σ) :
    Prop :=
  ∀ walk, visit walk id s = (do walk next; return .skip : WalkM σ Descend) s'

/-- A walk that fails at once, and says where. -/
def halt (id : NodeId) : WalkM σ Unit :=
  throw (.invalidNode id)

theorem Defers.halted (h : visit.Defers id s next s') :
    visit halt id s = .error (.invalidNode next) s' :=
  h halt

theorem Answers.unique (h : visit.Answers id s d s₁) (h' : visit.Answers id s d' s₂) :
    d = d' ∧ s₁ = s₂ := by
  have heq := (h halt).symm.trans (h' halt)
  cases heq
  exact ⟨rfl, rfl⟩

theorem Defers.unique (h : visit.Defers id s next s₁) (h' : visit.Defers id s next' s₂) :
    next = next' ∧ s₁ = s₂ := by
  have heq := h.halted.symm.trans h'.halted
  cases heq
  exact ⟨rfl, rfl⟩

theorem Answers.not_defers (h : visit.Answers id s d s₁) : ¬ visit.Defers id s next s₂ := by
  intro h'
  cases (h halt).symm.trans h'.halted

/-! ## The visits of a walk -/

/-- What is to be walked: a node, or those of a list that record a node as their parent. -/
inductive Route where
  | node (id : NodeId)
  | each (parent : NodeId) (children : List NodeId)

/-- The walk of a route, with a number of levels. -/
def follow (visit : Visitor σ) (depth : Nat) : Route → WalkM σ Unit
  | .node id => visit.walkFrom depth id
  | .each parent children => visit.walkEach depth parent children

/-- A walk with this number of levels visits these nodes in turn, and leads from state to state. -/
inductive Visits (visit : Visitor σ) :
    Nat → Route → WalkState σ → List NodeId → WalkState σ → Prop where
  | skip {depth : Nat} {id : NodeId} {s s' : WalkState σ} :
    visit.Answers id s .skip s' → visit.Visits (depth + 1) (.node id) s [id] s'
  | defer {depth : Nat} {id next : NodeId} {s s₁ s' : WalkState σ} {l : List NodeId} :
    visit.Defers id s next s₁ → visit.Visits depth (.node next) s₁ l s' →
      visit.Visits (depth + 1) (.node id) s (id :: l) s'
  | children {depth : Nat} {id : NodeId} {s s₁ s' : WalkState σ} {l : List NodeId} :
    visit.Answers id s .children s₁ →
      visit.Visits depth (.each id (s₁.tree.children id)) s₁ l s' →
      visit.Visits (depth + 1) (.node id) s (id :: l) s'
  | nil {depth : Nat} {id : NodeId} {s : WalkState σ} : visit.Visits depth (.each id []) s [] s
  | enter {depth : Nat} {id c : NodeId} {cs : List NodeId} {s s₁ s' : WalkState σ}
    {l l' : List NodeId} :
    s.tree.parent? c = some id → visit.Visits depth (.node c) s l s₁ →
      visit.Visits depth (.each id cs) s₁ l' s' →
      visit.Visits depth (.each id (c :: cs)) s (l ++ l') s'
  | pass {depth : Nat} {id c : NodeId} {cs : List NodeId} {s s' : WalkState σ} {l : List NodeId} :
    s.tree.parent? c ≠ some id → visit.Visits depth (.each id cs) s l s' →
      visit.Visits depth (.each id (c :: cs)) s l s'

namespace Visits

variable {depth depth' : Nat} {route : Route} {l l' : List NodeId}

theorem run (h : visit.Visits depth route s l s') : visit.follow depth route s = .ok () s' := by
  induction h with
  | skip ha => exact walkFrom_of_skip (ha _)
  | defer hd _ ih => exact walkFrom_of_skip ((hd _).trans (WalkM.bind_of_ok ih))
  | children ha _ ih => exact (walkFrom_of_children (ha _)).trans ih
  | nil => rfl
  | enter hp _ _ ihc ih => exact (walkEach_cons hp ihc).trans ih
  | pass hp _ ih => exact (walkEach_cons_of_ne hp).trans ih

/-- By induction on the visits of the one walk; the rules of the other must be the same. -/
theorem unique (h : visit.Visits depth route s l s₁) (h' : visit.Visits depth' route s l' s₂) :
    l = l' ∧ s₁ = s₂ := by
  induction h generalizing depth' l' s₂ with
  | skip ha =>
    cases h' with
    | skip ha' => exact ⟨rfl, (ha.unique ha').2⟩
    | defer hd' => exact absurd hd' ha.not_defers
    | children ha' => cases (ha.unique ha').1
  | defer hd _ ih =>
    cases h' with
    | skip ha' => exact absurd hd ha'.not_defers
    | defer hd' hv' =>
      obtain ⟨rfl, rfl⟩ := hd.unique hd'
      obtain ⟨rfl, rfl⟩ := ih hv'
      exact ⟨rfl, rfl⟩
    | children ha' => exact absurd hd ha'.not_defers
  | children ha _ ih =>
    cases h' with
    | skip ha' => cases (ha.unique ha').1
    | defer hd' => exact absurd hd' ha.not_defers
    | children ha' hv' =>
      obtain ⟨-, rfl⟩ := ha.unique ha'
      obtain ⟨rfl, rfl⟩ := ih hv'
      exact ⟨rfl, rfl⟩
  | nil =>
    cases h'
    exact ⟨rfl, rfl⟩
  | enter hp _ _ ihc ih =>
    cases h' with
    | enter _ hc' hv' =>
      obtain ⟨rfl, rfl⟩ := ihc hc'
      obtain ⟨rfl, rfl⟩ := ih hv'
      exact ⟨rfl, rfl⟩
    | pass hp' => exact absurd hp hp'
  | pass hp _ ih =>
    cases h' with
    | enter hp' => exact absurd hp' hp
    | pass _ hv' => exact ih hv'

end Visits

end ObjectLowering.Visitor
