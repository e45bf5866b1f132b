import ObjectLowering.Lowering.Walk
import ObjectLowering.Proofs.Holds

/-!
# ObjectLowering.Proofs.Walk

Runs of walks step by step. A step that succeeds hands its value and its state on to the next.

* `bind_of_ok`, `bind_eq_ok`: the rest of a run after a step that succeeds.
* `walkFrom_of_skip`, `walkFrom_of_children`: a walk after the visit of its first node.
-/

namespace ObjectLowering

namespace WalkM

variable {σ α β : Type}

theorem bind_of_ok {m : WalkM σ α} {f : α → WalkM σ β} {s s' : WalkState σ} {a : α}
    (h : m s = .ok a s') : (m >>= f) s = f a s' := by
  show EStateM.bind m f s = f a s'
  rw [EStateM.bind, h]

theorem bind_eq_ok {m : WalkM σ α} {f : α → WalkM σ β} {s s' : WalkState σ} {b : β}
    (h : (m >>= f) s = .ok b s') : ∃ a s₁, m s = .ok a s₁ ∧ f a s₁ = .ok b s' := by
  replace h : EStateM.bind m f s = .ok b s' := h
  rw [EStateM.bind] at h
  cases hm : m s with
  | ok a s₁ =>
    rw [hm] at h
    exact ⟨a, s₁, rfl, h⟩
  | error e s₁ =>
    rw [hm] at h
    cases h

theorem tree_run (s : WalkState σ) : (tree : WalkM σ Tree) s = .ok s.tree s := rfl

theorem remember_run (change : σ → σ) (s : WalkState σ) :
    remember change s = .ok () { s with memory := change s.memory } := rfl

theorem alloc_run (kind : NodeKind) (span : Span) (s : WalkState σ) :
    alloc kind span s =
      .ok (s.tree.alloc kind span).1 { s with tree := (s.tree.alloc kind span).2 } := rfl

theorem add_run (kind : NodeKind) (s : WalkState σ) :
    add kind s = .ok (s.tree.add kind).1 { s with tree := (s.tree.add kind).2 } := rfl

theorem edit_of_ok {change : Tree → Except TreeError Tree} {s : WalkState σ} {t : Tree}
    (h : change s.tree = .ok t) : edit change s = .ok () { s with tree := t } := by
  rw [edit, bind_of_ok (tree_run s), h]
  rfl

theorem editPartly_of_ok {change : Tree → Tree × Except TreeError Unit} {s : WalkState σ}
    {t : Tree} (h : change s.tree = (t, .ok ())) :
    editPartly change s = .ok () { s with tree := t } := by
  rw [editPartly, bind_of_ok (tree_run s), h]
  rfl

theorem outcome_of_ok {m : WalkM σ α} {s s' : WalkState σ} {a : α} (h : m s = .ok a s') :
    outcome m s = (s', .ok a) := by
  rw [outcome, h]

end WalkM

namespace Visitor

variable {σ : Type} {visit : Visitor σ} {depth : Nat} {id : NodeId} {s s' : WalkState σ}

theorem walkFrom_of_skip (h : visit (visit.walkFrom depth) id s = .ok .skip s') :
    visit.walkFrom (depth + 1) id s = .ok () s' := by
  rw [walkFrom, WalkM.bind_of_ok h]
  rfl

/-- Walks the nodes of a list that record `id` as their parent. -/
def walkEach (visit : Visitor σ) (depth : Nat) (id : NodeId) (children : List NodeId) :
    WalkM σ Unit :=
  children.forM fun child => do
    if (← WalkM.tree).parent? child = some id then
      visit.walkFrom depth child

theorem walkFrom_of_children (h : visit (visit.walkFrom depth) id s = .ok .children s') :
    visit.walkFrom (depth + 1) id s = visit.walkEach depth id (s'.tree.children id) s' := by
  rw [walkFrom, WalkM.bind_of_ok h]
  show (WalkM.tree >>= _) s' = _
  rw [WalkM.bind_of_ok (WalkM.tree_run s')]
  rfl

theorem walkEach_cons {c : NodeId} {cs : List NodeId} (hp : s.tree.parent? c = some id)
    (h : visit.walkFrom depth c s = .ok () s') :
    visit.walkEach depth id (c :: cs) s = visit.walkEach depth id cs s' := by
  have hc : (do if (← WalkM.tree).parent? c = some id then visit.walkFrom depth c :
      WalkM σ Unit) s = .ok () s' := by
    rw [WalkM.bind_of_ok (WalkM.tree_run s), if_pos hp, h]
  exact WalkM.bind_of_ok hc

theorem walkEach_cons_of_ne {c : NodeId} {cs : List NodeId} (hp : s.tree.parent? c ≠ some id) :
    visit.walkEach depth id (c :: cs) s = visit.walkEach depth id cs s := by
  have hc : (do if (← WalkM.tree).parent? c = some id then visit.walkFrom depth c :
      WalkM σ Unit) s = .ok () s := by
    rw [WalkM.bind_of_ok (WalkM.tree_run s), if_neg hp]
    rfl
  exact WalkM.bind_of_ok hc

theorem walk_run (visit : Visitor σ) (id : NodeId) (s : WalkState σ) :
    visit.walk id s = visit.walkFrom (levels s.tree) id s := by
  rw [walk, WalkM.bind_of_ok (WalkM.tree_run s)]

theorem walk_of_ok (h : visit.walkFrom (levels s.tree) id s = .ok () s') :
    visit.walk id s = .ok () s' :=
  (visit.walk_run id s).trans h

end Visitor

end ObjectLowering
