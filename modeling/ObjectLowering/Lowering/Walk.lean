import ObjectLowering.Tree.Edit

/-!
# ObjectLowering.Lowering.Walk

Walks over a tree in pre-order that may change the tree on their way.

A visitor sees a node before its children are read, so the walk follows the tree as the visit has
left it. It says whether the walk goes on below the node, and it may start walks of its own. A
child is entered only if it records the node as its parent: one that an earlier visit has moved
away is left to its new place. A failure keeps the changes that were made before it.

A walk enters a bounded number of levels. In a tree that keeps its size no path without repetition
has more levels than there are nodes. But a tree may grow under the walk: a node in two slots is
entered twice, and what a visitor has put below it the first time is walked the second time. So
there is room for as many levels more as there are node numbers of thirty-two bits.
-/

namespace ObjectLowering

/-- Whether a walk enters the children of the node just visited. -/
inductive Descend where
  | children
  | skip
  deriving DecidableEq, Repr, Inhabited

/-- The tree under change and what the visitor remembers. -/
structure WalkState (σ : Type) where
  tree : Tree
  memory : σ

/-- Steps that may change the tree and may fail, keeping what they changed. -/
abbrev WalkM (σ : Type) := EStateM TreeError (WalkState σ)

namespace WalkM

variable {σ α : Type}

def tree : WalkM σ Tree :=
  return (← get).tree

def setTree (t : Tree) : WalkM σ Unit :=
  modify ({ · with tree := t })

def remember (change : σ → σ) : WalkM σ Unit :=
  modify fun s => { s with memory := change s.memory }

/-- A change that leaves the tree alone if it fails. -/
def edit (change : Tree → Except TreeError Tree) : WalkM σ Unit := do
  match change (← tree) with
  | .ok t => setTree t
  | .error e => throw e

/-- A change that may leave the tree half changed if it fails. -/
def editPartly (change : Tree → Tree × Except TreeError Unit) : WalkM σ Unit := do
  let (t, outcome) := change (← tree)
  setTree t
  match outcome with
  | .ok () => pure ()
  | .error e => throw e

def alloc (kind : NodeKind) (span : Span) : WalkM σ NodeId := do
  let (id, t) := (← tree).alloc kind span
  setTree t
  return id

/-- A node at the position of its leading child. -/
def add (kind : NodeKind) : WalkM σ NodeId := do
  let (id, t) := (← tree).add kind
  setTree t
  return id

/-- The state after a run, whatever its outcome, and the outcome. -/
def outcome (m : WalkM σ α) (s : WalkState σ) : WalkState σ × Except TreeError α :=
  match m s with
  | .ok a s => (s, .ok a)
  | .error e s => (s, .error e)

end WalkM

/-- Visits a node. The first argument walks any node, one level further down. -/
abbrev Visitor (σ : Type) := (NodeId → WalkM σ Unit) → NodeId → WalkM σ Descend

namespace Visitor

variable {σ : Type}

/-- Walks a node and what is below it, up to `depth` levels. -/
def walkFrom (visit : Visitor σ) : Nat → NodeId → WalkM σ Unit
  | 0, _ => pure ()
  | depth + 1, id => do
    match ← visit (visit.walkFrom depth) id with
    | .skip => pure ()
    | .children =>
      ((← WalkM.tree).children id).forM fun child => do
        if (← WalkM.tree).parent? child = some id then
          visit.walkFrom depth child

/-- Enough levels for every path in a tree of this size, and for whatever may be put into it. -/
def levels (t : Tree) : Nat :=
  2 * t.size + UInt32.size

def walk (visit : Visitor σ) (id : NodeId) : WalkM σ Unit := do
  visit.walkFrom (levels (← WalkM.tree)) id

end Visitor

end ObjectLowering
