import ObjectLowering.Graph.Library

/-!
# ObjectLowering.Graph.StackSearch

A graph library that searches with a stack.

A node is met on the stack at least twice: first it is discovered, and what it leads to is put above
it; when it is met again all that has been finished, and so is the node. The topological sort reads
the finished nodes backwards. On a cycle some node has an edge to itself, or else, in that reading,
a node comes before one that leads to it.

* `StackSearch.next`: works off the stack until a node is finished.
* `StackSearch.toposort`: the sort, with the node on a cycle that is found first.
-/

namespace ObjectLowering.StackSearch

/-- A search under way. In all three lists the latest node comes first. -/
structure State where
  stack : List Nat := []
  discovered : List Nat := []
  finished : List Nat := []
  deriving DecidableEq, Repr

/-- Puts nodes on a stack, but for those that have been discovered. -/
def push (discovered : List Nat) (stack : List Nat) (nodes : List Nat) : List Nat :=
  nodes.foldl (fun stack node => if node ∈ discovered then stack else node :: stack) stack

theorem push_eq (discovered stack nodes : List Nat) :
    push discovered stack nodes = (nodes.filter (· ∉ discovered)).reverse ++ stack := by
  induction nodes generalizing stack with
  | nil => rfl
  | cons node nodes ih =>
    rw [push, List.foldl_cons, ← push, ih, List.filter_cons]
    by_cases h : node ∈ discovered
    · simp [h]
    · simp [h]

/-- What a search has still to do at most: every node on the stack is taken off, those that are new
are discovered before, and every edge of a new node may put one more node on the stack. -/
def State.work (g : Graph) (s : State) : Nat :=
  s.stack.length + s.stack.countP (· ∉ s.discovered) + 2 * g.edges.countP (·.1 ∉ s.discovered)

theorem countP_edges_of_new {discovered : List Nat} {node : Nat} (h : node ∉ discovered)
    (edges : List (Nat × Nat)) :
    edges.countP (·.1 ∉ discovered) =
      edges.countP (·.1 ∉ node :: discovered) + edges.countP (·.1 = node) := by
  induction edges with
  | nil => rfl
  | cons e edges ih =>
    rw [List.countP_cons, List.countP_cons, List.countP_cons, ih]
    by_cases he : e.1 = node
    · simp only [he, h, List.mem_cons_self, not_false_eq_true, not_true_eq_false, decide_true,
        decide_false, if_true, Bool.false_eq_true, if_false]
      omega
    · simp only [he, List.mem_cons, false_or, decide_false, Bool.false_eq_true, if_false]
      omega

/-- To discover a node is progress, whatever it puts on the stack. -/
theorem work_discover (g : Graph) {node : Nat} {rest discovered : List Nat} (finished : List Nat)
    (h : node ∉ discovered) :
    State.work g ⟨push (node :: discovered) (node :: rest) (g.targets node).reverse,
        node :: discovered, finished⟩ <
      State.work g ⟨node :: rest, discovered, finished⟩ := by
  have hpushed := calc ((g.targets node).filter (· ∉ node :: discovered)).length
    _ ≤ (g.targets node).length := List.length_filter_le _ _
    _ = g.edges.countP (·.1 = node) := by
      rw [Graph.targets, List.length_map, List.countP_eq_length_filter]
  have hnew := List.countP_le_length (p := (· ∉ node :: discovered))
    (l := (g.targets node).filter (· ∉ node :: discovered))
  have hrest : rest.countP (· ∉ node :: discovered) ≤ rest.countP (· ∉ discovered) :=
    List.countP_mono_left fun i _ => by simp
  have hedges := countP_edges_of_new h g.edges
  simp only [State.work, push_eq, List.filter_reverse, List.reverse_reverse, List.length_append,
    List.countP_append, List.length_cons, List.countP_cons, List.mem_cons_self, h,
    not_true_eq_false, not_false_eq_true, decide_true, decide_false, Bool.false_eq_true, if_false,
    if_true]
  omega

/-- Works off the stack until a node is finished. -/
def next (g : Graph) : State → Option Nat × State
  | ⟨[], discovered, finished⟩ => (none, ⟨[], discovered, finished⟩)
  | ⟨node :: rest, discovered, finished⟩ =>
    if node ∉ discovered then
      -- the targets of earlier edges are put above those of later ones
      next g ⟨push (node :: discovered) (node :: rest) (g.targets node).reverse,
        node :: discovered, finished⟩
    else if node ∈ finished then
      next g ⟨rest, discovered, finished⟩
    else
      (some node, ⟨rest, discovered, node :: finished⟩)
termination_by s => s.work g
decreasing_by
  · exact work_discover g finished ‹_›
  · simp only [State.work, List.countP_cons, List.length_cons]
    omega

/-- A node that leads to a given one and is not among those passed. -/
def toCome? (g : Graph) (passed : List Nat) (node : Nat) : Option (Fin g.size) :=
  (List.finRange g.size).find? fun source => node ∈ g.targets source ∧ source.val ∉ passed

/-- Passes nodes in turn until one is led to by a node that is still to come, and gives the latter. -/
def firstToCome? (g : Graph) : List Nat → List Nat → Option (Fin g.size)
  | _, [] => none
  | passed, node :: rest =>
    (toCome? g (node :: passed) node).or (firstToCome? g (node :: passed) rest)

/-- The node that is discovered first of those with an edge to themselves. -/
def selfTarget? (g : Graph) (s : State) : Option (Fin g.size) :=
  s.discovered.reverse.findSome? fun node =>
    (List.finRange g.size).find? fun i => i.val = node ∧ node ∈ g.targets node

def postOrder : PostOrder where
  Search := State
  empty _ := {}
  moveTo s node := { s with stack := [node] }
  next := next

def toposort (g : Graph) : Except (Fin g.size) (List Nat) :=
  let (order, s) := postOrder.run g
  match (selfTarget? g s).or (firstToCome? g [] order.reverse) with
  | some node => .error node
  | none => .ok order.reverse

/-- The library that the translator runs with. -/
def library : GraphLibrary where
  toPostOrder := postOrder
  toposort := toposort

example : (postOrder.run ⟨4, [(0, 2), (0, 3), (1, 3), (2, 3)]⟩).1 = [3, 2, 0, 1] := by decide +kernel

end ObjectLowering.StackSearch
