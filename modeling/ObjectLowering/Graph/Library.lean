/-!
# ObjectLowering.Graph.Library

Directed graphs, and what a graph library is used for.

* `Graph`: nodes are numbered, and edges stand in the order in which they were added.
* `PostOrder`: a depth-first search, which gives one node after the other.
* `PostOrder.run`: the search from one node after the other, and all nodes that it gives.
* `GraphLibrary`: a search and a topological sort.
-/

namespace ObjectLowering

structure Graph where
  /-- The nodes are the numbers below this one. -/
  size : Nat
  edges : List (Nat × Nat)
  deriving Repr

namespace Graph

def empty : Graph := ⟨0, []⟩

/-- Adds a node and gives its number. -/
def addNode (g : Graph) : Nat × Graph :=
  (g.size, { g with size := g.size + 1 })

def addEdge (g : Graph) (source target : Nat) : Graph :=
  { g with edges := g.edges ++ [(source, target)] }

/-- Where the edges of a node lead, in the order in which they were added. -/
def targets (g : Graph) (node : Nat) : List Nat :=
  (g.edges.filter (·.1 = node)).map (·.2)

end Graph

/-- A search that can be stopped and moved to another node, as a library offers it. -/
structure PostOrder where
  /-- A search under way. -/
  Search : Type
  /-- A search that has not been started. -/
  empty : Graph → Search
  /-- Goes on from a node, with what has been visited before kept in mind. -/
  moveTo : Search → Nat → Search
  /-- The next node, if there is one more. -/
  next : Graph → Search → Option Nat × Search

namespace PostOrder

variable (lib : PostOrder) (g : Graph)

/-- Appends the nodes that a search gives until there are no more, up to `limit` of them. -/
def collect : Nat → List Nat × lib.Search → List Nat × lib.Search
  | 0, found => found
  | limit + 1, (order, s) =>
    match lib.next g s with
    | (some node, s) => collect limit (order ++ [node], s)
    | (none, s) => (order, s)

/-- Moves a search to a node and appends what it gives from there, which is no node twice. -/
def collectFrom (found : List Nat × lib.Search) (node : Nat) : List Nat × lib.Search :=
  lib.collect g (g.size + 1) (found.1, lib.moveTo found.2 node)

/-- The nodes that a search gives when it is moved to all nodes in turn. -/
def run : List Nat × lib.Search :=
  (List.range g.size).foldl (lib.collectFrom g) ([], lib.empty g)

end PostOrder

structure GraphLibrary extends PostOrder where
  /-- The nodes, each before those that its edges lead to, or else a node on a cycle. -/
  toposort : (g : Graph) → Except (Fin g.size) (List Nat)

end ObjectLowering
