import ObjectLowering.Graph.StackSearch
import ObjectLowering.Index
import ObjectLowering.Unit.Error

/-!
# ObjectLowering.Unit.TypeOrder

The order in which the types of a unit are emitted: the supertypes of a type that are declared in
the unit come before it, and otherwise declaration order is kept.

* `graph`: a node for every type, with edges to its supertypes among them, superclass first.
* `orderWith`: has a graph library look for a cycle, and search the graph if there is none. A type
  on a cycle is reported.
* `order`: the same with the library that the translator runs with.
-/

namespace ObjectLowering.TypeOrder

/-- A type to be put in order, with the position of its declaration. -/
structure Entry where
  binding : TypeBinding
  span : Span
  deriving Repr

/-- Adds a node for a type, and notes under the hash of the type which node it is. -/
def addNode (added : Graph × Index TypeHash) (entry : Entry) : Graph × Index TypeHash :=
  let (node, g) := added.1.addNode
  (g, added.2.insert entry.binding.hash node)

def addNodes (types : List Entry) : Graph × Index TypeHash :=
  types.foldl addNode (.empty, {})

/-- Adds the edges from a type to its supertypes, as far as they have nodes. -/
def addEdges (nodes : Index TypeHash) (g : Graph) : Entry × Nat → Graph
  | (entry, node) => (entry.binding.supertypes.filterMap nodes.get?).foldl (·.addEdge node ·) g

def graph (types : List Entry) : Graph :=
  let added := addNodes types
  types.zipIdx.foldl (addEdges added.2) added.1

/-- The edges of one type. -/
def edgesOf (nodes : Index TypeHash) : Entry × Nat → List (Nat × Nat)
  | (entry, node) => (entry.binding.supertypes.filterMap nodes.get?).map (node, ·)

theorem foldl_addEdge (g : Graph) (node : Nat) (targets : List Nat) :
    targets.foldl (·.addEdge node ·) g = ⟨g.size, g.edges ++ targets.map (node, ·)⟩ := by
  induction targets generalizing g with
  | nil => simp
  | cons target targets ih =>
    rw [List.foldl_cons, ih]
    simp [Graph.addEdge]

theorem foldl_addEdges (nodes : Index TypeHash) (g : Graph) (entries : List (Entry × Nat)) :
    entries.foldl (addEdges nodes) g = ⟨g.size, g.edges ++ entries.flatMap (edgesOf nodes)⟩ := by
  induction entries generalizing g with
  | nil => simp
  | cons e entries ih =>
    rw [List.foldl_cons, ih, addEdges, foldl_addEdge]
    simp [edgesOf]

theorem fst_foldl_addNode (added : Graph × Index TypeHash) (types : List Entry) :
    (types.foldl addNode added).1 = ⟨added.1.size + types.length, added.1.edges⟩ := by
  induction types generalizing added with
  | nil => rfl
  | cons entry types ih =>
    rw [List.foldl_cons, ih, List.length_cons, Nat.add_comm types.length, ← Nat.add_assoc]
    rfl

/-- The graph has a node for every type, with the edges of one type after those of another. -/
theorem graph_eq (types : List Entry) :
    graph types = ⟨types.length, types.zipIdx.flatMap (edgesOf (addNodes types).2)⟩ := by
  have hnodes : (addNodes types).1 = ⟨types.length, []⟩ := by
    rw [addNodes, fst_foldl_addNode]
    simp [Graph.empty]
  simp only [graph, foldl_addEdges, hnodes, List.nil_append]

theorem size_graph (types : List Entry) : (graph types).size = types.length :=
  congrArg Graph.size (graph_eq types)

def orderWith (lib : GraphLibrary) (types : List Entry) : Except GenerationError (List Nat) :=
  match lib.toposort (graph types) with
  | .error node =>
    let entry := types.get (node.cast (size_graph types))
    .error (.cyclicSupertypes entry.binding.name.text entry.span)
  | .ok _ => .ok (lib.run (graph types)).1

def order (types : List Entry) : Except GenerationError (List Nat) :=
  orderWith StackSearch.library types

end ObjectLowering.TypeOrder
