import ObjectLowering.Symbol.Environment
import ObjectLowering.Tree.Error

/-!
# ObjectLowering.Tree.Basic

Trees of numbered nodes. A node keeps its number for good, knows its children, and records its
parent. Nothing forces the two directions to agree; `Tree.verifyLinks` says whether they do.

* `alloc`, `add`: a new node, which becomes the recorded parent of its children.
* `node?_update`, `node?_alloc`: which nodes are found after a change or a new node.
* `descendants`: the nodes below a node in pre-order.
* `stripParentheses`, `namedVariable?`, `owningType?`: what a node is about, looking down through
  parentheses and members, and up to the enclosing type.

Every search along the links of a tree is bounded by its number of nodes, which no path without
repetition exceeds.
-/

namespace ObjectLowering

structure Tree where
  nodes : Array Node := #[]
  root : Option NodeId := none
  deriving Repr, Inhabited

namespace Tree

def empty : Tree := {}

def size (t : Tree) : Nat :=
  t.nodes.size

def isEmpty (t : Tree) : Bool :=
  t.nodes.isEmpty

def node? (t : Tree) (id : NodeId) : Option Node :=
  t.nodes[id]?

def node (t : Tree) (id : NodeId) : Except TreeError Node :=
  match t.node? id with
  | some node => .ok node
  | none => .error (.invalidNode id)

theorem node?_of_node {t : Tree} {id : NodeId} {node : Node} (h : t.node id = .ok node) :
    t.node? id = some node := by
  unfold Tree.node at h
  split at h
  · rename_i hn
    cases h
    exact hn
  · cases h

def kind? (t : Tree) (id : NodeId) : Option NodeKind :=
  (t.node? id).map (·.kind)

def parent? (t : Tree) (id : NodeId) : Option NodeId :=
  (t.node? id).bind (·.parent)

/-- The position of a node, the synthetic one if there is no such node. -/
def span (t : Tree) (id : NodeId) : Span :=
  ((t.node? id).map (·.span)).getD .synthetic

def children (t : Tree) (id : NodeId) : List NodeId :=
  ((t.kind? id).map (·.children)).getD []

theorem kind?_of_node {t : Tree} {id : NodeId} {node : Node} (h : t.node id = .ok node) :
    t.kind? id = some node.kind := by
  rw [kind?, node?_of_node h, Option.map_some]

theorem children_of_node {t : Tree} {id : NodeId} {node : Node} (h : t.node id = .ok node) :
    t.children id = node.kind.children := by
  rw [children, kind?_of_node h, Option.map_some, Option.getD_some]

def hasNilCheck (t : Tree) (id : NodeId) : Bool :=
  ((t.node? id).map (·.nilCheck)).getD false

def update (t : Tree) (id : NodeId) (change : Node → Node) : Tree :=
  { t with nodes := t.nodes.modify id change }

@[simp] theorem size_update (t : Tree) (id : NodeId) (change : Node → Node) :
    (t.update id change).size = t.size := by
  simp [update, size]

@[simp] theorem root_update (t : Tree) (id : NodeId) (change : Node → Node) :
    (t.update id change).root = t.root := rfl

/-- A change of one node is seen there and nowhere else. -/
theorem node?_update (t : Tree) (id other : NodeId) (change : Node → Node) :
    (t.update id change).node? other =
      if id = other then (t.node? other).map change else t.node? other := by
  simp only [update, node?, Array.getElem?_modify]

def modify (t : Tree) (id : NodeId) (change : Node → Node) : Except TreeError Tree :=
  (t.node id).map fun _ => t.update id change

def setRoot (t : Tree) (id : NodeId) : Tree :=
  { t with root := some id }

def setNilCheck (t : Tree) (id : NodeId) (nilCheck : Bool) : Except TreeError Tree :=
  t.modify id ({ · with nilCheck })

/-- Records a parent by hand, whether or not it holds the node. -/
def setParent (t : Tree) (id : NodeId) (parent : Option NodeId) : Except TreeError Tree :=
  t.modify id ({ · with parent })

/-- Records a parent for those of some nodes that exist. -/
def adopt (t : Tree) (parent : NodeId) (children : List NodeId) : Tree :=
  children.foldl (fun t child => t.update child ({ · with parent := some parent })) t

@[simp] theorem size_adopt (t : Tree) (parent : NodeId) (children : List NodeId) :
    (t.adopt parent children).size = t.size := by
  unfold adopt
  induction children generalizing t with
  | nil => rfl
  | cons child children ih => simp [ih]

@[simp] theorem root_adopt (t : Tree) (parent : NodeId) (children : List NodeId) :
    (t.adopt parent children).root = t.root := by
  unfold adopt
  induction children generalizing t with
  | nil => rfl
  | cons child children ih => simp [ih]

/-- Adoption changes the recorded parents of the children and nothing else. -/
theorem node?_adopt (t : Tree) (parent : NodeId) (children : List NodeId) (id : NodeId) :
    (t.adopt parent children).node? id =
      if id ∈ children then (t.node? id).map ({ · with parent := some parent })
      else t.node? id := by
  unfold adopt
  induction children generalizing t with
  | nil => simp
  | cons child children ih =>
    rw [List.foldl_cons, ih, node?_update]
    by_cases hc : child = id
    · subst hc
      by_cases hm : child ∈ children
      · simp [hm, Function.comp_def]
      · simp [hm]
    · have hi : id ≠ child := fun h => hc h.symm
      simp [hc, hi]

/-- A new node at a position. It becomes the recorded parent of those of its children that exist. -/
def alloc (t : Tree) (kind : NodeKind) (span : Span) : NodeId × Tree :=
  let adopted := t.adopt t.size kind.children
  (t.size, { adopted with nodes := adopted.nodes.push { kind, span } })

@[simp] theorem size_alloc (t : Tree) (kind : NodeKind) (span : Span) :
    (t.alloc kind span).2.size = t.size + 1 := by
  have h : (t.adopt t.size kind.children).nodes.size = t.size := t.size_adopt t.size kind.children
  exact (Array.size_push ..).trans (congrArg (· + 1) h)

@[simp] theorem root_alloc (t : Tree) (kind : NodeKind) (span : Span) :
    (t.alloc kind span).2.root = t.root :=
  t.root_adopt t.size kind.children

/-- The new node is found under its number, and every other as adoption left it. -/
theorem node?_alloc (t : Tree) (kind : NodeKind) (span : Span) (id : NodeId) :
    (t.alloc kind span).2.node? id =
      if id = t.size then some { kind, span } else (t.adopt t.size kind.children).node? id := by
  have h : (t.adopt t.size kind.children).nodes.size = t.size := t.size_adopt t.size kind.children
  simp only [alloc, node?, Array.getElem?_push, h]

/-- A new node at the position of its leading child, if its kind has one. -/
def add (t : Tree) (kind : NodeKind) : NodeId × Tree :=
  t.alloc kind ((kind.leadingChild?.map t.span).getD .synthetic)

/-- A new compilation unit, which becomes the root. -/
def addUnit (t : Tree) (sourceName : String) (types : List NodeId) (nativeBlocks : List String) :
    NodeId × Tree :=
  let (id, t) := t.add (.compilationUnit sourceName types nativeBlocks)
  (id, t.setRoot id)

/-- The number of nodes below a node and itself, counted as often as they are reached. -/
def extent (t : Tree) : Nat → NodeId → Nat
  | 0, _ => 1
  | depth + 1, id => 1 + ((t.children id).map (t.extent depth)).sum

/-- The next nodes in pre-order, where the stack holds the nodes that are still to be entered. -/
def scan (t : Tree) : Nat → List NodeId → List NodeId
  | 0, _ => []
  | _, [] => []
  | steps + 1, id :: stack => id :: t.scan steps (t.children id ++ stack)

def descendants (t : Tree) (id : NodeId) : List NodeId :=
  t.scan (t.extent t.size id) [id]

/-- Removes up to `depth` pairs of parentheses. -/
def stripFrom (t : Tree) : Nat → NodeId → NodeId
  | 0, id => id
  | depth + 1, id =>
    match t.kind? id with
    | some (.parenthesized inner) => t.stripFrom depth inner
    | _ => id

def stripParentheses (t : Tree) (id : NodeId) : NodeId :=
  t.stripFrom t.size id

/-- Looks for a bound name through up to `depth` member slots. -/
def variableFrom? (t : Tree) : Nat → NodeId → Option VarId
  | 0, _ => none
  | depth + 1, id =>
    match t.kind? id with
    | some (.simpleName _ (some (.ofVariable id))) => some id
    | some (.qualifiedName _ name) | some (.fieldAccess _ name) => t.variableFrom? depth name
    | _ => none

def namedVariable? (t : Tree) (id : NodeId) : Option VarId :=
  t.variableFrom? t.size id

/-- What is known about the variable that a name or member stands for. -/
def resolve? (t : Tree) (env : Environment) (id : NodeId) : Option VariableBinding :=
  (t.namedVariable? id).bind env.variableAt?

/-- Climbs up to `depth` parents in search of a type declaration. -/
def owningTypeFrom? (t : Tree) : Nat → NodeId → Option TypeHash
  | 0, _ => none
  | depth + 1, id =>
    match t.kind? id with
    | some (.typeDecl type _) => type
    | _ => (t.parent? id).bind (t.owningTypeFrom? depth)

def owningType? (t : Tree) (id : NodeId) : Option TypeHash :=
  t.owningTypeFrom? t.size id

def typeDecls (t : Tree) : List NodeId :=
  match t.root.bind t.kind? with
  | some (.compilationUnit _ types _) => types
  | _ => []

def nativeBlocks (t : Tree) : List String :=
  match t.root.bind t.kind? with
  | some (.compilationUnit _ _ nativeBlocks) => nativeBlocks
  | _ => []

/-- The first pair of a reachable node and a child that records another parent. -/
def brokenLink? (t : Tree) (root : NodeId) : Option (NodeId × NodeId) :=
  (t.descendants root).findSome? fun id =>
    ((t.children id).find? fun child => t.parent? child ≠ some id).map (id, ·)

/-- Fails if a child below the root records another parent than the node that holds it. -/
def verifyLinks (t : Tree) : Except TreeError Unit :=
  match t.root.bind t.brokenLink? with
  | some (parent, child) => .error (.brokenParentLink child parent (t.span child))
  | none => .ok ()

end Tree

end ObjectLowering
