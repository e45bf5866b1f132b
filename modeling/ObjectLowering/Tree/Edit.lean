import ObjectLowering.Tree.Basic

/-!
# ObjectLowering.Tree.Edit

Changes in the shape of a tree.

* `replace`: puts a node in the place of another, which is detached. A failure changes nothing.
* `convertToFieldAccess`: makes a qualified name an explicit member access. The qualifier of a
  qualified name must be a name, so every qualified name that is qualified by a converted one is
  converted too. A failure leaves those that came before it converted.
-/

namespace ObjectLowering.Tree

/-- Puts `new` into the slot that holds `old`, and detaches `old`. -/
def replace (t : Tree) (old new : NodeId) : Except TreeError Tree := do
  let oldNode ← t.node old
  let some parent := oldNode.parent | .error (.detachedNode old oldNode.span)
  let _ ← t.node new
  let parentNode ← t.node parent
  match parentNode.kind.replaceChild? old new with
  | none => .error (.brokenParentLink old parent oldNode.span)
  | some kind =>
    .ok (((t.update parent ({ · with kind })).update new ({ · with parent := some parent })).update
      old ({ · with parent := none }))

def convertOne (t : Tree) (id : NodeId) : Except TreeError Tree := do
  let node ← t.node id
  match node.kind with
  | .qualifiedName qualifier name =>
    match (← t.node name).kind with
    | .simpleName .. => .ok (t.update id ({ · with kind := .fieldAccess qualifier name }))
    | other => .error (.unexpectedNode "SimpleName" other.label (t.span name))
  | other => .error (.unexpectedNode "QualifiedName" other.label node.span)

/-- The qualified name whose qualifier a node is. -/
def qualifies? (t : Tree) (id : NodeId) : Option NodeId :=
  (t.parent? id).filter fun parent =>
    match t.kind? parent with
    | some (.qualifiedName qualifier _) => qualifier = id
    | _ => false

/-- Converts a qualified name and up to `depth` names around it. -/
def convertFrom (t : Tree) : Nat → NodeId → Tree × Except TreeError Unit
  | 0, _ => (t, .ok ())
  | depth + 1, id =>
    match t.convertOne id with
    | .error e => (t, .error e)
    | .ok t =>
      match t.qualifies? id with
      | some parent => t.convertFrom depth parent
      | none => (t, .ok ())

/-- Makes a qualified name, and every one that it qualifies, a member access. -/
def convertToFieldAccess (t : Tree) (id : NodeId) : Tree × Except TreeError Unit :=
  t.convertFrom (t.size + 1) id

end ObjectLowering.Tree
