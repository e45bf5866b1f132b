import ObjectLowering.Tree.Node

/-!
# ObjectLowering.Tree.Error

What can be wrong with the shape of a tree.
-/

namespace ObjectLowering

inductive TreeError where
  /-- A node without parent has no slot in which it could be replaced. -/
  | detachedNode (node : NodeId) (span : Span)
  /-- The recorded parent of a node does not hold it. -/
  | brokenParentLink (node parent : NodeId) (span : Span)
  /-- A node has another kind than its place demands. -/
  | unexpectedNode (expected found : String) (span : Span)
  | invalidNode (node : NodeId)
  deriving DecidableEq, Repr, Inhabited

namespace TreeError

def message : TreeError → String
  | detachedNode node span =>
    "at " ++ span.text ++ ": node #" ++ toString node ++ " is detached and cannot be replaced"
  | brokenParentLink node parent span =>
    "at " ++ span.text ++ ": node #" ++ toString node
      ++ " is not a child of its recorded parent #" ++ toString parent
  | unexpectedNode expected found span =>
    "at " ++ span.text ++ ": expected " ++ expected ++ ", found " ++ found
  | invalidNode node => "node #" ++ toString node ++ " does not exist"

def span : TreeError → Span
  | detachedNode _ span | brokenParentLink _ _ span | unexpectedNode _ _ span => span
  | invalidNode _ => .synthetic

end TreeError

end ObjectLowering
