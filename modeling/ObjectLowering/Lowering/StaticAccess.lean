import ObjectLowering.Lowering.Walk
import ObjectLowering.Symbol.Accessor

/-!
# ObjectLowering.Lowering.StaticAccess

Routes accesses to the static fields of other types through accessor functions, because only
those make sure that the declaring type is set up.

Each node is treated by the first role that fits:

1. `X = v`, where the type of `X` is not primitive, becomes `T_set_X(v)`.
2. In any other assignment to `X` the left side becomes `*T_getRef_X()`.
3. A read of `X` becomes `T_get_X()`. If `X` qualifies a longer name, that name is made a member
   access first, since a call is no qualifier.
4. In `X++`, `X--`, `++X` and `--X` the operand becomes `*T_getRef_X()`.
5. Case labels are left alone, since they must be constants.

Parentheses around an assigned or stepped field go away with it, and a getter inherits the nil
check of the field. Primitive constants are macros and need no accessor, and neither does the code
of the declaring type itself.
-/

namespace ObjectLowering.StaticAccess

/-- Code in the type `context` must use accessors to reach a variable. -/
def needsAccessor (context : Option TypeHash) (v : VariableBinding) : Bool :=
  match v.declaringType with
  | some owner => v.isField && v.isStatic && !v.isPrimitiveConstant && context ≠ some owner
  | none => false

/-- The field that an expression stands for, if code at `context` needs accessors for it. -/
def target? (env : Environment) (t : Tree) (context expression : NodeId) : Option StaticField := do
  let field ← t.resolve? env expression
  guard (needsAccessor (t.owningType? context) field)
  let owner ← field.declaringType
  let ownerName ← env.fullName? owner
  return { owner, ownerName, field }

/-- Steps of the pass, which count the expressions replaced. -/
abbrev AccessM := WalkM Nat

/-- Puts a new expression in the place of an old one. -/
def substitute (old new : NodeId) : AccessM Unit := do
  WalkM.edit (·.replace old new)
  WalkM.remember (· + 1)

/-- Hands the nil check of an expression on to the one that stands for it. -/
def inheritNilCheck (old new : NodeId) : AccessM Unit := do
  if (← WalkM.tree).hasNilCheck old then
    WalkM.edit (·.setNilCheck new true)

/-- A call that gives the value of a field, at the place of an expression. -/
def newRead (field : StaticField) (expression : NodeId) : AccessM NodeId := do
  let span := (← WalkM.tree).span expression
  let call ← WalkM.alloc (.functionCall field.getter []) span
  inheritNilCheck expression call
  return call

/-- A dereferenced call that stands for the storage of a field, at the place of an expression. -/
def newReference (field : StaticField) (expression : NodeId) : AccessM NodeId := do
  let span := (← WalkM.tree).span expression
  let call ← WalkM.alloc (.functionCall field.refGetter []) span
  let reference ← WalkM.add (.unary .dereference call)
  inheritNilCheck expression reference
  return reference

/-- An assignment as a whole becomes a call of the setter, whose argument is still walked. -/
def storeBySetter (walk : NodeId → AccessM Unit) (assignment value : NodeId)
    (field : StaticField) : AccessM Descend := do
  let span := (← WalkM.tree).span assignment
  let call ← WalkM.alloc (.functionCall field.setter [value]) span
  substitute assignment call
  walk value
  return .skip

def visitAssignment (env : Environment) (walk : NodeId → AccessM Unit) (assignment : NodeId)
    (op : AssignOp) (left value : NodeId) : AccessM Descend := do
  let t ← WalkM.tree
  let inner := t.stripParentheses left
  match target? env t assignment inner with
  | none => return .children
  | some field =>
    if op.isSimple && !field.field.type.isPrimitive then
      storeBySetter walk assignment value field
    else
      substitute left (← newReference field inner)
      return .children

def visitName (env : Environment) (name : NodeId) : AccessM Descend := do
  let t ← WalkM.tree
  match target? env t name name with
  | none => return .children
  | some field =>
    match t.qualifies? name with
    | some qualified => WalkM.editPartly (·.convertToFieldAccess qualified)
    | none => pure ()
    substitute name (← newRead field name)
    return .skip

def visitStep (env : Environment) (step operand : NodeId) : AccessM Descend := do
  let t ← WalkM.tree
  let inner := t.stripParentheses operand
  match target? env t step inner with
  | none => return .children
  | some field =>
    substitute operand (← newReference field inner)
    return .skip

def visit (env : Environment) : Visitor Nat := fun walk id => do
  let t ← WalkM.tree
  match t.node id with
  | .error e => throw e
  | .ok node =>
    match node.kind with
    | .assignment op left value => visitAssignment env walk id op left value
    | .simpleName .. | .qualifiedName .. | .fieldAccess .. => visitName env id
    | .step _ operand => visitStep env id operand
    | .unary op operand => if op.isStep then visitStep env id operand else return .children
    | .switchCase _ => return .skip
    | _ => return .children

/-- Treats every node below the root. Gives the tree, also after a failure, and the number of
expressions replaced. -/
def run (env : Environment) (t : Tree) : Tree × Except TreeError Nat :=
  match t.root with
  | none => (t, .ok 0)
  | some root =>
    let (final, outcome) := ((visit env).walk root).outcome { tree := t, memory := 0 }
    (final.tree, outcome.map fun _ => final.memory)

end ObjectLowering.StaticAccess
