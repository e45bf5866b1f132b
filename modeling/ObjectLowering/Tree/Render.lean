import ObjectLowering.Symbol.Spelling
import ObjectLowering.Text.Escape
import ObjectLowering.Text.Pieces
import ObjectLowering.Tree.Basic

/-!
# ObjectLowering.Tree.Render

Target text of expressions and statements.

* `Renderer.expression`: an expression, inside a check if it may be nil. A binary operand is
  parenthesized where its operator binds too loosely, and an operand of a unary operator where it
  is itself an operation.
* `Renderer.statement`: indented lines, two blanks to a level.
* `Renderer.member`: a static field or a type stands for itself, so its base is not rendered.

Parts are rendered from left to right, and the first one that is no expression or statement is
the error.
-/

namespace ObjectLowering

structure Renderer where
  tree : Tree
  env : Environment
  /-- The name of the slot of a pooled string. -/
  slot? : String → Option String := fun _ => none

namespace Renderer

def enclose (text : String) : String :=
  "(" ++ text ++ ")"

def encloseIf (needed : Bool) (text : String) : String :=
  if needed then enclose text else text

/-- A node is not of the kind that its place demands. -/
def unexpected (r : Renderer) (id : NodeId) (expected : String) : TreeError :=
  .unexpectedNode expected (((r.tree.kind? id).map (·.label)).getD "nothing") (r.tree.span id)

/-- A name by what it is bound to, or as it stands if that is unknown. -/
def simpleName (r : Renderer) (name : String) : Option Binding → String
  | some (.ofVariable id) => ((r.env.variableAt? id).map (Spelling.variableName r.env)).getD name
  | some (.ofType hash) => (r.env.fullName? hash).getD name
  | none => name

/-- A character constant, as a number unless it is printable ASCII. -/
def charLiteral (unit : UInt16) : String :=
  let code := unit.toNat
  if code = 0x27 then "'\\''"
  else if code = 0x5c then "'\\\\'"
  else if 0x20 ≤ code ∧ code < 0x7f then "'" ++ String.ofList [Char.ofNat code] ++ "'"
  else charNumber unit

def literal (r : Renderer) : Literal → String
  | .int value => intLiteral value
  | .double value => doubleLiteral value
  | .bool value => if value then "true" else "false"
  | .char unit => charLiteral unit
  | .string text => (r.slot? text).getD (Text.Escape.stringLiteral text)
  | .null => "nil"

/-- The node binds less tightly than a binary operator does that it stands to the left of. -/
def looserLeft (op : BinaryOp) : NodeKind → Bool
  | .binary inner .. => inner.precedence < op.precedence
  | .assignment .. => true
  | _ => false

/-- The node binds no more tightly than a binary operator does that it stands to the right of. -/
def looserRight (op : BinaryOp) : NodeKind → Bool
  | .binary inner .. => inner.precedence ≤ op.precedence
  | .assignment .. => true
  | _ => false

/-- The node must be parenthesized as an operand of a unary operator. -/
def isOperation : NodeKind → Bool
  | .binary .. | .assignment .. | .unary .. | .step .. => true
  | _ => false

/-- A member by its base and its name, where `base` renders the base. -/
def member (r : Renderer) (base : Unit → Except TreeError String) (name : NodeId)
    (separator : String) : Except TreeError String := do
  match (← r.tree.node name).kind with
  | .simpleName text (some (.ofVariable id)) =>
    match r.env.variableAt? id with
    | some v =>
      if v.isStatic then
        return Spelling.variableName r.env v
      else
        return (← base ()) ++ "->" ++ Spelling.variableName r.env v
    | none => return (← base ()) ++ separator ++ text
  | .simpleName text (some (.ofType hash)) => return r.simpleName text (some (.ofType hash))
  | .simpleName text none => return (← base ()) ++ separator ++ text
  | _ => .error (r.unexpected name "SimpleName")

/-- The receiver of a call without receiver expression. -/
def implicitReceiver (r : Renderer) (method : MethodRef) : String :=
  if method.isStatic then (r.env.fullName? method.declaringType).getD "nil" else "self"

/-- The name of a method with its arguments behind the colons. An argument without a keyword stands
behind a colon alone. -/
def selector (name : String) (arguments : List String) : String :=
  if arguments.isEmpty then Text.trimEnd ':' name
  else
    let keywords := Text.pieces ':' name
    let parts := arguments.zipIdx.map fun (argument, i) => keywords[i]?.getD "" ++ ":" ++ argument
    " ".intercalate parts

example : selector "add:with:" ["a", "b"] = "add:a with:b" := by decide +kernel
example : selector "run:" [] = "run" := by decide +kernel

def expressionFrom (r : Renderer) : Nat → NodeId → Except TreeError String
  | 0, id => .error (.invalidNode id)
  | depth + 1, id => do
    let render := r.expressionFrom depth
    let node ← r.tree.node id
    let text ← match node.kind with
      | .assignment op target value => do
        let target ← render target
        let value ← render value
        pure (target ++ " " ++ op.spelling ++ " " ++ value)
      | .simpleName name binding => pure (r.simpleName name binding)
      | .qualifiedName qualifier name => r.member (fun _ => render qualifier) name "."
      | .fieldAccess base name => r.member (fun _ => render base) name "->"
      | .methodCall method receiver arguments => do
        let receiver ← match receiver with
          | some receiver => render receiver
          | none => pure (r.implicitReceiver method)
        let arguments ← arguments.mapM render
        pure ("[" ++ receiver ++ " " ++ selector method.name arguments ++ "]")
      | .functionCall function arguments => do
        let arguments ← arguments.mapM render
        pure (function.name ++ enclose (", ".intercalate arguments))
      | .unary op operand => do
        let text ← render operand
        pure (op.spelling ++ encloseIf (isOperation (← r.tree.node operand).kind) text)
      | .step op operand => do
        let text ← render operand
        pure (encloseIf (isOperation (← r.tree.node operand).kind) text ++ op.spelling)
      | .binary op left right => do
        let leftText ← render left
        let leftText := encloseIf (looserLeft op (← r.tree.node left).kind) leftText
        let rightText ← render right
        let rightText := encloseIf (looserRight op (← r.tree.node right).kind) rightText
        pure (leftText ++ " " ++ op.spelling ++ " " ++ rightText)
      | .literal value => pure (r.literal value)
      | .parenthesized inner => do pure (enclose (← render inner))
      | .thisObject => pure "self"
      | _ => .error (r.unexpected id "expression")
    return if node.nilCheck then "nil_chk" ++ enclose text else text

def expression (r : Renderer) (id : NodeId) : Except TreeError String :=
  r.expressionFrom (r.tree.size + 1) id

def pad (indent : Nat) : String :=
  String.join (List.replicate indent "  ")

def line (indent : Nat) (text : String) : String :=
  pad indent ++ text ++ "\n"

def localVariable (r : Renderer) (id : NodeId) (var : VarId) (initial : Option NodeId) :
    Except TreeError String :=
  match r.env.variableAt? var with
  | none => .error (r.unexpected id "bound local variable")
  | some v => do
    let declaration := Spelling.declaration r.env v.type (Mangle.identifier v.name)
    match initial with
    | some initial => return declaration ++ " = " ++ (← r.expression initial) ++ ";"
    | none => return declaration ++ ";"

/-- The statements of a branch, without braces, where `render` renders a statement. -/
def branch (r : Renderer) (render : NodeId → Except TreeError String) (id : NodeId) :
    Except TreeError String := do
  match (← r.tree.node id).kind with
  | .block statements => return String.join (← statements.mapM render)
  | _ => render id

def statementFrom (r : Renderer) : Nat → NodeId → Nat → Except TreeError String
  | 0, id, _ => .error (.invalidNode id)
  | depth + 1, id, indent => do
    let render (indent : Nat) (id : NodeId) := r.statementFrom depth id indent
    match (← r.tree.node id).kind with
    | .block statements =>
      let body ← statements.mapM (render (indent + 1))
      return line indent "\x7b" ++ String.join body ++ line indent "\x7d"
    | .expressionStatement expression => return line indent ((← r.expression expression) ++ ";")
    | .localVariable var initial => return line indent (← r.localVariable id var initial)
    | .returnStatement (some value) =>
      return line indent ("return " ++ (← r.expression value) ++ ";")
    | .returnStatement none => return line indent "return;"
    | .ifStatement condition thenBranch elseBranch =>
      let condition ← r.expression condition
      let thenText ← r.branch (render (indent + 1)) thenBranch
      let elseText ← match elseBranch with
        | some elseBranch => do
          let text ← r.branch (render (indent + 1)) elseBranch
          pure (line indent "\x7d" ++ line indent "else \x7b" ++ text)
        | none => pure ""
      return line indent ("if (" ++ condition ++ ") \x7b") ++ thenText ++ elseText
        ++ line indent "\x7d"
    | .switchStatement subject statements =>
      let subject ← r.expression subject
      let body ← statements.mapM fun statement => do
        match (← r.tree.node statement).kind with
        | .switchCase _ => render (indent + 1) statement
        | _ => render (indent + 2) statement
      return line indent ("switch (" ++ subject ++ ") \x7b") ++ String.join body
        ++ line indent "\x7d"
    | .switchCase (some label) => return line indent ("case " ++ (← r.expression label) ++ ":")
    | .switchCase none => return line indent "default:"
    | .breakStatement => return line indent "break;"
    | _ => .error (r.unexpected id "statement")

def statement (r : Renderer) (id : NodeId) (indent : Nat) : Except TreeError String :=
  r.statementFrom (r.tree.size + 1) id indent

end Renderer

end ObjectLowering
