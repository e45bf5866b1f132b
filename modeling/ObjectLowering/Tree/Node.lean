import ObjectLowering.Span
import ObjectLowering.Symbol.Binding
import ObjectLowering.Tree.Operator

/-!
# ObjectLowering.Tree.Node

The nodes of a program tree. A node holds the numbers of its children in slots that depend on its
kind.

* `NodeKind.children`: the children in source order.
* `NodeKind.replaceChild?`: puts another child into the first slot that holds a given one.
* `NodeKind.leadingChild?`: the child that gives a node its position.
-/

namespace ObjectLowering

abbrev NodeId := Nat

inductive Literal where
  | int (value : Int64)
  | double (value : Number.Binary64)
  | bool (value : Bool)
  | char (unit : UInt16)
  | string (text : String)
  | null
  deriving DecidableEq, Repr

inductive NodeKind where
  /-- One source file. Native blocks go into the implementation file as they are. -/
  | compilationUnit (sourceName : String) (types : List NodeId) (nativeBlocks : List String)
  /-- A class, interface or enum. Nested types are declarations of the unit as well. -/
  | typeDecl (type : Option TypeHash) (members : List NodeId)
  | fieldDecl (field : VarId) (initial : Option NodeId)
  | methodDecl (method : MethodRef) (parameters : List VarId) (body : Option NodeId)
  | block (statements : List NodeId)
  | expressionStatement (expression : NodeId)
  | localVariable (var : VarId) (initial : Option NodeId)
  | returnStatement (value : Option NodeId)
  | ifStatement (condition thenBranch : NodeId) (elseBranch : Option NodeId)
  /-- Case labels stand among the statements that they guard. -/
  | switchStatement (subject : NodeId) (statements : List NodeId)
  /-- A case label, or the default label if it has no expression. -/
  | switchCase (label : Option NodeId)
  | breakStatement
  | assignment (op : AssignOp) (target value : NodeId)
  | simpleName (name : String) (binding : Option Binding)
  /-- A member of what a name stands for. The last name carries the binding of the whole. -/
  | qualifiedName (qualifier name : NodeId)
  /-- A member of the value of any expression. -/
  | fieldAccess (base name : NodeId)
  | methodCall (method : MethodRef) (receiver : Option NodeId) (arguments : List NodeId)
  /-- A call of a free function, which only lowering makes. -/
  | functionCall (function : FunctionRef) (arguments : List NodeId)
  | unary (op : UnaryOp) (operand : NodeId)
  | step (op : StepOp) (operand : NodeId)
  | binary (op : BinaryOp) (left right : NodeId)
  | literal (value : Literal)
  | parenthesized (inner : NodeId)
  | thisObject
  deriving DecidableEq, Repr

namespace NodeKind

def label : NodeKind → String
  | compilationUnit .. => "CompilationUnit"
  | typeDecl .. => "TypeDecl"
  | fieldDecl .. => "FieldDecl"
  | methodDecl .. => "MethodDecl"
  | block .. => "Block"
  | expressionStatement .. => "ExpressionStatement"
  | localVariable .. => "LocalVariable"
  | returnStatement .. => "Return"
  | ifStatement .. => "If"
  | switchStatement .. => "Switch"
  | switchCase .. => "SwitchCase"
  | breakStatement => "Break"
  | assignment .. => "Assignment"
  | simpleName .. => "SimpleName"
  | qualifiedName .. => "QualifiedName"
  | fieldAccess .. => "FieldAccess"
  | methodCall .. => "MethodInvocation"
  | functionCall .. => "FunctionInvocation"
  | unary .. => "Prefix"
  | step .. => "Postfix"
  | binary .. => "Infix"
  | literal .. => "Literal"
  | parenthesized .. => "Parenthesized"
  | thisObject => "This"

def isExpression : NodeKind → Bool
  | assignment .. | simpleName .. | qualifiedName .. | fieldAccess .. | methodCall ..
  | functionCall .. | unary .. | step .. | binary .. | literal .. | parenthesized ..
  | thisObject => true
  | _ => false

def children : NodeKind → List NodeId
  | compilationUnit _ types _ => types
  | typeDecl _ members => members
  | fieldDecl _ initial => initial.toList
  | methodDecl _ _ body => body.toList
  | block statements => statements
  | expressionStatement expression => [expression]
  | localVariable _ initial => initial.toList
  | returnStatement value => value.toList
  | ifStatement condition thenBranch elseBranch => condition :: thenBranch :: elseBranch.toList
  | switchStatement subject statements => subject :: statements
  | switchCase label => label.toList
  | breakStatement => []
  | assignment _ target value => [target, value]
  | simpleName _ _ => []
  | qualifiedName qualifier name => [qualifier, name]
  | fieldAccess base name => [base, name]
  | methodCall _ receiver arguments => receiver.toList ++ arguments
  | functionCall _ arguments => arguments
  | unary _ operand => [operand]
  | step _ operand => [operand]
  | binary _ left right => [left, right]
  | literal _ => []
  | parenthesized inner => [inner]
  | thisObject => []

/-- The slot with `new` in it, if it holds `old`. -/
def swap? (old new slot : NodeId) : Option NodeId :=
  if slot = old then some new else none

/-- The optional slot with `new` in it, if it holds `old`. -/
def swapOption? (old new : NodeId) (slot : Option NodeId) : Option (Option NodeId) :=
  if slot = some old then some (some new) else none

/-- The slots with `new` in the first that holds `old`, if there is one. -/
def swapList? (old new : NodeId) : List NodeId → Option (List NodeId)
  | [] => none
  | slot :: rest =>
    if slot = old then some (new :: rest) else (swapList? old new rest).map (slot :: ·)

/-- The kind with `new` in the first slot that holds `old`, if there is one. -/
def replaceChild? (old new : NodeId) : NodeKind → Option NodeKind
  | compilationUnit source types native =>
    (swapList? old new types).map (compilationUnit source · native)
  | typeDecl type members => (swapList? old new members).map (typeDecl type ·)
  | fieldDecl field initial => (swapOption? old new initial).map (fieldDecl field ·)
  | methodDecl method parameters body =>
    (swapOption? old new body).map (methodDecl method parameters ·)
  | block statements => (swapList? old new statements).map block
  | expressionStatement expression => (swap? old new expression).map expressionStatement
  | localVariable var initial => (swapOption? old new initial).map (localVariable var ·)
  | returnStatement value => (swapOption? old new value).map returnStatement
  | ifStatement condition thenBranch elseBranch =>
    ((swap? old new condition).map (ifStatement · thenBranch elseBranch)).or <|
      ((swap? old new thenBranch).map (ifStatement condition · elseBranch)).or <|
        (swapOption? old new elseBranch).map (ifStatement condition thenBranch ·)
  | switchStatement subject statements =>
    ((swap? old new subject).map (switchStatement · statements)).or <|
      (swapList? old new statements).map (switchStatement subject ·)
  | switchCase label => (swapOption? old new label).map switchCase
  | breakStatement => none
  | assignment op target value =>
    ((swap? old new target).map (assignment op · value)).or <|
      (swap? old new value).map (assignment op target ·)
  | simpleName _ _ => none
  | qualifiedName qualifier name =>
    ((swap? old new qualifier).map (qualifiedName · name)).or <|
      (swap? old new name).map (qualifiedName qualifier ·)
  | fieldAccess base name =>
    ((swap? old new base).map (fieldAccess · name)).or <|
      (swap? old new name).map (fieldAccess base ·)
  | methodCall method receiver arguments =>
    ((swapOption? old new receiver).map (methodCall method · arguments)).or <|
      (swapList? old new arguments).map (methodCall method receiver ·)
  | functionCall function arguments =>
    (swapList? old new arguments).map (functionCall function ·)
  | unary op operand => (swap? old new operand).map (unary op ·)
  | step op operand => (swap? old new operand).map (step op ·)
  | binary op left right =>
    ((swap? old new left).map (binary op · right)).or <|
      (swap? old new right).map (binary op left ·)
  | literal _ => none
  | parenthesized inner => (swap? old new inner).map parenthesized
  | thisObject => none

/-- The child whose position a node takes if it is given none of its own. -/
def leadingChild? : NodeKind → Option NodeId
  | expressionStatement expression => some expression
  | parenthesized inner => some inner
  | assignment _ target _ => some target
  | binary _ left _ => some left
  | qualifiedName qualifier _ => some qualifier
  | fieldAccess base _ => some base
  | unary _ operand => some operand
  | step _ operand => some operand
  | _ => none

end NodeKind

structure Node where
  kind : NodeKind
  /-- The node that holds this one; none for the root and for detached nodes. -/
  parent : Option NodeId := none
  span : Span := .synthetic
  /-- The value of the expression must be checked not to be nil. -/
  nilCheck : Bool := false
  deriving DecidableEq, Repr

end ObjectLowering
