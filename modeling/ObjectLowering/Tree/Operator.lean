/-!
# ObjectLowering.Tree.Operator

Operators of expressions with their spelling, which is the same in the source and in generated
code, and the precedence of the binary ones.

* `ofSpelling?_spelling`: within one class of operators the spelling determines the operator.
-/

namespace ObjectLowering

/-- Operators between two operands, from the loosest to the tightest. -/
inductive BinaryOp where
  | logicalOr
  | logicalAnd
  | bitOr
  | bitXor
  | bitAnd
  | equal
  | notEqual
  | less
  | lessEqual
  | greater
  | greaterEqual
  | shiftLeft
  | shiftRight
  | add
  | subtract
  | multiply
  | divide
  | remainder
  deriving DecidableEq, Repr, Inhabited

namespace BinaryOp

def all : List BinaryOp :=
  [.logicalOr, .logicalAnd, .bitOr, .bitXor, .bitAnd, .equal, .notEqual, .less, .lessEqual,
    .greater, .greaterEqual, .shiftLeft, .shiftRight, .add, .subtract, .multiply, .divide,
    .remainder]

def spelling : BinaryOp → String
  | logicalOr => "||"
  | logicalAnd => "&&"
  | bitOr => "|"
  | bitXor => "^"
  | bitAnd => "&"
  | equal => "=="
  | notEqual => "!="
  | less => "<"
  | lessEqual => "<="
  | greater => ">"
  | greaterEqual => ">="
  | shiftLeft => "<<"
  | shiftRight => ">>"
  | add => "+"
  | subtract => "-"
  | multiply => "*"
  | divide => "/"
  | remainder => "%"

/-- The higher, the tighter the operator binds. -/
def precedence : BinaryOp → Nat
  | logicalOr => 3
  | logicalAnd => 4
  | bitOr => 5
  | bitXor => 6
  | bitAnd => 7
  | equal | notEqual => 8
  | less | lessEqual | greater | greaterEqual => 9
  | shiftLeft | shiftRight => 10
  | add | subtract => 11
  | multiply | divide | remainder => 12

def isComparison : BinaryOp → Bool
  | equal | notEqual | less | lessEqual | greater | greaterEqual => true
  | _ => false

def ofSpelling? (text : String) : Option BinaryOp :=
  all.find? (·.spelling = text)

theorem ofSpelling?_spelling (op : BinaryOp) : ofSpelling? op.spelling = some op := by
  cases op <;> decide

end BinaryOp

inductive UnaryOp where
  | negate
  | plus
  | logicalNot
  | bitNot
  | increment
  | decrement
  | dereference
  deriving DecidableEq, Repr, Inhabited

namespace UnaryOp

def all : List UnaryOp :=
  [.negate, .plus, .logicalNot, .bitNot, .increment, .decrement, .dereference]

def spelling : UnaryOp → String
  | negate => "-"
  | plus => "+"
  | logicalNot => "!"
  | bitNot => "~"
  | increment => "++"
  | decrement => "--"
  | dereference => "*"

/-- The operator changes its operand. -/
def isStep : UnaryOp → Bool
  | increment | decrement => true
  | _ => false

def ofSpelling? (text : String) : Option UnaryOp :=
  all.find? (·.spelling = text)

theorem ofSpelling?_spelling (op : UnaryOp) : ofSpelling? op.spelling = some op := by
  cases op <;> decide

end UnaryOp

/-- Operators after their operand. Both change it. -/
inductive StepOp where
  | increment
  | decrement
  deriving DecidableEq, Repr, Inhabited

namespace StepOp

def all : List StepOp := [.increment, .decrement]

def spelling : StepOp → String
  | increment => "++"
  | decrement => "--"

def ofSpelling? (text : String) : Option StepOp :=
  all.find? (·.spelling = text)

theorem ofSpelling?_spelling (op : StepOp) : ofSpelling? op.spelling = some op := by
  cases op <;> decide

end StepOp

/-- Assignment, alone or combined with a binary operator. -/
inductive AssignOp where
  | assign
  | add
  | subtract
  | multiply
  | divide
  | remainder
  | bitAnd
  | bitOr
  | bitXor
  | shiftLeft
  | shiftRight
  deriving DecidableEq, Repr, Inhabited

namespace AssignOp

def all : List AssignOp :=
  [.assign, .add, .subtract, .multiply, .divide, .remainder, .bitAnd, .bitOr, .bitXor,
    .shiftLeft, .shiftRight]

def spelling : AssignOp → String
  | assign => "="
  | add => "+="
  | subtract => "-="
  | multiply => "*="
  | divide => "/="
  | remainder => "%="
  | bitAnd => "&="
  | bitOr => "|="
  | bitXor => "^="
  | shiftLeft => "<<="
  | shiftRight => ">>="

/-- The operator does not read its left side. -/
def isSimple (op : AssignOp) : Bool :=
  op = .assign

def ofSpelling? (text : String) : Option AssignOp :=
  all.find? (·.spelling = text)

theorem ofSpelling?_spelling (op : AssignOp) : ofSpelling? op.spelling = some op := by
  cases op <;> decide

end AssignOp

end ObjectLowering
