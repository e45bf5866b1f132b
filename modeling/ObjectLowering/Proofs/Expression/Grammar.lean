import ObjectLowering.Proofs.Text.Separated
import ObjectLowering.Tree.Operator

/-!
# ObjectLowering.Proofs.Expression.Grammar

The expressions of C, as its grammar derives them from tokens.

* `Expression`: an expression by its structure. Parentheses leave no trace in it.
* `assignmentOperators`, `binaryOperators`, `prefixOperators`, `stepOperators`: the tokens of the
  operators. A binary operator has one of ten levels, from the loosest to the tightest.
* `Derives`: the tokens are an expression of a level. Level 0 is assignment, to the right; levels
  1 to 10 are the binary operators, to the left; then come prefix operators, postfix operators with
  calls, and words, numbers and parentheses.
* `Derives.of_le`: an expression of a tighter level is one of every looser level.
* `BinaryOp.lookup_spelling`, `BinaryOp.isMark_spelling` and the same for the other operators: their
  spellings are the tokens of the grammar, and end where the renderer writes something else.
-/

namespace ObjectLowering

abbrev Token := List Char

inductive Expression where
  | name (word : Token)
  | self
  | number (value : Nat)
  | call (function : Expression) (arguments : List Expression)
  | unary (op : UnaryOp) (operand : Expression)
  | step (op : StepOp) (operand : Expression)
  | binary (op : BinaryOp) (left right : Expression)
  | assignment (op : AssignOp) (target value : Expression)

/-- The word for the object itself is the only one with a meaning of its own. -/
def Expression.ofWord (word : Token) : Expression :=
  if word = "self".toList then .self else .name word

namespace Grammar

def assignmentOperators : List (Token × AssignOp) :=
  [("=", .assign), ("*=", .multiply), ("/=", .divide), ("%=", .remainder), ("+=", .add),
    ("-=", .subtract), ("<<=", .shiftLeft), (">>=", .shiftRight), ("&=", .bitAnd), ("^=", .bitXor),
    ("|=", .bitOr)].map fun (token, op) => (token.toList, op)

def binaryOperators : List (Token × Nat × BinaryOp) :=
  [("||", 1, .logicalOr), ("&&", 2, .logicalAnd), ("|", 3, .bitOr), ("^", 4, .bitXor),
    ("&", 5, .bitAnd), ("==", 6, .equal), ("!=", 6, .notEqual), ("<", 7, .less), (">", 7, .greater),
    ("<=", 7, .lessEqual), (">=", 7, .greaterEqual), ("<<", 8, .shiftLeft), (">>", 8, .shiftRight),
    ("+", 9, .add), ("-", 9, .subtract), ("*", 10, .multiply), ("/", 10, .divide),
    ("%", 10, .remainder)].map fun (token, level, op) => (token.toList, level, op)

def prefixOperators : List (Token × UnaryOp) :=
  [("++", .increment), ("--", .decrement), ("*", .dereference), ("+", .plus), ("-", .negate),
    ("~", .bitNot), ("!", .logicalNot)].map fun (token, op) => (token.toList, op)

def stepOperators : List (Token × StepOp) :=
  [("++", .increment), ("--", .decrement)].map fun (token, op) => (token.toList, op)

def opening : Token := ['(']

def closing : Token := [')']

def comma : Token := [',']

/-- The value of a decimal integer, which begins with a zero only if it is one. -/
def integer? (token : Token) : Option Nat :=
  let digits := token.takeWhile Char.isDigit
  if (digits = ['0'] ∨ digits.head?.any (· ≠ '0')) ∧
      [[], ['L', 'L']].contains (token.dropWhile Char.isDigit) then
    some (Nat.ofDigitChars 10 digits 0)
  else none

example : integer? "42LL".toList = some 42 ∧ integer? "042".toList = none := by decide

theorem isDigit_of_integer? {c : Char} {text : Token} {value : Nat}
    (h : integer? (c :: text) = some value) : c.isDigit = true := by
  by_cases hdigit : c.isDigit = true
  · exact hdigit
  · rw [integer?, List.takeWhile_cons_of_neg hdigit] at h
    simp at h

inductive Derives : Nat → List Token → Expression → Prop where
  | assignment {target value : Expression} {ts us : List Token} {token : Token} {op : AssignOp} :
    Derives 11 ts target → assignmentOperators.lookup token = some op → Derives 0 us value →
      Derives 0 (ts ++ token :: us) (.assignment op target value)
  | binary {level : Nat} {left right : Expression} {ts us : List Token} {token : Token}
    {op : BinaryOp} :
    Derives level ts left → binaryOperators.lookup token = some (level, op) →
      Derives (level + 1) us right → Derives level (ts ++ token :: us) (.binary op left right)
  | unary {operand : Expression} {ts : List Token} {token : Token} {op : UnaryOp} :
    prefixOperators.lookup token = some op → Derives 11 ts operand →
      Derives 11 (token :: ts) (.unary op operand)
  | step {operand : Expression} {ts : List Token} {token : Token} {op : StepOp} :
    Derives 12 ts operand → stepOperators.lookup token = some op →
      Derives 12 (ts ++ [token]) (.step op operand)
  | call {function : Expression} {ts : List Token} {arguments : List (List Token × Expression)} :
    Derives 12 ts function → (∀ a ∈ arguments, Derives 0 a.1 a.2) →
      Derives 12 (ts ++ opening :: ([comma].intercalate (arguments.map Prod.fst) ++ [closing]))
        (.call function (arguments.map Prod.snd))
  | word {word : Token} : Text.Lexical.isIdentifier word = true → Derives 13 [word] (.ofWord word)
  | number {token : Token} {value : Nat} :
    integer? token = some value → Derives 13 [token] (.number value)
  | parenthesized {e : Expression} {ts : List Token} :
    Derives 0 ts e → Derives 13 (opening :: (ts ++ [closing])) e
  | looser {level : Nat} {e : Expression} {ts : List Token} :
    Derives (level + 1) ts e → Derives level ts e

theorem Derives.of_le {level looser : Nat} {e : Expression} {ts : List Token}
    (h : Derives level ts e) (hle : looser ≤ level) : Derives looser ts e := by
  induction level with
  | zero => exact Nat.le_zero.1 hle ▸ h
  | succ level ih =>
    rcases Nat.lt_or_eq_of_le hle with hlt | rfl
    · exact ih h.looser (Nat.le_of_lt_succ hlt)
    · exact h

end Grammar

/-! ## The spellings of the operators -/

open Grammar Text.Lexical

theorem BinaryOp.lookup_spelling (op : BinaryOp) :
    binaryOperators.lookup op.spelling.toList = some (op.precedence - 2, op) := by
  cases op <;> decide

theorem AssignOp.lookup_spelling (op : AssignOp) :
    assignmentOperators.lookup op.spelling.toList = some op := by
  cases op <;> decide

theorem UnaryOp.lookup_spelling (op : UnaryOp) :
    prefixOperators.lookup op.spelling.toList = some op := by
  cases op <;> decide

theorem StepOp.lookup_spelling (op : StepOp) :
    stepOperators.lookup op.spelling.toList = some op := by
  cases op <;> decide

/-- The spelling is a token that may stand between blanks. -/
theorem BinaryOp.isMark_spelling (op : BinaryOp) : isMark op.spelling.toList = true ∧
    isToken op.spelling.toList = true ∧ ' ' ∉ extensions op.spelling.toList := by
  cases op <;> decide

theorem AssignOp.isMark_spelling (op : AssignOp) : isMark op.spelling.toList = true ∧
    isToken op.spelling.toList = true ∧ ' ' ∉ extensions op.spelling.toList := by
  cases op <;> decide

/-- The spelling is a token that ends before a word and before an opening parenthesis. -/
theorem UnaryOp.isMark_spelling (op : UnaryOp) : isMark op.spelling.toList = true ∧
    isToken op.spelling.toList = true ∧
      ∀ c ∈ extensions op.spelling.toList, isWordChar c = false ∧ c ≠ '(' := by
  have hall : (extensions op.spelling.toList).all (fun c => !isWordChar c && c != '(') = true := by
    cases op <;> decide
  refine ⟨by cases op <;> decide, by cases op <;> decide, fun c hc => ?_⟩
  simpa using List.all_eq_true.1 hall c hc

/-- The spelling is a token that ends what stands before it, and that nothing continues. -/
theorem StepOp.isMark_spelling (op : StepOp) : isMark op.spelling.toList = true ∧
    isToken op.spelling.toList = true ∧ extensions op.spelling.toList = [] ∧
      ∀ c ∈ op.spelling.toList.head?, c ∈ separators := by
  have hall : op.spelling.toList.head?.all separators.contains = true := by
    cases op <;> decide
  refine ⟨by cases op <;> decide, by cases op <;> decide, by cases op <;> decide, fun c hc => ?_⟩
  exact List.contains_iff_mem.1 ((Option.all_eq_true ..).1 hall c hc)

end ObjectLowering
