import ObjectLowering.Number.Shortest
import ObjectLowering.Text.Numeral

/-!
# ObjectLowering.Symbol.Constant

Values of primitive constants and their text in C.

* `intLiteral`: decimal, with `LL` outside the range of a 32-bit integer. The least value is
  written as a difference, because C reads a minus sign as an operator and its absolute value does
  not fit.
* `doubleLiteral`: the shortest decimal that reads back, or a macro of `math.h`.
-/

namespace ObjectLowering

/-- The value of a compile-time constant of primitive type. -/
inductive ConstantValue where
  | bool (value : Bool)
  | int (value : Int64)
  | char (unit : UInt16)
  | double (value : Number.Binary64)
  deriving DecidableEq, Repr

def intLiteral (value : Int64) : String :=
  let v := value.toInt
  if value = Int64.minValue then "(-0x7fffffffffffffffLL - 1)"
  else if Int32.minValue.toInt ≤ v ∧ v ≤ Int32.maxValue.toInt then toString v
  else toString v ++ "LL"

/-- Powers of ten from `10 ^ -4` to `10 ^ 15` are written positionally, all others with an
exponent. -/
def isPositional (leadingExponent : Int) : Bool :=
  -4 ≤ leadingExponent ∧ leadingExponent ≤ 15

/-- Decimal text of a positive number, with a point or an exponent. -/
def decimalText (d : Number.Decimal) : String :=
  String.ofList (if isPositional d.leadingExponent then d.positional else d.scientific)

def doubleLiteral (x : Number.Binary64) : String :=
  let signed (negative : Bool) (text : String) : String := if negative then "-" ++ text else text
  match x.value with
  | .notANumber => "NAN"
  | .infinite negative => signed negative "INFINITY"
  | .zero negative => signed negative "0.0"
  | .finite negative significand exponent =>
    signed negative (decimalText (Number.Shortest.decimal ⟨significand, exponent, x.narrowBelow⟩))

def charNumber (unit : UInt16) : String :=
  Text.Numeral.hex 4 unit.toNat

namespace ConstantValue

def text : ConstantValue → String
  | bool value => if value then "true" else "false"
  | int value => intLiteral value
  | char unit => charNumber unit
  | double value => doubleLiteral value

/-- Equality as values: the two zeros are equal, and not-a-number differs from itself. -/
def same : ConstantValue → ConstantValue → Bool
  | bool x, bool y => x = y
  | int x, int y => x = y
  | char x, char y => x = y
  | double x, double y => x.same y
  | _, _ => false

end ConstantValue

end ObjectLowering
