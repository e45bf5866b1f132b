/-!
# ObjectLowering.Number.Binary64

Double-precision numbers by their IEEE 754 bits. A finite number is a significand times a power
of two, which is all that its decimal text depends on.

* `value`: what the bits stand for.
* `same`: equality of numbers. The zeros are one number and not-a-number equals nothing.
-/

namespace ObjectLowering.Number

structure Binary64 where
  bits : UInt64
  deriving DecidableEq, Repr

namespace Binary64

/-- What the bits of a number stand for. -/
inductive Value where
  | notANumber
  | infinite (negative : Bool)
  | zero (negative : Bool)
  | finite (negative : Bool) (significand : Nat) (exponent : Int)
  deriving DecidableEq, Repr

def isNegative (x : Binary64) : Bool :=
  x.bits >>> 63 = 1

/-- The eleven bits of the biased exponent. -/
def exponentField (x : Binary64) : Nat :=
  (x.bits >>> 52 &&& 0x7ff).toNat

/-- The fifty-two bits of the fraction. -/
def fraction (x : Binary64) : Nat :=
  (x.bits &&& 0xfffffffffffff).toNat

def value (x : Binary64) : Value :=
  if x.exponentField = 0x7ff then
    if x.fraction = 0 then .infinite x.isNegative else .notANumber
  else if x.exponentField = 0 then
    if x.fraction = 0 then .zero x.isNegative else .finite x.isNegative x.fraction (-1074)
  else
    .finite x.isNegative (0x10000000000000 + x.fraction) (x.exponentField - 1075)

/-- The number below is only half as far away as the number above: the significand is a power of
two, and the exponent can still shrink. -/
def narrowBelow (x : Binary64) : Bool :=
  x.fraction = 0 ∧ 1 < x.exponentField

def same (x y : Binary64) : Bool :=
  match x.value, y.value with
  | .notANumber, _ => false
  | _, .notANumber => false
  | .zero _, .zero _ => true
  | _, _ => x.bits = y.bits

end Binary64

end ObjectLowering.Number
