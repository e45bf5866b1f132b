import ObjectLowering.Number.Binary64

/-!
# ObjectLowering.Number.Shortest

The shortest decimal that reads back as a given binary number, in exact arithmetic.

The reals that round to `significand * 2 ^ exponent` form an interval, which holds its ends
exactly if the significand is even. A decimal grid is the set of multiples of a power of ten. The
coarsest grid with a point in that interval gives the fewest digits, and if a point of a grid lies
in the interval then so does one of the two grid points beside the number. Of two such points the
nearer is taken, and the upper one if they are equally near.
-/

namespace ObjectLowering.Number

/-- A decimal number `digits * 10 ^ exponent`. -/
structure Decimal where
  digits : Nat
  exponent : Int
  deriving DecidableEq, Repr

namespace Shortest

/-- The binary number to be written, with the distance to its neighbour below. -/
structure Source where
  significand : Nat
  exponent : Int
  narrowBelow : Bool

/-- The power of a base with an exponent that may be negative, as numerator and denominator. -/
def power (base : Nat) (exponent : Int) : Nat × Nat :=
  (Nat.pow base exponent.toNat, Nat.pow base (-exponent).toNat)

/-- The digits of the point nearest to the number on the grid of `10 ^ exponent`, among its two
neighbours that read back. Everything is counted in quarters of the number's last place, where
half the distance to a neighbour is two quarters, or one below a power of two. -/
def onGrid? (x : Source) (exponent : Int) : Option Nat :=
  let binary := power 2 (x.exponent - 2)
  let decimal := power 10 exponent
  let step := decimal.1 * binary.2
  let quarters (n : Nat) : Nat := n * binary.1 * decimal.2
  let number := quarters (4 * x.significand)
  let least := quarters (4 * x.significand - if x.narrowBelow then 1 else 2)
  let most := quarters (4 * x.significand + 2)
  let readsBack (point : Nat) : Bool :=
    if x.significand % 2 = 0 then least ≤ point ∧ point ≤ most else least < point ∧ point < most
  let below := number / step
  match readsBack (below * step), readsBack ((below + 1) * step) with
  | true, true => some (if step ≤ 2 * (number - below * step) then below + 1 else below)
  | true, false => some below
  | false, true => some (below + 1)
  | false, false => none

/-- The largest power of ten that any number in the format reaches. -/
def coarsest : Int := 309

/-- The number of grids down to the one on which every number of the format lies. -/
def gridCount : Nat := 1384

/-- The shortest decimal that reads back as `x`. -/
def decimal (x : Source) : Decimal :=
  ((List.range gridCount).findSome? fun (i : Nat) =>
    let exponent := coarsest - (i : Int)
    (onGrid? x exponent).map fun digits => ⟨digits, exponent⟩).getD ⟨x.significand, x.exponent⟩

example : decimal ⟨3, -1, false⟩ = ⟨15, -1⟩ := by decide +kernel

end Shortest

namespace Decimal

def digitChars (d : Decimal) : List Char :=
  Nat.toDigits 10 d.digits

def leadingExponent (d : Decimal) : Int :=
  d.digitChars.length + d.exponent - 1

/-- Without an exponent, and with at least one digit on either side of the point. -/
def positional (d : Decimal) : List Char :=
  let digits := d.digitChars
  let whole := d.leadingExponent + 1
  if 0 ≤ d.exponent then
    digits ++ List.replicate d.exponent.toNat '0' ++ ['.', '0']
  else if 0 < whole then
    digits.take whole.toNat ++ '.' :: digits.drop whole.toNat
  else
    '0' :: '.' :: List.replicate (-whole).toNat '0' ++ digits

/-- One digit, a point and the others if there are any, and the exponent. -/
def scientific (d : Decimal) : List Char :=
  let mantissa := match d.digitChars with
    | first :: rest => first :: if rest = [] then [] else '.' :: rest
    | [] => []
  mantissa ++ 'e' :: (toString d.leadingExponent).toList

end Decimal

end ObjectLowering.Number
