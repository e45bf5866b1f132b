/-!
# ObjectLowering.Text.Numeral

Numerals of a fixed number of digits, as escapes, hash texts and character constants use them:
the low digits of a number in a base up to sixteen, most significant first, lower case.

* `length_fixed`: a numeral has exactly the digits asked for.
-/

namespace ObjectLowering.Text.Numeral

/-- The `width` low digits of `n`, most significant first. -/
def fixed (base : Nat) : Nat → Nat → List Char
  | 0, _ => []
  | width + 1, n => fixed base width (n / base) ++ [Nat.digitChar (n % base)]

@[simp] theorem length_fixed (base width n : Nat) : (fixed base width n).length = width := by
  induction width generalizing n with
  | zero => rfl
  | succ width ih => simp [fixed, ih]

def hex (width n : Nat) : String :=
  "0x" ++ String.ofList (fixed 16 width n)

example : fixed 8 3 0x85 = ['2', '0', '5'] := by decide
example : fixed 16 4 0xe9 = ['0', '0', 'e', '9'] := by decide

end ObjectLowering.Text.Numeral
