/-!
# ObjectLowering.Text.CharClass

Classes of characters as the Unicode standard, version 17, lists them: by ranges of code points.

* `contains`: whether a character is in a class.
* `isOrdered`, `size`: what a table is checked for. Its ranges ascend with gaps between them, and
  hold as many code points as the standard gives to the class.
-/

namespace ObjectLowering.Text

/-- A class of characters, by the first and last code points of its ranges. -/
structure CharClass where
  ranges : List (Nat × Nat)

namespace CharClass

def contains (k : CharClass) (c : Char) : Bool :=
  k.ranges.any fun (first, last) => first ≤ c.toNat && c.toNat ≤ last

/-- The ranges ascend, and no two of them touch. -/
def isOrdered (k : CharClass) : Bool :=
  k.ranges.all (fun (first, last) => first ≤ last)
    && (k.ranges.zip k.ranges.tail).all fun (low, high) => low.2 + 1 < high.1

def size (k : CharClass) : Nat :=
  k.ranges.foldl (fun n (first, last) => n + (last + 1 - first)) 0

end CharClass

end ObjectLowering.Text
