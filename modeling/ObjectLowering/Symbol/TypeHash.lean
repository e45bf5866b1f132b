import ObjectLowering.Text.Numeral
import ObjectLowering.Text.XXH64

/-!
# ObjectLowering.Symbol.TypeHash

Identity of declared types and fields: 64-bit numbers that depend on names only, so that trees,
lowering and generation agree on a type without sharing a table of them.
-/

namespace ObjectLowering

structure TypeHash where
  value : UInt64
  deriving DecidableEq, Repr, Inhabited

instance : Ord TypeHash := ⟨compareOn (·.value)⟩

instance : Std.TransOrd TypeHash :=
  inferInstanceAs (Std.TransCmp (compareOn _))

instance : Std.LawfulEqOrd TypeHash where
  eq_of_compare {a b} h := by
    cases a; cases b
    exact congrArg _ (Std.LawfulEqOrd.eq_of_compare (α := UInt64) h)

namespace TypeHash

/-- The identity that no type has. -/
def empty : TypeHash := ⟨0⟩

/-- The mark that sets types apart from fields of the same name. -/
def typeMark : UInt64 := 0x2fac10b63a6cc57c

def fieldMark : UInt64 := 0x7d3c8b4a92e15f6d

/-- Spreads a field's own digest before its owner is added. -/
def separator : UInt64 := 0x4bc94d6bd06053ad

def ofName (name : String) : TypeHash :=
  ⟨typeMark ^^^ Text.XXH64.digestString name⟩

def ofField (owner : TypeHash) (name : String) : TypeHash :=
  ⟨(fieldMark ^^^ Text.XXH64.digestString name) * separator + owner.value⟩

def isEmpty (h : TypeHash) : Bool :=
  h.value = 0

/-- `0x` and sixteen hexadecimal digits. -/
def text (h : TypeHash) : String :=
  Text.Numeral.hex 16 h.value.toNat

/-- The text with the name of the kind of number, for reports to developers. -/
def debugText (h : TypeHash) : String :=
  "TypeHash(" ++ h.text ++ ")"

end TypeHash

end ObjectLowering
