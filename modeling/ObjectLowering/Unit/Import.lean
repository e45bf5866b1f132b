import ObjectLowering.SortedSet
import ObjectLowering.Symbol.Binding
import ObjectLowering.Unit.HeaderMap

/-!
# ObjectLowering.Unit.Import

What generated code needs to know of another type, and which headers may be included for it.
Imports are ordered by type name first, so that sets of them print in a stable order.
-/

namespace ObjectLowering

/-- A type that generated code depends on. -/
structure Import where
  typeName : String
  header : String
  isInterface : Bool
  /-- The type is declared in the unit that depends on it. -/
  isLocal : Bool
  hash : TypeHash
  deriving DecidableEq, Repr, Inhabited

namespace Import

instance : Ord Import :=
  ⟨compareLex (compareOn (·.typeName)) <| compareLex (compareOn (·.header)) <|
    compareLex (compareOn (·.isInterface)) <| compareLex (compareOn (·.isLocal)) <|
      compareOn (·.hash)⟩

instance : Std.TransOrd Import :=
  inferInstanceAs (Std.TransCmp (compareLex _ _))

instance : Std.LawfulEqOrd Import where
  eq_of_compare {a b} h := by
    simp only [compare, compareLex, Ordering.then_eq_eq] at h
    obtain ⟨h1, h2, h3, h4, h5⟩ := h
    cases a; cases b
    have e1 := Std.LawfulEqOrd.eq_of_compare (α := String) h1
    have e2 := Std.LawfulEqOrd.eq_of_compare (α := String) h2
    have e3 := Std.LawfulEqOrd.eq_of_compare (α := Bool) h3
    have e4 := Std.LawfulEqOrd.eq_of_compare (α := Bool) h4
    have e5 := Std.LawfulEqOrd.eq_of_compare (α := TypeHash) h5
    simp_all

/-- The dependency on a type of the environment. -/
def ofType (b : TypeBinding) (headers : HeaderMap) (isLocal : Bool) : Import where
  typeName := b.fullName
  header := headers.headerFor b.name
  isInterface := b.isInterface
  isLocal
  hash := b.hash

/-- Announces the type without its declaration. -/
def forwardDeclaration (i : Import) : String :=
  (if i.isInterface then "@protocol " else "@class ") ++ i.typeName ++ ";"

def text (i : Import) : String :=
  i.typeName ++ " (" ++ i.header ++ ")"

end Import

/-- Says of a header whether it may be included. -/
abbrev ImportPolicy := String → Bool

/-- Allows every header that has a name and is not blocked. -/
def ImportPolicy.blocking (blocked : List String) : ImportPolicy :=
  fun header => header ≠ "" && !blocked.contains header

end ObjectLowering
