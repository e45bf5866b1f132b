import ObjectLowering.Lowering.Pipeline
import ObjectLowering.Unit.Error

/-!
# ObjectLowering.Batch.Failure

Everything that can go wrong with a unit, and units that were given up because of it.
-/

namespace ObjectLowering

inductive UnitError where
  | registration (cause : RegistrationError)
  | tree (cause : TreeError)
  | pass (cause : PassError)
  | generation (cause : GenerationError)
  deriving DecidableEq, Repr, Inhabited

namespace UnitError

def message : UnitError → String
  | registration cause => cause.message
  | tree cause => cause.message
  | pass cause => cause.message
  | generation cause => cause.message

/-- The position of the error; a registration has none. -/
def span : UnitError → Span
  | registration _ => .synthetic
  | tree cause => cause.span
  | pass cause => cause.span
  | generation cause => cause.span

end UnitError

/-- A unit that was given up. -/
structure UnitFailure where
  unit : String
  errors : List UnitError
  deriving DecidableEq, Repr, Inhabited

namespace UnitFailure

/-- The unit and all its errors in one line. -/
def text (f : UnitFailure) : String :=
  f.unit ++ ": " ++ "; ".intercalate (f.errors.map (·.message))

end UnitFailure

end ObjectLowering
