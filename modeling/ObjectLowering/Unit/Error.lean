import ObjectLowering.Tree.Error

/-!
# ObjectLowering.Unit.Error

Why no unit can be generated from a set of trees.
-/

namespace ObjectLowering

inductive GenerationError where
  /-- A type is among its own supertypes. -/
  | cyclicSupertypes (name : String) (span : Span)
  /-- A declaration is of a type that the environment does not know. -/
  | unknownType (hash : TypeHash) (span : Span)
  /-- A declaration does not say of which type it is. -/
  | missingTypeBinding (span : Span)
  | structural (cause : TreeError)
  deriving DecidableEq, Repr, Inhabited

namespace GenerationError

def message : GenerationError → String
  | cyclicSupertypes name span =>
    "at " ++ span.text ++ ": cyclic supertype chain through '" ++ name ++ "'"
  | unknownType hash span => "at " ++ span.text ++ ": unknown type " ++ hash.text
  | missingTypeBinding span => "at " ++ span.text ++ ": type declaration has no binding"
  | structural cause => cause.message

def span : GenerationError → Span
  | cyclicSupertypes _ span | unknownType _ span | missingTypeBinding span => span
  | structural cause => cause.span

def ofTree {α : Type} (outcome : Except TreeError α) : Except GenerationError α :=
  outcome.mapError structural

end GenerationError

end ObjectLowering
