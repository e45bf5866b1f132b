/-!
# ObjectLowering.Span

Positions in a source file. Nodes that were made during lowering have none: their line is zero.
-/

namespace ObjectLowering

/-- A stretch of one source line. Lines and columns count from one. -/
structure Span where
  line : Nat := 0
  column : Nat := 0
  length : Nat := 0
  deriving DecidableEq, Repr, Inhabited

namespace Span

def synthetic : Span := {}

def isSynthetic (s : Span) : Bool :=
  s.line = 0

def text (s : Span) : String :=
  toString s.line ++ ":" ++ toString s.column

end Span

end ObjectLowering
