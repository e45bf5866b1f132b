import ObjectLowering.Lowering.StaticAccess
import ObjectLowering.Text.Quoted

/-!
# ObjectLowering.Lowering.Pipeline

Passes over a tree, and pipelines of them. The passes of a pipeline run in order, and the first
failure ends the run. The tree keeps what the passes did until then.
-/

namespace ObjectLowering

inductive PassError where
  | structural (pass : String) (cause : TreeError)
  | failed (pass message : String) (span : Span)
  deriving DecidableEq, Repr, Inhabited

namespace PassError

def message : PassError → String
  | structural pass cause => "pass '" ++ pass ++ "': " ++ cause.message
  | failed pass message span => "pass '" ++ pass ++ "' at " ++ span.text ++ ": " ++ message

def span : PassError → Span
  | structural _ cause => cause.span
  | failed _ _ span => span

end PassError

/-- A change of whole trees. A run gives the tree, also after a failure, and the number of
expressions replaced. -/
structure Pass where
  name : String
  run : Environment → Tree → Tree × Except PassError Nat

namespace Pass

/-- Routes accesses to static fields of other types through accessors. -/
def staticAccess : Pass where
  name := "static-access"
  run env t :=
    let (t, outcome) := StaticAccess.run env t
    (t, outcome.mapError (.structural "static-access"))

end Pass

/-- What one pass did to one tree. -/
structure PassRun where
  pass : String
  replacements : Nat
  deriving DecidableEq, Repr

structure Pipeline where
  passes : List Pass

namespace Pipeline

/-- The passes that are run where no others are asked for. -/
def standard : Pipeline := ⟨[.staticAccess]⟩

def names (p : Pipeline) : List String :=
  p.passes.map (·.name)

def debugText (p : Pipeline) : String :=
  Text.quotedList p.names

/-- Runs passes in order until one fails. -/
def runPasses (env : Environment) : List Pass → Tree → Tree × Except PassError (List PassRun)
  | [], t => (t, .ok [])
  | pass :: rest, t =>
    match pass.run env t with
    | (t, .error e) => (t, .error e)
    | (t, .ok replacements) =>
      let (t, outcome) := runPasses env rest t
      (t, outcome.map ({ pass := pass.name, replacements } :: ·))

def run (p : Pipeline) (env : Environment) (t : Tree) : Tree × Except PassError (List PassRun) :=
  runPasses env p.passes t

end Pipeline

end ObjectLowering
