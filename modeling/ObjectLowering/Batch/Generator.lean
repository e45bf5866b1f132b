import ObjectLowering.Batch.Failure
import ObjectLowering.Batch.SourceHeaders
import ObjectLowering.Report
import ObjectLowering.Unit.Emitted

/-!
# ObjectLowering.Batch.Generator

From a batch of source files to their output files. The sources are grouped into units, and every
unit is lowered, generated and emitted on its own. A unit that fails is reported and leaves the
others alone; results stand in the order of the units.

* `Generator.lower`: runs the passes over the trees of a unit. Every tree is tried, so that all
  failures of a unit are reported together.
* `Generator.runUnit`: one unit, with what there is to say about it.
* `Generator.run`: the whole batch.
-/

namespace ObjectLowering

/-- The texts of one unit. -/
structure GeneratedOutput where
  sourceName : String
  outputPath : String
  header : String
  implementation : String
  deriving DecidableEq, Repr

namespace GeneratedOutput

def headerPath (o : GeneratedOutput) : String :=
  o.outputPath ++ ".h"

def implementationPath (o : GeneratedOutput) : String :=
  o.outputPath ++ ".m"

end GeneratedOutput

/-- What came of one unit. -/
structure UnitResult where
  output : Except UnitFailure GeneratedOutput
  report : Report

/-- What came of a batch, in the order of its units. -/
structure BatchOutput where
  outputs : List GeneratedOutput
  failures : List UnitFailure
  report : Report

namespace BatchOutput

def isSuccess (o : BatchOutput) : Bool :=
  o.failures.isEmpty

def output? (o : BatchOutput) (outputPath : String) : Option GeneratedOutput :=
  o.outputs.find? (·.outputPath = outputPath)

def ofUnits (results : List UnitResult) : BatchOutput where
  outputs := results.filterMap fun r => match r.output with
    | .ok output => some output
    | .error _ => none
  failures := results.filterMap fun r => match r.output with
    | .ok _ => none
    | .error failure => some failure
  report := results.foldl (fun report r => report.append r.report) .empty

end BatchOutput

/-- How batches are treated. -/
structure Generator where
  env : Environment
  options : Options := {}
  pipeline : Pipeline := .standard
  policy : ImportPolicy := .blocking []

namespace Generator

/-- What the passes made of the trees of a unit. -/
structure Lowered where
  trees : List Tree
  replacements : Nat
  failures : List (SourceInput × PassError)

def lowerNext (t : Generator) (done : Lowered) (input : SourceInput) : Lowered :=
  match t.pipeline.run t.env input.tree with
  | (tree, .ok runs) =>
    { done with
      trees := done.trees ++ [tree]
      replacements := runs.foldl (fun n run => n + run.replacements) done.replacements }
  | (tree, .error e) =>
    { done with
      trees := done.trees ++ [tree]
      failures := done.failures ++ [(input, e)] }

def lower (t : Generator) (members : List SourceInput) : Lowered :=
  members.foldl t.lowerNext ⟨[], 0, []⟩

def unitMessage (plan : UnitPlan) (severity : Severity) (message : String) (span : Span) :
    Diagnostic :=
  { severity, message, source := some plan.sourceName, span }

/-- The error messages of the passes, each at the file in which it arose. -/
def passMessages (failures : List (SourceInput × PassError)) : List Diagnostic :=
  failures.map fun (input, e) =>
    { severity := .error, message := e.message, source := some input.sourceName, span := e.span }

/-- Says which passes ran and how much they did. -/
def passSummary (t : Generator) (plan : UnitPlan) (replacements : Nat) : Diagnostic :=
  unitMessage plan .info
    ("ran passes [" ++ ", ".intercalate t.pipeline.names ++ "]: " ++ toString replacements
      ++ " rewrite(s)") .synthetic

/-- Says how many strings were pooled, if there are any. -/
def poolSummary (plan : UnitPlan) (strings : StringPool) : List Diagnostic :=
  if strings.isEmpty then []
  else
    [unitMessage plan .info ("pooled " ++ toString strings.size ++ " string constant(s)")
      .synthetic]

/-- Warns of every header that had to be left out. -/
def importWarnings (plan : UnitPlan) (unimportable : SortedSet String) : List Diagnostic :=
  unimportable.toList.map fun header =>
    unitMessage plan .warning ("cannot import \"" ++ header ++ "\"; include omitted") .synthetic

def abandon (plan : UnitPlan) (errors : List UnitError) (messages : List Diagnostic) :
    UnitResult :=
  ⟨.error ⟨plan.sourceName, errors⟩, .ofList messages⟩

/-- Generates and emits a unit from trees that have been lowered. -/
def emitUnit (t : Generator) (plan : UnitPlan) (lowered : Lowered) (headers : HeaderMap) :
    UnitResult :=
  let summary := t.passSummary plan lowered.replacements
  match GenerationUnit.build plan lowered.trees t.env t.options headers with
  | .error e =>
    abandon plan [.generation e] [summary, unitMessage plan .error e.message e.span]
  | .ok u =>
    let emitted := u.emit t.options t.policy
    { output := .ok {
        sourceName := u.sourceName
        outputPath := u.outputPath
        header := emitted.header
        implementation := emitted.implementation }
      report := .ofList
        (summary :: poolSummary plan u.strings ++ importWarnings plan emitted.unimportable) }

def runUnit (t : Generator) (headers : HeaderMap) (plan : UnitPlan)
    (members : List SourceInput) : UnitResult :=
  let lowered := t.lower members
  if lowered.failures = [] then
    t.emitUnit plan lowered headers
  else
    abandon plan (lowered.failures.map fun (_, e) => .pass e) (passMessages lowered.failures)

/-- Lowers, generates and emits the units of a batch of source files. -/
def run (t : Generator) (inputs : List SourceInput) : BatchOutput :=
  let plans := planUnits (inputs.map (·.sourceName)) t.options.unitGrouping
  let headers := headerMap inputs plans t.env t.options
  .ofUnits <| plans.map fun plan =>
    t.runUnit headers plan (plan.members.filterMap (inputs[·]?))

end Generator

end ObjectLowering
