import ObjectLowering.Span

/-!
# ObjectLowering.Report

Messages about the generation of units, in the order in which they arose.

* `Diagnostic.text`: the source, the position and the severity stand before the message, each only
  if it is known.
* `hasErrors_ofList`: a report built by adding knows whether it holds an error.
-/

namespace ObjectLowering

inductive Severity where
  | error
  | warning
  | info
  deriving DecidableEq, Repr, Inhabited

namespace Severity

def text : Severity → String
  | error => "error"
  | warning => "warning"
  | info => "info"

end Severity

structure Diagnostic where
  severity : Severity
  message : String
  source : Option String := none
  span : Span := .synthetic
  deriving DecidableEq, Repr, Inhabited

namespace Diagnostic

def text (d : Diagnostic) : String :=
  let source := match d.source with
    | some source => source ++ ":" ++ if d.span.isSynthetic then " " else ""
    | none => ""
  let place := if d.span.isSynthetic then "" else d.span.text ++ ": "
  source ++ place ++ d.severity.text ++ ": " ++ d.message

end Diagnostic

/-- A list of diagnostics that knows whether it holds an error. -/
structure Report where
  entries : List Diagnostic
  hasErrors : Bool
  deriving DecidableEq, Repr

namespace Report

def empty : Report := ⟨[], false⟩

instance : Inhabited Report := ⟨empty⟩

def add (r : Report) (d : Diagnostic) : Report :=
  ⟨r.entries ++ [d], r.hasErrors || d.severity = .error⟩

/-- Adds every diagnostic of another report, in its order. -/
def append (r s : Report) : Report :=
  s.entries.foldl add r

def ofList (ds : List Diagnostic) : Report :=
  ds.foldl add empty

def ofSeverity (r : Report) (severity : Severity) : List Diagnostic :=
  r.entries.filter (·.severity = severity)

def errors (r : Report) : List Diagnostic :=
  r.ofSeverity .error

def warnings (r : Report) : List Diagnostic :=
  r.ofSeverity .warning

def infos (r : Report) : List Diagnostic :=
  r.ofSeverity .info

def hasWarnings (r : Report) : Bool :=
  r.entries.any (·.severity = .warning)

def isEmpty (r : Report) : Bool :=
  r.entries.isEmpty

def text (r : Report) : String :=
  String.join (r.entries.map (·.text ++ "\n"))

theorem foldl_add (r : Report) (ds : List Diagnostic) :
    ds.foldl add r = ⟨r.entries ++ ds, r.hasErrors || ds.any (·.severity = .error)⟩ := by
  induction ds generalizing r with
  | nil => simp
  | cons d ds ih => simp [ih, add, Bool.or_assoc]

theorem hasErrors_ofList (ds : List Diagnostic) :
    (ofList ds).hasErrors = ds.any (·.severity = .error) := by
  simp [ofList, foldl_add, empty]

end Report

end ObjectLowering
