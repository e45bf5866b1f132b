import ObjectLowering.Proofs.Batch.Isolation

/-!
# ObjectLowering.Proofs.Batch.Failures

What goes wrong with a unit is put down twice, as an error message of the report and as an error of
the failure. The two agree.

* `Diagnostic.said`, `UnitError.said`: what a message and an error say, and where.
* `said_runUnit`: the error messages of a unit say what its errors do.
* `failure_has_errors`: no unit is given up without an error.
* `errors_run`: over a batch, the error messages say what the errors of the failures do, in the same
  order.
-/

namespace ObjectLowering

def Diagnostic.said (d : Diagnostic) : String × Span :=
  (d.message, d.span)

def UnitError.said (e : UnitError) : String × Span :=
  (e.message, e.span)

namespace Report

theorem errors_ofList (ds : List Diagnostic) :
    (ofList ds).errors = ds.filter (·.severity = .error) := by
  simp [errors, ofSeverity, ofList, foldl_add, empty]

/-- What the report remembers about errors is what it holds. -/
theorem hasErrors_ofList_iff (ds : List Diagnostic) :
    (ofList ds).hasErrors = true ↔ (ofList ds).errors ≠ [] := by
  simp [hasErrors_ofList, errors_ofList, List.filter_eq_nil_iff]

end Report

/-- The errors that a unit was given up for. -/
def UnitResult.errors (r : UnitResult) : List UnitError :=
  match r.output with
  | .ok _ => []
  | .error failure => failure.errors

namespace BatchOutput

theorem errors_report_ofUnits (results : List UnitResult) :
    (ofUnits results).report.errors = results.flatMap (·.report.errors) := by
  rw [report_ofUnits, Report.errors_ofList, List.filter_flatMap]
  rfl

theorem errors_failures_ofUnits (results : List UnitResult) :
    (ofUnits results).failures.flatMap (·.errors) = results.flatMap (·.errors) := by
  induction results with
  | nil => rfl
  | cons r results ih =>
    rw [failures_ofUnits, List.flatMap_cons, List.flatMap_append, ← failures_ofUnits, ih,
      List.flatMap_cons]
    congr 1
    unfold ofUnits UnitResult.errors
    cases hr : r.output <;> simp [hr]

end BatchOutput

namespace Generator

variable {t : Generator} {inputs : List SourceInput}

/-! ## One unit -/

/-- Messages of another severity stand between the errors of a unit that was given up. -/
theorem said_abandon {plan : UnitPlan} {errors : List UnitError} {messages : List Diagnostic}
    (h : (messages.filter (·.severity = .error)).map (·.said) = errors.map (·.said)) :
    (abandon plan errors messages).report.errors.map (·.said) =
      (abandon plan errors messages).errors.map (·.said) := by
  rw [abandon, Report.errors_ofList, h]
  rfl

theorem errors_passMessages (failures : List (SourceInput × PassError)) :
    (passMessages failures).filter (·.severity = .error) = passMessages failures := by
  refine List.filter_eq_self.2 fun d hd => ?_
  obtain ⟨failure, -, rfl⟩ := List.mem_map.1 hd
  rfl

theorem said_passMessages (failures : List (SourceInput × PassError)) :
    (passMessages failures).map (·.said) =
      (failures.map fun failure => UnitError.pass failure.2).map (·.said) := by
  simp [passMessages, Diagnostic.said, UnitError.said, UnitError.message, UnitError.span]

theorem said_emitUnit (t : Generator) (plan : UnitPlan) (lowered : Lowered) (headers : HeaderMap) :
    (t.emitUnit plan lowered headers).report.errors.map (·.said) =
      (t.emitUnit plan lowered headers).errors.map (·.said) := by
  unfold emitUnit
  cases GenerationUnit.build plan lowered.trees t.env t.options headers with
  | error e => exact said_abandon rfl
  | ok u =>
    have hpool : ∀ d ∈ poolSummary plan u.strings, d.severity = .info := by
      unfold poolSummary
      split <;> simp [unitMessage]
    have hwarnings : ∀ d ∈ importWarnings plan (u.emit t.options t.policy).unimportable,
        d.severity = .warning := by
      simp [importWarnings, unitMessage]
    have hnone : (t.passSummary plan lowered.replacements :: poolSummary plan u.strings ++
        importWarnings plan (u.emit t.options t.policy).unimportable).filter
          (·.severity = .error) = [] := by
      rw [List.filter_eq_nil_iff]
      intro d hd
      rcases List.mem_append.1 hd with hd | hd
      · rcases List.mem_cons.1 hd with rfl | hd
        · simp [passSummary, unitMessage]
        · simp [hpool d hd]
      · simp [hwarnings d hd]
    simp only [Report.errors_ofList, hnone]
    rfl

/-- The error messages of a unit say what the errors do that it was given up for. -/
theorem said_runUnit (t : Generator) (headers : HeaderMap) (plan : UnitPlan)
    (members : List SourceInput) :
    (t.runUnit headers plan members).report.errors.map (·.said) =
      (t.runUnit headers plan members).errors.map (·.said) := by
  unfold runUnit
  dsimp only
  split
  · exact t.said_emitUnit plan (t.lower members) headers
  · exact said_abandon (by rw [errors_passMessages, said_passMessages])

theorem failure_has_errors {headers : HeaderMap} {plan : UnitPlan} {members : List SourceInput}
    {failure : UnitFailure} (h : (t.runUnit headers plan members).output = .error failure) :
    failure.errors ≠ [] := by
  unfold runUnit at h
  dsimp only at h
  split at h
  · unfold emitUnit at h
    cases hb : GenerationUnit.build plan (t.lower members).trees t.env t.options headers with
    | error e =>
      rw [hb] at h
      cases h
      exact List.cons_ne_nil _ _
    | ok u =>
      rw [hb] at h
      cases h
  · rename_i hfailures
    cases h
    simpa using hfailures

/-! ## A batch -/

/-- What comes of the units of a batch. -/
def results (t : Generator) (inputs : List SourceInput) : List UnitResult :=
  (t.units inputs).map fun plan => t.runUnit (t.headers inputs) plan (plan.membersOf inputs)

theorem said_of_mem_results {r : UnitResult} (hr : r ∈ t.results inputs) :
    r.report.errors.map (·.said) = r.errors.map (·.said) := by
  obtain ⟨plan, -, rfl⟩ := List.mem_map.1 hr
  exact t.said_runUnit _ plan _

theorem said_run (t : Generator) (inputs : List SourceInput) :
    (t.run inputs).report.errors.map (·.said) =
      (t.run inputs).failures.flatMap fun failure => failure.errors.map (·.said) := by
  have hunits : (t.results inputs).map (fun r => r.report.errors.map (·.said)) =
      (t.results inputs).map fun r => r.errors.map (·.said) :=
    List.map_congr_left fun r hr => said_of_mem_results hr
  rw [← List.map_flatMap, run_eq_ofUnits, ← results, BatchOutput.errors_report_ofUnits,
    BatchOutput.errors_failures_ofUnits, List.map_flatMap, List.map_flatMap, List.flatMap_def,
    List.flatMap_def, hunits]

theorem errors_ne_nil_of_mem_failures {failure : UnitFailure}
    (h : failure ∈ (t.run inputs).failures) : failure.errors ≠ [] := by
  rw [run_eq_ofUnits, BatchOutput.ofUnits] at h
  obtain ⟨r, hr, hf⟩ := List.mem_filterMap.1 h
  obtain ⟨plan, -, rfl⟩ := List.mem_map.1 hr
  split at hf
  · cases hf
  · rename_i ho
    cases hf
    exact failure_has_errors ho

theorem isSuccess_iff (t : Generator) (inputs : List SourceInput) :
    (t.run inputs).isSuccess = true ↔ (t.run inputs).report.errors = [] := by
  rw [BatchOutput.isSuccess, List.isEmpty_iff, ← List.map_eq_nil_iff (f := Diagnostic.said),
    said_run, List.flatMap_eq_nil_iff]
  constructor
  · intro h failure hf
    rw [h] at hf
    cases hf
  · intro h
    refine List.eq_nil_iff_forall_not_mem.2 fun failure hf => errors_ne_nil_of_mem_failures hf ?_
    exact List.map_eq_nil_iff.1 (h failure hf)

theorem hasErrors_run_iff (t : Generator) (inputs : List SourceInput) :
    (t.run inputs).report.hasErrors = true ↔ (t.run inputs).report.errors ≠ [] := by
  rw [run_eq_ofUnits, BatchOutput.report_ofUnits]
  exact Report.hasErrors_ofList_iff _

/-- The error messages of a batch say what the errors of its failures do, in the same order. So a
batch succeeds just if its report knows of no error, which it does just if it holds none, and a unit
that came to an output added no error message. -/
theorem errors_run (t : Generator) (inputs : List SourceInput) :
    (t.run inputs).report.errors.map (fun d => (d.message, d.span)) =
        ((t.run inputs).failures.flatMap fun failure =>
          failure.errors.map fun e => (e.message, e.span)) ∧
      ((t.run inputs).isSuccess = true ↔ (t.run inputs).report.hasErrors = false) ∧
      ((t.run inputs).report.hasErrors = true ↔ 0 < (t.run inputs).report.errors.length) ∧
      t.run inputs = .ofUnits (t.results inputs) ∧
      ∀ r ∈ t.results inputs, r.output.toOption.isSome → r.report.errors = [] := by
  refine ⟨t.said_run inputs, ?_, ?_, t.run_eq_ofUnits inputs, fun r hr ho => ?_⟩
  · rw [isSuccess_iff, ← Bool.not_eq_true, hasErrors_run_iff, not_not]
  · rw [hasErrors_run_iff, List.length_pos_iff]
  · have hsaid := said_of_mem_results hr
    cases hout : r.output with
    | error failure => simp [hout, Except.toOption] at ho
    | ok output =>
      rw [UnitResult.errors, hout] at hsaid
      exact List.map_eq_nil_iff.1 hsaid

end Generator

end ObjectLowering
