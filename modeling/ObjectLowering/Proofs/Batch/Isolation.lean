import ObjectLowering.Proofs.Batch.Emitted

/-!
# ObjectLowering.Proofs.Batch.Isolation

The units of a batch do not touch each other. Unless headers follow the place of the sources, which
makes names depend on all files of the batch, a unit comes out of a batch as it comes out of a run
over its own files.

* `runUnit_members`: a unit does not depend on where its files stand in the batch.
* `run_membersOf`: a run over the files of one unit is a run of that unit; `run_membersOf_cases`: it
  comes to one output or to one failure.
* `run_eq_flatMap`: what is put together from the units may be taken from the runs of the units.
* `run_eq_units`: what comes of a batch is what comes of its units, one after the other.
-/

namespace ObjectLowering

namespace BatchOutput

theorem outputs_ofUnits (results : List UnitResult) :
    (ofUnits results).outputs = results.flatMap fun r => (ofUnits [r]).outputs := by
  simp only [ofUnits, List.filterMap_eq_flatMap_toList, List.flatMap_singleton]

theorem failures_ofUnits (results : List UnitResult) :
    (ofUnits results).failures = results.flatMap fun r => (ofUnits [r]).failures := by
  simp only [ofUnits, List.filterMap_eq_flatMap_toList, List.flatMap_singleton]

theorem report_ofUnits (results : List UnitResult) :
    (ofUnits results).report = .ofList (results.flatMap (·.report.entries)) := by
  rw [Report.ofList, List.foldl_flatMap]
  rfl

theorem entries_ofUnits (results : List UnitResult) : (ofUnits results).report.entries =
    results.flatMap fun r => (ofUnits [r]).report.entries := by
  simp [report_ofUnits, Report.ofList, Report.foldl_add, Report.empty]

theorem report_eq_ofList (results : List UnitResult) :
    (ofUnits results).report = .ofList (ofUnits results).report.entries := by
  simp [report_ofUnits, Report.ofList, Report.foldl_add, Report.empty]

end BatchOutput

namespace Generator

variable {t : Generator} {inputs : List SourceInput}

theorem runUnit_members (t : Generator) (headers : HeaderMap) (plan : UnitPlan)
    (members : List Nat) (files : List SourceInput) :
    t.runUnit headers { plan with members } files = t.runUnit headers plan files := rfl

theorem headers_of_byPackage (h : t.options.headerMapping = .byPackage)
    (inputs : List SourceInput) : t.headers inputs = .empty := by
  rw [headers, headerMap, h]

/-- The files of one unit make up a batch of that unit. -/
theorem run_membersOf (h : t.options.headerMapping = .byPackage) {plan : UnitPlan}
    (hp : plan ∈ t.units inputs) : t.run (plan.membersOf inputs) =
      .ofUnits [t.runUnit .empty plan (plan.membersOf inputs)] := by
  have hplan : t.units (plan.membersOf inputs) =
      [{ plan with members := List.range (plan.membersOf inputs).length }] := by
    have hlength := congrArg List.length (plan.map_membersOf (·.sourceName) inputs)
    rw [List.length_map] at hlength
    rw [units, UnitPlan.map_membersOf, hlength]
    exact planUnits_membersOf hp
  rw [run_eq_ofUnits, headers_of_byPackage h, hplan, List.map_singleton, runUnit_members,
    UnitPlan.membersOf_range]

/-- What of a batch is made up of parts for its units comes from runs over the files of each unit. -/
theorem run_eq_flatMap (h : t.options.headerMapping = .byPackage) {β : Type}
    (f : BatchOutput → List β)
    (hf : ∀ results, f (.ofUnits results) = results.flatMap fun r => f (.ofUnits [r])) :
    f (t.run inputs) = (t.units inputs).flatMap fun plan => f (t.run (plan.membersOf inputs)) := by
  have hunits : (t.units inputs).map (fun plan => f (t.run (plan.membersOf inputs))) =
      (t.units inputs).map fun plan =>
        f (.ofUnits [t.runUnit .empty plan (plan.membersOf inputs)]) :=
    List.map_congr_left fun plan hp => by rw [run_membersOf h hp]
  rw [run_eq_ofUnits, headers_of_byPackage h, hf, List.flatMap_map, List.flatMap_def,
    List.flatMap_def, hunits]

/-- A unit on its own comes to an output or to a failure, which bears its names. -/
theorem run_membersOf_cases (h : t.options.headerMapping = .byPackage) {plan : UnitPlan}
    (hp : plan ∈ t.units inputs) :
    (∃ output, (t.run (plan.membersOf inputs)).outputs = [output] ∧
      (t.run (plan.membersOf inputs)).failures = [] ∧
      output.sourceName = plan.sourceName ∧ output.outputPath = plan.outputPath) ∨
    ∃ failure, (t.run (plan.membersOf inputs)).outputs = [] ∧
      (t.run (plan.membersOf inputs)).failures = [failure] ∧ failure.unit = plan.sourceName := by
  rw [run_membersOf h hp]
  rcases t.runUnit_cases .empty plan (plan.membersOf inputs) with
    ⟨u, hu, ho⟩ | ⟨failure, -, ho, hunit⟩
  · obtain ⟨hsource, hpath, -⟩ := unit?_eq_some hu
    exact .inl ⟨t.outputOf u, by simp [BatchOutput.ofUnits, ho], by simp [BatchOutput.ofUnits, ho],
      hsource, hpath⟩
  · exact .inr ⟨failure, by simp [BatchOutput.ofUnits, ho], by simp [BatchOutput.ofUnits, ho], hunit⟩

/-- What comes of a batch is what comes of its units, each run on its own files only, in the order of
the units. Of every unit comes either one output or one failure. -/
theorem run_eq_units (t : Generator) (inputs : List SourceInput)
    (h : t.options.headerMapping = .byPackage) :
    (t.run inputs).outputs =
        (t.units inputs).flatMap (fun plan => (t.run (plan.membersOf inputs)).outputs) ∧
      (t.run inputs).failures =
        (t.units inputs).flatMap (fun plan => (t.run (plan.membersOf inputs)).failures) ∧
      (t.run inputs).report =
        .ofList ((t.units inputs).flatMap fun plan =>
          (t.run (plan.membersOf inputs)).report.entries) ∧
      ∀ plan ∈ t.units inputs,
        (∃ output, (t.run (plan.membersOf inputs)).outputs = [output] ∧
          (t.run (plan.membersOf inputs)).failures = [] ∧
          output.sourceName = plan.sourceName ∧ output.outputPath = plan.outputPath) ∨
        ∃ failure, (t.run (plan.membersOf inputs)).outputs = [] ∧
          (t.run (plan.membersOf inputs)).failures = [failure] ∧
          failure.unit = plan.sourceName := by
  refine ⟨?_, ?_, ?_, fun plan hp => run_membersOf_cases h hp⟩
  · exact run_eq_flatMap h (·.outputs) BatchOutput.outputs_ofUnits
  · exact run_eq_flatMap h (·.failures) BatchOutput.failures_ofUnits
  · rw [← run_eq_flatMap h (·.report.entries) BatchOutput.entries_ofUnits, run_eq_ofUnits]
    exact BatchOutput.report_eq_ofList _

def directoryGenerator : Generator where
  env := .empty
  options := { unitGrouping := .perDirectory }

/-- A file with a type that is not resolved. -/
def brokenFile : SourceInput where
  sourceName := "a/A.java"
  tree := {
    nodes := #[
      { kind := .typeDecl none [], parent := some 1 },
      { kind := .compilationUnit "a/A.java" [0] [] }]
    root := some 1 }

def emptyFile (sourceName : String) : SourceInput where
  sourceName
  tree := { nodes := #[{ kind := .compilationUnit sourceName [] [] }], root := some 0 }

/-- The broken file takes the other file of its directory with it, and nothing else. -/
theorem run_eq_units_failure : directoryGenerator.options.headerMapping = .byPackage ∧
    (directoryGenerator.run [emptyFile "a/C.java", emptyFile "b/B.java", brokenFile]).outputs =
      (directoryGenerator.run [emptyFile "a/C.java", brokenFile]).outputs ++
        (directoryGenerator.run [emptyFile "b/B.java"]).outputs ∧
    (directoryGenerator.run [emptyFile "a/C.java", brokenFile]).failures.map (·.unit) = ["a"] ∧
    (directoryGenerator.run [emptyFile "b/B.java"]).failures = [] := by
  obtain ⟨houtputs, -⟩ :=
    run_eq_units directoryGenerator [emptyFile "a/C.java", emptyFile "b/B.java", brokenFile] rfl
  have hunits : directoryGenerator.units [emptyFile "a/C.java", emptyFile "b/B.java", brokenFile] =
      [⟨"a", "a/A", [0, 2]⟩, ⟨"b", "b/B", [1]⟩] := by decide +kernel
  rw [hunits, List.flatMap_cons, List.flatMap_singleton] at houtputs
  exact ⟨rfl, houtputs, by decide +kernel, by decide +kernel⟩

end Generator

end ObjectLowering
