import ObjectLowering.Batch.Generator
import ObjectLowering.Proofs.Unit.Headers
import ObjectLowering.Proofs.Unit.Plan

/-!
# ObjectLowering.Proofs.Batch.Emitted

The units of a batch, and those of them that are emitted.

* `run_eq_ofUnits`: what comes of a batch is put together from runs of its units.
* `runUnit_cases`: a unit comes to an output or to a failure, which bears its name.
* `outputs_run`: the outputs of a batch are those of its emitted units.
-/

namespace ObjectLowering.Generator

variable {t : Generator} {inputs : List SourceInput}

/-- The units of a batch. -/
def units (t : Generator) (inputs : List SourceInput) : List UnitPlan :=
  planUnits (inputs.map (·.sourceName)) t.options.unitGrouping

/-- The header map that the units of a batch share. -/
def headers (t : Generator) (inputs : List SourceInput) : HeaderMap :=
  headerMap inputs (t.units inputs) t.env t.options

/-- Every unit is run on its own files. -/
theorem run_eq_ofUnits (t : Generator) (inputs : List SourceInput) : t.run inputs =
    .ofUnits ((t.units inputs).map fun plan =>
      t.runUnit (t.headers inputs) plan (plan.membersOf inputs)) := by
  refine congrArg BatchOutput.ofUnits (List.map_congr_left fun plan hp => ?_)
  have hlisted := UnitPlan.listed_of_mem hp
  rw [List.length_map] at hlisted
  rw [hlisted.filterMap_members]
  rfl

/-- The unit that is built from some files, if nothing fails. -/
def unit? (t : Generator) (headers : HeaderMap) (plan : UnitPlan) (members : List SourceInput) :
    Option GenerationUnit :=
  let lowered := t.lower members
  if lowered.failures = [] then
    (GenerationUnit.build plan lowered.trees t.env t.options headers).toOption
  else
    none

/-- The texts of a unit. -/
def outputOf (t : Generator) (u : GenerationUnit) : GeneratedOutput where
  sourceName := u.sourceName
  outputPath := u.outputPath
  header := (u.emit t.options t.policy).header
  implementation := (u.emit t.options t.policy).implementation

theorem build_of_unit? {headers : HeaderMap} {plan : UnitPlan} {members : List SourceInput}
    {u : GenerationUnit} (h : t.unit? headers plan members = some u) :
    GenerationUnit.build plan (t.lower members).trees t.env t.options headers = .ok u := by
  unfold unit? at h
  dsimp only at h
  split at h
  · cases hb : GenerationUnit.build plan (t.lower members).trees t.env t.options headers with
    | ok v =>
      rw [hb] at h
      cases h
      rfl
    | error e =>
      rw [hb] at h
      cases h
  · cases h

theorem unit?_eq_some {headers : HeaderMap} {plan : UnitPlan} {members : List SourceInput}
    {u : GenerationUnit} (h : t.unit? headers plan members = some u) :
    u.sourceName = plan.sourceName ∧ u.outputPath = plan.outputPath ∧
      ∀ g ∈ u.types, g.Generated t.env headers :=
  GenerationUnit.build_eq_ok (build_of_unit? h)

/-- A unit comes to the output of what is built, or else to a failure. -/
theorem runUnit_cases (t : Generator) (headers : HeaderMap) (plan : UnitPlan)
    (members : List SourceInput) :
    (∃ u, t.unit? headers plan members = some u ∧
      (t.runUnit headers plan members).output = .ok (t.outputOf u)) ∨
    ∃ failure, t.unit? headers plan members = none ∧
      (t.runUnit headers plan members).output = .error failure ∧ failure.unit = plan.sourceName := by
  unfold unit? runUnit
  dsimp only
  split
  · unfold emitUnit
    cases GenerationUnit.build plan (t.lower members).trees t.env t.options headers with
    | ok u => exact .inl ⟨u, rfl, rfl⟩
    | error e => exact .inr ⟨_, rfl, rfl, rfl⟩
  · exact .inr ⟨_, rfl, rfl, rfl⟩

/-- The units of a batch that are emitted, with their plans. -/
def emitted (t : Generator) (inputs : List SourceInput) : List (UnitPlan × GenerationUnit) :=
  (t.units inputs).filterMap fun plan =>
    (t.unit? (t.headers inputs) plan (plan.membersOf inputs)).map (plan, ·)

theorem mem_emitted_iff {plan : UnitPlan} {u : GenerationUnit} :
    (plan, u) ∈ t.emitted inputs ↔ plan ∈ t.units inputs ∧
      t.unit? (t.headers inputs) plan (plan.membersOf inputs) = some u := by
  simp only [emitted, List.mem_filterMap, Option.map_eq_some_iff, Prod.mk.injEq]
  constructor
  · rintro ⟨_, hp, u, hu, rfl, rfl⟩
    exact ⟨hp, hu⟩
  · rintro ⟨hp, hu⟩
    exact ⟨plan, hp, u, hu, rfl, rfl⟩

theorem generated_of_mem_emitted {plan : UnitPlan} {u : GenerationUnit}
    (h : (plan, u) ∈ t.emitted inputs) : ∀ g ∈ u.types, g.Generated t.env (t.headers inputs) :=
  (unit?_eq_some (mem_emitted_iff.1 h).2).2.2

/-- The outputs of a batch are those of its emitted units. -/
theorem outputs_run (t : Generator) (inputs : List SourceInput) :
    (t.run inputs).outputs = (t.emitted inputs).map fun e => t.outputOf e.2 := by
  rw [run_eq_ofUnits, BatchOutput.ofUnits, emitted, List.filterMap_map, List.map_filterMap]
  refine List.filterMap_congr fun plan _ => ?_
  rcases t.runUnit_cases (t.headers inputs) plan (plan.membersOf inputs) with
    ⟨u, hu, ho⟩ | ⟨failure, hu, ho, -⟩
  · simp [ho, hu]
  · simp [ho, hu]

end ObjectLowering.Generator
