import ObjectLowering.Index
import ObjectLowering.Options
import ObjectLowering.Symbol.Name
import ObjectLowering.Text.Path

/-!
# ObjectLowering.Unit.Plan

Which source files are generated into one unit, and where the unit goes.

* One unit for each file: `com/foo/A.src` goes to `com/foo/A`.
* One unit for each directory: `com/foo` goes to `com/foo/ComFoo`. The files are passed once; a file
  is put to the unit of its directory, or opens that unit behind all others.
-/

namespace ObjectLowering

/-- Source files that are generated together. -/
structure UnitPlan where
  /-- The file, or the directory, by which the unit is reported. -/
  sourceName : String
  outputPath : String
  /-- The positions of the files in the input, ascending. -/
  members : List Nat
  deriving DecidableEq, Repr, Inhabited

namespace UnitPlan

def ofFile (source : String) (index : Nat) : UnitPlan :=
  ⟨source, Text.Path.stripExtension source, [index]⟩

/-- The output path of a directory's unit: inside the directory, and named after it. -/
def directoryOutput (directory : String) : String :=
  match Text.pieces '/' directory with
  | [] => "DefaultPackage"
  | segments => directory ++ "/" ++ camelCase segments

def ofDirectory (directory : String) (members : List Nat) : UnitPlan where
  sourceName := if directory = "" then "." else directory
  outputPath := directoryOutput directory
  members

def addMember (plan : UnitPlan) (index : Nat) : UnitPlan :=
  { plan with members := plan.members ++ [index] }

end UnitPlan

/-- The units of the directories that have been met, and for each directory where its unit stands. -/
structure DirectoryPlans where
  plans : Array UnitPlan := #[]
  byDirectory : Index String := {}

namespace DirectoryPlans

/-- Puts the next file to the unit of its directory, which it opens if there is none. -/
def add (p : DirectoryPlans) : String × Nat → DirectoryPlans
  | (source, index) =>
    let directory := Text.Path.parent source
    match p.byDirectory.get? directory with
    | some plan => { p with plans := p.plans.modify plan (·.addMember index) }
    | none =>
      { plans := p.plans.push (.ofDirectory directory [index])
        byDirectory := p.byDirectory.insert directory p.plans.size }

def ofSources (sources : List String) : DirectoryPlans :=
  sources.zipIdx.foldl add {}

end DirectoryPlans

def planUnits (sources : List String) : UnitGrouping → List UnitPlan
  | .perFile => sources.zipIdx.map fun (source, index) => UnitPlan.ofFile source index
  | .perDirectory => (DirectoryPlans.ofSources sources).plans.toList

end ObjectLowering
