/-!
# ObjectLowering.Options

What the user may choose about generated code.
-/

namespace ObjectLowering

/-- The memory model of the generated code. -/
inductive MemoryManagement where
  | garbageCollected
  | automaticCounting
  | manualCounting
  deriving DecidableEq, Repr, Inhabited

inductive HeaderMapping where
  /-- After the package directory and the outermost type. -/
  | byPackage
  /-- After the place of the source file. -/
  | bySourceDirectory
  deriving DecidableEq, Repr, Inhabited

inductive UnitGrouping where
  | perFile
  | perDirectory
  deriving DecidableEq, Repr, Inhabited

structure Options where
  memoryManagement : MemoryManagement := .manualCounting
  /-- Leaves out the check that a file for manual counting is compiled without automatic
  counting. -/
  legacyCollector : Bool := false
  headerMapping : HeaderMapping := .byPackage
  unitGrouping : UnitGrouping := .perFile
  /-- Stands in place of the generated banner. -/
  fileHeader : Option String := none
  /-- The header that every declaration file includes. -/
  runtimeHeader : String := "J2ObjC_header.h"
  /-- The header that every implementation file includes. -/
  runtimeSourceHeader : String := "J2ObjC_source.h"
  /-- The file name extension of sources, without the dot. -/
  sourceExtension : String := "java"
  deriving DecidableEq, Repr, Inhabited

namespace Options

def usesAutomaticCounting (o : Options) : Bool :=
  o.memoryManagement = .automaticCounting

def usesCollector (o : Options) : Bool :=
  o.memoryManagement = .garbageCollected

/-- Generated code retains and releases objects itself. -/
def usesManualCounting (o : Options) : Bool :=
  o.memoryManagement = .manualCounting

end Options

end ObjectLowering
