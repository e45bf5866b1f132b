import ObjectLowering.Tree.Basic
import ObjectLowering.Unit.HeaderMap
import ObjectLowering.Unit.Plan

/-!
# ObjectLowering.Batch.SourceHeaders

Headers that follow the place of source files: the main type of every file is mapped to the header
of the unit that the file is generated into.

* `SourceInput.mainType?`: the top-level type named after the file, or else the first one.
* `headerMap`: nothing unless the options ask for it. Package descriptors and files with another
  extension are left out, and a later unit wins over an earlier one.
-/

namespace ObjectLowering

/-- A source file that has been read and resolved. -/
structure SourceInput where
  /-- The path relative to the root of the sources. -/
  sourceName : String
  tree : Tree

namespace SourceInput

/-- The types that the file declares outside any other. -/
def topLevelTypes (input : SourceInput) (env : Environment) : List TypeBinding :=
  (input.tree.typeDecls.filterMap fun id =>
    match input.tree.kind? id with
    | some (.typeDecl type _) => type.bind env.type?
    | _ => none).filter fun b => !b.name.isNested

def mainType? (input : SourceInput) (env : Environment) : Option TypeBinding :=
  let types := input.topLevelTypes env
  (types.find? fun b => b.name.simpleName = Text.Path.stem input.sourceName).or types.head?

end SourceInput

/-- A file with the extension of sources that is no package descriptor. -/
def isRegularSource (options : Options) (sourceName : String) : Bool :=
  ("." ++ options.sourceExtension).toList.isSuffixOf sourceName.toList
    && Text.Path.stem sourceName ≠ "package-info"

/-- The entry of one file of a unit, if it has one. -/
def sourceHeader? (env : Environment) (options : Options) (plan : UnitPlan) (input : SourceInput) :
    Option (String × String) :=
  if isRegularSource options input.sourceName then
    (input.mainType? env).map fun main => (main.name.text, plan.outputPath ++ ".h")
  else
    none

/-- The headers of the main types of all files, by the units that they are planned for. -/
def headerMap (inputs : List SourceInput) (plans : List UnitPlan) (env : Environment)
    (options : Options) : HeaderMap :=
  match options.headerMapping with
  | .byPackage => .empty
  | .bySourceDirectory =>
    let entries := plans.flatMap fun plan =>
      (plan.members.filterMap (inputs[·]?)).filterMap (sourceHeader? env options plan)
    entries.foldl (fun headers (name, header) => headers.put name header) .empty

end ObjectLowering
