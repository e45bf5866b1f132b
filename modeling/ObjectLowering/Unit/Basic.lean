import ObjectLowering.Type.Generated
import ObjectLowering.Unit.Plan
import ObjectLowering.Unit.TypeOrder

/-!
# ObjectLowering.Unit.Basic

Generation units: the types of some source files in the order of their emission, and what else
their two output files hold.

* `GenerationUnit.build`: puts the types in order and generates them. The declarations are looked
  at before the order, and the order before the generation of any type.
-/

namespace ObjectLowering

structure GenerationUnit where
  sourceName : String
  outputPath : String
  types : List GeneratedType
  nativeBlocks : List String
  /-- A class leaves methods of its protocols to its subclasses. -/
  hasIncompleteProtocol : Bool
  /-- A class leaves methods to its subclasses. -/
  hasIncompleteImplementation : Bool
  strings : StringPool

namespace GenerationUnit

/-- A type declaration of one of the source files. -/
structure LocalDeclaration where
  tree : Tree
  id : NodeId
  binding : TypeBinding
  span : Span

namespace LocalDeclaration

def ofNode (env : Environment) (t : Tree) (id : NodeId) :
    Except GenerationError LocalDeclaration := do
  let node ← GenerationError.ofTree (t.node id)
  let (binding, _) ← TypeDeclaration.header env node
  return ⟨t, id, binding, node.span⟩

def ofTree (env : Environment) (t : Tree) : Except GenerationError (List LocalDeclaration) :=
  t.typeDecls.mapM (ofNode env t)

end LocalDeclaration

/-- A class that has methods without implementation. -/
def isIncomplete (g : GeneratedType) : Bool :=
  g.isAbstract && !g.isInterface

/-- Generates the unit of a plan from the trees of its files. -/
def build (plan : UnitPlan) (trees : List Tree) (env : Environment) (options : Options)
    (headers : HeaderMap) : Except GenerationError GenerationUnit := do
  let strings := StringPool.ofTrees trees
  let declarations := (← trees.mapM (LocalDeclaration.ofTree env)).flatten
  let order ← TypeOrder.order (declarations.map fun d => ⟨d.binding, d.span⟩)
  let locals := declarations.map (·.binding.hash)
  let context : GenerationContext := { env, options, headers, locals, strings }
  let ordered := order.filterMap (declarations[·]?)
  let types ← ordered.mapM fun d => GeneratedType.generate context d.tree d.id
  let incomplete := types.filter isIncomplete
  return {
    sourceName := plan.sourceName
    outputPath := plan.outputPath
    types
    nativeBlocks := trees.flatMap (·.nativeBlocks)
    hasIncompleteProtocol := incomplete.any (·.hasProtocols)
    hasIncompleteImplementation := !incomplete.isEmpty
    strings }

def headerPath (u : GenerationUnit) : String :=
  u.outputPath ++ ".h"

def implementationPath (u : GenerationUnit) : String :=
  u.outputPath ++ ".m"

def type? (u : GenerationUnit) (name : String) : Option GeneratedType :=
  u.types.find? (·.typeName = name)

end GenerationUnit

end ObjectLowering
