import ObjectLowering.Type.Declaration
import ObjectLowering.Unit.Import

/-!
# ObjectLowering.Type.Dependency

The other types that a type depends on. A type that is used must be declared in full, and one that
is only mentioned may be announced. The type itself, types that stand for one of the runtime, and
types that are not known, are no dependencies.

* Declarations use the supertypes, and mention the types of fields, results and parameters.
* Bodies use the types whose functions and methods they call, whose static fields they name and
  which they name themselves. They mention the types of local variables and of what they call.
-/

namespace ObjectLowering

structure ImportContext where
  env : Environment
  headers : HeaderMap
  locals : List TypeHash

namespace ImportContext

def import? (c : ImportContext) (self hash : TypeHash) : Option Import :=
  if hash = self then none
  else
    (c.env.type? hash).bind fun target =>
      if target.nativeName.isSome then none
      else some (.ofType target c.headers (c.locals.contains hash))

def imports (c : ImportContext) (self : TypeHash) (hashes : List TypeHash) : List Import :=
  hashes.filterMap (c.import? self)

end ImportContext

/-- The types that a node uses in full. -/
def NodeKind.usedTypes (env : Environment) : NodeKind → List TypeHash
  | .functionCall function _ => [function.declaringType]
  | .methodCall method _ _ => [method.declaringType]
  | .simpleName _ (some (.ofType hash)) => [hash]
  | .simpleName _ (some (.ofVariable id)) =>
    match env.variableAt? id with
    | some v => if v.isField && v.isStatic then v.declaringType.toList else []
    | none => []
  | _ => []

/-- The types that a node mentions. -/
def NodeKind.mentionedTypes (env : Environment) : NodeKind → List TypeRef
  | .localVariable var _ => ((env.variableAt? var).map (·.type)).toList
  | .functionCall function _ => function.returnType :: function.parameters
  | .methodCall method _ _ => [method.returnType]
  | _ => []

namespace TypeDeclaration

/-- The types that the declaration of the type mentions: those of its methods, and of the fields
that are declared with it. -/
def surfaceTypes (d : TypeDeclaration) : List TypeRef :=
  let declared (v : VariableBinding) : Bool :=
    !v.isStatic || d.isExported v || d.binding.isPrivate
  (d.fields.filter (declared ·.binding)).map (·.binding.type)
    ++ d.methods.flatMap fun m => m.method.returnType :: m.parameters.map (·.type)

/-- The types of the static fields that a public type keeps to itself. -/
def hiddenTypes (d : TypeDeclaration) : List TypeRef :=
  let hidden (v : VariableBinding) : Bool := !d.binding.isPrivate && !d.isExported v
  (d.staticFields.filter (hidden ·.binding)).map (·.binding.type)

end TypeDeclaration

/-- The kinds of the nodes below a declaration. -/
def Tree.kindsBelow (t : Tree) (id : NodeId) : List NodeKind :=
  (t.descendants id).filterMap t.kind?

/-- The imports of one type, by file and by whether they may be announced. -/
structure TypeImports where
  implementationIncludes : SortedSet Import
  implementationForwards : SortedSet Import
  headerIncludes : SortedSet Import
  headerForwards : SortedSet Import

namespace TypeImports

/-- Collects the imports of a type. A public type is declared in the header, and every other in
the implementation file. -/
def collect (c : ImportContext) (t : Tree) (id : NodeId) (d : TypeDeclaration) : TypeImports :=
  let imports := c.imports d.binding.hash
  let mentions (types : List TypeRef) := imports (types.filterMap (·.declaredType?))
  let kinds := t.kindsBelow id
  let used := imports (kinds.flatMap (·.usedTypes c.env))
  let mentioned := mentions (d.hiddenTypes ++ kinds.flatMap (·.mentionedTypes c.env))
  let supertypes := imports d.binding.supertypes
  let surface := mentions d.surfaceTypes
  if d.binding.isPrivate then
    ⟨.ofList (supertypes ++ used), .ofList (surface ++ mentioned), .empty, .empty⟩
  else
    ⟨.ofList used, .ofList mentioned, .ofList supertypes, .ofList surface⟩

end TypeImports

end ObjectLowering
