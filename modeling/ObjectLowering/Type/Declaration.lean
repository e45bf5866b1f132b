import ObjectLowering.Options
import ObjectLowering.Symbol.Accessor
import ObjectLowering.Tree.Render
import ObjectLowering.Unit.Error
import ObjectLowering.Unit.StringPool

/-!
# ObjectLowering.Type.Declaration

A type declaration as generation sees it: the binding of the type, and its fields and methods with
their variables looked up.

* `TypeDeclaration.ofTree`: reads a declaration. The first member that is neither a field nor a
  method, or whose variable is unknown, is the error.
* `storedFields`: the static fields with storage; the others are constants written as macros.
* `isExported`: the static members that other units may use.
-/

namespace ObjectLowering

structure FieldMember where
  binding : VariableBinding
  initial : Option NodeId

/-- A method; without a body it is only declared. -/
structure MethodMember where
  method : MethodRef
  parameters : List VariableBinding
  body : Option NodeId

structure TypeDeclaration where
  binding : TypeBinding
  fields : List FieldMember
  methods : List MethodMember

namespace TypeDeclaration

/-- A variable of a member, which must be known. -/
def boundVariable (env : Environment) (member : Node) (id : VarId) :
    Except GenerationError VariableBinding :=
  match env.variableAt? id with
  | some v => .ok v
  | none => .error (.structural (.unexpectedNode "bound variable" member.kind.label member.span))

def addMember (env : Environment) (d : TypeDeclaration) (member : Node) :
    Except GenerationError TypeDeclaration :=
  match member.kind with
  | .fieldDecl field initial => do
    let binding ← boundVariable env member field
    return { d with fields := d.fields ++ [{ binding, initial }] }
  | .methodDecl method parameters body => do
    let parameters ← parameters.mapM (boundVariable env member)
    return { d with methods := d.methods ++ [{ method, parameters, body }] }
  | other =>
    .error (.structural (.unexpectedNode "FieldDecl or MethodDecl" other.label member.span))

/-- The type that a node declares, and the nodes of its members. -/
def header (env : Environment) (node : Node) : Except GenerationError (TypeBinding × List NodeId) :=
  match node.kind with
  | .typeDecl none _ => .error (.missingTypeBinding node.span)
  | .typeDecl (some hash) members =>
    match env.type? hash with
    | some binding => .ok (binding, members)
    | none => .error (.unknownType hash node.span)
  | other => .error (.structural (.unexpectedNode "TypeDecl" other.label node.span))

def ofTree (env : Environment) (t : Tree) (id : NodeId) :
    Except GenerationError TypeDeclaration := do
  let (binding, members) ← header env (← GenerationError.ofTree (t.node id))
  members.foldlM (fun d member => do addMember env d (← GenerationError.ofTree (t.node member)))
    { binding, fields := [], methods := [] }

def name (d : TypeDeclaration) : String :=
  d.binding.fullName

/-- The fields of the type as such. -/
def staticFields (d : TypeDeclaration) : List FieldMember :=
  d.fields.filter (·.binding.isStatic)

def instanceFields (d : TypeDeclaration) : List FieldMember :=
  d.fields.filter fun f => !f.binding.isStatic

/-- The static fields that have storage and accessors. -/
def storedFields (d : TypeDeclaration) : List FieldMember :=
  d.staticFields.filter fun f => !f.binding.isPrimitiveConstant

/-- The type has storage that must be set up before its first use. -/
def hasStaticState (d : TypeDeclaration) : Bool :=
  !d.storedFields.isEmpty

/-- A static member that other units may use: neither it nor its type is private. -/
def isExported (d : TypeDeclaration) (v : VariableBinding) : Bool :=
  !d.binding.isPrivate && v.visibility ≠ .privateAccess

def accessors (d : TypeDeclaration) (v : VariableBinding) : StaticField :=
  ⟨d.binding.hash, d.name, v⟩

def storage (d : TypeDeclaration) (v : VariableBinding) : String :=
  Mangle.storage d.name v.name

end TypeDeclaration

end ObjectLowering
