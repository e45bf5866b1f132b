import ObjectLowering.Type.Declaration

/-!
# ObjectLowering.Type.Interface

What is written of a type for its users.

* `interface`: the supertypes, instance variables and methods.
* `staticDeclarations`: macros for constants, and for every other static field its accessors, with
  its storage if other units may use it. One of the two declarations of a type also declares the
  function that sets up its static state.
-/

namespace ObjectLowering.TypeDeclaration

/-- The selector of a method with its types, as in `- (jint)addInt:(jint)a with:(jint)b`. -/
def methodSignature (env : Environment) (m : MethodMember) : String :=
  let kind := if m.method.isStatic then "+" else "-"
  let result := Spelling.typeName env m.method.returnType
  if m.parameters.isEmpty then
    kind ++ " (" ++ result ++ ")" ++ Text.trimEnd ':' m.method.name
  else
    let keywords := Text.pieces ':' m.method.name
    let parameters := m.parameters.zipIdx.map fun (v, i) =>
      keywords[i]?.getD "" ++ ":(" ++ Spelling.typeName env v.type ++ ")" ++ Mangle.identifier v.name
    kind ++ " (" ++ result ++ ")" ++ " ".intercalate parameters

/-- The protocols that the type adopts, as far as they are known. -/
def protocols (env : Environment) (d : TypeDeclaration) : List String :=
  d.binding.interfaces.filterMap env.fullName?

def headline (env : Environment) (d : TypeDeclaration) : String :=
  let protocols := d.protocols env
  if d.binding.isInterface then
    "@protocol " ++ d.name ++ " <" ++ ", ".intercalate (protocols ++ ["NSObject"]) ++ ">"
  else
    "@interface " ++ d.name ++ " : " ++ (d.binding.superclass.bind env.fullName?).getD "NSObject"
      ++ if protocols = [] then "" else " <" ++ ", ".intercalate protocols ++ ">"

/-- The instance variables in braces; nothing if there are none. -/
def instanceVariables (env : Environment) (d : TypeDeclaration) : String :=
  match d.instanceFields with
  | [] => ""
  | fields =>
    let lines := fields.map fun f =>
      "  " ++ Spelling.declaration env f.binding.type (Mangle.instanceVariable f.binding.name)
        ++ ";\n"
    " \x7b\n @public\n" ++ String.join lines ++ "\x7d"

def interface (env : Environment) (d : TypeDeclaration) : String :=
  let storage := if d.binding.isInterface then "" else d.instanceVariables env
  let methods := d.methods.map fun m => "\n" ++ methodSignature env m ++ ";\n"
  "\n" ++ d.headline env ++ storage ++ "\n" ++ String.join methods ++ "\n@end\n"

/-- A function with its parameters; a single parameter is called `value`. -/
def prototype (env : Environment) (f : FunctionRef) : String :=
  let parameters := match f.parameters with
    | [] => "void"
    | types => ", ".intercalate (types.map (Spelling.declaration env · "value"))
  Spelling.declaration env f.returnType (f.name ++ "(" ++ parameters ++ ")")

/-- The accessors that a static field has. Only object references can be stored by a function. -/
def accessorFunctions (d : TypeDeclaration) (v : VariableBinding) : List FunctionRef :=
  let f := d.accessors v
  [f.getter, f.refGetter] ++ if v.type.isObject then [f.setter] else []

def staticFieldLines (env : Environment) (d : TypeDeclaration) (exported : Bool)
    (v : VariableBinding) : List String :=
  let linkage := if exported then "FOUNDATION_EXPORT " else ""
  if v.isPrimitiveConstant then
    v.constant.toList.map fun value => "#define " ++ d.storage v ++ " " ++ value.text
  else
    let storage := if exported then [Spelling.declaration env v.type (d.storage v)] else []
    (storage ++ (d.accessorFunctions v).map (prototype env)).map (linkage ++ · ++ ";")

/-- The declaration of the function that sets up the static state, where it belongs: with the
exported fields, or with the others if no field with storage is exported. -/
def initializerLines (d : TypeDeclaration) (declared : VariableBinding → Bool) (exported : Bool) :
    List String :=
  let declaresStorage := d.storedFields.any (declared ·.binding)
  let hasExportedStorage := d.storedFields.any (d.isExported ·.binding)
  if declaresStorage && (exported || !hasExportedStorage) then
    [(if exported then "FOUNDATION_EXPORT " else "") ++ "void " ++ Mangle.typeInitializer d.name
      ++ "(void);"]
  else
    []

/-- The static fields chosen by `declared`, for other units if `exported`. -/
def staticDeclarations (env : Environment) (d : TypeDeclaration)
    (declared : VariableBinding → Bool) (exported : Bool) : String :=
  let fields := d.staticFields.filter (declared ·.binding)
  let lines := fields.flatMap (d.staticFieldLines env exported ·.binding)
    ++ d.initializerLines declared exported
  if lines = [] then "" else "\n" ++ "\n".intercalate lines ++ "\n"

end ObjectLowering.TypeDeclaration
