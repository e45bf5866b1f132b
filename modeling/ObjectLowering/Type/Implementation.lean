import ObjectLowering.Type.Interface

/-!
# ObjectLowering.Type.Implementation

What is written of a type for the compiler: the storage of its static fields, its methods, and the
functions that set up and give access to its static state.

The static state is set up once. A thread that comes while another is setting it up waits, and a
call on the thread that is setting it up returns at once.
-/

namespace ObjectLowering

/-- What the text of an implementation depends on besides the declaration. -/
structure ImplementationContext where
  env : Environment
  options : Options
  renderer : Renderer

namespace TypeDeclaration

/-- Stores a value, retaining objects if generated code counts references itself. -/
def store (options : Options) (type : TypeRef) (target value : String) : String :=
  if type.isObject && options.usesManualCounting then
    "JreStrongAssign(&" ++ target ++ ", " ++ value ++ ")"
  else
    target ++ " = " ++ value

/-- The storage of the static fields, and the flags that say how far it is set up. -/
def storageDefinitions (env : Environment) (d : TypeDeclaration) : String :=
  let slots := d.storedFields.map fun f =>
    (if d.isExported f.binding then "" else "static ")
      ++ Spelling.declaration env f.binding.type (d.storage f.binding) ++ ";\n"
  "\n" ++ String.join slots
    ++ "static _Atomic(jboolean) " ++ Mangle.initializedFlag d.name ++ ";\n"
    ++ "static _Thread_local jboolean " ++ Mangle.initializingFlag d.name ++ ";\n"

/-- The stores of the first values of fields, where `target` names their variables. -/
def initialStores (c : ImplementationContext) (indent : Nat) (fields : List FieldMember)
    (target : VariableBinding → String) : Except TreeError (List String) :=
  (fields.filterMap fun f => f.initial.map (f.binding, ·)).mapM fun (v, initial) => do
    let value ← c.renderer.expression initial
    return Renderer.line indent (store c.options v.type (target v) value ++ ";")

/-- The method that gives the instance variables their first values, if any has one. -/
def instanceInitializer (c : ImplementationContext) (d : TypeDeclaration) :
    Except TreeError String := do
  let stores ← initialStores c 2 d.instanceFields fun v => Mangle.instanceVariable v.name
  if stores = [] then
    return ""
  else
    return "\n- (instancetype)init \x7b\n  if (self = [super init]) \x7b\n" ++ String.join stores
      ++ "  \x7d\n  return self;\n\x7d\n"

/-- A method with its body; nothing if it has none. -/
def methodImplementation (c : ImplementationContext) (m : MethodMember) :
    Except TreeError String :=
  match m.body with
  | none => return ""
  | some body => return "\n" ++ methodSignature c.env m ++ " " ++ (← c.renderer.statement body 0)

/-- The function that gives the static fields their first values. -/
def classInitializer (c : ImplementationContext) (d : TypeDeclaration) :
    Except TreeError String := do
  let stores ← initialStores c 1 d.storedFields d.storage
  return "\nstatic void " ++ Mangle.classInitializer d.name ++ "(void) \x7b\n" ++ String.join stores
    ++ "\x7d\n"

def typeInitializer (d : TypeDeclaration) : String :=
  let initialized := Mangle.initializedFlag d.name
  let initializing := Mangle.initializingFlag d.name
  "\nvoid " ++ Mangle.typeInitializer d.name ++ "(void) \x7b\n"
    ++ "  if (" ++ initializing ++ " || atomic_load_explicit(&" ++ initialized
    ++ ", memory_order_acquire)) \x7b\n"
    ++ "    return;\n"
    ++ "  \x7d\n"
    ++ "  static dispatch_once_t once;\n"
    ++ "  dispatch_once(&once, ^\x7b\n"
    ++ "    " ++ initializing ++ " = true;\n"
    ++ "    " ++ Mangle.classInitializer d.name ++ "();\n"
    ++ "    " ++ initializing ++ " = false;\n"
    ++ "    atomic_store_explicit(&" ++ initialized ++ ", true, memory_order_release);\n"
    ++ "  \x7d);\n"
    ++ "\x7d\n"

/-- A function that has the static state set up and then returns a result. -/
def accessorBody (env : Environment) (d : TypeDeclaration) (f : FunctionRef) (result : String) :
    String :=
  "\n" ++ prototype env f ++ " \x7b\n  " ++ Mangle.typeInitializer d.name ++ "();\n  return "
    ++ result ++ ";\n\x7d\n"

/-- The accessors of a static field with their bodies. -/
def accessorBodies (c : ImplementationContext) (d : TypeDeclaration) (v : VariableBinding) :
    String :=
  let f := d.accessors v
  let slot := d.storage v
  d.accessorBody c.env f.getter slot
    ++ d.accessorBody c.env f.refGetter ("&" ++ slot)
    ++ if v.type.isObject then
        d.accessorBody c.env f.setter (store c.options v.type slot "value")
      else ""

def methodSection (c : ImplementationContext) (d : TypeDeclaration) : Except TreeError String := do
  let initializer ← d.instanceInitializer c
  let methods ← d.methods.mapM (methodImplementation c)
  return "\n@implementation " ++ d.name ++ "\n" ++ initializer ++ String.join methods ++ "\n@end\n"

/-- The functions that set up the static state and give access to it. -/
def staticSection (c : ImplementationContext) (d : TypeDeclaration) : Except TreeError String := do
  let initializer ← d.classInitializer c
  let accessors := d.storedFields.map (d.accessorBodies c ·.binding)
  return initializer ++ d.typeInitializer ++ String.join accessors

def implementation (c : ImplementationContext) (d : TypeDeclaration) : Except TreeError String := do
  let storage := if d.hasStaticState then d.storageDefinitions c.env else ""
  let methods ← if d.binding.isInterface then pure "" else d.methodSection c
  let statics ← if d.hasStaticState then d.staticSection c else pure ""
  return storage ++ methods ++ statics

end TypeDeclaration

end ObjectLowering
