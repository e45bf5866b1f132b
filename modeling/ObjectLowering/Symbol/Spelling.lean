import ObjectLowering.Symbol.Environment
import ObjectLowering.Symbol.Mangle

/-!
# ObjectLowering.Symbol.Spelling

How types and variables are spelled in generated code.

* `typeName`: a class is a pointer, an interface is a protocol of `id`, and what is unknown is
  `id`.
* `declaration`: a type and a name, with no blank after a star.
* `variableName`: a static field is its storage slot, another field its instance variable, and a
  local its own name.
-/

namespace ObjectLowering.Spelling

/-- The text ends in a star. -/
def endsInStar (text : String) : Bool :=
  text.toList.getLast? = some '*'

/-- Puts `rest` after a type, with a blank unless the type ends in a star. -/
def afterType (type rest : String) : String :=
  if endsInStar type then type ++ rest else type ++ " " ++ rest

def typeName (env : Environment) : TypeRef → String
  | .primitive type => type.spelling
  | .declared hash =>
    match env.type? hash with
    | some b => if b.isInterface then "id<" ++ b.fullName ++ ">" else b.fullName ++ " *"
    | none => "id"
  | .anyObject => "id"
  | .pointer target => afterType (typeName env target) "*"

def declaration (env : Environment) (type : TypeRef) (name : String) : String :=
  afterType (typeName env type) name

def variableName (env : Environment) (v : VariableBinding) : String :=
  match v.kind with
  | .field =>
    match v.isStatic, v.declaringType with
    | true, some owner => Mangle.storage ((env.fullName? owner).getD "") v.name
    | _, _ => Mangle.instanceVariable v.name
  | _ => Mangle.identifier v.name

end ObjectLowering.Spelling
