import ObjectLowering.Symbol.Constant
import ObjectLowering.Symbol.Name
import ObjectLowering.Symbol.TypeHash

/-!
# ObjectLowering.Symbol.Binding

What is known about the types, variables, methods and functions that a program mentions. Trees
refer to types by `TypeHash` and to variables by number.

* `TypeRef`: the type of an expression or declaration.
* `TypeBinding`, `VariableBinding`: a declared type; a field, local or parameter.
* `MethodRef`, `FunctionRef`: a method of the program; a free function made by lowering.
-/

namespace ObjectLowering

structure Modifiers where
  isStatic : Bool := false
  isFinal : Bool := false
  isAbstract : Bool := false
  deriving DecidableEq, Repr, Inhabited

inductive Visibility where
  | publicAccess
  | protectedAccess
  | packageAccess
  | privateAccess
  deriving DecidableEq, Repr, Inhabited

namespace Visibility

def text : Visibility → String
  | publicAccess => "public"
  | protectedAccess => "protected"
  | packageAccess => "package"
  | privateAccess => "private"

end Visibility

inductive PrimitiveType where
  | void
  | boolean
  | byte
  | char
  | short
  | int
  | long
  | float
  | double
  deriving DecidableEq, Repr, Inhabited

namespace PrimitiveType

def spelling : PrimitiveType → String
  | void => "void"
  | boolean => "jboolean"
  | byte => "jbyte"
  | char => "jchar"
  | short => "jshort"
  | int => "jint"
  | long => "jlong"
  | float => "jfloat"
  | double => "jdouble"

end PrimitiveType

inductive TypeRef where
  | primitive (type : PrimitiveType)
  | declared (type : TypeHash)
  /-- A reference to an object of any type. -/
  | anyObject
  /-- A writable reference to storage. -/
  | pointer (target : TypeRef)
  deriving DecidableEq, Repr, Inhabited

namespace TypeRef

def isPrimitive : TypeRef → Bool
  | primitive _ => true
  | _ => false

def isObject : TypeRef → Bool
  | declared _ | anyObject => true
  | _ => false

/-- The declared type behind any number of pointers. -/
def declaredType? : TypeRef → Option TypeHash
  | declared type => some type
  | pointer target => target.declaredType?
  | _ => none

end TypeRef

inductive TypeKind where
  | classType
  | interfaceType
  | enumType
  deriving DecidableEq, Repr, Inhabited

structure TypeBinding where
  name : QualifiedName
  hash : TypeHash := TypeHash.ofName name.text
  kind : TypeKind := .classType
  visibility : Visibility := .publicAccess
  modifiers : Modifiers := {}
  superclass : Option TypeHash := none
  interfaces : List TypeHash := []
  /-- The type of the runtime that stands for this one. -/
  nativeName : Option String := none
  deriving DecidableEq, Repr, Inhabited

namespace TypeBinding

def fullName (b : TypeBinding) : String :=
  b.nativeName.getD b.name.fullName

/-- All but public types are kept out of declaration files. -/
def isPrivate (b : TypeBinding) : Bool :=
  b.visibility ≠ .publicAccess

def isInterface (b : TypeBinding) : Bool :=
  b.kind = .interfaceType

def isAbstract (b : TypeBinding) : Bool :=
  b.modifiers.isAbstract

/-- The supertypes in declaration order, superclass first. -/
def supertypes (b : TypeBinding) : List TypeHash :=
  b.superclass.toList ++ b.interfaces

end TypeBinding

inductive VariableKind where
  | field
  | localVariable
  | parameter
  deriving DecidableEq, Repr, Inhabited

structure VariableBinding where
  name : String
  kind : VariableKind
  /-- The type that declares the field. -/
  declaringType : Option TypeHash := none
  type : TypeRef
  modifiers : Modifiers := {}
  visibility : Visibility := .privateAccess
  /-- The value of a compile-time constant. -/
  constant : Option ConstantValue := none
  deriving DecidableEq, Repr

namespace VariableBinding

def isStatic (v : VariableBinding) : Bool :=
  v.modifiers.isStatic

def isField (v : VariableBinding) : Bool :=
  v.kind = .field

/-- A static final primitive with a known value. It is written as a macro and has no storage. -/
def isPrimitiveConstant (v : VariableBinding) : Bool :=
  v.isStatic && v.modifiers.isFinal && v.type.isPrimitive && v.constant.isSome

def withStatic (v : VariableBinding) : VariableBinding :=
  { v with modifiers := { v.modifiers with isStatic := true } }

def withConstant (v : VariableBinding) (value : ConstantValue) : VariableBinding :=
  { v with
    modifiers := { v.modifiers with isStatic := true, isFinal := true }
    constant := some value }

end VariableBinding

/-- The number of a variable in its environment. -/
abbrev VarId := Nat

structure MethodRef where
  name : String
  declaringType : TypeHash
  returnType : TypeRef
  isStatic : Bool := false
  deriving DecidableEq, Repr, Inhabited

/-- A free function made by lowering, such as an accessor of a static field. -/
structure FunctionRef where
  name : String
  /-- The type whose declaration file declares the function. -/
  declaringType : TypeHash
  returnType : TypeRef
  parameters : List TypeRef
  deriving DecidableEq, Repr, Inhabited

/-- What a name stands for. -/
inductive Binding where
  | ofVariable (id : VarId)
  | ofType (hash : TypeHash)
  deriving DecidableEq, Repr, Inhabited

end ObjectLowering
