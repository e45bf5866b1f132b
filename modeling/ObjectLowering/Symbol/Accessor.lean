import ObjectLowering.Symbol.Binding
import ObjectLowering.Symbol.Mangle

/-!
# ObjectLowering.Symbol.Accessor

The free functions through which other types reach a static field. They make sure that the type
that declares the field is set up before its storage is touched.
-/

namespace ObjectLowering

/-- A static field with the type that declares it and that type's name in generated code. -/
structure StaticField where
  owner : TypeHash
  ownerName : String
  field : VariableBinding

namespace StaticField

/-- Gives the value of the field. -/
def getter (f : StaticField) : FunctionRef where
  name := Mangle.getter f.ownerName f.field.name
  declaringType := f.owner
  returnType := f.field.type
  parameters := []

/-- Gives a writable reference to the storage of the field. -/
def refGetter (f : StaticField) : FunctionRef where
  name := Mangle.refGetter f.ownerName f.field.name
  declaringType := f.owner
  returnType := .pointer f.field.type
  parameters := []

/-- Stores a value into the field and gives it back. -/
def setter (f : StaticField) : FunctionRef where
  name := Mangle.setter f.ownerName f.field.name
  declaringType := f.owner
  returnType := f.field.type
  parameters := [f.field.type]

end StaticField

end ObjectLowering
