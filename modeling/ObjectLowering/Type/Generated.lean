import ObjectLowering.Type.Dependency
import ObjectLowering.Type.Implementation

/-!
# ObjectLowering.Type.Generated

A generated type: the texts that its unit puts into its two files, and the types that they depend
on. A public type is declared in the declaration file, with the static fields that it exports; all
others are declared in the implementation file.
-/

namespace ObjectLowering

/-- What all types of a unit share. -/
structure GenerationContext where
  env : Environment
  options : Options
  headers : HeaderMap
  locals : List TypeHash
  strings : StringPool

structure GeneratedType where
  hash : TypeHash
  typeName : String
  isPrivate : Bool
  isInterface : Bool
  isAbstract : Bool
  /-- The type adopts at least one protocol. -/
  hasProtocols : Bool
  supertypes : List TypeHash
  /-- The part of the declaration file; empty for a private type. -/
  publicDeclaration : String
  /-- The part of the implementation file that stands before all implementations. -/
  privateDeclaration : String
  implementation : String
  imports : TypeImports

namespace GeneratedType

/-- The type has a part in the declaration file. -/
def hasPublicSurface (g : GeneratedType) : Bool :=
  g.publicDeclaration ≠ ""

def generate (c : GenerationContext) (t : Tree) (id : NodeId) :
    Except GenerationError GeneratedType := do
  let d ← TypeDeclaration.ofTree c.env t id
  let renderer : Renderer := { tree := t, env := c.env, slot? := c.strings.slot? }
  let implementation ← GenerationError.ofTree (d.implementation ⟨c.env, c.options, renderer⟩)
  let interface := d.interface c.env
  let isPrivate := d.binding.isPrivate
  return {
    hash := d.binding.hash
    typeName := d.name
    isPrivate
    isInterface := d.binding.isInterface
    isAbstract := d.binding.isAbstract
    hasProtocols := !d.binding.interfaces.isEmpty
    supertypes := d.binding.supertypes
    publicDeclaration :=
      if isPrivate then "" else interface ++ d.staticDeclarations c.env d.isExported true
    privateDeclaration :=
      if isPrivate then interface ++ d.staticDeclarations c.env (fun _ => true) false
      else d.staticDeclarations c.env (fun v => !d.isExported v) false
    implementation
    imports := .collect ⟨c.env, c.headers, c.locals⟩ t id d }

end GeneratedType

end ObjectLowering
