import ObjectLowering.Text.Pieces
import ObjectLowering.Text.Uppercase

/-!
# ObjectLowering.Symbol.Name

Qualified names of declared types: a package, and the chain of enclosing type names down to the
type's own.

* `text`: the name with dots, by which types are identified.
* `fullName`: the name in generated code, where the packages are camel-cased and run together and
  the path is joined by `_`.
* `defaultHeader`: the header that declares the type if nothing else is known.
-/

namespace ObjectLowering

/-- A package and a path of enclosing type names ending in the type's own name. -/
structure QualifiedName where
  package : List String
  path : List String
  deriving DecidableEq, Repr, Inhabited

/-- Names are ordered by package, then by path. -/
instance : Ord QualifiedName :=
  ⟨compareLex (compareOn (·.package)) (compareOn (·.path))⟩

instance : Std.TransOrd QualifiedName :=
  inferInstanceAs (Std.TransCmp (compareLex _ _))

/-- The package segments run together, each with its first letter in upper case. -/
def camelCase (package : List String) : String :=
  String.join <| package.map fun segment =>
    match segment.toList with
    | [] => ""
    | first :: rest => String.ofList (Text.Uppercase.upper first ++ rest)

namespace QualifiedName

def topLevel (package : List String) (name : String) : QualifiedName :=
  ⟨package, [name]⟩

/-- Reads a dotted name: the last segment is the type, the others are its package. -/
def ofDotted (text : String) : QualifiedName :=
  let segments := Text.pieces '.' text
  topLevel segments.dropLast (segments.getLast?.getD "")

def nested (n : QualifiedName) (name : String) : QualifiedName :=
  { n with path := n.path ++ [name] }

def simpleName (n : QualifiedName) : String :=
  n.path.getLast?.getD ""

def isNested (n : QualifiedName) : Bool :=
  1 < n.path.length

/-- The outermost of the enclosing types. -/
def outermost (n : QualifiedName) : QualifiedName :=
  { n with path := n.path.take 1 }

def packageName (n : QualifiedName) : String :=
  ".".intercalate n.package

def packageDirectory (n : QualifiedName) : String :=
  "/".intercalate n.package

def text (n : QualifiedName) : String :=
  String.join (n.package.map (· ++ ".")) ++ ".".intercalate n.path

def fullName (n : QualifiedName) : String :=
  camelCase n.package ++ "_".intercalate n.path

/-- The header named after the package directory and the outermost type. -/
def defaultHeader (n : QualifiedName) : String :=
  let file := n.path.head?.getD "" ++ ".h"
  if n.package = [] then file else n.packageDirectory ++ "/" ++ file

@[simp] theorem outermost_outermost (n : QualifiedName) : n.outermost.outermost = n.outermost := by
  simp [outermost, List.take_take]

theorem outermost_nested {n : QualifiedName} (h : n.path ≠ []) (name : String) :
    (n.nested name).outermost = n.outermost := by
  cases hp : n.path with
  | nil => exact absurd hp h
  | cons first rest => simp [nested, outermost, hp]

theorem defaultHeader_outermost (n : QualifiedName) :
    n.outermost.defaultHeader = n.defaultHeader := by
  cases hp : n.path <;> simp [outermost, defaultHeader, packageDirectory, hp]

example : (ofDotted "com.foo.Bar").nested "Inner" = ⟨["com", "foo"], ["Bar", "Inner"]⟩ := by decide
example : ((ofDotted "com.foo.Bar").nested "Inner").fullName = "ComFooBar_Inner" := by decide +kernel
example : ((ofDotted "com.foo.Bar").nested "Inner").defaultHeader = "com/foo/Bar.h" := by decide +kernel

end QualifiedName

end ObjectLowering
