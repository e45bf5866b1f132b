import ObjectLowering.Index
import ObjectLowering.Text.Escape
import ObjectLowering.Tree.Basic

/-!
# ObjectLowering.Unit.StringPool

The string literals of a unit, each once, in slots numbered by first appearance.

* `add`: puts a string into the pool, unless it is there, and gives its number. The strings and the
  index of their numbers stay in step.
* `ofTrees`: the literals that the roots of trees reach, in pre-order.
* `declarations`: the slots, and the function that fills them before the program starts.
-/

namespace ObjectLowering

/-- Strings by number, and the number of every string. -/
structure StringPool where
  strings : Array String := #[]
  index : Index String := {}
  inStep : index.InStep strings.toList := by exact Index.inStep_empty
  deriving Repr

namespace StringPool

def empty : StringPool := {}

instance : Inhabited StringPool := ⟨empty⟩

def size (p : StringPool) : Nat :=
  p.strings.size

def isEmpty (p : StringPool) : Bool :=
  p.strings.isEmpty

def id? (p : StringPool) (text : String) : Option Nat :=
  p.index.get? text

def get? (p : StringPool) (id : Nat) : Option String :=
  p.strings[id]?

/-- The number of a string, which is new if the string is. -/
def add (p : StringPool) (text : String) : Nat × StringPool :=
  match h : p.id? text with
  | some id => (id, p)
  | none =>
    (p.size, ⟨p.strings.push text, p.index.insert text p.size, by
      rw [Array.toList_push]
      exact p.inStep.insert h⟩)

def addAll (p : StringPool) (texts : List String) : StringPool :=
  texts.foldl (fun p text => (p.add text).2) p

/-- The string literals below the root of a tree, in pre-order. -/
def literals (t : Tree) : List String :=
  match t.root with
  | none => []
  | some root =>
    (t.descendants root).filterMap fun id =>
      match t.kind? id with
      | some (.literal (.string text)) => some text
      | _ => none

/-- The pool of all string literals that the roots of the trees reach. -/
def ofTrees (trees : List Tree) : StringPool :=
  empty.addAll (trees.flatMap literals)

def slotName (id : Nat) : String :=
  "_string_" ++ toString id

def slot? (p : StringPool) (text : String) : Option String :=
  (p.id? text).map slotName

/-- The slots and the function that fills them; nothing for an empty pool. -/
def declarations (p : StringPool) : String :=
  if p.isEmpty then ""
  else
    let entries := p.strings.toList.zipIdx
    let slots := entries.map fun (_, id) => "static NSString *" ++ slotName id ++ ";\n"
    let stores := entries.map fun (text, id) =>
      "  " ++ slotName id ++ " = JreStringConstant(" ++ Text.Escape.stringLiteral text ++ ");\n"
    "\n" ++ String.join slots
      ++ "\n__attribute__((constructor)) static void initialize_string_constants() \x7b\n"
      ++ String.join stores ++ "\x7d\n"

end StringPool

end ObjectLowering
