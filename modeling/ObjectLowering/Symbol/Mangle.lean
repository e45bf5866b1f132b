/-!
# ObjectLowering.Symbol.Mangle

Names in generated code. A static field of a type has a storage slot `<Type>_<field>` at unit
scope, and is reached from other types through the functions `<Type>_get_<field>`,
`<Type>_getRef_<field>` and `<Type>_set_<field>`.
-/

namespace ObjectLowering.Mangle

/-- Words that generated code must not use as identifiers: keywords of C and of Objective-C, common
macros and names of the C library. -/
def reservedWords : List String :=
  [
    "auto", "break", "case", "char", "const", "continue", "default", "do", "double", "else",
    "enum", "extern", "float", "for", "goto", "if", "inline", "int", "long", "register",
    "restrict", "return", "short", "signed", "sizeof", "static", "struct", "switch", "typedef",
    "union", "unsigned", "void", "volatile", "while",
    "id", "self", "super", "nil", "Nil", "YES", "NO", "SEL", "BOOL", "Class", "IMP", "in",
    "out", "inout", "bycopy", "byref", "oneway", "atomic", "nonatomic", "retain", "strong",
    "weak", "readonly", "readwrite",
    "NULL", "TRUE", "FALSE", "EOF", "errno", "assert", "signal", "sleep", "stdin", "stdout",
    "stderr", "printf"
  ]

def isReserved (name : String) : Bool :=
  reservedWords.contains name

/-- A source identifier, with `_` appended if it is a reserved word. -/
def identifier (name : String) : String :=
  if isReserved name then name ++ "_" else name

def instanceVariable (name : String) : String :=
  name ++ "_"

def storage (typeName field : String) : String :=
  typeName ++ "_" ++ identifier field

def getter (typeName field : String) : String :=
  typeName ++ "_get_" ++ identifier field

def refGetter (typeName field : String) : String :=
  typeName ++ "_getRef_" ++ identifier field

def setter (typeName field : String) : String :=
  typeName ++ "_set_" ++ identifier field

/-- The function that makes sure that a type's static state is set up. -/
def typeInitializer (typeName : String) : String :=
  typeName ++ "_initialize"

def classInitializer (typeName : String) : String :=
  typeName ++ "_clinit"

def initializedFlag (typeName : String) : String :=
  typeName ++ "__initialized"

/-- The flag that says that this thread is setting up a type's static state. -/
def initializingFlag (typeName : String) : String :=
  typeName ++ "__initializing"

end ObjectLowering.Mangle
