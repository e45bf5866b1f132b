import ObjectLowering.Unit.Basic
import ObjectLowering.Unit.Dependencies

/-!
# ObjectLowering.Unit.Emitted

The text of the two output files of a unit.

The implementation file holds, in this order: a banner, includes, native blocks and announced
types; a check of the memory model; what the compiler should not warn of; the string pool; the
private declarations of all types; and the implementations of all types.
-/

namespace ObjectLowering

/-- The texts of a unit's files, and the headers that they had to leave out. -/
structure EmittedUnit where
  header : String
  implementation : String
  unimportable : SortedSet String

namespace GenerationUnit

def endLine (text : String) : String :=
  if text.toList.getLast? = some '\n' then text else text ++ "\n"

def banner (u : GenerationUnit) (options : Options) : String :=
  match options.fileHeader with
  | some header => endLine header
  | none =>
    "//\n//  Generated by the objlower translator.  DO NOT EDIT!\n//  source: " ++ u.sourceName
      ++ "\n//\n"

/-- The lines that announce types, set off by an empty line; nothing if there are none. -/
def forwardSection (d : Dependencies) : String :=
  if d.forwards.isEmpty then "" else "\n" ++ d.forwardLines

/-- The check that the file is compiled for the memory model that it was generated for. -/
def memoryModelCheck (u : GenerationUnit) (options : Options) : String :=
  let check (condition demand : String) : String :=
    "#if " ++ condition ++ "\n#error \"" ++ u.outputPath ++ demand
      ++ " compiled with ARC (-fobjc-arc)\"\n#endif\n"
  match options.memoryManagement with
  | .garbageCollected => ""
  | .automaticCounting => check "!__has_feature(objc_arc)" " must be"
  | .manualCounting =>
    if options.legacyCollector then ""
    else check "!J2OBJC_USE_GC && __has_feature(objc_arc)" " must not be"

/-- What the compiler should not warn of in classes that are incomplete. -/
def incompletePragmas (u : GenerationUnit) : String :=
  let pragmas :=
    (if u.hasIncompleteProtocol then
      "#pragma clang diagnostic ignored \"-Wprotocol\"\n" else "")
    ++ if u.hasIncompleteImplementation then
      "#pragma clang diagnostic ignored \"-Wincomplete-implementation\"\n" else ""
  if u.hasIncompleteProtocol || u.hasIncompleteImplementation then "\n" ++ pragmas else ""

def guardChar (c : Char) : Char :=
  if c.isAlphanum then c else '_'

/-- The macro that keeps the declaration file from being included twice. -/
def includeGuard (u : GenerationUnit) : String :=
  String.ofList (u.outputPath.toList.map guardChar) ++ "_H"

def implementationText (u : GenerationUnit) (options : Options) (d : Dependencies) : String :=
  u.banner options ++ "\n" ++ d.includeLines ++ String.join (u.nativeBlocks.map endLine)
    ++ forwardSection d ++ "\n"
    ++ u.memoryModelCheck options ++ u.incompletePragmas
    ++ "\n#pragma clang diagnostic push\n"
    ++ "#pragma clang diagnostic ignored \"-Wdeprecated-declarations\"\n"
    ++ u.strings.declarations
    ++ String.join (u.types.map (·.privateDeclaration))
    ++ String.join (u.types.map (·.implementation))
    ++ "\n#pragma clang diagnostic pop\n"

def headerText (u : GenerationUnit) (options : Options) (d : Dependencies) : String :=
  let guard := u.includeGuard
  u.banner options ++ "\n#ifndef " ++ guard ++ "\n#define " ++ guard ++ "\n\n"
    ++ d.includeLines ++ forwardSection d
    ++ String.join (u.types.map (·.publicDeclaration))
    ++ "\n#endif // " ++ guard ++ "\n"

def implementationDependencies (u : GenerationUnit) (options : Options) (policy : ImportPolicy) :
    Dependencies :=
  .ofImplementation policy u.types options.runtimeSourceHeader u.headerPath

def headerDependencies (u : GenerationUnit) (options : Options) (policy : ImportPolicy) :
    Dependencies :=
  .ofHeader policy u.types options.runtimeHeader

def emit (u : GenerationUnit) (options : Options) (policy : ImportPolicy) : EmittedUnit :=
  let forImplementation := u.implementationDependencies options policy
  let forHeader := u.headerDependencies options policy
  { header := u.headerText options forHeader
    implementation := u.implementationText options forImplementation
    unimportable := forImplementation.unimportable.insertAll forHeader.unimportable.toList }

end GenerationUnit

end ObjectLowering
