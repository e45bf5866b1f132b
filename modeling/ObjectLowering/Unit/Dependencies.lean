import ObjectLowering.Type.Generated

/-!
# ObjectLowering.Unit.Dependencies

Which headers a file of a unit includes and which types it announces.

* A file includes fixed headers and the headers of the types that are used from outside the unit,
  as far as the policy allows. The headers that it refuses are kept for a warning.
* A type from outside is announced unless a header that is included declares it.
* A type of the unit is announced if it is mentioned before its own place in the order. In the
  implementation file this concerns private types only, as the unit's own header declares the
  others.
-/

namespace ObjectLowering

/-- What stands at the head of a file. -/
structure Dependencies where
  includes : SortedSet String
  forwards : SortedSet Import
  /-- The headers that the policy refuses. -/
  unimportable : SortedSet String

namespace Dependencies

/-- Whether the type with a hash is private, if it belongs to the unit. -/
def privacy? (types : List GeneratedType) (hash : TypeHash) : Option Bool :=
  (types.reverse.find? (·.hash = hash)).map (·.isPrivate)

/-- The headers of used types that are not declared in the unit. -/
def externalHeaders (types : List GeneratedType) (imports : List Import) : List String :=
  (imports.filter fun i => (privacy? types i.hash).isNone).map (·.header)

/-- The types to be announced are collected type by type, where `seen` holds the types up to and
including the current one. -/
def announced (mustAnnounce : List TypeHash → Import → Bool)
    (forwards : GeneratedType → List Import) : List TypeHash → List GeneratedType → List Import
  | _, [] => []
  | seen, g :: rest =>
    let seen := g.hash :: seen
    (forwards g).filter (mustAnnounce seen) ++ announced mustAnnounce forwards seen rest

/-- A file of the unit `types`, made up of the parts of `participants`. -/
def resolve (policy : ImportPolicy) (types participants : List GeneratedType)
    (fixed : List String) (includesOf forwardsOf : TypeImports → SortedSet Import)
    (announcesPublic : Bool) : Dependencies :=
  let headers := externalHeaders types (participants.flatMap fun g => (includesOf g.imports).toList)
  let includes := SortedSet.ofList (fixed ++ headers.filter policy)
  let mustAnnounce (seen : List TypeHash) (i : Import) : Bool :=
    match privacy? types i.hash with
    | some isPrivate => (isPrivate || announcesPublic) && !seen.contains i.hash
    | none => !includes.contains i.header
  { includes
    forwards := .ofList
      (announced mustAnnounce (fun g => (forwardsOf g.imports).toList) [] participants)
    unimportable := .ofList (headers.filter fun header => !policy header) }

/-- The head of the implementation file. -/
def ofImplementation (policy : ImportPolicy) (types : List GeneratedType)
    (runtimeHeader ownHeader : String) : Dependencies :=
  resolve policy types types [runtimeHeader, ownHeader] (·.implementationIncludes)
    (·.implementationForwards) false

/-- The head of the declaration file, which holds the public types only. -/
def ofHeader (policy : ImportPolicy) (types : List GeneratedType) (runtimeHeader : String) :
    Dependencies :=
  resolve policy types (types.filter fun g => !g.isPrivate) [runtimeHeader] (·.headerIncludes)
    (·.headerForwards) true

def includeLines (d : Dependencies) : String :=
  String.join (d.includes.toList.map fun header => "#include \"" ++ header ++ "\"\n")

def forwardLines (d : Dependencies) : String :=
  String.join (d.forwards.toList.map fun i => i.forwardDeclaration ++ "\n")

end Dependencies

end ObjectLowering
