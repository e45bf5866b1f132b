import ObjectLowering.Proofs.Descendants
import ObjectLowering.Proofs.Unit.Headers

/-!
# ObjectLowering.Proofs.Unit.Includes

What the implementation file of a unit includes.

* `Tree.Uses`: a node calls a function or method of a type, or names the type or one of its static
  fields. `Tree.NeedsInFull`: so does some node of a declaration, or the type is a supertype that is
  used where the declaration stands.
* `GenerationUnit.Requires`: the unit needs the declaration of a type from outside, which the header
  holds.
* `mem_includes_implementation_iff`, `mem_unimportable_implementation_iff`: of the headers that are
  required, the file includes those that it may and reports the others.
* `implementation_includes`: the includes are complete, and each of them is justified.
-/

namespace ObjectLowering

namespace Tree

variable {t : Tree} {env : Environment} {id : NodeId} {x : TypeHash}

/-- The node uses the type in such a way that its declaration must be known. -/
inductive Uses (t : Tree) (env : Environment) (n : NodeId) (x : TypeHash) : Prop where
  | function {f : FunctionRef} {args : List NodeId} :
    t.kind? n = some (.functionCall f args) → f.declaringType = x → t.Uses env n x
  | method {m : MethodRef} {receiver : Option NodeId} {args : List NodeId} :
    t.kind? n = some (.methodCall m receiver args) → m.declaringType = x → t.Uses env n x
  | type {name : String} : t.kind? n = some (.simpleName name (some (.ofType x))) → t.Uses env n x
  | staticField {name : String} {var : VarId} {v : VariableBinding} :
    t.kind? n = some (.simpleName name (some (.ofVariable var))) → env.variableAt? var = some v →
      v.isField = true → v.isStatic = true → v.declaringType = some x → t.Uses env n x

theorem uses_iff {n : NodeId} :
    t.Uses env n x ↔ ∃ kind, t.kind? n = some kind ∧ x ∈ kind.usedTypes env := by
  constructor
  · intro h
    cases h with
    | function hk hx => exact ⟨_, hk, List.mem_singleton.2 hx.symm⟩
    | method hk hx => exact ⟨_, hk, List.mem_singleton.2 hx.symm⟩
    | type hk => exact ⟨_, hk, List.mem_singleton_self x⟩
    | staticField hk hv hfield hstatic hx =>
      refine ⟨_, hk, ?_⟩
      simp only [NodeKind.usedTypes, hv, hfield, hstatic, hx]
      exact List.mem_singleton_self x
  · rintro ⟨kind, hk, hx⟩
    unfold NodeKind.usedTypes at hx
    split at hx
    · exact .function hk (List.mem_singleton.1 hx).symm
    · exact .method hk (List.mem_singleton.1 hx).symm
    · obtain rfl := List.mem_singleton.1 hx
      exact .type hk
    · split at hx
      · rename_i hv
        split at hx
        · rename_i hstatic
          obtain ⟨hfield, hstatic⟩ := Bool.and_eq_true_iff.1 hstatic
          exact .staticField hk hv hfield hstatic (Option.mem_toList.1 hx)
        · cases hx
      · cases hx
    · cases hx

/-- Some node of the subtree uses the type. -/
def UsesBelow (t : Tree) (env : Environment) (id : NodeId) (x : TypeHash) : Prop :=
  ∃ n ∈ t.descendants id, t.Uses env n x

theorem mem_usedTypes_iff :
    x ∈ (t.kindsBelow id).flatMap (·.usedTypes env) ↔ t.UsesBelow env id x := by
  simp only [kindsBelow, List.mem_flatMap, List.mem_filterMap, UsesBelow, uses_iff]
  constructor
  · rintro ⟨kind, ⟨n, hn, hk⟩, hx⟩
    exact ⟨n, hn, kind, hk, hx⟩
  · rintro ⟨n, hn, kind, hk, hx⟩
    exact ⟨kind, ⟨n, hn, hk⟩, hx⟩

/-- The implementation of the declared type needs the declaration of the type `x`. A type that is
not public is declared there as well, with its supertypes. -/
def NeedsInFull (t : Tree) (env : Environment) (id : NodeId) (x : TypeHash) : Prop :=
  t.UsesBelow env id x ∨ ∃ hash members b, t.kind? id = some (.typeDecl (some hash) members) ∧
    env.type? hash = some b ∧ b.isPrivate = true ∧ x ∈ b.supertypes

theorem needsInFull_iff {d : TypeDeclaration} (hd : TypeDeclaration.ofTree env t id = .ok d) :
    t.NeedsInFull env id x ↔ d.binding.isPrivate = true ∧ x ∈ d.binding.supertypes ∨
      x ∈ (t.kindsBelow id).flatMap (·.usedTypes env) := by
  obtain ⟨hash, members, hk, hb, -⟩ := TypeDeclaration.ofTree_eq_ok hd
  rw [NeedsInFull, mem_usedTypes_iff, or_comm]
  refine or_congr_left ⟨?_, fun h => ⟨hash, members, d.binding, hk, hb, h⟩⟩
  rintro ⟨hash', members', b, hk', hb', h⟩
  rw [hk] at hk'
  cases hk'
  obtain rfl := Option.some.inj (hb.symm.trans hb')
  exact h

end Tree

/-- What the implementation of a generated type includes. -/
theorem GeneratedType.exists_implementationInclude_iff {c : GenerationContext} {t : Tree}
    {id : NodeId} {g : GeneratedType} (h : generate c t id = .ok g) {p : TypeHash → String → Prop} :
    (∃ i ∈ g.imports.implementationIncludes.toList, p i.hash i.header) ↔
      ∃ x, t.NeedsInFull c.env id x ∧ x ≠ g.hash ∧ ∃ b, c.env.type? x = some b ∧
        b.nativeName = none ∧ p x (c.headers.headerFor b.name) := by
  obtain ⟨d, hd⟩ := exists_generatedFrom h
  rw [hd.hash, hd.imports]
  simp only [← SortedSet.mem_def, TypeImports.mem_implementationIncludes_iff,
    Tree.needsInFull_iff hd.declaration, or_and_right, exists_or, and_assoc, exists_and_left,
    ImportContext.exists_mem_imports_iff (c := ⟨c.env, c.headers, c.locals⟩)]

namespace GenerationUnit

variable {u : GenerationUnit} {c : GenerationContext} {trees : List Tree} {options : Options}
  {policy : ImportPolicy} {h : String}

/-- Some declaration of the trees needs the declaration of the type `x`. -/
def NeededIn (trees : List Tree) (env : Environment) (x : TypeHash) : Prop :=
  ∃ t ∈ trees, ∃ id ∈ t.typeDecls, t.NeedsInFull env id x

/-- The header is that of a type from outside whose declaration the unit needs. -/
def Requires (u : GenerationUnit) (env : Environment) (headers : HeaderMap) (trees : List Tree)
    (header : String) : Prop :=
  ∃ x, NeededIn trees env x ∧ ¬ u.Declares x ∧
    ∃ b, env.type? x = some b ∧ b.nativeName = none ∧ headers.headerFor b.name = header

theorem needed_implementation_iff (hbuilt : u.BuiltFrom c trees) :
    Dependencies.Needed u.types u.types (·.implementationIncludes) h ↔
      u.Requires c.env c.headers trees h := by
  simp only [Dependencies.Needed, ← not_declares_iff]
  constructor
  · rintro ⟨g, hg, hi⟩
    obtain ⟨t, ht, id, hid, hgen⟩ := hbuilt.generated g hg
    obtain ⟨x, hx, -, b, hb, hnative, hout, hh⟩ := (g.exists_implementationInclude_iff hgen
      (p := fun x header => ¬ u.Declares x ∧ header = h)).1 hi
    exact ⟨x, ⟨t, ht, id, hid, hx⟩, hout, b, hb, hnative, hh⟩
  · rintro ⟨x, ⟨t, ht, id, hid, hx⟩, hout, b, hb, hnative, hh⟩
    obtain ⟨g, hg, hgen⟩ := hbuilt.complete t ht id hid
    have hne : x ≠ g.hash := fun he => hout ⟨g, hg, he.symm⟩
    exact ⟨g, hg, (g.exists_implementationInclude_iff hgen
      (p := fun x header => ¬ u.Declares x ∧ header = h)).2 ⟨x, hx, hne, b, hb, hnative, hout, hh⟩⟩

/-- An implementation file includes the header of the runtime, its own, and those that are required,
as far as they may be included. -/
theorem mem_includes_implementation_iff (hbuilt : u.BuiltFrom c trees) :
    h ∈ (u.implementationDependencies options policy).includes ↔
      h = options.runtimeSourceHeader ∨ h = u.headerPath ∨
        policy h = true ∧ u.Requires c.env c.headers trees h := by
  rw [implementationDependencies, Dependencies.ofImplementation,
    Dependencies.mem_includes_resolve_iff, needed_implementation_iff hbuilt, List.mem_pair, or_assoc]

/-- The headers that are required and may not be included are left out. -/
theorem mem_unimportable_implementation_iff (hbuilt : u.BuiltFrom c trees) :
    h ∈ (u.implementationDependencies options policy).unimportable ↔
      policy h = false ∧ u.Requires c.env c.headers trees h := by
  rw [implementationDependencies, Dependencies.ofImplementation,
    Dependencies.mem_unimportable_resolve_iff, needed_implementation_iff hbuilt]

/-- The lines that include headers stand behind the banner. -/
theorem exists_implementation_lines (u : GenerationUnit) (options : Options) (policy : ImportPolicy) :
    ∃ rest, (u.emit options policy).implementation = u.banner options ++ "\n"
      ++ String.join ((u.implementationDependencies options policy).includes.toList.map
        fun header => "#include \"" ++ header ++ "\"\n") ++ rest := by
  refine ⟨String.join (u.nativeBlocks.map endLine)
    ++ forwardSection (u.implementationDependencies options policy) ++ "\n"
    ++ u.memoryModelCheck options ++ u.incompletePragmas ++ "\n#pragma clang diagnostic push\n"
    ++ "#pragma clang diagnostic ignored \"-Wdeprecated-declarations\"\n"
    ++ u.strings.declarations ++ String.join (u.types.map (·.privateDeclaration))
    ++ String.join (u.types.map (·.implementation)) ++ "\n#pragma clang diagnostic pop\n", ?_⟩
  show u.implementationText options (u.implementationDependencies options policy) = _
  simp only [implementationText, Dependencies.includeLines, String.append_assoc]

theorem occurs_implementation (hh : h ∈ (u.implementationDependencies options policy).includes) :
    Text.Occurs ("#include \"" ++ h ++ "\"\n") (u.emit options policy).implementation := by
  obtain ⟨rest, htext⟩ := u.exists_implementation_lines options policy
  rw [htext]
  exact ((Dependencies.occurs_includeLines hh).append_left _).append_right _

/-- An implementation file has a line with the header of every type from outside that a type of the
unit needs in full, or else the policy refuses the header and it is reported. Behind its banner it has
one line for each header that it includes, and besides the fixed headers it includes no others. -/
theorem implementation_includes {plan : UnitPlan} {env : Environment} {headers : HeaderMap}
    (h : build plan trees env options headers = .ok u) (policy : ImportPolicy) :
    (∀ t ∈ trees, ∀ id ∈ t.typeDecls, ∀ x b, t.NeedsInFull env id x → env.type? x = some b →
      b.nativeName = none → ¬ u.Declares x →
        headers.headerFor b.name ∈ (u.implementationDependencies options policy).includes ∧
          Text.Occurs ("#include \"" ++ headers.headerFor b.name ++ "\"\n")
            (u.emit options policy).implementation ∨
          policy (headers.headerFor b.name) = false ∧
            headers.headerFor b.name ∈ (u.emit options policy).unimportable) ∧
      (∀ header ∈ (u.implementationDependencies options policy).includes,
        header ≠ options.runtimeSourceHeader → header ≠ u.headerPath →
          policy header = true ∧ u.Requires env headers trees header) ∧
      ∃ rest, (u.emit options policy).implementation = u.banner options ++ "\n"
        ++ String.join ((u.implementationDependencies options policy).includes.toList.map
          fun header => "#include \"" ++ header ++ "\"\n") ++ rest := by
  obtain ⟨c, rfl, -, rfl, -, hbuilt⟩ := build_builtFrom h
  refine ⟨?_, ?_, u.exists_implementation_lines options policy⟩
  · intro t ht id hid x b hx hb hnative hout
    have hrequires : u.Requires c.env c.headers trees (c.headers.headerFor b.name) :=
      ⟨x, ⟨t, ht, id, hid, hx⟩, hout, b, hb, hnative, rfl⟩
    cases hpolicy : policy (c.headers.headerFor b.name) with
    | true =>
      have hincluded : c.headers.headerFor b.name ∈
          (u.implementationDependencies options policy).includes :=
        (mem_includes_implementation_iff hbuilt).2 (.inr (.inr ⟨hpolicy, hrequires⟩))
      exact .inl ⟨hincluded, occurs_implementation hincluded⟩
    | false =>
      exact .inr ⟨rfl, mem_unimportable_emit_iff.2 (.inl
        ((mem_unimportable_implementation_iff hbuilt).2 ⟨hpolicy, hrequires⟩))⟩
  · intro header hheader hruntime hown
    rcases (mem_includes_implementation_iff hbuilt).1 hheader with he | he | hrequired
    · exact absurd he hruntime
    · exact absurd he hown
    · exact hrequired

/-! ## A class that uses three types -/

/-- `A` calls a method of `B`, reads a static field of `C` and calls a function of `D`. The type `P`
is kept to the unit and extends `S`. -/
def deskEnv : Environment where
  types := #[
    { name := ⟨[], ["A"]⟩, hash := ⟨1⟩ },
    { name := ⟨[], ["P"]⟩, hash := ⟨2⟩, visibility := .packageAccess, superclass := some ⟨3⟩ },
    { name := ⟨[], ["S"]⟩, hash := ⟨3⟩ },
    { name := ⟨[], ["B"]⟩, hash := ⟨4⟩ },
    { name := ⟨[], ["C"]⟩, hash := ⟨5⟩ },
    { name := ⟨[], ["D"]⟩, hash := ⟨6⟩ }]
  vars := #[
    { name := "count", kind := .field, declaringType := some ⟨5⟩, type := .primitive .int
      modifiers := { isStatic := true } }]

def deskTree : Tree where
  nodes := #[
    { kind := .methodCall ⟨"make", ⟨4⟩, .primitive .int, true⟩ none [], parent := some 3 },
    { kind := .simpleName "count" (some (.ofVariable 0)), parent := some 4 },
    { kind := .functionCall ⟨"D_go", ⟨6⟩, .primitive .int, []⟩ [], parent := some 5 },
    { kind := .expressionStatement 0, parent := some 6 },
    { kind := .expressionStatement 1, parent := some 6 },
    { kind := .returnStatement (some 2), parent := some 6 },
    { kind := .block [3, 4, 5], parent := some 7 },
    { kind := .methodDecl ⟨"run", ⟨1⟩, .primitive .int, false⟩ [] (some 6), parent := some 8 },
    { kind := .typeDecl (some ⟨1⟩) [7], parent := some 10 },
    { kind := .typeDecl (some ⟨2⟩) [], parent := some 10 },
    { kind := .compilationUnit "A.java" [8, 9] [] }]
  root := some 10

def deskBuild : Except GenerationError GenerationUnit :=
  build ⟨"A.java", "A", [0]⟩ [deskTree] deskEnv {} .empty

def desk : GenerationUnit :=
  deskBuild.toOption.get (by decide +kernel)

/-- The headers of `B`, `C` and `S` are included, and that of `D` is refused. -/
theorem implementation_includes_desk :
    (∀ header ∈ ["B.h", "C.h", "S.h"],
      header ∈ (desk.implementationDependencies {} (.blocking ["D.h"])).includes ∧
        Text.Occurs ("#include \"" ++ header ++ "\"\n")
          (desk.emit {} (.blocking ["D.h"])).implementation) ∧
      "D.h" ∈ (desk.emit {} (.blocking ["D.h"])).unimportable ∧
      ∀ header ∈ (desk.implementationDependencies {} (.blocking ["D.h"])).includes,
        header ≠ "J2ObjC_source.h" → header ≠ "A.h" →
          ImportPolicy.blocking ["D.h"] header = true ∧
            desk.Requires deskEnv .empty [deskTree] header := by
  have hbuild : build ⟨"A.java", "A", [0]⟩ [deskTree] deskEnv {} .empty = .ok desk := eq_ok_get _
  have hown : desk.headerPath = "A.h" := by decide +kernel
  obtain ⟨hcomplete, hjustified, -⟩ := implementation_includes hbuild (.blocking ["D.h"])
  rw [hown] at hjustified
  have hincluded (id : NodeId) (x : TypeHash) (header : String) {b : TypeBinding}
      (hid : id ∈ deskTree.typeDecls) (hx : deskTree.NeedsInFull deskEnv id x)
      (hb : deskEnv.type? x = some b) (hnative : b.nativeName = none) (hout : ¬ desk.Declares x)
      (hheader : HeaderMap.empty.headerFor b.name = header) :=
    hheader ▸ hcomplete deskTree List.mem_cons_self id hid x b hx hb hnative hout
  have hB := hincluded 8 ⟨4⟩ "B.h" (by decide)
    (.inl ⟨0, by decide +kernel, .method rfl rfl⟩) rfl rfl (by decide +kernel) (by decide +kernel)
  have hC := hincluded 8 ⟨5⟩ "C.h" (by decide)
    (.inl ⟨1, by decide +kernel, .staticField rfl rfl rfl rfl rfl⟩) rfl rfl (by decide +kernel)
    (by decide +kernel)
  have hS := hincluded 9 ⟨3⟩ "S.h" (by decide)
    (.inr ⟨⟨2⟩, _, _, rfl, rfl, rfl, by decide⟩) rfl rfl (by decide +kernel) (by decide +kernel)
  have hD := hincluded 8 ⟨6⟩ "D.h" (by decide)
    (.inl ⟨2, by decide +kernel, .function rfl rfl⟩) rfl rfl (by decide +kernel) (by decide +kernel)
  refine ⟨?_, ?_, hjustified⟩
  · simp only [List.forall_mem_cons, List.not_mem_nil, false_imp_iff, implies_true, and_true]
    refine ⟨hB.resolve_right ?_, hC.resolve_right ?_, hS.resolve_right ?_⟩
    · exact fun h => absurd h.1 (by decide)
    · exact fun h => absurd h.1 (by decide)
    · exact fun h => absurd h.1 (by decide)
  · exact (hD.resolve_left fun h => absurd h.1 (by decide +kernel)).2

end GenerationUnit

end ObjectLowering
