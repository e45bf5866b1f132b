import ObjectLowering.Proofs.Type.Spelled
import ObjectLowering.Proofs.Unit.Dependencies
import ObjectLowering.Proofs.Unit.Layout

/-!
# ObjectLowering.Proofs.Unit.Announcements

Every type that a declaration spells is known where the declaration stands.

* `UnitFile.Knows`: a file declares, announces or includes a type above the part of another one.
* `TypeDeclaration.Spells`: the types that a text spells. `occurs_declarationStart`: how a declaration
  starts.
* `knows_publicTypes`, `knows_privateTypes`: so it is with the types that are spelled in the
  declaration file, and in the implementation file.
* `Announces`: the lines of a file that announce types. `announces_files`: no file announces a type
  twice, or one from outside whose header it includes.
* `spelled_types_known`: all this, for every type of a unit.
-/

namespace ObjectLowering

open Text (Occurs Precedes)

/-- Above the part of `g`, the file makes known the type with the binding `b`: it declares the type,
which is one of `types`, announces it, or includes the header. -/
def UnitFile.Knows (f : UnitFile) (types : List GeneratedType) (g : GeneratedType) (b : TypeBinding)
    (header : String) : Prop :=
  f.DeclaresBefore types g b.hash ∧ Precedes ("\n" ++ b.declarationStart) (f.part g) f.text ∨
    f.AnnouncesBefore g b ∨ f.IncludesBefore g header

namespace TypeDeclaration

variable {env : Environment} {d : TypeDeclaration}

/-- A text spells these types, and of other types no more than the names of supertypes. -/
structure Spells (d : TypeDeclaration) (env : Environment) (types : List TypeRef)
    (text : Environment → String) : Prop where
  every : ∀ type ∈ types, Occurs (Spelling.typeName env type) (text env)
  only : ∀ env', (∀ x ∈ d.binding.supertypes, env.fullName? x = env'.fullName? x) →
    (∀ type ∈ types, Spelling.typeName env type = Spelling.typeName env' type) → text env = text env'

theorem spells_publicText (d : TypeDeclaration) (env : Environment) :
    d.Spells env d.publicTypes d.publicText :=
  ⟨fun _ => occurs_publicText, fun _ => publicText_congr⟩

theorem spells_privateText (d : TypeDeclaration) (env : Environment) :
    d.Spells env d.privateTypes d.privateText :=
  ⟨fun _ => occurs_privateText, fun _ => privateText_congr⟩

/-- A headline names the type first. -/
theorem exists_headline (d : TypeDeclaration) (env : Environment) :
    ∃ rest, d.headline env = d.binding.declarationStart ++ rest := by
  have hopen : (" <" : String) = " " ++ "<" := rfl
  have hcolon : (" : " : String) = " " ++ ": " := rfl
  unfold headline TypeBinding.declarationStart name
  split
  · exact ⟨_, by simp only [hopen, String.append_assoc]; rfl⟩
  · exact ⟨_, by simp only [hcolon, String.append_assoc]; rfl⟩

theorem occurs_declarationStart (d : TypeDeclaration) (env : Environment) :
    Occurs ("\n" ++ d.binding.declarationStart) (d.interface env) := by
  obtain ⟨rest, hrest⟩ := d.exists_headline env
  have hstart : "\n" ++ (d.binding.declarationStart ++ rest) =
      "\n" ++ d.binding.declarationStart ++ rest := String.append_assoc.symm
  rw [interface, hrest, hstart]
  iterate 5 refine Occurs.append_right ?_ _
  exact Occurs.refl _

end TypeDeclaration

namespace GenerationUnit

variable {u : GenerationUnit} {c : GenerationContext} {t : Tree} {id : NodeId}
  {d : TypeDeclaration} {g : GeneratedType} {x : TypeHash} {b : TypeBinding} {options : Options}
  {policy : ImportPolicy} {trees : List Tree}

/-- The type is public and declared in the unit, so in its declaration file, and the file `f` includes
the header of the unit. -/
def OwnHeaderDeclares (u : GenerationUnit) (options : Options) (policy : ImportPolicy) (f : UnitFile)
    (g : GeneratedType) (b : TypeBinding) : Prop :=
  (∃ g' ∈ u.types, g'.hash = b.hash ∧ g'.hasPublicSurface = true) ∧
    Occurs ("\n" ++ b.declarationStart) (u.emit options policy).header ∧
      f.IncludesBefore g u.headerPath

/-- A type is imported if it is mentioned, known, and not the one that mentions it. -/
theorem mem_imports_of_mentioned {types : List TypeRef} {type : TypeRef} (h : type ∈ types)
    (hx : type.declaredType? = some x) (hne : x ≠ d.binding.hash) (hb : c.env.type? x = some b)
    (hnative : b.nativeName = none) : Import.ofType b c.headers (c.locals.contains x) ∈
      (ImportContext.mk c.env c.headers c.locals).imports d.binding.hash
        (types.filterMap (·.declaredType?)) :=
  ImportContext.mem_imports_iff.2 ⟨x, List.mem_filterMap.2 ⟨type, h, hx⟩, hne, b, hb, hnative, rfl⟩

/-- The part of a type starts its declaration in the file that declares it, the declaration file if the
type is public. -/
theorem occurs_declarationStart (hbuilt : u.BuiltFrom c trees) (hg : g ∈ u.types)
    (hhash : g.hash = b.hash) (hb : c.env.type? b.hash = some b) :
    g.hasPublicSurface = !g.isPrivate ∧ Occurs ("\n" ++ b.declarationStart)
      (if g.isPrivate then g.privateDeclaration else g.publicDeclaration) := by
  refine ⟨(hbuilt.isGenerated hg).hasPublicSurface_eq, ?_⟩
  obtain ⟨t, -, id, -, hgen⟩ := hbuilt.generated g hg
  obtain ⟨d, hd⟩ := GeneratedType.exists_generatedFrom hgen
  obtain rfl : d.binding = b := by
    rw [← hhash, hd.hash, TypeDeclaration.binding_of_ofTree hd.declaration] at hb
    exact Option.some.inj hb
  have hstart := d.occurs_declarationStart c.env
  rw [hd.isPrivate, hd.publicDeclaration, hd.privateDeclaration, TypeDeclaration.publicText,
    TypeDeclaration.privateText]
  cases d.binding.isPrivate with
  | true => exact hstart.append_right _
  | false => exact hstart.append_right _

/-- A file knows the types that it declares above. -/
theorem knows_of_declared {f : UnitFile} (hlaid : f.LaidOut u.types)
    {before after : List GeneratedType} (hsplit : u.types = before ++ g :: after)
    {g' : GeneratedType} (hg' : g' ∈ before) (hhash : g'.hash = b.hash)
    (hdeclares : f.declares g' = true) (hstart : Occurs ("\n" ++ b.declarationStart) (f.part g'))
    {header : String} : f.Knows u.types g b header := by
  have hbefore := hlaid.declaresBefore hsplit hg' hdeclares
  exact .inl ⟨hhash ▸ hbefore, (hlaid.precedes_part hsplit hg').of_occurs hstart⟩

/-- What the implementation file does not declare, because it is public, the header of the unit does. -/
theorem ownHeaderDeclares (hbuilt : u.BuiltFrom c trees) (hg : g ∈ u.types) {g' : GeneratedType}
    (hg' : g' ∈ u.types) (hhash : g'.hash = b.hash) (hb : c.env.type? b.hash = some b)
    (hpublic : g'.isPrivate = false) :
    u.OwnHeaderDeclares options policy (u.implementationFile options policy) g b := by
  obtain ⟨hsurface, hstart⟩ := occurs_declarationStart hbuilt hg' hhash hb
  rw [hpublic] at hsurface hstart
  refine ⟨⟨g', hg', hhash, hsurface⟩, ?_, ?_⟩
  · exact hstart.trans ((u.headerFile_laidOut options policy).occurs_part hg')
  · exact (u.implementationFile_laidOut options policy).includesBefore hg
      (Dependencies.mem_includes_resolve_iff.2 (.inl (List.mem_cons_of_mem _ List.mem_cons_self)))

section Known

variable (hbuilt : u.BuiltFrom c trees) (hg : g ∈ u.types) (hd : g.GeneratedFrom c t id d)
  (hne : x ≠ g.hash) (hb : c.env.type? x = some b) (hnative : b.nativeName = none)
  {type : TypeRef} (hx : type.declaredType? = some x)

include hbuilt hg hd hne hb hnative hx

/-- The types that are spelled in the declaration file are known there. -/
theorem knows_publicTypes (htype : type ∈ d.publicTypes) :
    (u.headerFile options policy).Knows u.types g b (c.headers.headerFor b.name) := by
  obtain rfl : b.hash = x := Environment.type?_hash hb
  obtain ⟨hpublic, hsurface⟩ := TypeDeclaration.publicTypes_subset htype
  have hi : Import.ofType b c.headers (c.locals.contains b.hash) ∈ g.imports.headerForwards := by
    rw [hd.imports]
    exact TypeImports.mem_headerForwards_iff.2
      ⟨hpublic, mem_imports_of_mentioned hsurface hx (hd.hash ▸ hne) hb hnative⟩
  obtain ⟨before, after, hsplit⟩ := List.append_of_mem hg
  have hlaid := u.headerFile_laidOut options policy
  rcases Dependencies.mem_forwards_ofHeader_or policy options.runtimeHeader hsplit
    (hd.isPrivate.trans hpublic) hi (Ne.symm hne) with
    hf | ⟨g', hg', hpublic', hhash⟩ | hincluded
  · exact .inr (.inl (hlaid.announcesBefore hg hf))
  · have hmem : g' ∈ u.types := hsplit ▸ List.mem_append_left _ hg'
    obtain ⟨hsurface', hstart⟩ := occurs_declarationStart hbuilt hmem hhash hb
    rw [hpublic'] at hsurface' hstart
    exact knows_of_declared hlaid hsplit hg' hhash hsurface' hstart
  · exact .inr (.inr (hlaid.includesBefore hg hincluded))

/-- The types that are spelled in the implementation file are known there, or the unit's own header
declares them. -/
theorem knows_privateTypes (htype : type ∈ d.privateTypes) :
    (u.implementationFile options policy).Knows u.types g b (c.headers.headerFor b.name) ∨
      u.OwnHeaderDeclares options policy (u.implementationFile options policy) g b := by
  obtain rfl : b.hash = x := Environment.type?_hash hb
  have hi : Import.ofType b c.headers (c.locals.contains b.hash) ∈
      g.imports.implementationForwards := by
    rw [hd.imports]
    refine TypeImports.mem_implementationForwards_iff.2 ?_
    rcases TypeDeclaration.privateTypes_subset htype with ⟨hprivate, hsurface⟩ | hhidden
    · exact .inl ⟨hprivate, mem_imports_of_mentioned hsurface hx (hd.hash ▸ hne) hb hnative⟩
    · exact .inr (mem_imports_of_mentioned (List.mem_append_left _ hhidden) hx (hd.hash ▸ hne) hb
        hnative)
  obtain ⟨before, after, hsplit⟩ := List.append_of_mem hg
  have hlaid := u.implementationFile_laidOut options policy
  rcases Dependencies.mem_forwards_ofImplementation_or policy options.runtimeSourceHeader u.headerPath
    hsplit hi (Ne.symm hne) with
    hf | ⟨g', hg', hpublic, hhash⟩ | ⟨g', hg', hhash⟩ | hincluded
  · exact .inl (.inr (.inl (hlaid.announcesBefore hg hf)))
  · exact .inr (ownHeaderDeclares hbuilt hg hg' hhash hb hpublic)
  · have hmem : g' ∈ u.types := hsplit ▸ List.mem_append_left _ hg'
    cases hprivate : g'.isPrivate with
    | false => exact .inr (ownHeaderDeclares hbuilt hg hmem hhash hb hprivate)
    | true =>
      obtain ⟨hsurface, hstart⟩ := occurs_declarationStart hbuilt hmem hhash hb
      rw [hprivate] at hsurface hstart
      exact .inl (knows_of_declared hlaid hsplit hg' hhash (congrArg (!·) hsurface) hstart)
  · exact .inl (.inr (.inr (hlaid.includesBefore hg hincluded)))

end Known

/-- A file announces these types of the environment, each of them once, and from outside none whose
header it includes. Its text has the lines that include headers and, set off by an empty line, those
that announce types. -/
structure Announces (u : GenerationUnit) (env : Environment) (headers : HeaderMap) (f : UnitFile)
    (announced : List TypeBinding) : Prop where
  known : ∀ b ∈ announced, env.type? b.hash = some b
  hashes : f.head.forwards.toList.map (·.hash) = announced.map (·.hash)
  nodup : (announced.map (·.hash)).Nodup
  external : ∀ b ∈ announced, ¬ u.Declares b.hash → headers.headerFor b.name ∉ f.head.includes
  lines : ∃ opening blocks rest, f.text = opening
    ++ String.join (f.head.includes.toList.map fun h => "#include \"" ++ h ++ "\"\n") ++ blocks
    ++ (if announced = [] then "" else "\n" ++ String.join (announced.map (·.announcement))) ++ rest

/-- The types that are imported, with what is written of them. -/
theorem exists_announced {imports : List Import} (h : ∀ i ∈ imports, (ImportContext.mk c.env c.headers
    c.locals).IsImport i) : ∃ announced : List TypeBinding,
      (∀ b ∈ announced, ∃ i ∈ imports, c.env.type? b.hash = some b ∧ i.hash = b.hash ∧
        i.header = c.headers.headerFor b.name) ∧
      imports.map (·.hash) = announced.map (·.hash) ∧
      (imports.map fun i => i.forwardDeclaration ++ "\n") = announced.map (·.announcement) := by
  induction imports with
  | nil => exact ⟨[], by simp, rfl, rfl⟩
  | cons i imports ih =>
    obtain ⟨hi, himports⟩ := List.forall_mem_cons.1 h
    obtain ⟨b, hb, -, hof⟩ := hi
    have hhash : i.hash = b.hash := by rw [hof]; rfl
    obtain ⟨announced, hknown, hhashes, hlines⟩ := ih himports
    refine ⟨b :: announced, List.forall_mem_cons.2 ⟨?_, fun b' hb' => ?_⟩, ?_, ?_⟩
    · exact ⟨i, List.mem_cons_self, hhash ▸ hb, hhash, by rw [hof]; rfl⟩
    · obtain ⟨i', hi', hfacts⟩ := hknown b' hb'
      exact ⟨i', List.mem_cons_of_mem _ hi', hfacts⟩
    · rw [List.map_cons, List.map_cons, hhashes, hhash]
    · rw [List.map_cons, List.map_cons, hlines, hof, TypeBinding.forwardDeclaration_ofType]

theorem announces_resolve {participants : List GeneratedType} {fixed : List String}
    {includesOf forwardsOf : TypeImports → SortedSet Import} {announcesPublic : Bool}
    (h : ∀ g ∈ participants, ∀ i ∈ forwardsOf g.imports, (ImportContext.mk c.env c.headers
      c.locals).IsImport i) {f : UnitFile} (hf : f.head = Dependencies.resolve policy u.types
        participants fixed includesOf forwardsOf announcesPublic)
    (hhead : f.HasHead) : ∃ announced, u.Announces c.env c.headers f announced := by
  have himport : ∀ i ∈ f.head.forwards.toList, (ImportContext.mk c.env c.headers c.locals).IsImport
      i := by
    intro i hi
    rw [hf] at hi
    obtain ⟨before, g, after, rfl, hi, -⟩ := Dependencies.mem_forwards_resolve_iff.1 hi
    exact h g (by simp) i hi
  obtain ⟨announced, hknown, hhashes, hlines⟩ := exists_announced himport
  have hsection : forwardSection f.head =
      if announced = [] then "" else "\n" ++ String.join (announced.map (·.announcement)) := by
    have hempty : f.head.forwards.isEmpty = true ↔ announced = [] := by
      rw [SortedSet.isEmpty, List.isEmpty_iff, ← List.map_eq_nil_iff, hhashes, List.map_eq_nil_iff]
    simp only [forwardSection, Dependencies.forwardLines, hlines, hempty]
  refine ⟨announced, fun b hb => ?_, hhashes, ?_, fun b hb hout => ?_, ?_⟩
  · obtain ⟨-, -, hb, -⟩ := hknown b hb
    exact hb
  · rw [← hhashes, hf]
    exact Dependencies.nodup_forwards h
  · obtain ⟨i, hi, -, hhash, hheader⟩ := hknown b hb
    rw [← hheader]
    rw [hf] at hi ⊢
    exact Dependencies.not_mem_includes_of_forwards hi (not_declares_iff.1 (hhash ▸ hout))
  · obtain ⟨opening, blocks, rest, htext⟩ := hhead
    refine ⟨opening, blocks, rest, ?_⟩
    rw [htext, Dependencies.includeLines, hsection]

theorem announces_files (hbuilt : u.BuiltFrom c trees) :
    (∃ announced, u.Announces c.env c.headers (u.headerFile options policy) announced) ∧
      ∃ announced, u.Announces c.env c.headers (u.implementationFile options policy) announced := by
  have himport {g : GeneratedType} (hg : g ∈ u.types) {i : Import}
      (hi : i ∈ g.imports.headerForwards ∨ i ∈ g.imports.implementationForwards) :
      (ImportContext.mk c.env c.headers c.locals).IsImport i := by
    obtain ⟨t, -, id, -, hgen⟩ := hbuilt.generated g hg
    obtain ⟨d, hd⟩ := GeneratedType.exists_generatedFrom hgen
    rw [hd.imports] at hi
    exact TypeImports.isImport_of_mem_forwards hi
  constructor
  · exact announces_resolve (fun g hg i hi => himport (List.mem_of_mem_filter hg) (.inl hi)) rfl
      (u.headerFile_composed options policy).hasHead
  · exact announces_resolve (fun g hg i hi => himport hg (.inr hi)) rfl
      (u.implementationFile_composed options policy).hasHead

/-- What a declaration of a unit spells is known where it stands, and the files announce no more than
they have to. -/
theorem spelled_types_known {plan : UnitPlan} {trees : List Tree} {env : Environment}
    {headers : HeaderMap} (h : build plan trees env options headers = .ok u) (policy : ImportPolicy) :
    (∀ g ∈ u.types, ∃ t ∈ trees, ∃ id ∈ t.typeDecls, ∃ d, TypeDeclaration.ofTree env t id = .ok d ∧
      g.hash = d.binding.hash ∧
      g.publicDeclaration = d.publicText env ∧ d.Spells env d.publicTypes d.publicText ∧
      g.privateDeclaration = d.privateText env ∧ d.Spells env d.privateTypes d.privateText ∧
      ∀ x b, x ≠ g.hash → env.type? x = some b → b.nativeName = none →
        (∀ type ∈ d.publicTypes, type.declaredType? = some x →
          (u.headerFile options policy).Knows u.types g b (headers.headerFor b.name)) ∧
        (∀ type ∈ d.privateTypes, type.declaredType? = some x →
          (u.implementationFile options policy).Knows u.types g b (headers.headerFor b.name) ∨
            u.OwnHeaderDeclares options policy (u.implementationFile options policy) g b)) ∧
      (∃ announced, u.Announces env headers (u.headerFile options policy) announced) ∧
      ∃ announced, u.Announces env headers (u.implementationFile options policy) announced := by
  obtain ⟨c, rfl, -, rfl, -, hbuilt⟩ := build_builtFrom h
  refine ⟨fun g hg => ?_, announces_files hbuilt⟩
  obtain ⟨t, ht, id, hid, hgen⟩ := hbuilt.generated g hg
  obtain ⟨d, hd⟩ := GeneratedType.exists_generatedFrom hgen
  refine ⟨t, ht, id, hid, d, hd.declaration, hd.hash, hd.publicDeclaration,
    d.spells_publicText c.env, hd.privateDeclaration, d.spells_privateText c.env,
    fun x b hne hb hnative => ⟨?_, ?_⟩⟩
  · intro type htype hx
    exact knows_publicTypes hbuilt hg hd hne hb hnative hx htype
  · intro type htype hx
    exact knows_privateTypes hbuilt hg hd hne hb hnative hx htype

/-! ## A class that spells four types -/

def shelfClass (name : String) (hash : UInt64) : TypeBinding where
  name := ⟨[], [name]⟩
  hash := ⟨hash⟩

def shelfHelper : TypeBinding :=
  { shelfClass "D" 4 with visibility := .packageAccess }

/-- `A` extends `B`, and has an instance variable of the type `C` and a static field of the type `D`
for itself. Its method takes a `B` and gives an `E`. -/
def shelfEnv : Environment where
  types := #[{ shelfClass "A" 1 with superclass := some ⟨2⟩ }, shelfClass "B" 2, shelfClass "C" 3,
    shelfHelper, shelfClass "E" 5]
  vars := #[
    { name := "item", kind := .field, declaringType := some ⟨1⟩, type := .pointer (.declared ⟨3⟩) },
    { name := "pool", kind := .field, declaringType := some ⟨1⟩, type := .declared ⟨4⟩
      modifiers := { isStatic := true } },
    { name := "b", kind := .parameter, type := .declared ⟨2⟩ }]

/-- A file that declares `E`, `A` and `D`. -/
def shelfTree : Tree where
  nodes := #[
    { kind := .fieldDecl 0 none, parent := some 4 },
    { kind := .fieldDecl 1 none, parent := some 4 },
    { kind := .methodDecl { name := "take:", declaringType := ⟨1⟩, returnType := .declared ⟨5⟩ } [2]
        none, parent := some 4 },
    { kind := .typeDecl (some ⟨5⟩) [], parent := some 6 },
    { kind := .typeDecl (some ⟨1⟩) [0, 1, 2], parent := some 6 },
    { kind := .typeDecl (some ⟨4⟩) [], parent := some 6 },
    { kind := .compilationUnit "A.java" [3, 4, 5] [] }]
  root := some 6

def shelfBuild : Except GenerationError GenerationUnit :=
  build ⟨"A.java", "A", [0]⟩ [shelfTree] shelfEnv {} .empty

def shelf : GenerationUnit :=
  shelfBuild.toOption.get (by decide +kernel)

/-- `A` spells `B`, whose header is included, `E`, which is declared before it, and `C` and `D`, which
are announced. -/
theorem spelled_types_known_shelf : ∃ g ∈ shelf.types, g.hash = ⟨1⟩ ∧
    (shelf.headerFile {} (.blocking [])).Knows shelf.types g (shelfClass "B" 2) "B.h" ∧
    (shelf.headerFile {} (.blocking [])).Knows shelf.types g (shelfClass "C" 3) "C.h" ∧
    (shelf.headerFile {} (.blocking [])).Knows shelf.types g (shelfClass "E" 5) "E.h" ∧
    ((shelf.implementationFile {} (.blocking [])).Knows shelf.types g shelfHelper "D.h" ∨
      shelf.OwnHeaderDeclares {} (.blocking []) (shelf.implementationFile {} (.blocking [])) g
        shelfHelper) := by
  have hbuild : build ⟨"A.java", "A", [0]⟩ [shelfTree] shelfEnv {} .empty = .ok shelf := eq_ok_get _
  have hspelled := (spelled_types_known hbuild (.blocking [])).1
  obtain ⟨g, hg, hhash⟩ : ∃ g ∈ shelf.types, g.hash = ⟨1⟩ := by decide +kernel
  obtain ⟨t, ht, id, hid, d, hd, hdhash, -, -, -, -, hknown⟩ := hspelled g hg
  obtain rfl := List.mem_singleton.1 ht
  have htypes : ∀ id ∈ shelfTree.typeDecls,
      (TypeDeclaration.ofTree shelfEnv shelfTree id).toOption.all fun d => d.binding.hash = ⟨1⟩ →
        d.publicTypes = [.pointer (.declared ⟨3⟩), .declared ⟨5⟩, .declared ⟨2⟩] ∧
          d.privateTypes = [.declared ⟨4⟩] := by decide +kernel
  have hd' := htypes id hid
  rw [hd] at hd'
  obtain ⟨hpublic, hprivate⟩ := of_decide_eq_true hd' (hdhash.symm.trans hhash)
  rw [hpublic, hprivate] at hknown
  have hknows (b : TypeBinding) (header : String) (hne : b.hash ≠ ⟨1⟩)
      (hb : shelfEnv.type? b.hash = some b) (hnative : b.nativeName = none)
      (hheader : HeaderMap.empty.headerFor b.name = header) :=
    hheader ▸ hknown b.hash b (hhash ▸ hne) hb hnative
  have hB := hknows (shelfClass "B" 2) "B.h" (by decide) rfl rfl (by decide +kernel)
  have hC := hknows (shelfClass "C" 3) "C.h" (by decide) rfl rfl (by decide +kernel)
  have hD := hknows shelfHelper "D.h" (by decide) rfl rfl (by decide +kernel)
  have hE := hknows (shelfClass "E" 5) "E.h" (by decide) rfl rfl (by decide +kernel)
  exact ⟨g, hg, hhash, hB.1 (.declared ⟨2⟩) (by decide) rfl,
    hC.1 (.pointer (.declared ⟨3⟩)) (by decide) rfl, hE.1 (.declared ⟨5⟩) (by decide) rfl,
    hD.2 (.declared ⟨4⟩) (by decide) rfl⟩

end GenerationUnit

end ObjectLowering
