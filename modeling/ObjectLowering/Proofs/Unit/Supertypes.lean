import ObjectLowering.Proofs.Unit.Headers

/-!
# ObjectLowering.Proofs.Unit.Supertypes

Which supertypes of a type are known where its declaration stands.

* `Introduces`: a declaration file includes a type or declares it before another one, unless its
  header may not be included.
* `supertype_introduced`: a declaration file does so with the supertypes of its types, unless a
  supertype is declared in the unit and kept out of the declaration file.
-/

namespace ObjectLowering

open Text (Occurs)

namespace GenerationUnit

/-- Above the declaration of `g`, the declaration file includes the header of the type `x` or declares
the type itself, or else the policy refuses the header and it is reported. -/
def Introduces (u : GenerationUnit) (options : Options) (policy : ImportPolicy) (g : GeneratedType)
    (x : TypeHash) (header : String) : Prop :=
  (u.headerFile options policy).IncludesBefore g header ∨
    (u.headerFile options policy).DeclaresBefore u.types g x ∨
    policy header = false ∧ header ∈ (u.emit options policy).unimportable

variable {u : GenerationUnit} {c : GenerationContext} {trees : List Tree} {options : Options}
  {g : GeneratedType} {x : TypeHash} {b : TypeBinding}

theorem hasPublicSurface_of_hash (hbuilt : u.BuiltFrom c trees) (hb : c.env.type? x = some b)
    (hg : g ∈ u.types) (hhash : g.hash = x) : g.hasPublicSurface = !b.isPrivate := by
  obtain ⟨b', hb', hprivate, -⟩ := (hbuilt.isGenerated hg).binding
  obtain rfl : b' = b := Option.some.inj (hb'.symm.trans (hhash ▸ hb))
  rw [(hbuilt.isGenerated hg).hasPublicSurface_eq, hprivate]

/-- Supertypes from outside are included or refused. -/
theorem introduces_external (hbuilt : u.BuiltFrom c trees) (policy : ImportPolicy) (hg : g ∈ u.types)
    (hpublic : g.isPrivate = false) (hx : x ∈ g.supertypes) (hb : c.env.type? x = some b)
    (hnative : b.nativeName = none) (hout : ¬ u.Declares x) :
    u.Introduces options policy g x (c.headers.headerFor b.name) := by
  have hneeded : u.ExtendsFrom c.env c.headers (c.headers.headerFor b.name) :=
    ⟨g, hg, hpublic, x, hx, hout, b, hb, hnative, rfl⟩
  have hu : ∀ g ∈ u.types, g.Generated c.env c.headers := fun g hg => hbuilt.isGenerated hg
  cases hpolicy : policy (c.headers.headerFor b.name) with
  | true =>
    exact .inl ((u.headerFile_laidOut options policy).includesBefore hg
      ((mem_includes_header_iff hu).2 (.inr ⟨hpolicy, hneeded⟩)))
  | false =>
    exact .inr (.inr ⟨hpolicy, mem_unimportable_emit_iff.2 (.inr
      ((mem_unimportable_header_iff hu).2 ⟨hpolicy, hneeded⟩))⟩)

/-- Supertypes of the unit come first, and the public ones have a part in the declaration file. -/
theorem introduces_local (hbuilt : u.BuiltFrom c trees) (policy : ImportPolicy) (hg : g ∈ u.types)
    (hx : x ∈ g.supertypes) (hb : c.env.type? x = some b) (hin : u.Declares x)
    (hpublic : b.isPrivate = false) {header : String} :
    u.Introduces options policy g x header := by
  obtain ⟨before, after, hsplit⟩ := List.append_of_mem hg
  obtain ⟨g', hg', hhash⟩ := hbuilt.supertypesFirst hsplit x hx hin
  have hsurface : g'.hasPublicSurface = true := by
    rw [hasPublicSurface_of_hash hbuilt hb (hsplit ▸ List.mem_append_left _ hg') hhash, hpublic]
    rfl
  exact .inr (.inl (hhash ▸ (u.headerFile_laidOut options policy).declaresBefore hsplit hg' hsurface))

/-- The supertypes of a public type are introduced before it, but for those that the unit declares
and does not make public: they have no part in the declaration file. -/
theorem supertype_introduced {plan : UnitPlan} {env : Environment} {headers : HeaderMap}
    (h : build plan trees env options headers = .ok u) (policy : ImportPolicy) (hg : g ∈ u.types)
    (hpublic : g.isPrivate = false) (hx : x ∈ g.supertypes) (hb : env.type? x = some b)
    (hnative : b.nativeName = none) :
    (¬ (u.Declares x ∧ b.isPrivate = true) →
        u.Introduces options policy g x (headers.headerFor b.name)) ∧
      (b.isPrivate = true → ∀ g' ∈ u.types, g'.hash = x → g'.hasPublicSurface = false) := by
  obtain ⟨c, rfl, -, rfl, -, hbuilt⟩ := build_builtFrom h
  constructor
  · intro hvisible
    by_cases hin : u.Declares x
    · have hpublic' : b.isPrivate = false := by simpa [hin] using hvisible
      exact introduces_local hbuilt policy hg hx hb hin hpublic'
    · exact introduces_external hbuilt policy hg hpublic hx hb hnative hin
  · intro hprivate g' hg' hhash
    rw [hasPublicSurface_of_hash hbuilt hb hg' hhash, hprivate]
    rfl

/-! ## A class with three supertypes -/

/-- `A` extends `B` and adopts `I` and `J`. -/
def familyEnv (visibility : Visibility) : Environment where
  types := #[
    { name := ⟨[], ["A"]⟩, hash := ⟨1⟩, superclass := some ⟨2⟩, interfaces := [⟨3⟩, ⟨4⟩] },
    { name := ⟨[], ["B"]⟩, hash := ⟨2⟩, visibility },
    { name := ⟨[], ["I"]⟩, hash := ⟨3⟩, kind := .interfaceType },
    { name := ⟨[], ["J"]⟩, hash := ⟨4⟩, kind := .interfaceType }]

/-- A file that declares `A` before `B`. -/
def familyTree : Tree where
  nodes := #[
    { kind := .typeDecl (some ⟨1⟩) [], parent := some 2 },
    { kind := .typeDecl (some ⟨2⟩) [], parent := some 2 },
    { kind := .compilationUnit "A.java" [0, 1] [] }]
  root := some 2

def familyBuild (visibility : Visibility) : Except GenerationError GenerationUnit :=
  build ⟨"A.java", "A", [0]⟩ [familyTree] (familyEnv visibility) {} .empty

def family (visibility : Visibility) : GenerationUnit :=
  (familyBuild visibility).toOption.get (by cases visibility <;> decide +kernel)

theorem familyBuild_eq (visibility : Visibility) :
    familyBuild visibility = .ok (family visibility) :=
  eq_ok_get _

/-- `B` comes before `A`, the header of `I` is included, and that of `J` is refused. -/
theorem supertype_introduced_family : ∃ g ∈ (family .publicAccess).types, g.hash = ⟨1⟩ ∧
    (family .publicAccess).Introduces {} (.blocking ["J.h"]) g ⟨2⟩ "B.h" ∧
    (family .publicAccess).Introduces {} (.blocking ["J.h"]) g ⟨3⟩ "I.h" ∧
    (family .publicAccess).Introduces {} (.blocking ["J.h"]) g ⟨4⟩ "J.h" := by
  obtain ⟨g, hg, hhash, hpublic, hsuper⟩ : ∃ g ∈ (family .publicAccess).types,
      g.hash = ⟨1⟩ ∧ g.isPrivate = false ∧ g.supertypes = [⟨2⟩, ⟨3⟩, ⟨4⟩] := by decide +kernel
  have hintroduced {x : TypeHash} {b : TypeBinding} {header : String} (hx : x ∈ [⟨2⟩, ⟨3⟩, ⟨4⟩])
      (hb : (familyEnv .publicAccess).type? x = some b)
      (hvisible : b.nativeName = none ∧ b.isPrivate = false)
      (hheader : HeaderMap.empty.headerFor b.name = header) :
      (family .publicAccess).Introduces {} (.blocking ["J.h"]) g x header :=
    hheader ▸ (supertype_introduced (familyBuild_eq _) (.blocking ["J.h"]) hg hpublic (hsuper ▸ hx)
      hb hvisible.1).1 (by simp [hvisible.2])
  exact ⟨g, hg, hhash, hintroduced (by decide) rfl (by decide) (by decide +kernel),
    hintroduced (by decide) rfl (by decide) (by decide +kernel),
    hintroduced (by decide) rfl (by decide) (by decide +kernel)⟩

/-- If `B` is not public, the declaration of `A` names it all the same, and it is not introduced. -/
theorem private_supertype_not_introduced :
    familyBuild .packageAccess = .ok (family .packageAccess) ∧
      ((familyEnv .packageAccess).type? ⟨2⟩).map (·.nativeName) = some none ∧
      ∃ g ∈ (family .packageAccess).types, g.isPrivate = false ∧ ⟨2⟩ ∈ g.supertypes ∧
        Occurs "@interface A : B <I, J>" g.publicDeclaration ∧
        ¬ (family .packageAccess).Introduces {} (.blocking []) g ⟨2⟩ "B.h" := by
  obtain ⟨g, hg, hpublic, hsuper, hnamed⟩ : ∃ g ∈ (family .packageAccess).types,
      g.isPrivate = false ∧ ⟨2⟩ ∈ g.supertypes ∧
      Occurs "@interface A : B <I, J>" g.publicDeclaration := by decide +kernel
  refine ⟨familyBuild_eq _, rfl, g, hg, hpublic, hsuper, hnamed, ?_⟩
  rintro (⟨hincluded, -⟩ | ⟨g', hg', hhash', hsurface, -⟩ | ⟨-, hreported⟩)
  · exact absurd hincluded (by decide +kernel)
  · exact absurd hsurface (by revert g'; decide +kernel)
  · exact absurd hreported (by decide +kernel)

end GenerationUnit

end ObjectLowering
