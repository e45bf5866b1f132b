import ObjectLowering.Proofs.Unit.Dependencies
import ObjectLowering.Proofs.Unit.Layout

/-!
# ObjectLowering.Proofs.Unit.Headers

What the declaration file of a unit includes.

* `Generated.exists_import_iff`: the declaration of a public type needs the headers of its supertypes.
* `mem_includes_header_iff`: a declaration file includes the header of the runtime, and of all
  supertypes of its public types those headers that may be included, but for supertypes of the unit.
* `mem_unimportable_header_iff`: it reports the other headers of supertypes.
-/

namespace ObjectLowering

/-! ## What a type imports -/

namespace GeneratedType

/-- The declaration of a public type uses its supertypes. -/
theorem Generated.exists_import_iff {env : Environment} {headers : HeaderMap} {g : GeneratedType}
    (h : g.Generated env headers) {p : TypeHash → String → Prop} :
    (∃ i ∈ g.imports.headerIncludes.toList, p i.hash i.header) ↔ g.isPrivate = false ∧
      ∃ x ∈ g.supertypes, x ≠ g.hash ∧ ∃ b, env.type? x = some b ∧ b.nativeName = none ∧
        p x (headers.headerFor b.name) := by
  obtain ⟨c, t, id, rfl, rfl, hg⟩ := h
  obtain ⟨d, hd⟩ := exists_generatedFrom hg
  rw [hd.hash, hd.isPrivate, hd.supertypes, hd.imports, ← ImportContext.exists_mem_imports_iff
    (c := ⟨c.env, c.headers, c.locals⟩)]
  simp only [← SortedSet.mem_def, TypeImports.mem_headerIncludes_iff, and_assoc, exists_and_left]

end GeneratedType

/-! ## What a declaration file includes -/

namespace GenerationUnit

theorem occurs_header {u : GenerationUnit} {options : Options} {policy : ImportPolicy} {h : String}
    (hh : h ∈ (u.headerDependencies options policy).includes) :
    Text.Occurs ("#include \"" ++ h ++ "\"\n") (u.emit options policy).header := by
  -- what stands after the lines of includes
  iterate 5 refine Text.Occurs.append_right ?_ _
  exact (Dependencies.occurs_includeLines hh).append_left _

variable {u : GenerationUnit} {env : Environment} {headers : HeaderMap} {options : Options}
  {policy : ImportPolicy} {h : String}

/-- The header is that of a type from outside that a public type of the unit extends. -/
def ExtendsFrom (u : GenerationUnit) (env : Environment) (headers : HeaderMap) (header : String) :
    Prop :=
  ∃ g ∈ u.types, g.isPrivate = false ∧ ∃ x ∈ g.supertypes, ¬ u.Declares x ∧
    ∃ b, env.type? x = some b ∧ b.nativeName = none ∧ headers.headerFor b.name = header

/-- A declaration file needs the headers of the supertypes of its public types, but for supertypes
that the unit declares itself and those that stand for types of the runtime. -/
theorem needed_header_iff (hu : ∀ g ∈ u.types, g.Generated env headers) :
    Dependencies.Needed u.types (u.types.filter fun g => !g.isPrivate) (·.headerIncludes) h ↔
      u.ExtendsFrom env headers h := by
  simp only [ExtendsFrom, Dependencies.Needed, List.mem_filter, Bool.not_eq_true', and_assoc,
    ← not_declares_iff]
  refine exists_congr fun g => and_congr_right fun hg => and_congr_right fun hpublic => ?_
  rw [(hu g hg).exists_import_iff (p := fun x header => ¬ u.Declares x ∧ header = h)]
  constructor
  · rintro ⟨-, x, hx, -, b, hb, hnative, hx', hh⟩
    exact ⟨x, hx, hx', b, hb, hnative, hh⟩
  · rintro ⟨x, hx, hx', b, hb, hnative, hh⟩
    refine ⟨hpublic, x, hx, ?_, b, hb, hnative, hx', hh⟩
    rintro rfl
    exact hx' ⟨g, hg, rfl⟩

/-- A declaration file includes the header of the runtime and those that it needs, as far as they may
be included. -/
theorem mem_includes_header_iff (hu : ∀ g ∈ u.types, g.Generated env headers) :
    h ∈ (u.headerDependencies options policy).includes ↔
      h = options.runtimeHeader ∨ policy h = true ∧ u.ExtendsFrom env headers h := by
  rw [headerDependencies, Dependencies.ofHeader, Dependencies.mem_includes_resolve_iff,
    List.mem_singleton, needed_header_iff hu]

/-- The headers that it needs and may not include are left out. -/
theorem mem_unimportable_header_iff (hu : ∀ g ∈ u.types, g.Generated env headers) :
    h ∈ (u.headerDependencies options policy).unimportable ↔
      policy h = false ∧ u.ExtendsFrom env headers h := by
  rw [headerDependencies, Dependencies.ofHeader, Dependencies.mem_unimportable_resolve_iff,
    needed_header_iff hu]

end GenerationUnit

end ObjectLowering
