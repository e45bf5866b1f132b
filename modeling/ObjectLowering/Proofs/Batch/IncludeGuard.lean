import Mathlib.Data.List.Forall2
import ObjectLowering.Proofs.Batch.Emitted

/-!
# ObjectLowering.Proofs.Batch.IncludeGuard

Which declaration files share a guard, so that whoever includes both of them reads only the first.

* `GuardsAlike`: the characters of output paths that guards do not tell apart.
* `Guarded`: a text that is left out where a macro is defined, and else defines it.
* `guards_eq_iff`: two units share a guard just if their output paths are alike, character by
  character.
* `guard_shared`: two units that share one, and a third that includes both.
-/

namespace ObjectLowering

namespace GenerationUnit

variable {u v : GenerationUnit}

/-- Guards keep letters and digits, and write all other characters in one way. -/
def GuardsAlike (c d : Char) : Prop :=
  c = d ∨ c.isAlphanum = false ∧ d.isAlphanum = false

theorem guardChar_of_isAlphanum {c : Char} (h : c.isAlphanum = true) : guardChar c = c :=
  if_pos h

theorem guardChar_of_not_isAlphanum {c : Char} (h : c.isAlphanum = false) : guardChar c = '_' :=
  if_neg (Bool.eq_false_iff.1 h)

theorem isAlphanum_guardChar (c : Char) : (guardChar c).isAlphanum = c.isAlphanum := by
  cases h : c.isAlphanum with
  | true => rw [guardChar_of_isAlphanum h, h]
  | false =>
    rw [guardChar_of_not_isAlphanum h]
    decide

theorem guardChar_eq_iff {c d : Char} : guardChar c = guardChar d ↔ GuardsAlike c d := by
  constructor
  · intro h
    have hclass : c.isAlphanum = d.isAlphanum := by
      rw [← isAlphanum_guardChar c, h, isAlphanum_guardChar]
    cases hc : c.isAlphanum with
    | true =>
      rw [guardChar_of_isAlphanum hc, guardChar_of_isAlphanum (hclass ▸ hc)] at h
      exact .inl h
    | false => exact .inr ⟨hc, hclass ▸ hc⟩
  · rintro (rfl | ⟨hc, hd⟩)
    · rfl
    · rw [guardChar_of_not_isAlphanum hc, guardChar_of_not_isAlphanum hd]

theorem includeGuard_eq_iff : u.includeGuard = v.includeGuard ↔
    List.Forall₂ GuardsAlike u.outputPath.toList v.outputPath.toList := by
  have hchars : u.includeGuard = v.includeGuard ↔
      u.outputPath.toList.map guardChar = v.outputPath.toList.map guardChar := by
    simp only [includeGuard, ← String.toList_inj, String.toList_append, List.append_left_inj,
      String.toList_ofList]
  rw [hchars, ← List.forall₂_eq_eq_eq, List.forall₂_map_left_iff, List.forall₂_map_right_iff]
  simp only [guardChar_eq_iff]

/-- The text stands behind a banner, is left out where the macro is defined, and defines it. -/
def Guarded (banner guard text : String) : Prop :=
  ∃ body, text = banner ++ "\n#ifndef " ++ guard ++ "\n#define " ++ guard ++ "\n\n" ++ body
    ++ "\n#endif // " ++ guard ++ "\n"

theorem guarded_header (u : GenerationUnit) (options : Options) (policy : ImportPolicy) :
    Guarded (u.banner options) u.includeGuard (u.emit options policy).header := by
  refine ⟨(u.headerDependencies options policy).includeLines
    ++ forwardSection (u.headerDependencies options policy)
    ++ String.join (u.types.map (·.publicDeclaration)), ?_⟩
  simp only [emit, headerText, String.append_assoc]

/-- The guards of two declaration files are the same just if the output paths are alike, character by
character. -/
theorem guards_eq_iff (u v : GenerationUnit) (options : Options) (policy : ImportPolicy) :
    Guarded (u.banner options) u.includeGuard (u.emit options policy).header ∧
      Guarded (v.banner options) v.includeGuard (v.emit options policy).header ∧
      (u.includeGuard = v.includeGuard ↔
        List.Forall₂ GuardsAlike u.outputPath.toList v.outputPath.toList) :=
  ⟨u.guarded_header options policy, v.guarded_header options policy, includeGuard_eq_iff⟩

end GenerationUnit

namespace Generator

/-! ## A guard that two units share -/

/-- The class `C` extends `X` and adopts `Y`. -/
def guardGenerator : Generator where
  env := { types := #[
    { name := ⟨[], ["X"]⟩, hash := ⟨1⟩ },
    { name := ⟨[], ["Y"]⟩, hash := ⟨2⟩, kind := .interfaceType },
    { name := ⟨[], ["C"]⟩, hash := ⟨3⟩, superclass := some ⟨1⟩, interfaces := [⟨2⟩] }] }
  options := { headerMapping := .bySourceDirectory }

def guardFile (sourceName : String) (type : TypeHash) : SourceInput where
  sourceName
  tree := {
    nodes := #[
      { kind := .typeDecl (some type) [], parent := some 1 },
      { kind := .compilationUnit sourceName [0] [] }]
    root := some 1 }

def guardFiles : List SourceInput :=
  [guardFile "a/b.java" ⟨1⟩, guardFile "a_b.java" ⟨2⟩, guardFile "c.java" ⟨3⟩]

/-- The headers `a/b.h` and `a_b.h` have one guard, and `c.h` includes both. -/
theorem guard_shared : ∃ e ∈ guardGenerator.emitted guardFiles,
    ∃ e' ∈ guardGenerator.emitted guardFiles, ∃ f ∈ guardGenerator.emitted guardFiles,
      e.2.outputPath = "a/b" ∧ e'.2.outputPath = "a_b" ∧
      e.2.includeGuard = e'.2.includeGuard ∧
      e.2.headerPath ∈ (f.2.headerDependencies guardGenerator.options guardGenerator.policy).includes ∧
      e'.2.headerPath ∈
        (f.2.headerDependencies guardGenerator.options guardGenerator.policy).includes := by
  decide +kernel

end Generator

end ObjectLowering
