import ObjectLowering.Proofs.Text.Occurs
import ObjectLowering.Unit.Emitted

/-!
# ObjectLowering.Proofs.Unit.Layout

In what order the parts of the two files of a unit stand.

* `UnitFile`: one of the two files; `headerFile` and `implementationFile` are those of a unit.
* `UnitFile.Composed`: a file includes headers and announces types with the lines of its head, and then
  declares types. `headerFile_composed` and `implementationFile_composed`: so do both files.
* `UnitFile.LaidOut`: includes, announced types and the declarations of earlier types stand above the
  declaration of a type.
* `UnitFile.IncludesBefore`, `UnitFile.AnnouncesBefore`, `UnitFile.DeclaresBefore`: the ways in which
  a file makes a type known above the declaration of another one.
-/

namespace ObjectLowering

open Text (Occurs Precedes)

namespace TypeBinding

/-- The line that announces a type without its declaration. -/
def announcement (b : TypeBinding) : String :=
  (if b.isInterface then "@protocol " else "@class ") ++ b.fullName ++ ";\n"

/-- How the declaration of a type starts. -/
def declarationStart (b : TypeBinding) : String :=
  (if b.isInterface then "@protocol " else "@interface ") ++ b.fullName ++ " "

theorem forwardDeclaration_ofType (b : TypeBinding) (headers : HeaderMap) (isLocal : Bool) :
    (Import.ofType b headers isLocal).forwardDeclaration ++ "\n" = b.announcement := by
  have hend : (";" : String) ++ "\n" = ";\n" := rfl
  rw [Import.forwardDeclaration, String.append_assoc, hend]
  rfl

end TypeBinding

namespace Dependencies

variable {d : Dependencies}

theorem occurs_includeLines {h : String} (hh : h ∈ d.includes) :
    Occurs ("#include \"" ++ h ++ "\"\n") d.includeLines :=
  (Occurs.refl _).in_join (List.mem_map.2 ⟨h, hh, rfl⟩)

theorem occurs_forwardSection {i : Import} (hi : i ∈ d.forwards) :
    Occurs ("\n" ++ (i.forwardDeclaration ++ "\n")) (GenerationUnit.forwardSection d) := by
  have hne : d.forwards.isEmpty = false :=
    List.isEmpty_eq_false_iff.2 (List.ne_nil_of_mem (SortedSet.mem_def.1 hi))
  rw [GenerationUnit.forwardSection, hne]
  refine Occurs.line_in_join (List.mem_map.2 ⟨i, hi, rfl⟩) fun line hline => ?_
  obtain ⟨other, -, rfl⟩ := List.mem_map.1 hline
  exact ⟨_, rfl⟩

end Dependencies

/-! ## Files -/

/-- One of the two files of a unit. -/
structure UnitFile where
  text : String
  /-- What stands at the head of the file. -/
  head : Dependencies
  /-- What the file says of a type above all implementations. -/
  part : GeneratedType → String
  /-- This file, and not the other one, holds the declaration of the type. -/
  declares : GeneratedType → Bool

namespace UnitFile

/-- Above the part of a type stand the head of the file and the parts of all earlier types. -/
def LaidOut (f : UnitFile) (types : List GeneratedType) : Prop :=
  ∀ before g after, types = before ++ g :: after → ∃ opening blocks setup rest, f.text =
    opening ++ f.head.includeLines ++ blocks ++ GenerationUnit.forwardSection f.head ++ setup
      ++ String.join (before.map f.part) ++ f.part g ++ rest

/-- The file includes headers and announces types with the lines of its head. -/
def HasHead (f : UnitFile) : Prop :=
  ∃ opening blocks rest, f.text =
    opening ++ f.head.includeLines ++ blocks ++ GenerationUnit.forwardSection f.head ++ rest

/-- After its head, the file holds the parts of all types. -/
def Composed (f : UnitFile) (types : List GeneratedType) : Prop :=
  ∃ opening blocks setup rest, f.text =
    opening ++ f.head.includeLines ++ blocks ++ GenerationUnit.forwardSection f.head ++ setup
      ++ String.join (types.map f.part) ++ rest

/-- Above the part of `g`, the file includes the header. -/
def IncludesBefore (f : UnitFile) (g : GeneratedType) (header : String) : Prop :=
  header ∈ f.head.includes ∧ Precedes ("#include \"" ++ header ++ "\"\n") (f.part g) f.text

/-- Above the part of `g`, a line of the file announces the type with the binding `b`. -/
def AnnouncesBefore (f : UnitFile) (g : GeneratedType) (b : TypeBinding) : Prop :=
  (∃ i ∈ f.head.forwards, i.hash = b.hash) ∧
    Precedes ("\n" ++ b.announcement) (f.part g) f.text

/-- Above the part of `g`, the file declares the type `x`, which is one of `types`. -/
def DeclaresBefore (f : UnitFile) (types : List GeneratedType) (g : GeneratedType) (x : TypeHash) :
    Prop :=
  ∃ g' ∈ types, g'.hash = x ∧ f.declares g' = true ∧ Precedes (f.part g') (f.part g) f.text

variable {f : UnitFile} {types before after : List GeneratedType} {g g' : GeneratedType}

theorem Composed.laidOut (h : f.Composed types) : f.LaidOut types := by
  rintro before g after rfl
  obtain ⟨opening, blocks, setup, rest, htext⟩ := h
  refine ⟨opening, blocks, setup, String.join (after.map f.part) ++ rest, ?_⟩
  rw [htext]
  simp only [List.map_append, List.map_cons, String.join_append, String.join_cons,
    String.append_assoc]

theorem Composed.hasHead (h : f.Composed types) : f.HasHead := by
  obtain ⟨opening, blocks, setup, rest, htext⟩ := h
  refine ⟨opening, blocks, setup ++ String.join (types.map f.part) ++ rest, ?_⟩
  rw [htext]
  simp only [String.append_assoc]

theorem LaidOut.includesBefore (h : f.LaidOut types) (hg : g ∈ types) {header : String}
    (hh : header ∈ f.head.includes) : f.IncludesBefore g header := by
  obtain ⟨before, after, hsplit⟩ := List.append_of_mem hg
  obtain ⟨opening, blocks, setup, rest, htext⟩ := h before g after hsplit
  refine ⟨hh, ?_⟩
  rw [htext]
  exact (((((Dependencies.occurs_includeLines hh).append_left _).append_right _).append_right
    _).append_right _).append_right _ |>.precedes _ _

theorem LaidOut.announcesBefore (h : f.LaidOut types) (hg : g ∈ types) {b : TypeBinding}
    {headers : HeaderMap} {isLocal : Bool} (hi : Import.ofType b headers isLocal ∈ f.head.forwards) :
    f.AnnouncesBefore g b := by
  obtain ⟨before, after, hsplit⟩ := List.append_of_mem hg
  obtain ⟨opening, blocks, setup, rest, htext⟩ := h before g after hsplit
  refine ⟨⟨_, hi, rfl⟩, ?_⟩
  rw [htext, ← TypeBinding.forwardDeclaration_ofType b headers isLocal]
  exact (((Dependencies.occurs_forwardSection hi).append_left _).append_right _).append_right _
    |>.precedes _ _

theorem LaidOut.occurs_part (h : f.LaidOut types) (hg : g ∈ types) : Occurs (f.part g) f.text := by
  obtain ⟨before, after, hsplit⟩ := List.append_of_mem hg
  obtain ⟨opening, blocks, setup, rest, htext⟩ := h before g after hsplit
  rw [htext]
  exact ((Occurs.refl _).append_left _).append_right _

theorem LaidOut.precedes_part (h : f.LaidOut types) (hsplit : types = before ++ g :: after)
    (hg' : g' ∈ before) : Precedes (f.part g') (f.part g) f.text := by
  obtain ⟨opening, blocks, setup, rest, htext⟩ := h before g after hsplit
  rw [htext]
  exact ((Occurs.refl _).in_join (List.mem_map_of_mem hg')).append_left _ |>.precedes _ _

theorem LaidOut.declaresBefore (h : f.LaidOut types) (hsplit : types = before ++ g :: after)
    (hg' : g' ∈ before) (hdeclares : f.declares g' = true) :
    f.DeclaresBefore types g g'.hash :=
  ⟨g', hsplit ▸ List.mem_append_left _ hg', rfl, hdeclares, h.precedes_part hsplit hg'⟩

end UnitFile

/-! ## The files of a unit -/

namespace GenerationUnit

variable {u : GenerationUnit} {options : Options} {policy : ImportPolicy}

/-- The declaration file, which declares the public types. -/
def headerFile (u : GenerationUnit) (options : Options) (policy : ImportPolicy) : UnitFile where
  text := (u.emit options policy).header
  head := u.headerDependencies options policy
  part := (·.publicDeclaration)
  declares := (·.hasPublicSurface)

/-- The implementation file, which declares the other types. -/
def implementationFile (u : GenerationUnit) (options : Options) (policy : ImportPolicy) :
    UnitFile where
  text := (u.emit options policy).implementation
  head := u.implementationDependencies options policy
  part := (·.privateDeclaration)
  declares := fun g => !g.hasPublicSurface

theorem headerFile_composed (u : GenerationUnit) (options : Options) (policy : ImportPolicy) :
    (u.headerFile options policy).Composed u.types := by
  refine ⟨u.banner options ++ "\n#ifndef " ++ u.includeGuard ++ "\n#define " ++ u.includeGuard
    ++ "\n\n", "", "", "\n#endif // " ++ u.includeGuard ++ "\n", ?_⟩
  show u.headerText options (u.headerDependencies options policy) = _
  simp only [headerText, headerFile, String.append_assoc, String.append_empty]

theorem implementationFile_composed (u : GenerationUnit) (options : Options)
    (policy : ImportPolicy) : (u.implementationFile options policy).Composed u.types := by
  refine ⟨u.banner options ++ "\n", String.join (u.nativeBlocks.map endLine),
    "\n" ++ u.memoryModelCheck options ++ u.incompletePragmas ++ "\n#pragma clang diagnostic push\n"
      ++ "#pragma clang diagnostic ignored \"-Wdeprecated-declarations\"\n"
      ++ u.strings.declarations,
    String.join (u.types.map (·.implementation)) ++ "\n#pragma clang diagnostic pop\n", ?_⟩
  show u.implementationText options (u.implementationDependencies options policy) = _
  simp only [implementationText, implementationFile, String.append_assoc]

theorem headerFile_laidOut (u : GenerationUnit) (options : Options) (policy : ImportPolicy) :
    (u.headerFile options policy).LaidOut u.types :=
  (u.headerFile_composed options policy).laidOut

theorem implementationFile_laidOut (u : GenerationUnit) (options : Options)
    (policy : ImportPolicy) : (u.implementationFile options policy).LaidOut u.types :=
  (u.implementationFile_composed options policy).laidOut

/-- The headers that are left out of one of the files are reported. -/
theorem mem_unimportable_emit_iff {h : String} : h ∈ (u.emit options policy).unimportable ↔
    h ∈ (u.implementationDependencies options policy).unimportable ∨
      h ∈ (u.headerDependencies options policy).unimportable := by
  rw [SortedSet.mem_def (s := (u.headerDependencies options policy).unimportable)]
  exact SortedSet.mem_insertAll

end GenerationUnit

end ObjectLowering
