import ObjectLowering.Proofs.Text.Pieces
import ObjectLowering.Proofs.Unit.Plan

/-!
# ObjectLowering.Proofs.Unit.Grouping

How the files of a batch are grouped into units, and where the units of directories are written.

* `beforeLastSegment_append`: what is written behind the last `/` of a path says where the path splits.
* `parent_directoryOutput`: the unit of a directory is written into the directory.
* `DividesByDirectory`, `WritesApart`: what grouping by directories gives, and what its output paths
  have in common.
* `planUnits_divides`: so files are grouped.
-/

namespace ObjectLowering

/-! ## Paths -/

namespace Text.Path

theorem ne_slash_of_mem_reverse {name : List Char} (h : '/' ∉ name) :
    ∀ c ∈ name.reverse, decide (c ≠ '/') = true := fun _ hc =>
  decide_eq_true fun he => h (he ▸ List.mem_reverse.1 hc)

theorem beforeLastSegment_append {directory name : List Char} (h : '/' ∉ name) :
    beforeLastSegment (directory ++ '/' :: name) = directory := by
  rw [beforeLastSegment, List.reverse_append, List.reverse_cons, List.append_assoc,
    List.dropWhile_append_of_pos (ne_slash_of_mem_reverse h)]
  simp

theorem beforeLastSegment_prefix (path : List Char) : beforeLastSegment path <+: path := by
  have hsuffix : ((path.reverse.dropWhile (· ≠ '/')).drop 1) <:+ path.reverse :=
    (List.drop_suffix 1 _).trans (List.dropWhile_suffix _)
  have h := List.reverse_prefix.2 hsuffix
  rwa [List.reverse_reverse] at h

/-- A directory is as relative as the files in it. -/
theorem head?_parent {path : String} (h : path.toList.head? ≠ some '/') :
    (parent path).toList.head? ≠ some '/' := by
  intro hslash
  rw [parent, String.toList_ofList] at hslash
  obtain ⟨rest, hrest⟩ := beforeLastSegment_prefix path.toList
  refine h ?_
  rw [← hrest, List.head?_append, hslash]
  rfl

end Text.Path

namespace Text

namespace Uppercase

theorem ofNat_ne_slash {n : Nat} (h : 0x41 ≤ n) : Char.ofNat n ≠ '/' := by
  intro hslash
  by_cases hvalid : n.isValidChar
  · have hchar : Char.ofNat n = Char.ofNatAux n hvalid := dif_pos hvalid
    have hcode : n = 0x2f := congrArg Char.toNat (hchar.symm.trans hslash)
    omega
  · have hchar : Char.ofNat n = Char.ofNat 0 := dif_neg hvalid
    exact absurd (hchar.symm.trans hslash) (by decide)

/-- No character above ASCII is mapped to anything below the letters. -/
theorem le_of_mem_upperBeyondAscii {code n : Nat} (hcode : 0x80 ≤ code)
    (h : n ∈ upperBeyondAscii code) : 0x41 ≤ n := by
  have hexpansions : ∀ e ∈ expansions, ∀ m ∈ e.2, 0x41 ≤ m := by decide +kernel
  have hruns : ∀ r ∈ runs, 0x41 ≤ r.image := by decide +kernel
  unfold upperBeyondAscii at h
  split at h
  · rename_i image hlookup
    obtain ⟨before, after, hsplit, -⟩ := List.lookup_eq_some_iff.1 hlookup
    exact hexpansions (code, image) (hsplit ▸ List.mem_append_right _ List.mem_cons_self) n h
  · rw [List.mem_singleton] at h
    cases hfind : runs.findSome? (·.upper? code) with
    | none =>
      rw [hfind, Option.getD_none] at h
      omega
    | some image =>
      rw [hfind, Option.getD_some] at h
      obtain ⟨run, hrun, himage⟩ := List.exists_of_findSome?_eq_some hfind
      have := hruns run hrun
      unfold Run.upper? at himage
      split at himage
      · cases himage
        omega
      · cases himage

theorem slash_notMem_upper {c : Char} (h : c ≠ '/') : '/' ∉ upper c := by
  unfold upper
  split
  · rename_i hascii
    have hupper : ∀ n < 0x80, Char.ofNat n ≠ '/' → (Char.ofNat n).toUpper ≠ '/' := by
      decide +kernel
    have hc := hupper c.toNat hascii
    rw [Char.ofNat_toNat] at hc
    simpa using (hc h).symm
  · rename_i hascii
    intro hmem
    obtain ⟨n, hn, hslash⟩ := List.mem_map.1 hmem
    exact ofNat_ne_slash (le_of_mem_upperBeyondAscii (Nat.not_lt.1 hascii) hn) hslash

end Uppercase

end Text

theorem slash_notMem_camelCase {segments : List String} (h : ∀ s ∈ segments, '/' ∉ s.toList) :
    '/' ∉ (camelCase segments).toList := by
  intro hmem
  rw [camelCase, String.toList_join, List.mem_flatMap] at hmem
  obtain ⟨word, hword, hmem⟩ := hmem
  obtain ⟨segment, hsegment, rfl⟩ := List.mem_map.1 hword
  have hslash := h segment hsegment
  split at hmem
  · cases hmem
  · rename_i first rest htext
    rw [htext, List.mem_cons, not_or] at hslash
    rw [String.toList_ofList, List.mem_append] at hmem
    rcases hmem with hmem | hmem
    · exact Text.Uppercase.slash_notMem_upper (Ne.symm hslash.1) hmem
    · exact hslash.2 hmem

/-! ## Directories -/

namespace UnitPlan

/-- The unit of a directory other than the root is written behind the `/` that closes its path. -/
theorem directoryOutput_eq {directory : String} (hne : directory ≠ "")
    (h : directory.toList.head? ≠ some '/') :
    ∃ name, '/' ∉ name.toList ∧ directoryOutput directory = directory ++ "/" ++ name := by
  unfold directoryOutput
  split
  · rename_i hnone
    exact absurd hnone (Text.pieces_ne_nil hne h)
  · exact ⟨_, slash_notMem_camelCase fun s hs => Text.notMem_of_mem_pieces hs, rfl⟩

/-- The unit of a directory is written into the directory. -/
theorem parent_directoryOutput {directory : String} (h : directory.toList.head? ≠ some '/') :
    Text.Path.parent (directoryOutput directory) = directory := by
  by_cases hne : directory = ""
  · subst hne
    decide
  · obtain ⟨name, hname, houtput⟩ := directoryOutput_eq hne h
    have hpath : (directoryOutput directory).toList = directory.toList ++ '/' :: name.toList := by
      simp [houtput]
    rw [Text.Path.parent, hpath, Text.Path.beforeLastSegment_append hname, String.ofList_toList]

theorem head?_eq_of_le {l : List Nat} {n : Nat} (hl : l.Pairwise (· < ·)) (hn : n ∈ l)
    (hle : ∀ m ∈ l, n ≤ m) : l.head? = some n := by
  obtain ⟨first, rest, rfl⟩ := List.exists_cons_of_ne_nil (List.ne_nil_of_mem hn)
  rcases List.mem_cons.1 hn with rfl | hn
  · rfl
  · have := List.rel_of_pairwise_cons hl hn
    have := hle first List.mem_cons_self
    omega

/-- The first file of a directory is where the directory is met first. -/
theorem head?_filesIn {sources : List String} {directory : String}
    (h : directory ∈ sources.map Text.Path.parent) :
    (filesIn sources directory).head? = some ((sources.map Text.Path.parent).idxOf directory) := by
  have hfound {i : Nat} : i ∈ filesIn sources directory ↔
      (sources.map Text.Path.parent)[i]? = some directory := by
    rw [mem_filesIn, List.getElem?_map, Option.map_eq_some_iff]
  refine head?_eq_of_le (List.pairwise_lt_range.sublist (filesIn_sublist sources directory)) ?_ ?_
  · exact hfound.2 (List.getElem?_idxOf h)
  · exact fun i hi => idxOf_le_of_getElem? (hfound.1 hi)

end UnitPlan

/-! ## Grouping -/

/-- The units hold every file once, the files of a directory together and in order, and stand in the
order of their first files. -/
structure DividesByDirectory (plans : List UnitPlan) (sources : List String) : Prop where
  ascending : ∀ p ∈ plans, p.members.Pairwise (· < ·)
  once : (plans.flatMap (·.members)).Perm (List.range sources.length)
  together : ∀ {i j source source'}, sources[i]? = some source → sources[j]? = some source' →
    ((∃ p ∈ plans, i ∈ p.members ∧ j ∈ p.members) ↔
      Text.Path.parent source = Text.Path.parent source')
  byFirst : ∃ firsts : List Nat, plans.map (·.members.head?) = firsts.map some ∧
    firsts.Pairwise (· < ·)

/-- No two units are written to one place, and each is written into the directory of its files. -/
structure WritesApart (plans : List UnitPlan) (sources : List String) : Prop where
  distinct : (plans.map (·.outputPath)).Nodup
  inside : ∀ p ∈ plans, ∀ i ∈ p.members, ∀ source, sources[i]? = some source →
    Text.Path.parent source ≠ "" →
      ∃ name, '/' ∉ name.toList ∧ p.outputPath = Text.Path.parent source ++ "/" ++ name

variable {sources : List String}

theorem dividesByDirectory_planUnits (sources : List String) :
    DividesByDirectory (planUnits sources .perDirectory) sources where
  ascending p hp := (UnitPlan.listed_of_mem hp).ascending
  once := members_perm sources .perDirectory
  together {i j source source'} hi hj := by
    constructor
    · rintro ⟨p, hp, hip, hjp⟩
      rw [planUnits_perDirectory] at hp
      obtain ⟨directory, -, rfl⟩ := List.mem_map.1 hp
      obtain ⟨_, hi', hdirectory⟩ := UnitPlan.mem_filesIn.1 hip
      obtain ⟨_, hj', hdirectory'⟩ := UnitPlan.mem_filesIn.1 hjp
      cases hi.symm.trans hi'
      cases hj.symm.trans hj'
      exact hdirectory.trans hdirectory'.symm
    · intro hsame
      have hdirectory : Text.Path.parent source ∈ UnitPlan.directories sources :=
        UnitPlan.mem_directories_iff.2 ⟨source, List.mem_of_getElem? hi, rfl⟩
      rw [planUnits_perDirectory]
      exact ⟨_, List.mem_map_of_mem hdirectory, UnitPlan.mem_filesIn.2 ⟨source, hi, rfl⟩,
        UnitPlan.mem_filesIn.2 ⟨source', hj, hsame.symm⟩⟩
  byFirst := by
    refine ⟨(UnitPlan.directories sources).map ((sources.map Text.Path.parent).idxOf ·), ?_,
      List.pairwise_map.2 (pairwise_idxOf_eraseDups _)⟩
    rw [planUnits_perDirectory, List.map_map, List.map_map]
    exact List.map_congr_left fun directory hd => UnitPlan.head?_filesIn (List.mem_eraseDups.1 hd)

theorem writesApart_planUnits (h : ∀ source ∈ sources, source.toList.head? ≠ some '/') :
    WritesApart (planUnits sources .perDirectory) sources where
  distinct := by
    have hparents : ((planUnits sources .perDirectory).map (·.outputPath)).map Text.Path.parent =
        UnitPlan.directories sources := by
      rw [planUnits_perDirectory, List.map_map, List.map_map]
      conv_rhs => rw [← List.map_id (UnitPlan.directories sources)]
      refine List.map_congr_left fun directory hd => ?_
      obtain ⟨source, hsource, hdirectory⟩ := UnitPlan.mem_directories_iff.1 hd
      have hrelative := Text.Path.head?_parent (h source hsource)
      rw [hdirectory] at hrelative
      exact UnitPlan.parent_directoryOutput hrelative
    -- the output path of a unit gives back its directory
    refine List.Nodup.of_map Text.Path.parent ?_
    rw [hparents]
    exact nodup_eraseDups _
  inside p hp i hi source hsource hne := by
    rw [planUnits_perDirectory] at hp
    obtain ⟨directory, -, rfl⟩ := List.mem_map.1 hp
    obtain ⟨source', hsource', hdirectory⟩ := UnitPlan.mem_filesIn.1 hi
    have hrelative := Text.Path.head?_parent (h source (List.mem_of_getElem? hsource))
    rw [Option.some.inj (hsource'.symm.trans hsource)] at hdirectory
    rw [hdirectory] at hne hrelative ⊢
    exact UnitPlan.directoryOutput_eq hne hrelative

/-- Grouping by files makes one unit of each file, in order. Grouping by directories divides the files
by their directories, and if no path is absolute, no two units are written to one place. -/
theorem planUnits_divides (sources : List String) :
    (∀ i : Nat, (planUnits sources .perFile)[i]? =
      sources[i]?.map fun source => ⟨source, Text.Path.stripExtension source, [i]⟩) ∧
    DividesByDirectory (planUnits sources .perDirectory) sources ∧
    ((∀ source ∈ sources, source.toList.head? ≠ some '/') →
      WritesApart (planUnits sources .perDirectory) sources) := by
  refine ⟨fun i => ?_, dividesByDirectory_planUnits sources, writesApart_planUnits⟩
  rw [planUnits, List.getElem?_map, List.getElem?_zipIdx, Option.map_map]
  simp [UnitPlan.ofFile, Function.comp_def]

/-- An absolute path may stand for the root as well as the empty one does. -/
example : (planUnits ["A.java", "//B.java"] .perDirectory).map (·.outputPath) =
    ["DefaultPackage", "DefaultPackage"] := by
  decide +kernel

def packageSources : List String :=
  ["com/foo/A.java", "com/bar/C.java", "com/foo/B.java", "Main.java"]

theorem planUnits_divides_packages : (∀ source ∈ packageSources, source.toList.head? ≠ some '/') ∧
    DividesByDirectory (planUnits packageSources .perDirectory) packageSources ∧
    WritesApart (planUnits packageSources .perDirectory) packageSources ∧
    planUnits packageSources .perDirectory =
      [⟨"com/foo", "com/foo/ComFoo", [0, 2]⟩, ⟨"com/bar", "com/bar/ComBar", [1]⟩,
        ⟨".", "DefaultPackage", [3]⟩] := by
  have hrelative : ∀ source ∈ packageSources, source.toList.head? ≠ some '/' := by decide
  obtain ⟨-, hdivides, hapart⟩ := planUnits_divides packageSources
  exact ⟨hrelative, hdivides, hapart hrelative, by decide +kernel⟩

end ObjectLowering
