import Mathlib.Data.List.Sort
import ObjectLowering.Proofs.FirstOccurrence
import ObjectLowering.Unit.Plan

/-!
# ObjectLowering.Proofs.Unit.Plan

How a batch of source files is divided into units.

* `DirectoryPlans.InStep`: what holds after some files have been passed. The units are those of the
  directories that have been met, and the index says where they stand. `inStep_add`: the next file
  keeps it so; `planUnits_perDirectory`: what this comes to at the end.
* `membersOf`: the files of a unit in the order of the batch; `filterMap_members`: they are found at
  the positions that the plan lists.
* `members_perm`: every file of the batch belongs to exactly one unit.
* `planUnits_membersOf`: planned on their own, the files of a unit make up the same unit.
-/

namespace ObjectLowering

/-! ## The pass over the files -/

namespace UnitPlan

/-- The positions of the files of a directory. -/
def filesIn (sources : List String) (directory : String) : List Nat :=
  (sources.zipIdx.filter fun (source, _) => Text.Path.parent source = directory).map (·.2)

/-- The directories of the files, in the order of their first files. -/
def directories (sources : List String) : List String :=
  (sources.map Text.Path.parent).eraseDups

variable {sources : List String} {directory : String}

theorem mem_filesIn {i : Nat} :
    i ∈ filesIn sources directory ↔
      ∃ source, sources[i]? = some source ∧ Text.Path.parent source = directory := by
  simp [filesIn, List.mk_mem_zipIdx_iff_getElem?]

theorem filesIn_sublist (sources : List String) (directory : String) :
    (filesIn sources directory).Sublist (List.range sources.length) := by
  rw [List.range_eq_range', ← List.zipIdx_map_snd]
  exact List.filter_sublist.map _

theorem mem_directories_iff :
    directory ∈ directories sources ↔ ∃ source ∈ sources, Text.Path.parent source = directory := by
  rw [directories, List.mem_eraseDups, List.mem_map]

theorem filesIn_concat (sources : List String) (source directory : String) :
    filesIn (sources ++ [source]) directory =
      filesIn sources directory ++
        if Text.Path.parent source = directory then [sources.length] else [] := by
  rw [filesIn, List.zipIdx_append, List.filter_append, List.map_append]
  by_cases h : Text.Path.parent source = directory
  · simp [filesIn, h]
  · simp [filesIn, h]

theorem directories_concat_of_mem {source : String}
    (h : Text.Path.parent source ∈ directories sources) :
    directories (sources ++ [source]) = directories sources := by
  rw [directories, List.map_append]
  exact eraseDups_concat_of_mem (List.mem_eraseDups.1 h)

theorem directories_concat_of_notMem {source : String}
    (h : Text.Path.parent source ∉ directories sources) :
    directories (sources ++ [source]) = directories sources ++ [Text.Path.parent source] := by
  rw [directories, List.map_append]
  exact eraseDups_concat_of_notMem (mt List.mem_eraseDups.2 h)

end UnitPlan

namespace DirectoryPlans

open UnitPlan

/-- What holds after files have been passed: the units are those of the directories that have been
met, with the files that have been passed, and each is found in the index where it stands. -/
structure InStep (p : DirectoryPlans) (sources : List String) : Prop where
  plans : p.plans.toList = (directories sources).map fun d => ofDirectory d (filesIn sources d)
  byDirectory : p.byDirectory.InStep (directories sources)

variable {p : DirectoryPlans} {sources : List String}

/-- A file of a directory that has been met is put to its unit, and all other units stay. -/
theorem InStep.add_member (h : p.InStep sources) {source : String} {plan : Nat}
    (hplan : p.byDirectory.get? (Text.Path.parent source) = some plan) :
    InStep { p with plans := p.plans.modify plan (·.addMember sources.length) }
      (sources ++ [source]) := by
  have hat := (h.byDirectory _ _).1 hplan
  have hdirectories : directories (sources ++ [source]) = directories sources :=
    directories_concat_of_mem (List.mem_of_getElem? hat)
  refine ⟨List.ext_getElem? fun i => ?_, ?_⟩
  · rw [Array.toList_modify, List.getElem?_modify, h.plans, hdirectories, List.getElem?_map,
      List.getElem?_map, Option.map_eq_map, Option.map_map]
    refine Option.map_congr fun d hd => ?_
    -- the index says where the directory stands, and it stands nowhere else
    have hsame : plan = i ↔ Text.Path.parent source = d := by
      constructor
      · rintro rfl
        exact Option.some.inj (hat.symm.trans hd)
      · rintro rfl
        exact Option.some.inj (hplan.symm.trans ((h.byDirectory _ _).2 hd))
    rw [Function.comp, filesIn_concat]
    by_cases hi : plan = i
    · rw [if_pos hi, if_pos (hsame.1 hi)]
      rfl
    · rw [if_neg hi, if_neg (mt hsame.2 hi), List.append_nil]
  · rw [hdirectories]
    exact h.byDirectory

/-- A file of a new directory opens a unit behind all others. -/
theorem InStep.add_plan (h : p.InStep sources) {source : String}
    (hnone : p.byDirectory.get? (Text.Path.parent source) = none) :
    InStep
      { plans := p.plans.push (.ofDirectory (Text.Path.parent source) [sources.length])
        byDirectory := p.byDirectory.insert (Text.Path.parent source) p.plans.size }
      (sources ++ [source]) := by
  have hnew : Text.Path.parent source ∉ directories sources := by
    intro hm
    obtain ⟨i, hi⟩ := List.getElem?_of_mem hm
    rw [(h.byDirectory _ _).2 hi] at hnone
    cases hnone
  have hdirectories : directories (sources ++ [source]) =
      directories sources ++ [Text.Path.parent source] :=
    directories_concat_of_notMem hnew
  have hsize : p.plans.size = (directories sources).length := by
    rw [← Array.length_toList, h.plans, List.length_map]
  have hfiles : filesIn sources (Text.Path.parent source) = [] := by
    refine List.eq_nil_iff_forall_not_mem.2 fun i hi => hnew (mem_directories_iff.2 ?_)
    obtain ⟨other, hother, hparent⟩ := mem_filesIn.1 hi
    exact ⟨other, List.mem_of_getElem? hother, hparent⟩
  refine ⟨?_, ?_⟩
  · rw [Array.toList_push, h.plans, hdirectories, List.map_append, List.map_singleton,
      filesIn_concat, if_pos rfl, hfiles, List.nil_append]
    refine congrArg (· ++ _) (List.map_congr_left fun d hd => ?_)
    have hne : Text.Path.parent source ≠ d := fun he => hnew (he ▸ hd)
    rw [filesIn_concat, if_neg hne, List.append_nil]
  · rw [hdirectories, hsize]
    exact h.byDirectory.insert hnone

theorem inStep_add (h : p.InStep sources) (source : String) :
    (p.add (source, sources.length)).InStep (sources ++ [source]) := by
  rw [add]
  cases hplan : p.byDirectory.get? (Text.Path.parent source) with
  | some plan => exact h.add_member hplan
  | none => exact h.add_plan hplan

/-- The units and the index stay in step as the files are passed one by one. -/
theorem inStep_ofSources (sources : List String) : (ofSources sources).InStep sources := by
  induction sources using List.reverseRecOn with
  | nil => exact ⟨rfl, Index.inStep_empty⟩
  | append_singleton sources source ih =>
    have hlast : ofSources (sources ++ [source]) =
        (ofSources sources).add (source, sources.length) := by
      rw [ofSources, List.zipIdx_append, List.foldl_append, ofSources]
      simp
    rw [hlast]
    exact inStep_add ih source

end DirectoryPlans

/-- The units of directories: one for each directory, with all its files. -/
theorem planUnits_perDirectory (sources : List String) :
    planUnits sources .perDirectory = (UnitPlan.directories sources).map fun directory =>
      .ofDirectory directory (UnitPlan.filesIn sources directory) :=
  (DirectoryPlans.inStep_ofSources sources).plans

/-! ## The files of a unit -/

namespace UnitPlan

variable {α β : Type}

/-- Of a list that goes with the files of a batch, what belongs to the files of a unit. -/
def membersOf (plan : UnitPlan) (batch : List α) : List α :=
  (batch.zipIdx.filter fun (_, i) => i ∈ plan.members).map (·.1)

theorem map_membersOf (plan : UnitPlan) (f : α → β) (batch : List α) :
    (plan.membersOf batch).map f = plan.membersOf (batch.map f) := by
  rw [membersOf, membersOf, List.zipIdx_map, List.filter_map, List.map_map, List.map_map]
  rfl

theorem membersOf_range (plan : UnitPlan) (batch : List α) :
    { plan with members := List.range batch.length }.membersOf batch = batch := by
  have hall : (batch.zipIdx.filter fun (_, i) => i ∈ List.range batch.length) = batch.zipIdx := by
    refine List.filter_eq_self.2 fun x hx => decide_eq_true (List.mem_range.2 ?_)
    exact (List.getElem?_eq_some_iff.1 (List.mem_zipIdx_iff_getElem?.1 hx)).1
  rw [membersOf, hall, List.zipIdx_map_fst]

/-! ## Positions -/

/-- The positions of a unit are those of files of the batch, ascending. -/
structure Listed (plan : UnitPlan) (n : Nat) : Prop where
  ascending : plan.members.Pairwise (· < ·)
  lt_length : ∀ i ∈ plan.members, i < n

/-- Reading the batch at the listed positions gives the files in the order of the batch. -/
theorem Listed.filterMap_members {plan : UnitPlan} {batch : List α}
    (h : plan.Listed batch.length) :
    plan.members.filterMap (batch[·]?) = plan.membersOf batch := by
  have hsub : ((batch.zipIdx.filter fun (_, i) => i ∈ plan.members).map (·.2)).Sublist
      (List.range batch.length) := by
    rw [List.range_eq_range', ← List.zipIdx_map_snd]
    exact List.filter_sublist.map _
  -- two ascending lists with the same positions
  have hpositions : plan.members = (batch.zipIdx.filter fun (_, i) => i ∈ plan.members).map (·.2) := by
    refine List.Perm.eq_of_pairwise ?_ h.ascending (List.pairwise_lt_range.sublist hsub) ?_
    · intro i j _ _ hij hji
      omega
    · refine (List.perm_ext_iff_of_nodup (h.ascending.imp Nat.ne_of_lt)
        (hsub.nodup List.nodup_range)).2 fun i => ?_
      constructor
      · intro hi
        refine List.mem_map.2 ⟨(batch.get ⟨i, h.lt_length i hi⟩, i), List.mem_filter.2 ⟨?_, ?_⟩, rfl⟩
        · exact List.mk_mem_zipIdx_iff_getElem?.2 (List.getElem?_eq_getElem (h.lt_length i hi))
        · simpa using hi
      · intro hi
        obtain ⟨x, hx, rfl⟩ := List.mem_map.1 hi
        simpa using (List.mem_filter.1 hx).2
  have hread : ∀ x ∈ batch.zipIdx.filter fun (_, i) => i ∈ plan.members,
      batch[x.2]? = some x.1 := fun x hx =>
    List.mem_zipIdx_iff_getElem?.1 (List.mem_of_mem_filter hx)
  conv_lhs => rw [hpositions]
  rw [List.filterMap_map, membersOf, ← List.filterMap_eq_map]
  exact List.filterMap_congr hread

/-- All files of one directory. -/
theorem filesIn_of_parent {sources : List String} {directory : String}
    (h : ∀ source ∈ sources, Text.Path.parent source = directory) :
    filesIn sources directory = List.range sources.length := by
  rw [filesIn, List.filter_eq_self.2 ?hall, List.zipIdx_map_snd, List.range_eq_range']
  case hall =>
    intro x hx
    exact decide_eq_true (h x.1 (List.mem_of_getElem? (List.mem_zipIdx_iff_getElem?.1 hx)))

theorem directories_of_parent {sources : List String} {directory : String} (hne : sources ≠ [])
    (h : ∀ source ∈ sources, Text.Path.parent source = directory) :
    directories sources = [directory] := by
  obtain ⟨source, sources, rfl⟩ := List.exists_cons_of_ne_nil hne
  have hnone : ((sources.map Text.Path.parent).filter fun d => !d == directory) = [] := by
    refine List.filter_eq_nil_iff.2 fun d hd => ?_
    obtain ⟨s, hs, rfl⟩ := List.mem_map.1 hd
    simp [h s (List.mem_cons_of_mem _ hs)]
  rw [directories, List.map_cons, h source List.mem_cons_self, List.eraseDups_cons, hnone]
  rfl

theorem listed_of_mem {sources : List String} {grouping : UnitGrouping} {plan : UnitPlan}
    (h : plan ∈ planUnits sources grouping) : plan.Listed sources.length := by
  cases grouping with
  | perFile =>
    obtain ⟨⟨source, i⟩, hi, rfl⟩ := List.mem_map.1 h
    obtain ⟨hlt, -⟩ := List.getElem?_eq_some_iff.1 (List.mk_mem_zipIdx_iff_getElem?.1 hi)
    exact ⟨List.pairwise_singleton .., fun j hj => List.mem_singleton.1 hj ▸ hlt⟩
  | perDirectory =>
    rw [planUnits_perDirectory] at h
    obtain ⟨directory, -, rfl⟩ := List.mem_map.1 h
    have hsub := filesIn_sublist sources directory
    exact ⟨List.pairwise_lt_range.sublist hsub, fun i hi => List.mem_range.1 (hsub.subset hi)⟩

end UnitPlan

/-! ## Every file in one unit -/

/-- Every file of the batch belongs to exactly one unit. -/
theorem members_perm (sources : List String) (grouping : UnitGrouping) :
    ((planUnits sources grouping).flatMap (·.members)).Perm (List.range sources.length) := by
  cases grouping with
  | perFile =>
    rw [planUnits, List.flatMap_map, List.range_eq_range', ← List.zipIdx_map_snd,
      List.map_eq_flatMap]
    exact .refl _
  | perDirectory =>
    rw [planUnits_perDirectory, List.flatMap_map]
    refine (List.perm_ext_iff_of_nodup ?_ List.nodup_range).2 fun i => ?_
    · refine List.nodup_flatMap.2 ⟨fun d _ => ?_, ?_⟩
      · exact (UnitPlan.filesIn_sublist sources d).nodup List.nodup_range
      · refine (nodup_eraseDups _).imp fun {d e} hne i hd he => hne ?_
        obtain ⟨source, hs, rfl⟩ := UnitPlan.mem_filesIn.1 hd
        obtain ⟨source', hs', rfl⟩ := UnitPlan.mem_filesIn.1 he
        rw [Option.some.inj (hs.symm.trans hs')]
    · rw [List.mem_flatMap, List.mem_range]
      constructor
      · rintro ⟨d, -, hi⟩
        exact List.mem_range.1 ((UnitPlan.filesIn_sublist sources d).subset hi)
      · intro hi
        exact ⟨Text.Path.parent sources[i],
          UnitPlan.mem_directories_iff.2 ⟨sources[i], List.getElem_mem hi, rfl⟩,
          UnitPlan.mem_filesIn.2 ⟨sources[i], by simp, rfl⟩⟩

/-! ## A unit on its own -/

/-- Planned on their own, the files of a unit make up the same unit. -/
theorem planUnits_membersOf {sources : List String} {grouping : UnitGrouping} {plan : UnitPlan}
    (h : plan ∈ planUnits sources grouping) :
    planUnits (plan.membersOf sources) grouping =
      [{ plan with members := List.range (plan.membersOf sources).length }] := by
  have hmembers := (UnitPlan.listed_of_mem h).filterMap_members
  cases grouping with
  | perFile =>
    obtain ⟨⟨source, i⟩, hi, rfl⟩ := List.mem_map.1 h
    have hget : sources[i]? = some source := List.mk_mem_zipIdx_iff_getElem?.1 hi
    have hone : (UnitPlan.ofFile source i).membersOf sources = [source] := by
      rw [← hmembers]
      simp [UnitPlan.ofFile, hget]
    rw [hone]
    rfl
  | perDirectory =>
    rw [planUnits_perDirectory] at h
    obtain ⟨directory, hd, rfl⟩ := List.mem_map.1 h
    generalize hfiles : (UnitPlan.ofDirectory directory
      (UnitPlan.filesIn sources directory)).membersOf sources = files at hmembers ⊢
    have hall : ∀ source ∈ files, Text.Path.parent source = directory := by
      intro source hs
      rw [← hmembers] at hs
      obtain ⟨i, hi, hsome⟩ := List.mem_filterMap.1 hs
      obtain ⟨source', hs', hp⟩ := UnitPlan.mem_filesIn.1 hi
      rwa [Option.some.inj (hsome.symm.trans hs')]
    have hne : files ≠ [] := by
      obtain ⟨source, hs, hp⟩ := UnitPlan.mem_directories_iff.1 hd
      obtain ⟨i, hi⟩ := List.getElem?_of_mem hs
      rw [← hmembers]
      exact List.ne_nil_of_mem (List.mem_filterMap.2 ⟨i, UnitPlan.mem_filesIn.2 ⟨source, hi, hp⟩, hi⟩)
    rw [planUnits_perDirectory, UnitPlan.directories_of_parent hne hall, List.map_singleton,
      UnitPlan.filesIn_of_parent hall]
    rfl

end ObjectLowering
