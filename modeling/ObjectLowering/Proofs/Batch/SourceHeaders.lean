import ObjectLowering.Proofs.Batch.Emitted
import ObjectLowering.Proofs.Unit.Includes

/-!
# ObjectLowering.Proofs.Batch.SourceHeaders

Headers that follow the place of source files are those that the units are written to.

* `HeaderMap.get?_foldl_put`: of several entries for a name, the last one counts.
* `Generator.existsUnique_unit`: every file of a batch belongs to one unit.
* `QualifiedName.Within`: a type and those that are nested in it, at any depth.
* `Generator.HasMainType`: the file at a position is regular and has this main type.
* `Generator.MustInclude`: a unit needs the header of a type.
* `Generator.headers_follow_sources`: the main type of a file and the types within it are imported from
  the header of the unit that the file belongs to, and all other types from their package headers.
-/

namespace ObjectLowering

/-! ## Header maps -/

namespace HeaderMap

variable {entries : List (String × String)} {name header : String}

/-- The last entry for a name counts, and what was there before if there is none. -/
theorem get?_foldl_put (entries : List (String × String)) (m : HeaderMap) (name : String) :
    (entries.foldl (fun headers (key, header) => headers.put key header) m).get? name =
      (entries.reverse.lookup name).or (m.get? name) := by
  induction entries generalizing m with
  | nil => rfl
  | cons entry entries ih =>
    have hentry : (m.put entry.1 entry.2).get? name = ([entry].lookup name).or (m.get? name) := by
      obtain ⟨key, header⟩ := entry
      rw [get?_put]
      by_cases hname : name = key
      · simp [hname]
      · have hkey : (name == key) = false := beq_eq_false_iff_ne.2 hname
        simp [List.lookup_cons, hname, hkey]
    rw [List.foldl_cons, ih, hentry, List.reverse_cons, List.lookup_append, Option.or_assoc]

theorem mem_of_lookup_reverse (h : entries.reverse.lookup name = some header) :
    (name, header) ∈ entries := by
  obtain ⟨before, after, hsplit, -⟩ := List.lookup_eq_some_iff.1 h
  rw [← List.mem_reverse, hsplit]
  exact List.mem_append_right _ List.mem_cons_self

/-- A name whose entries all agree has the header that they say. -/
theorem get?_foldl_put_of_mem (hmem : (name, header) ∈ entries)
    (hone : ∀ h, (name, h) ∈ entries → h = header) :
    (entries.foldl (fun headers (key, header) => headers.put key header) empty).get? name =
      some header := by
  rw [get?_foldl_put]
  cases hlookup : entries.reverse.lookup name with
  | some h => rw [hone h (mem_of_lookup_reverse hlookup), Option.some_or]
  | none =>
    have := List.lookup_eq_none_iff.1 hlookup (name, header) (List.mem_reverse.2 hmem)
    simp at this

theorem get?_foldl_put_of_notMem (h : ∀ header, (name, header) ∉ entries) :
    (entries.foldl (fun headers (key, header) => headers.put key header) empty).get? name = none := by
  rw [get?_foldl_put]
  cases hlookup : entries.reverse.lookup name with
  | some header => exact absurd (mem_of_lookup_reverse hlookup) (h header)
  | none => rfl

end HeaderMap

/-! ## Units of files -/

/-- Every file belongs to one unit. -/
theorem existsUnique_plan {sources : List String} (grouping : UnitGrouping) {i : Nat}
    (h : i < sources.length) : ∃! plan, plan ∈ planUnits sources grouping ∧ i ∈ plan.members := by
  have hperm := members_perm sources grouping
  obtain ⟨plan, hplan, hi⟩ := List.mem_flatMap.1 (hperm.mem_iff.2 (List.mem_range.2 h))
  refine ⟨plan, ⟨hplan, hi⟩, ?_⟩
  rintro other ⟨hother, hi'⟩
  have hdisjoint := (List.nodup_flatMap.1 (hperm.nodup_iff.2 List.nodup_range)).2
  have : Std.Symm (Function.onFun List.Disjoint UnitPlan.members) := ⟨fun _ _ h _ hq hp => h hp hq⟩
  by_contra hne
  exact hdisjoint.forall hother hplan hne hi' hi

/-! ## Main types -/

/-- The name, or that of a type nested in it at any depth. -/
inductive QualifiedName.Within (outer : QualifiedName) : QualifiedName → Prop
  | self : outer.Within outer
  | nested {n : QualifiedName} (name : String) : outer.Within n → outer.Within (n.nested name)

theorem QualifiedName.Within.outermost {outer n : QualifiedName} (h : outer.Within n)
    (hne : outer.path ≠ []) (htop : outer.isNested = false) : n.outermost = outer := by
  have hkept : n.path ≠ [] ∧ n.outermost = outer.outermost := by
    induction h with
    | self => exact ⟨hne, rfl⟩
    | nested name _ ih =>
      refine ⟨by simp [QualifiedName.nested], ?_⟩
      rw [QualifiedName.outermost_nested ih.1, ih.2]
  rw [hkept.2, QualifiedName.outermost, List.take_of_length_le]
  simpa [QualifiedName.isNested] using htop

theorem SourceInput.isNested_of_mainType? {input : SourceInput} {env : Environment} {m : TypeBinding}
    (h : input.mainType? env = some m) : m.name.isNested = false := by
  have hmem : m ∈ input.topLevelTypes env := by
    unfold mainType? at h
    rcases Option.or_eq_some_iff.1 h with h | ⟨-, h⟩
    · exact List.mem_of_find?_eq_some h
    · exact List.mem_of_mem_head? h
  simpa using (List.mem_filter.1 hmem).2

namespace Generator

variable {t : Generator} {inputs : List SourceInput} {i : Nat} {m : TypeBinding} {plan : UnitPlan}

/-- The file at the position is a regular source with this main type. -/
def HasMainType (t : Generator) (inputs : List SourceInput) (i : Nat) (m : TypeBinding) : Prop :=
  ∃ input, inputs[i]? = some input ∧ isRegularSource t.options input.sourceName = true ∧
    input.mainType? t.env = some m

/-- The main types of all files, in their order. -/
def mainTypes (t : Generator) (inputs : List SourceInput) : List (Option TypeBinding) :=
  inputs.map fun input =>
    if isRegularSource t.options input.sourceName then input.mainType? t.env else none

theorem hasMainType_iff : t.HasMainType inputs i m ↔ (t.mainTypes inputs)[i]? = some (some m) := by
  simp only [HasMainType, mainTypes, List.getElem?_map, Option.map_eq_some_iff]
  refine exists_congr fun input => and_congr_right fun _ => ?_
  split
  · rename_i hregular
    simp only [hregular, true_and]
  · rename_i hregular
    simp only [hregular, false_and, reduceCtorEq]

/-- The entries of the header map are those of the main types of the files of all units. -/
def headerEntries (t : Generator) (inputs : List SourceInput) : List (String × String) :=
  (t.units inputs).flatMap fun plan =>
    (plan.members.filterMap (inputs[·]?)).filterMap (sourceHeader? t.env t.options plan)

theorem mem_headerEntries_iff {name header : String} : (name, header) ∈ t.headerEntries inputs ↔
    ∃ plan ∈ t.units inputs, ∃ i ∈ plan.members, ∃ m, t.HasMainType inputs i m ∧
      m.name.text = name ∧ plan.outputPath ++ ".h" = header := by
  simp only [headerEntries, List.mem_flatMap, List.mem_filterMap, HasMainType]
  constructor
  · rintro ⟨plan, hplan, input, ⟨i, hi, hinput⟩, hentry⟩
    unfold sourceHeader? at hentry
    split at hentry
    · rename_i hregular
      obtain ⟨m, hm, heq⟩ := Option.map_eq_some_iff.1 hentry
      cases heq
      exact ⟨plan, hplan, i, hi, m, ⟨input, hinput, hregular, hm⟩, rfl, rfl⟩
    · cases hentry
  · rintro ⟨plan, hplan, i, hi, m, ⟨input, hinput, hregular, hm⟩, rfl, rfl⟩
    refine ⟨plan, hplan, input, ⟨i, hi, hinput⟩, ?_⟩
    rw [sourceHeader?, if_pos hregular, hm, Option.map_some]

theorem headers_eq_foldl (h : t.options.headerMapping = .bySourceDirectory) : t.headers inputs =
    (t.headerEntries inputs).foldl (fun headers (key, header) => headers.put key header) .empty := by
  rw [headers, headerMap, h]
  rfl

/-- The main types of regular sources are told apart by their names. -/
def MainTypesDiffer (t : Generator) (inputs : List SourceInput) : Prop :=
  ∀ i j m m', t.HasMainType inputs i m → t.HasMainType inputs j m' → m.name.text = m'.name.text →
    i = j

theorem mainTypesDiffer_of_pairwise (h : (t.mainTypes inputs).Pairwise fun main main' =>
    ∀ m ∈ main, ∀ m' ∈ main', m.name.text ≠ m'.name.text) : t.MainTypesDiffer inputs := by
  intro i j m m' hm hm' hname
  obtain ⟨hi, hmi⟩ := List.getElem?_eq_some_iff.1 (hasMainType_iff.1 hm)
  obtain ⟨hj, hmj⟩ := List.getElem?_eq_some_iff.1 (hasMainType_iff.1 hm')
  rcases Nat.lt_trichotomy i j with hlt | heq | hlt
  · exact absurd hname (List.pairwise_iff_getElem.1 h i j hi hj hlt m hmi m' hmj)
  · exact heq
  · exact absurd hname.symm (List.pairwise_iff_getElem.1 h j i hj hi hlt m' hmj m hmi)

/-- The unit of the file at the position. -/
def IsUnitOf (t : Generator) (inputs : List SourceInput) (i : Nat) (plan : UnitPlan) : Prop :=
  plan ∈ t.units inputs ∧ i ∈ plan.members

theorem existsUnique_unit (h : i < inputs.length) : ∃! plan, t.IsUnitOf inputs i plan :=
  existsUnique_plan _ (by rwa [List.length_map])

theorem headerFor_of_within (hmapping : t.options.headerMapping = .bySourceDirectory)
    (hdiffer : t.MainTypesDiffer inputs) (hm : t.HasMainType inputs i m) (hne : m.name.path ≠ [])
    (hplan : t.IsUnitOf inputs i plan) {n : QualifiedName} (hn : m.name.Within n) :
    (t.headers inputs).headerFor n = plan.outputPath ++ ".h" := by
  obtain ⟨input, hinput, -, hmain⟩ := id hm
  have hmem : (m.name.text, plan.outputPath ++ ".h") ∈ t.headerEntries inputs :=
    mem_headerEntries_iff.2 ⟨plan, hplan.1, i, hplan.2, m, hm, rfl, rfl⟩
  have hone : ∀ header, (m.name.text, header) ∈ t.headerEntries inputs →
      header = plan.outputPath ++ ".h" := by
    intro header hheader
    obtain ⟨other, hother, j, hj, m', hm', hname, rfl⟩ := mem_headerEntries_iff.1 hheader
    obtain rfl : i = j := hdiffer i j m m' hm hm' hname.symm
    obtain ⟨hlt, -⟩ := List.getElem?_eq_some_iff.1 hinput
    rw [(existsUnique_unit hlt).unique ⟨hother, hj⟩ hplan]
  have hget : (t.headers inputs).get? m.name.text = some (plan.outputPath ++ ".h") := by
    rw [headers_eq_foldl hmapping]
    exact HeaderMap.get?_foldl_put_of_mem hmem hone
  rw [HeaderMap.headerFor, hn.outermost hne (SourceInput.isNested_of_mainType? hmain), hget,
    Option.getD_some]

theorem headerFor_of_no_mainType (hmapping : t.options.headerMapping = .bySourceDirectory)
    {n : QualifiedName} (h : ∀ i m, t.HasMainType inputs i m → m.name.text ≠ n.outermost.text) :
    (t.headers inputs).headerFor n = n.defaultHeader := by
  have hget : (t.headers inputs).get? n.outermost.text = none := by
    rw [headers_eq_foldl hmapping]
    refine HeaderMap.get?_foldl_put_of_notMem fun header hheader => ?_
    obtain ⟨-, -, i, -, m, hm, hname, -⟩ := mem_headerEntries_iff.1 hheader
    exact h i m hm hname
  rw [HeaderMap.headerFor, hget, Option.getD_none, QualifiedName.defaultHeader_outermost]

/-! ## Includes -/

/-- The implementation of the unit needs the header of the type. -/
def MustInclude (t : Generator) (inputs : List SourceInput) (plan : UnitPlan) (u : GenerationUnit)
    (b : TypeBinding) : Prop :=
  GenerationUnit.NeededIn (t.lower (plan.membersOf inputs)).trees t.env b.hash ∧
    t.env.type? b.hash = some b ∧ b.nativeName = none ∧ ¬ u.Declares b.hash

/-- The unit imports the type from this header only, and includes the header if it may. -/
structure IncludesFrom (t : Generator) (u : GenerationUnit) (b : TypeBinding) (header : String) :
    Prop where
  imports : ∀ g ∈ u.types, ∀ i ∈ g.imports.implementationIncludes, i.hash = b.hash →
    i.header = header
  included : t.policy header = true →
    header ∈ (u.implementationDependencies t.options t.policy).includes ∧
      Text.Occurs ("#include \"" ++ header ++ "\"\n") (t.outputOf u).implementation

theorem header_of_mem_implementationIncludes {g : GeneratedType} {env : Environment}
    {headers : HeaderMap} {j : Import} {b : TypeBinding} (hg : g.Generated env headers)
    (hj : j ∈ g.imports.implementationIncludes) (hb : env.type? j.hash = some b) :
    j.header = headers.headerFor b.name := by
  obtain ⟨c, tree, id, rfl, rfl, hgenerate⟩ := hg
  obtain ⟨d, hd⟩ := GeneratedType.exists_generatedFrom hgenerate
  rw [hd.imports] at hj
  have himport : ImportContext.IsImport ⟨c.env, c.headers, c.locals⟩ j := by
    rcases TypeImports.mem_implementationIncludes_iff.1 hj with ⟨-, hj⟩ | hj
    · exact ImportContext.isImport_of_mem hj
    · exact ImportContext.isImport_of_mem hj
  obtain ⟨b', hb', -, heq⟩ := himport
  rw [heq, Option.some.inj (hb.symm.trans hb')]
  rfl

theorem includesFrom_of_mustInclude {u : GenerationUnit} {b : TypeBinding}
    (hu : (plan, u) ∈ t.emitted inputs) (hb : t.MustInclude inputs plan u b) :
    t.IncludesFrom u b ((t.headers inputs).headerFor b.name) := by
  obtain ⟨hneeded, htype, hnative, hout⟩ := hb
  have hbuild := build_of_unit? (mem_emitted_iff.1 hu).2
  obtain ⟨c, henv, -, hheaders, -, hbuilt⟩ := GenerationUnit.build_builtFrom hbuild
  refine ⟨fun g hg i hi hhash => ?_, fun hpolicy => ?_⟩
  · have hgenerated := generated_of_mem_emitted hu g hg
    exact header_of_mem_implementationIncludes hgenerated hi (hhash ▸ htype)
  · have hincluded : (t.headers inputs).headerFor b.name ∈
        (u.implementationDependencies t.options t.policy).includes := by
      refine (GenerationUnit.mem_includes_implementation_iff hbuilt).2 (.inr (.inr ⟨hpolicy, ?_⟩))
      rw [henv, hheaders]
      exact ⟨b.hash, hneeded, hout, b, htype, hnative, rfl⟩
    exact ⟨hincluded, GenerationUnit.occurs_implementation hincluded⟩

/-! ## The whole batch -/

/-- If headers follow the source files, the main type of a file and the types within it are imported
from the header of the unit that the file belongs to, and units that must include that header do so if
they may. All other types are imported from their package headers. -/
theorem headers_follow_sources (hmapping : t.options.headerMapping = .bySourceDirectory)
    (hpaths : ∀ i m, t.HasMainType inputs i m → m.name.path ≠ [])
    (hdiffer : t.MainTypesDiffer inputs) :
    (∀ i m, t.HasMainType inputs i m → ∃! plan, t.IsUnitOf inputs i plan ∧
      ∀ b : TypeBinding, m.name.Within b.name →
        (∀ isLocal, (Import.ofType b (t.headers inputs) isLocal).header = plan.outputPath ++ ".h") ∧
        ∀ other u, (other, u) ∈ t.emitted inputs → t.MustInclude inputs other u b →
          t.IncludesFrom u b (plan.outputPath ++ ".h")) ∧
    ∀ b : TypeBinding, (∀ i m, t.HasMainType inputs i m → m.name.text ≠ b.name.outermost.text) →
      ∀ isLocal, (Import.ofType b (t.headers inputs) isLocal).header = b.name.defaultHeader := by
  refine ⟨fun i m hm => ?_, fun b hb isLocal => headerFor_of_no_mainType hmapping hb⟩
  obtain ⟨input, hinput, -⟩ := id hm
  obtain ⟨hlt, -⟩ := List.getElem?_eq_some_iff.1 hinput
  obtain ⟨plan, hplan, hunique⟩ := existsUnique_unit (t := t) hlt
  refine ⟨plan, ⟨hplan, fun b hb => ?_⟩, fun other hother => hunique other hother.1⟩
  have hheader := headerFor_of_within hmapping hdiffer hm (hpaths i m hm) hplan hb
  refine ⟨fun isLocal => hheader, fun other u hu hneeded => ?_⟩
  rw [← hheader]
  exact includesFrom_of_mustInclude hu hneeded

/-! ## A directory with two files -/

/-- `Main` extends the type `N` in `A`. The type `Helper` stands in the file of `B`. -/
def sourceGenerator : Generator where
  env := { types := #[
    { name := ⟨["com", "foo"], ["A"]⟩, hash := ⟨1⟩ },
    { name := ⟨["com", "foo"], ["A", "N"]⟩, hash := ⟨2⟩ },
    { name := ⟨["com", "foo"], ["Helper"]⟩, hash := ⟨3⟩ },
    { name := ⟨["com", "foo"], ["B"]⟩, hash := ⟨4⟩ },
    { name := ⟨[], ["Main"]⟩, hash := ⟨5⟩, visibility := .packageAccess, superclass := some ⟨2⟩ }] }
  options := { headerMapping := .bySourceDirectory, unitGrouping := .perDirectory }

def sourceFile (sourceName : String) (first second : TypeHash) : SourceInput where
  sourceName
  tree := {
    nodes := #[
      { kind := .typeDecl (some first) [], parent := some 2 },
      { kind := .typeDecl (some second) [], parent := some 2 },
      { kind := .compilationUnit sourceName [0, 1] [] }]
    root := some 2 }

def mainFile : SourceInput where
  sourceName := "Main.java"
  tree := {
    nodes := #[
      { kind := .typeDecl (some ⟨5⟩) [], parent := some 1 },
      { kind := .compilationUnit "Main.java" [0] [] }]
    root := some 1 }

def sourceFiles : List SourceInput :=
  [sourceFile "com/foo/A.java" ⟨1⟩ ⟨2⟩, sourceFile "com/foo/B.java" ⟨3⟩ ⟨4⟩, mainFile]

/-- The unit of `Main` includes the header of the directory for `N`, and `Helper` keeps its own. -/
theorem headers_follow_sources_directory :
    sourceGenerator.options.headerMapping = .bySourceDirectory ∧
      (∀ i m, sourceGenerator.HasMainType sourceFiles i m → m.name.path ≠ []) ∧
      sourceGenerator.MainTypesDiffer sourceFiles ∧
      (∃ e ∈ sourceGenerator.emitted sourceFiles, e.1.members = [2] ∧ "com/foo/ComFoo.h" ∈
        (e.2.implementationDependencies sourceGenerator.options sourceGenerator.policy).includes) ∧
      ∀ b : TypeBinding, b.name = ⟨["com", "foo"], ["Helper"]⟩ →
        (Import.ofType b (sourceGenerator.headers sourceFiles) false).header = "com/foo/Helper.h" := by
  have hmains : ∀ main ∈ sourceGenerator.mainTypes sourceFiles, ∀ m ∈ main,
      m.name.path ≠ [] ∧ m.name.text ≠ "com.foo.Helper" := by decide +kernel
  have hmain {i : Nat} {m : TypeBinding} (hm : sourceGenerator.HasMainType sourceFiles i m) :
      m.name.path ≠ [] ∧ m.name.text ≠ "com.foo.Helper" :=
    hmains (some m) (List.mem_of_getElem? (hasMainType_iff.1 hm)) m rfl
  have hdiffer : sourceGenerator.MainTypesDiffer sourceFiles :=
    mainTypesDiffer_of_pairwise (by decide +kernel)
  obtain ⟨hfollow, hkept⟩ := headers_follow_sources rfl (fun _ _ hm => (hmain hm).1) hdiffer
  obtain ⟨⟨other, u⟩, hu, hmembers⟩ :
      ∃ e ∈ sourceGenerator.emitted sourceFiles, e.1.members = [2] := by decide +kernel
  refine ⟨rfl, fun _ _ hm => (hmain hm).1, hdiffer, ⟨_, hu, hmembers, ?_⟩, fun b hb => ?_⟩
  · obtain ⟨plan, ⟨hplan, hheader⟩, -⟩ := hfollow 0 { name := ⟨["com", "foo"], ["A"]⟩, hash := ⟨1⟩ }
      (hasMainType_iff.2 (by decide +kernel))
    have hpath : ∀ p ∈ sourceGenerator.units sourceFiles, 0 ∈ p.members →
        p.outputPath = "com/foo/ComFoo" := by decide +kernel
    have hout : ∀ e ∈ sourceGenerator.emitted sourceFiles, e.1.members = [2] →
        ¬ e.2.Declares ⟨2⟩ := by decide +kernel
    -- there is nothing for the passes to do
    have htrees : (sourceGenerator.lower (other.membersOf sourceFiles)).trees = [mainFile.tree] := by
      rw [UnitPlan.membersOf, hmembers]
      rfl
    have hneeded : sourceGenerator.MustInclude sourceFiles other u
        { name := ⟨["com", "foo"], ["A", "N"]⟩, hash := ⟨2⟩ } := by
      refine ⟨?_, rfl, rfl, hout _ hu hmembers⟩
      rw [htrees]
      exact ⟨_, List.mem_cons_self, 0, by decide, .inr ⟨⟨5⟩, [], _, rfl, rfl, rfl, by decide⟩⟩
    have hincluded := (hheader _ (.nested "N" .self)).2 other u hu hneeded
    rw [hpath plan hplan.1 hplan.2] at hincluded
    exact (hincluded.included rfl).1
  · rw [hkept b ?_ false, hb]
    · decide +kernel
    · intro i m hm
      rw [hb]
      exact (hmain hm).2

end Generator

end ObjectLowering
