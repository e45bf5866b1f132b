import ObjectLowering.Proofs.Unit.Dependencies

/-!
# ObjectLowering.Proofs.Unit.OrderIndependence

What of the head of a file depends on the order of the types of its unit.

* `outside`: the announcements of types that the unit does not declare. `SameOutside`: two heads have
  these in common, and all headers that they include or report.
* `sameOutside_resolve`: so it is under every order, since all of this is told by which types take part.
* `mem_forwards_ofImplementation_iff`: a type of the unit is announced for those that stand before it.
* `resolution_of_perm`: both, for the implementation file and for the declaration file.
-/

namespace ObjectLowering.Dependencies

variable {types types' participants participants' : List GeneratedType} {policy : ImportPolicy}
  {fixed : List String} {includesOf forwardsOf : TypeImports → SortedSet Import}
  {announcesPublic : Bool} {i : Import}

/-- The types that are announced and that the unit does not declare. -/
def outside (types : List GeneratedType) (d : Dependencies) : SortedSet Import where
  toList := d.forwards.toList.filter fun i => (privacy? types i.hash).isNone
  ascending := d.forwards.ascending.filter _

/-- Two heads agree in the headers that they include, in those that they report, and in the types from
outside that they announce. All of these are listed in strictly ascending order. -/
structure SameOutside (types : List GeneratedType) (d d' : Dependencies) : Prop where
  includes : d.includes = d'.includes
  unimportable : d.unimportable = d'.unimportable
  outside : d.outside types = d'.outside types
  includeLines : d.includeLines = d'.includeLines
  outsideLines : (d.outside types).toList.map (·.forwardDeclaration) =
    (d'.outside types).toList.map (·.forwardDeclaration)
  includesAscending : d.includes.toList.Pairwise fun a b => compare a b = .lt
  unimportableAscending : d.unimportable.toList.Pairwise fun a b => compare a b = .lt
  outsideAscending : (d.outside types).toList.Pairwise fun a b => compare a b = .lt

theorem sameOutside_of_eq {d d' : Dependencies} (hincludes : d.includes = d'.includes)
    (hunimportable : d.unimportable = d'.unimportable)
    (houtside : d.outside types = d'.outside types) : d.SameOutside types d' where
  includes := hincludes
  unimportable := hunimportable
  outside := houtside
  includeLines := by rw [includeLines, includeLines, hincludes]
  outsideLines := by rw [houtside]
  includesAscending := d.includes.ascending
  unimportableAscending := d.unimportable.ascending
  outsideAscending := (d.outside types).ascending

/-! ## Types from outside -/

theorem needed_of_perm (ht : types.Perm types') (hp : participants.Perm participants')
    {h : String} : Needed types participants includesOf h ↔
      Needed types' participants' includesOf h := by
  simp only [Needed, ht.mem_iff, hp.mem_iff]

/-- A type from outside is announced if any of the types that take part mentions it, whichever place
that one has. -/
theorem mem_outside_resolve_iff : i ∈
    (resolve policy types participants fixed includesOf forwardsOf announcesPublic).outside types ↔
      (∀ g ∈ types, g.hash ≠ i.hash) ∧ (∃ g ∈ participants, i ∈ forwardsOf g.imports) ∧ i.header ∉
        (resolve policy types participants fixed includesOf forwardsOf announcesPublic).includes := by
  rw [SortedSet.mem_def, outside, List.mem_filter, ← SortedSet.mem_def, mem_forwards_resolve_iff,
    privacy?_isNone, and_comm]
  refine and_congr_right fun hout => ?_
  rw [privacy?_eq_none.2 hout]
  constructor
  · rintro ⟨before, g, after, rfl, hi, hheader⟩
    exact ⟨⟨g, by simp, hi⟩, hheader⟩
  · rintro ⟨⟨g, hg, hi⟩, hheader⟩
    obtain ⟨before, after, hsplit⟩ := List.append_of_mem hg
    exact ⟨before, g, after, hsplit, hi, hheader⟩

theorem outside_of_perm (ht : types.Perm types') (d : Dependencies) :
    d.outside types = d.outside types' := by
  refine SortedSet.ext_mem fun i => ?_
  simp only [SortedSet.mem_def, outside, List.mem_filter, privacy?_isNone, ht.mem_iff]

/-- Heads of the same types in another order. -/
theorem sameOutside_resolve (ht : types.Perm types') (hp : participants.Perm participants') :
    (resolve policy types participants fixed includesOf forwardsOf announcesPublic).SameOutside types
      (resolve policy types' participants' fixed includesOf forwardsOf announcesPublic) := by
  have hincludes :
      (resolve policy types participants fixed includesOf forwardsOf announcesPublic).includes =
        (resolve policy types' participants' fixed includesOf forwardsOf announcesPublic).includes := by
    refine SortedSet.ext_mem fun h => ?_
    rw [mem_includes_resolve_iff, mem_includes_resolve_iff, needed_of_perm ht hp]
  refine sameOutside_of_eq hincludes ?_ ?_
  · refine SortedSet.ext_mem fun h => ?_
    rw [mem_unimportable_resolve_iff, mem_unimportable_resolve_iff, needed_of_perm ht hp]
  · rw [outside_of_perm ht (resolve policy types' _ _ _ _ _)]
    refine SortedSet.ext_mem fun i => ?_
    rw [mem_outside_resolve_iff, mem_outside_resolve_iff, hincludes]
    simp only [ht.mem_iff, hp.mem_iff]

/-! ## Types of the unit -/

theorem privacy?_of_mem (hdistinct : (types.map (·.hash)).Nodup) {g : GeneratedType}
    (hg : g ∈ types) : privacy? types g.hash = some g.isPrivate := by
  have hsome : privacy? types g.hash ≠ none := fun h => privacy?_eq_none.1 h g hg rfl
  obtain ⟨isPrivate, hprivacy⟩ := Option.ne_none_iff_exists'.1 hsome
  obtain ⟨g', hg', hhash, rfl⟩ := exists_of_privacy? hprivacy
  rw [hprivacy, List.inj_on_of_nodup_map hdistinct hg' hg hhash]

/-- A type has its place in the order once: what stands before it has another hash. -/
theorem hash_ne_of_before {before after : List GeneratedType} {g g' : GeneratedType}
    (hdistinct : ((before ++ g :: after).map (·.hash)).Nodup) (hg' : g' ∈ before) :
    g'.hash ≠ g.hash := by
  rw [List.map_append, List.nodup_append] at hdistinct
  exact hdistinct.2.2 _ (List.mem_map_of_mem hg') _ (by simp)

/-- In an implementation file, a type of the unit is announced just if it is private and one that stands
before it mentions it. -/
theorem mem_forwards_ofImplementation_iff (hdistinct : (types.map (·.hash)).Nodup)
    {runtimeHeader ownHeader : String} {g : GeneratedType} (hg : g ∈ types) (hi : i.hash = g.hash) :
    i ∈ (ofImplementation policy types runtimeHeader ownHeader).forwards ↔ g.isPrivate = true ∧
      ∃ before after, types = before ++ g :: after ∧
        ∃ g' ∈ before, i ∈ g'.imports.implementationForwards := by
  rw [ofImplementation, mem_forwards_resolve_iff, hi, privacy?_of_mem hdistinct hg]
  simp only [Bool.false_eq_true, or_false]
  constructor
  · rintro ⟨first, g', rest, rfl, hmentions, hprivate, hne, hfirst⟩
    have hrest : g ∈ rest := by
      rcases List.mem_append.1 hg with h | h
      · exact absurd rfl (hfirst g h)
      · exact (List.mem_cons.1 h).resolve_left fun h => hne (h ▸ rfl)
    obtain ⟨between, after, rfl⟩ := List.append_of_mem hrest
    exact ⟨hprivate, first ++ g' :: between, after, by simp, g', by simp, hmentions⟩
  · rintro ⟨hprivate, before, after, rfl, g', hg', hmentions⟩
    have hne := hash_ne_of_before hdistinct hg'
    obtain ⟨first, between, rfl⟩ := List.append_of_mem hg'
    refine ⟨first, g', between ++ g :: after, by simp, hmentions, hprivate, hne, fun g'' hg'' => ?_⟩
    exact hash_ne_of_before hdistinct (List.mem_append_left _ hg'')

/-- Whatever the order of the types is, the files of their unit include and report the same headers and
announce the same types from outside. The implementation file announces a type of the unit just if the
type is private and one that stands before it mentions it. -/
theorem resolution_of_perm (hperm : types.Perm types') (hdistinct : (types.map (·.hash)).Nodup)
    (policy : ImportPolicy) (runtimeHeader runtimeSourceHeader ownHeader : String) :
    (ofImplementation policy types runtimeSourceHeader ownHeader).SameOutside types
        (ofImplementation policy types' runtimeSourceHeader ownHeader) ∧
      (ofHeader policy types runtimeHeader).SameOutside types
        (ofHeader policy types' runtimeHeader) ∧
      ∀ g ∈ types, ∀ i : Import, i.hash = g.hash →
        (i ∈ (ofImplementation policy types' runtimeSourceHeader ownHeader).forwards ↔
          g.isPrivate = true ∧ ∃ before after, types' = before ++ g :: after ∧
            ∃ g' ∈ before, i ∈ g'.imports.implementationForwards) := by
  have hdistinct' : (types'.map (·.hash)).Nodup := (hperm.map _).nodup_iff.1 hdistinct
  refine ⟨sameOutside_resolve hperm hperm, sameOutside_resolve hperm (hperm.filter _), ?_⟩
  intro g hg i hi
  exact mem_forwards_ofImplementation_iff hdistinct' (hperm.mem_iff.1 hg) hi

/-! ## Two types in either order -/

/-- A type of which only the announcements in the implementation file matter. -/
def announcing (name : String) (hash : TypeHash) (isPrivate : Bool) (forwards : List Import) :
    GeneratedType where
  hash
  typeName := name
  isPrivate
  isInterface := false
  isAbstract := false
  hasProtocols := false
  supertypes := []
  publicDeclaration := ""
  privateDeclaration := ""
  implementation := ""
  imports := ⟨.empty, .ofList forwards, .empty, .empty⟩

/-- The import of a private type that is declared with the one that mentions it. -/
def drawerImport : Import :=
  ⟨"Drawer", "Desk.h", false, true, ⟨2⟩⟩

/-- A public class that mentions a private one, and one from outside. -/
def deskType : GeneratedType :=
  announcing "Desk" ⟨1⟩ false [drawerImport, ⟨"Lamp", "Lamp.h", false, false, ⟨3⟩⟩]

def drawerType : GeneratedType :=
  announcing "Drawer" ⟨2⟩ true [⟨"Desk", "Desk.h", false, true, ⟨1⟩⟩]

/-- The private class is announced if it stands behind the one that mentions it, and the class from
outside is announced in either case. -/
theorem resolution_of_perm_desk :
    [deskType, drawerType].Perm [drawerType, deskType] ∧
    ([deskType, drawerType].map (·.hash)).Nodup ∧
    (ofImplementation (.blocking []) [deskType, drawerType] "source.h" "Desk.h").SameOutside
      [deskType, drawerType]
      (ofImplementation (.blocking []) [drawerType, deskType] "source.h" "Desk.h") ∧
    (ofImplementation (.blocking []) [deskType, drawerType] "source.h" "Desk.h").forwardLines =
      "@class Drawer;\n@class Lamp;\n" ∧
    drawerImport ∉ (ofImplementation (.blocking []) [drawerType, deskType] "source.h"
      "Desk.h").forwards := by
  have hperm : [deskType, drawerType].Perm [drawerType, deskType] := .swap ..
  have hdistinct : ([deskType, drawerType].map (·.hash)).Nodup := by decide
  obtain ⟨hsame, -, hlocal⟩ :=
    resolution_of_perm hperm hdistinct (.blocking []) "header.h" "source.h" "Desk.h"
  refine ⟨hperm, hdistinct, hsame, by decide +kernel, ?_⟩
  intro hannounced
  obtain ⟨-, before, after, hsplit, g', hg', -⟩ :=
    (hlocal drawerType (by simp) drawerImport rfl).1 hannounced
  cases before with
  | nil => cases hg'
  | cons first before =>
    obtain ⟨-, hrest⟩ := List.cons.inj hsplit
    have hmem : drawerType ∈ [deskType] := hrest ▸ (by simp)
    exact absurd (congrArg GeneratedType.hash (List.mem_singleton.1 hmem)) (by decide)

end ObjectLowering.Dependencies
