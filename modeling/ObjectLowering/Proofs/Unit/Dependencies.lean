import ObjectLowering.Proofs.Unit.Built
import ObjectLowering.Unit.Dependencies

/-!
# ObjectLowering.Proofs.Unit.Dependencies

What types import, and what a file of their unit includes and announces.

* `ImportContext.mem_imports_iff`: what is imported for a list of types.
* `TypeImports.mem_implementationIncludes_iff` and its like: for which types a type imports what.
* `Dependencies.mem_includes_resolve_iff`, `Dependencies.mem_unimportable_resolve_iff`: of the headers
  that are needed from outside, a file includes those that the policy allows and reports the others.
* `Dependencies.mem_forwards_resolve_iff`: which types a file announces;
  `Dependencies.nodup_forwards`: it announces each of them once.
-/

namespace ObjectLowering

/-! ## What a type imports -/

namespace ImportContext

theorem mem_imports_iff {c : ImportContext} {self : TypeHash} {hashes : List TypeHash}
    {i : Import} : i ∈ c.imports self hashes ↔ ∃ x ∈ hashes, x ≠ self ∧
      ∃ b, c.env.type? x = some b ∧ b.nativeName = none ∧
        i = .ofType b c.headers (c.locals.contains x) := by
  have himport (x : TypeHash) : c.import? self x = some i ↔ x ≠ self ∧
      ∃ b, c.env.type? x = some b ∧ b.nativeName = none ∧
        i = .ofType b c.headers (c.locals.contains x) := by
    unfold import?
    split
    · rename_i he
      simp [he]
    · rename_i hne
      rw [Option.bind_eq_some_iff]
      refine ⟨?_, ?_⟩
      · rintro ⟨b, hb, h⟩
        split at h
        · cases h
        · rename_i hnative
          cases h
          exact ⟨hne, b, hb, by simpa using hnative, rfl⟩
      · rintro ⟨-, b, hb, hnative, rfl⟩
        exact ⟨b, hb, by simp [hnative]⟩
  simp only [imports, List.mem_filterMap, himport]

theorem exists_mem_imports_iff {c : ImportContext} {self : TypeHash} {hashes : List TypeHash}
    {p : TypeHash → String → Prop} : (∃ i ∈ c.imports self hashes, p i.hash i.header) ↔
      ∃ x ∈ hashes, x ≠ self ∧ ∃ b, c.env.type? x = some b ∧ b.nativeName = none ∧
        p x (c.headers.headerFor b.name) := by
  constructor
  · rintro ⟨i, hi, hp⟩
    obtain ⟨x, hx, hne, b, hb, hnative, rfl⟩ := mem_imports_iff.1 hi
    exact ⟨x, hx, hne, b, hb, hnative, Environment.type?_hash hb ▸ hp⟩
  · rintro ⟨x, hx, hne, b, hb, hnative, hp⟩
    refine ⟨_, mem_imports_iff.2 ⟨x, hx, hne, b, hb, hnative, rfl⟩, ?_⟩
    show p b.hash _
    rwa [Environment.type?_hash hb]

/-- The import of a type that is known and of its own. Nothing else is imported. -/
def IsImport (c : ImportContext) (i : Import) : Prop :=
  ∃ b, c.env.type? i.hash = some b ∧ b.nativeName = none ∧
    i = .ofType b c.headers (c.locals.contains i.hash)

theorem isImport_of_mem {c : ImportContext} {self : TypeHash} {hashes : List TypeHash} {i : Import}
    (h : i ∈ c.imports self hashes) : c.IsImport i := by
  obtain ⟨x, -, -, b, hb, hnative, rfl⟩ := mem_imports_iff.1 h
  have hhash : b.hash = x := Environment.type?_hash hb
  exact ⟨b, by rwa [← hhash] at hb, hnative, by rw [← hhash]; rfl⟩

/-- A type is imported in one way only. -/
theorem IsImport.eq_of_hash {c : ImportContext} {i j : Import} (hi : c.IsImport i)
    (hj : c.IsImport j) (h : i.hash = j.hash) : i = j := by
  obtain ⟨b, hb, -, hi⟩ := hi
  obtain ⟨b', hb', -, hj⟩ := hj
  rw [← h] at hb' hj
  obtain rfl := Option.some.inj (hb.symm.trans hb')
  rw [hi, hj]

end ImportContext

namespace TypeImports

variable {c : ImportContext} {t : Tree} {id : NodeId} {d : TypeDeclaration} {i : Import}

theorem mem_headerIncludes_iff : i ∈ (collect c t id d).headerIncludes ↔
    d.binding.isPrivate = false ∧ i ∈ c.imports d.binding.hash d.binding.supertypes := by
  unfold collect
  cases d.binding.isPrivate with
  | true => simp
  | false => simp

theorem mem_headerForwards_iff : i ∈ (collect c t id d).headerForwards ↔
    d.binding.isPrivate = false ∧
      i ∈ c.imports d.binding.hash (d.surfaceTypes.filterMap (·.declaredType?)) := by
  unfold collect
  cases d.binding.isPrivate with
  | true => simp
  | false => simp

/-- A type that is not public uses its supertypes where it is implemented. -/
theorem mem_implementationIncludes_iff : i ∈ (collect c t id d).implementationIncludes ↔
    d.binding.isPrivate = true ∧ i ∈ c.imports d.binding.hash d.binding.supertypes ∨
      i ∈ c.imports d.binding.hash ((t.kindsBelow id).flatMap (·.usedTypes c.env)) := by
  unfold collect
  cases d.binding.isPrivate with
  | true => simp
  | false => simp

theorem mem_implementationForwards_iff : i ∈ (collect c t id d).implementationForwards ↔
    d.binding.isPrivate = true ∧
        i ∈ c.imports d.binding.hash (d.surfaceTypes.filterMap (·.declaredType?)) ∨
      i ∈ c.imports d.binding.hash ((d.hiddenTypes ++
        (t.kindsBelow id).flatMap (·.mentionedTypes c.env)).filterMap (·.declaredType?)) := by
  unfold collect
  cases d.binding.isPrivate with
  | true => simp
  | false => simp

theorem isImport_of_mem_forwards (h : i ∈ (collect c t id d).headerForwards ∨
    i ∈ (collect c t id d).implementationForwards) : c.IsImport i := by
  rcases h with h | h
  · exact ImportContext.isImport_of_mem (mem_headerForwards_iff.1 h).2
  · rcases mem_implementationForwards_iff.1 h with ⟨-, h⟩ | h
    · exact ImportContext.isImport_of_mem h
    · exact ImportContext.isImport_of_mem h

end TypeImports

/-! ## What a file includes and announces -/

namespace Dependencies

variable {types participants : List GeneratedType} {x : TypeHash}

theorem privacy?_isNone : (privacy? types x).isNone = true ↔ ∀ g ∈ types, g.hash ≠ x := by
  simp [privacy?, Option.isNone_iff_eq_none, List.find?_eq_none]

theorem privacy?_eq_none : privacy? types x = none ↔ ∀ g ∈ types, g.hash ≠ x := by
  rw [← privacy?_isNone, Option.isNone_iff_eq_none]

theorem exists_of_privacy? {isPrivate : Bool} (h : privacy? types x = some isPrivate) :
    ∃ g ∈ types, g.hash = x ∧ g.isPrivate = isPrivate := by
  obtain ⟨g, hg, rfl⟩ := Option.map_eq_some_iff.1 h
  have hhash : g.hash = x := by simpa using List.find?_some hg
  exact ⟨g, List.mem_reverse.1 (List.mem_of_find?_eq_some hg), hhash, rfl⟩

variable {policy : ImportPolicy} {fixed : List String}
  {includesOf forwardsOf : TypeImports → SortedSet Import} {announcesPublic : Bool} {h : String}

/-- The header is that of a type from outside which the participants use. -/
def Needed (types participants : List GeneratedType)
    (includesOf : TypeImports → SortedSet Import) (h : String) : Prop :=
  ∃ g ∈ participants, ∃ i ∈ (includesOf g.imports).toList,
    (∀ g' ∈ types, g'.hash ≠ i.hash) ∧ i.header = h

theorem mem_externalHeaders_iff :
    h ∈ externalHeaders types (participants.flatMap fun g => (includesOf g.imports).toList) ↔
      Needed types participants includesOf h := by
  simp only [externalHeaders, List.mem_map, List.mem_filter, privacy?_isNone, List.mem_flatMap]
  constructor
  · rintro ⟨i, ⟨⟨g, hg, hi⟩, hout⟩, hh⟩
    exact ⟨g, hg, i, hi, hout, hh⟩
  · rintro ⟨g, hg, i, hi, hout, hh⟩
    exact ⟨i, ⟨⟨g, hg, hi⟩, hout⟩, hh⟩

theorem mem_includes_resolve_iff :
    h ∈ (resolve policy types participants fixed includesOf forwardsOf announcesPublic).includes ↔
      h ∈ fixed ∨ policy h = true ∧ Needed types participants includesOf h := by
  rw [resolve, SortedSet.mem_ofList, List.mem_append, List.mem_filter, mem_externalHeaders_iff,
    and_comm]

theorem mem_unimportable_resolve_iff : h ∈
    (resolve policy types participants fixed includesOf forwardsOf announcesPublic).unimportable ↔
      policy h = false ∧ Needed types participants includesOf h := by
  rw [resolve, SortedSet.mem_ofList, List.mem_filter, mem_externalHeaders_iff, and_comm,
    Bool.not_eq_true']

/-- A type is announced for the sake of one that mentions it, unless that is ruled out by what has
been seen up to there. -/
theorem mem_announced_iff {mustAnnounce : List TypeHash → Import → Bool}
    {forwards : GeneratedType → List Import} {seen : List TypeHash} {i : Import} :
    i ∈ announced mustAnnounce forwards seen participants ↔
      ∃ before g after, participants = before ++ g :: after ∧ i ∈ forwards g ∧
        mustAnnounce (g.hash :: ((before.map (·.hash)).reverse ++ seen)) i = true := by
  induction participants generalizing seen with
  | nil => simp [announced]
  | cons first rest ih =>
    rw [announced, List.mem_append, List.mem_filter, ih]
    constructor
    · rintro (⟨hi, hm⟩ | ⟨before, g, after, rfl, hi, hm⟩)
      · exact ⟨[], first, rest, rfl, hi, hm⟩
      · exact ⟨first :: before, g, after, rfl, hi, by simpa using hm⟩
    · rintro ⟨before, g, after, hsplit, hi, hm⟩
      cases before with
      | nil =>
        obtain ⟨rfl, rfl⟩ := List.cons.inj hsplit
        exact .inl ⟨hi, hm⟩
      | cons _ before =>
        obtain ⟨rfl, rfl⟩ := List.cons.inj hsplit
        exact .inr ⟨before, g, after, rfl, hi, by simpa using hm⟩

/-- A type of the unit is announced where it is mentioned before its place, provided that it is
private or that public types are announced as well. A type from outside is announced if no header of
the file declares it. -/
theorem mem_forwards_resolve_iff {i : Import} : i ∈
    (resolve policy types participants fixed includesOf forwardsOf announcesPublic).forwards ↔
      ∃ before g after, participants = before ++ g :: after ∧ i ∈ forwardsOf g.imports ∧
        match privacy? types i.hash with
        | some isPrivate => (isPrivate = true ∨ announcesPublic = true) ∧ g.hash ≠ i.hash ∧
            ∀ g' ∈ before, g'.hash ≠ i.hash
        | none => i.header ∉
            (resolve policy types participants fixed includesOf forwardsOf announcesPublic).includes := by
  rw [resolve, SortedSet.mem_ofList, mem_announced_iff]
  refine exists_congr fun before => exists_congr fun g => exists_congr fun after =>
    and_congr_right fun _ => and_congr_right fun _ => ?_
  cases privacy? types i.hash with
  | none => simp [SortedSet.contains, SortedSet.mem_def]
  | some isPrivate =>
    simp only [Bool.and_eq_true, Bool.or_eq_true, Bool.not_eq_true', List.contains_eq_mem,
      decide_eq_false_iff_not, List.mem_cons, List.mem_append, List.mem_reverse, List.mem_map,
      List.not_mem_nil, or_false, not_or, not_exists, not_and]
    refine and_congr_right fun _ => and_congr_left fun _ => ?_
    exact ne_comm

/-- A type that is mentioned is announced, with these exceptions: it has its place before the one that
mentions it, or is public while only private types are announced; or it comes from outside and a
header of the file declares it. -/
theorem mem_forwards_or {before after : List GeneratedType} {g : GeneratedType} {i : Import}
    (hsplit : participants = before ++ g :: after) (hi : i ∈ forwardsOf g.imports)
    (hne : g.hash ≠ i.hash) : i ∈
      (resolve policy types participants fixed includesOf forwardsOf announcesPublic).forwards ∨
        match privacy? types i.hash with
        | some isPrivate => isPrivate = false ∧ announcesPublic = false ∨
            ∃ g' ∈ before, g'.hash = i.hash
        | none => i.header ∈
            (resolve policy types participants fixed includesOf forwardsOf announcesPublic).includes := by
  refine or_iff_not_imp_right.2 fun hexcept => mem_forwards_resolve_iff.2 ⟨before, g, after, hsplit,
    hi, ?_⟩
  cases hprivacy : privacy? types i.hash with
  | none => rwa [hprivacy] at hexcept
  | some isPrivate =>
    rw [hprivacy] at hexcept
    obtain ⟨hannounce, hbefore⟩ := not_or.1 hexcept
    refine ⟨?_, hne, fun g' hg' hhash => hbefore ⟨g', hg', hhash⟩⟩
    cases isPrivate with
    | true => exact .inl rfl
    | false => exact .inr (by simpa using hannounce)

/-- In a declaration file, a type that is mentioned by a public one is announced, declared before that
one, or declared by a header. -/
theorem mem_forwards_ofHeader_or (policy : ImportPolicy) (runtimeHeader : String)
    {before after : List GeneratedType} {g : GeneratedType} {i : Import}
    (hsplit : types = before ++ g :: after) (hpublic : g.isPrivate = false)
    (hi : i ∈ g.imports.headerForwards) (hne : g.hash ≠ i.hash) :
    i ∈ (ofHeader policy types runtimeHeader).forwards ∨
      (∃ g' ∈ before, g'.isPrivate = false ∧ g'.hash = i.hash) ∨
        i.header ∈ (ofHeader policy types runtimeHeader).includes := by
  have hparticipants : types.filter (fun g => !g.isPrivate) =
      before.filter (fun g => !g.isPrivate) ++ g :: after.filter fun g => !g.isPrivate := by
    rw [hsplit, List.filter_append, List.filter_cons_of_pos (by rw [hpublic]; rfl)]
  have hcases : i ∈ (ofHeader policy types runtimeHeader).forwards ∨
      match privacy? types i.hash with
      | some isPrivate => isPrivate = false ∧ true = false ∨
          ∃ g' ∈ before.filter fun g => !g.isPrivate, g'.hash = i.hash
      | none => i.header ∈ (ofHeader policy types runtimeHeader).includes :=
    mem_forwards_or hparticipants hi hne
  refine hcases.imp_right fun hseen => ?_
  split at hseen
  · obtain ⟨-, hcontra⟩ | ⟨g', hg', hhash⟩ := hseen
    · cases hcontra
    · obtain ⟨hg', hpublic'⟩ := List.mem_filter.1 hg'
      exact .inl ⟨g', hg', by simpa using hpublic', hhash⟩
  · exact .inr hseen

/-- In an implementation file, a type that is mentioned is announced, unless it is a public type of
the unit, has its place before the one that mentions it, or is declared by a header. -/
theorem mem_forwards_ofImplementation_or (policy : ImportPolicy) (runtimeHeader ownHeader : String)
    {before after : List GeneratedType} {g : GeneratedType} {i : Import}
    (hsplit : types = before ++ g :: after) (hi : i ∈ g.imports.implementationForwards)
    (hne : g.hash ≠ i.hash) :
    i ∈ (ofImplementation policy types runtimeHeader ownHeader).forwards ∨
      (∃ g' ∈ types, g'.isPrivate = false ∧ g'.hash = i.hash) ∨
        (∃ g' ∈ before, g'.hash = i.hash) ∨
          i.header ∈ (ofImplementation policy types runtimeHeader ownHeader).includes := by
  have hcases : i ∈ (ofImplementation policy types runtimeHeader ownHeader).forwards ∨
      match privacy? types i.hash with
      | some isPrivate => isPrivate = false ∧ false = false ∨ ∃ g' ∈ before, g'.hash = i.hash
      | none => i.header ∈ (ofImplementation policy types runtimeHeader ownHeader).includes :=
    mem_forwards_or hsplit hi hne
  refine hcases.imp_right fun hseen => ?_
  split at hseen
  · rename_i hprivacy
    obtain ⟨rfl, -⟩ | hbefore := hseen
    · obtain ⟨g', hg', hhash, hpublic⟩ := exists_of_privacy? hprivacy
      exact .inl ⟨g', hg', hpublic, hhash⟩
    · exact .inr (.inl hbefore)
  · exact .inr (.inr hseen)

/-- What a file announces from outside is declared by none of its headers. -/
theorem not_mem_includes_of_forwards {i : Import} (hi : i ∈
      (resolve policy types participants fixed includesOf forwardsOf announcesPublic).forwards)
    (hout : ∀ g ∈ types, g.hash ≠ i.hash) : i.header ∉
      (resolve policy types participants fixed includesOf forwardsOf announcesPublic).includes := by
  obtain ⟨before, g, after, -, -, h⟩ := mem_forwards_resolve_iff.1 hi
  rwa [privacy?_eq_none.2 hout] at h

/-- No type is announced twice, if the types that mention it agree on how it is imported. -/
theorem nodup_forwards {c : ImportContext}
    (h : ∀ g ∈ participants, ∀ i ∈ forwardsOf g.imports, c.IsImport i) :
    ((resolve policy types participants fixed includesOf forwardsOf
      announcesPublic).forwards.toList.map (·.hash)).Nodup := by
  have himport {i : Import} (hi : i ∈ (resolve policy types participants fixed includesOf forwardsOf
      announcesPublic).forwards) : c.IsImport i := by
    obtain ⟨before, g, after, rfl, hi, -⟩ := mem_forwards_resolve_iff.1 hi
    exact h g (by simp) i hi
  exact SortedSet.nodup _ |>.map_on fun i hi j hj hhash =>
    (himport hi).eq_of_hash (himport hj) hhash

end Dependencies

end ObjectLowering
