import ObjectLowering.Proofs.Region
import ObjectLowering.Proofs.Searches

/-!
# ObjectLowering.Proofs.Ownership

The type that a climb along recorded parents finds is the type in whose declaration a node stands.

* `declared?`, `enclosing?`: the innermost declaration on the way down to a node.
* `Consistent.climbs`: where links agree, a climb goes back the way down from the root.
* `Consistent.acyclic`: so no node lies below itself. A node on a cycle would have two ways down from
  the root, one longer than the other, and a climb goes back only one of them.
* `owningType?_eq_enclosing?`: the search for the owner of a reachable node ends, and finds the
  innermost declaration around it.
-/

namespace ObjectLowering.Tree

variable {t : Tree} {root id : NodeId} {above : List NodeId}

/-- The type that a node declares, if it is a declaration of a type. The type may be unknown. -/
def declared? (t : Tree) (id : NodeId) : Option (Option TypeHash) :=
  match t.kind? id with
  | some (.typeDecl type _) => some type
  | _ => none

/-- The type that the first declaration of the nodes declares, if there is one and it is known. -/
def enclosing? (t : Tree) (nodes : List NodeId) : Option TypeHash :=
  (nodes.findSome? t.declared?).join

theorem declared?_of_typeDecl {type : Option TypeHash} {members : List NodeId}
    (h : t.kind? id = some (.typeDecl type members)) : t.declared? id = some type := by
  rw [declared?, h]

theorem declared?_eq_none (h : ∀ type members, t.kind? id ≠ some (.typeDecl type members)) :
    t.declared? id = none := by
  unfold declared?
  split
  · rename_i type members hk
    exact absurd hk (h type members)
  · rfl

/-! ## The way down -/

theorem Path.of_below {top n : NodeId} (h : t.Below top n) : ∃ above, t.Path top n above := by
  induction h with
  | top => exact ⟨[], .top⟩
  | child _ hc ih =>
    obtain ⟨above, hp⟩ := ih
    exact ⟨_, hp.child hc⟩

/-- A way down goes on to every node below, and gets no shorter. -/
theorem Path.extend {top n : NodeId} (hp : t.Path top id above) (h : t.Below id n) :
    ∃ longer, t.Path top n longer ∧ above.length ≤ longer.length := by
  induction h with
  | top => exact ⟨above, hp, Nat.le_refl _⟩
  | child _ hc ih =>
    obtain ⟨longer, hlonger, hle⟩ := ih
    exact ⟨_, hlonger.child hc, Nat.le_succ_of_le hle⟩

namespace Consistent

theorem climbs (h : t.Consistent) (hroot : t.root = some root) (hp : t.Path root id above) :
    t.Climbs id above := by
  induction hp with
  | top => exact h.parentless hroot
  | child hp hc ih => exact ⟨h.links ⟨root, hroot, hp.reaches⟩ hc, ih⟩

/-- There is one way down to a node. -/
theorem path_unique (h : t.Consistent) (hroot : t.root = some root) {other : List NodeId}
    (hp : t.Path root id above) (hother : t.Path root id other) : other = above :=
  (h.climbs hroot hother).unique (h.climbs hroot hp)

theorem acyclic (h : t.Consistent) (hroot : t.root = some root) : t.Acyclic root := by
  intro id c hid hc hback
  obtain ⟨above, hp⟩ := Path.of_below hid
  obtain ⟨longer, hlonger, hle⟩ := (hp.child hc).extend hback
  rw [h.path_unique hroot hp hlonger, List.length_cons] at hle
  omega

end Consistent

/-! ## The climb -/

/-- A climb meets one type. -/
theorem Owned.unique {start : Option NodeId} {type type' : Option TypeHash}
    (h : t.Owned start type) (h' : t.Owned start type') : type = type' := by
  induction h with
  | nowhere =>
    cases h'
    rfl
  | here hk =>
    cases h' with
    | here hk' =>
      cases hk.symm.trans hk'
      rfl
    | above hno => exact absurd hk (hno _ _)
  | above hno _ ih =>
    cases h' with
    | here hk' => exact absurd hk' (hno _ _)
    | above _ h' => exact ih h'

theorem Owned.cons (h : t.Owned (t.parent? id) (t.enclosing? above)) :
    t.Owned (some id) (t.enclosing? (id :: above)) := by
  by_cases hdecl : ∃ type members, t.kind? id = some (.typeDecl type members)
  · obtain ⟨type, members, hk⟩ := hdecl
    have htype : t.enclosing? (id :: above) = type := by
      simp [enclosing?, declared?_of_typeDecl hk]
    rw [htype]
    exact .here hk
  · have hno : ∀ type members, t.kind? id ≠ some (.typeDecl type members) :=
      fun type members hk => hdecl ⟨type, members, hk⟩
    have hrest : t.enclosing? (id :: above) = t.enclosing? above := by
      simp [enclosing?, declared?_eq_none hno]
    rw [hrest]
    exact .above hno h

/-- A climb along all the nodes above meets the first declaration among them. -/
theorem Climbs.owned_enclosing? (h : t.Climbs id above) :
    t.Owned (some id) (t.enclosing? (id :: above)) := by
  induction above generalizing id with
  | nil =>
    have hp : t.parent? id = none := h
    refine .cons ?_
    rw [hp]
    exact .nowhere
  | cons p above ih =>
    refine .cons ?_
    rw [h.1]
    exact ih h.2

/-- The search for the owner of a reachable node goes as far as a climb without a bound. -/
theorem Consistent.owned (h : t.Consistent) (hroot : t.root = some root)
    (hp : t.Path root id above) : t.Owned (some id) (t.owningType? id) := by
  have hclimb := h.climbs hroot hp
  by_cases hlt : id < t.size
  · exact owned_owningType? hclimb (List.forall_mem_cons.2 ⟨hlt, hp.above_lt_size⟩)
  · -- only a root that does not exist is reached without being in the tree
    have hn : t.node? id = none := Array.getElem?_eq_none (Nat.le_of_not_lt hlt)
    have hnone : t.owningType? id = none := by
      unfold owningType?
      cases t.size <;> simp [owningTypeFrom?, kind?, Tree.parent?, hn]
    rw [hnone]
    refine .above (by simp [kind?, hn]) ?_
    simp only [Tree.parent?, hn]
    exact .nowhere

/-- Where the root has no parent and links below it agree, no reachable node lies below itself, there
is one way down to each, and the climb from it ends with the type of the innermost declaration on that
way. -/
theorem owningType?_eq_enclosing? (h : t.Consistent) :
    (∀ root, t.root = some root → t.Acyclic root) ∧
      ∀ id, t.Reachable id → ∃ root above, t.root = some root ∧ t.Path root id above ∧
        (∀ other, t.Path root id other → other = above) ∧
        t.Owned (some id) (t.owningType? id) ∧ t.owningType? id = t.enclosing? (id :: above) := by
  refine ⟨fun root hroot => h.acyclic hroot, fun id hid => ?_⟩
  obtain ⟨root, hroot, hb⟩ := hid
  obtain ⟨above, hp⟩ := Path.of_below hb
  have howned := h.owned hroot hp
  refine ⟨root, above, hroot, hp, fun _ => h.path_unique hroot hp, howned, ?_⟩
  exact howned.unique (h.climbs hroot hp).owned_enclosing?

/-- A type with a method, and in it a type that is not known, again with a method. -/
def nestedTypes : Tree where
  nodes := #[
    { kind := .block [], parent := some 1 },
    { kind := .methodDecl ⟨"inner", ⟨2⟩, .primitive .void, false⟩ [] (some 0), parent := some 2 },
    { kind := .typeDecl none [1], parent := some 5 },
    { kind := .block [], parent := some 4 },
    { kind := .methodDecl ⟨"outer", ⟨1⟩, .primitive .void, false⟩ [] (some 3), parent := some 5 },
    { kind := .typeDecl (some ⟨1⟩) [2, 4], parent := some 6 },
    { kind := .compilationUnit "A.java" [5] [] }]
  root := some 6

/-- The code of the inner type belongs to no type, although there is a type around it. -/
theorem owningType?_eq_enclosing?_nested :
    nestedTypes.Consistent ∧ nestedTypes.Acyclic 6 ∧ nestedTypes.Reachable 0 ∧
      nestedTypes.Path 6 0 [1, 2, 5, 6] ∧ nestedTypes.owningType? 0 = none ∧
      nestedTypes.Reachable 3 ∧ nestedTypes.Path 6 3 [4, 5, 6] ∧
      nestedTypes.owningType? 3 = some ⟨1⟩ := by
  have h : nestedTypes.Consistent := consistent_of_nodes (by decide) (by decide)
  obtain ⟨hacyclic, howner⟩ := owningType?_eq_enclosing? h
  have houter : nestedTypes.Path 6 5 [6] := .child .top (by decide)
  have hinner : nestedTypes.Path 6 0 [1, 2, 5, 6] :=
    .child (.child (.child houter (by decide)) (by decide)) (by decide)
  have hbody : nestedTypes.Path 6 3 [4, 5, 6] := .child (.child houter (by decide)) (by decide)
  obtain ⟨_, _, hroot, -, hunique, -, hnone⟩ := howner 0 ⟨6, rfl, hinner.reaches⟩
  cases hroot
  rw [← hunique _ hinner] at hnone
  obtain ⟨_, _, hroot, -, hunique, -, hsome⟩ := howner 3 ⟨6, rfl, hbody.reaches⟩
  cases hroot
  rw [← hunique _ hbody] at hsome
  exact ⟨h, hacyclic 6 rfl, ⟨6, rfl, hinner.reaches⟩, hinner, hnone, ⟨6, rfl, hbody.reaches⟩, hbody,
    hsome⟩

end ObjectLowering.Tree
