import ObjectLowering.Proofs.Descendants

/-!
# ObjectLowering.Proofs.Searches

The searches along the links of a tree as loops without a bound. Each is a relation between where the
loop starts and what it comes to, so it holds only of a loop that ends.

* `Scans`: takes nodes from a stack and puts their children in their place.
* `Strips`: goes from parentheses to what they enclose.
* `Owned`: climbs recorded parents up to a type declaration.
* `scans_descendants`, `strips_stripParentheses`, `owned_owningType?`: where no node lies below itself
  and no climb returns, the loops end, and the searches of the tree come to the same.
* `Scans.acyclic`: where a node lies below itself, the listing of the nodes does not end.
-/

namespace ObjectLowering.Tree

variable {t : Tree} {id : NodeId}

/-- From a stack of nodes, all that are entered. -/
inductive Scans (t : Tree) : List NodeId → List NodeId → Prop where
  | done : t.Scans [] []
  | enter {id : NodeId} {stack rest : List NodeId} :
    t.Scans (t.children id ++ stack) rest → t.Scans (id :: stack) (id :: rest)

/-- From a node, what is left of it without parentheses. -/
inductive Strips (t : Tree) : NodeId → NodeId → Prop where
  | inner {id inner out : NodeId} :
    t.kind? id = some (.parenthesized inner) → t.Strips inner out → t.Strips id out
  | stop {id : NodeId} : (∀ inner, t.kind? id ≠ some (.parenthesized inner)) → t.Strips id id

/-- From a node, if there is one, the type whose declaration is the next above. -/
inductive Owned (t : Tree) : Option NodeId → Option TypeHash → Prop where
  | nowhere : t.Owned none none
  | here {id : NodeId} {type : Option TypeHash} {members : List NodeId} :
    t.kind? id = some (.typeDecl type members) → t.Owned (some id) type
  | above {id : NodeId} {type : Option TypeHash} :
    (∀ type members, t.kind? id ≠ some (.typeDecl type members)) →
      t.Owned (t.parent? id) type → t.Owned (some id) type

/-! ## Down the tree -/

/-- A stack gives its nodes in pre-order. -/
theorem PreOrder.scans {ids l stack rest : List NodeId} (h : t.PreOrder ids l)
    (hs : t.Scans stack rest) : t.Scans (ids ++ stack) (l ++ rest) := by
  induction h generalizing stack rest with
  | nil => exact hs
  | cons _ _ ihbelow ihothers =>
    rw [List.cons_append, List.cons_append, List.cons_append, List.append_assoc]
    exact .enter (ihbelow (ihothers hs))

theorem scans_descendants (h : t.Acyclic id) : t.Scans [id] (t.descendants id) := by
  simpa using (preOrder_descendants h).scans .done

/-- A listing that ends within its bound is one without bound. -/
theorem scans_of_scan {steps : Nat} {stack : List NodeId} (h : (t.scan steps stack).length < steps) :
    t.Scans stack (t.scan steps stack) := by
  induction steps generalizing stack with
  | zero => exact absurd h (Nat.not_lt_zero _)
  | succ steps ih =>
    cases stack with
    | nil => exact .done
    | cons id stack => exact .enter (ih (Nat.lt_of_succ_lt_succ h))

theorem PreOrder.split {ids ids' l : List NodeId} (h : t.PreOrder (ids ++ ids') l) :
    ∃ l₁ l₂, l = l₁ ++ l₂ ∧ t.PreOrder ids l₁ ∧ t.PreOrder ids' l₂ := by
  induction ids generalizing l with
  | nil => exact ⟨[], l, rfl, .nil, h⟩
  | cons id ids ih =>
    cases h with
    | @cons _ _ below others hbelow hothers =>
      obtain ⟨l₁, l₂, rfl, h₁, h₂⟩ := ih hothers
      exact ⟨id :: below ++ l₁, l₂, (List.append_assoc ..).symm, .cons hbelow h₁, h₂⟩

theorem Scans.preOrder {stack l : List NodeId} (h : t.Scans stack l) : t.PreOrder stack l := by
  induction h with
  | done => exact .nil
  | enter _ ih =>
    obtain ⟨below, others, rfl, hbelow, hothers⟩ := ih.split
    exact .cons hbelow hothers

theorem Acyclic.of_children (h : ∀ c ∈ t.children id, t.Acyclic c) : t.Acyclic id := by
  intro a c ha hc hback
  rcases below_iff_child.1 ha with rfl | ⟨d, hd, hda⟩
  · exact h c hc hback hc hback
  · exact h d hd hda hc hback

theorem PreOrder.acyclic {ids l : List NodeId} (h : t.PreOrder ids l) :
    ∀ id ∈ ids, t.Acyclic id := by
  induction h with
  | nil => exact fun _ hid => absurd hid List.not_mem_nil
  | cons _ _ ihbelow ihothers =>
    exact List.forall_mem_cons.2 ⟨Acyclic.of_children ihbelow, ihothers⟩

theorem PreOrder.unique {ids l l' : List NodeId} (h : t.PreOrder ids l) (h' : t.PreOrder ids l') :
    l = l' := by
  induction h generalizing l' with
  | nil =>
    cases h'
    rfl
  | cons _ _ ihbelow ihothers =>
    cases h' with
    | cons hbelow hothers => rw [ihbelow hbelow, ihothers hothers]

theorem PreOrder.descendants_eq {l : List NodeId} (h : t.PreOrder [id] l) : t.descendants id = l :=
  (preOrder_descendants (h.acyclic id List.mem_cons_self)).unique h

/-- A listing ends only where no node lies below itself. -/
theorem Scans.acyclic {nodes : List NodeId} (h : t.Scans [id] nodes) : t.Acyclic id :=
  h.preOrder.acyclic id List.mem_cons_self

theorem strips_stripFrom {depth : Nat} (h : t.HasHeight depth id) :
    t.Strips id (t.stripFrom depth id) := by
  induction depth generalizing id with
  | zero =>
    refine .stop fun inner hk => ?_
    have hleaf : t.children id = [] := h
    simp [children, hk, NodeKind.children] at hleaf
  | succ depth ih =>
    unfold stripFrom
    split
    · rename_i inner hk
      exact .inner hk (ih (h inner (by simp [children, hk, NodeKind.children])))
    · rename_i hk
      exact .stop hk

theorem strips_stripParentheses (h : t.Acyclic id) : t.Strips id (t.stripParentheses id) :=
  strips_stripFrom h.hasHeight

/-! ## Up the tree -/

/-- A climb that ends within the bound meets the same declaration as one without bound. -/
theorem Climbs.owned {above : List NodeId} (h : t.Climbs id above) {depth : Nat}
    (hdepth : above.length < depth) : t.Owned (some id) (t.owningTypeFrom? depth id) := by
  induction depth generalizing id above with
  | zero => exact absurd hdepth (Nat.not_lt_zero _)
  | succ depth ih =>
    unfold owningTypeFrom?
    split
    · rename_i hk
      exact .here hk
    · rename_i hk
      refine .above hk ?_
      cases above with
      | nil =>
        have hp : t.parent? id = none := h
        rw [hp, Option.bind_none]
        exact .nowhere
      | cons p above =>
        rw [h.1, Option.bind_some]
        exact ih h.2 (Nat.lt_of_succ_lt_succ hdepth)

theorem owned_owningType? {above : List NodeId} (h : t.Climbs id above)
    (hlt : ∀ a ∈ id :: above, a < t.size) : t.Owned (some id) (t.owningType? id) :=
  h.owned (length_le_of_nodup h.nodup hlt)

end ObjectLowering.Tree
