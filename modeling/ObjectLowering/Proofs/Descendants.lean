import ObjectLowering.Proofs.WellFormed

/-!
# ObjectLowering.Proofs.Descendants

The nodes that are listed below a node are those that are reached from it.

* `unroll`: the nodes of the first levels below a node; `scan_unroll`: what is listed if there are no
  further levels.
* `hasHeight_of_acyclic`: there are no more levels than nodes, unless a node lies below itself.
* `mem_descendants_iff`: the nodes that are listed are those below, unless a node lies below itself.
* `PreOrder`: a node, then what lies below its children in turn; `preOrder_descendants`: the nodes are
  listed in that order.
-/

namespace ObjectLowering.Tree

variable {t : Tree} {top id : NodeId}

/-- The nodes of the first levels below a node, in pre-order. -/
def unroll (t : Tree) : Nat → NodeId → List NodeId
  | 0, id => [id]
  | depth + 1, id => id :: (t.children id).flatMap (t.unroll depth)

/-- There are at most so many levels below the node. -/
def HasHeight (t : Tree) : Nat → NodeId → Prop
  | 0, id => t.children id = []
  | depth + 1, id => ∀ c ∈ t.children id, t.HasHeight depth c

/-- No node below `top` lies below one of its own children. -/
def Acyclic (t : Tree) (top : NodeId) : Prop :=
  ∀ {id c : NodeId}, t.Below top id → c ∈ t.children id → ¬ t.Below c id

theorem scan_unroll {depth : Nat} (h : t.HasHeight depth id) (steps : Nat) (stack : List NodeId) :
    t.scan (t.extent depth id + steps) (id :: stack) =
      t.unroll depth id ++ t.scan steps stack := by
  induction depth generalizing id steps stack with
  | zero =>
    have hleaf : t.children id = [] := h
    show t.scan (1 + steps) (id :: stack) = id :: t.scan steps stack
    rw [Nat.add_comm, scan, hleaf]
    rfl
  | succ depth ih =>
    have hchildren : ∀ cs ⊆ t.children id,
        t.scan ((cs.map (t.extent depth)).sum + steps) (cs ++ stack) =
          cs.flatMap (t.unroll depth) ++ t.scan steps stack := by
      intro cs hcs
      induction cs with
      | nil => simp
      | cons c cs ihcs =>
        obtain ⟨hc, hcs⟩ := List.cons_subset.1 hcs
        rw [List.map_cons, List.sum_cons, Nat.add_assoc, List.cons_append, ih (h c hc), ihcs hcs,
          List.flatMap_cons, List.append_assoc]
    show t.scan (1 + ((t.children id).map (t.extent depth)).sum + steps) (id :: stack) = _
    rw [Nat.add_assoc, Nat.add_comm 1, scan, hchildren _ (List.Subset.refl _)]
    rfl

theorem below_iff_child {n : NodeId} :
    t.Below id n ↔ n = id ∨ ∃ c ∈ t.children id, t.Below c n := by
  constructor
  · intro h
    induction h with
    | top => exact .inl rfl
    | @child m n hm hc ih =>
      rcases ih with rfl | ⟨c, hcm, hb⟩
      · exact .inr ⟨n, hc, .top⟩
      · exact .inr ⟨c, hcm, .child hb hc⟩
  · rintro (rfl | ⟨c, hc, hb⟩)
    · exact .top
    · exact (Below.top.child hc).trans hb

theorem mem_unroll_of_below {depth : Nat} (h : t.HasHeight depth id) {n : NodeId}
    (hn : t.Below id n) : n ∈ t.unroll depth id := by
  induction depth generalizing id with
  | zero =>
    have hleaf : t.children id = [] := h
    rcases below_iff_child.1 hn with rfl | ⟨c, hc, -⟩
    · exact List.mem_singleton_self n
    · rw [hleaf] at hc
      cases hc
  | succ depth ih =>
    rcases below_iff_child.1 hn with rfl | ⟨c, hc, hb⟩
    · exact List.mem_cons_self
    · exact List.mem_cons_of_mem _ (List.mem_flatMap.2 ⟨c, hc, ih (h c hc) hb⟩)

/-! ## Paths do not return -/

theorem Path.below_of_mem {above : List NodeId} (h : t.Path top id above) {a : NodeId}
    (ha : a ∈ id :: above) : t.Below a id := by
  induction h with
  | top =>
    rw [List.mem_singleton.1 ha]
    exact .top
  | child _ hc ih =>
    rcases List.mem_cons.1 ha with rfl | ha
    · exact .top
    · exact .child (ih ha) hc

theorem Path.nodup {above : List NodeId} (hacyclic : t.Acyclic top) (h : t.Path top id above) :
    (id :: above).Nodup := by
  induction h with
  | top => exact List.nodup_singleton _
  | @child id c above hp hc ih =>
    refine List.nodup_cons.2 ⟨fun hm => ?_, ih⟩
    exact hacyclic hp.reaches hc (hp.below_of_mem hm)

theorem hasHeight_of_acyclic {above : List NodeId} (hacyclic : t.Acyclic top)
    (h : t.Path top id above) {depth : Nat} (hdepth : t.size ≤ depth + above.length) :
    t.HasHeight depth id := by
  induction depth generalizing id above with
  | zero =>
    refine List.eq_nil_iff_forall_not_mem.2 fun c hc => ?_
    -- the nodes above the child are too many
    have hlength := length_le_of_nodup (h.nodup hacyclic) (h.child hc).above_lt_size
    rw [List.length_cons] at hlength
    omega
  | succ depth ih =>
    intro c hc
    refine ih (h.child hc) ?_
    rw [List.length_cons]
    omega

theorem Acyclic.hasHeight (h : t.Acyclic id) : t.HasHeight t.size id :=
  hasHeight_of_acyclic h .top (Nat.le_add_right ..)

theorem descendants_eq_unroll (h : t.Acyclic id) : t.descendants id = t.unroll t.size id := by
  have hscan := scan_unroll h.hasHeight 0 []
  rwa [Nat.add_zero, scan, List.append_nil] at hscan

theorem mem_descendants_iff (h : t.Acyclic id) {n : NodeId} :
    n ∈ t.descendants id ↔ t.Below id n := by
  constructor
  · intro hn
    obtain ⟨top, htop, hb⟩ := below_of_mem_scan hn
    rwa [List.mem_singleton.1 htop] at hb
  · intro hn
    rw [descendants_eq_unroll h]
    exact mem_unroll_of_below h.hasHeight hn

/-! ## The order -/

/-- Nodes with all that lies below them in pre-order: each node, then what lies below its children. -/
inductive PreOrder (t : Tree) : List NodeId → List NodeId → Prop where
  | nil : t.PreOrder [] []
  | cons {id : NodeId} {rest below others : List NodeId} :
    t.PreOrder (t.children id) below → t.PreOrder rest others →
      t.PreOrder (id :: rest) (id :: below ++ others)

namespace PreOrder

variable {ids ids' l l' below : List NodeId}

theorem singleton (h : t.PreOrder (t.children id) below) : t.PreOrder [id] (id :: below) := by
  simpa using h.cons .nil

theorem append (h : t.PreOrder ids l) (h' : t.PreOrder ids' l') :
    t.PreOrder (ids ++ ids') (l ++ l') := by
  induction h with
  | nil => exact h'
  | cons hbelow _ _ ih =>
    rw [List.cons_append, List.append_assoc]
    exact hbelow.cons ih

end PreOrder

theorem preOrder_unroll {depth : Nat} (h : t.HasHeight depth id) :
    t.PreOrder [id] (t.unroll depth id) := by
  induction depth generalizing id with
  | zero =>
    have hleaf : t.children id = [] := h
    refine .singleton ?_
    rw [hleaf]
    exact .nil
  | succ depth ih =>
    have hchildren : ∀ cs ⊆ t.children id, t.PreOrder cs (cs.flatMap (t.unroll depth)) := by
      intro cs hcs
      induction cs with
      | nil => exact .nil
      | cons c cs ihcs =>
        obtain ⟨hc, hcs⟩ := List.cons_subset.1 hcs
        exact (ih (h c hc)).append (ihcs hcs)
    exact .singleton (hchildren _ (List.Subset.refl _))

theorem preOrder_descendants (h : t.Acyclic id) : t.PreOrder [id] (t.descendants id) :=
  descendants_eq_unroll h ▸ preOrder_unroll h.hasHeight

end ObjectLowering.Tree
