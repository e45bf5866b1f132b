import Mathlib.Logic.Relation
import ObjectLowering.Proofs.Site

/-!
# ObjectLowering.Proofs.Region

Changes of a tree that stay in one part of it. A region is a set of nodes that holds every node still
to come. It encloses a tree if links do not lead out of it, up or down, but for those into case
labels. Edits of an enclosed tree at nodes of the region leave all other nodes alone, and the tree
stays enclosed.

* `NodeKind.Changes`: what can become of the kind of a node.
* `Region.Edits`: the tree after edits in a region.
* `edits_alloc`, `edits_replace`, `edits_convertFrom`: the changes of a tree at nodes inside are such
  edits, a conversion also where it fails half-way.
* `Consistent.encloses`: in a tree whose links agree, the nodes outside case labels are enclosed.
-/

namespace ObjectLowering

namespace NodeKind

/-- One change of a kind in a tree whose nodes from `n` on are new. -/
inductive Change (n : Nat) : NodeKind → NodeKind → Prop where
  /-- A slot gets a new node. -/
  | replaced {k k' : NodeKind} {old new : NodeId} :
    n ≤ new → k.replaceChild? old new = some k' → Change n k k'
  /-- A qualified name becomes a member access with the same children. -/
  | exposed {qualifier name : NodeId} :
    Change n (.qualifiedName qualifier name) (.fieldAccess qualifier name)

abbrev Changes (n : Nat) : NodeKind → NodeKind → Prop :=
  Relation.ReflTransGen (Change n)

theorem Change.isCaseLabel_eq {n : Nat} {k k' : NodeKind} (h : Change n k k') :
    k'.isCaseLabel = k.isCaseLabel := by
  cases h with
  | replaced _ hr =>
    rw [← isCaseLabel_form k', (replaceChild?_eq_some hr).2.1, isCaseLabel_form]
  | exposed => rfl

theorem Changes.isCaseLabel_eq {n : Nat} {k k' : NodeKind} (h : Changes n k k') :
    k'.isCaseLabel = k.isCaseLabel := by
  induction h with
  | refl => rfl
  | tail _ hc ih => exact hc.isCaseLabel_eq.trans ih

theorem Changes.form_eq {n : Nat} {k k' : NodeKind} (h : Changes n k k')
    (hq : k.isQualifiedName = false) : k'.form = k.form := by
  induction h with
  | refl => rfl
  | tail _ hc ih =>
    cases hc with
    | replaced _ hr => exact (replaceChild?_eq_some hr).2.1.trans ih
    | exposed =>
      rw [← isQualifiedName_form k, ← ih] at hq
      cases hq

end NodeKind

/-- A set of nodes with all that are new, those from `size` on. -/
structure Region where
  size : Nat
  inside : NodeId → Prop
  new_inside : ∀ i, size ≤ i → inside i

namespace Tree

/-- The node stands strictly below a case label that is reachable. -/
def UnderCaseLabel (t : Tree) (id : NodeId) : Prop :=
  ∃ label top, t.Reachable label ∧ (t.kind? label).any (·.isCaseLabel) = true ∧
    top ∈ t.children label ∧ t.Below top id

/-- The recorded parents of reachable nodes agree with the slots, and the root has none. -/
structure Consistent (t : Tree) : Prop where
  parentless : ∀ {root : NodeId}, t.root = some root → t.parent? root = none
  links : ∀ {id c : NodeId}, t.Reachable id → c ∈ t.children id → t.parent? c = some id

theorem Linked.consistent {t : Tree} (h : t.Linked) : t.Consistent where
  parentless := by
    intro root hr
    obtain ⟨r, node, hr', hn, hp⟩ := h.parentless
    obtain rfl : root = r := Option.some.inj (hr.symm.trans hr')
    simp [parent?, hn, hp]
  links := h.links

theorem consistent_of_nodes {t : Tree} (hr : t.root.bind t.parent? = none)
    (h : ∀ id < t.size, ∀ c ∈ t.children id, t.parent? c = some id) : t.Consistent where
  parentless hroot := by
    rw [hroot] at hr
    exact hr
  links _ hc := h _ (lt_size_of_mem_children hc) _ hc

/-- The reachable nodes that stand below no case label. -/
def openRegion (t : Tree) : Region where
  size := t.size
  inside id := t.size ≤ id ∨ t.Reachable id ∧ ¬ t.UnderCaseLabel id
  new_inside _ h := .inl h

end Tree

namespace Region

variable {r : Region}

/-- The links of nodes inside lead to nodes inside, but for the slots of case labels, and nodes still
to come are new. -/
structure Encloses (r : Region) (t : Tree) : Prop where
  size_le : r.size ≤ t.size
  down : ∀ {id c : NodeId} {k : NodeKind}, r.inside id → t.kind? id = some k →
    k.isCaseLabel = false → c ∈ k.children → r.inside c
  up : ∀ {id p : NodeId}, r.inside id → t.parent? id = some p → r.inside p

/-- The tree `t'` is `t` after edits inside the region, which still encloses it. -/
structure Edits (r : Region) (t t' : Tree) : Prop where
  encloses : r.Encloses t'
  outside : ∀ i, ¬ r.inside i → t'.node? i = t.node? i
  kept : ∀ {i : NodeId} {node : Node}, t.node? i = some node →
    ∃ node', t'.node? i = some node' ∧ node'.span = node.span ∧
      (i < r.size → node'.nilCheck = node.nilCheck) ∧ NodeKind.Changes r.size node.kind node'.kind

theorem Edits.refl {t : Tree} (h : r.Encloses t) : r.Edits t t where
  encloses := h
  outside _ _ := rfl
  kept h := ⟨_, h, rfl, fun _ => rfl, .refl⟩

theorem Edits.trans {t₁ t₂ t₃ : Tree} (h : r.Edits t₁ t₂) (h' : r.Edits t₂ t₃) :
    r.Edits t₁ t₃ where
  encloses := h'.encloses
  outside i hi := (h'.outside i hi).trans (h.outside i hi)
  kept hn := by
    obtain ⟨n₂, hn₂, hs₂, hb₂, hk₂⟩ := h.kept hn
    obtain ⟨n₃, hn₃, hs₃, hb₃, hk₃⟩ := h'.kept hn₂
    exact ⟨n₃, hn₃, hs₃.trans hs₂, fun hi => (hb₃ hi).trans (hb₂ hi), hk₂.trans hk₃⟩

/-- No edit makes or unmakes a case label. -/
theorem Edits.isCaseLabel_eq {t t' : Tree} (h : r.Edits t t') {id : NodeId} {k k' : NodeKind}
    (hk : t.kind? id = some k) (hk' : t'.kind? id = some k') : k'.isCaseLabel = k.isCaseLabel := by
  obtain ⟨node, hn, rfl⟩ := Option.map_eq_some_iff.1 hk
  obtain ⟨node', hn', -, -, hc⟩ := h.kept hn
  rw [Tree.kind?, hn'] at hk'
  obtain rfl := Option.some.inj hk'
  exact hc.isCaseLabel_eq

/-! ## Edits inside a region -/

/-- A change of one node inside: its kind changes as kinds do, and its parent is inside. -/
theorem edits_update {t : Tree} {id : NodeId} {change : Node → Node} (h : r.Encloses t)
    (hid : r.inside id)
    (hc : ∀ node, t.node? id = some node → (change node).span = node.span ∧
      (id < r.size → (change node).nilCheck = node.nilCheck) ∧
      NodeKind.Changes r.size node.kind (change node).kind ∧
      (∀ c ∈ (change node).kind.children, c ∈ node.kind.children ∨ r.inside c) ∧
      ∀ p, (change node).parent = some p → node.parent = some p ∨ r.inside p) :
    r.Edits t (t.update id change) := by
  have hnode {i : NodeId} {node : Node} (hn : (t.update id change).node? i = some node) :
      t.node? i = some node ∨ id = i ∧ ∃ old, t.node? id = some old ∧ change old = node := by
    rw [Tree.node?_update] at hn
    split at hn
    · rename_i he
      subst he
      exact .inr ⟨rfl, Option.map_eq_some_iff.1 hn⟩
    · exact .inl hn
  refine ⟨⟨by simpa using h.size_le, ?_, ?_⟩, ?_, ?_⟩
  · intro i c k hi hk hl hm
    obtain ⟨node, hn, rfl⟩ := Option.map_eq_some_iff.1 hk
    rcases hnode hn with hn | ⟨rfl, old, ho, rfl⟩
    · exact h.down hi (by simp [Tree.kind?, hn]) hl hm
    · obtain ⟨-, -, hch, hsub, -⟩ := hc old ho
      rcases hsub c hm with hm | hm
      · exact h.down hid (by simp [Tree.kind?, ho]) (hch.isCaseLabel_eq.symm.trans hl) hm
      · exact hm
  · intro i p hi hp
    obtain ⟨node, hn, hnp⟩ := Tree.node?_of_parent? hp
    rcases hnode hn with hn | ⟨rfl, old, ho, rfl⟩
    · exact h.up hi (by simp [Tree.parent?, hn, hnp])
    · obtain ⟨-, -, -, -, hpar⟩ := hc old ho
      rcases hpar p hnp with hnp | hin
      · exact h.up hid (by simp [Tree.parent?, ho, hnp])
      · exact hin
  · intro i hi
    rw [Tree.node?_update, if_neg]
    rintro rfl
    exact hi hid
  · intro i node hn
    rw [Tree.node?_update]
    by_cases he : id = i
    · subst he
      obtain ⟨hs, hb, hk, -, -⟩ := hc node hn
      exact ⟨change node, by simp [hn], hs, hb, hk⟩
    · exact ⟨node, by simp [he, hn], rfl, fun _ => rfl, .refl⟩

theorem edits_setParent {t : Tree} {id : NodeId} (parent : Option NodeId) (h : r.Encloses t)
    (hid : r.inside id) (hp : ∀ p, parent = some p → r.inside p) :
    r.Edits t (t.update id ({ · with parent })) :=
  edits_update h hid fun _ _ => ⟨rfl, fun _ => rfl, .refl, fun _ hm => .inl hm,
    fun p he => .inr (hp p he)⟩

theorem edits_setKind {t : Tree} {id : NodeId} {kind : NodeKind} (h : r.Encloses t)
    (hid : r.inside id) (hc : ∀ k, t.kind? id = some k → NodeKind.Change r.size k kind ∧
      ∀ c ∈ kind.children, c ∈ k.children ∨ r.inside c) :
    r.Edits t (t.update id ({ · with kind })) := by
  refine edits_update h hid fun node hn => ?_
  obtain ⟨hk, hsub⟩ := hc node.kind (by simp [Tree.kind?, hn])
  exact ⟨rfl, fun _ => rfl, .single hk, hsub, fun p hp => .inl hp⟩

/-- Hanging nodes inside under a new one. -/
theorem edits_adopt {t : Tree} {id : NodeId} {cs : List NodeId} (h : r.Encloses t)
    (hid : r.inside id) (hc : ∀ c ∈ cs, r.inside c) : r.Edits t (t.adopt id cs) := by
  unfold Tree.adopt
  induction cs generalizing t with
  | nil => exact .refl h
  | cons c cs ih =>
    rw [List.foldl_cons]
    have he : r.Edits t (t.update c ({ · with parent := some id })) :=
      edits_setParent (some id) h (hc c List.mem_cons_self) fun p hp => Option.some.inj hp ▸ hid
    exact he.trans (ih he.encloses fun d hd => hc d (List.mem_cons_of_mem _ hd))

/-- A new node over nodes inside. -/
theorem edits_alloc {t : Tree} {kind : NodeKind} (span : Span) (h : r.Encloses t)
    (hc : ∀ c ∈ kind.children, r.inside c) : r.Edits t (t.alloc kind span).2 := by
  have he : r.Edits t (t.adopt t.size kind.children) :=
    edits_adopt h (r.new_inside _ h.size_le) hc
  have hlt {i : NodeId} {node : Node} (hn : (t.adopt t.size kind.children).node? i = some node) :
      i ≠ t.size := by
    have hs : (t.adopt t.size kind.children).size = t.size := t.size_adopt ..
    exact Nat.ne_of_lt (hs ▸ (Array.getElem?_eq_some_iff.1 hn).1)
  have hnode {i : NodeId} {node : Node} (hn : (t.alloc kind span).2.node? i = some node) :
      node = { kind, span } ∨ (t.adopt t.size kind.children).node? i = some node := by
    rw [Tree.node?_alloc] at hn
    split at hn
    · exact .inl (Option.some.inj hn).symm
    · exact .inr hn
  refine ⟨⟨?_, ?_, ?_⟩, ?_, ?_⟩
  · have := h.size_le
    rw [Tree.size_alloc]
    omega
  · intro i c k hi hk hl hm
    obtain ⟨node, hn, rfl⟩ := Option.map_eq_some_iff.1 hk
    rcases hnode hn with rfl | hn
    · exact hc c hm
    · exact he.encloses.down hi (by simp [Tree.kind?, hn]) hl hm
  · intro i p hi hp
    obtain ⟨node, hn, hnp⟩ := Tree.node?_of_parent? hp
    rcases hnode hn with rfl | hn
    · cases hnp
    · exact he.encloses.up hi (by simp [Tree.parent?, hn, hnp])
  · intro i hi
    rw [Tree.node?_alloc, if_neg, he.outside i hi]
    rintro rfl
    exact hi (r.new_inside _ h.size_le)
  · intro i node hn
    obtain ⟨node', hn', hs, hb, hk⟩ := he.kept hn
    exact ⟨node', by rw [Tree.node?_alloc, if_neg (hlt hn'), hn'], hs, hb, hk⟩

/-! ## Replacements and conversions -/

theorem mem_or_eq_of_mem_replace {c old new : NodeId} {l : List NodeId}
    (h : c ∈ l.replace old new) : c ∈ l ∨ c = new := by
  induction l with
  | nil => cases h
  | cons d l ih =>
    rw [List.replace_cons] at h
    split at h
    · rcases List.mem_cons.1 h with rfl | h
      · exact .inr rfl
      · exact .inl (List.mem_cons_of_mem _ h)
    · rcases List.mem_cons.1 h with rfl | h
      · exact .inl List.mem_cons_self
      · exact (ih h).imp_left (List.mem_cons_of_mem _)

/-- What a successful replacement has found and done. -/
theorem replace_eq_ok {t t' : Tree} {old new : NodeId} (h : t.replace old new = .ok t') :
    ∃ parent k kind, t.parent? old = some parent ∧ t.kind? parent = some k ∧
      k.replaceChild? old new = some kind ∧
      t' = (((t.update parent ({ · with kind })).update new
        ({ · with parent := some parent })).update old ({ · with parent := none })) := by
  unfold Tree.replace at h
  cases ho : t.node old with
  | error e => simp [ho, bind, Except.bind] at h
  | ok oldNode =>
    cases hp : oldNode.parent with
    | none => simp [ho, hp, bind, Except.bind] at h
    | some parent =>
      cases hn : t.node new with
      | error e => simp [ho, hp, hn, bind, Except.bind] at h
      | ok newNode =>
        cases hpn : t.node parent with
        | error e => simp [ho, hp, hn, hpn, bind, Except.bind] at h
        | ok parentNode =>
          cases hk : parentNode.kind.replaceChild? old new with
          | none => simp [ho, hp, hn, hpn, hk, bind, Except.bind] at h
          | some kind =>
            simp only [ho, hp, hn, hpn, hk, bind, Except.bind] at h
            cases h
            refine ⟨parent, parentNode.kind, kind, ?_, ?_, hk, rfl⟩
            · simp [Tree.parent?, Tree.node?_of_node ho, hp]
            · simp [Tree.kind?, Tree.node?_of_node hpn]

/-- A new node takes the place of a node inside. -/
theorem edits_replace {t t' : Tree} {old new : NodeId} (h : r.Encloses t) (ho : r.inside old)
    (hn : r.size ≤ new) (hr : t.replace old new = .ok t') : r.Edits t t' := by
  obtain ⟨parent, k, kind, hp, hk, hrep, rfl⟩ := replace_eq_ok hr
  have hparent : r.inside parent := h.up ho hp
  have hkind : r.Edits t (t.update parent ({ · with kind })) :=
    edits_setKind h hparent fun k' hk' => by
      obtain rfl := Option.some.inj (hk.symm.trans hk')
      refine ⟨.replaced hn hrep, fun c hc => ?_⟩
      rw [(NodeKind.replaceChild?_eq_some hrep).2.2] at hc
      refine (mem_or_eq_of_mem_replace hc).imp_right ?_
      rintro rfl
      exact r.new_inside _ hn
  have hnew := edits_setParent (some parent) hkind.encloses (r.new_inside _ hn) fun p e =>
    Option.some.inj e ▸ hparent
  have hold := edits_setParent none hnew.encloses ho fun p e => nomatch e
  exact (hkind.trans hnew).trans hold

/-- What a successful conversion of one name has found and done. -/
theorem convertOne_eq_ok {t t' : Tree} {id : NodeId} (h : t.convertOne id = .ok t') :
    ∃ qualifier name, t.kind? id = some (.qualifiedName qualifier name) ∧
      t' = t.update id ({ · with kind := .fieldAccess qualifier name }) := by
  unfold Tree.convertOne at h
  cases hn : t.node id with
  | error e => simp [hn, bind, Except.bind] at h
  | ok node =>
    simp only [hn, bind, Except.bind] at h
    split at h
    · rename_i qualifier name hk
      cases hm : t.node name with
      | error e => simp [hm] at h
      | ok member =>
        simp only [hm] at h
        split at h
        · cases h
          exact ⟨qualifier, name, by rw [Tree.kind?, Tree.node?_of_node hn, Option.map_some, hk], rfl⟩
        · cases h
    · cases h

theorem edits_convertOne {t t' : Tree} {id : NodeId} (h : r.Encloses t) (hid : r.inside id)
    (hc : t.convertOne id = .ok t') : r.Edits t t' := by
  obtain ⟨qualifier, name, hk, rfl⟩ := convertOne_eq_ok hc
  refine edits_setKind h hid fun k hk' => ?_
  obtain rfl := Option.some.inj (hk.symm.trans hk')
  exact ⟨.exposed, fun c hc => .inl hc⟩

/-- A conversion, which climbs to nodes around the one that it starts from. -/
theorem edits_convertFrom {t : Tree} {id : NodeId} (h : r.Encloses t) (hid : r.inside id)
    (depth : Nat) :
    r.Edits t (t.convertFrom depth id).1 := by
  induction depth generalizing t id with
  | zero => exact .refl h
  | succ depth ih =>
    rw [Tree.convertFrom]
    split
    · exact .refl h
    · rename_i t' hc
      have he : r.Edits t t' := edits_convertOne h hid hc
      split
      · rename_i parent hq
        have hp : t'.parent? id = some parent := (Option.filter_eq_some_iff.1 hq).1
        exact he.trans (ih he.encloses (he.encloses.up hid hp))
      · exact he

end Region

namespace Tree

/-- In a tree whose links agree nothing but a case label leads from the nodes outside case labels to
those below. -/
theorem Consistent.encloses {t : Tree} (h : t.Consistent) : t.openRegion.Encloses t where
  size_le := Nat.le_refl _
  down := by
    rintro id c k (hid | ⟨hr, hid⟩) hk hl hc
    · have hlt : id < t.size := lt_size_of_mem_children (t := t) (c := c) (by simpa [children, hk] using hc)
      exact absurd hlt (Nat.not_lt.2 hid)
    · have hch : c ∈ t.children id := by simpa [children, hk] using hc
      obtain ⟨root, hroot, hb⟩ := hr
      refine .inr ⟨⟨root, hroot, .child hb hch⟩, ?_⟩
      rintro ⟨label, top, hlabel, hcase, htop, hbelow⟩
      -- the node above `c` is the only one that holds it
      have hhold {y : NodeId} (hy : t.Reachable y) (hcy : c ∈ t.children y) : y = id :=
        Option.some.inj ((h.links hy hcy).symm.trans (h.links ⟨root, hroot, hb⟩ hch))
      obtain ⟨root', hroot', hlb⟩ := hlabel
      cases hbelow with
      | top =>
        obtain rfl := hhold ⟨root', hroot', hlb⟩ htop
        simp [hk, hl] at hcase
      | @child y _ hby hcy =>
        obtain rfl := hhold ⟨root', hroot', (hlb.child htop).trans hby⟩ hcy
        exact hid ⟨label, top, ⟨root', hroot', hlb⟩, hcase, htop, hby⟩
  up := by
    rintro id p (hid | ⟨⟨root, hroot, hb⟩, hid⟩) hp
    · obtain ⟨node, hn, -⟩ := node?_of_parent? hp
      exact absurd (Array.getElem?_eq_some_iff.1 hn).1 (Nat.not_lt.2 hid)
    · cases hb with
      | top => rw [h.parentless hroot] at hp; cases hp
      | @child y _ hby hcy =>
        obtain rfl := Option.some.inj ((h.links ⟨root, hroot, hby⟩ hcy).symm.trans hp)
        refine .inr ⟨⟨root, hroot, hby⟩, ?_⟩
        rintro ⟨label, top, hlabel, hcase, htop, hbelow⟩
        exact hid ⟨label, top, hlabel, hcase, htop, .child hbelow hcy⟩

theorem Consistent.exists_parent {t : Tree} (h : t.Consistent) {id : NodeId}
    (hid : t.UnderCaseLabel id) : ∃ p, t.parent? id = some p := by
  obtain ⟨label, top, ⟨root, hroot, hb⟩, -, htop, hbelow⟩ := hid
  cases hbelow with
  | top => exact ⟨label, h.links ⟨root, hroot, hb⟩ htop⟩
  | @child y _ hby hy => exact ⟨y, h.links ⟨root, hroot, (hb.child htop).trans hby⟩ hy⟩

theorem Consistent.root_inside {t : Tree} (h : t.Consistent) {root : NodeId}
    (hr : t.root = some root) : t.openRegion.inside root := by
  refine .inr ⟨⟨root, hr, .top⟩, fun hid => ?_⟩
  obtain ⟨p, hp⟩ := h.exists_parent hid
  rw [h.parentless hr] at hp
  cases hp

theorem Consistent.not_inside {t : Tree} (h : t.Consistent) {id : NodeId}
    (hid : t.UnderCaseLabel id) : ¬ t.openRegion.inside id := by
  rintro (hnew | ⟨-, hnot⟩)
  · obtain ⟨p, hp⟩ := h.exists_parent hid
    obtain ⟨node, hn, -⟩ := node?_of_parent? hp
    exact absurd (Array.getElem?_eq_some_iff.1 hn).1 (Nat.not_lt.2 hnew)
  · exact hnot hid

end Tree

end ObjectLowering
