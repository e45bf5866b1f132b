import ObjectLowering.Proofs.Site

/-!
# ObjectLowering.Proofs.Position

A tree that stores a whole program, looked at from one of its terms: the term, and the site around
it. Walks go from one position to the next and change what stands there.

* `At.into`, `At.out`: from a node to a term below it and back.
* `Site.settle_slot`: what a change of the first term below a node does to the node.
* `replace_holds`, `replace_position`: a detached term takes the place of another.
-/

namespace ObjectLowering

namespace Site

/-- Only a slot of a qualifier wants a name. -/
theorem Named.of_not_isQualifier {name : Bool} {site : Site} (h : site.Named name)
    (hq : site.isQualifier = false) (name' : Bool) : site.Named name' := by
  cases site with
  | root => trivial
  | slot id cell before after outer =>
    refine ⟨fun hf hb => ?_, h.2⟩
    subst hb
    exact absurd (hf.symm.trans hq) Bool.false_ne_true.symm

theorem named_expose {name : Bool} {site : Site} (h : site.Named name) :
    site.expose.Named false := by
  induction site generalizing name with
  | root => trivial
  | slot id cell before after outer ih =>
    cases before with
    | cons b before => exact h.of_not_isQualifier rfl false
    | nil =>
      rw [expose]
      split
      · refine ⟨?_, ih h.2⟩
        intro hf
        cases hf
      · rename_i hf
        exact h.of_not_isQualifier (Bool.eq_false_iff.2 hf) false

theorem slot_ne_root {id : NodeId} {cell : Cell} {before after : List (Term NodeId)}
    {outer : Site} : slot id cell before after outer ≠ .root := by
  intro h
  cases h

theorem expose_ne_root {site : Site} (h : site ≠ .root) : site.expose ≠ .root := by
  unfold expose
  split
  · split
    · exact slot_ne_root
    · exact slot_ne_root
  · exact h

theorem settle_of_not_isQualifier {site : Site} (h : site.isQualifier = false) (name : Bool) :
    site.settle name = site := by
  cases name with
  | true => rfl
  | false => exact expose_of_not_isQualifier h

theorem settle_of_named {name : Bool} {site : Site} (h : site.Named name) :
    site.settle name = site := by
  cases name with
  | true => rfl
  | false => exact expose_of_not_isQualifier (isQualifier_eq_false h)

/-- A change of the first term below a node is seen by the node itself, and if that stops being a
name in turn, by the nodes around it. -/
theorem settle_slot {id : NodeId} {cell : Cell} {after : List (Term NodeId)} {outer : Site}
    (h : outer.Named cell.form.isName) (name : Bool) :
    (slot id cell [] after outer).settle name =
      slot id (if name then cell else cell.expose) [] after
        (outer.settle (if name then cell else cell.expose).form.isName) := by
  cases name with
  | true => rw [if_pos rfl, settle_of_named h, settle, if_pos rfl]
  | false =>
    rw [if_neg Bool.false_ne_true, settle, if_neg Bool.false_ne_true, expose]
    cases hq : cell.form.isQualifiedName with
    | true =>
      rw [if_pos rfl, Cell.expose_of_isQualifiedName hq]
      rfl
    | false =>
      rw [if_neg Bool.false_ne_true, Cell.expose_of_not_isQualifiedName hq, settle_of_named h]

theorem numbers_slot_perm (s : Term NodeId) (id : NodeId) (cell cell' : Cell)
    (before after : List (Term NodeId)) (outer : Site) :
    (s.labels ++ (slot id cell before after outer).numbers).Perm
      ((Term.node id cell' (before ++ s :: after)).labels ++ outer.numbers) := by
  simp only [numbers, Term.labels_node, List.flatMap_append, List.flatMap_cons]
  refine List.perm_middle.trans (.cons id ?_)
  simp only [← List.append_assoc]
  exact (List.perm_append_comm.append_right _).append_right _

end Site

namespace Tree

/-- The tree stores the term at the site, without repeated numbers. -/
structure At (t : Tree) (site : Site) (s : Term NodeId) : Prop where
  holds : t.Holds site.parent? s
  around : t.HoldsAround s.label site
  nodup : (s.labels ++ site.numbers).Nodup
  named : site.Named s.isName

theorem Stores.at_root {t : Tree} {s : Term NodeId} (h : t.Stores s) : t.At .root s where
  holds := h.holds
  around := trivial
  nodup := by
    rw [Site.numbers, List.append_nil]
    exact h.nodup
  named := trivial

namespace At

theorem frame {t t' : Tree} {site : Site} {s : Term NodeId} (h : t.At site s)
    (hf : ∀ i < t.size, t'.node? i = t.node? i) : t'.At site s where
  holds := h.holds.congr fun i hi => hf i (h.holds.lt_size i hi)
  around := h.around.congr fun i hi => hf i (h.around.lt_size i hi)
  nodup := h.nodup
  named := h.named

theorem owningType? {t : Tree} {site : Site} {s : Term NodeId} (h : t.At site s) :
    t.owningType? s.label = s.form.context site.context := by
  have hsub : (s.label :: site.numbers).Sublist (s.labels ++ site.numbers) :=
    (List.singleton_sublist.2 s.label_mem_labels).append_right site.numbers
  exact owningType?_at h.holds.has_top h.around (hsub.nodup h.nodup)

theorem nodup_child {t : Tree} {site : Site} {id : NodeId} {cell : Cell}
    {cs : List (Term NodeId)} (h : t.At site (.node id cell cs)) {s : Term NodeId} (hs : s ∈ cs) :
    s.labels.Nodup := by
  have hw : s.Within (.node id cell cs) := .child hs .refl
  exact hw.labels_sublist.nodup (List.nodup_append.1 h.nodup).1

theorem into {t : Tree} {site : Site} {id : NodeId} {cell : Cell} {l r : List (Term NodeId)}
    {s : Term NodeId} (h : t.At site (.node id cell (l ++ s :: r)))
    (hn : l = [] → Term.NamesOk cell.form (s :: r)) : t.At (.slot id cell l r site) s where
  holds := h.holds.child s (by simp)
  around := HoldsAround.into h.holds h.around
  nodup := (Site.numbers_slot_perm s id cell cell l r site).nodup_iff.2 h.nodup
  named := by
    refine ⟨fun hf hl => ?_, h.named⟩
    obtain ⟨q, n, e, hq, hs⟩ := Term.namesOk_of_isQualifiedName hf (hn hl)
    cases e
    exact ⟨hq, n, rfl, hs⟩

/-- Every term below a node has a position, where the code belongs to the same type. -/
theorem exists_child {t : Tree} {site : Site} {id : NodeId} {cell : Cell}
    {cs : List (Term NodeId)} (h : t.At site (.node id cell cs))
    (hn : Term.NamesOk cell.form cs) {s : Term NodeId} (hs : s ∈ cs) :
    ∃ site', t.At site' s ∧ cell.form.context site.context = site'.context := by
  obtain ⟨l, r, rfl⟩ := List.append_of_mem hs
  refine ⟨.slot id cell l r site, h.into ?_, rfl⟩
  intro hl
  subst hl
  exact hn

theorem out {t : Tree} {site : Site} {id : NodeId} {cell : Cell} {l r : List (Term NodeId)}
    {s : Term NodeId} (h : t.At (.slot id cell l r site) s) :
    t.At site (.node id cell (l ++ s :: r)) where
  holds := (HoldsAround.out h.holds h.around).1
  around := (HoldsAround.out h.holds h.around).2
  nodup := (Site.numbers_slot_perm s id cell cell l r site).nodup_iff.1 h.nodup
  named := h.named.2

end At

theorem mem_ids_of_parent? {site : Site} {p : NodeId} (h : site.parent? = some p) :
    p ∈ site.ids := by
  cases site with
  | root => cases h
  | slot q _ _ _ _ =>
    cases h
    exact List.mem_cons_self

theorem mem_numbers_of_parent? {site : Site} {p : NodeId} (h : site.parent? = some p) :
    p ∈ site.numbers :=
  site.ids_sublist.subset (mem_ids_of_parent? h)

/-- A stored term takes the place of another node. -/
theorem replace_holds {t : Tree} {site : Site} {c : NodeId} {cell : Cell} {cs : List NodeId}
    {q : Option NodeId} {r : Term NodeId} (hr : site ≠ .root) (hc : t.Has c cell site.parent? cs)
    (hs : t.HoldsAround c site) (hnew : t.Holds q r) (hn : (c :: (r.labels ++ site.numbers)).Nodup) :
    ∃ t', t.replace c r.label = .ok t' ∧ t'.root = t.root ∧ t'.size = t.size ∧
      t'.Holds site.parent? r ∧ t'.HoldsAround r.label site ∧ t.Alters site.ids t' ∧
      ∀ i, i ≠ c → i ≠ r.label → some i ≠ site.parent? → t'.node? i = t.node? i := by
  obtain ⟨p, hp⟩ : ∃ p, site.parent? = some p := by
    cases site with
    | root => exact absurd rfl hr
    | slot p _ _ _ _ => exact ⟨p, rfl⟩
  have hmem := mem_numbers_of_parent? hp
  cases r with
  | node id rcell rs =>
    rw [Term.labels_node, List.cons_append] at hn
    have hsub : (c :: id :: site.numbers).Sublist
        (c :: id :: (rs.flatMap Term.labels ++ site.numbers)) :=
      ((List.sublist_append_right _ _).cons_cons id).cons_cons c
    obtain ⟨t', ht, hroot, hsize, ha, hh, hf, hkinds⟩ := replace_at hp hc hs hnew.has (hsub.nodup hn)
    refine ⟨t', ht, hroot, hsize, .node hh ?_, ha, ⟨hroot, Nat.le_of_eq hsize.symm, ?_⟩, ?_⟩
    · intro s hm
      refine (hnew.child s hm).congr ?_
      intro i hi
      have hi' : i ∈ rs.flatMap Term.labels := List.mem_flatMap.2 ⟨s, hm, hi⟩
      simp only [List.nodup_cons, List.mem_cons, List.mem_append, not_or, List.nodup_append] at hn
      obtain ⟨⟨_, hcr, _⟩, ⟨hir, _⟩, _, _, hd⟩ := hn
      refine hf i ?_ ?_ ?_
      · rintro rfl
        exact hcr hi'
      · rintro rfl
        exact hir hi'
      · rintro rfl
        exact hd i hi' i hmem rfl
    · intro i _ hi
      exact hkinds i fun e => hi (e ▸ mem_ids_of_parent? hp)
    · intro i hic hin hip
      exact hf i hic hin fun e => hip (e ▸ hp.symm)

/-- A detached term takes the position of another node. -/
theorem replace_position {t : Tree} {site : Site} {c : NodeId} {cell : Cell} {cs : List NodeId}
    {q : Option NodeId} {r : Term NodeId} (hr : site ≠ .root) (hc : t.Has c cell site.parent? cs)
    (hs : t.HoldsAround c site) (hnew : t.Holds q r) (hn : (c :: (r.labels ++ site.numbers)).Nodup)
    (hnm : site.Named r.isName) :
    ∃ t', t.replace c r.label = .ok t' ∧ t.Alters site.ids t' ∧ t'.At site r := by
  obtain ⟨t', ht, -, -, hholds, ha, halters, -⟩ := replace_holds hr hc hs hnew hn
  exact ⟨t', ht, halters, hholds, ha, (List.nodup_cons.1 hn).2, hnm⟩

/-- The tree `t'` is `t` with more nodes, among them those of the detached term `r`. -/
structure Adds (t t' : Tree) (r : Term NodeId) : Prop where
  root : t'.root = t.root
  size_le : t.size ≤ t'.size
  frame : ∀ i < t.size, t'.node? i = t.node? i
  holds : t'.Holds none r
  nodup : r.labels.Nodup
  new : ∀ i ∈ r.labels, t.size ≤ i

theorem Adds.alters {t t' : Tree} {r : Term NodeId} (h : t.Adds t' r) (ids : List NodeId) :
    t.Alters ids t' :=
  ⟨h.root, h.size_le, fun i hlt _ => by rw [kind?, h.frame i hlt, kind?]⟩

/-- A new term takes the position of an old one. -/
theorem At.replace_new {t t' : Tree} {site : Site} {s r : Term NodeId} (h : t.At site s)
    (ha : t.Adds t' r) (hr : site ≠ .root) (hnm : site.Named r.isName) :
    ∃ t'', t'.replace s.label r.label = .ok t'' ∧ t.Alters site.ids t'' ∧ t''.At site r := by
  have h' := h.frame ha.frame
  have hs := List.nodup_append.1 h.nodup
  have hn : (s.label :: (r.labels ++ site.numbers)).Nodup := by
    refine List.nodup_cons.2 ⟨?_, List.nodup_append.2 ⟨ha.nodup, hs.2.1, ?_⟩⟩
    · intro hm
      rcases List.mem_append.1 hm with hm | hm
      · exact Nat.not_lt.2 (ha.new _ hm) (h.holds.lt_size _ s.label_mem_labels)
      · exact hs.2.2 _ s.label_mem_labels _ hm rfl
    · rintro i hi j hj rfl
      exact Nat.not_lt.2 (ha.new i hi) (h.around.lt_size i hj)
  obtain ⟨t'', ht, halters, hat⟩ :=
    replace_position hr h'.holds.has_top h'.around ha.holds hn hnm
  exact ⟨t'', ht, (ha.alters site.ids).trans halters, hat⟩

end Tree

end ObjectLowering
