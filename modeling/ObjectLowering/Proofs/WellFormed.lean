import Mathlib.Data.List.Nodup
import ObjectLowering.Proofs.Holds

/-!
# ObjectLowering.Proofs.WellFormed

Well-formed trees, said of single nodes and links, and the program that such a tree stores.

* `Linked`: the links below a parentless root agree, and no node fills two slots.
* `WellFormed`: besides, the root is a compilation unit, and names are built from names.
* `program?`: the program read back from the root, without numbers.
* `Linked.verifyLinks`: linked trees pass the check of links.
* `wellFormed_iff`: a tree is well-formed if and only if it stores a program without repeated
  numbers. In particular no node is below itself: a node on a cycle would have to climb to the root,
  whose climb ends.
-/

namespace ObjectLowering

namespace Tree

/-- A node is reached from `top` by going from nodes to their children. -/
inductive Below (t : Tree) (top : NodeId) : NodeId → Prop where
  | top : t.Below top top
  | child {id c : NodeId} : t.Below top id → c ∈ t.children id → t.Below top c

def Reachable (t : Tree) (id : NodeId) : Prop :=
  ∃ root, t.root = some root ∧ t.Below root id

theorem Below.trans {t : Tree} {a b c : NodeId} (hab : t.Below a b) (hbc : t.Below b c) :
    t.Below a c := by
  induction hbc with
  | top => exact hab
  | child _ hc ih => exact .child ih hc

/-- Two nodes that their children record hold a child in one slot only. -/
theorem slot_unique {t : Tree} {a b c : NodeId} {i j : Nat}
    (ha : ∀ c ∈ t.children a, t.parent? c = some a) (hb : ∀ c ∈ t.children b, t.parent? c = some b)
    (hn : (t.children a).Nodup) (hi : (t.children a)[i]? = some c)
    (hj : (t.children b)[j]? = some c) : a = b ∧ i = j := by
  obtain rfl : a = b := Option.some.inj
    ((ha c (List.mem_of_getElem? hi)).symm.trans (hb c (List.mem_of_getElem? hj)))
  obtain ⟨hlt, -⟩ := List.getElem?_eq_some_iff.1 hi
  exact ⟨rfl, (List.getElem?_inj hlt hn).1 (hi.trans hj.symm)⟩

/-- The recorded parents agree with the slots, each node fills at most one slot, and the root is
nobody's child. -/
structure Linked (t : Tree) : Prop where
  parentless : ∃ root node, t.root = some root ∧ t.node? root = some node ∧ node.parent = none
  links : ∀ {id c : NodeId}, t.Reachable id → c ∈ t.children id → t.parent? c = some id
  slots : ∀ {a b c : NodeId} {i j : Nat}, t.Reachable a → t.Reachable b →
    (t.children a)[i]? = some c → (t.children b)[j]? = some c → a = b ∧ i = j

/-- A linked tree of a compilation unit, in which every member is a simple name and every qualifier
of a qualified name is a name. -/
structure WellFormed (t : Tree) : Prop extends t.Linked where
  unit : ∃ source types native, t.root.bind t.kind? = some (.compilationUnit source types native)
  members : ∀ {id base name : NodeId}, t.Reachable id →
    t.kind? id = some (.qualifiedName base name) ∨ t.kind? id = some (.fieldAccess base name) →
    (t.kind? name).any (·.isSimpleName) = true
  qualifiers : ∀ {id base name : NodeId}, t.Reachable id →
    t.kind? id = some (.qualifiedName base name) → (t.kind? base).any (·.isName) = true

/-- Reads the term at a node, at most `depth` levels of it. -/
def readFrom (t : Tree) : Nat → NodeId → Option (Term NodeId)
  | 0, _ => none
  | depth + 1, id => do
    let node ← t.node? id
    let children ← node.kind.children.mapM (t.readFrom depth)
    return .node id ⟨node.kind.form, node.span, node.nilCheck⟩ children

/-- The program below the root, without numbers. -/
def program? (t : Tree) : Option (Term Unit) :=
  (t.root.bind (t.readFrom t.size)).map (Term.relabel fun _ => ())

/-- The tree stores this program, without repeated numbers. -/
structure Stores (t : Tree) (s : Term NodeId) : Prop where
  root : t.root = some s.label
  holds : t.Holds none s
  nodup : s.labels.Nodup
  named : s.WellNamed
  unit : ∃ source types native, s.form = .compilationUnit source types native

theorem mapM_map_label {read : NodeId → Option (Term NodeId)} {cs : List (Term NodeId)}
    (h : ∀ c ∈ cs, read c.label = some c) : (cs.map Term.label).mapM read = some cs := by
  induction cs with
  | nil => rfl
  | cons c cs ih =>
    have hr := ih fun d hd => h d (List.mem_cons_of_mem _ hd)
    simp [List.mapM_cons, h c List.mem_cons_self, hr]

theorem readFrom_of_holds {t : Tree} {p : Option NodeId} {s : Term NodeId} (h : t.Holds p s)
    {depth : Nat} (hd : s.labels.length ≤ depth) : t.readFrom depth s.label = some s := by
  induction depth generalizing p s with
  | zero =>
    have := s.length_labels_pos
    omega
  | succ depth ih =>
    cases s with
    | node id cell cs =>
      obtain ⟨kind, hn, hf, hc⟩ := h.has
      have hcs : kind.children.mapM (t.readFrom depth) = some cs := by
        rw [hc]
        refine mapM_map_label fun c hm => ih (h.child c hm) ?_
        have := Nat.lt_of_lt_of_le (Term.length_labels_lt id cell hm) hd
        omega
      simp [readFrom, hn, hcs, hf]

/-! ## Climbing to the root -/

/-- The recorded parents of a node, one after the other up to a node without parent. -/
def Climbs (t : Tree) : NodeId → List NodeId → Prop
  | id, [] => t.parent? id = none
  | id, p :: above => t.parent? id = some p ∧ t.Climbs p above

theorem Climbs.unique {t : Tree} {id : NodeId} {l m : List NodeId} (hl : t.Climbs id l)
    (hm : t.Climbs id m) : l = m := by
  induction l generalizing id m with
  | nil =>
    cases m with
    | nil => rfl
    | cons q m => simp [Climbs] at hl hm; simp [hl] at hm
  | cons p l ih =>
    cases m with
    | nil => simp [Climbs] at hl hm; simp [hm] at hl
    | cons q m =>
      obtain ⟨hp, hl⟩ := hl
      obtain ⟨hq, hm⟩ := hm
      obtain rfl : p = q := Option.some.inj (hp.symm.trans hq)
      rw [ih hl hm]

theorem Climbs.of_mem {t : Tree} {id x : NodeId} {l : List NodeId} (h : t.Climbs id l)
    (hx : x ∈ l) : ∃ m, t.Climbs x m ∧ m.length < l.length := by
  induction l generalizing id with
  | nil => cases hx
  | cons p l ih =>
    rcases List.mem_cons.1 hx with rfl | hx
    · exact ⟨l, h.2, by simp⟩
    · obtain ⟨m, hm, hlt⟩ := ih h.2 hx
      exact ⟨m, hm, by simp; omega⟩

/-- A climb that ends meets no node twice. -/
theorem Climbs.nodup {t : Tree} {id : NodeId} {l : List NodeId} (h : t.Climbs id l) :
    (id :: l).Nodup := by
  induction l generalizing id with
  | nil => simp
  | cons p l ih =>
    refine List.nodup_cons.2 ⟨fun hm => ?_, ih h.2⟩
    obtain ⟨m, hc, hlt⟩ := h.of_mem hm
    rw [hc.unique h] at hlt
    omega

/-- Whatever is stored below a node climbs through it. -/
theorem Holds.climbs_of_mem {t : Tree} {p : Option NodeId} {s : Term NodeId} (h : t.Holds p s)
    {l : List NodeId} (hl : t.Climbs s.label l) {i : NodeId} (hi : i ∈ s.labels) :
    ∃ m, t.Climbs i m ∧ (s.label :: l) <:+ (i :: m) := by
  induction h generalizing l with
  | @node p id cell cs hh hc ih =>
    rw [Term.labels_node, List.mem_cons, List.mem_flatMap] at hi
    rcases hi with rfl | ⟨c, hcm, hi⟩
    · exact ⟨l, hl, List.suffix_rfl⟩
    · have hcl : t.Climbs c.label (id :: l) := ⟨(hc c hcm).parent?, hl⟩
      obtain ⟨m, hm, hs⟩ := ih c hcm hcl hi
      exact ⟨m, hm, (List.suffix_cons _ _).trans hs⟩

theorem Holds.mem_of_below {t : Tree} {p : Option NodeId} {s : Term NodeId} (h : t.Holds p s)
    {i : NodeId} (hi : t.Below s.label i) : i ∈ s.labels := by
  induction hi with
  | top => exact s.label_mem_labels
  | child _ hc ih =>
    obtain ⟨q, r, hr, hw, rfl⟩ := h.exists_of_mem ih
    rw [hr.has_top.children] at hc
    obtain ⟨c, hcm, rfl⟩ := List.mem_map.1 hc
    exact hw.labels_sublist.subset (Term.labels_subset_of_mem hcm _ c.label_mem_labels)

theorem Holds.below_of_mem {t : Tree} {p : Option NodeId} {s : Term NodeId} (h : t.Holds p s)
    {i : NodeId} (hi : i ∈ s.labels) : t.Below s.label i := by
  suffices ∀ top, t.Below top s.label → t.Below top i from this _ .top
  induction h with
  | @node p id cell cs hh hc ih =>
    intro top ht
    rw [Term.labels_node, List.mem_cons, List.mem_flatMap] at hi
    rcases hi with rfl | ⟨c, hcm, hi⟩
    · exact ht
    · refine ih c hcm hi top (.child ht ?_)
      show c.label ∈ t.children id
      rw [hh.children]
      exact List.mem_map_of_mem hcm

/-- The links of a stored term agree. -/
theorem Holds.links {t : Tree} {p : Option NodeId} {s : Term NodeId} (h : t.Holds p s)
    {id c : NodeId} (hid : t.Below s.label id) (hc : c ∈ t.children id) : t.parent? c = some id := by
  obtain ⟨q, r, hr, -, rfl⟩ := h.exists_of_mem (h.mem_of_below hid)
  rw [hr.has_top.children] at hc
  obtain ⟨d, hd, rfl⟩ := List.mem_map.1 hc
  exact (hr.child_top d hd).parent?

/-- A stored term with a climb to the root has no repeated numbers, if no node fills two of its own
slots. -/
theorem Holds.nodup {t : Tree} {p : Option NodeId} {s : Term NodeId} (h : t.Holds p s)
    {l : List NodeId} (hl : t.Climbs s.label l) (hs : ∀ i ∈ s.labels, (t.children i).Nodup) :
    s.labels.Nodup := by
  induction h generalizing l with
  | @node p id cell cs hh hc ih =>
    have hcl {c : Term NodeId} (hm : c ∈ cs) : t.Climbs c.label (id :: l) :=
      ⟨(hc c hm).parent?, hl⟩
    have hsub {c : Term NodeId} (hm : c ∈ cs) : ∀ i ∈ c.labels, i ∈ (Term.node id cell cs).labels :=
      Term.labels_subset_of_mem (s := .node id cell cs) hm
    have hnd : (cs.map Term.label).Nodup := hh.children ▸ hs id (Term.label_mem_labels _)
    rw [Term.labels_node, List.nodup_cons, List.nodup_flatMap]
    refine ⟨?_, fun c hm => ih c hm (hcl hm) fun i hi => hs i (hsub hm i hi), ?_⟩
    · intro hm
      obtain ⟨c, hm, hi⟩ := List.mem_flatMap.1 hm
      obtain ⟨m, hcm, hsuf⟩ := (hc c hm).climbs_of_mem (hcl hm) hi
      obtain rfl := hcm.unique hl
      have := hsuf.length_le
      simp only [List.length_cons] at this
      omega
    · refine (List.pairwise_map.1 hnd).imp_of_mem fun {a b} ha hb hne i hia hib => hne ?_
      obtain ⟨m, hm, hsa⟩ := (hc a ha).climbs_of_mem (hcl ha) hia
      obtain ⟨m', hm', hsb⟩ := (hc b hb).climbs_of_mem (hcl hb) hib
      obtain rfl := hm.unique hm'
      have := (List.suffix_of_suffix_length_le hsa hsb (by simp)).eq_of_length (by simp)
      exact (List.cons.inj this).1

/-! ## Linked trees store terms -/

/-- A path down from `top`; the list holds the nodes above its end, the nearest first. -/
inductive Path (t : Tree) (top : NodeId) : NodeId → List NodeId → Prop where
  | top : t.Path top top []
  | child {id c : NodeId} {above : List NodeId} :
    t.Path top id above → c ∈ t.children id → t.Path top c (id :: above)

theorem Path.reaches {t : Tree} {top id : NodeId} {l : List NodeId} (h : t.Path top id l) :
    t.Below top id := by
  induction h with
  | top => exact .top
  | child _ hc ih => exact .child ih hc

theorem lt_size_of_mem_children {t : Tree} {id c : NodeId} (h : c ∈ t.children id) :
    id < t.size := by
  cases hn : t.node? id with
  | none => simp [children, kind?, hn] at h
  | some n => exact (Array.getElem?_eq_some_iff.1 hn).1

theorem Path.above_lt_size {t : Tree} {top id : NodeId} {l : List NodeId} (h : t.Path top id l) :
    ∀ a ∈ l, a < t.size := by
  induction h with
  | top => simp
  | child _ hc ih =>
    intro a ha
    rcases List.mem_cons.1 ha with rfl | ha
    · exact lt_size_of_mem_children hc
    · exact ih a ha

theorem node?_of_parent? {t : Tree} {id p : NodeId} (h : t.parent? id = some p) :
    ∃ node, t.node? id = some node ∧ node.parent = some p :=
  Option.bind_eq_some_iff.1 h

theorem exists_map_label_eq {R : Term NodeId → Prop} {l : List NodeId}
    (h : ∀ c ∈ l, ∃ s, s.label = c ∧ R s) : ∃ cs : List (Term NodeId), cs.map Term.label = l ∧ ∀ s ∈ cs, R s := by
  induction l with
  | nil => exact ⟨[], rfl, by simp⟩
  | cons c l ih =>
    obtain ⟨s, rfl, hs⟩ := h c List.mem_cons_self
    obtain ⟨cs, rfl, hcs⟩ := ih fun d hd => h d (List.mem_cons_of_mem _ hd)
    refine ⟨s :: cs, rfl, ?_⟩
    intro r hr
    rcases List.mem_cons.1 hr with rfl | hr
    · exact hs
    · exact hcs r hr

namespace Linked

theorem climbs {t : Tree} (h : t.Linked) {root id : NodeId} (hr : t.root = some root)
    {l : List NodeId} (hp : t.Path root id l) : t.Climbs id l := by
  induction hp with
  | top =>
    obtain ⟨r, n, hr', hn, hnp⟩ := h.parentless
    obtain rfl : root = r := Option.some.inj (hr.symm.trans hr')
    simp [Climbs, parent?, hn, hnp]
  | child hp hc ih => exact ⟨h.links ⟨root, hr, hp.reaches⟩ hc, ih⟩

/-- A climb meets everything above. -/
theorem mem_of_below {t : Tree} (h : t.Linked) {top id : NodeId} {l : List NodeId}
    (hl : t.Climbs id l) (ht : t.Reachable top) (hb : t.Below top id) : top ∈ id :: l := by
  obtain ⟨root, hr, hrt⟩ := ht
  induction hb generalizing l with
  | top => exact List.mem_cons_self
  | @child id c hb hc ih =>
    have hp : t.parent? c = some id := h.links ⟨root, hr, hrt.trans hb⟩ hc
    cases l with
    | nil => cases hl.symm.trans hp
    | cons p l =>
      obtain rfl : p = id := Option.some.inj (hl.1.symm.trans hp)
      exact List.mem_cons_of_mem _ (ih hl.2)

theorem node?_of_path {t : Tree} (h : t.Linked) {root id : NodeId} (hr : t.root = some root)
    {l : List NodeId} (hp : t.Path root id l) :
    ∃ node, t.node? id = some node ∧ node.parent = l.head? := by
  have hc := h.climbs hr hp
  cases l with
  | nil =>
    obtain ⟨r, n, hr', hn, hnp⟩ := h.parentless
    obtain rfl : root = r := Option.some.inj (hr.symm.trans hr')
    cases hp
    exact ⟨n, hn, hnp⟩
  | cons p l => exact node?_of_parent? hc.1

/-- The nodes above the end of a path are distinct, so the search below it ends before there are
more of them than nodes. -/
theorem exists_holds_of_path {t : Tree} (h : t.Linked) {root : NodeId} (hr : t.root = some root)
    {depth : Nat} {id : NodeId} {l : List NodeId} (hp : t.Path root id l)
    (hd : t.size ≤ depth + l.length) : ∃ s, s.label = id ∧ t.Holds l.head? s := by
  obtain ⟨node, hn, hnp⟩ := h.node?_of_path hr hp
  have hlt : id < t.size := (Array.getElem?_eq_some_iff.1 hn).1
  have hlen : (id :: l).length ≤ t.size := by
    refine length_le_of_nodup (h.climbs hr hp).nodup ?_
    intro a ha
    rcases List.mem_cons.1 ha with rfl | ha
    · exact hlt
    · exact hp.above_lt_size a ha
  induction depth generalizing id l node with
  | zero =>
    rw [List.length_cons] at hlen
    omega
  | succ depth ih =>
    have hch : t.children id = node.kind.children := by simp [children, kind?, hn]
    have hall : ∀ c ∈ node.kind.children, ∃ s, s.label = c ∧ t.Holds (some id) s := by
      intro c hc
      have hpc : t.Path root c (id :: l) := .child hp (hch ▸ hc)
      obtain ⟨n, hn', hnp'⟩ := h.node?_of_path hr hpc
      have hltc : c < t.size := (Array.getElem?_eq_some_iff.1 hn').1
      refine ih hpc (by simp; omega) n hn' hnp' hltc (length_le_of_nodup (h.climbs hr hpc).nodup ?_)
      intro a ha
      rcases List.mem_cons.1 ha with rfl | ha
      · exact hltc
      · exact hpc.above_lt_size a ha
    obtain ⟨cs, hcs, hh⟩ := exists_map_label_eq hall
    refine ⟨.node id ⟨node.kind.form, node.span, node.nilCheck⟩ cs, rfl, .node ?_ hh⟩
    exact ⟨node.kind, by rw [hn, ← hnp], rfl, hcs.symm⟩

theorem exists_holds {t : Tree} (h : t.Linked) :
    ∃ s, t.root = some s.label ∧ t.Holds none s ∧ s.labels.Nodup := by
  obtain ⟨root, n, hr, hn, hnp⟩ := h.parentless
  have hd : t.size ≤ t.size + ([] : List NodeId).length := by simp
  obtain ⟨s, rfl, hs⟩ := h.exists_holds_of_path hr .top hd
  refine ⟨s, hr, hs, hs.nodup (h.climbs hr .top) ?_⟩
  intro i hi
  have hri : t.Reachable i := ⟨s.label, hr, hs.below_of_mem hi⟩
  refine List.nodup_iff_getElem?_ne_getElem?.2 fun a b hab hb he => ?_
  have hgb := List.getElem?_eq_getElem hb
  have := (h.slots hri hri (he.trans hgb) hgb).2
  omega

end Linked

/-! ## The check of links -/

theorem below_of_mem_scan {t : Tree} {steps : Nat} {stack : List NodeId} {id : NodeId}
    (h : id ∈ t.scan steps stack) : ∃ top ∈ stack, t.Below top id := by
  induction steps generalizing stack with
  | zero => simp [scan] at h
  | succ steps ih =>
    cases stack with
    | nil => simp [scan] at h
    | cons a stack =>
      rw [scan, List.mem_cons] at h
      rcases h with rfl | h
      · exact ⟨id, List.mem_cons_self, .top⟩
      · obtain ⟨top, hm, hb⟩ := ih h
        rcases List.mem_append.1 hm with hm | hm
        · exact ⟨a, List.mem_cons_self, (Below.top.child hm).trans hb⟩
        · exact ⟨top, List.mem_cons_of_mem _ hm, hb⟩

/-- The check finds nothing if links agree, since it looks at reachable nodes only. -/
theorem verifyLinks_of_links {t : Tree}
    (h : ∀ {id c : NodeId}, t.Reachable id → c ∈ t.children id → t.parent? c = some id) :
    t.verifyLinks = .ok () := by
  cases hr : t.root with
  | none => rw [Tree.verifyLinks, hr, Option.bind_none]
  | some root =>
    have hnone : t.brokenLink? root = none := by
      rw [brokenLink?, List.findSome?_eq_none_iff]
      intro id hid
      obtain ⟨top, hm, hb⟩ := below_of_mem_scan hid
      rw [List.mem_singleton.1 hm] at hb
      rw [Option.map_eq_none_iff, List.find?_eq_none]
      intro c hc
      simp [h ⟨root, hr, hb⟩ hc]
    rw [Tree.verifyLinks, hr, Option.bind_some, hnone]

theorem Linked.verifyLinks {t : Tree} (h : t.Linked) : t.verifyLinks = .ok () :=
  verifyLinks_of_links h.links

/-! ## Trees of which every node keeps the rules -/

/-- The node keeps the rules for links and names. -/
def nodeIsTidy (t : Tree) (id : NodeId) : Bool :=
  (t.children id).Nodup && ((t.children id).all fun c => t.parent? c = some id) &&
    match t.kind? id with
    | some (.qualifiedName base name) =>
      (t.kind? base).any (·.isName) && (t.kind? name).any (·.isSimpleName)
    | some (.fieldAccess _ name) => (t.kind? name).any (·.isSimpleName)
    | _ => true

/-- The root is a unit, and every node keeps the rules, also one that is not reachable. -/
def isTidy (t : Tree) : Bool :=
  ((t.root.bind t.node?).any fun root => root.parent.isNone && root.kind.isUnit) &&
    (List.range t.size).all t.nodeIsTidy

theorem nodeIsTidy_of_isTidy {t : Tree} (h : t.isTidy = true) (id : NodeId) :
    t.nodeIsTidy id = true := by
  by_cases hlt : id < t.size
  · exact List.all_eq_true.1 (Bool.and_eq_true_iff.1 h).2 id (List.mem_range.2 hlt)
  · have hn : t.node? id = none := Array.getElem?_eq_none (Nat.not_lt.1 hlt)
    simp [nodeIsTidy, children, kind?, hn]

theorem wellFormed_of_isTidy {t : Tree} (h : t.isTidy = true) : t.WellFormed := by
  have hnodes (id : NodeId) := nodeIsTidy_of_isTidy h id
  simp only [nodeIsTidy, Bool.and_eq_true, decide_eq_true_eq, List.all_eq_true] at hnodes
  obtain ⟨node, hnode, hroot⟩ := (Option.any_eq_true ..).1 (Bool.and_eq_true_iff.1 h).1
  obtain ⟨root, hr, hn⟩ := Option.bind_eq_some_iff.1 hnode
  obtain ⟨hparent, hunit⟩ := Bool.and_eq_true_iff.1 hroot
  have hparent? {id c : NodeId} (hc : c ∈ t.children id) : t.parent? c = some id :=
    (hnodes id).1.2 c hc
  refine ⟨⟨⟨root, node, hr, hn, Option.isNone_iff_eq_none.1 hparent⟩, fun _ hc => hparent? hc, ?_⟩,
    ?_, ?_, ?_⟩
  · intro a b c i j _ _ hi hj
    exact slot_unique (fun _ => hparent?) (fun _ => hparent?) (hnodes a).1.1 hi hj
  · have hk : t.root.bind t.kind? = some node.kind := by
      rw [hr, Option.bind_some, kind?, hn]
      rfl
    rw [hk]
    cases hu : node.kind with
    | compilationUnit source types native => exact ⟨source, types, native, rfl⟩
    | _ =>
      rw [hu] at hunit
      cases hunit
  · rintro id base name - (hk | hk)
    · have := (hnodes id).2
      rw [hk] at this
      exact (Bool.and_eq_true_iff.1 this).2
    · have := (hnodes id).2
      rwa [hk] at this
  · intro id base name _ hk
    have := (hnodes id).2
    rw [hk] at this
    exact (Bool.and_eq_true_iff.1 this).1

/-! ## Well-formed trees store programs -/

theorem WellFormed.namesOk {t : Tree} (h : t.WellFormed) {p : Option NodeId} {id : NodeId}
    {cell : Cell} {cs : List (Term NodeId)} (hs : t.Holds p (.node id cell cs))
    (hr : t.Reachable id) : Term.NamesOk cell.form cs := by
  obtain ⟨kind, hk, hf, hc⟩ := hs.has.kind?
  rw [← hf]
  have hform {c : Term NodeId} (hm : c ∈ cs) {test : NodeKind → Bool}
      (ht : ∀ k : NodeKind, test k.form = test k) (hl : (t.kind? c.label).any test = true) :
      test c.form = true := by
    obtain ⟨k, hk, hf, _⟩ := (hs.child c hm).has_top.kind?
    rw [hk] at hl
    rw [show c.form = k.form from hf.symm, ht]
    exact hl
  cases kind with
  | qualifiedName base name =>
    obtain ⟨b, n, rfl, rfl, rfl⟩ := eq_pair_of_map_label hc.symm
    refine ⟨b, n, rfl, hform (by simp) NodeKind.isName_form (h.qualifiers hr hk), ?_⟩
    exact hform (by simp) NodeKind.isSimpleName_form (h.members hr (.inl hk))
  | fieldAccess base name =>
    obtain ⟨b, n, rfl, rfl, rfl⟩ := eq_pair_of_map_label hc.symm
    exact ⟨b, n, rfl, hform (by simp) NodeKind.isSimpleName_form (h.members hr (.inr hk))⟩
  | _ => trivial

theorem WellFormed.wellNamed {t : Tree} (h : t.WellFormed) {p : Option NodeId} {s : Term NodeId}
    (hs : t.Holds p s) (hr : ∀ i ∈ s.labels, t.Reachable i) : s.WellNamed := by
  induction hs with
  | @node p id cell cs hh hc ih =>
    refine .mk (h.namesOk (.node hh hc) (hr id (Term.label_mem_labels _))) ?_
    intro c hm
    exact ih c hm fun i hi => hr i (Term.labels_subset_of_mem (s := .node id cell cs) hm i hi)

theorem WellFormed.exists_stores {t : Tree} (h : t.WellFormed) : ∃ s, t.Stores s := by
  obtain ⟨s, hr, hs, hn⟩ := h.exists_holds
  refine ⟨s, hr, hs, hn, h.wellNamed hs fun i hi => ⟨s.label, hr, hs.below_of_mem hi⟩, ?_⟩
  obtain ⟨source, types, native, hu⟩ := h.unit
  obtain ⟨kind, hk, hf, _⟩ := hs.has_top.kind?
  rw [hr, Option.bind_some, hk] at hu
  cases hu
  exact ⟨source, _, native, hf.symm⟩

namespace Stores

theorem mem_of_reachable {t : Tree} {s : Term NodeId} (h : t.Stores s) {i : NodeId}
    (hi : t.Reachable i) : i ∈ s.labels := by
  obtain ⟨root, hr, hb⟩ := hi
  obtain rfl := Option.some.inj (h.root.symm.trans hr)
  exact h.holds.mem_of_below hb

theorem reachable_of_mem {t : Tree} {s : Term NodeId} (h : t.Stores s) {i : NodeId}
    (hi : i ∈ s.labels) : t.Reachable i :=
  ⟨s.label, h.root, h.holds.below_of_mem hi⟩

theorem exists_of_reachable {t : Tree} {s : Term NodeId} (h : t.Stores s) {i : NodeId}
    (hi : t.Reachable i) : ∃ p r, t.Holds p r ∧ r.Within s ∧ r.label = i :=
  h.holds.exists_of_mem (h.mem_of_reachable hi)

theorem children_of_within {t : Tree} {r s : Term NodeId} (h : t.Stores s) (hr : r.Within s) :
    t.children r.label = r.children.map Term.label := by
  obtain ⟨_, hr⟩ := h.holds.within hr
  exact hr.has_top.children

/-- What a slot of a stored term holds is stored below the term. -/
theorem exists_of_slot {t : Tree} {r s : Term NodeId} (h : t.Stores s) (hr : r.Within s) {j : Nat}
    {c : NodeId} (hc : (t.children r.label)[j]? = some c) :
    ∃ d, r.children[j]? = some d ∧ d.label = c ∧ d.Within s := by
  rw [h.children_of_within hr, List.getElem?_map, Option.map_eq_some_iff] at hc
  obtain ⟨d, hd, rfl⟩ := hc
  exact ⟨d, hd, rfl, (Term.within_of_mem_children (List.mem_of_getElem? hd)).trans hr⟩

theorem linked {t : Tree} {s : Term NodeId} (h : t.Stores s) : t.Linked := by
  have hlinks {id c : NodeId} (hi : t.Reachable id) (hc : c ∈ t.children id) :
      t.parent? c = some id := by
    obtain ⟨root, hr, hb⟩ := hi
    obtain rfl := Option.some.inj (h.root.symm.trans hr)
    exact h.holds.links hb hc
  refine ⟨?_, hlinks, ?_⟩
  · obtain ⟨kind, hn, _, _⟩ := h.holds.has_top
    exact ⟨s.label, _, h.root, hn, rfl⟩
  · intro a b c i j ha hb hi hj
    refine slot_unique (fun _ => hlinks ha) (fun _ => hlinks hb) ?_ hi hj
    obtain ⟨p, r, hr, hw, rfl⟩ := h.exists_of_reachable ha
    rw [h.children_of_within hw]
    refine (Term.map_label_sublist _).nodup ((List.sublist_cons_self r.label _).nodup ?_)
    cases r
    exact Term.labels_node .. ▸ hw.labels_sublist.nodup h.nodup

theorem wellFormed {t : Tree} {s : Term NodeId} (h : t.Stores s) : t.WellFormed := by
  have hnames {id base name : NodeId} {kind : NodeKind} (hi : t.Reachable id)
      (hk : t.kind? id = some kind) (hc : kind.children = [base, name]) :
      ∃ b n, Term.NamesOk kind.form [b, n] ∧ t.Holds (some id) b ∧ t.Holds (some id) n ∧
        b.label = base ∧ n.label = name := by
    obtain ⟨p, r, hr, hw, rfl⟩ := h.exists_of_reachable hi
    obtain ⟨id, cell, cs⟩ := r
    obtain ⟨k, hk', hf, hcs⟩ := hr.has.kind?
    obtain rfl := Option.some.inj (hk.symm.trans hk')
    obtain ⟨b, n, rfl, hb, hn⟩ := eq_pair_of_map_label (hcs.symm.trans hc)
    exact ⟨b, n, hf ▸ (h.named.within hw).names, hr.child b (by simp), hr.child n (by simp), hb, hn⟩
  have htest {p : Option NodeId} {c : Term NodeId} (hc : t.Holds p c) {test : NodeKind → Bool}
      (ht : ∀ k : NodeKind, test k.form = test k) (hf : test c.form = true) :
      (t.kind? c.label).any test = true := by
    obtain ⟨k, hk, hkf, _⟩ := hc.has_top.kind?
    rw [hk]
    exact (ht k).symm.trans ((congrArg test hkf).trans hf)
  refine ⟨h.linked, ?_, ?_, ?_⟩
  · obtain ⟨source, types, native, hf⟩ := h.unit
    obtain ⟨kind, hk, hkf, _⟩ := h.holds.has_top.kind?
    rw [h.root, Option.bind_some, hk]
    have hkf : kind.form = .compilationUnit source types native := hkf.trans hf
    cases kind with
    | compilationUnit source types native => exact ⟨source, types, native, rfl⟩
    | _ => cases hkf
  · rintro id base name hi (hk | hk)
    · obtain ⟨b, n, hno, _, hn, _, rfl⟩ := hnames hi hk rfl
      obtain ⟨_, _, e, _, hs⟩ := hno
      cases e
      exact htest hn NodeKind.isSimpleName_form hs
    · obtain ⟨b, n, hno, _, hn, _, rfl⟩ := hnames hi hk rfl
      obtain ⟨_, _, e, hs⟩ := hno
      cases e
      exact htest hn NodeKind.isSimpleName_form hs
  · intro id base name hi hk
    obtain ⟨b, n, hno, hb, _, rfl, _⟩ := hnames hi hk rfl
    obtain ⟨_, _, e, hs, _⟩ := hno
    cases e
    exact htest hb NodeKind.isName_form hs

end Stores

/-- A tree is well-formed if and only if it stores a program. -/
theorem wellFormed_iff {t : Tree} : t.WellFormed ↔ ∃ s, t.Stores s :=
  ⟨WellFormed.exists_stores, fun ⟨_, h⟩ => h.wellFormed⟩

theorem Stores.program? {t : Tree} {s : Term NodeId} (h : t.Stores s) :
    t.program? = some (s.relabel fun _ => ()) := by
  simp [Tree.program?, h.root, readFrom_of_holds h.holds (h.holds.length_le h.nodup)]

end Tree

end ObjectLowering
