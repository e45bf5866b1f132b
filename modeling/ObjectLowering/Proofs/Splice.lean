import ObjectLowering.Proofs.Forest
import ObjectLowering.Proofs.Position

/-!
# ObjectLowering.Proofs.Splice

A node in the place of another, where only the part of the tree around the old node and the part below
the new one keep to the rules for links. What lies below the old node may be in any state: the new one
may have taken over parts of it.

* `replaceInPlace`: the replacement with its three writes one after the other, each of which could
  fail; `replaceInPlace_run`: none does.
* `Site.fill`: the program with a term at the site, which lists what is before the slot, the term, and
  what is behind it.
* `Around`: what is reached without passing the old node. `Replaceable`: what the caller sees to.
* `Replaceable.exists_site`, `Subtree.exists_holds`: the part around the old node is a site and the part
  below the new one is a term, since a tree with just this part is linked.
* `replace_splices`: a replacement either fails and changes nothing or puts the nodes below the new one
  where those below the old one have been.
-/

namespace ObjectLowering

namespace Site

/-- The whole program, with a term in the slot. -/
def fill : Site → Term NodeId → Term NodeId
  | root, s => s
  | slot id cell before after outer, s => outer.fill (.node id cell (before ++ s :: after))

/-- The nodes that come before those in the slot. -/
def front : Site → List NodeId
  | root => []
  | slot id _ before _ outer => outer.front ++ id :: before.flatMap Term.labels

/-- The nodes that come after those in the slot. -/
def back : Site → List NodeId
  | root => []
  | slot _ _ _ after outer => after.flatMap Term.labels ++ outer.back

theorem labels_fill_perm (site : Site) (s : Term NodeId) :
    (site.fill s).labels.Perm (s.labels ++ site.numbers) := by
  induction site generalizing s with
  | root => rw [fill, numbers, List.append_nil]
  | slot id cell before after outer ih =>
    exact (ih _).trans (numbers_slot_perm s id cell cell before after outer).symm

/-- What stands in the slot does not matter for the top, unless it is the top. -/
theorem label_fill_congr (site : Site) {s s' : Term NodeId} (h : s.label = s'.label) :
    (site.fill s).label = (site.fill s').label := by
  induction site generalizing s s' with
  | root => exact h
  | slot id cell before after outer ih => exact ih rfl

theorem label_fill {site : Site} (h : site ≠ .root) (s s' : Term NodeId) :
    (site.fill s).label = (site.fill s').label := by
  cases site with
  | root => exact absurd rfl h
  | slot id cell before after outer => exact label_fill_congr outer rfl

end Site

namespace Tree

variable {t t' : Tree} {root old new : NodeId}

/-! ## Terms at sites -/

theorem HoldsAround.fill {site : Site} {s : Term NodeId} (h : t.HoldsAround s.label site)
    (hs : t.Holds site.parent? s) : t.Holds none (site.fill s) := by
  induction site generalizing s with
  | root => exact hs
  | slot id cell before after outer ih =>
    obtain ⟨hnode, houter⟩ := HoldsAround.out hs h
    exact ih houter hnode

/-- Every term inside another stands at a site. -/
theorem exists_site_of_within (site : Site) {r s : Term NodeId} (hs : t.Holds site.parent? s)
    (ha : t.HoldsAround s.label site) (hw : r.Within s) :
    ∃ site', site'.fill r = site.fill s ∧ t.HoldsAround r.label site' ∧ t.Holds site'.parent? r := by
  induction hw generalizing site with
  | refl => exact ⟨site, rfl, ha, hs⟩
  | @child id cell cs c hc _ ih =>
    obtain ⟨before, after, rfl⟩ := List.append_of_mem hc
    have hinto : t.HoldsAround c.label (.slot id cell before after site) := HoldsAround.into hs ha
    exact ih (.slot id cell before after site) (hs.child c hc) hinto

theorem preOrder_map_label {cs : List (Term NodeId)}
    (h : ∀ c ∈ cs, t.PreOrder [c.label] c.labels) :
    t.PreOrder (cs.map Term.label) (cs.flatMap Term.labels) := by
  induction cs with
  | nil => exact .nil
  | cons c cs ih =>
    exact (h c List.mem_cons_self).append (ih fun d hd => h d (List.mem_cons_of_mem _ hd))

theorem Holds.preOrder {p : Option NodeId} {s : Term NodeId} (h : t.Holds p s) :
    t.PreOrder [s.label] s.labels := by
  induction h with
  | @node p id cell cs hh _ ih =>
    rw [Term.labels_node]
    refine .singleton ?_
    rw [Term.label_node, hh.children]
    exact preOrder_map_label ih

/-- The nodes of a program, where those in the slot come in one block. -/
theorem HoldsAround.preOrder {site : Site} {s : Term NodeId} {block : List NodeId}
    (h : t.HoldsAround s.label site) (hblock : t.PreOrder [s.label] block) :
    t.PreOrder [(site.fill s).label] (site.front ++ block ++ site.back) := by
  induction site generalizing s block with
  | root => simpa [Site.fill, Site.front, Site.back] using hblock
  | slot id cell before after outer ih =>
    obtain ⟨hh, hrest, houter⟩ := h
    have hbefore := preOrder_map_label fun c hc => (hrest c (List.mem_append_left _ hc)).preOrder
    have hafter := preOrder_map_label fun c hc => (hrest c (List.mem_append_right _ hc)).preOrder
    have hnode : t.PreOrder [id]
        (id :: (before.flatMap Term.labels ++ (block ++ after.flatMap Term.labels))) := by
      refine .singleton ?_
      rw [hh.children]
      exact hbefore.append (hblock.append hafter)
    have hwhole := @ih (.node id cell (before ++ s :: after)) _ houter hnode
    simpa [Site.fill, Site.front, Site.back] using hwhole

/-! ## Writes in place -/

/-- Looks a node up. -/
def look (id : NodeId) : EStateM TreeError Tree Node := fun t =>
  match t.node id with
  | .ok node => .ok node t
  | .error e => .error e t

/-- Changes a node where it stands, if it exists. -/
def write (id : NodeId) (change : Node → Node) : EStateM TreeError Tree Unit := fun t =>
  match t.modify id change with
  | .ok t' => .ok () t'
  | .error e => .error e t

/-- The replacement write by write. A failure keeps what has been written before it. -/
def replaceInPlace (old new : NodeId) : EStateM TreeError Tree Unit := do
  let oldNode ← look old
  let some parent := oldNode.parent | throw (.detachedNode old oldNode.span)
  let _ ← look new
  let parentNode ← look parent
  match parentNode.kind.replaceChild? old new with
  | none => throw (.brokenParentLink old parent oldNode.span)
  | some kind =>
    write parent ({ · with kind })
    write new ({ · with parent := some parent })
    write old ({ · with parent := none })

theorem look_bind {α : Type} (id : NodeId) (rest : Node → EStateM TreeError Tree α) (t : Tree) :
    (look id >>= rest) t =
      match t.node id with
      | .ok node => rest node t
      | .error e => .error e t := by
  show EStateM.bind (look id) rest t = _
  rw [EStateM.bind, look]
  cases t.node id <;> rfl

theorem write_of_lt {id : NodeId} (h : id < t.size) (change : Node → Node) :
    write id change t = .ok () (t.update id change) := by
  have hn : t.node? id = some t.nodes[id] := Array.getElem?_eq_getElem h
  rw [write, Tree.modify, node_of_node? hn]
  rfl

theorem write_bind {id : NodeId} (h : id < t.size) (change : Node → Node)
    (rest : EStateM TreeError Tree Unit) :
    (write id change >>= fun _ => rest) t = rest (t.update id change) := by
  show EStateM.bind (write id change) (fun _ => rest) t = _
  rw [EStateM.bind, write_of_lt h]

theorem lt_size_of_node {id : NodeId} {node : Node} (h : t.node id = .ok node) : id < t.size :=
  (Array.getElem?_eq_some_iff.1 (node?_of_node h)).1

/-- All that can fail is looked up before the first write. -/
theorem replaceInPlace_run (t : Tree) (old new : NodeId) :
    (replaceInPlace old new).run t =
      match t.replace old new with
      | .ok t' => .ok () t'
      | .error e => .error e t := by
  unfold replaceInPlace Tree.replace EStateM.run
  rw [look_bind]
  cases hold : t.node old with
  | error e => rfl
  | ok oldNode =>
    cases hparent : oldNode.parent with
    | none => simp only [hparent, bind, Except.bind]; rfl
    | some parent =>
      simp only [hparent]
      rw [look_bind]
      cases hnew : t.node new with
      | error e => simp [bind, Except.bind, hparent]
      | ok newNode =>
        simp only []
        rw [look_bind]
        cases hholder : t.node parent with
        | error e => simp [bind, Except.bind, hparent, hholder]
        | ok holder =>
          cases hkind : holder.kind.replaceChild? old new with
          | none => simp only [bind, Except.bind, hparent, hholder, hkind]; rfl
          | some kind =>
            simp only [bind, Except.bind, hparent, hholder, hkind]
            have hlt {id : NodeId} {node : Node} (h : t.node id = .ok node) : id < t.size :=
              lt_size_of_node h
            refine (write_bind (hlt hholder) _ _).trans ?_
            refine (write_bind (by simpa using hlt hnew) _ _).trans ?_
            exact write_of_lt (by simpa using hlt hold) _

/-! ## What the caller sees to -/

/-- Reached from `top` without passing `old`, which may be reached itself. -/
inductive Around (t : Tree) (top old : NodeId) : NodeId → Prop where
  | top : t.Around top old top
  | child {id c : NodeId} :
    t.Around top old id → id ≠ old → c ∈ t.children id → t.Around top old c

/-- The nodes below `top` make up a tree: recorded parents agree with the slots, and each node but the
top fills one slot. -/
structure Subtree (t : Tree) (top : NodeId) : Prop where
  exists_node : ∃ node, t.node? top = some node
  links : ∀ {id c : NodeId}, t.Below top id → c ∈ t.children id → t.parent? c = some id
  slots : ∀ {a b c : NodeId} {i j : Nat}, t.Below top a → t.Below top b →
    (t.children a)[i]? = some c → (t.children b)[j]? = some c → a = b ∧ i = j
  above : ∀ {id : NodeId}, t.Below top id → top ∉ t.children id

/-- The node `old` stands below the root, the nodes around it keep to the rules for links, and those
below `new` make up a tree that is apart from them. Nothing is said of what is below `old`. -/
structure Replaceable (t : Tree) (root old new : NodeId) : Prop where
  rooted : t.root = some root
  parentless : t.Detached root
  reached : t.Below root old
  not_root : old ≠ root
  distinct : old ≠ new
  links : ∀ {id c : NodeId}, t.Around root old id → id ≠ old → c ∈ t.children id →
    t.parent? c = some id
  slots : ∀ {a b c : NodeId} {i j : Nat}, t.Around root old a → a ≠ old → t.Around root old b →
    b ≠ old → (t.children a)[i]? = some c → (t.children b)[j]? = some c → a = b ∧ i = j
  subtree : t.Subtree new
  apart : ∀ {id : NodeId}, t.Below new id → t.Around root old id → id = old

/-! ## The parts as trees of their own -/

/-- The tree where nothing is below the node. -/
def cut (t : Tree) (id : NodeId) : Tree :=
  t.update id ({ · with kind := .thisObject })

theorem node?_cut {id i : NodeId} (h : i ≠ id) : (t.cut id).node? i = t.node? i := by
  rw [cut, node?_update, if_neg (Ne.symm h)]

theorem children_cut (id i : NodeId) :
    (t.cut id).children i = if id = i then [] else t.children i := by
  rw [cut, children_update]
  split
  · cases t.node? i <;> rfl
  · rfl

theorem parent?_cut (id i : NodeId) : (t.cut id).parent? i = t.parent? i := by
  rw [cut, parent?_update_of_parent]
  intro node
  rfl

theorem around_of_below_cut {top id : NodeId} (h : (t.cut old).Below top id) :
    t.Around top old id := by
  induction h with
  | top => exact .top
  | @child i c _ hc ih =>
    rw [children_cut] at hc
    split at hc
    · cases hc
    · rename_i hne
      exact .child ih (Ne.symm hne) hc

theorem Around.below_cut {top id : NodeId} (h : t.Around top old id) :
    (t.cut old).Below top id := by
  induction h with
  | top => exact .top
  | @child i c _ hne hc ih =>
    refine .child ih ?_
    rwa [children_cut, if_neg (Ne.symm hne)]

/-- A path to a node reaches it without passing it before. -/
theorem around_of_below {top id : NodeId} (h : t.Below top id) :
    t.Around top old id ∨ t.Around top old old := by
  induction h with
  | top => exact .inl .top
  | @child i c _ hc ih =>
    rcases ih with hi | hold
    · by_cases he : i = old
      · exact .inr (he ▸ hi)
      · exact .inl (.child hi he hc)
    · exact .inr hold

/-- The tree with another top, which records no parent. -/
def rootAt (t : Tree) (top : NodeId) : Tree :=
  (t.update top ({ · with parent := none })).setRoot top

theorem node?_rootAt {top i : NodeId} (h : i ≠ top) : (t.rootAt top).node? i = t.node? i := by
  rw [rootAt, setRoot]
  exact (node?_update ..).trans (if_neg (Ne.symm h))

theorem children_rootAt (top i : NodeId) : (t.rootAt top).children i = t.children i := by
  show (t.update top ({ · with parent := none })).children i = t.children i
  rw [children_update_of_kind]
  intro node _
  rfl

theorem below_rootAt_iff {top a b : NodeId} : (t.rootAt top).Below a b ↔ t.Below a b := by
  constructor
  · intro h
    induction h with
    | top => exact .top
    | child _ hc ih => exact .child ih (children_rootAt .. ▸ hc)
  · intro h
    induction h with
    | top => exact .top
    | child _ hc ih => exact .child ih ((children_rootAt ..).symm ▸ hc)

namespace Subtree

theorem linked {top : NodeId} (h : t.Subtree top) : (t.rootAt top).Linked where
  parentless := by
    obtain ⟨node, hn⟩ := h.exists_node
    refine ⟨top, { node with parent := none }, rfl, ?_, rfl⟩
    rw [rootAt, setRoot]
    exact (node?_update ..).trans (by simp [hn])
  links := by
    rintro id c ⟨_, hr, hb⟩ hc
    obtain rfl := Option.some.inj hr
    rw [below_rootAt_iff] at hb
    rw [children_rootAt] at hc
    have hne : c ≠ top := fun he => h.above hb (he ▸ hc)
    rw [Tree.parent?, node?_rootAt hne]
    exact h.links hb hc
  slots := by
    rintro a b c i j ⟨_, hr, ha⟩ ⟨_, hr', hb⟩ hi hj
    obtain rfl := Option.some.inj hr
    obtain rfl := Option.some.inj hr'
    rw [below_rootAt_iff] at ha hb
    rw [children_rootAt] at hi hj
    exact h.slots ha hb hi hj

/-- The nodes below the top of a subtree are a stored term. -/
theorem exists_holds {top : NodeId} (h : t.Subtree top) :
    ∃ p r, t.Holds p r ∧ r.label = top ∧ r.labels.Nodup := by
  obtain ⟨r, hr, hholds, hn⟩ := h.linked.exists_holds
  obtain rfl := Option.some.inj hr
  cases r with
  | node id cell cs =>
    have hn' := hn
    rw [Term.labels_node, List.nodup_cons] at hn'
    obtain ⟨node, hnode⟩ := h.exists_node
    obtain ⟨kind, hk, hf, hc⟩ := hholds.has
    have hk' : (t.rootAt id).node? id = some { node with parent := none } := by
      rw [rootAt, setRoot]
      exact (node?_update ..).trans (by simp [show t.node? id = some node from hnode])
    obtain ⟨rfl, hspan, hnil⟩ : node.kind = kind ∧ node.span = cell.span ∧
        node.nilCheck = cell.nilCheck := by
      have he := Option.some.inj (hk'.symm.trans hk)
      injection he with hkind _ hspan hnil
      exact ⟨hkind, hspan, hnil⟩
    have hhas : t.Has id cell node.parent (cs.map Term.label) := by
      refine ⟨node.kind, ?_, hf, hc⟩
      rw [← hspan, ← hnil]
      exact hnode
    refine ⟨node.parent, _, .node hhas fun c hm => (hholds.child c hm).congr fun i hi => ?_, rfl, hn⟩
    refine (node?_rootAt fun he => hn'.1 ?_).symm
    rw [Term.label_node] at he
    exact he ▸ List.mem_flatMap.2 ⟨c, hm, hi⟩

end Subtree

namespace Replaceable

theorem around (h : t.Replaceable root old new) : t.Around root old old :=
  (around_of_below h.reached).elim id id

theorem linked_cut (h : t.Replaceable root old new) : (t.cut old).Linked where
  parentless := by
    obtain ⟨node, hn, hp⟩ := h.parentless
    exact ⟨root, node, h.rooted, (node?_cut (Ne.symm h.not_root)).trans hn, hp⟩
  links := by
    rintro id c ⟨top, hr, hb⟩ hc
    obtain rfl := Option.some.inj (h.rooted.symm.trans hr)
    rw [children_cut] at hc
    split at hc
    · cases hc
    · rename_i hne
      rw [parent?_cut]
      exact h.links (around_of_below_cut hb) (Ne.symm hne) hc
  slots := by
    rintro a b c i j ⟨top, hr, ha⟩ ⟨top', hr', hb⟩ hi hj
    obtain rfl := Option.some.inj (h.rooted.symm.trans hr)
    obtain rfl := Option.some.inj (h.rooted.symm.trans hr')
    rw [children_cut] at hi hj
    split at hi
    · cases hi
    · rename_i hnea
      split at hj
      · cases hj
      · rename_i hneb
        exact h.slots (around_of_below_cut ha) (Ne.symm hnea) (around_of_below_cut hb)
          (Ne.symm hneb) hi hj

/-- The old node stands at a site, which is all that is around it. -/
theorem exists_site (h : t.Replaceable root old new) :
    ∃ (site : Site) (cell : Cell) (cs : List NodeId), site ≠ .root ∧ t.HoldsAround old site ∧
      t.Has old cell site.parent? cs ∧ (old :: site.numbers).Nodup ∧
      (∀ i ∈ site.numbers, t.Around root old i) ∧ ∀ s, (site.fill s).label = root := by
  obtain ⟨s, hr, hs, hn⟩ := h.linked_cut.exists_holds
  obtain rfl : root = s.label := Option.some.inj (h.rooted.symm.trans hr)
  obtain ⟨q, r, -, hw, rfl⟩ := hs.exists_of_mem (hs.mem_of_below h.around.below_cut)
  obtain ⟨site, hfill, ha, hholds⟩ := exists_site_of_within .root hs trivial hw
  replace hfill : site.fill r = s := hfill
  have hperm : s.labels.Perm (r.labels ++ site.numbers) := hfill ▸ site.labels_fill_perm r
  have hnodup : (r.label :: site.numbers).Nodup :=
    ((List.singleton_sublist.2 r.label_mem_labels).append_right _).nodup (hperm.nodup_iff.1 hn)
  have hnot : ∀ i ∈ site.numbers, i ≠ r.label := fun i hi he =>
    (List.nodup_cons.1 hnodup).1 (he ▸ hi)
  have hroot : site ≠ .root := by
    rintro rfl
    exact h.not_root (congrArg Term.label hfill)
  obtain ⟨kind, hk, -, -⟩ := hholds.has_top
  rw [cut, node?_update, if_pos rfl] at hk
  obtain ⟨node, hnode, he⟩ := Option.map_eq_some_iff.1 hk
  have hparent : node.parent = site.parent? := congrArg Node.parent he
  refine ⟨site, ⟨node.kind.form, node.span, node.nilCheck⟩, node.kind.children, hroot,
    ha.congr fun i hi => (node?_cut (hnot i hi)).symm, ⟨node.kind, hparent ▸ hnode, rfl, rfl⟩,
    hnodup, fun i hi => ?_, fun r' => (Site.label_fill hroot r' r).trans (congrArg Term.label hfill)⟩
  exact around_of_below_cut (hs.below_of_mem (hperm.mem_iff.2 (List.mem_append_right _ hi)))

end Replaceable

/-! ## The splice -/

/-- The tree `t'` is `t` with `new` and what is below it in the place of `old` and what is below it.
Where the former listing of the nodes ends, the new one has another block in the place of one. -/
structure Spliced (t : Tree) (root old new : NodeId) (t' : Tree) : Prop where
  rooted : t'.root = t.root
  size : t'.size = t.size
  detached : t'.parent? old = none
  verified : t'.verifyLinks = .ok ()
  holder : ∃ holder, t.parent? old = some holder ∧ t'.parent? new = some holder ∧
    old ∈ t.children holder ∧ t'.children holder = (t.children holder).replace old new ∧
    ∀ i, i ≠ holder → i ≠ old → i ≠ new → t'.node? i = t.node? i
  listed : ∃ front back, t'.Scans [root] (t'.descendants root) ∧
    t'.descendants root = front ++ t.descendants new ++ back ∧
    t'.descendants new = t.descendants new ∧
    ∀ former, t.Scans [root] former →
      former = t.descendants root ∧ former = front ++ t.descendants old ++ back

namespace Replaceable

theorem spliced (h : t.Replaceable root old new) :
    ∃ t', t.replace old new = .ok t' ∧ t.Spliced root old new t' := by
  obtain ⟨site, cell, cs, hsite, ha, hhas, hnodup, haround, htop⟩ := h.exists_site
  obtain ⟨q, r, hholds, rfl, hrn⟩ := h.subtree.exists_holds
  have hout : ∀ i ∈ site.numbers, i ≠ old := fun i hi he => (List.nodup_cons.1 hnodup).1 (he ▸ hi)
  have hapart : ∀ i ∈ r.labels, i ∉ site.numbers := fun i hi hs =>
    hout i hs (h.apart (hholds.below_of_mem hi) (haround i hs))
  have hold : old ∉ r.labels := by
    intro hm
    cases hholds.below_of_mem hm with
    | top => exact h.distinct rfl
    | child hb hc =>
      -- the node that holds `old` would stand both around it and below the new node
      have hp := mem_numbers_of_parent? (hhas.parent?.symm.trans (h.subtree.links hb hc))
      exact hout _ hp (h.apart hb (haround _ hp))
  have hn : (old :: (r.labels ++ site.numbers)).Nodup := by
    refine List.nodup_cons.2 ⟨fun hm => ?_, List.nodup_append.2 ⟨hrn, ?_, ?_⟩⟩
    · exact (List.mem_append.1 hm).elim hold (List.nodup_cons.1 hnodup).1
    · exact (List.nodup_cons.1 hnodup).2
    · rintro i hi j hj rfl
      exact hapart i hi hj
  obtain ⟨t', hreplace, hroot, hsize, hholds', ha', -, hframe⟩ :=
    replace_holds hsite hhas ha hholds hn
  have hlisted : t'.PreOrder [root] (site.front ++ r.labels ++ site.back) :=
    htop r ▸ ha'.preOrder hholds'.preOrder
  obtain ⟨p, hp, hmem, hchildren, hparents⟩ :=
    Forest.links_of_replace hreplace h.subtree.exists_node
  refine ⟨t', hreplace, hroot, hsize, ?_, ?_, ⟨p, hp, ?_, hmem, ?_, ?_⟩, site.front, site.back, ?_⟩
  · rw [hparents, if_pos rfl]
  · refine verifyLinks_of_links ?_
    rintro id c ⟨top, hr, hb⟩ hc
    obtain rfl := Option.some.inj (h.rooted.symm.trans (hroot.symm.trans hr))
    exact (ha'.fill hholds').links (htop r ▸ hb) hc
  · rw [hparents, if_neg (Ne.symm h.distinct), if_pos rfl]
  · rw [hchildren, if_pos rfl]
  · intro i hip hio hin
    refine hframe i hio hin fun he => hip ?_
    exact Option.some.inj (he.trans (hhas.parent?.symm.trans hp))
  · have hnew : t.descendants r.label = r.labels := hholds.preOrder.descendants_eq
    have hnew' : t'.descendants r.label = r.labels := hholds'.preOrder.descendants_eq
    refine ⟨?_, ?_, hnew'.trans hnew.symm, fun former hs => ?_⟩
    · exact scans_descendants (hlisted.acyclic root List.mem_cons_self)
    · rw [hlisted.descendants_eq, hnew]
    · have hacyclic : t.Acyclic old := fun hb hc => hs.acyclic (h.reached.trans hb) hc
      have ha : t.HoldsAround (Term.node old cell []).label site := ha
      have hformer : t.PreOrder [root] (site.front ++ t.descendants old ++ site.back) :=
        htop (.node old cell []) ▸ ha.preOrder (preOrder_descendants hacyclic)
      exact ⟨hs.preOrder.descendants_eq.symm, hs.preOrder.unique hformer⟩

end Replaceable

/-- A replacement either fails and leaves the tree as it was, or puts the new node and what is below it
where the old node and what is below it have been, if the new one is a tree apart from what is around
the old one. Nothing else changes, and the check of links finds nothing. -/
theorem replace_splices (t : Tree) (old new : NodeId) :
    (∀ e t', (replaceInPlace old new).run t = .error e t' → t' = t) ∧
    ((replaceInPlace old new).run t =
      match t.replace old new with
      | .ok t' => .ok () t'
      | .error e => .error e t) ∧
    ∀ root, t.Replaceable root old new →
      ∃ t', t.replace old new = .ok t' ∧ t.Spliced root old new t' := by
  refine ⟨fun e t' h => ?_, replaceInPlace_run t old new, fun root h => h.spliced⟩
  rw [replaceInPlace_run] at h
  split at h
  · cases h
  · cases h
    rfl

/-- What is reached around a node lies among nodes that hold no others. -/
theorem Around.mem_of_closed {ids : List NodeId} {top id : NodeId} (htop : top ∈ ids)
    (hclosed : ∀ a ∈ ids, a ≠ old → ∀ c ∈ t.children a, c ∈ ids) (h : t.Around top old id) :
    id ∈ ids := by
  induction h with
  | top => exact htop
  | child _ hne hc ih => exact hclosed _ ih hne _ hc

theorem Below.mem_of_closed {ids : List NodeId} {top id : NodeId} (htop : top ∈ ids)
    (hclosed : ∀ a ∈ ids, ∀ c ∈ t.children a, c ∈ ids) (h : t.Below top id) : id ∈ ids := by
  induction h with
  | top => exact htop
  | child _ hc ih => exact hclosed _ ih _ hc

/-- The statement `x = this`, for which a call with the same value has been made. The value already
records the call. -/
def sharedValue : Tree where
  nodes := #[
    { kind := .simpleName "x" none, parent := some 2 },
    { kind := .thisObject, parent := some 4 },
    { kind := .assignment .assign 0 1, parent := some 3 },
    { kind := .expressionStatement 2 },
    { kind := .functionCall default [1] }]
  root := some 3

theorem sharedValue_replaceable : sharedValue.Replaceable 3 2 4 := by
  have haround {id : NodeId} (h : sharedValue.Around 3 2 id) : id = 3 ∨ id = 2 := by
    have hm : id ∈ [3, 2] := h.mem_of_closed (by decide) (by decide)
    simpa using hm
  have hbelow {id : NodeId} (h : sharedValue.Below 4 id) : id ∈ [4, 1] :=
    h.mem_of_closed (by decide) (by decide)
  have hlinks : ∀ a ∈ [3, 4, 1], (sharedValue.children a).Nodup ∧
      ∀ c ∈ sharedValue.children a, sharedValue.parent? c = some a := by decide
  have hholder {a : NodeId} (h : sharedValue.Around 3 2 a) (hne : a ≠ 2) : a ∈ [3, 4, 1] :=
    List.mem_cons.2 (.inl ((haround h).resolve_right hne))
  have hnew {a : NodeId} (h : sharedValue.Below 4 a) : a ∈ [3, 4, 1] :=
    List.mem_cons_of_mem 3 (hbelow h)
  refine ⟨rfl, ⟨_, rfl, rfl⟩, .child .top (by decide), by decide, by decide,
    fun h hne => (hlinks _ (hholder h hne)).2 _, fun ha hna hb hnb => ?_,
    ⟨⟨_, rfl⟩, fun h => (hlinks _ (hnew h)).2 _, fun ha hb => ?_, fun h => ?_⟩, fun hb ha => ?_⟩
  · have hla := hlinks _ (hholder ha hna)
    exact slot_unique hla.2 (hlinks _ (hholder hb hnb)).2 hla.1
  · have hla := hlinks _ (hnew ha)
    exact slot_unique hla.2 (hlinks _ (hnew hb)).2 hla.1
  · exact (by decide : ∀ a ∈ [4, 1], 4 ∉ sharedValue.children a) _ (hbelow h)
  · rcases haround ha with rfl | rfl
    · exact absurd (hbelow hb) (by decide)
    · rfl

/-- The call takes the place of the assignment and keeps the value that both hold. -/
theorem replace_splices_sharedValue :
    sharedValue.Replaceable 3 2 4 ∧
    (∃ t', sharedValue.replace 2 4 = .ok t' ∧ sharedValue.Spliced 3 2 4 t') ∧
    sharedValue.descendants 3 = [3, 2, 0, 1] ∧
    (sharedValue.replace 2 4).toOption.map (·.descendants 3) = some [3, 4, 1] :=
  ⟨sharedValue_replaceable, (replace_splices sharedValue 2 4).2.2 3 sharedValue_replaceable,
    by decide, by decide⟩

end Tree

end ObjectLowering
