import ObjectLowering.Proofs.Region
import ObjectLowering.Proofs.Searches

/-!
# ObjectLowering.Proofs.Forest

Trees that are made by calls. A call makes a node over nodes without parent, replaces a node by one
without parent, converts a name, or marks a node; it may also fail. The nodes of the tree, detached
ones included, then always make up a forest.

* `Forest`: recorded parents and slots say the same, no node fills two slots, and no node lies below
  one of its children.
* `Forest.alloc`, `Forest.replace`, `Forest.convertFrom`, `Forest.update`: every operation leaves a
  forest a forest.
* `Call`: an operation with its operands. `Call.Proper` is what its caller has to see to.
* `Made`: the trees that proper calls lead to.
* `made_forest`: they are forests, on which every search ends and the check of links finds nothing.
-/

namespace ObjectLowering.Tree

variable {t t' : Tree}

/-- The nodes, reachable or not, make up trees: links agree both ways, and nothing lies below
itself. -/
structure Forest (t : Tree) : Prop where
  links : ∀ {c p : NodeId}, t.parent? c = some p ↔ c ∈ t.children p
  slots : ∀ p : NodeId, (t.children p).Nodup
  acyclic : ∀ {id c : NodeId}, c ∈ t.children id → ¬ t.Below c id

/-- The node exists and has no parent. -/
def Detached (t : Tree) (id : NodeId) : Prop :=
  ∃ node, t.node? id = some node ∧ node.parent = none

instance (t : Tree) (id : NodeId) : Decidable (t.Detached id) :=
  decidable_of_iff ((t.node? id).map (·.parent) = some none) Option.map_eq_some_iff

theorem Detached.node? {id : NodeId} (h : t.Detached id) : ∃ node, t.node? id = some node := by
  obtain ⟨node, hn, -⟩ := h
  exact ⟨node, hn⟩

theorem Detached.lt_size {id : NodeId} (h : t.Detached id) : id < t.size := by
  obtain ⟨node, hn, -⟩ := h
  exact (Array.getElem?_eq_some_iff.1 hn).1

theorem Detached.parent? {id : NodeId} (h : t.Detached id) : t.parent? id = none := by
  obtain ⟨node, hn, hp⟩ := h
  simp [Tree.parent?, hn, hp]

/-! ## What a change does to the links -/

/-- A change that keeps the kind of a node keeps its children, and a change of the kind of a node
gives it those of the new kind. -/
theorem children_update (t : Tree) (id other : NodeId) (change : Node → Node) :
    (t.update id change).children other =
      if id = other then ((t.node? other).map (change · |>.kind.children)).getD []
      else t.children other := by
  simp only [children, kind?, node?_update]
  split
  · simp [Function.comp_def]
  · rfl

theorem parent?_update (t : Tree) (id other : NodeId) (change : Node → Node) :
    (t.update id change).parent? other =
      if id = other then (t.node? other).bind (change · |>.parent) else t.parent? other := by
  simp only [Tree.parent?, node?_update]
  split
  · cases t.node? other <;> rfl
  · rfl

theorem eq_update_of_setNilCheck {id : NodeId} {nilCheck : Bool}
    (h : t.setNilCheck id nilCheck = .ok t') : t' = t.update id ({ · with nilCheck }) := by
  unfold setNilCheck modify at h
  cases hn : t.node id with
  | ok node =>
    rw [hn] at h
    exact (Except.ok.inj h).symm
  | error e =>
    rw [hn] at h
    cases h

theorem children_update_of_kind (t : Tree) {id : NodeId} {change : Node → Node}
    (h : ∀ node, t.node? id = some node → (change node).kind.children = node.kind.children)
    (other : NodeId) : (t.update id change).children other = t.children other := by
  rw [children_update]
  split
  · rename_i he
    subst he
    cases hn : t.node? id with
    | none => simp [children, kind?, hn]
    | some node => simp [children, kind?, hn, h node hn]
  · rfl

theorem parent?_update_of_parent (t : Tree) {id : NodeId} {change : Node → Node}
    (h : ∀ node, (change node).parent = node.parent) (other : NodeId) :
    (t.update id change).parent? other = t.parent? other := by
  rw [parent?_update]
  split
  · simp [Tree.parent?, h]
  · rfl

/-! ## New links -/

/-- Where the new links all lead from `p` to some nodes, a new path goes through one of them or is
an old one. -/
theorem Below.old_or_through {p : NodeId} {hung : List NodeId}
    (h : ∀ {id c : NodeId}, c ∈ t'.children id → c ∈ t.children id ∨ id = p ∧ c ∈ hung)
    {a b : NodeId} (hb : t'.Below a b) :
    t.Below a b ∨ t.Below a p ∧ ∃ c ∈ hung, t.Below c b := by
  induction hb with
  | top => exact .inl .top
  | child _ hc ih =>
    rcases h hc with hold | ⟨rfl, hnew⟩
    · rcases ih with hb | ⟨hp, d, hd, hb⟩
      · exact .inl (hb.child hold)
      · exact .inr ⟨hp, d, hd, hb.child hold⟩
    · rcases ih with hb | ⟨hp, -⟩
      · exact .inr ⟨hb, _, hnew, .top⟩
      · exact .inr ⟨hp, _, hnew, .top⟩

/-- Hanging nodes under one that does not lie below them makes no cycle. -/
theorem not_below_of_hung (p : NodeId) (hung : List NodeId)
    (hacyclic : ∀ {id c : NodeId}, c ∈ t.children id → ¬ t.Below c id)
    (h : ∀ {id c : NodeId}, c ∈ t'.children id → c ∈ t.children id ∨ id = p ∧ c ∈ hung)
    (hhung : ∀ c ∈ hung, ¬ t.Below c p) {id c : NodeId} (hc : c ∈ t'.children id) :
    ¬ t'.Below c id := by
  intro hb
  rcases h hc with hold | ⟨rfl, hnew⟩
  · rcases hb.old_or_through h with hb | ⟨hp, d, hd, hb⟩
    · exact hacyclic hold hb
    · exact hhung d hd ((hb.child hold).trans hp)
  · rcases hb.old_or_through h with hb | ⟨hb, -⟩
    · exact hhung c hnew hb
    · exact hhung c hnew hb

namespace Forest

variable {id c p old new : NodeId}

theorem lt_size (h : t.Forest) (hc : c ∈ t.children id) : c < t.size := by
  obtain ⟨node, hn, -⟩ := node?_of_parent? (h.links.2 hc)
  exact (Array.getElem?_eq_some_iff.1 hn).1

theorem notMem_of_detached (h : t.Forest) (hc : t.Detached c) : c ∉ t.children p := fun hm => by
  cases hc.parent?.symm.trans (h.links.2 hm)

/-- What makes up a forest are the recorded parents and the slots alone. -/
theorem congr (h : t.Forest) (hc : ∀ id, t'.children id = t.children id)
    (hp : ∀ id, t'.parent? id = t.parent? id) : t'.Forest where
  links := by
    intro c p
    rw [hc, hp]
    exact h.links
  slots p := hc p ▸ h.slots p
  acyclic := not_below_of_hung 0 [] h.acyclic
    (fun hm => .inl (hc _ ▸ hm)) (by simp)

/-- A change that keeps the parent of a node and the children of its kind. -/
theorem update (h : t.Forest) {change : Node → Node}
    (hkids : ∀ node, t.node? id = some node → (change node).kind.children = node.kind.children)
    (hparent : ∀ node, (change node).parent = node.parent) : (t.update id change).Forest :=
  h.congr (children_update_of_kind t hkids) (parent?_update_of_parent t hparent)

/-! ## A new node -/

theorem children_alloc (t : Tree) (kind : NodeKind) (span : Span) (id : NodeId) :
    (t.alloc kind span).2.children id = if id = t.size then kind.children else t.children id := by
  simp only [children, kind?, node?_alloc, node?_adopt]
  split
  · rfl
  · split
    · simp [Function.comp_def]
    · rfl

theorem parent?_alloc (t : Tree) (kind : NodeKind) (span : Span) (id : NodeId) :
    (t.alloc kind span).2.parent? id =
      if id = t.size then none
      else if id ∈ kind.children then (t.node? id).map fun _ => t.size else t.parent? id := by
  simp only [Tree.parent?, node?_alloc, node?_adopt]
  split
  · rfl
  · split
    · cases t.node? id <;> rfl
    · rfl

theorem links_alloc (h : t.Forest) {kind : NodeKind}
    (hdetached : ∀ c ∈ kind.children, t.Detached c) (span : Span) :
    (t.alloc kind span).2.parent? c = some p ↔ c ∈ (t.alloc kind span).2.children p := by
  have hlt : ∀ c ∈ kind.children, c < t.size := fun c hc => (hdetached c hc).lt_size
  rw [children_alloc, parent?_alloc]
  by_cases hc : c = t.size
  · subst hc
    by_cases hp : p = t.size
    · simpa [hp] using fun hm => Nat.lt_irrefl _ (hlt _ hm)
    · simpa [hp] using fun hm => Nat.lt_irrefl _ (h.lt_size hm)
  by_cases hm : c ∈ kind.children
  · obtain ⟨node, hn, -⟩ := hdetached c hm
    by_cases hp : p = t.size
    · simp [hc, hm, hn, hp]
    · simp [hc, hm, hn, hp, h.notMem_of_detached (hdetached c hm), Ne.symm hp]
  · by_cases hp : p = t.size
    · have hnone : t.parent? c ≠ some t.size := fun hcp =>
        Nat.lt_irrefl _ (lt_size_of_mem_children (h.links.1 hcp))
      simp [hc, hm, hp, hnone]
    · simpa [hc, hm, hp] using h.links

/-- A new node over detached ones. -/
theorem alloc (h : t.Forest) {kind : NodeKind} (hdetached : ∀ c ∈ kind.children, t.Detached c)
    (hnodup : kind.children.Nodup) (span : Span) : (t.alloc kind span).2.Forest := by
  refine ⟨h.links_alloc hdetached span, ?_, not_below_of_hung t.size kind.children h.acyclic ?_ ?_⟩
  · intro p
    rw [children_alloc]
    split
    · exact hnodup
    · exact h.slots p
  · intro id c hc
    rw [children_alloc] at hc
    split at hc
    · rename_i hid
      exact .inr ⟨hid, hc⟩
    · exact .inl hc
  · intro c hc hb
    cases hb with
    | top => exact Nat.lt_irrefl _ (hdetached _ hc).lt_size
    | child _ hm => exact Nat.lt_irrefl _ (h.lt_size hm)

/-! ## A node in the place of another -/

theorem mem_replace_iff {l : List NodeId} (hn : l.Nodup) (hm : old ∈ l) (hne : new ≠ old) :
    c ∈ l.replace old new ↔ c ≠ old ∧ c ∈ l ∨ c = new := by
  obtain ⟨l₁, l₂, rfl⟩ := List.append_of_mem hm
  obtain ⟨-, hcons, hdisjoint⟩ := List.nodup_append.1 hn
  have h₁ : old ∉ l₁ := fun h => hdisjoint old h old List.mem_cons_self rfl
  have h₂ : old ∉ l₂ := (List.nodup_cons.1 hcons).1
  rw [replace_append_cons new h₁]
  by_cases hc : c = old
  · subst hc
    simp [h₁, h₂, Ne.symm hne]
  · simp only [List.mem_append, List.mem_cons]
    tauto

theorem nodup_replace {l : List NodeId} (hn : l.Nodup) (hm : old ∈ l) (hnew : new ∉ l) :
    (l.replace old new).Nodup := by
  obtain ⟨l₁, l₂, rfl⟩ := List.append_of_mem hm
  obtain ⟨-, -, hdisjoint⟩ := List.nodup_append.1 hn
  have h₁ : old ∉ l₁ := fun h => hdisjoint old h old List.mem_cons_self rfl
  rw [replace_append_cons new h₁]
  rw [List.nodup_middle, List.nodup_cons] at hn ⊢
  simp only [List.mem_append, List.mem_cons, not_or] at hnew
  exact ⟨by simp [hnew], hn.2⟩

/-- What a successful replacement does to the links. -/
theorem links_of_replace {t t' : Tree} (hr : t.replace old new = .ok t')
    (hnew : ∃ node, t.node? new = some node) : ∃ p, t.parent? old = some p ∧ old ∈ t.children p ∧
      (∀ id, t'.children id = if id = p then (t.children p).replace old new else t.children id) ∧
      ∀ id, t'.parent? id =
        if id = old then none else if id = new then some p else t.parent? id := by
  obtain ⟨p, k, kind, hp, hk, hswap, rfl⟩ := Region.replace_eq_ok hr
  obtain ⟨hold, -, hkids⟩ := NodeKind.replaceChild?_eq_some hswap
  obtain ⟨parentNode, hparent, rfl⟩ := Option.map_eq_some_iff.1 hk
  obtain ⟨node, hn⟩ := hnew
  have hkidsP : t.children p = parentNode.kind.children := by simp [children, kind?, hparent]
  refine ⟨p, hp, hkidsP ▸ hold, fun id => ?_, fun id => ?_⟩
  · rw [children_update_of_kind, children_update_of_kind, children_update]
    · by_cases hid : id = p
      · subst hid
        simp [hparent, hkids, hkidsP]
      · simp [hid, Ne.symm hid]
    · exact fun _ _ => rfl
    · exact fun _ _ => rfl
  · rw [parent?_update, parent?_update, parent?_update_of_parent]
    · by_cases hid : id = old
      · subst hid
        simp
      · by_cases hidnew : id = new
        · subst hidnew
          by_cases hpn : p = id
          · subst hpn
            simp [hid, Ne.symm hid, node?_update, hn]
          · simp [hid, Ne.symm hid, node?_update, hpn, hn]
        · simp [hid, Ne.symm hid, hidnew, Ne.symm hidnew]
    · exact fun _ => rfl

theorem links_replace (h : t.Forest) (hdetached : t.Detached new) (hne : new ≠ old)
    (hr : t.replace old new = .ok t') : t'.parent? c = some p ↔ c ∈ t'.children p := by
  obtain ⟨q, hq, hold, hchildren, hparent⟩ := links_of_replace hr hdetached.node?
  rw [hchildren, hparent]
  by_cases hp : p = q
  · subst hp
    rw [if_pos rfl, mem_replace_iff (h.slots p) hold hne, ← h.links]
    by_cases hc : c = old
    · simp [hc, Ne.symm hne]
    · by_cases hcn : c = new
      · subst hcn
        simp [hc]
      · simp [hc, hcn]
  · rw [if_neg hp]
    by_cases hc : c = old
    · have hnone : old ∉ t.children p := fun hm =>
        hp (Option.some.inj ((h.links.2 hm).symm.trans hq))
      simp [hc, hnone]
    · by_cases hcn : c = new
      · simp [hcn, hne, h.notMem_of_detached hdetached, Ne.symm hp]
      · simpa [hc, hcn] using h.links

/-- A detached node in the place of another that it does not stand above. -/
theorem replace (h : t.Forest) (hdetached : t.Detached new) (hne : new ≠ old)
    (hbelow : ¬ t.Below new old) (hr : t.replace old new = .ok t') : t'.Forest := by
  obtain ⟨p, -, hold, hchildren, -⟩ := links_of_replace hr hdetached.node?
  refine ⟨h.links_replace hdetached hne hr, ?_, not_below_of_hung p [new] h.acyclic ?_ ?_⟩
  · intro q
    rw [hchildren]
    split
    · exact nodup_replace (h.slots p) hold (h.notMem_of_detached hdetached)
    · exact h.slots q
  · intro id c hc
    rw [hchildren] at hc
    split at hc
    · rename_i hid
      subst hid
      exact (Region.mem_or_eq_of_mem_replace hc).imp_right fun he => ⟨rfl, List.mem_singleton.2 he⟩
    · exact .inl hc
  · intro c hc hb
    rw [List.mem_singleton.1 hc] at hb
    exact hbelow (hb.child hold)

/-! ## Conversions -/

theorem convertFrom (h : t.Forest) (depth : Nat) (id : NodeId) :
    (t.convertFrom depth id).1.Forest := by
  induction depth generalizing t id with
  | zero => exact h
  | succ depth ih =>
    rw [Tree.convertFrom]
    split
    · exact h
    · rename_i t' hone
      obtain ⟨qualifier, name, hk, rfl⟩ := Region.convertOne_eq_ok hone
      have hforest : (t.update id ({ · with kind := .fieldAccess qualifier name })).Forest := by
        refine h.update (fun node hn => ?_) fun _ => rfl
        have hkind : node.kind = .qualifiedName qualifier name := by simpa [kind?, hn] using hk
        rw [hkind]
        rfl
      split
      · exact ih hforest _
      · exact hforest

/-! ## Climbs -/

/-- A climb from nodes that it has left meets none of them again, so it ends. -/
theorem exists_climbs_from (h : t.Forest) {left : List NodeId} {depth : Nat}
    (hnodup : (id :: left).Nodup) (hbelow : ∀ a ∈ id :: left, t.Below id a)
    (hlt : ∀ a ∈ id :: left, a < t.size) (hdepth : t.size ≤ depth + left.length) :
    ∃ above, t.Climbs id above ∧ ∀ a ∈ above, a < t.size := by
  induction depth generalizing id left with
  | zero =>
    have hlength := length_le_of_nodup hnodup hlt
    rw [List.length_cons] at hlength
    omega
  | succ depth ih =>
    cases hp : t.parent? id with
    | none => exact ⟨[], hp, by simp⟩
    | some p =>
      have hm : id ∈ t.children p := h.links.1 hp
      have hplt : p < t.size := lt_size_of_mem_children hm
      have hpnew : p ∉ id :: left := fun hpm => h.acyclic hm (hbelow p hpm)
      obtain ⟨above, hclimbs, habove⟩ := ih (List.nodup_cons.2 ⟨hpnew, hnodup⟩)
        (List.forall_mem_cons.2 ⟨.top, fun a ha => (Below.top.child hm).trans (hbelow a ha)⟩)
        (List.forall_mem_cons.2 ⟨hplt, hlt⟩) (by rw [List.length_cons]; omega)
      exact ⟨p :: above, ⟨hp, hclimbs⟩, List.forall_mem_cons.2 ⟨hplt, habove⟩⟩

theorem owned_owningType? (h : t.Forest) (id : NodeId) :
    t.Owned (some id) (t.owningType? id) := by
  by_cases hlt : id < t.size
  · obtain ⟨above, hclimbs, habove⟩ := h.exists_climbs_from (List.nodup_singleton id)
      (by simpa using Below.top) (by simpa using hlt) (Nat.le_add_right ..)
    exact Tree.owned_owningType? hclimbs (List.forall_mem_cons.2 ⟨hlt, habove⟩)
  · have hnode : t.node? id = none := Array.getElem?_eq_none (Nat.not_lt.1 hlt)
    have hnone : t.owningType? id = none := by
      rw [owningType?]
      cases t.size with
      | zero => rfl
      | succ depth => simp [owningTypeFrom?, kind?, Tree.parent?, hnode]
    rw [hnone]
    refine .above (by simp [kind?, hnode]) ?_
    rw [Tree.parent?, hnode]
    exact .nowhere

end Forest

/-! ## Calls -/

/-- A call that changes a tree. -/
inductive Call where
  | alloc (kind : NodeKind) (span : Span)
  | replace (old new : NodeId)
  | convert (id : NodeId)
  | mark (id : NodeId) (nilCheck : Bool)

namespace Call

/-- A change that leaves the tree alone if it fails. -/
def edit (t : Tree) : Except TreeError Tree → Tree × Except TreeError Unit
  | .ok t' => (t', .ok ())
  | .error e => (t, .error e)

/-- The tree after the call, whatever its outcome, and the outcome. -/
def run (t : Tree) : Call → Tree × Except TreeError Unit
  | alloc kind span => ((t.alloc kind span).2, .ok ())
  | replace old new => edit t (t.replace old new)
  | convert id => t.convertToFieldAccess id
  | mark id nilCheck => edit t (t.setNilCheck id nilCheck)

/-- What the caller has to see to: a new node is made over distinct detached nodes, and one that takes
the place of another is detached and does not stand above it. -/
def Proper (t : Tree) : Call → Prop
  | alloc kind _ => (∀ c ∈ kind.children, t.Detached c) ∧ kind.children.Nodup
  | replace old new => t.Detached new ∧ new ≠ old ∧ ¬ t.Below new old
  | convert _ | mark _ _ => True

theorem forest_run (h : t.Forest) (call : Call) (hproper : call.Proper t) :
    (call.run t).1.Forest := by
  cases call with
  | alloc kind span => exact h.alloc hproper.1 hproper.2 span
  | replace old new =>
    obtain ⟨hdetached, hne, hbelow⟩ := hproper
    cases hr : t.replace old new with
    | error e => simpa [run, edit, hr] using h
    | ok t' => simpa [run, edit, hr] using h.replace hdetached hne hbelow hr
  | convert id => exact h.convertFrom _ id
  | mark id nilCheck =>
    cases hm : t.setNilCheck id nilCheck with
    | error e => simpa [run, edit, hm] using h
    | ok t' =>
      simp only [run, edit, hm]
      rw [eq_update_of_setNilCheck hm]
      exact h.update (fun _ _ => rfl) fun _ => rfl

/-- The tree after calls, one after the other. -/
def runAll (t : Tree) : List Call → Tree
  | [] => t
  | call :: calls => runAll (call.run t).1 calls

/-- Every call is proper where it is made. -/
def ProperAll (t : Tree) : List Call → Prop
  | [] => True
  | call :: calls => call.Proper t ∧ ProperAll (call.run t).1 calls

theorem forest_runAll {calls : List Call} (h : t.Forest) (hproper : ProperAll t calls) :
    (runAll t calls).Forest := by
  induction calls generalizing t with
  | nil => exact h
  | cons call calls ih => exact ih (call.forest_run h hproper.1) hproper.2

end Call

/-- Proper calls lead from the empty tree to this one. -/
def Made (t : Tree) : Prop :=
  ∃ calls, Call.ProperAll .empty calls ∧ Call.runAll .empty calls = t

theorem forest_empty : Forest .empty := by
  have hnode (id : NodeId) : node? .empty id = none := rfl
  exact ⟨by simp [Tree.parent?, children, kind?, hnode], by simp [children, kind?, hnode],
    by simp [children, kind?, hnode]⟩

theorem Made.forest (h : t.Made) : t.Forest := by
  obtain ⟨calls, hproper, rfl⟩ := h
  exact Call.forest_runAll forest_empty hproper

/-- In every tree that proper calls lead to, a node records as its parent just the node that holds it,
and fills one slot only; no node lies below itself, so that every search ends; and the check of links
finds nothing from any node without parent. -/
theorem made_forest (h : t.Made) :
    (∀ c p, t.parent? c = some p ↔ c ∈ t.children p) ∧
      (∀ c p, c ∈ t.children p →
        ∃! slot : NodeId × Nat, (t.children slot.1)[slot.2]? = some c) ∧
      (∀ id c, c ∈ t.children id → ¬ t.Below c id) ∧
      (∀ id, t.Scans [id] (t.descendants id) ∧ t.Strips id (t.stripParentheses id) ∧
        t.Owned (some id) (t.owningType? id)) ∧
      ∀ root, t.parent? root = none → (t.setRoot root).verifyLinks = .ok () := by
  have hforest := h.forest
  have hacyclic (id : NodeId) : t.Acyclic id := fun _ hc => hforest.acyclic hc
  refine ⟨fun _ _ => hforest.links, ?_, fun _ _ => hforest.acyclic, fun id => ?_, ?_⟩
  · intro c p hc
    obtain ⟨i, hi⟩ := List.mem_iff_getElem?.1 hc
    refine ⟨(p, i), hi, ?_⟩
    rintro ⟨q, j⟩ hj
    have hq : t.parent? c = some q := hforest.links.2 (List.mem_of_getElem? hj)
    obtain rfl : p = q := Option.some.inj ((hforest.links.2 hc).symm.trans hq)
    obtain ⟨hlt, -⟩ := List.getElem?_eq_some_iff.1 hi
    rw [(List.getElem?_inj hlt (hforest.slots p)).1 (hi.trans hj.symm)]
  · exact ⟨scans_descendants (hacyclic id), strips_stripParentheses (hacyclic id),
      hforest.owned_owningType? id⟩
  · intro root _
    exact verifyLinks_of_links fun _ hc => hforest.links.2 hc

/-- Calls that fail stand between others: the first conversion finds no qualified name, the first
replacement a node without parent, and the last mark no node. -/
def sampleCalls : List Call :=
  [.alloc (.simpleName "a" none) .synthetic, .alloc (.simpleName "b" none) .synthetic,
    .alloc (.qualifiedName 0 1) .synthetic, .alloc (.parenthesized 2) .synthetic,
    .alloc .thisObject .synthetic, .convert 0, .convert 2, .replace 3 4, .replace 2 4,
    .mark 4 true, .mark 9 true]

def sampleTree : Tree :=
  Call.runAll .empty sampleCalls

theorem sampleTree_made : sampleTree.Made := by
  have hthis {t : Tree} (hleaf : t.children 4 = []) {n : NodeId} (hn : n ≠ 4) : ¬ t.Below 4 n := by
    rw [below_iff_child, hleaf]
    simpa using hn
  refine ⟨sampleCalls, ⟨?_, ?_, ?_, ?_, ?_, trivial, trivial,
    ⟨by decide +kernel, by decide, hthis (by decide +kernel) (by decide)⟩,
    ⟨by decide +kernel, by decide, hthis (by decide +kernel) (by decide)⟩,
    trivial, trivial, trivial⟩, rfl⟩
  all_goals exact ⟨by decide +kernel, by decide +kernel⟩

/-- The object stands in the parentheses in place of the member access, which has kept its names. -/
theorem made_forest_sample : sampleTree.Made ∧ sampleTree.children 3 = [4] ∧
    (∃! slot : NodeId × Nat, (sampleTree.children slot.1)[slot.2]? = some 4) ∧
    sampleTree.Scans [2] [2, 0, 1] ∧ sampleTree.Strips 3 4 ∧
    sampleTree.parent? 2 = none ∧ (sampleTree.setRoot 2).verifyLinks = .ok () := by
  obtain ⟨-, hslot, -, hends, hlinks⟩ := made_forest sampleTree_made
  exact ⟨sampleTree_made, by decide +kernel, hslot 4 3 (by decide +kernel), (hends 2).1,
    (hends 3).2.1, by decide +kernel, hlinks 2 (by decide +kernel)⟩

end ObjectLowering.Tree
