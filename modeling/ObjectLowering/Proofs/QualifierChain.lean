import Mathlib.Data.List.Chain
import ObjectLowering.Proofs.Site

/-!
# ObjectLowering.Proofs.QualifierChain

The conversion of a qualified name and of the names around it, on any tree. Recorded parents may
lead anywhere, also back to where the conversion has started.

* `QualifierChain`: a node, the name that it qualifies, and so on, through distinct names as far as
  they go.
* `Exposes`: a tree in which some qualified names have become member accesses.
* `Converts`: the conversion as a loop without a bound, so it holds only if the loop ends.
* `converts_rest`: what remains of a chain is converted up to the first node that cannot be.
* `convertToFieldAccess_chain`: there is one chain, the loop ends on it, and it converts all of it or
  fails at the first node that is no qualified name over a simple name.
-/

namespace ObjectLowering.Tree

variable {t u t' : Tree} {id : NodeId}

/-! ## One name -/

/-- The node is a qualified name, and its member is a simple name. -/
def Convertible (t : Tree) (id : NodeId) : Prop :=
  ∃ qualifier name, t.kind? id = some (.qualifiedName qualifier name) ∧
    (t.kind? name).any (·.isSimpleName) = true

/-- Why the node cannot become a member access. -/
inductive Unconvertible (t : Tree) (id : NodeId) : TreeError → Prop where
  | noNode : t.node? id = none → Unconvertible t id (.invalidNode id)
  | noName {node : Node} : t.node? id = some node → node.kind.isQualifiedName = false →
      Unconvertible t id (.unexpectedNode "QualifiedName" node.kind.label node.span)
  | noMember {qualifier name : NodeId} : t.kind? id = some (.qualifiedName qualifier name) →
      t.node? name = none → Unconvertible t id (.invalidNode name)
  | otherMember {qualifier name : NodeId} {member : Node} :
      t.kind? id = some (.qualifiedName qualifier name) → t.node? name = some member →
        member.kind.isSimpleName = false →
          Unconvertible t id (.unexpectedNode "SimpleName" member.kind.label member.span)

theorem convertOne_of_convertible (h : t.Convertible id) :
    ∃ qualifier name, t.kind? id = some (.qualifiedName qualifier name) ∧
      t.convertOne id = .ok (t.update id ({ · with kind := .fieldAccess qualifier name })) := by
  obtain ⟨qualifier, name, hk, hm⟩ := h
  obtain ⟨⟨kind, parent, span, nilCheck⟩, hn, rfl⟩ := Option.map_eq_some_iff.1 hk
  obtain ⟨member, hmember, hsimple⟩ := (Option.any_eq_true ..).1 hm
  exact ⟨qualifier, name, hk, convertOne_of_node? hn hmember hsimple⟩

theorem convertOne_of_not_convertible (h : ¬ t.Convertible id) :
    ∃ e, t.convertOne id = .error e ∧ t.Unconvertible id e := by
  cases hn : t.node? id with
  | none =>
    have hnode : t.node id = .error (.invalidNode id) := by simp [Tree.node, hn]
    exact ⟨_, by simp [convertOne, hnode, bind, Except.bind], .noNode hn⟩
  | some node =>
    have hnode : t.node id = .ok node := node_of_node? hn
    by_cases hq : ∃ qualifier name, node.kind = .qualifiedName qualifier name
    · obtain ⟨qualifier, name, hkind⟩ := hq
      have hk : t.kind? id = some (.qualifiedName qualifier name) := by
        rw [kind?, hn, Option.map_some, hkind]
      cases hm : t.node? name with
      | none =>
        have hmember : t.node name = .error (.invalidNode name) := by simp [Tree.node, hm]
        exact ⟨_, by simp [convertOne, hnode, hkind, hmember, bind, Except.bind], .noMember hk hm⟩
      | some member =>
        have hspan : t.span name = member.span := by simp [Tree.span, hm]
        have hsimple : member.kind.isSimpleName = false := by
          refine Bool.eq_false_iff.2 fun hs => h ⟨qualifier, name, hk, ?_⟩
          rw [kind?, hm]
          exact hs
        refine ⟨_, ?_, .otherMember hk hm hsimple⟩
        cases hmk : member.kind with
        | simpleName => rw [hmk] at hsimple; cases hsimple
        | _ => simp [convertOne, hnode, hkind, node_of_node? hm, hmk, hspan, bind, Except.bind]
    · have hname : node.kind.isQualifiedName = false := by
        cases hk : node.kind with
        | qualifiedName qualifier name => exact absurd ⟨qualifier, name, hk⟩ hq
        | _ => rfl
      refine ⟨_, ?_, .noName hn hname⟩
      cases hk : node.kind with
      | qualifiedName qualifier name => exact absurd ⟨qualifier, name, hk⟩ hq
      | _ => simp [convertOne, hnode, hk, bind, Except.bind]

/-! ## Exposed names -/

/-- The tree `t'` is `t` with these qualified names made member accesses over the same children. -/
structure Exposes (t : Tree) (names : List NodeId) (t' : Tree) : Prop where
  root : t'.root = t.root
  size : t'.size = t.size
  exposed : ∀ i ∈ names, ∃ node qualifier name, t.node? i = some node ∧
    node.kind = .qualifiedName qualifier name ∧
    t'.node? i = some { node with kind := .fieldAccess qualifier name }
  others : ∀ i, i ∉ names → t'.node? i = t.node? i

namespace Exposes

variable {names : List NodeId}

theorem nil (t : Tree) : t.Exposes [] t :=
  ⟨rfl, rfl, by simp, fun _ _ => rfl⟩

/-- One more name. -/
theorem expose (h : t.Exposes names u) (hid : id ∉ names) {qualifier name : NodeId}
    (hk : u.kind? id = some (.qualifiedName qualifier name)) :
    t.Exposes (names ++ [id]) (u.update id ({ · with kind := .fieldAccess qualifier name })) where
  root := h.root
  size := (size_update ..).trans h.size
  exposed i hi := by
    rw [node?_update]
    rcases List.mem_append.1 hi with hi | hi
    · have hne : id ≠ i := fun he => hid (he ▸ hi)
      rw [if_neg hne]
      exact h.exposed i hi
    · obtain rfl := List.mem_singleton.1 hi
      obtain ⟨node, hn, hkind⟩ := Option.map_eq_some_iff.1 hk
      exact ⟨node, qualifier, name, (h.others i hid).symm.trans hn, hkind, by simp [hn]⟩
  others i hi := by
    rw [List.mem_append, List.mem_singleton, not_or] at hi
    rw [node?_update, if_neg (Ne.symm hi.2), h.others i hi.1]

/-- A node keeps all but its kind, and keeps its children. -/
theorem node (h : t.Exposes names t') (i : NodeId) :
    (t'.node? i).map (fun node => (node.kind.children, node.parent, node.span)) =
      (t.node? i).map fun node => (node.kind.children, node.parent, node.span) := by
  by_cases hi : i ∈ names
  · obtain ⟨node, qualifier, name, hn, hk, hn'⟩ := h.exposed i hi
    rw [hn, hn', Option.map_some, Option.map_some, hk]
    rfl
  · rw [h.others i hi]

theorem children (h : t.Exposes names t') (i : NodeId) : t'.children i = t.children i := by
  have hnode := congrArg (Option.map Prod.fst) (h.node i)
  rw [Option.map_map, Option.map_map] at hnode
  simpa [Tree.children, kind?, Function.comp_def] using congrArg (Option.getD · []) hnode

theorem parent? (h : t.Exposes names t') (i : NodeId) : t'.parent? i = t.parent? i := by
  have hnode := congrArg (Option.bind · fun p => p.2.1) (h.node i)
  rw [Option.bind_map, Option.bind_map] at hnode
  exact hnode

theorem span (h : t.Exposes names t') (i : NodeId) : t'.span i = t.span i := by
  have hnode := congrArg (Option.map fun p => p.2.2) (h.node i)
  rw [Option.map_map, Option.map_map] at hnode
  simpa [Tree.span, Function.comp_def] using congrArg (Option.getD · .synthetic) hnode

theorem isSimpleName (h : t.Exposes names t') (i : NodeId) :
    (t'.kind? i).any (·.isSimpleName) = (t.kind? i).any (·.isSimpleName) := by
  by_cases hi : i ∈ names
  · obtain ⟨node, qualifier, name, hn, hk, hn'⟩ := h.exposed i hi
    simp [kind?, hn, hn', hk, NodeKind.isSimpleName]
  · rw [kind?, kind?, h.others i hi]

/-- Whether a name can be converted does not depend on the names that have been. -/
theorem convertible_iff (h : t.Exposes names t') (hid : id ∉ names) :
    t'.Convertible id ↔ t.Convertible id := by
  have hk : t'.kind? id = t.kind? id := by rw [kind?, kind?, h.others id hid]
  simp only [Convertible, hk, h.isSimpleName]

end Exposes

/-! ## Searches in trees with the same links -/

theorem extent_congr (h : ∀ i, t'.children i = t.children i) (depth : Nat) (id : NodeId) :
    t'.extent depth id = t.extent depth id := by
  induction depth generalizing id with
  | zero => rfl
  | succ depth ih =>
    show 1 + ((t'.children id).map (t'.extent depth)).sum = 1 + ((t.children id).map (t.extent depth)).sum
    rw [h, funext ih]

theorem scan_congr (h : ∀ i, t'.children i = t.children i) (steps : Nat) (stack : List NodeId) :
    t'.scan steps stack = t.scan steps stack := by
  induction steps generalizing stack with
  | zero => rfl
  | succ steps ih =>
    cases stack with
    | nil => rfl
    | cons id stack => rw [scan, scan, h, ih]

theorem descendants_congr (h : ∀ i, t'.children i = t.children i) (hsize : t'.size = t.size)
    (id : NodeId) : t'.descendants id = t.descendants id := by
  rw [descendants, descendants, hsize, extent_congr h, scan_congr h]

theorem Exposes.verifyLinks {names : List NodeId} (h : t.Exposes names t') :
    t'.verifyLinks = t.verifyLinks := by
  have hbroken (root : NodeId) : t'.brokenLink? root = t.brokenLink? root := by
    simp only [brokenLink?, descendants_congr h.children h.size, h.children, h.parent?]
  simp only [Tree.verifyLinks, h.root, funext hbroken, h.span]

/-! ## Chains -/

/-- The name `outer` holds `id` as its qualifier, and `id` records it as its parent. -/
def Qualifies (t : Tree) (id outer : NodeId) : Prop :=
  t.parent? id = some outer ∧ ∃ name, t.kind? outer = some (.qualifiedName id name)

theorem qualifies?_eq_some_iff {outer : NodeId} :
    t.qualifies? id = some outer ↔ t.Qualifies id outer := by
  rw [qualifies?, Option.filter_eq_some_iff, Qualifies]
  refine and_congr_right fun _ => ?_
  cases hk : t.kind? outer with
  | none => simp
  | some kind => cases kind <;> simp [eq_comm]

theorem Qualifies.unique {a b : NodeId} (ha : t.Qualifies id a) (hb : t.Qualifies id b) : a = b :=
  Option.some.inj (ha.1.symm.trans hb.1)

/-- A converted name is no qualified name any more. -/
theorem Exposes.qualifies_iff {names : List NodeId} (h : t.Exposes names t') {outer : NodeId} :
    t'.Qualifies id outer ↔ t.Qualifies id outer ∧ outer ∉ names := by
  rw [Qualifies, Qualifies, h.parent?]
  by_cases ho : outer ∈ names
  · obtain ⟨node, qualifier, name, -, -, hn'⟩ := h.exposed outer ho
    simp [ho, kind?, hn']
  · simp [ho, kind?, h.others outer ho]

/-- From a node on, each the qualifier of the next, distinct nodes as far as there are any. -/
structure QualifierChain (t : Tree) (id : NodeId) (chain : List NodeId) : Prop where
  head : chain.head? = some id
  nodup : chain.Nodup
  links : chain.IsChain t.Qualifies
  longest : ∀ last outer, chain.getLast? = some last → t.Qualifies last outer → outer ∈ chain

namespace QualifierChain

variable {before rest : List NodeId} {top : NodeId}

/-- Either the next node comes next, or there is none that is new. -/
theorem next (h : t.QualifierChain top (before ++ id :: rest)) :
    (∃ outer rest', rest = outer :: rest' ∧ t.Qualifies id outer ∧ outer ∉ before ++ [id]) ∨
      rest = [] ∧ ∀ outer, t.Qualifies id outer → outer ∈ before ++ [id] := by
  cases rest with
  | nil => exact .inr ⟨rfl, fun outer ho => h.longest id outer (by simp) ho⟩
  | cons outer rest' =>
    refine .inl ⟨outer, rest', rfl, (List.isChain_append_cons_cons.1 h.links).2.1, fun hm => ?_⟩
    have hnodup : ((before ++ [id]) ++ outer :: rest').Nodup := by simpa using h.nodup
    exact (List.nodup_append.1 hnodup).2.2 outer hm outer List.mem_cons_self rfl

theorem rest_unique (before : List NodeId) {rest₁ rest₂ : List NodeId}
    (h₁ : t.QualifierChain top (before ++ id :: rest₁))
    (h₂ : t.QualifierChain top (before ++ id :: rest₂)) : rest₁ = rest₂ := by
  induction rest₁ generalizing before id rest₂ with
  | nil =>
    rcases h₁.next with ⟨_, _, he, -⟩ | ⟨-, hlast⟩
    · cases he
    · rcases h₂.next with ⟨outer, _, -, ho, hnew⟩ | ⟨rfl, -⟩
      · exact absurd (hlast outer ho) hnew
      · rfl
  | cons a rest₁ ih =>
    rcases h₁.next with ⟨outer, _, he, ho, hnew⟩ | ⟨he, -⟩
    · obtain ⟨rfl, rfl⟩ := List.cons.inj he
      rcases h₂.next with ⟨b, rest₃, rfl, hb, -⟩ | ⟨-, hlast⟩
      · obtain rfl := ho.unique hb
        rw [List.append_cons] at h₁ h₂
        rw [ih _ h₁ h₂]
      · exact absurd (hlast a ho) hnew
    · cases he

theorem unique {chain₁ chain₂ : List NodeId} (h₁ : t.QualifierChain id chain₁)
    (h₂ : t.QualifierChain id chain₂) : chain₁ = chain₂ := by
  obtain ⟨rest₁, rfl⟩ := List.head?_eq_some_iff.1 h₁.head
  obtain ⟨rest₂, rfl⟩ := List.head?_eq_some_iff.1 h₂.head
  exact congrArg (id :: ·) (rest_unique [] h₁ h₂)

end QualifierChain

theorem Qualifies.lt_size {outer : NodeId} (h : t.Qualifies id outer) :
    id < t.size ∧ outer < t.size := by
  obtain ⟨hp, name, hk⟩ := h
  obtain ⟨node, hn, -⟩ := node?_of_parent? hp
  obtain ⟨node', hn', -⟩ := Option.map_eq_some_iff.1 hk
  exact ⟨(Array.getElem?_eq_some_iff.1 hn).1, (Array.getElem?_eq_some_iff.1 hn').1⟩

/-- Distinct nodes of which each qualifies the next go on until there is no further one, since there
are not more of them than nodes. -/
theorem exists_rest {top id : NodeId} (before : List NodeId) (depth : Nat)
    (hhead : (before ++ [id]).head? = some top) (hnodup : (before ++ [id]).Nodup)
    (hlinks : (before ++ [id]).IsChain t.Qualifies) (hlt : ∀ a ∈ before, a < t.size)
    (hdepth : t.size ≤ depth + before.length) :
    ∃ rest, t.QualifierChain top (before ++ id :: rest) ∧ rest.length ≤ depth := by
  by_cases hnext : ∃ outer, t.Qualifies id outer ∧ outer ∉ before ++ [id]
  · obtain ⟨outer, ho, hnew⟩ := hnext
    obtain ⟨hid, hout⟩ := ho.lt_size
    have hlt' : ∀ a ∈ before ++ [id], a < t.size := by
      intro a ha
      rcases List.mem_append.1 ha with ha | ha
      · exact hlt a ha
      · exact List.mem_singleton.1 ha ▸ hid
    have hnodup' : ((before ++ [id]) ++ [outer]).Nodup :=
      List.nodup_append.2 ⟨hnodup, List.nodup_singleton _, fun a ha b hb he =>
        hnew (List.mem_singleton.1 hb ▸ he ▸ ha)⟩
    cases depth with
    | zero =>
      have hlength := length_le_of_nodup hnodup' fun a ha => by
        rcases List.mem_append.1 ha with ha | ha
        · exact hlt' a ha
        · exact List.mem_singleton.1 ha ▸ hout
      simp only [List.length_append, List.length_singleton] at hlength
      omega
    | succ depth =>
      have hlinks' : ((before ++ [id]) ++ [outer]).IsChain t.Qualifies := by
        rw [List.append_assoc, List.singleton_append, List.isChain_append_cons_cons]
        exact ⟨hlinks, ho, List.isChain_singleton _⟩
      obtain ⟨rest, hchain, hlen⟩ := exists_rest (before ++ [id]) depth
        (by rw [List.head?_append, hhead, Option.some_or]) hnodup' hlinks' hlt'
        (by rw [List.length_append, List.length_singleton]; omega)
      rw [List.append_assoc] at hchain
      exact ⟨outer :: rest, hchain, Nat.succ_le_succ hlen⟩
  · refine ⟨[], ⟨hhead, hnodup, hlinks, fun last outer hl ho => ?_⟩, Nat.zero_le _⟩
    have hid : id = last := by simpa using hl
    by_contra hnew
    exact hnext ⟨outer, hid ▸ ho, hnew⟩

theorem exists_qualifierChain (t : Tree) (id : NodeId) :
    ∃ rest, t.QualifierChain id (id :: rest) ∧ rest.length ≤ t.size :=
  exists_rest [] t.size rfl (List.nodup_singleton id) (List.isChain_singleton id) (by simp)
    (Nat.le_add_right ..)

/-! ## The conversion -/

/-- The conversion without bound: converts a node and goes on with the name that it qualifies. -/
inductive Converts : Tree → NodeId → Tree → Except TreeError Unit → Prop where
  | fails {t : Tree} {id : NodeId} {e : TreeError} :
    t.convertOne id = .error e → Converts t id t (.error e)
  | last {t t' : Tree} {id : NodeId} :
    t.convertOne id = .ok t' → (∀ outer, ¬ t'.Qualifies id outer) → Converts t id t' (.ok ())
  | next {t t' t'' : Tree} {id outer : NodeId} {outcome : Except TreeError Unit} :
    t.convertOne id = .ok t' → t'.Qualifies id outer → Converts t' outer t'' outcome →
      Converts t id t'' outcome

/-- What became of a chain: all of it has been converted, or the nodes before the first that cannot
be. -/
inductive Outcome (t : Tree) (chain : List NodeId) (t' : Tree) : Except TreeError Unit → Prop where
  | whole : (∀ n ∈ chain, t.Convertible n) → t.Exposes chain t' → Outcome t chain t' (.ok ())
  | upTo {before after : List NodeId} {n : NodeId} {e : TreeError} :
    chain = before ++ n :: after → (∀ m ∈ before, t.Convertible m) → ¬ t.Convertible n →
      t'.Unconvertible n e → t.Exposes before t' → Outcome t chain t' (.error e)

theorem convertFrom_last {depth : Nat} (h : t.convertOne id = .ok t')
    (hlast : ∀ outer, ¬ t'.Qualifies id outer) : t.convertFrom (depth + 1) id = (t', .ok ()) := by
  have hnone : t'.qualifies? id = none :=
    Option.eq_none_iff_forall_ne_some.2 fun outer ho => hlast outer (qualifies?_eq_some_iff.1 ho)
  rw [convertFrom_succ h, hnone]

theorem convertFrom_next {outer : NodeId} {depth : Nat} (h : t.convertOne id = .ok t')
    (hnext : t'.Qualifies id outer) :
    t.convertFrom (depth + 1) id = t'.convertFrom depth outer := by
  rw [convertFrom_succ h, qualifies?_eq_some_iff.2 hnext]

/-- The rest of a chain after the names before have been converted. A name that the chain has gone
through is found again no more, since it is a member access by then. -/
theorem converts_rest {u : Tree} {top id : NodeId} {before rest : List NodeId}
    (hchain : t.QualifierChain top (before ++ id :: rest)) (hu : t.Exposes before u)
    (hbefore : ∀ n ∈ before, t.Convertible n) :
    ∃ t' outcome, u.Converts id t' outcome ∧
      (∀ depth, rest.length ≤ depth → u.convertFrom (depth + 1) id = (t', outcome)) ∧
      t.Outcome (before ++ id :: rest) t' outcome := by
  have hid : id ∉ before := fun hm =>
    (List.nodup_append.1 hchain.nodup).2.2 id hm id List.mem_cons_self rfl
  by_cases hconv : t.Convertible id
  · obtain ⟨qualifier, name, hk, hone⟩ :=
      convertOne_of_convertible ((hu.convertible_iff hid).2 hconv)
    have hu' := hu.expose hid hk
    have hbefore' : ∀ n ∈ before ++ [id], t.Convertible n := by
      intro n hn
      rcases List.mem_append.1 hn with hn | hn
      · exact hbefore n hn
      · exact List.mem_singleton.1 hn ▸ hconv
    generalize u.update id ({ · with kind := .fieldAccess qualifier name }) = u' at hone hu'
    rcases hchain.next with ⟨outer, rest', rfl, ho, hnew⟩ | ⟨rfl, hlast⟩
    · have hnext : u'.Qualifies id outer := hu'.qualifies_iff.2 ⟨ho, hnew⟩
      rw [List.append_cons] at hchain ⊢
      obtain ⟨t', outcome, hloop, hbound, hout⟩ := converts_rest hchain hu' hbefore'
      refine ⟨t', outcome, .next hone hnext hloop, fun depth hdepth => ?_, hout⟩
      rw [convertFrom_next hone hnext]
      cases depth with
      | zero => cases hdepth
      | succ depth => exact hbound depth (Nat.le_of_succ_le_succ hdepth)
    · have hend : ∀ outer, ¬ u'.Qualifies id outer := fun outer ho =>
        (hu'.qualifies_iff.1 ho).2 (hlast outer (hu'.qualifies_iff.1 ho).1)
      exact ⟨u', .ok (), .last hone hend, fun depth _ => convertFrom_last hone hend,
        .whole hbefore' hu'⟩
  · obtain ⟨e, hone, he⟩ := convertOne_of_not_convertible ((hu.convertible_iff hid).not.2 hconv)
    refine ⟨u, .error e, .fails hone, fun depth _ => ?_, .upTo rfl hbefore hconv he hu⟩
    rw [convertFrom, hone]
termination_by rest.length

/-- The conversion of a node goes up the one chain that starts there, and ends on every tree. Where
all nodes of the chain are qualified names over simple names, just these become member accesses over
the same children, so the nodes are listed as before and the check of links says the same. Otherwise
the first that is none is the error, and just the names before it have been converted. -/
theorem convertToFieldAccess_chain (t : Tree) (id : NodeId) :
    ∃ chain t' outcome,
      (t.QualifierChain id chain ∧ ∀ other, t.QualifierChain id other → other = chain) ∧
      t.convertToFieldAccess id = (t', outcome) ∧ t.Converts id t' outcome ∧
      ((∀ n ∈ chain, t.Convertible n) → outcome = .ok () ∧ t.Exposes chain t' ∧
        (∀ n, t'.descendants n = t.descendants n) ∧ t'.verifyLinks = t.verifyLinks) ∧
      ((∃ n ∈ chain, ¬ t.Convertible n) → ∃ before n after e, chain = before ++ n :: after ∧
        (∀ m ∈ before, t.Convertible m) ∧ ¬ t.Convertible n ∧ outcome = .error e ∧
        t'.Unconvertible n e ∧ t.Exposes before t') := by
  obtain ⟨rest, hchain, hlen⟩ := exists_qualifierChain t id
  obtain ⟨t', outcome, hloop, hbound, hout⟩ := converts_rest hchain (.nil t) (by simp)
  refine ⟨id :: rest, t', outcome, ⟨hchain, fun _ h => h.unique hchain⟩, hbound _ hlen, hloop,
    fun hall => ?_, fun ⟨n, hn, hne⟩ => ?_⟩
  · cases hout with
    | whole _ hexposes =>
      exact ⟨rfl, hexposes, descendants_congr hexposes.children hexposes.size, hexposes.verifyLinks⟩
    | @upTo before after n _ heq _ hne =>
      have hsplit : id :: rest = before ++ n :: after := heq
      have hn : n ∈ id :: rest := by rw [hsplit]; exact List.mem_append_right _ List.mem_cons_self
      exact absurd (hall n hn) hne
  · cases hout with
    | whole hall => exact absurd (hall n hn) hne
    | upTo heq hbefore hne he hexposes => exact ⟨_, _, _, _, heq, hbefore, hne, rfl, he, hexposes⟩

end ObjectLowering.Tree
