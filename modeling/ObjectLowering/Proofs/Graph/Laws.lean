import Mathlib.Data.Finset.Insert
import Mathlib.Data.Finset.Dedup
import ObjectLowering.Graph.Library
import ObjectLowering.Proofs.Graph.DepthFirst

/-!
# ObjectLowering.Proofs.Graph.Laws

What a graph library promises, and what the nodes are that a search gives.

* `Gives`: one call for the next node. It works off a stack, on which a node may stand several
  times, until a node is finished.
* `PostOrder.Lawful`, `GraphLibrary.Lawful`: the laws of a search and of a topological sort. They
  speak of the state of a search, which a library keeps in its own way.
* `Graph.acyclic_of_sorted`: a graph that can be sorted has no cycle.
* `Collects`: calls for the next node until there is none, and what they give.
* `Visits.collects`: the stack is worked off as a recursion visits the nodes on it.
* `PostOrder.Lawful.run_eq`: a search over all nodes gives them as the recursion finishes them.
-/

namespace ObjectLowering

open Relation DepthFirst

/-- There is an edge from one node to another. -/
def Graph.HasEdge (g : Graph) (source target : Nat) : Prop :=
  (source, target) ∈ g.edges

/-- All edges are between nodes. -/
def Graph.Bounded (g : Graph) : Prop :=
  ∀ source target, g.HasEdge source target → source < g.size ∧ target < g.size

theorem Graph.mem_targets {g : Graph} {i j : Nat} : j ∈ g.targets i ↔ g.HasEdge i j := by
  simp [targets, HasEdge]

theorem Graph.leads_targets (g : Graph) : Leads g.targets = g.HasEdge := by
  funext i j
  exact propext mem_targets

theorem Graph.Bounded.lt {g : Graph} (h : g.Bounded) (i : Nat) : ∀ j ∈ g.targets i, j < g.size :=
  fun j hj => (h i j (mem_targets.1 hj)).2

/-! ## Laws -/

/-- How far a search has come. The top of the stack is its first entry. -/
structure SearchState where
  stack : List Nat
  discovered : Finset Nat
  finished : Finset Nat

/-- From one state of a search to another, a call for the next node gives a node or none. -/
inductive Gives (g : Graph) : SearchState → Option Nat → SearchState → Prop where
  | done {discovered finished : Finset Nat} :
    Gives g ⟨[], discovered, finished⟩ none ⟨[], discovered, finished⟩
  /-- A node that is met for the first time stays on the stack. What it leads to is put above it, but
  for what has been discovered; what the first edge leads to is on top. -/
  | discover {i : Nat} {rest : List Nat} {discovered finished : Finset Nat} {node : Option Nat}
    {s' : SearchState} :
    i ∉ discovered →
      Gives g ⟨(g.targets i).filter (· ∉ insert i discovered) ++ i :: rest, insert i discovered,
        finished⟩ node s' →
      Gives g ⟨i :: rest, discovered, finished⟩ node s'
  /-- A node that has been finished since it was put on the stack is taken off. -/
  | drop {i : Nat} {rest : List Nat} {discovered finished : Finset Nat} {node : Option Nat}
    {s' : SearchState} :
    i ∈ discovered → i ∈ finished → Gives g ⟨rest, discovered, finished⟩ node s' →
      Gives g ⟨i :: rest, discovered, finished⟩ node s'
  /-- A node that is met for the second time is taken off and given. -/
  | finish {i : Nat} {rest : List Nat} {discovered finished : Finset Nat} :
    i ∈ discovered → i ∉ finished →
      Gives g ⟨i :: rest, discovered, finished⟩ (some i) ⟨rest, discovered, insert i finished⟩

/-- Only nodes of a graph are on the stack. -/
def SearchState.Within (g : Graph) (s : SearchState) : Prop :=
  ∀ i ∈ s.stack, i < g.size

/-- What is documented of a depth-first search in post-order, where `state` reads a search that is
under way. -/
structure PostOrder.Lawful (lib : PostOrder) (state : lib.Search → SearchState) : Prop where
  /-- A search that has not been started has discovered nothing. -/
  empty : ∀ g, state (lib.empty g) = ⟨[], ∅, ∅⟩
  /-- To move on, the nodes discovered and finished are kept, but the stack is cleared. -/
  moveTo : ∀ s i, state (lib.moveTo s i) = { state s with stack := [i] }
  /-- A call for the next node works off the stack, if there are only nodes of the graph on it. -/
  next : ∀ g s, g.Bounded → (state s).Within g →
    Gives g (state s) (lib.next g s).1 (state (lib.next g s).2)

/-- What is documented of a topological sort beside. -/
structure GraphLibrary.Lawful (lib : GraphLibrary) (state : lib.Search → SearchState) : Prop
    extends PostOrder.Lawful lib.toPostOrder state where
  /-- Nodes that are given have each node once, before those that its edges lead to. -/
  sorted : ∀ g nodes, g.Bounded → lib.toposort g = .ok nodes →
    nodes.Perm (List.range g.size) ∧ ∀ i j, g.HasEdge i j → [i, j].Sublist nodes
  /-- If no nodes are given, the node that is reported is on a cycle. -/
  cyclic : ∀ g i, g.Bounded → lib.toposort g = .error i → TransGen g.HasEdge i i

/-- Along edges, nodes that have been sorted come later and later. -/
theorem Graph.acyclic_of_sorted {g : Graph} {nodes : List Nat} (hnodup : nodes.Nodup)
    (hsorted : ∀ i j, g.HasEdge i j → [i, j].Sublist nodes) (i : Nat) :
    ¬ TransGen g.HasEdge i i := by
  have hstep {i j : Nat} (hij : g.HasEdge i j) : nodes.idxOf i < nodes.idxOf j := by
    obtain ⟨before, after, rfl, hi, hj⟩ := List.cons_sublist_iff.1 (hsorted i j hij)
    have hnew : j ∉ before := fun hm =>
      (List.nodup_append.1 hnodup).2.2 j hm j (List.singleton_sublist.1 hj) rfl
    rw [List.idxOf_append_of_mem hi, List.idxOf_append_of_notMem hnew]
    exact (List.idxOf_lt_length_iff.2 hi).trans_le (Nat.le_add_right _ _)
  have hrises {i j : Nat} (hreach : TransGen g.HasEdge i j) : nodes.idxOf i < nodes.idxOf j := by
    induction hreach with
    | single hij => exact hstep hij
    | tail _ hij ih => exact ih.trans (hstep hij)
  exact fun hback => Nat.lt_irrefl _ (hrises hback)

/-! ## Calls for the next node -/

variable {g : Graph} {s s' mid fin : SearchState} {node : Option Nat} {i : Nat}
  {given rest : List Nat} {discovered finished : Finset Nat}

namespace Gives

theorem unique (h : Gives g s node s') {other : Option Nat} {t : SearchState}
    (h' : Gives g s other t) : other = node ∧ t = s' := by
  induction h with
  | done =>
    cases h'
    exact ⟨rfl, rfl⟩
  | discover hnew _ ih =>
    cases h' with
    | discover _ h' => exact ih h'
    | drop hi _ _ => exact absurd hi hnew
    | finish hi _ => exact absurd hi hnew
  | drop hi hfinished _ ih =>
    cases h' with
    | discover hnew _ => exact absurd hi hnew
    | drop _ _ h' => exact ih h'
    | finish _ hnew => exact absurd hfinished hnew
  | finish hi hfinished =>
    cases h' with
    | discover hnew _ => exact absurd hi hnew
    | drop _ hf _ => exact absurd hf hfinished
    | finish _ _ => exact ⟨rfl, rfl⟩

theorem within (h : Gives g s node s') (hg : g.Bounded) (hs : s.Within g) : s'.Within g := by
  induction h with
  | done => exact hs
  | discover _ _ ih =>
    refine ih fun j hj => ?_
    rcases List.mem_append.1 hj with hj | hj
    · exact hg.lt _ j (List.mem_filter.1 hj).1
    · exact hs j hj
  | drop _ _ _ ih => exact ih fun j hj => hs j (List.mem_cons_of_mem _ hj)
  | finish _ _ => exact fun j hj => hs j (List.mem_cons_of_mem _ hj)

end Gives

/-- Calls for the next node give these nodes, and then none. -/
inductive Collects (g : Graph) : SearchState → List Nat → SearchState → Prop where
  | nil {s s' : SearchState} : Gives g s none s' → Collects g s [] s'
  | cons {s mid s' : SearchState} {i : Nat} {given : List Nat} :
    Gives g s (some i) mid → Collects g mid given s' → Collects g s (i :: given) s'

namespace Collects

/-- What a call does first, calls until there is no node do first. -/
theorem head (hstep : ∀ node t, Gives g mid node t → Gives g s node t)
    (h : Collects g mid given fin) : Collects g s given fin := by
  cases h with
  | nil hnone => exact .nil (hstep _ _ hnone)
  | cons hsome hrest => exact .cons (hstep _ _ hsome) hrest

theorem discover (hnew : i ∉ discovered)
    (h : Collects g ⟨(g.targets i).filter (· ∉ insert i discovered) ++ i :: rest,
      insert i discovered, finished⟩ given fin) :
    Collects g ⟨i :: rest, discovered, finished⟩ given fin :=
  h.head fun _ _ => .discover hnew

theorem drop (hi : i ∈ discovered) (hfinished : i ∈ finished)
    (h : Collects g ⟨rest, discovered, finished⟩ given fin) :
    Collects g ⟨i :: rest, discovered, finished⟩ given fin :=
  h.head fun _ _ => .drop hi hfinished

theorem finish (hi : i ∈ discovered) (hfinished : i ∉ finished)
    (h : Collects g ⟨rest, discovered, insert i finished⟩ given fin) :
    Collects g ⟨i :: rest, discovered, finished⟩ (i :: given) fin :=
  .cons (.finish hi hfinished) h

end Collects

/-! ## The stack and the recursion -/

/-- A recursion that has come so far, as a search with a stack. -/
def DepthFirst.Progress.onStack (s : Progress) (stack : List Nat) : SearchState :=
  ⟨stack, s.discovered.toFinset, s.finished.toFinset⟩

/-- Nodes were put on a stack but for some, all of which have been discovered; those on it have
either not been discovered since, or have been finished too. -/
structure Pushed (kept l : List Nat) (s : Progress) : Prop where
  known : kept ⊆ s.discovered
  finished : ∀ i ∈ l, i ∉ kept → i ∈ s.discovered → i ∈ s.finished

namespace Pushed

variable {next : Nat → List Nat} {kept l visited : List Nat} {s s' : Progress} {i : Nat}

theorem of_cons (h : Pushed kept (i :: l) s) : Pushed kept l s :=
  ⟨h.known, fun j hj => h.finished j (List.mem_cons_of_mem _ hj)⟩

/-- A visit to one node does not change what is said of the others. -/
theorem visits (h : Pushed kept l s) (hvisits : Visits next s visited s') :
    Pushed kept l s' where
  known _ ha := hvisits.discovered_mono (h.known ha)
  finished j hj hkept hdiscovered := by
    by_contra hfinished
    obtain ⟨hactive, hnot⟩ := hvisits.active ⟨hdiscovered, hfinished⟩
    exact hnot (h.finished j hj hkept hactive)

end Pushed

/-- While a recursion visits nodes, a search works them off its stack, and gives the nodes that the
recursion finishes. -/
theorem DepthFirst.Visits.collects {l : List Nat} {s s' : Progress}
    (h : Visits g.targets s l s') (hs : s.finished ⊆ s.discovered) {kept : List Nat}
    (hkept : Pushed kept l s) (hrest : Collects g (s'.onStack rest) given fin) :
    ∃ added, s'.finished = added.reverse ++ s.finished ∧
      Collects g (s.onStack (l.filter (· ∉ kept) ++ rest)) (added ++ given) fin := by
  induction h generalizing kept rest given with
  | nil => exact ⟨[], rfl, hrest⟩
  | @skip s s' i l hi _ ih =>
    obtain ⟨added, hadded, hcollects⟩ := ih hs hkept.of_cons hrest
    refine ⟨added, hadded, ?_⟩
    by_cases hik : i ∈ kept
    · rwa [List.filter_cons_of_neg (by simpa using hik)]
    · rw [List.filter_cons_of_pos (by simpa using hik)]
      have hfinished : i ∈ s.finished := hkept.finished i List.mem_cons_self hik hi
      exact hcollects.drop (List.mem_toFinset.2 hi) (List.mem_toFinset.2 hfinished)
  | @enter s mid s' i l hnew hbelow hafter ihbelow ihafter =>
    have hik : i ∉ kept := fun hm => hnew (hkept.known hm)
    have hentered : s.finished ⊆ i :: s.discovered := fun a ha => List.mem_cons_of_mem _ (hs ha)
    have hactive : mid.Active i :=
      hbelow.active_mono ⟨List.mem_cons_self, fun hm => hnew (hs hm)⟩
    have hmid : i :: mid.finished ⊆ mid.discovered :=
      List.cons_subset.2 ⟨hactive.1, hbelow.finished_discovered hentered⟩
    have hlater := hkept.of_cons.visits (.enter hnew hbelow .nil)
    obtain ⟨after, hafter, hcollects⟩ := ihafter hmid hlater hrest
    have hfinish : Collects g (mid.onStack (i :: (l.filter (· ∉ kept) ++ rest)))
        (i :: (after ++ given)) fin := by
      refine .finish (List.mem_toFinset.2 hactive.1) (mt List.mem_toFinset.1 hactive.2) ?_
      rwa [← List.toFinset_cons]
    have hpushed : Pushed (i :: s.discovered) (g.targets i)
        { s with discovered := i :: s.discovered } :=
      ⟨List.Subset.refl _, fun j _ hj hd => absurd hd hj⟩
    obtain ⟨below, hbelow, hcollects⟩ := ihbelow hentered hpushed hfinish
    refine ⟨below ++ i :: after, by simp [hafter, hbelow], ?_⟩
    rw [List.filter_cons_of_pos (by simpa using hik), List.append_assoc]
    refine .discover (mt List.mem_toFinset.1 hnew) ?_
    simpa [Progress.onStack] using hcollects

/-! ## A search over all nodes -/

namespace PostOrder

variable {lib : PostOrder} {state : lib.Search → SearchState} {order : List Nat}

/-- What a search gives is what its state says, as long as the limit is not met. -/
theorem Lawful.collect_eq (hlib : lib.Lawful state) (hg : g.Bounded) {t : SearchState}
    (h : Collects g t given fin) {limit : Nat} (hlimit : given.length < limit) {s : lib.Search}
    (hs : (state s).Within g) (ht : state s = t) :
    ∃ s', lib.collect g limit (order, s) = (order ++ given, s') ∧ state s' = fin := by
  induction h generalizing s order limit with
  | nil hnone =>
    obtain ⟨limit, rfl⟩ := Nat.exists_eq_add_one_of_ne_zero (Nat.ne_zero_of_lt hlimit)
    obtain ⟨hnode, hfin⟩ := (ht ▸ hnone).unique (hlib.next g s hg hs)
    refine ⟨(lib.next g s).2, ?_, hfin⟩
    rw [collect, ← Prod.mk.eta (p := lib.next g s), hnode, List.append_nil]
  | @cons _ mid _ i given hsome _ ih =>
    obtain ⟨limit, rfl⟩ := Nat.exists_eq_add_one_of_ne_zero (Nat.ne_zero_of_lt hlimit)
    have hgives := hlib.next g s hg hs
    obtain ⟨hnode, hmid⟩ := (ht ▸ hsome).unique hgives
    obtain ⟨s', hcollect, hfin⟩ :=
      ih (Nat.lt_of_succ_lt_succ hlimit) (hgives.within hg hs) hmid
    refine ⟨s', ?_, hfin⟩
    rw [collect, ← Prod.mk.eta (p := lib.next g s), hnode]
    exact hcollect.trans (by rw [List.append_assoc]; rfl)

/-- A search that is moved to a node gives what a visit to the node finishes. -/
theorem Lawful.collectFrom_eq (hlib : lib.Lawful state) (hg : g.Bounded) {s : lib.Search}
    {p p' : Progress} {stack : List Nat} (hs : state s = p.onStack stack)
    (hvisits : Visits g.targets p [i] p') (hi : i < g.size) (hp : p.finished ⊆ p.discovered)
    (hidle : ∀ a, ¬ p.Active a) :
    ∃ s', lib.collectFrom g (p.finished.reverse, s) i = (p'.finished.reverse, s') ∧
      state s' = p'.onStack [] := by
  have hpushed : Pushed [] [i] p :=
    ⟨List.nil_subset _, fun j _ _ hj => by_contra fun hn => hidle j ⟨hj, hn⟩⟩
  have hend : Collects g (p'.onStack []) [] (p'.onStack []) := .nil .done
  obtain ⟨added, hadded, hcollects⟩ := hvisits.collects hp hpushed hend
  have hmoved : state (lib.moveTo s i) = p.onStack [i] := by
    rw [hlib.moveTo, hs]
    rfl
  -- the nodes that are given differ, so the limit leaves room for them
  have hlength : added.length < g.size + 1 := by
    obtain ⟨l, hl⟩ := hvisits.advances hg.lt (by simpa using hi)
    obtain rfl : l = added.reverse := List.append_cancel_right (hl.finished.symm.trans hadded)
    have hsubset : added.reverse ⊆ List.range g.size := fun j hj => List.mem_range.2 (hl.lt j hj)
    simpa [Nat.lt_succ_iff] using hl.nodup.length_le_of_subset hsubset
  have hwithin : (state (lib.moveTo s i)).Within g := by
    rw [hmoved]
    exact fun j hj => List.mem_singleton.1 hj ▸ hi
  have hcollects : Collects g (p.onStack [i]) added (p'.onStack []) := by
    simpa only [List.not_mem_nil, not_false_eq_true, decide_true, List.filter_true,
      List.append_nil] using hcollects
  obtain ⟨s', hcollect, hfin⟩ := hlib.collect_eq hg hcollects hlength hwithin hmoved
  exact ⟨s', by rw [collectFrom, hcollect, hadded, List.reverse_append, List.reverse_reverse], hfin⟩

/-- Between one node and the next, nothing is under way. -/
theorem Lawful.foldl_collect (hlib : lib.Lawful state) (hg : g.Bounded) {s : lib.Search}
    {p p' : Progress} {stack nodes : List Nat} (hs : state s = p.onStack stack)
    (hvisits : Visits g.targets p nodes p') (hnodes : ∀ i ∈ nodes, i < g.size)
    (hp : p.finished ⊆ p.discovered) (hidle : ∀ a, ¬ p.Active a) :
    ∃ s' stack', nodes.foldl (lib.collectFrom g) (p.finished.reverse, s) =
      (p'.finished.reverse, s') ∧ state s' = p'.onStack stack' := by
  induction nodes generalizing s p stack with
  | nil =>
    cases hvisits
    exact ⟨s, stack, rfl, hs⟩
  | cons i nodes ih =>
    obtain ⟨hi, hnodes⟩ := List.forall_mem_cons.1 hnodes
    obtain ⟨mid, hfirst, hrest⟩ := Visits.split (l := [i]) hvisits
    obtain ⟨s', hcollect, hs'⟩ := hlib.collectFrom_eq hg hs hfirst hi hp hidle
    rw [List.foldl_cons, hcollect]
    exact ih hs' hrest hnodes (hfirst.finished_discovered hp) fun a ha => hidle a (hfirst.active ha)

/-- A search over all nodes gives them in the order in which a recursion finishes them. -/
theorem Lawful.run_eq (hlib : lib.Lawful state) (hg : g.Bounded) {p : Progress}
    (hvisits : Visits g.targets {} (List.range g.size) p) :
    (lib.run g).1 = p.finished.reverse ∧ ∃ stack, state (lib.run g).2 = p.onStack stack := by
  obtain ⟨s', stack, hrun, hs'⟩ := hlib.foldl_collect hg (hlib.empty g) hvisits
    (fun _ => List.mem_range.1) (List.nil_subset _) fun _ ha => List.not_mem_nil ha.1
  have hrun : lib.run g = (p.finished.reverse, s') := hrun
  rw [hrun]
  exact ⟨rfl, stack, hs'⟩

end PostOrder

end ObjectLowering
