import ObjectLowering.Proofs.Graph.StackSearch
import ObjectLowering.Unit.TypeOrder

/-!
# ObjectLowering.Proofs.Unit.TypeOrder

The graph of the types of a unit, and the order that a lawful library makes of it.

* `position?`: where the type with a hash stands. `supertypes`: the positions of the supertypes of a
  type.
* `targets_graph`: the edges of a type lead to its supertypes.
* `orderWith_eq_ok`: an order has every type once, and a supertype always before its subtypes.
* `orderWith_eq_error`: a type that is reported leads back to itself.
-/

namespace ObjectLowering.TypeOrder

open Relation DepthFirst

/-- The position of the type with a hash, the last one if there are several. -/
def position? (types : List Entry) (hash : TypeHash) : Option Nat :=
  (addNodes types).2.get? hash

/-- The positions of the supertypes of a type that are among `types`, superclass first. -/
def supertypes (types : List Entry) (index : Nat) : List Nat :=
  match types[index]? with
  | some entry => entry.binding.supertypes.filterMap (position? types)
  | none => []

variable {types : List Entry} {i j : Nat} {hash : TypeHash}

/-! ## Positions -/

theorem position?_concat (types : List Entry) (entry : Entry) (hash : TypeHash) :
    position? (types ++ [entry]) hash =
      if hash = entry.binding.hash then some types.length else position? types hash := by
  have hadded : addNodes (types ++ [entry]) = addNode (addNodes types) entry := by
    rw [addNodes, List.foldl_concat]
    rfl
  have hsize : (addNodes types).1.size = types.length := by
    rw [addNodes, fst_foldl_addNode]
    exact Nat.zero_add _
  rw [position?, hadded, ← hsize]
  exact Index.get?_insert ..

theorem position?_eq_some (h : position? types hash = some i) :
    ∃ entry, types[i]? = some entry ∧ entry.binding.hash = hash := by
  induction types using List.reverseRecOn with
  | nil => cases h
  | append_singleton types entry ih =>
    rw [position?_concat] at h
    split at h
    · rename_i hhash
      cases h
      exact ⟨entry, List.getElem?_concat_length, hhash.symm⟩
    · obtain ⟨earlier, hearlier, hhash⟩ := ih h
      have hlt : i < types.length := (List.getElem?_eq_some_iff.1 hearlier).1
      exact ⟨earlier, by rw [List.getElem?_append_left hlt, hearlier], hhash⟩

theorem isSome_position? {entry : Entry} (h : entry ∈ types) (hhash : entry.binding.hash = hash) :
    ∃ i, position? types hash = some i := by
  induction types using List.reverseRecOn with
  | nil => cases h
  | append_singleton types last ih =>
    rw [position?_concat]
    split
    · exact ⟨types.length, rfl⟩
    · rename_i hlast
      refine ih ((List.mem_append.1 h).resolve_right fun hm => hlast ?_)
      rw [← hhash, List.mem_singleton.1 hm]

theorem lt_of_mem_supertypes (h : j ∈ supertypes types i) : j < types.length := by
  unfold supertypes at h
  split at h
  · obtain ⟨x, -, hx⟩ := List.mem_filterMap.1 h
    obtain ⟨entry, hentry, -⟩ := position?_eq_some hx
    exact (List.getElem?_eq_some_iff.1 hentry).1
  · cases h

theorem lt_of_supertypes (h : j ∈ supertypes types i) : i < types.length := by
  unfold supertypes at h
  split at h
  · rename_i hentry
    exact (List.getElem?_eq_some_iff.1 hentry).1
  · cases h

/-! ## The graph -/

/-- The edges of the types up to one come before its own. -/
theorem targets_edges (nodes : Index TypeHash) (types : List Entry) (size i : Nat) :
    Graph.targets ⟨size, types.zipIdx.flatMap (edgesOf nodes)⟩ i =
      match types[i]? with
      | some entry => entry.binding.supertypes.filterMap nodes.get?
      | none => [] := by
  induction types using List.reverseRecOn with
  | nil => rfl
  | append_singleton types entry ih =>
    have hlast : ((edgesOf nodes (entry, types.length)).filter (·.1 = i)).map (·.2) =
        if types.length = i then entry.binding.supertypes.filterMap nodes.get? else [] := by
      rw [edgesOf, List.filter_map, List.map_map]
      split
      · rename_i hi
        simp [Function.comp_def, hi]
      · rename_i hi
        simp [Function.comp_def, hi]
    rw [Graph.targets] at ih ⊢
    rw [List.zipIdx_append, List.flatMap_append, List.filter_append, List.map_append, ih]
    simp only [List.zipIdx_cons, List.zipIdx_nil, List.flatMap_singleton, Nat.zero_add, hlast]
    rcases Nat.lt_trichotomy i types.length with hi | rfl | hi
    · simp [List.getElem?_append_left hi, hi.ne']
    · simp
    · have hlength : (types ++ [entry]).length ≤ i := by simpa using Nat.succ_le_of_lt hi
      simp [List.getElem?_eq_none hi.le, List.getElem?_eq_none hlength, hi.ne]

theorem targets_graph (types : List Entry) : (graph types).targets = supertypes types := by
  funext i
  rw [graph_eq, targets_edges]
  rfl

theorem hasEdge_graph (types : List Entry) : (graph types).HasEdge = Leads (supertypes types) := by
  rw [← Graph.leads_targets, targets_graph]

theorem bounded_graph (types : List Entry) : (graph types).Bounded := by
  intro i j hij
  rw [hasEdge_graph] at hij
  rw [size_graph]
  exact ⟨lt_of_supertypes hij, lt_of_mem_supertypes hij⟩

/-! ## The order -/

variable {lib : GraphLibrary} {state : lib.Search → SearchState} {positions : List Nat}

/-- The search over the graph gives the types as visits to their supertypes finish them. -/
theorem run_graph (hlib : lib.Lawful state) (types : List Entry) :
    ∃ s, Visits (supertypes types) {} (List.range types.length) s ∧
      (lib.run (graph types)).1 = s.finished.reverse := by
  have hg := bounded_graph types
  obtain ⟨s, hvisits⟩ := exists_visits hg.lt {} (l := List.range (graph types).size)
    fun _ => List.mem_range.1
  refine ⟨s, ?_, (hlib.run_eq hg hvisits).1⟩
  rwa [← targets_graph, ← size_graph]

theorem orderWith_eq_error (hlib : lib.Lawful state) {e : GenerationError}
    (h : orderWith lib types = .error e) :
    ∃ i entry, types[i]? = some entry ∧ TransGen (Leads (supertypes types)) i i ∧
      e = .cyclicSupertypes entry.binding.name.text entry.span := by
  unfold orderWith at h
  split at h
  · rename_i node hcycle
    cases h
    have hback := hlib.cyclic _ _ (bounded_graph types) hcycle
    rw [hasEdge_graph] at hback
    exact ⟨node, _, List.getElem?_eq_getElem (node.cast (size_graph types)).isLt, hback, rfl⟩
  · cases h

/-- There is an order if the sort finds no cycle, and then it is that of the search. -/
theorem orderWith_eq_ok_iff : orderWith lib types = .ok positions ↔
    (∃ nodes, lib.toposort (graph types) = .ok nodes) ∧
      (lib.run (graph types)).1 = positions := by
  unfold orderWith
  split
  · rename_i hcycle
    simp [hcycle]
  · rename_i nodes hnodes
    simp [hnodes]

theorem acyclic_of_orderWith (hlib : lib.Lawful state) (h : orderWith lib types = .ok positions)
    (i : Nat) : ¬ TransGen (Leads (supertypes types)) i i := by
  obtain ⟨⟨nodes, hnodes⟩, -⟩ := orderWith_eq_ok_iff.1 h
  obtain ⟨hperm, hsorted⟩ := hlib.sorted _ _ (bounded_graph types) hnodes
  rw [← hasEdge_graph]
  exact Graph.acyclic_of_sorted (hperm.nodup_iff.2 List.nodup_range) hsorted i

/-- An order of the types has each of them once, and a supertype always before its subtypes: one
that the search had not finished by then would lead back to the subtype. -/
theorem orderWith_eq_ok (hlib : lib.Lawful state) (h : orderWith lib types = .ok positions) :
    positions.Perm (List.range types.length) ∧
      ∀ before i after, positions = before ++ i :: after → ∀ j ∈ supertypes types i, j ∈ before := by
  obtain ⟨s, hvisits, hrun⟩ := run_graph hlib types
  obtain ⟨-, hpositions⟩ := orderWith_eq_ok_iff.1 h
  have hreverse : positions.reverse = s.finished := by rw [← hpositions, hrun, List.reverse_reverse]
  obtain ⟨hperm, -⟩ := hvisits.finished_perm fun _ _ => lt_of_mem_supertypes
  refine ⟨(List.reverse_perm _).symm.trans (hreverse ▸ hperm), fun before i after hsplit j hj => ?_⟩
  have hsettled : Settled (supertypes types) (after.reverse ++ i :: before.reverse) := by
    have hfinished : s.finished = after.reverse ++ i :: before.reverse := by
      rw [← hreverse, hsplit]
      simp
    exact hfinished ▸ hvisits.settled (.start _ _) trivial
  rcases hsettled.of_append.1 j hj with hbefore | hback
  · exact List.mem_reverse.1 hbefore
  · exact absurd (.head' hj hback) (acyclic_of_orderWith hlib h i)

theorem order_eq_ok (h : order types = .ok positions) :
    positions.Perm (List.range types.length) ∧
      ∀ before i after, positions = before ++ i :: after → ∀ j ∈ supertypes types i, j ∈ before :=
  orderWith_eq_ok StackSearch.lawful h

end ObjectLowering.TypeOrder
