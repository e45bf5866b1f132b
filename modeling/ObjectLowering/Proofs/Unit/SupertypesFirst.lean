import Mathlib.Order.Bounds.Basic
import ObjectLowering.Proofs.Unit.TypeOrder

/-!
# ObjectLowering.Proofs.Unit.SupertypesFirst

The order of the types of a unit, said without a search.

* `LocalSupertype`: one type of a list names another as superclass or interface.
* `Emits`: types are emitted in turn, each after its supertypes, unless they have been emitted. The
  relation holds of at most one outcome (`Emits.unique`), and of none where a type is on a cycle.
* `emits_of_visits`: without cycles, a depth-first search finishes the types in that order.
* `Emits.mem_iff`: emitted is what some type of the list leads to, so the order follows the first of
  them (`Emits.sublist_of_earlier`).
* `order_spec`: there is an order just if there is no cycle, and it is that of `Emits`.
-/

namespace ObjectLowering.TypeOrder

open Relation DepthFirst

section Emission

variable {next : Nat → List Nat} {out out' mid l l' a b : List Nat} {i j n : Nat}

/-- With `out` emitted before, the types of a list and all they lead to are emitted, each after what
it leads to. -/
inductive Emits (next : Nat → List Nat) : List Nat → List Nat → List Nat → Prop where
  | done {out : List Nat} : Emits next out [] out
  | skip {out out' : List Nat} {i : Nat} {rest : List Nat} :
    i ∈ out → Emits next out rest out' → Emits next out (i :: rest) out'
  | emit {out mid out' : List Nat} {i : Nat} {rest : List Nat} :
    i ∉ out → Emits next out (next i) mid → Emits next (mid ++ [i]) rest out' →
      Emits next out (i :: rest) out'

namespace Emits

theorem unique (h : Emits next out l a) (h' : Emits next out l b) : a = b := by
  induction h generalizing b with
  | done =>
    cases h' with
    | done => rfl
  | skip hi _ ih =>
    cases h' with
    | skip _ hrest => exact ih hrest
    | emit hnew _ _ => exact absurd hi hnew
  | emit hnew _ _ ihbelow ihrest =>
    cases h' with
    | skip hi _ => exact absurd hi hnew
    | emit _ hbelow hrest =>
      cases ihbelow hbelow
      exact ihrest hrest

theorem append (h : Emits next out l mid) (h' : Emits next mid l' out') :
    Emits next out (l ++ l') out' := by
  induction h with
  | done => exact h'
  | skip hi _ ih => exact .skip hi (ih h')
  | emit hnew hbelow _ _ ih => exact .emit hnew hbelow (ih h')

theorem split (h : Emits next out (l ++ l') out') :
    ∃ mid, Emits next out l mid ∧ Emits next mid l' out' := by
  induction l generalizing out with
  | nil => exact ⟨out, .done, h⟩
  | cons i l ih =>
    cases h with
    | skip hi hrest =>
      obtain ⟨mid, hl, hl'⟩ := ih hrest
      exact ⟨mid, .skip hi hl, hl'⟩
    | emit hnew hbelow hrest =>
      obtain ⟨mid, hl, hl'⟩ := ih hrest
      exact ⟨mid, .emit hnew hbelow hl, hl'⟩

theorem of_subset (h : l ⊆ out) : Emits next out l out := by
  induction l with
  | nil => exact .done
  | cons i l ih =>
    obtain ⟨hi, hl⟩ := List.cons_subset.1 h
    exact .skip hi (ih hl)

theorem isPrefix (h : Emits next out l out') : out <+: out' := by
  induction h with
  | done => exact List.prefix_rfl
  | skip _ _ ih => exact ih
  | emit _ _ _ ihbelow ihrest => exact (ihbelow.trans (List.prefix_append _ _)).trans ihrest

/-- Where everything leads to what comes before it, the order is kept. -/
theorem range (h : ∀ i, ∀ j ∈ next i, j < i) (n : Nat) :
    Emits next [] (List.range n) (List.range n) := by
  induction n with
  | zero => exact .done
  | succ n ih =>
    rw [List.range_succ]
    refine ih.append (.emit List.not_mem_range_self (of_subset fun j hj => ?_) .done)
    exact List.mem_range.2 (h n j hj)

end Emits

/-! ## What has been emitted -/

/-- What the members of a list lead to is among them. -/
def Closed (next : Nat → List Nat) (out : List Nat) : Prop :=
  ∀ i ∈ out, next i ⊆ out

theorem Closed.of_reflTransGen (h : Closed next out) (hi : i ∈ out)
    (hreach : ReflTransGen (Leads next) i j) : j ∈ out := by
  induction hreach with
  | refl => exact hi
  | tail _ hstep ih => exact h _ ih hstep

/-- Emission adds to the emitted types just those that the types of the list lead to. -/
theorem Emits.mem_iff (h : Emits next out l out') (hclosed : Closed next out) :
    Closed next out' ∧
      ∀ j, j ∈ out' ↔ j ∈ out ∨ ∃ i ∈ l, ReflTransGen (Leads next) i j := by
  induction h with
  | done => exact ⟨hclosed, by simp⟩
  | @skip out out' i rest hi _ ih =>
    obtain ⟨hclosed', hmem⟩ := ih hclosed
    refine ⟨hclosed', fun j => ?_⟩
    have hreached : ReflTransGen (Leads next) i j → j ∈ out := hclosed.of_reflTransGen hi
    simp only [hmem, List.exists_mem_cons_iff]
    tauto
  | @emit out mid out' i rest hnew _ _ ihbelow ihrest =>
    obtain ⟨hclosedMid, hmid⟩ := ihbelow hclosed
    have hclosedNext : Closed next (mid ++ [i]) := by
      intro k hk j hj
      refine List.mem_append_left _ ?_
      rcases List.mem_append.1 hk with hk | hk
      · exact hclosedMid k hk hj
      · rw [List.mem_singleton.1 hk] at hj
        exact (hmid j).2 (.inr ⟨j, hj, .refl⟩)
    obtain ⟨hclosed', hmem⟩ := ihrest hclosedNext
    refine ⟨hclosed', fun j => ?_⟩
    have hstep : ReflTransGen (Leads next) i j ↔
        (∃ k ∈ next i, ReflTransGen (Leads next) k j) ∨ j = i := by
      rw [ReflTransGen.cases_head_iff, or_comm, eq_comm]
      rfl
    simp only [hmem, List.mem_append, List.mem_singleton, hmid, List.exists_mem_cons_iff, hstep,
      or_assoc]

theorem closed_nil (next : Nat → List Nat) : Closed next [] :=
  fun _ hi => absurd hi List.not_mem_nil

/-- A type stands where the first type stands that leads to it: one whose first comes earlier goes
before the other. -/
theorem Emits.sublist_of_earlier (h : Emits next [] (List.range n) out) {i j first second : Nat}
    (hfirst : ReflTransGen (Leads next) first i)
    (hsecond : IsLeast {k | ReflTransGen (Leads next) k j} second) (hlt : first < second)
    (hj : j < n) : [i, j].Sublist out := by
  obtain ⟨rest, hn⟩ := Nat.exists_eq_add_of_le (hlt.trans_le ((hsecond.2 .refl).trans hj.le))
  have hrange : List.range n = List.range (first + 1) ++ (List.range rest).map (first + 1 + ·) := by
    rw [hn, ← List.range_add]
  rw [hrange] at h
  obtain ⟨mid, hmid, hrest⟩ := h.split
  obtain ⟨-, hmem⟩ := hmid.mem_iff (closed_nil next)
  obtain ⟨tail, rfl⟩ := hrest.isPrefix
  have hi : i ∈ mid := (hmem i).2 (.inr ⟨first, List.self_mem_range_succ, hfirst⟩)
  have hjmid : j ∉ mid := by
    intro hjmid
    obtain ⟨k, hk, hreach⟩ := ((hmem j).1 hjmid).resolve_left List.not_mem_nil
    have hle : second ≤ k := hsecond.2 hreach
    rw [List.mem_range] at hk
    omega
  have hjout : j ∈ mid ++ tail := by
    refine ((h.mem_iff (closed_nil next)).2 j).2 (.inr ⟨j, ?_, .refl⟩)
    rw [← hrange]
    exact List.mem_range.2 hj
  have hjtail : j ∈ tail := (List.mem_append.1 hjout).resolve_left hjmid
  exact (List.singleton_sublist.2 hi).append (List.singleton_sublist.2 hjtail)

/-! ## The search emits -/

/-- Without cycles nothing that is visited is under way, so what has been discovered has been
finished. -/
theorem emits_of_visits {s s' : Progress} (hacyclic : ∀ i, ¬ TransGen (Leads next) i i)
    (h : Visits next s l s') (hleading : Leading next s l) (hs : s.finished ⊆ s.discovered) :
    Emits next s.finished.reverse l s'.finished.reverse := by
  induction h with
  | nil => exact .done
  | @skip s s' i rest hi hrest ih =>
    refine .skip (List.mem_reverse.2 ?_) (ih hleading.of_cons hs)
    by_contra hfinished
    exact hacyclic i (hleading i ⟨hi, hfinished⟩ i List.mem_cons_self)
  | @enter s mid s' i rest hnew hbelow hrest ihbelow ihrest =>
    have hentered : s.finished ⊆ i :: s.discovered := fun a ha => List.mem_cons_of_mem _ (hs ha)
    refine .emit (fun hi => hnew (hs (List.mem_reverse.1 hi))) (ihbelow hleading.enter hentered) ?_
    rw [← List.reverse_cons]
    refine ihrest (hleading.leave hnew hbelow) (List.cons_subset.2 ⟨?_, ?_⟩)
    · exact hbelow.discovered_mono List.mem_cons_self
    · exact hbelow.finished_discovered hentered

end Emission

/-! ## Types -/

variable {types : List Entry} {i j : Nat} {positions : List Nat}

/-- The type at one position has the type at the other as its superclass or as an interface. -/
def LocalSupertype (types : List Entry) (i j : Nat) : Prop :=
  ∃ sub sup, types[i]? = some sub ∧ types[j]? = some sup ∧
    sup.binding.hash ∈ sub.binding.superclass.toList ++ sub.binding.interfaces

/-- For each supertype of a type, the superclass first, the positions of the types that it names. -/
def localSupertypes (types : List Entry) (i : Nat) : List Nat :=
  match types[i]? with
  | some entry =>
    (entry.binding.superclass.toList ++ entry.binding.interfaces).flatMap fun hash =>
      (List.range types.length).filter fun j => types[j]?.any (·.binding.hash = hash)
  | none => []

theorem mem_localSupertypes : j ∈ localSupertypes types i ↔ LocalSupertype types i j := by
  unfold localSupertypes LocalSupertype
  cases hi : types[i]? with
  | none => simp
  | some sub =>
    simp only [List.mem_flatMap, List.mem_filter, List.mem_range, Option.any_eq_true,
      decide_eq_true_eq]
    constructor
    · rintro ⟨hash, hm, -, sup, hsup, rfl⟩
      exact ⟨sub, sup, rfl, hsup, hm⟩
    · rintro ⟨_, sup, ⟨⟩, hsup, hm⟩
      exact ⟨_, hm, (List.getElem?_eq_some_iff.1 hsup).1, sup, hsup, rfl⟩

/-- Where hashes are distinct, a hash has one position. -/
theorem eq_of_hash (hdistinct : (types.map (·.binding.hash)).Nodup) {x y : Entry}
    (hx : types[i]? = some x) (hy : types[j]? = some y) (h : x.binding.hash = y.binding.hash) :
    i = j := by
  have hi : (types.map (·.binding.hash))[i]? = some y.binding.hash := by simp [hx, h]
  have hj : (types.map (·.binding.hash))[j]? = some y.binding.hash := by simp [hy]
  exact (List.getElem?_inj (List.getElem?_eq_some_iff.1 hi).1 hdistinct).1 (hi.trans hj.symm)

theorem toList_position? (hdistinct : (types.map (·.binding.hash)).Nodup) (hash : TypeHash) :
    (position? types hash).toList =
      (List.range types.length).filter fun j => types[j]?.any (·.binding.hash = hash) := by
  cases hp : position? types hash with
  | none =>
    symm
    rw [Option.toList_none, List.filter_eq_nil_iff]
    intro j _ hany
    obtain ⟨entry, hentry, hh⟩ := Option.any_eq_true _ _ |>.1 hany
    obtain ⟨k, hk⟩ := isSome_position? (List.mem_of_getElem? hentry) (of_decide_eq_true hh)
    rw [hp] at hk
    cases hk
  | some k =>
    obtain ⟨entry, hk, rfl⟩ := position?_eq_some hp
    have hlt : k < types.length := (List.getElem?_eq_some_iff.1 hk).1
    have hcongr : ∀ j ∈ List.range types.length,
        types[j]?.any (·.binding.hash = entry.binding.hash) = (j == k) := by
      intro j _
      rw [Bool.eq_iff_iff, beq_iff_eq, Option.any_eq_true]
      constructor
      · rintro ⟨other, hj, hh⟩
        exact eq_of_hash hdistinct hj hk (of_decide_eq_true hh)
      · rintro rfl
        exact ⟨entry, hk, decide_eq_true rfl⟩
    rw [List.filter_congr hcongr, List.filter_beq,
      List.count_eq_one_of_mem List.nodup_range (List.mem_range.2 hlt)]
    rfl

theorem supertypes_eq_localSupertypes (hdistinct : (types.map (·.binding.hash)).Nodup) :
    supertypes types = localSupertypes types := by
  funext i
  unfold supertypes localSupertypes
  cases types[i]? with
  | none => rfl
  | some entry =>
    simp only [List.filterMap_eq_flatMap_toList, toList_position? hdistinct]
    rfl

theorem leads_supertypes (hdistinct : (types.map (·.binding.hash)).Nodup) :
    Leads (supertypes types) = LocalSupertype types := by
  funext i j
  rw [Leads, supertypes_eq_localSupertypes hdistinct, eq_iff_iff]
  exact mem_localSupertypes

/-! ## The order -/

section Order

variable {lib : GraphLibrary} {state : lib.Search → SearchState}

theorem sublist_of_order (hlib : lib.Lawful state) (h : orderWith lib types = .ok positions)
    (hj : j ∈ supertypes types i) : [j, i].Sublist positions := by
  obtain ⟨hperm, hbefore⟩ := orderWith_eq_ok hlib h
  have hi : i ∈ positions := hperm.mem_iff.2 (List.mem_range.2 (lt_of_supertypes hj))
  obtain ⟨before, after, rfl⟩ := List.append_of_mem hi
  have hmem : j ∈ before := hbefore before i after rfl j hj
  exact (List.singleton_sublist.2 hmem).append (List.singleton_sublist.2 List.mem_cons_self)

/-- Without cycles the search comes to an order, which is that of emission. -/
theorem order_of_acyclic (hlib : lib.Lawful state)
    (hacyclic : ∀ i, ¬ TransGen (Leads (supertypes types)) i i) :
    ∃ positions, orderWith lib types = .ok positions ∧
      Emits (supertypes types) [] (List.range types.length) positions := by
  obtain ⟨s, hvisits, hrun⟩ := run_graph hlib types
  refine ⟨s.finished.reverse, ?_, emits_of_visits hacyclic hvisits (.start _ _) (List.nil_subset _)⟩
  cases h : orderWith lib types with
  | error e =>
    obtain ⟨i, -, -, hback, -⟩ := orderWith_eq_error hlib h
    exact absurd hback (hacyclic i)
  | ok positions => rw [← hrun, (orderWith_eq_ok_iff.1 h).2]

/-- With a library that keeps its laws, types with distinct hashes have an order just if none is its
own supertype, directly or through others. It has every type once, supertypes before their subtypes,
and is the one in which types are emitted in turn after their supertypes: where supertypes are
declared first it is that of their declaration, and otherwise a type stands where the first type
stands that it is or that is one of its subtypes. Without an order, a type that is its own supertype
is reported. -/
theorem order_spec (hlib : lib.Lawful state) (hdistinct : (types.map (·.binding.hash)).Nodup) :
    ((∃ positions, orderWith lib types = .ok positions) ↔
        ∀ i, ¬ TransGen (LocalSupertype types) i i) ∧
      (∀ positions, orderWith lib types = .ok positions →
        positions.Perm (List.range types.length) ∧
          (∀ i j, LocalSupertype types i j → [j, i].Sublist positions) ∧
          (∀ emitted, Emits (localSupertypes types) [] (List.range types.length) emitted ↔
            emitted = positions) ∧
          ∀ i j first second, i < types.length → j < types.length →
            IsLeast {k | ReflTransGen (LocalSupertype types) k i} first →
            IsLeast {k | ReflTransGen (LocalSupertype types) k j} second →
            first < second → [i, j].Sublist positions) ∧
      ((∀ i j, LocalSupertype types i j → j < i) →
        orderWith lib types = .ok (List.range types.length)) ∧
      ∀ e, orderWith lib types = .error e → ∃ i entry, types[i]? = some entry ∧
        TransGen (LocalSupertype types) i i ∧
          e = .cyclicSupertypes entry.binding.name.text entry.span := by
  rw [← leads_supertypes hdistinct, ← supertypes_eq_localSupertypes hdistinct]
  refine ⟨⟨?_, ?_⟩, ?_, ?_, fun e => orderWith_eq_error hlib⟩
  · rintro ⟨positions, h⟩
    exact acyclic_of_orderWith hlib h
  · intro hacyclic
    obtain ⟨positions, h, -⟩ := order_of_acyclic hlib hacyclic
    exact ⟨positions, h⟩
  · intro positions h
    obtain ⟨emitted, hemitted, hemits⟩ := order_of_acyclic hlib (acyclic_of_orderWith hlib h)
    obtain rfl : emitted = positions := Except.ok.inj (hemitted.symm.trans h)
    refine ⟨(orderWith_eq_ok hlib h).1, fun i j hj => sublist_of_order hlib h hj, fun other => ?_, ?_⟩
    · constructor
      · exact fun hother => hother.unique hemits
      · rintro rfl
        exact hemits
    · intro i j first second _ hj hfirst hsecond hlt
      exact hemits.sublist_of_earlier hfirst.1 hsecond hlt hj
  · intro hdeclared
    have hacyclic : ∀ i, ¬ TransGen (Leads (supertypes types)) i i := by
      have hfalls {i j : Nat} (hreach : TransGen (Leads (supertypes types)) i j) : j < i := by
        induction hreach with
        | single hj => exact hdeclared _ _ hj
        | tail _ hj ih => exact (hdeclared _ _ hj).trans ih
      exact fun i hback => Nat.lt_irrefl _ (hfalls hback)
    obtain ⟨positions, h, hemits⟩ := order_of_acyclic hlib hacyclic
    rw [h, hemits.unique (.range hdeclared _)]

end Order

/-- A class with a hash, and the hashes of its superclass and its interfaces. -/
def sampleClass (name : String) (hash : UInt64) (superclass : Option UInt64)
    (interfaces : List UInt64) : Entry where
  binding := {
    name := ⟨[], [name]⟩
    hash := ⟨hash⟩
    superclass := superclass.map .mk
    interfaces := interfaces.map .mk }
  span := .synthetic

/-- The first type names its superclass twice, another type of the list, and one of no list. -/
def sampleTypes : List Entry :=
  [sampleClass "Derived" 1 (some 3) [4, 3, 9], sampleClass "Other" 2 none [],
    sampleClass "Base" 3 none [], sampleClass "Proto" 4 none []]

def sampleCycle : List Entry :=
  [sampleClass "A" 1 (some 2) [], sampleClass "B" 2 none [1]]

/-- Both supertypes go before the first type, and what follows keeps its place; two types that have
each other as supertypes have no order. -/
theorem order_spec_sample : StackSearch.library.Lawful StackSearch.state ∧
    (sampleTypes.map (·.binding.hash)).Nodup ∧ (sampleCycle.map (·.binding.hash)).Nodup ∧
    Emits (localSupertypes sampleTypes) [] [0, 1, 2, 3] [2, 3, 0, 1] ∧
    (∀ i, ¬ TransGen (LocalSupertype sampleTypes) i i) ∧
    ∃ i, TransGen (LocalSupertype sampleCycle) i i := by
  have htypes : (sampleTypes.map (·.binding.hash)).Nodup := by decide +kernel
  have hcycle : (sampleCycle.map (·.binding.hash)).Nodup := by decide +kernel
  obtain ⟨hok, horder, -⟩ := order_spec StackSearch.lawful htypes
  obtain ⟨-, -, -, herror⟩ := order_spec StackSearch.lawful hcycle
  have h : order sampleTypes = .ok [2, 3, 0, 1] := by decide +kernel
  have he : order sampleCycle = .error (.cyclicSupertypes "B" .synthetic) := by decide +kernel
  obtain ⟨i, -, -, hback, -⟩ := herror _ he
  exact ⟨StackSearch.lawful, htypes, hcycle, ((horder _ h).2.2.1 _).2 rfl, hok.1 ⟨_, h⟩, i, hback⟩

end ObjectLowering.TypeOrder
