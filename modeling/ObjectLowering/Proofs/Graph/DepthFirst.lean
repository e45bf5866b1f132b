import Mathlib.Data.List.Nodup
import Mathlib.Data.List.Range
import Mathlib.Logic.Relation

/-!
# ObjectLowering.Proofs.Graph.DepthFirst

Depth-first search as a recursion, and what it says about cycles.

* `Visits`: visits to nodes, one after the other, as a relation between how far a search has come
  before and after.
* `Visits.advances`: what visits add to the nodes that have been discovered and finished.
  `Visits.finished_perm`: visits to all nodes finish each of them once.
* `Active`: discovered but not finished. Visits add no active node.
* `Leading`: the active nodes lead to what is visited.
* `exists_visits`: visits come to an end.
* `Visits.settled`: whatever a node leads to was finished before it or leads back to it.
-/

namespace ObjectLowering.DepthFirst

open Relation

/-- One step of a search. -/
def Leads (next : Nat → List Nat) (i j : Nat) : Prop :=
  j ∈ next i

/-- How far a search has come. Both lists have the latest first. -/
structure Progress where
  discovered : List Nat := []
  finished : List Nat := []

/-- From `s`, visits to the nodes of a list lead to `s'`. -/
inductive Visits (next : Nat → List Nat) : Progress → List Nat → Progress → Prop where
  | nil {s : Progress} : Visits next s [] s
  | skip {s s' : Progress} {i : Nat} {rest : List Nat} :
    i ∈ s.discovered → Visits next s rest s' → Visits next s (i :: rest) s'
  | enter {s mid s' : Progress} {i : Nat} {rest : List Nat} :
    i ∉ s.discovered → Visits next { s with discovered := i :: s.discovered } (next i) mid →
      Visits next { mid with finished := i :: mid.finished } rest s' →
        Visits next s (i :: rest) s'

/-- Under way: discovered, but not finished. -/
def Progress.Active (s : Progress) (i : Nat) : Prop :=
  i ∈ s.discovered ∧ i ∉ s.finished

variable {next : Nat → List Nat} {n depth : Nat} {s s' s'' s₁ s₂ : Progress} {l l' l₁ l₂ : List Nat}

namespace Visits

theorem append (h : Visits next s l s') (h' : Visits next s' l' s'') :
    Visits next s (l ++ l') s'' := by
  induction h with
  | nil => exact h'
  | skip hi _ ih => exact .skip hi (ih h')
  | enter hi hbelow _ _ ih => exact .enter hi hbelow (ih h')

theorem discovered_mono (h : Visits next s l s') {i : Nat} (hi : i ∈ s.discovered) :
    i ∈ s'.discovered := by
  induction h with
  | nil => exact hi
  | skip _ _ ih => exact ih hi
  | enter _ _ _ ihbelow ihrest => exact ihrest (ihbelow (List.mem_cons_of_mem _ hi))

theorem discovered (h : Visits next s l s') {i : Nat} (hi : i ∈ l) : i ∈ s'.discovered := by
  induction h with
  | nil => cases hi
  | skip hdiscovered hrest ih =>
    rcases List.mem_cons.1 hi with rfl | hi
    · exact hrest.discovered_mono hdiscovered
    · exact ih hi
  | enter _ hbelow hrest _ ih =>
    rcases List.mem_cons.1 hi with rfl | hi
    · exact hrest.discovered_mono (hbelow.discovered_mono List.mem_cons_self)
    · exact ih hi

theorem split (h : Visits next s (l ++ l') s'') :
    ∃ s', Visits next s l s' ∧ Visits next s' l' s'' := by
  induction l generalizing s with
  | nil => exact ⟨s, .nil, h⟩
  | cons i l ih =>
    cases h with
    | skip hi hrest =>
      obtain ⟨s', hl, hl'⟩ := ih hrest
      exact ⟨s', .skip hi hl, hl'⟩
    | enter hnew hbelow hrest =>
      obtain ⟨s', hl, hl'⟩ := ih hrest
      exact ⟨s', .enter hnew hbelow hl, hl'⟩

/-- What a visit discovers it also finishes. -/
theorem active (h : Visits next s l s') {a : Nat} (ha : s'.Active a) : s.Active a := by
  induction h with
  | nil => exact ha
  | skip _ _ ih => exact ih ha
  | enter _ _ _ ihbelow ihrest =>
    obtain ⟨hdiscovered, hfinished⟩ := ihrest ha
    obtain ⟨hne, hfinished⟩ := not_or.1 (mt List.mem_cons.2 hfinished)
    obtain ⟨hdiscovered, hfinished⟩ := ihbelow ⟨hdiscovered, hfinished⟩
    exact ⟨(List.mem_cons.1 hdiscovered).resolve_left hne, hfinished⟩

/-- A node under way is not finished by visits. -/
theorem active_mono (h : Visits next s l s') {a : Nat} (ha : s.Active a) : s'.Active a := by
  induction h with
  | nil => exact ha
  | skip _ _ ih => exact ih ha
  | @enter s mid s' i rest hnew _ _ ihbelow ihrest =>
    have hmid : mid.Active a := ihbelow ⟨List.mem_cons_of_mem _ ha.1, ha.2⟩
    have hne : a ≠ i := fun he => hnew (he ▸ ha.1)
    exact ihrest ⟨hmid.1, fun hm => (List.mem_cons.1 hm).elim hne hmid.2⟩

theorem finished_discovered (h : Visits next s l s') (hs : s.finished ⊆ s.discovered) :
    s'.finished ⊆ s'.discovered := by
  induction h with
  | nil => exact hs
  | skip _ _ ih => exact ih hs
  | enter _ hbelow _ ihbelow ihrest =>
    refine ihrest (List.cons_subset.2 ⟨hbelow.discovered_mono List.mem_cons_self, ?_⟩)
    exact ihbelow fun a ha => List.mem_cons_of_mem _ (hs ha)

end Visits

/-! ## What visits add -/

/-- From `s` to `s'` the nodes `l` have been discovered and finished, each once. -/
structure Advances (n : Nat) (s : Progress) (l : List Nat) (s' : Progress) : Prop where
  finished : s'.finished = l ++ s.finished
  discovered : ∀ i, i ∈ s'.discovered ↔ i ∈ l ∨ i ∈ s.discovered
  nodup : l.Nodup
  fresh : ∀ i ∈ l, i ∉ s.discovered
  lt : ∀ i ∈ l, i < n

namespace Advances

theorem refl (n : Nat) (s : Progress) : Advances n s [] s :=
  ⟨rfl, by simp, .nil, by simp, by simp⟩

theorem trans (h₁ : Advances n s l₁ s₁) (h₂ : Advances n s₁ l₂ s₂) :
    Advances n s (l₂ ++ l₁) s₂ where
  finished := by rw [h₂.finished, h₁.finished, List.append_assoc]
  discovered i := by rw [h₂.discovered, h₁.discovered, List.mem_append, or_assoc]
  nodup := by
    refine List.nodup_append.2 ⟨h₂.nodup, h₁.nodup, ?_⟩
    rintro i hi _ hj rfl
    exact h₂.fresh i hi ((h₁.discovered i).2 (.inl hj))
  fresh i hi hs := by
    rcases List.mem_append.1 hi with hi | hi
    · exact h₂.fresh i hi ((h₁.discovered i).2 (.inr hs))
    · exact h₁.fresh i hi hs
  lt i hi := (List.mem_append.1 hi).elim (h₂.lt i) (h₁.lt i)

/-- A node is discovered first, then what it leads to, and then it is finished. -/
theorem finish {index : Nat} (hindex : index < n) (hs : index ∉ s.discovered)
    (h : Advances n { s with discovered := index :: s.discovered } l s₁) :
    Advances n s (index :: l) { s₁ with finished := index :: s₁.finished } where
  finished := congrArg (index :: ·) h.finished
  discovered i := by rw [h.discovered]; simp only [List.mem_cons]; tauto
  nodup := List.nodup_cons.2 ⟨fun hm => h.fresh index hm List.mem_cons_self, h.nodup⟩
  fresh i hi hd := by
    rcases List.mem_cons.1 hi with rfl | hi
    · exact hs hd
    · exact h.fresh i hi (List.mem_cons_of_mem _ hd)
  lt i hi := (List.mem_cons.1 hi).elim (fun he => he ▸ hindex) (h.lt i)

end Advances

theorem Visits.advances (h : Visits next s l s') (hnext : ∀ i, ∀ j ∈ next i, j < n)
    (hl : ∀ i ∈ l, i < n) : ∃ added, Advances n s added s' := by
  induction h with
  | nil => exact ⟨[], .refl n _⟩
  | skip _ _ ih => exact ih (List.forall_mem_cons.1 hl).2
  | @enter s mid s' i rest hnew _ _ ihbelow ihrest =>
    obtain ⟨hi, hrest⟩ := List.forall_mem_cons.1 hl
    obtain ⟨l₁, h₁⟩ := ihbelow (hnext i)
    obtain ⟨l₂, h₂⟩ := ihrest hrest
    exact ⟨_, (h₁.finish hi hnew).trans h₂⟩

/-- Visits to all nodes finish each of them once. -/
theorem Visits.finished_perm (h : Visits next {} (List.range n) s)
    (hnext : ∀ i, ∀ j ∈ next i, j < n) :
    s.finished.Perm (List.range n) ∧ ∀ i, i ∈ s.discovered ↔ i ∈ s.finished := by
  obtain ⟨l, hl⟩ := h.advances hnext fun i hi => List.mem_range.1 hi
  have hfinished : s.finished = l := hl.finished.trans (List.append_nil l)
  have hdiscovered (i : Nat) : i ∈ s.discovered ↔ i ∈ l :=
    (hl.discovered i).trans (or_iff_left List.not_mem_nil)
  rw [hfinished]
  refine ⟨(List.perm_ext_iff_of_nodup hl.nodup List.nodup_range).2 fun i => ?_, hdiscovered⟩
  exact ⟨fun hi => List.mem_range.2 (hl.lt i hi), fun hi => (hdiscovered i).1 (h.discovered hi)⟩

/-! ## Visits come to an end -/

/-- Visits one after the other, from a search that keeps some nodes discovered. -/
theorem exists_visits_list {kept : List Nat}
    (hstep : ∀ s i, i < n → kept ⊆ s.discovered → ∃ s', Visits next s [i] s')
    (hs : kept ⊆ s.discovered) (hl : ∀ i ∈ l, i < n) : ∃ s', Visits next s l s' := by
  induction l generalizing s with
  | nil => exact ⟨s, .nil⟩
  | cons i l ih =>
    obtain ⟨hi, hl⟩ := List.forall_mem_cons.1 hl
    obtain ⟨mid, hfirst⟩ := hstep s i hi hs
    obtain ⟨s', hrest⟩ := ih (fun a ha => hfirst.discovered_mono (hs ha)) hl
    exact ⟨s', hfirst.append hrest⟩

/-- The nodes on the way to a visit differ, so there are no more of them than nodes. -/
theorem exists_visits_node (hnext : ∀ i, ∀ j ∈ next i, j < n) {way : List Nat} (hway : way.Nodup)
    (hlt : ∀ i ∈ way, i < n) (hdepth : n ≤ depth + way.length) {i : Nat} (hi : i < n)
    (hs : way ⊆ s.discovered) : ∃ s', Visits next s [i] s' := by
  induction depth generalizing s way i with
  | zero =>
    refine ⟨s, .skip ?_ .nil⟩
    by_contra hnew
    have hnodup : (i :: way).Nodup := List.nodup_cons.2 ⟨fun hm => hnew (hs hm), hway⟩
    have hlt' : ∀ j ∈ i :: way, j < n := List.forall_mem_cons.2 ⟨hi, hlt⟩
    have hsubset : i :: way ⊆ List.range n := fun j hj => List.mem_range.2 (hlt' j hj)
    have hlength := hnodup.length_le_of_subset hsubset
    rw [List.length_cons, List.length_range] at hlength
    omega
  | succ depth ih =>
    by_cases hdiscovered : i ∈ s.discovered
    · exact ⟨s, .skip hdiscovered .nil⟩
    · have hway' : (i :: way).Nodup := List.nodup_cons.2 ⟨fun hm => hdiscovered (hs hm), hway⟩
      have hdepth' : n ≤ depth + (i :: way).length := by rw [List.length_cons]; omega
      obtain ⟨mid, hbelow⟩ := exists_visits_list (s := { s with discovered := i :: s.discovered })
        (fun s j hj hs => ih hway' (List.forall_mem_cons.2 ⟨hi, hlt⟩) hdepth' hj hs)
        (List.cons_subset_cons i hs) (hnext i)
      exact ⟨_, .enter hdiscovered hbelow .nil⟩

theorem exists_visits (hnext : ∀ i, ∀ j ∈ next i, j < n) (s : Progress) (hl : ∀ i ∈ l, i < n) :
    ∃ s', Visits next s l s' :=
  exists_visits_list
    (fun _ _ hi hs => exists_visits_node hnext .nil (by simp) (Nat.le_add_right n 0) hi hs)
    (List.nil_subset _) hl

/-! ## The way to a visit -/

/-- Every node under way leads to all that are about to be visited. -/
def Leading (next : Nat → List Nat) (s : Progress) (l : List Nat) : Prop :=
  ∀ a, s.Active a → ∀ i ∈ l, TransGen (Leads next) a i

namespace Leading

variable {i : Nat} {rest : List Nat} {mid : Progress}

theorem start (next : Nat → List Nat) (l : List Nat) : Leading next {} l :=
  fun _ ha => absurd ha.1 List.not_mem_nil

theorem of_cons (h : Leading next s (i :: rest)) : Leading next s rest :=
  fun a ha j hj => h a ha j (List.mem_cons_of_mem _ hj)

theorem eq_or_transGen (h : Leading next s (i :: rest)) {a : Nat}
    (ha : Progress.Active { s with discovered := i :: s.discovered } a) :
    a = i ∨ TransGen (Leads next) a i :=
  (List.mem_cons.1 ha.1).imp_right fun hdiscovered =>
    h a ⟨hdiscovered, ha.2⟩ i List.mem_cons_self

theorem enter (h : Leading next s (i :: rest)) :
    Leading next { s with discovered := i :: s.discovered } (next i) := by
  intro a ha j hj
  rcases h.eq_or_transGen ha with rfl | hreach
  · exact .single hj
  · exact hreach.tail hj

theorem leave (h : Leading next s (i :: rest)) (hnew : i ∉ s.discovered)
    (hbelow : Visits next { s with discovered := i :: s.discovered } (next i) mid) :
    Leading next { mid with finished := i :: mid.finished } rest :=
  fun a ha => h.of_cons a ((Visits.enter hnew hbelow .nil).active ha)

end Leading

/-! ## Cycles -/

/-- Of nodes, the latest first: what a node leads to was finished before it or leads back to it. -/
def Settled (next : Nat → List Nat) : List Nat → Prop
  | [] => True
  | i :: earlier =>
    (∀ j ∈ next i, j ∈ earlier ∨ ReflTransGen (Leads next) j i) ∧ Settled next earlier

/-- What a visit meets under way leads back to it. -/
theorem Visits.settled (h : Visits next s l s') (hleading : Leading next s l)
    (hs : Settled next s.finished) : Settled next s'.finished := by
  induction h with
  | nil => exact hs
  | skip _ _ ih => exact ih hleading.of_cons hs
  | @enter s mid s' i rest hnew hbelow hrest ihbelow ihrest =>
    refine ihrest (hleading.leave hnew hbelow) ⟨fun j hj => ?_, ihbelow hleading.enter hs⟩
    by_cases hfinished : j ∈ mid.finished
    · exact .inl hfinished
    · have hactive := hbelow.active ⟨hbelow.discovered hj, hfinished⟩
      exact .inr ((hleading.eq_or_transGen hactive).elim (fun he => he ▸ .refl)
        TransGen.to_reflTransGen)

theorem Settled.of_append {before after : List Nat} (h : Settled next (before ++ after)) :
    Settled next after := by
  induction before with
  | nil => exact h
  | cons _ _ ih => exact ih h.2

theorem Settled.of_mem {before after : List Nat} {i j : Nat}
    (h : Settled next (before ++ i :: after)) (hj : j ∈ after) (hi : i ∈ next j)
    (hnodup : (i :: after).Nodup) : ReflTransGen (Leads next) i j := by
  obtain ⟨l₁, l₂, rfl⟩ := List.append_of_mem hj
  have hsettled : Settled next (j :: l₂) := by
    have hsplit : Settled next ((before ++ i :: l₁) ++ j :: l₂) := by simpa using h
    exact hsplit.of_append
  refine (hsettled.1 i hi).resolve_left fun him => (List.nodup_cons.1 hnodup).1 ?_
  exact List.mem_append_right _ (List.mem_cons_of_mem _ him)

end ObjectLowering.DepthFirst
