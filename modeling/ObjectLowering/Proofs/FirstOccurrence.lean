import Mathlib.Data.List.Induction
import Mathlib.Data.List.Nodup

/-!
# ObjectLowering.Proofs.FirstOccurrence

What a list holds, each entry where it is met first.

* `eraseDups_concat`: one more entry is added at the end, unless it has been met.
* `nodup_eraseDups`, `pairwise_idxOf_eraseDups`: no entry stands there twice, and what is met first
  stands first.
-/

namespace ObjectLowering

variable {α : Type} [BEq α] [LawfulBEq α]

theorem eraseDups_concat_of_mem {l : List α} {a : α} (h : a ∈ l) :
    (l ++ [a]).eraseDups = l.eraseDups := by
  simp [List.eraseDups_append, List.removeAll, h]

theorem eraseDups_concat_of_notMem {l : List α} {a : α} (h : a ∉ l) :
    (l ++ [a]).eraseDups = l.eraseDups ++ [a] := by
  simp [List.eraseDups_append, List.removeAll, List.eraseDups_cons, h]

theorem nodup_eraseDups (l : List α) : l.eraseDups.Nodup := by
  induction l using List.reverseRecOn with
  | nil => exact .nil
  | append_singleton l a ih =>
    by_cases h : a ∈ l
    · rwa [eraseDups_concat_of_mem h]
    · rw [eraseDups_concat_of_notMem h]
      exact List.nodup_append_comm.1 (List.nodup_cons.2 ⟨mt List.mem_eraseDups.1 h, ih⟩)

theorem idxOf_le_of_getElem? {l : List α} {i : Nat} {a : α} (h : l[i]? = some a) :
    l.idxOf a ≤ i := by
  have htake : a ∈ l.take (i + 1) := by
    refine List.mem_of_getElem? (i := i) ?_
    rwa [List.getElem?_take, if_pos (Nat.lt_succ_self i)]
  exact Nat.lt_succ_iff.1 ((List.mem_take_iff_idxOf_lt (List.mem_of_getElem? h)).1 htake)

/-- What is met first stands first. The list grows at its end, as its entries are met one by one. -/
theorem pairwise_idxOf_eraseDups (l : List α) :
    l.eraseDups.Pairwise fun a b => l.idxOf a < l.idxOf b := by
  induction l using List.reverseRecOn with
  | nil => exact .nil
  | append_singleton l x ih =>
    have hold {a : α} (ha : a ∈ l.eraseDups) : (l ++ [x]).idxOf a = l.idxOf a :=
      List.idxOf_append_of_mem (List.mem_eraseDups.1 ha)
    have hkept : (l.eraseDups).Pairwise fun a b => (l ++ [x]).idxOf a < (l ++ [x]).idxOf b :=
      ih.imp_of_mem fun ha hb hab => by rwa [hold ha, hold hb]
    by_cases hx : x ∈ l
    · rwa [eraseDups_concat_of_mem hx]
    · rw [eraseDups_concat_of_notMem hx, List.pairwise_append]
      refine ⟨hkept, List.pairwise_singleton .., fun a ha b hb => ?_⟩
      rw [List.mem_singleton] at hb
      rw [hold ha, hb, List.idxOf_append_of_notMem hx]
      have := List.idxOf_lt_length_of_mem (List.mem_eraseDups.1 ha)
      omega

end ObjectLowering
