import ObjectLowering.Text.Pieces

/-!
# ObjectLowering.Proofs.Text.Pieces

The pieces of a text between separators.

* `notMem_of_mem_pieces`, `pieces_ne_nil`: none holds the separator, and most texts have one.
* `pieces_of_toList`: a text that is put together from pieces, each with a separator behind it, is cut
  into these pieces.
-/

namespace ObjectLowering.Text

theorem notMem_of_mem_pieces {separator : Char} {text piece : String}
    (h : piece ∈ pieces separator text) : separator ∉ piece.toList := by
  obtain ⟨stretch, hs, rfl⟩ := List.mem_map.1 h
  rw [String.toList_ofList]
  exact not_mem_of_mem_split (List.mem_filter.1 hs).1

/-- A text that does not begin with the separator has a piece, unless it is empty. -/
theorem pieces_ne_nil {separator : Char} {text : String} (hne : text ≠ "")
    (h : text.toList.head? ≠ some separator) : pieces separator text ≠ [] := by
  obtain ⟨c, rest, htext⟩ := List.exists_cons_of_ne_nil (mt String.toList_eq_nil_iff.1 hne)
  have hc : c ≠ separator := fun he => h (by rw [htext, he]; rfl)
  obtain ⟨piece, hpiece⟩ : ∃ piece, c :: piece ∈ split separator text.toList := by
    rw [htext, split, if_neg hc]
    split
    · exact ⟨[], List.mem_cons_self⟩
    · exact ⟨_, List.mem_cons_self⟩
  have hkept : c :: piece ∈ (split separator text.toList).filter (· ≠ []) :=
    List.mem_filter.2 ⟨hpiece, by simp⟩
  exact List.ne_nil_of_mem (List.mem_map_of_mem hkept)

theorem split_append {separator : Char} {stretch rest : List Char} (h : separator ∉ stretch) :
    split separator (stretch ++ separator :: rest) = stretch :: split separator rest := by
  induction stretch with
  | nil => rw [List.nil_append, split, if_pos rfl]
  | cons c stretch ih =>
    rw [List.mem_cons, not_or] at h
    rw [List.cons_append, split, if_neg (Ne.symm h.1), ih h.2]

theorem split_flatMap {separator : Char} {stretches : List (List Char)}
    (h : ∀ s ∈ stretches, separator ∉ s) :
    split separator (stretches.flatMap (· ++ [separator])) = stretches ++ [[]] := by
  induction stretches with
  | nil => rfl
  | cons first rest ih =>
    obtain ⟨hfirst, hrest⟩ := List.forall_mem_cons.1 h
    rw [List.flatMap_cons, List.append_assoc, List.singleton_append, split_append hfirst, ih hrest,
      List.cons_append]

/-- What is put together from non-empty pieces with a separator behind each is cut into them. -/
theorem pieces_of_toList {separator : Char} {text : String} {parts : List String}
    (htext : text.toList = parts.flatMap fun part => part.toList ++ [separator])
    (h : ∀ part ∈ parts, part ≠ "" ∧ separator ∉ part.toList) : pieces separator text = parts := by
  have hsplit : split separator text.toList = parts.map String.toList ++ [[]] := by
    rw [htext, ← split_flatMap, List.flatMap_map]
    intro stretch hstretch
    obtain ⟨part, hpart, rfl⟩ := List.mem_map.1 hstretch
    exact (h part hpart).2
  have hkept : (parts.map String.toList).filter (· ≠ []) = parts.map String.toList := by
    refine List.filter_eq_self.2 fun stretch hstretch => ?_
    obtain ⟨part, hpart, rfl⟩ := List.mem_map.1 hstretch
    exact decide_eq_true fun hnil => (h part hpart).1 (String.toList_eq_nil_iff.1 hnil)
  rw [pieces, hsplit, List.filter_append, hkept]
  simp

end ObjectLowering.Text
