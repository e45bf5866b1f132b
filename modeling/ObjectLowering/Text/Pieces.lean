/-!
# ObjectLowering.Text.Pieces

Cutting a text at a separator character. Dotted names, selectors and directory paths are all read
by their non-empty pieces, so a doubled, leading or trailing separator has no effect.

* `split`: the pieces with the empty ones; there is always one more than there are separators.
* `pieces`: the non-empty ones.
* `trimEnd`: the text without the separators at its end.
-/

namespace ObjectLowering.Text

/-- The stretches between the separators, empty ones included. -/
def split (separator : Char) : List Char → List (List Char)
  | [] => [[]]
  | c :: text =>
    if c = separator then
      [] :: split separator text
    else
      match split separator text with
      | [] => [[c]]
      | piece :: rest => (c :: piece) :: rest

theorem split_ne_nil (separator : Char) (text : List Char) : split separator text ≠ [] := by
  cases text with
  | nil => simp [split]
  | cons c text =>
    unfold split
    split
    · simp
    · split <;> simp

/-- No stretch holds the separator. -/
theorem not_mem_of_mem_split {separator : Char} {text piece : List Char}
    (h : piece ∈ split separator text) : separator ∉ piece := by
  induction text generalizing piece with
  | nil => simp_all [split]
  | cons c text ih =>
    by_cases hc : c = separator
    · simp only [split, if_pos hc, List.mem_cons] at h
      rcases h with rfl | h
      · simp
      · exact ih h
    · have hs : separator ≠ c := fun e => hc e.symm
      cases hsplit : split separator text with
      | nil => exact absurd hsplit (split_ne_nil separator text)
      | cons first rest =>
        simp only [split, if_neg hc, hsplit, List.mem_cons] at h ih
        rcases h with rfl | h
        · simpa [hs] using ih (.inl rfl)
        · exact ih (.inr h)

/-- The non-empty stretches of `text` between separators. -/
def pieces (separator : Char) (text : String) : List String :=
  ((split separator text.toList).filter (· ≠ [])).map String.ofList

/-- The text up to the separators at its end. -/
def trimEnd (separator : Char) (text : String) : String :=
  String.ofList (text.toList.reverse.dropWhile (· = separator)).reverse

example : split '.' ['a', '.', '.', 'b'] = [['a'], [], ['b']] := by decide
example : pieces ':' "add:with:" = ["add", "with"] := by decide

end ObjectLowering.Text
