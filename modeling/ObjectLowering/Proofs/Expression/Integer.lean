import ObjectLowering.Proofs.Expression.Grammar
import ObjectLowering.Symbol.Constant

/-!
# ObjectLowering.Proofs.Expression.Integer

The literal of an integer that is not negative is one token, with the value of the integer.

* `splitsInto_of_integer?`: a decimal integer is one token.
* `integer?_intLiteral`: the literal of an integer reads back.
-/

namespace ObjectLowering

open Text.Lexical

namespace Grammar

variable {token : Token} {value : Nat}

theorem mem_of_integer? (h : integer? token = some value) {c : Char} (hc : c ∈ token) :
    c.isDigit = true ∨ c = 'L' := by
  rw [integer?] at h
  split at h
  · rename_i hparts
    rw [← List.takeWhile_append_dropWhile (l := token) (p := Char.isDigit)] at hc
    rcases List.mem_append.1 hc with hc | hc
    · exact .inl (List.all_eq_true.1 List.all_takeWhile c hc)
    · simp only [List.contains_eq_mem, decide_eq_true_eq, List.mem_cons, List.not_mem_nil,
        or_false] at hparts
      rcases hparts.2 with hsuffix | hsuffix <;> rw [hsuffix] at hc <;> simp at hc
      exact .inr hc
  · cases h

theorem isNumberTail_of_isWordChar {text : List Char} (h : ∀ c ∈ text, isWordChar c = true)
    (last : Char) : isNumberTail last text = true := by
  induction text generalizing last with
  | nil => rfl
  | cons c text ih =>
    obtain ⟨hc, htext⟩ := List.forall_mem_cons.1 h
    rw [isNumberTail, continuesNumber, hc, ih htext]
    rfl

theorem splitsInto_of_integer? (h : integer? token = some value) : SplitsInto token [token] := by
  cases token with
  | nil => cases h
  | cons first text =>
    have hchars : ∀ c ∈ first :: text, isWordChar c = true ∧ c ∉ ['e', 'E', 'p', 'P'] := by
      intro c hc
      rcases mem_of_integer? h hc with hdigit | rfl
      · refine ⟨by rw [isWordChar, hdigit, Bool.or_true], fun hexponent => ?_⟩
        simp only [List.mem_cons, List.not_mem_nil, or_false] at hexponent
        rcases hexponent with rfl | rfl | rfl | rfl <;> exact absurd hdigit (by decide)
      · decide
    refine splitsInto_number (isDigit_of_integer? h)
      (isNumberTail_of_isWordChar (fun c hc => (hchars c (List.mem_cons_of_mem _ hc)).1) first) ?_
    cases hlast : text.getLast? with
    | none => exact (hchars first List.mem_cons_self).2
    | some last => exact (hchars last (List.mem_cons_of_mem _ (List.mem_of_getLast? hlast))).2

end Grammar

/-! ## Literals -/

theorem head?_toDigits_ne_zero {n : Nat} (h : 0 < n) : (Nat.toDigits 10 n).head? ≠ some '0' := by
  induction n using Nat.strongRecOn with
  | ind n ih =>
    by_cases hlt : n < 10
    · rw [Nat.toDigits_of_lt_base hlt]
      have hdigit : ∀ n < 10, 0 < n → some (Nat.digitChar n) ≠ some '0' := by decide
      exact hdigit n hlt h
    · have hle : 10 ≤ n := Nat.le_of_not_lt hlt
      have hfront := ih (n / 10) (Nat.div_lt_self h (by decide)) (Nat.div_pos hle (by decide))
      obtain ⟨c, behind, hcons⟩ : ∃ c behind, Nat.toDigits 10 (n / 10) = c :: behind :=
        List.exists_cons_of_ne_nil Nat.toDigits_ne_nil
      rw [Nat.toDigits_of_base_le (by decide) hle]
      rw [hcons] at hfront ⊢
      exact hfront

theorem integer?_toDigits_append (n : Nat) {suffix : List Char}
    (hsuffix : suffix ∈ [[], ['L', 'L']]) :
    Grammar.integer? (Nat.toDigits 10 n ++ suffix) = some n := by
  have hdigits : ∀ c ∈ Nat.toDigits 10 n, c.isDigit = true := fun c hc =>
    Nat.isDigit_of_mem_toDigits (by decide) (by decide) hc
  have hbehind : suffix.takeWhile Char.isDigit = [] ∧ suffix.dropWhile Char.isDigit = suffix := by
    simp only [List.mem_cons, List.not_mem_nil, or_false] at hsuffix
    rcases hsuffix with rfl | rfl <;> decide
  have hleading : Nat.toDigits 10 n = ['0'] ∨ (Nat.toDigits 10 n).head?.any (· ≠ '0') = true := by
    rcases Nat.eq_zero_or_pos n with rfl | hpos
    · exact .inl rfl
    · obtain ⟨c, behind, hcons⟩ := List.exists_cons_of_ne_nil (Nat.toDigits_ne_nil (b := 10) (n := n))
      have hne := head?_toDigits_ne_zero hpos
      rw [hcons] at hne ⊢
      exact .inr (by simpa using hne)
  rw [Grammar.integer?, List.takeWhile_append_of_pos hdigits, List.dropWhile_append_of_pos hdigits,
    hbehind.1, hbehind.2, List.append_nil, if_pos ⟨hleading, by simpa using hsuffix⟩,
    Nat.ofDigitChars_ten_toDigits]

theorem integer?_intLiteral {value : Int64} (h : 0 ≤ value.toInt) :
    Grammar.integer? (intLiteral value).toList = some value.toInt.toNat := by
  have hleast : value ≠ Int64.minValue := by
    rintro rfl
    exact absurd h (by decide)
  have htext : (toString value.toInt).toList = Nat.toDigits 10 value.toInt.toNat := by
    rw [← Int.toNat_of_nonneg h]
    exact Nat.toList_repr
  rw [intLiteral, if_neg hleast]
  split
  · rw [htext, ← List.append_nil (Nat.toDigits 10 _)]
    exact integer?_toDigits_append _ List.mem_cons_self
  · rw [String.toList_append, htext]
    exact integer?_toDigits_append _ (by decide)

end ObjectLowering
