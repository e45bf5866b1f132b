import ObjectLowering.Proofs.Text.StringLiteral

/-!
# ObjectLowering.Proofs.Text.EscapedText

What stands in an escaped text, read off the fact that it can be read as the body of a literal.

* `printable_of_run`, `behind_backslash_of_run`, `names_of_run`: a body that can be read to its end is
  printable ASCII, each of its quotes is escaped, and its universal character names stand for
  characters above the C1 controls.
* `escapeString_reads_back`: an escaped text is such a body and is read as the UTF-8 form of the text,
  so different texts have different literals.
-/

namespace ObjectLowering.Text.StringLiteral

open Escape (escape escapeString stringLiteral)

variable {s s' : State} {text : List Char} {bytes : List UInt8} {c : Char}

/-- The code point whose name a character completes. -/
def completes? : State → Char → Option Nat
  | .universal 0 value, c => (digit? 16 c).map (16 * value + ·)
  | _, _ => none

/-- The code points of the universal character names in a piece of the body. -/
def names : State → List Char → List Nat
  | _, [] => []
  | s, c :: text =>
    (completes? s c).toList ++ ((step s c).map fun next => names next.2 text).getD []

example : names .plain (escape ['\x85', 'é', '😀', '1']) = [0xe9, 0x1f600] := by decide

/-! ## Characters -/

theorem printable_of_digit? {base d : Nat} (hbase : base ≤ 16) (h : digit? base c = some d) :
    0x20 ≤ c.toNat ∧ c.toNat < 0x7f := by
  have hdigit : ∀ d < 16, 0x30 ≤ (Nat.digitChar d).toNat ∧ (Nat.digitChar d).toNat < 0x67 := by
    decide
  have hd : d < base := List.mem_range.1 (List.mem_of_find?_eq_some h)
  have hc : Nat.digitChar d = c.toLower := by simpa using List.find?_some h
  have hrange := hdigit d (by omega)
  rw [hc] at hrange
  unfold Char.toLower at hrange
  split at hrange
  · rename_i hupper
    have hlow : 0x41 ≤ c.toNat := hupper.1
    have hhigh : c.toNat ≤ 0x5a := hupper.2
    omega
  · omega

theorem printable_of_plainStep {next : List UInt8 × State} (h : plainStep c = some next) :
    0x20 ≤ c.toNat ∧ c.toNat < 0x7f := by
  unfold plainStep at h
  split_ifs at h with hquote hbackslash hprintable
  · subst hquote
    decide
  · subst hbackslash
    decide
  · exact hprintable

theorem printable_of_escapeStep {next : List UInt8 × State} (h : escapeStep c = some next) :
    0x20 ≤ c.toNat ∧ c.toNat < 0x7f := by
  unfold escapeStep at h
  split_ifs at h with hself hn hr ht hu hU
  · rcases hself with rfl | rfl <;> decide
  · subst hn
    decide
  · subst hr
    decide
  · subst ht
    decide
  · subst hu
    decide
  · subst hU
    decide
  · obtain ⟨d, hd, -⟩ := Option.map_eq_some_iff.1 h
    exact printable_of_digit? (by decide) hd

theorem printable_of_step {next : List UInt8 × State} (h : step s c = some next) :
    0x20 ≤ c.toNat ∧ c.toNat < 0x7f := by
  cases s with
  | plain => exact printable_of_plainStep h
  | backslash => exact printable_of_escapeStep h
  | octal more value =>
    cases hd : digit? 8 c with
    | some d => exact printable_of_digit? (by decide) hd
    | none =>
      simp only [step, hd] at h
      obtain ⟨b, -, h⟩ := Option.bind_eq_some_iff.1 h
      obtain ⟨next', hplain, -⟩ := Option.bind_eq_some_iff.1 h
      exact printable_of_plainStep hplain
  | universal more value =>
    obtain ⟨d, hd, -⟩ := Option.bind_eq_some_iff.1 h
    exact printable_of_digit? (by decide) hd
  | closed => cases h

/-! ## Bodies that can be read -/

theorem printable_of_run (h : run s text = some (bytes, s')) :
    ∀ c ∈ text, 0x20 ≤ c.toNat ∧ c.toNat < 0x7f := by
  induction text generalizing s bytes with
  | nil => exact fun _ hc => absurd hc List.not_mem_nil
  | cons c text ih =>
    obtain ⟨first, s₁, rest, hstep, hrest, -⟩ := run_cons_eq_some h
    exact List.forall_mem_cons.2 ⟨printable_of_step hstep, ih hrest⟩

theorem exists_run_of_append {front rest : List Char} (h : run s (front ++ rest) = some (bytes, s')) :
    ∃ s₁ first second, run s front = some (first, s₁) ∧ run s₁ rest = some (second, s') := by
  induction front generalizing s bytes with
  | nil => exact ⟨s, [], bytes, rfl, h⟩
  | cons c front ih =>
    obtain ⟨first, s₁, tail, hstep, htail, -⟩ := run_cons_eq_some h
    obtain ⟨s₂, second, third, hfront, hrest⟩ := ih htail
    exact ⟨s₂, first ++ second, third, by simp [run, hstep, hfront], hrest⟩

/-- A quote is an escaped one, or closes the body. -/
theorem step_quote {next : List UInt8 × State} (h : step s '"' = some next) :
    s = .backslash ∨ next.2 = .closed := by
  cases s with
  | plain =>
    cases h
    exact .inr rfl
  | backslash => exact .inl rfl
  | octal more value =>
    have hdigit : digit? 8 '"' = none := by decide
    simp only [step, hdigit] at h
    obtain ⟨b, -, h⟩ := Option.bind_eq_some_iff.1 h
    cases h
    exact .inr rfl
  | universal more value =>
    have hdigit : digit? 16 '"' = none := by decide
    simp [step, hdigit] at h
  | closed => cases h

/-- In a body that is still open at its end every quote stands behind the backslash that escapes it. -/
theorem behind_backslash_of_run {front rest : List Char} (hopen : s' ≠ .closed)
    (h : run s (front ++ '"' :: rest) = some (bytes, s')) :
    ∃ first, run s front = some (first, .backslash) := by
  obtain ⟨s₁, first, second, hfront, hrest⟩ := exists_run_of_append h
  obtain ⟨now, s₂, tail, hstep, htail, -⟩ := run_cons_eq_some hrest
  rcases step_quote hstep with rfl | rfl
  · exact ⟨first, hfront⟩
  · -- nothing can be read behind the quote that closes the body
    cases rest with
    | nil =>
      cases htail
      exact absurd rfl hopen
    | cons c rest => cases htail

theorem completes?_of_step {next : List UInt8 × State} (h : step s c = some next) :
    ∀ code ∈ completes? s c, 0xa0 ≤ code ∧ code.isValidChar := by
  intro code hcode
  cases s with
  | universal more value =>
    cases more with
    | zero =>
      obtain ⟨d, hd, rfl⟩ := Option.map_eq_some_iff.1 hcode
      rw [step, hd, Option.bind_eq_bind, Option.bind_some] at h
      obtain ⟨bytes, hnamed, -⟩ := Option.map_eq_some_iff.1 h
      unfold named? at hnamed
      split at hnamed
      · rename_i hvalid
        exact hvalid.symm
      · cases hnamed
    | succ more => cases hcode
  | _ => cases hcode

theorem names_of_run (h : run s text = some (bytes, s')) :
    ∀ code ∈ names s text, 0xa0 ≤ code ∧ code.isValidChar := by
  induction text generalizing s bytes with
  | nil => exact fun _ hcode => absurd hcode List.not_mem_nil
  | cons c text ih =>
    obtain ⟨first, s₁, rest, hstep, hrest, -⟩ := run_cons_eq_some h
    intro code hcode
    rw [names, hstep, Option.map_some, Option.getD_some, List.mem_append, Option.mem_toList] at hcode
    rcases hcode with hcode | hcode
    · exact completes?_of_step hstep code hcode
    · exact ih hrest code hcode

/-! ## Escaped texts -/

theorem run_escapeString (text : String) :
    run .plain (escapeString text).toList = some (text.toUTF8.data.toList, .plain) := by
  rw [escapeString, String.toList_ofList, toList_toUTF8]
  exact run_escape text.toList

theorem stringLiteral_injective : Function.Injective stringLiteral := by
  intro text text' h
  have hlists := congrArg String.toList h
  have hwritten : (escapeString text).toList = (escapeString text').toList := by
    simpa [stringLiteral] using hlists
  have hread := run_escapeString text
  rw [hwritten, run_escapeString] at hread
  have hbytes : text'.toUTF8.data.toList = text.toUTF8.data.toList :=
    congrArg Prod.fst (Option.some.inj hread)
  exact String.toByteArray_inj.1 (ByteArray.ext (Array.toList_inj.1 hbytes.symm))

/-- An escaped text is printable ASCII without a quote that could close the literal, it is read as the
UTF-8 form of the text, and no universal character name in it is one that C forbids. So a literal
determines its text. -/
theorem escapeString_reads_back :
    (∀ text : String,
      (∀ c ∈ (escapeString text).toList, 0x20 ≤ c.toNat ∧ c.toNat < 0x7f) ∧
      (∀ front rest, (escapeString text).toList = front ++ '"' :: rest →
        ∃ bytes, run .plain front = some (bytes, .backslash)) ∧
      run .plain (escapeString text).toList = some (text.toUTF8.data.toList, .plain) ∧
      ∀ code ∈ names .plain (escapeString text).toList, 0xa0 ≤ code ∧ code.isValidChar) ∧
    Function.Injective stringLiteral := by
  refine ⟨fun text => ?_, stringLiteral_injective⟩
  have hread := run_escapeString text
  refine ⟨printable_of_run hread, fun front rest hquote => ?_, hread, names_of_run hread⟩
  rw [hquote] at hread
  exact behind_backslash_of_run (by decide) hread

end ObjectLowering.Text.StringLiteral
