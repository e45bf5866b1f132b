import Mathlib.Algebra.Group.Nat.Defs
import Mathlib.Data.List.Basic
import ObjectLowering.Text.Escape

/-!
# ObjectLowering.Proofs.Text.StringLiteral

How a compiler reads the body of a string literal, and that it reads what was escaped.

* `step`: one character, with the bytes that it completes. An octal escape takes as many of three
  digits as there are, a universal character name has four or eight, and a plain character must be
  printable ASCII. A name must stand for a character above the C1 controls.
* `read`: up to the closing quote, with what follows it.
* `run_escape`: an escaped text is read as the UTF-8 form of the text. `read_escape`: the quote that
  closes the literal is the one that was written behind it.
* `newline_notMem_escape`: an escaped text stays on its line.
-/

namespace ObjectLowering.Text.StringLiteral

open Escape (octal escape escapeChar)
open Numeral (fixed)

/-- What has been read of an escape. -/
inductive State where
  | plain
  | backslash
  /-- An octal escape may have one more digit, and another one after it if `more`. -/
  | octal (more : Bool) (value : Nat)
  /-- A universal character name needs one more digit, and so many after it. -/
  | universal (more : Nat) (value : Nat)
  | closed
  deriving DecidableEq

def digit? (base : Nat) (c : Char) : Option Nat :=
  (List.range base).find? fun d => Nat.digitChar d = c.toLower

/-- The UTF-8 form of the character that a name stands for. -/
def named? (code : Nat) : Option (List UInt8) :=
  if code.isValidChar ∧ 0xa0 ≤ code then some (String.utf8EncodeChar (Char.ofNat code)) else none

def byte? (value : Nat) : Option UInt8 :=
  if value < 256 then some value.toUInt8 else none

def plainStep (c : Char) : Option (List UInt8 × State) :=
  if c = '"' then some ([], .closed)
  else if c = '\\' then some ([], .backslash)
  else if 0x20 ≤ c.toNat ∧ c.toNat < 0x7f then some ([c.toNat.toUInt8], .plain)
  else none

def escapeStep (c : Char) : Option (List UInt8 × State) :=
  if c = '"' ∨ c = '\\' then some ([c.toNat.toUInt8], .plain)
  else if c = 'n' then some ([10], .plain)
  else if c = 'r' then some ([13], .plain)
  else if c = 't' then some ([9], .plain)
  else if c = 'u' then some ([], .universal 3 0)
  else if c = 'U' then some ([], .universal 7 0)
  else (digit? 8 c).map fun d => ([], .octal true d)

def step : State → Char → Option (List UInt8 × State)
  | .plain, c => plainStep c
  | .backslash, c => escapeStep c
  | .octal more value, c =>
    match digit? 8 c with
    | some d =>
      if more then some ([], .octal false (8 * value + d))
      else (byte? (8 * value + d)).map fun b => ([b], .plain)
    | none => do
      -- the escape has ended before this character
      let b ← byte? value
      let (bytes, s) ← plainStep c
      return (b :: bytes, s)
  | .universal more value, c => do
    let d ← digit? 16 c
    match more with
    | 0 => (named? (16 * value + d)).map fun bytes => (bytes, .plain)
    | more + 1 => some ([], .universal more (16 * value + d))
  | .closed, _ => none

/-- The bytes of a piece of the body, and what is left open behind it. -/
def run : State → List Char → Option (List UInt8 × State)
  | s, [] => some ([], s)
  | s, c :: text =>
    (step s c).bind fun first => (run first.2 text).map fun rest => (first.1 ++ rest.1, rest.2)

/-- The bytes up to the quote that closes the body, and the text behind it. -/
def read : State → List Char → Option (List UInt8 × List Char)
  | .closed, text => some ([], text)
  | _, [] => none
  | s, c :: text =>
    (step s c).bind fun first => (read first.2 text).map fun rest => (first.1 ++ rest.1, rest.2)

/-! ## Pieces -/

variable {s s' s'' : State} {text text' : List Char} {bytes bytes' : List UInt8}

theorem run_cons_eq_some {c : Char} (h : run s (c :: text) = some (bytes, s')) :
    ∃ first s₁ rest, step s c = some (first, s₁) ∧ run s₁ text = some (rest, s') ∧
      bytes = first ++ rest := by
  obtain ⟨⟨first, s₁⟩, hstep, h⟩ := Option.bind_eq_some_iff.1 h
  obtain ⟨⟨rest, s₂⟩, hrest, h⟩ := Option.map_eq_some_iff.1 h
  cases h
  exact ⟨first, s₁, rest, hstep, hrest, rfl⟩

theorem run_append (h : run s text = some (bytes, s')) (h' : run s' text' = some (bytes', s'')) :
    run s (text ++ text') = some (bytes ++ bytes', s'') := by
  induction text generalizing s bytes with
  | nil =>
    cases h
    exact h'
  | cons c text ih =>
    obtain ⟨first, s₁, rest, hstep, hrest, rfl⟩ := run_cons_eq_some h
    rw [List.cons_append, run, hstep, Option.bind_some, ih hrest, List.append_assoc]
    rfl

theorem run_singleton {c : Char} (h : step s c = some (bytes, s')) :
    run s [c] = some (bytes, s') := by
  simp [run, h]

/-- What has been run through is read, and then the rest. -/
theorem read_append (h : run s text = some (bytes, s')) (text' : List Char) :
    read s (text ++ text') = (read s' text').map fun rest => (bytes ++ rest.1, rest.2) := by
  induction text generalizing s bytes with
  | nil =>
    cases h
    simp
  | cons c text ih =>
    obtain ⟨first, s₁, rest, hstep, hrest, rfl⟩ := run_cons_eq_some h
    have hopen : s ≠ .closed := by
      rintro rfl
      cases hstep
    rw [List.cons_append, read, hstep, Option.bind_some, ih hrest, Option.map_map]
    · simp only [Function.comp_def, List.append_assoc]
    · exact hopen

/-! ## Numerals -/

theorem digit?_digitChar : ∀ d < 16, digit? 16 (Nat.digitChar d) = some d := by
  decide

theorem octalDigit?_digitChar : ∀ d < 8, digit? 8 (Nat.digitChar d) = some d := by
  decide

theorem escapeStep_digitChar : ∀ d < 8, escapeStep (Nat.digitChar d) = some ([], .octal true d) := by
  decide

/-- Three digits are a whole escape, whatever follows. -/
theorem run_octal {n : Nat} (h : n < 256) : run .plain (octal n) = some ([n.toUInt8], .plain) := by
  have hvalue : 8 * (8 * (n / 8 / 8 % 8) + n / 8 % 8) + n % 8 = n := by omega
  have hstart : run .plain ['\\'] = some ([], .backslash) := rfl
  have hfirst : run .backslash [Nat.digitChar (n / 8 / 8 % 8)] =
      some ([], .octal true (n / 8 / 8 % 8)) :=
    run_singleton (escapeStep_digitChar _ (Nat.mod_lt _ (by decide)))
  have hsecond : run (.octal true (n / 8 / 8 % 8)) [Nat.digitChar (n / 8 % 8)] =
      some ([], .octal false (8 * (n / 8 / 8 % 8) + n / 8 % 8)) :=
    run_singleton (by simp [step, octalDigit?_digitChar _ (Nat.mod_lt (n / 8) (by decide))])
  have hthird : run (.octal false (8 * (n / 8 / 8 % 8) + n / 8 % 8)) [Nat.digitChar (n % 8)] =
      some ([n.toUInt8], .plain) :=
    run_singleton (by
      simp [step, octalDigit?_digitChar _ (Nat.mod_lt n (by decide)), hvalue, byte?, h])
  exact run_append hstart (run_append hfirst (run_append hsecond hthird))

theorem run_octals (bytes : List UInt8) :
    run .plain (bytes.flatMap fun byte => octal byte.toNat) = some (bytes, .plain) := by
  induction bytes with
  | nil => rfl
  | cons b bytes ih =>
    rw [List.flatMap_cons]
    have hb := run_append (run_octal b.toNat_lt) ih
    rwa [Nat.toUInt8, UInt8.ofNat_toNat] at hb

/-- A digit may follow an escape, as it is not taken for a part of it. -/
example : run .plain (octal 1 ++ ['9']) = some ([1, 0x39], .plain) := by decide

/-- All digits but the last of a universal character name. -/
theorem run_fixed {width n : Nat} (h : n < 16 ^ width) (more value : Nat) :
    run (.universal (more + width) value) (fixed 16 width n) =
      some ([], .universal more (16 ^ width * value + n)) := by
  induction width generalizing n more with
  | zero =>
    have hn : n = 0 := by simpa using h
    simp [fixed, run, hn]
  | succ width ih =>
    have hn : n / 16 < 16 ^ width := by
      rw [Nat.pow_succ] at h
      omega
    have hlast : run (.universal (more + 1) (16 ^ width * value + n / 16))
        [Nat.digitChar (n % 16)] = some ([], .universal more (16 ^ (width + 1) * value + n)) := by
      have hvalue : 16 * (16 ^ width * value + n / 16) + n % 16 = 16 ^ (width + 1) * value + n := by
        rw [Nat.pow_succ', Nat.mul_add, Nat.add_assoc, Nat.div_add_mod, Nat.mul_assoc]
      refine run_singleton ?_
      simp [step, digit?_digitChar _ (Nat.mod_lt n (by decide)), hvalue]
    have hall := run_append (ih hn (more + 1)) hlast
    rwa [Nat.add_assoc, Nat.add_comm 1] at hall

theorem run_universal {width n : Nat} (h : n < 16 ^ (width + 1)) (hvalid : n.isValidChar)
    (hlow : 0xa0 ≤ n) : run (.universal width 0) (fixed 16 (width + 1) n) =
      some (String.utf8EncodeChar (Char.ofNat n), .plain) := by
  have hn : n / 16 < 16 ^ width := by
    rw [Nat.pow_succ] at h
    omega
  have hfirst := run_fixed hn 0 0
  rw [Nat.zero_add, Nat.mul_zero, Nat.zero_add] at hfirst
  have hnamed : named? (16 * (n / 16) + n % 16) = some (String.utf8EncodeChar (Char.ofNat n)) := by
    rw [Nat.div_add_mod]
    exact if_pos ⟨hvalid, hlow⟩
  refine run_append hfirst (run_singleton ?_)
  rw [step, digit?_digitChar _ (Nat.mod_lt n (by decide)), Option.bind_eq_bind, Option.bind_some,
    hnamed]
  rfl

/-! ## Escaped texts -/

theorem utf8EncodeChar_of_ascii {c : Char} (h : c.toNat < 0x80) :
    String.utf8EncodeChar c = [c.toNat.toUInt8] := by
  have hv : c.val.toNat ≤ 127 := Nat.le_of_lt_succ h
  simp only [String.utf8EncodeChar, hv, if_true]
  rfl

theorem run_escapeChar (c : Char) :
    run .plain (escapeChar c) = some (String.utf8EncodeChar c, .plain) := by
  have hlt : c.toNat < 0x110000 := by
    have hvalid := c.valid
    unfold UInt32.isValidChar Nat.isValidChar at hvalid
    unfold Char.toNat
    omega
  have hname : run .plain ['\\'] = some ([], .backslash) := rfl
  have hshortName : run .backslash ['u'] = some ([], .universal 3 0) := rfl
  have hlongName : run .backslash ['U'] = some ([], .universal 7 0) := rfl
  unfold escapeChar
  split_ifs with hquote hbackslash hnewline hreturn htab hcontrol hascii hc1 hshort
  · subst hquote
    rfl
  · subst hbackslash
    rfl
  · subst hnewline
    rfl
  · subst hreturn
    rfl
  · subst htab
    rfl
  · rw [utf8EncodeChar_of_ascii (by omega)]
    exact run_octal (by omega)
  · rw [utf8EncodeChar_of_ascii hascii]
    refine run_singleton ?_
    have hprintable : 0x20 ≤ c.toNat ∧ c.toNat < 0x7f := by omega
    simp [step, plainStep, hquote, hbackslash, hprintable]
  · exact run_octals _
  · have hdigits : run (.universal 3 0) (fixed 16 4 c.toNat) =
        some (String.utf8EncodeChar (Char.ofNat c.toNat), .plain) :=
      run_universal (by omega) c.valid (by omega)
    rw [Char.ofNat_toNat] at hdigits
    exact run_append hname (run_append hshortName hdigits)
  · have hdigits : run (.universal 7 0) (fixed 16 8 c.toNat) =
        some (String.utf8EncodeChar (Char.ofNat c.toNat), .plain) :=
      run_universal (by omega) c.valid (by omega)
    rw [Char.ofNat_toNat] at hdigits
    exact run_append hname (run_append hlongName hdigits)

/-- An escaped text is read as the UTF-8 form of the text. -/
theorem run_escape (text : List Char) :
    run .plain (escape text) = some (text.flatMap String.utf8EncodeChar, .plain) := by
  induction text with
  | nil => rfl
  | cons c text ih => exact run_append (run_escapeChar c) ih

/-- The quote that closes the body is the one behind the escaped text. -/
theorem read_escape (text after : List Char) :
    read .plain (escape text ++ '"' :: after) =
      some (text.flatMap String.utf8EncodeChar, after) := by
  rw [read_append (run_escape text)]
  simp [read, step, plainStep]

theorem step_newline (s : State) : step s '\n' = none := by
  cases s with
  | universal more value => rfl
  | octal more value =>
    have hdigit : digit? 8 '\n' = none := by decide
    have hplain : plainStep '\n' = none := by decide
    simp [step, hdigit, hplain]
  | _ => rfl

theorem newline_notMem_of_run (h : run s text = some (bytes, s')) : '\n' ∉ text := by
  induction text generalizing s bytes with
  | nil => exact List.not_mem_nil
  | cons c text ih =>
    obtain ⟨first, s₁, rest, hstep, hrest, -⟩ := run_cons_eq_some h
    intro hm
    rcases List.mem_cons.1 hm with rfl | hm
    · rw [step_newline] at hstep
      cases hstep
    · exact ih hrest hm

theorem newline_notMem_escape (text : List Char) : '\n' ∉ escape text :=
  newline_notMem_of_run (run_escape text)

theorem toList_toUTF8 (text : String) :
    text.toUTF8.data.toList = text.toList.flatMap String.utf8EncodeChar := by
  rw [String.toUTF8, ← String.utf8Encode_toList, List.utf8Encode, List.data_toByteArray]

end ObjectLowering.Text.StringLiteral
