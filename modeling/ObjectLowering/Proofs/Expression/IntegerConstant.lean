import ObjectLowering.Proofs.Expression.Integer
import ObjectLowering.Proofs.Expression.Reader
import ObjectLowering.Proofs.Text.StringLiteral
import ObjectLowering.Tree.Render
import ObjectLowering.Type.Interface

/-!
# ObjectLowering.Proofs.Expression.IntegerConstant

Integer literals as integer constant expressions of C.

* `hexadecimal?`, `decimal`: the grammar of expressions reads decimal integers; a hexadecimal one is
  read as the decimal one of the same value.
* `Expression.value?`: the value of a constant expression, if no operand and no result is outside the
  range of a signed 64-bit integer.
* `Denotes`: the text is one expression, and it has this value.
* `tokens_intLiteral`: sign and magnitude are the tokens of the literal of an integer that is not the
  least.
* `integerConstants_denote`: the literal of an integer denotes it, its tokens are small enough for their
  suffixes, and no other integer has the same literal.
-/

namespace ObjectLowering

open Text.Lexical Grammar

namespace Grammar

variable {token : Token} {value : Nat}

def isHexDigit (c : Char) : Bool :=
  (Text.StringLiteral.digit? 16 c).isSome

/-- The value of the digits behind `0x`. -/
def hexadecimal? : Token → Option Nat
  | '0' :: 'x' :: text =>
    let digits := text.takeWhile isHexDigit
    if digits ≠ [] ∧ [[], ['L', 'L']].contains (text.dropWhile isHexDigit) then
      some (digits.foldl (fun value c => 16 * value + (Text.StringLiteral.digit? 16 c).getD 0) 0)
    else none
  | _ => none

/-- The token has the suffix of the wider integer type. -/
def isLong (token : Token) : Bool :=
  ['L', 'L'].isSuffixOf token

/-- A hexadecimal integer in decimal digits; every other token stays. -/
def decimal (token : Token) : Token :=
  match hexadecimal? token with
  | some value => Nat.toDigits 10 value ++ if isLong token then ['L', 'L'] else []
  | none => token

theorem hexadecimal?_of_integer? (h : integer? token = some value) : hexadecimal? token = none := by
  unfold hexadecimal?
  split
  · -- the digits of a decimal integer do not end at `x`
    rename_i text
    rw [integer?, List.takeWhile_cons_of_pos (by decide), List.dropWhile_cons_of_pos (by decide),
      List.takeWhile_cons_of_neg (by decide), List.dropWhile_cons_of_neg (by decide)] at h
    simp at h
  · rfl

theorem decimal_of_integer? (h : integer? token = some value) : decimal token = token := by
  rw [decimal, hexadecimal?_of_integer? h]

example : decimal "0xffLL".toList = "255LL".toList ∧ decimal "0x".toList = "0x".toList := by
  decide

end Grammar

/-! ## Values of constant expressions -/

/-- The value as one of a signed 64-bit integer, if it is in range. -/
def inRange? (value : Int) : Option Int :=
  if Int64.minValue.toInt ≤ value ∧ value ≤ Int64.maxValue.toInt then some value else none

theorem inRange?_toInt (value : Int64) : inRange? value.toInt = some value.toInt :=
  if_pos ⟨value.minValue_le_toInt, value.toInt_le⟩

/-- The value of a number, of a negated expression and of a difference. -/
def Expression.value? : Expression → Option Int
  | .number value => inRange? value
  | .unary .negate operand => do inRange? (-(← operand.value?))
  | .binary .subtract left right => do inRange? ((← left.value?) - (← right.value?))
  | _ => none

/-- The tokens of a text, as the grammar reads them. -/
def constantTokens (text : String) : List Token :=
  (tokens text.toList).map decimal

/-- The text is one expression, and it has this value. -/
def Denotes (text : String) (value : Int) : Prop :=
  ∃ e, (∀ e', Derives 0 (constantTokens text) e' ↔ e' = e) ∧ e.value? = some value

theorem Denotes.of_derives {text : String} {e : Expression} {value : Int}
    (h : Derives 0 (constantTokens text) e) (hvalue : e.value? = some value) : Denotes text value :=
  ⟨e, fun _ => ⟨fun h' => derives_unique h' h, fun he => he ▸ h⟩, hvalue⟩

theorem Denotes.unique {text : String} {value value' : Int} (h : Denotes text value)
    (h' : Denotes text value') : value = value' := by
  obtain ⟨e, he, hvalue⟩ := h
  obtain ⟨e', he', hvalue'⟩ := h'
  obtain rfl : e = e' := (he' e).1 ((he e).2 rfl)
  exact Option.some.inj (hvalue.symm.trans hvalue')

/-! ## Literals -/

variable {value : Int64}

/-- The digits of the absolute value, with the suffix that the literal has. -/
def magnitude (value : Int64) : Token :=
  Nat.toDigits 10 value.toInt.natAbs ++
    if Int32.minValue.toInt ≤ value.toInt ∧ value.toInt ≤ Int32.maxValue.toInt then []
    else ['L', 'L']

theorem toList_toString_int (n : Int) :
    (toString n).toList = (if n < 0 then ['-'] else []) ++ Nat.toDigits 10 n.natAbs := by
  cases n with
  | ofNat n =>
    have hnonneg : ¬ Int.ofNat n < 0 := Int.not_lt.2 (Int.natCast_nonneg n)
    rw [if_neg hnonneg]
    exact Nat.toList_repr
  | negSucc n =>
    rw [if_pos (Int.negSucc_lt_zero n)]
    show ("-" ++ n.succ.repr).toList = _
    rw [String.toList_append, Nat.toList_repr]
    rfl

theorem toList_intLiteral (h : value ≠ Int64.minValue) :
    (intLiteral value).toList = (if value.toInt < 0 then ['-'] else []) ++ magnitude value := by
  rw [intLiteral, if_neg h, magnitude, ← List.append_assoc, ← toList_toString_int]
  split
  · rw [List.append_nil]
  · rw [String.toList_append]
    rfl

theorem integer?_magnitude (value : Int64) :
    integer? (magnitude value) = some value.toInt.natAbs := by
  refine integer?_toDigits_append _ ?_
  split <;> decide

theorem tokens_intLiteral (h : value ≠ Int64.minValue) :
    tokens (intLiteral value).toList =
      (if value.toInt < 0 then [['-']] else []) ++ [magnitude value] := by
  have hsplits := splitsInto_of_integer? (integer?_magnitude value)
  rw [toList_intLiteral h]
  split
  · cases hcons : magnitude value with
    | nil =>
      have hinteger := integer?_magnitude value
      rw [hcons] at hinteger
      cases hinteger
    | cons c text =>
      -- a digit goes on with no punctuator that begins with a minus sign
      have hdigit : c.isDigit = true := isDigit_of_integer? (hcons ▸ integer?_magnitude value)
      obtain ⟨hmark, htoken, hextensions⟩ := UnaryOp.isMark_spelling .negate
      have hc : c ∉ extensions ['-'] := by
        intro hc
        have hword : isWordChar c = false := (hextensions c hc).1
        rw [isWordChar, hdigit, Bool.or_true] at hword
        cases hword
      rw [hcons] at hsplits
      exact (hsplits.behind_mark hmark htoken hc).tokens_eq
  · exact hsplits.tokens_eq

theorem constantTokens_intLiteral (h : value ≠ Int64.minValue) :
    constantTokens (intLiteral value) =
      (if value.toInt < 0 then [['-']] else []) ++ [magnitude value] := by
  rw [constantTokens, tokens_intLiteral h, List.map_append, List.map_singleton,
    decimal_of_integer? (integer?_magnitude value)]
  split <;> rfl

theorem tokens_least : tokens (intLiteral Int64.minValue).toList =
    ["(", "-", "0x7fffffffffffffffLL", "-", "1", ")"].map String.toList := by
  decide +kernel

theorem natAbs_toInt_le (h : value ≠ Int64.minValue) :
    (value.toInt.natAbs : Int) ≤ Int64.maxValue.toInt := by
  have hne : value.toInt ≠ Int64.minValue.toInt := fun heq => h (Int64.toInt_inj.1 heq)
  have hlow := value.minValue_le_toInt
  have hhigh := value.toInt_le
  have hsum : Int64.minValue.toInt + Int64.maxValue.toInt = -1 := by decide
  omega

theorem inRange?_natAbs (h : value ≠ Int64.minValue) :
    inRange? value.toInt.natAbs = some (value.toInt.natAbs : Int) := by
  have hmin : Int64.minValue.toInt ≤ 0 := by decide
  exact if_pos ⟨by omega, natAbs_toInt_le h⟩

/-- An integer with a short literal is one of 32 bits. -/
theorem natAbs_toInt_le_of_not_isLong (h : isLong (magnitude value) = false) :
    value.toInt.natAbs ≤ 2 ^ 31 := by
  by_cases hnarrow : Int32.minValue.toInt ≤ value.toInt ∧ value.toInt ≤ Int32.maxValue.toInt
  · have hmin : Int32.minValue.toInt = -2 ^ 31 := by decide
    have hmax : Int32.maxValue.toInt ≤ 2 ^ 31 := by decide
    omega
  · rw [magnitude, if_neg hnarrow] at h
    have hlong : isLong (Nat.toDigits 10 value.toInt.natAbs ++ ['L', 'L']) = true :=
      List.isSuffixOf_iff_suffix.2 (List.suffix_append _ _)
    rw [hlong] at h
    cases h

/-- The difference that stands for the least value. -/
theorem denotes_least : Denotes (intLiteral Int64.minValue) Int64.minValue.toInt := by
  have htokens : constantTokens (intLiteral Int64.minValue) =
      opening :: (([['-'], "9223372036854775807LL".toList] ++ ['-'] :: [['1']]) ++ [closing]) := by
    rw [constantTokens, tokens_least]
    decide
  have hleft : Derives 9 [['-'], "9223372036854775807LL".toList]
      (.unary .negate (.number 9223372036854775807)) :=
    (Derives.unary rfl ((Derives.number (by decide)).of_le (by decide))).of_le (by decide)
  have hright : Derives 10 [['1']] (.number 1) := (Derives.number (by decide)).of_le (by decide)
  have hminus : binaryOperators.lookup ['-'] = some (9, .subtract) := by decide
  have hdifference := (Derives.binary hleft hminus hright).of_le (Nat.zero_le 9)
  have hderives := hdifference.parenthesized.of_le (Nat.zero_le 13)
  rw [← htokens] at hderives
  exact .of_derives hderives (by decide)

theorem denotes_intLiteral (value : Int64) : Denotes (intLiteral value) value.toInt := by
  by_cases h : value = Int64.minValue
  · exact h ▸ denotes_least
  · have hnumber : Derives 13 [magnitude value] (.number value.toInt.natAbs) :=
      .number (integer?_magnitude value)
    have hoperand := inRange?_natAbs h
    by_cases hneg : value.toInt < 0
    · have hvalue : -(value.toInt.natAbs : Int) = value.toInt := by omega
      refine .of_derives (e := .unary .negate (.number value.toInt.natAbs)) ?_ ?_
      · rw [constantTokens_intLiteral h, if_pos hneg]
        exact (Derives.unary rfl (hnumber.of_le (by decide))).of_le (by decide)
      · rw [Expression.value?, Expression.value?, hoperand]
        show inRange? (-(value.toInt.natAbs : Int)) = some value.toInt
        rw [hvalue, inRange?_toInt]
    · have hvalue : (value.toInt.natAbs : Int) = value.toInt := by omega
      refine .of_derives (e := .number value.toInt.natAbs) ?_ ?_
      · rw [constantTokens_intLiteral h, if_neg hneg]
        exact hnumber.of_le (by decide)
      · rw [Expression.value?, hoperand, hvalue]

/-- The least value is no exception: its literal has tokens for its neighbour and for one. -/
theorem bound_of_mem_tokens {token : Token} (htoken : token ∈ tokens (intLiteral value).toList)
    {n : Nat} (hn : integer? (decimal token) = some n) :
    (n : Int) ≤ Int64.maxValue.toInt ∧ (isLong token = false → n ≤ 2 ^ 31) := by
  by_cases h : value = Int64.minValue
  · subst h
    rw [tokens_least] at htoken
    have hall : ∀ token ∈ ["(", "-", "0x7fffffffffffffffLL", "-", "1", ")"].map String.toList,
        ∀ n ∈ integer? (decimal token), (n : Int) ≤ Int64.maxValue.toInt ∧
          (isLong token = false → n ≤ 2 ^ 31) := by
      decide
    exact hall token htoken n hn
  · rw [tokens_intLiteral h] at htoken
    have hmark : integer? (decimal ['-']) = none := by decide
    obtain rfl : token = magnitude value := by
      rcases List.mem_append.1 htoken with hsign | hmagnitude
      · split at hsign
        · rw [List.mem_singleton.1 hsign, hmark] at hn
          cases hn
        · cases hsign
      · exact List.mem_singleton.1 hmagnitude
    rw [decimal_of_integer? (integer?_magnitude value), integer?_magnitude] at hn
    obtain rfl : value.toInt.natAbs = n := Option.some.inj hn
    exact ⟨natAbs_toInt_le h, natAbs_toInt_le_of_not_isLong⟩

/-- The literal of an integer, which is the text of its constants and of its uses inline, denotes it.
No token is above the range of a signed 64-bit integer, nor above `2 ^ 31` without a suffix. -/
theorem integerConstants_denote : Function.Injective intLiteral ∧ ∀ value : Int64,
    (∀ env d exported v, v.isPrimitiveConstant = true → v.constant = some (.int value) →
      TypeDeclaration.staticFieldLines env d exported v =
        ["#define " ++ d.storage v ++ " " ++ intLiteral value]) ∧
    (∀ r : Renderer, r.literal (.int value) = intLiteral value) ∧
    Denotes (intLiteral value) value.toInt ∧
    ∀ token ∈ tokens (intLiteral value).toList, ∀ n, integer? (decimal token) = some n →
      (n : Int) ≤ Int64.maxValue.toInt ∧ (isLong token = false → n ≤ 2 ^ 31) := by
  refine ⟨fun value value' heq => ?_, fun value => ⟨?_, fun _ => rfl, denotes_intLiteral value,
    fun token htoken n hn => bound_of_mem_tokens htoken hn⟩⟩
  · have hvalue := denotes_intLiteral value
    rw [heq] at hvalue
    exact Int64.toInt_inj.1 (hvalue.unique (denotes_intLiteral value'))
  · intro env d exported v hconstant hvalue
    rw [TypeDeclaration.staticFieldLines, if_pos hconstant, hvalue]
    rfl

end ObjectLowering
