import Mathlib.Data.Bool.AllAny
import ObjectLowering.Proofs.Expression.Grammar
import ObjectLowering.Proofs.Expression.Rendered

/-!
# ObjectLowering.Proofs.Expression.PrefixOperator

When a prefix operator is a token apart from its operand.

* `UnaryOp.tokens_iff`: just if the text behind it does not go on with it.
* `LeadsWith`: an expression begins with an operator or a sign, because the part at its front is an
  operation of a prefix operator or a negative number. `head?_of_leadsWith`: that is the first
  character of its text. `quiet_or_leadsWith`: any other text goes on with no prefix operator, where
  names are words.
* `prefix_tokens_iff`: the operator is a token apart unless it is a minus and its operand is not
  enclosed and leads with a minus, or the same with a plus.
* `negated_negative_fuses`: the minus in front of a negative literal is no token of its own.
-/

namespace ObjectLowering

open Text.Lexical (tokens isPiece isLetter isWordChar isBlank extensions)

/-! ## The text behind the operator -/

/-- The characters that may go on with a prefix operator. -/
def UnaryOp.extending : List Char :=
  ['-', '+', '=', '>']

/-- The characters with which a prefix operator begins, and a negative number. -/
def UnaryOp.leading : List Char :=
  ['-', '+', '!', '~', '*']

/-- A minus goes on with a minus and a plus with a plus, and no other operator with an operator. -/
theorem UnaryOp.extensions_spelling (op : UnaryOp) :
    (∀ c ∈ extensions op.spelling.toList, c ∈ extending) ∧
      ∀ c ∈ leading, c ∈ extensions op.spelling.toList ↔
        (op = .negate ∧ c = '-') ∨ (op = .plus ∧ c = '+') := by
  cases op <;>
    exact ⟨List.all_iff_forall_prop.1 (by decide), List.all_iff_forall_prop.1 (by decide)⟩

/-- What goes on with the operator makes a longer piece. -/
theorem UnaryOp.exists_longer (op : UnaryOp) : ∃ first behind, op.spelling.toList = first :: behind ∧
    first ≠ '/' ∧ isBlank first = false ∧
      ∀ c ∈ extensions op.spelling.toList, isPiece (first :: (behind ++ [c])) = true := by
  cases op <;> exact ⟨_, _, rfl, by decide, by decide, List.all_iff_forall_prop.1 (by decide)⟩

theorem UnaryOp.tokens_iff (op : UnaryOp) (body : List Char) :
    tokens (op.spelling.toList ++ body) = op.spelling.toList :: tokens body ↔
      ∀ c ∈ body.head?, c ∉ extensions op.spelling.toList := by
  obtain ⟨hmark, htoken, -⟩ := op.isMark_spelling
  constructor
  · intro h c hc hextends
    obtain ⟨first, behind, hspelling, hslash, hblank, hlonger⟩ := op.exists_longer
    obtain ⟨rest, rfl⟩ := List.head?_eq_some_iff.1 hc
    have hpiece := hlonger c hextends
    rw [hspelling] at h
    exact Text.Lexical.tokens_ne_of_isPiece hpiece hslash hblank h
  · intro h
    exact Text.Lexical.tokens_append (Text.Lexical.isPiece_of_isMark hmark) htoken fun c hc =>
      Text.Lexical.stops_mark hmark (h c hc)

/-! ## The front of an expression -/

/-- The number is written with a sign in front. The least integer is written in parentheses. -/
def Literal.isSigned : Literal → Bool
  | .int value => value.toInt < 0 && value ≠ Int64.minValue
  | .double value =>
    match value.value with
    | .notANumber => false
    | .infinite negative | .zero negative | .finite negative .. => negative
  | _ => false

namespace Renderer

/-- The text of the expression begins with an operator or a sign, and this is its first character. -/
inductive LeadsWith (r : Renderer) : NodeId → Char → Prop where
  | signed {id : NodeId} {value : Literal} : r.tree.IsPlain id (.literal value) →
    value.isSigned = true → LeadsWith r id '-'
  | unary {id operand : NodeId} {op : UnaryOp} {c : Char} : r.tree.IsPlain id (.unary op operand) →
    op.spelling.toList.head? = some c → LeadsWith r id c
  | step {id operand : NodeId} {op : StepOp} {kind : NodeKind} {c : Char} :
    r.tree.IsPlain id (.step op operand) → r.tree.kind? operand = some kind →
      isOperation kind = false → LeadsWith r operand c → LeadsWith r id c
  | binary {id left right : NodeId} {op : BinaryOp} {kind : NodeKind} {c : Char} :
    r.tree.IsPlain id (.binary op left right) → r.tree.kind? left = some kind →
      looserLeft op kind = false → LeadsWith r left c → LeadsWith r id c
  | assignment {id target value : NodeId} {op : AssignOp} {c : Char} :
    r.tree.IsPlain id (.assignment op target value) → LeadsWith r target c → LeadsWith r id c
  | qualifiedName {id qualifier name : NodeId} {joint : String} {c : Char} :
    r.tree.IsPlain id (.qualifiedName qualifier name) →
      r.memberForm? name "." = some (.behind joint) → LeadsWith r qualifier c → LeadsWith r id c
  | fieldAccess {id base name : NodeId} {joint : String} {c : Char} :
    r.tree.IsPlain id (.fieldAccess base name) →
      r.memberForm? name "->" = some (.behind joint) → LeadsWith r base c → LeadsWith r id c

variable {r : Renderer} {id : NodeId} {text : String} {c : Char}

theorem head?_append {s t : String} (h : s.toList.head? = some c) :
    (s ++ t).toList.head? = some c := by
  rw [String.toList_append, List.head?_append, h, Option.some_or]

theorem encloseIf_false {needed : Bool} (h : needed = false) : encloseIf needed text = text := by
  rw [h, encloseIf, if_neg Bool.false_ne_true]

theorem head?_toString_of_neg {value : Int} (h : value < 0) :
    (toString value).toList.head? = some '-' := by
  cases value with
  | ofNat n => exact absurd h (Int.not_lt.2 (Int.natCast_nonneg n))
  | negSucc n => exact head?_append (s := "-") rfl

theorem head?_of_isSigned {value : Literal} (h : value.isSigned = true) :
    (r.literal value).toList.head? = some '-' := by
  cases value with
  | int value =>
    obtain ⟨hneg, hleast⟩ := Bool.and_eq_true_iff.1 h
    have hsign := head?_toString_of_neg (of_decide_eq_true hneg)
    rw [literal, intLiteral, if_neg (of_decide_eq_true hleast)]
    split
    · exact hsign
    · exact head?_append hsign
  | double value =>
    rw [literal, doubleLiteral]
    rw [Literal.isSigned] at h
    cases hvalue : value.value with
    | notANumber =>
      rw [hvalue] at h
      cases h
    | infinite negative | zero negative | finite negative =>
      rw [hvalue] at h
      obtain rfl : negative = true := h
      exact head?_append (s := "-") rfl
  | _ => cases h

theorem head?_of_leadsWith (hleads : r.LeadsWith id c) (h : r.expression id = .ok text) :
    text.toList.head? = some c := by
  induction hleads generalizing text with
  | signed hplain hsigned =>
    cases (expression_plain_iff hplain).1 h
    exact head?_of_isSigned hsigned
  | unary hplain hc =>
    cases (expression_plain_iff hplain).1 h
    exact head?_append hc
  | step hplain hkind hoperation _ ih =>
    cases (expression_plain_iff hplain).1 h with
    | step hoperand hkind' =>
      obtain rfl := Option.some.inj (hkind.symm.trans hkind')
      rw [encloseIf_false hoperation]
      exact head?_append (ih hoperand)
  | binary hplain hkind hlooser _ ih =>
    cases (expression_plain_iff hplain).1 h with
    | binary hleft hkind' _ _ =>
      obtain rfl := Option.some.inj (hkind.symm.trans hkind')
      rw [encloseIf_false hlooser]
      exact head?_append (head?_append (head?_append (head?_append (ih hleft))))
  | assignment hplain _ ih =>
    cases (expression_plain_iff hplain).1 h with
    | assignment htarget _ =>
      exact head?_append (head?_append (head?_append (head?_append (ih htarget))))
  | qualifiedName hplain hform _ ih =>
    cases (expression_plain_iff hplain).1 h with
    | qualifiedName hmember =>
      cases hmember with
      | alone hform' =>
        rw [hform] at hform'
        cases hform'
      | behind _ hbase => exact head?_append (ih hbase)
  | fieldAccess hplain hform _ ih =>
    cases (expression_plain_iff hplain).1 h with
    | fieldAccess hmember =>
      cases hmember with
      | alone hform' =>
        rw [hform] at hform'
        cases hform'
      | behind _ hbase => exact head?_append (ih hbase)

/-! ## Fronts that go on with no operator -/

/-- The text begins with a character that goes on with no prefix operator. -/
def Quiet (text : String) : Prop :=
  ∃ c, text.toList.head? = some c ∧ c ∉ UnaryOp.extending

theorem Quiet.append {s : String} (h : Quiet s) (t : String) : Quiet (s ++ t) := by
  obtain ⟨c, hc, hquiet⟩ := h
  exact ⟨c, head?_append hc, hquiet⟩

theorem quiet_of_word (h : text.toList.head? = some c) (hword : isWordChar c = true) : Quiet text := by
  have hextending : ∀ d ∈ UnaryOp.extending, isWordChar d = false :=
    List.all_iff_forall_prop.1 (by decide)
  refine ⟨c, h, fun hc => ?_⟩
  rw [hextending c hc] at hword
  cases hword

theorem quiet_enclose (text : String) : Quiet (enclose text) :=
  ⟨'(', by rw [toList_enclose]; rfl, by decide⟩

/-- The text begins like a word. -/
def BeginsLikeWord (text : String) : Prop :=
  ∃ c, text.toList.head? = some c ∧ isLetter c = true

theorem BeginsLikeWord.quiet (h : BeginsLikeWord text) : Quiet text := by
  obtain ⟨c, hc, hletter⟩ := h
  exact quiet_of_word hc (Text.Lexical.isWordChar_of_isLetter hletter)

/-- Every name that may be written begins like a word. -/
structure NamesAreWords (r : Renderer) : Prop where
  simpleName : ∀ {id name binding}, r.tree.kind? id = some (.simpleName name binding) →
    BeginsLikeWord (r.simpleName name binding)
  functionCall : ∀ {id function arguments},
    r.tree.kind? id = some (.functionCall function arguments) → BeginsLikeWord function.name
  slot : ∀ {value name}, r.slot? value = some name → BeginsLikeWord name

theorem exists_digit_toDigits (n : Nat) :
    ∃ c behind, Nat.toDigits 10 n = c :: behind ∧ isWordChar c = true := by
  obtain ⟨c, behind, hcons⟩ : ∃ c behind, Nat.toDigits 10 n = c :: behind :=
    List.exists_cons_of_ne_nil Nat.toDigits_ne_nil
  have hmem : c ∈ Nat.toDigits 10 n := by
    rw [hcons]
    exact List.mem_cons_self
  have hdigit := Nat.isDigit_of_mem_toDigits (by decide) (by decide) hmem
  exact ⟨c, behind, hcons, by rw [isWordChar, hdigit, Bool.or_true]⟩

theorem quiet_decimalText (d : Number.Decimal) : Quiet (decimalText d) := by
  obtain ⟨c, behind, hcons, hword⟩ := exists_digit_toDigits d.digits
  have hdigits : d.digitChars = c :: behind := hcons
  have hfront : ∃ e, (if isPositional d.leadingExponent then d.positional else d.scientific).head? =
      some e ∧ isWordChar e = true := by
    split
    · simp only [Number.Decimal.positional, hdigits]
      split
      · exact ⟨c, rfl, hword⟩
      · split
        · rename_i hwhole
          obtain ⟨n, hn⟩ := Int.eq_succ_of_zero_lt hwhole
          exact ⟨c, by rw [hn]; rfl, hword⟩
        · exact ⟨'0', rfl, by decide⟩
    · exact ⟨c, by simp [Number.Decimal.scientific, hdigits], hword⟩
  obtain ⟨e, he, hword⟩ := hfront
  exact quiet_of_word (by rw [decimalText, String.toList_ofList, he]) hword

theorem quiet_literal (hnames : r.NamesAreWords) {value : Literal} (h : value.isSigned = false) :
    Quiet (r.literal value) := by
  cases value with
  | int value =>
    rw [literal, intLiteral]
    split
    · exact ⟨'(', rfl, by decide⟩
    · rename_i hleast
      have hpos : 0 ≤ value.toInt := by
        simpa [Literal.isSigned, hleast] using h
      obtain ⟨c, behind, hcons, hword⟩ := exists_digit_toDigits value.toInt.toNat
      have hquiet : Quiet (toString value.toInt) := by
        refine quiet_of_word ?_ hword
        rw [← Int.toNat_of_nonneg hpos]
        exact (congrArg List.head? (Nat.toList_repr.trans hcons))
      split
      · exact hquiet
      · exact hquiet.append "LL"
  | double value =>
    rw [literal, doubleLiteral]
    rw [Literal.isSigned] at h
    cases hvalue : value.value with
    | notANumber =>
      show Quiet "NAN"
      exact ⟨'N', rfl, by decide⟩
    | infinite negative =>
      rw [hvalue] at h
      obtain rfl : negative = false := h
      show Quiet "INFINITY"
      exact ⟨'I', rfl, by decide⟩
    | zero negative =>
      rw [hvalue] at h
      obtain rfl : negative = false := h
      show Quiet "0.0"
      exact ⟨'0', rfl, by decide⟩
    | finite negative =>
      rw [hvalue] at h
      obtain rfl : negative = false := h
      exact quiet_decimalText _
  | bool value =>
    cases value with
    | true =>
      show Quiet "true"
      exact ⟨'t', rfl, by decide⟩
    | false =>
      show Quiet "false"
      exact ⟨'f', rfl, by decide⟩
  | char unit =>
    rw [literal, charLiteral]
    split
    · exact ⟨'\x27', rfl, by decide⟩
    · split
      · exact ⟨'\x27', rfl, by decide⟩
      · split
        · exact Quiet.append (Quiet.append ⟨'\x27', rfl, by decide⟩ _) _
        · exact Quiet.append ⟨'0', rfl, by decide⟩ _
  | string value =>
    rw [literal]
    cases hslot : r.slot? value with
    | some name => exact (hnames.slot hslot).quiet
    | none => exact Quiet.append (Quiet.append ⟨'@', rfl, by decide⟩ _) _
  | null =>
    show Quiet "nil"
    exact ⟨'n', rfl, by decide⟩

theorem quiet_of_member (hnames : r.NamesAreWords) {name : NodeId} {separator : String}
    (h : r.memberForm? name separator = some (.alone text)) : Quiet text := by
  unfold memberForm? at h
  split at h
  · rename_i word v hkind
    split at h
    · rename_i variableBinding hvariable
      split at h
      · have hname := hnames.simpleName hkind
        rw [simpleName, hvariable] at hname
        cases h
        exact hname.quiet
      · cases h
    · cases h
  · rename_i hkind
    cases h
    exact (hnames.simpleName hkind).quiet
  · cases h
  · cases h

/-- Where names are words, a text goes on with no prefix operator unless its expression leads with one
or with a sign. -/
theorem quiet_or_leadsWith (hnames : r.NamesAreWords) (h : r.expression id = .ok text) :
    Quiet text ∨ ∃ c, r.LeadsWith id c := by
  refine expression_induction (motive := fun id text => Quiet text ∨ ∃ c, r.LeadsWith id c) ?_ h
  intro id node inner hnode hwrites
  cases hcheck : node.nilCheck with
  | true =>
    rw [guarded, hcheck, if_pos rfl]
    exact .inl (Quiet.append ⟨'n', rfl, by decide⟩ _)
  | false =>
    rw [guarded_of_plain hcheck]
    have hplain : r.tree.IsPlain id node.kind := ⟨node, hnode, rfl, hcheck⟩
    have hkind := hplain.kind?_eq
    generalize node.kind = kind at hwrites hplain hkind
    cases hwrites with
    | assignment htarget =>
      rcases htarget.2 with hquiet | ⟨c, hc⟩
      · exact .inl ((((hquiet.append _).append _).append _).append _)
      · exact .inr ⟨c, .assignment hplain hc⟩
    | simpleName => exact .inl (hnames.simpleName hkind).quiet
    | qualifiedName hmember =>
      cases hmember with
      | alone hform => exact .inl (quiet_of_member hnames hform)
      | behind hform hbase =>
        rcases hbase.2 with hquiet | ⟨c, hc⟩
        · exact .inl (hquiet.append _)
        · exact .inr ⟨c, .qualifiedName hplain hform hc⟩
    | fieldAccess hmember =>
      cases hmember with
      | alone hform => exact .inl (quiet_of_member hnames hform)
      | behind hform hbase =>
        rcases hbase.2 with hquiet | ⟨c, hc⟩
        · exact .inl (hquiet.append _)
        · exact .inr ⟨c, .fieldAccess hplain hform hc⟩
    | methodCall | implicitCall =>
      exact .inl ((((Quiet.append ⟨'[', rfl, by decide⟩ _).append _).append _).append _)
    | functionCall => exact .inl ((hnames.functionCall hkind).quiet.append _)
    | @unary op operand =>
      obtain ⟨first, behind, hspelling, -⟩ := op.exists_longer
      exact .inr ⟨first, .unary hplain (by rw [hspelling]; rfl)⟩
    | @step op operand operandKind text hoperand hoperandKind =>
      cases hoperation : isOperation operandKind with
      | true => exact .inl ((quiet_enclose text).append _)
      | false =>
        rw [encloseIf_false rfl]
        rcases hoperand.2 with hquiet | ⟨c, hc⟩
        · exact .inl (hquiet.append _)
        · exact .inr ⟨c, .step hplain hoperandKind hoperation hc⟩
    | @binary op left right leftKind rightKind leftText rightText hleft hleftKind =>
      cases hlooser : looserLeft op leftKind with
      | true => exact .inl (((((quiet_enclose leftText).append _).append _).append _).append _)
      | false =>
        rw [encloseIf_false rfl]
        rcases hleft.2 with hquiet | ⟨c, hc⟩
        · exact .inl ((((hquiet.append _).append _).append _).append _)
        · exact .inr ⟨c, .binary hplain hleftKind hlooser hc⟩
    | literal value =>
      cases hsigned : value.isSigned with
      | true => exact .inr ⟨'-', .signed hplain hsigned⟩
      | false => exact .inl (quiet_literal hnames hsigned)
    | @parenthesized inner text => exact .inl (quiet_enclose text)
    | thisObject => exact .inl ⟨'s', rfl, by decide⟩

/-! ## The operator and its operand -/

theorem LeadsWith.mem (h : r.LeadsWith id c) : c ∈ UnaryOp.leading := by
  have hoperators (op : UnaryOp) : op.spelling.toList.head?.all UnaryOp.leading.contains = true := by
    cases op <;> decide
  induction h with
  | signed => decide
  | unary _ hc => exact List.contains_iff_mem.1 ((Option.all_eq_true ..).1 (hoperators _) _ hc)
  | step _ _ _ _ ih => exact ih
  | binary _ _ _ _ ih => exact ih
  | assignment _ _ ih => exact ih
  | qualifiedName _ _ _ ih => exact ih
  | fieldAccess _ _ _ ih => exact ih

/-- The operand of a prefix operator goes on with it just if it is not enclosed, and leads with the
same sign as the operator is. -/
theorem extends_operand_iff (hnames : r.NamesAreWords) (op : UnaryOp) (kind : NodeKind)
    (h : r.expression id = .ok text) :
    (∃ c, (encloseIf (isOperation kind) text).toList.head? = some c ∧
        c ∈ extensions op.spelling.toList) ↔
      isOperation kind = false ∧
        ((op = .negate ∧ r.LeadsWith id '-') ∨ (op = .plus ∧ r.LeadsWith id '+')) := by
  have hquiet {text : String} {c : Char} (hq : Quiet text) (hc : text.toList.head? = some c) :
      c ∉ extensions op.spelling.toList := by
    obtain ⟨d, hd, hne⟩ := hq
    obtain rfl := Option.some.inj (hd.symm.trans hc)
    exact fun hmem => hne (op.extensions_spelling.1 d hmem)
  cases hoperation : isOperation kind with
  | true =>
    refine ⟨fun ⟨c, hc, hmem⟩ => absurd hmem (hquiet (quiet_enclose text) hc), fun h => ?_⟩
    cases h.1
  | false =>
    rw [encloseIf_false rfl]
    constructor
    · rintro ⟨c, hc, hmem⟩
      refine ⟨rfl, ?_⟩
      rcases quiet_or_leadsWith hnames h with hq | ⟨d, hd⟩
      · exact absurd hmem (hquiet hq hc)
      · obtain rfl := Option.some.inj ((head?_of_leadsWith hd h).symm.trans hc)
        rcases (op.extensions_spelling.2 d hd.mem).1 hmem with ⟨rfl, rfl⟩ | ⟨rfl, rfl⟩
        · exact .inl ⟨rfl, hd⟩
        · exact .inr ⟨rfl, hd⟩
    · rintro ⟨-, ⟨rfl, hd⟩ | ⟨rfl, hd⟩⟩
      · exact ⟨'-', head?_of_leadsWith hd h, by decide⟩
      · exact ⟨'+', head?_of_leadsWith hd h, by decide⟩

/-- A prefix operator is a token apart from its operand just if the text of the operand, in
parentheses if it is itself an operation, begins with no character that goes on with the operator.
Where names are words it does, unless the operand is not enclosed and leads with the same sign as the
operator is. -/
theorem prefix_tokens_iff {operand : NodeId} {op : UnaryOp} {node : Node}
    (hnode : r.tree.node? id = some node) (hkind : node.kind = .unary op operand)
    (hoperand : r.expression operand = .ok text) :
    ∃ kind body, r.tree.kind? operand = some kind ∧ body = encloseIf (isOperation kind) text ∧
      r.expression id = .ok (guarded node (op.spelling ++ body)) ∧
      (tokens (op.spelling ++ body).toList = op.spelling.toList :: tokens body.toList ↔
        ∀ c ∈ body.toList.head?, c ∉ extensions op.spelling.toList) ∧
      (r.NamesAreWords →
        (tokens (op.spelling ++ body).toList = op.spelling.toList :: tokens body.toList ↔
          ¬ (isOperation kind = false ∧ ((op = .negate ∧ r.LeadsWith operand '-') ∨
            (op = .plus ∧ r.LeadsWith operand '+'))))) := by
  obtain ⟨child, inner, hchild, -, -⟩ := expression_eq_ok_iff.1 hoperand
  have hchildKind : r.tree.kind? operand = some child.kind :=
    kind?_eq_some_iff.2 ⟨child, hchild, rfl⟩
  have htokens := op.tokens_iff (encloseIf (isOperation child.kind) text).toList
  rw [← String.toList_append] at htokens
  refine ⟨child.kind, _, hchildKind, rfl, ?_, htokens, fun hnames => ?_⟩
  · refine expression_eq_ok_iff.2 ⟨node, _, hnode, ?_, rfl⟩
    rw [hkind]
    exact .unary hoperand hchildKind
  · rw [htokens, ← extends_operand_iff hnames op child.kind hoperand]
    exact ⟨fun h ⟨c, hc, hmem⟩ => h c hc hmem, fun h c hc hmem => h ⟨c, hc, hmem⟩⟩

/-- A negated negative number, and a negated name. -/
def negationRenderer : Renderer where
  tree := {
    nodes := #[
      { kind := .literal (.int (-5)) },
      { kind := .unary .negate 0 },
      { kind := .simpleName "x" none },
      { kind := .unary .negate 2 }] }
  env := .empty

theorem namesAreWords_negation : negationRenderer.NamesAreWords where
  simpleName := by
    intro id name binding h
    match id, h with
    | 0, h | 1, h | 3, h => cases h
    | 2, h =>
      cases h
      exact ⟨'x', rfl, rfl⟩
    | _ + 4, h => cases h
  functionCall := by
    intro id function arguments h
    match id, h with
    | 0, h | 1, h | 2, h | 3, h => cases h
    | _ + 4, h => cases h
  slot := nofun

/-- The minus in front of a name is a token of its own. -/
theorem negated_name_tokens : negationRenderer.expression 3 = .ok "-x" ∧
    tokens "-x".toList = ['-'] :: tokens "x".toList := by
  obtain ⟨kind, body, hkind, rfl, htext, -, hiff⟩ :=
    @prefix_tokens_iff negationRenderer 3 "x" 2 .negate _ rfl rfl (by decide +kernel)
  cases hkind
  refine ⟨htext, (hiff namesAreWords_negation).2 ?_⟩
  rintro ⟨-, ⟨-, h⟩ | ⟨h, -⟩⟩
  · exact absurd (head?_of_leadsWith h (show negationRenderer.expression 2 = .ok "x" by decide +kernel))
      (by decide)
  · cases h

/-- The minus in front of a negative number makes one token with the sign. -/
theorem negated_negative_fuses : negationRenderer.expression 0 = .ok "-5" ∧
    negationRenderer.expression 1 = .ok "--5" ∧
    tokens "-5".toList = [['-'], ['5']] ∧ tokens "--5".toList = [['-', '-'], ['5']] ∧
    tokens "--5".toList ≠ ['-'] :: tokens "-5".toList := by
  decide +kernel

end Renderer

end ObjectLowering
