import ObjectLowering.Proofs.Expression.Integer
import ObjectLowering.Proofs.Expression.Reader
import ObjectLowering.Proofs.Expression.Rendered

/-!
# ObjectLowering.Proofs.Expression.Structure

The text of an expression of operators reads back as the same expression.

* `Denotes`: a node is an expression of names, numbers, calls and operators, up to parentheses.
* `levelOf`: the level of the grammar at which the text of a node stands. `levelOf_left`,
  `levelOf_right`: it is tight enough for the operand of a binary operator unless the renderer
  encloses it.
* `IsWritten`: the text of a node, with the tokens into which it splits and the expression that they
  are. `exists_isWritten`: every such expression has one, by the texts of its parts.
* `derives_tokens_iff`: the tokens of the text are that expression and no other.
-/

namespace ObjectLowering

open Text.Lexical (tokens isIdentifier isWordChar SplitsInto)
open Grammar

/-- What an expression may assign to. -/
def NodeKind.isTarget : NodeKind → Bool
  | .simpleName .. | .unary .dereference _ => true
  | _ => false

/-- The node is the expression, up to parentheses, and none of its nodes needs a check. -/
inductive Tree.Denotes (t : Tree) : NodeId → Expression → Prop where
  | name {id : NodeId} {text : String} : t.IsPlain id (.simpleName text none) →
    isIdentifier text.toList = true → text ≠ "self" → t.Denotes id (.name text.toList)
  | self {id : NodeId} : t.IsPlain id .thisObject → t.Denotes id .self
  | number {id : NodeId} {value : Int64} : t.IsPlain id (.literal (.int value)) →
    0 ≤ value.toInt → t.Denotes id (.number value.toInt.toNat)
  | call {id : NodeId} {function : FunctionRef} {arguments : List (NodeId × Expression)} :
    t.IsPlain id (.functionCall function (arguments.map Prod.fst)) →
      isIdentifier function.name.toList = true → (∀ a ∈ arguments, t.Denotes a.1 a.2) →
        t.Denotes id (.call (.ofWord function.name.toList) (arguments.map Prod.snd))
  | unary {id operand : NodeId} {op : UnaryOp} {e : Expression} :
    t.IsPlain id (.unary op operand) → t.Denotes operand e → t.Denotes id (.unary op e)
  | step {id operand : NodeId} {op : StepOp} {e : Expression} :
    t.IsPlain id (.step op operand) → t.Denotes operand e → t.Denotes id (.step op e)
  | binary {id left right : NodeId} {op : BinaryOp} {l r : Expression} :
    t.IsPlain id (.binary op left right) → t.Denotes left l → t.Denotes right r →
      t.Denotes id (.binary op l r)
  | assignment {id target value : NodeId} {op : AssignOp} {targetKind : NodeKind}
    {l r : Expression} :
    t.IsPlain id (.assignment op target value) → t.IsPlain target targetKind →
      targetKind.isTarget = true → t.Denotes target l → t.Denotes value r →
        t.Denotes id (.assignment op l r)
  | parenthesized {id inner : NodeId} {e : Expression} :
    t.IsPlain id (.parenthesized inner) → t.Denotes inner e → t.Denotes id e

/-! ## Levels -/

/-- The level of the grammar at which the text of a node of the kind stands. -/
def levelOf : NodeKind → Nat
  | .assignment .. => 0
  | .binary op .. => op.precedence - 2
  | .unary .. => 11
  | .step .. | .functionCall .. => 12
  | _ => 13

theorem BinaryOp.precedence_bounds (op : BinaryOp) : 3 ≤ op.precedence ∧ op.precedence ≤ 12 := by
  cases op <;> decide

theorem levelOf_left {op : BinaryOp} {kind : NodeKind} (h : Renderer.looserLeft op kind = false) :
    op.precedence - 2 ≤ levelOf kind := by
  have hop := op.precedence_bounds
  cases kind with
  | binary inner left right =>
    have hle : op.precedence ≤ inner.precedence := Nat.le_of_not_lt (of_decide_eq_false h)
    exact Nat.sub_le_sub_right hle 2
  | assignment => cases h
  | _ =>
    simp only [levelOf]
    omega

theorem levelOf_right {op : BinaryOp} {kind : NodeKind} (h : Renderer.looserRight op kind = false) :
    op.precedence - 2 + 1 ≤ levelOf kind := by
  have hop := op.precedence_bounds
  cases kind with
  | binary inner left right =>
    have hlt : op.precedence < inner.precedence := Nat.lt_of_not_le (of_decide_eq_false h)
    simp only [levelOf]
    omega
  | assignment => cases h
  | _ =>
    simp only [levelOf]
    omega

theorem levelOf_operand {kind : NodeKind} (h : Renderer.isOperation kind = false) :
    12 ≤ levelOf kind := by
  cases kind with
  | binary | assignment | unary | step => cases h
  | _ =>
    simp only [levelOf]
    omega

theorem levelOf_target {kind : NodeKind} (h : kind.isTarget = true) : 11 ≤ levelOf kind := by
  cases kind with
  | simpleName | unary =>
    simp only [levelOf]
    omega
  | _ => cases h

/-! ## Texts of parts -/

namespace Renderer

variable {r : Renderer} {id : NodeId} {kind : NodeKind} {text : String} {ts : List Token}
  {e : Expression}

/-- The text of a node, with the tokens into which it splits and the expression that they are. -/
structure IsWritten (r : Renderer) (id : NodeId) (kind : NodeKind) (text : String)
    (ts : List Token) (e : Expression) : Prop where
  plain : r.tree.IsPlain id kind
  rendered : r.expression id = .ok text
  splits : SplitsInto text.toList ts
  derives : Derives (levelOf kind) ts e
  opens : isOperation kind = false →
    ∃ c behind, text.toList = c :: behind ∧ (isWordChar c = true ∨ c = '(')

theorem exists_letter_of_isIdentifier {word : List Char} (h : isIdentifier word = true) :
    ∃ c behind, word = c :: behind ∧ isWordChar c = true := by
  cases word with
  | nil => cases h
  | cons c behind =>
    exact ⟨c, behind, rfl, Text.Lexical.isWordChar_of_isLetter (Bool.and_eq_true_iff.1 h).1⟩

namespace IsWritten

theorem kind?_eq (h : IsWritten r id kind text ts e) : r.tree.kind? id = some kind :=
  h.plain.kind?_eq

theorem enclosed (h : IsWritten r id kind text ts e) :
    SplitsInto (enclose text).toList (opening :: (ts ++ [closing])) ∧
      Derives 13 (opening :: (ts ++ [closing])) e := by
  rw [toList_enclose]
  exact ⟨h.splits.enclosed, .parenthesized (h.derives.of_le (Nat.zero_le _))⟩

/-- An operand is enclosed unless it is of a level that is tight enough. -/
theorem operand (h : IsWritten r id kind text ts e) (level : Nat) (needed : Bool)
    (hlevel : level ≤ 13) (hneeded : needed = false → level ≤ levelOf kind) :
    ∃ us, SplitsInto (encloseIf needed text).toList us ∧ Derives level us e := by
  cases needed with
  | true => exact ⟨_, h.enclosed.1, h.enclosed.2.of_le hlevel⟩
  | false => exact ⟨ts, h.splits, h.derives.of_le (hneeded rfl)⟩

/-- The operand of a unary operator begins with a word, a number or a parenthesis. -/
theorem unit_operand (h : IsWritten r id kind text ts e) :
    ∃ c behind us, (encloseIf (isOperation kind) text).toList = c :: behind ∧
      (isWordChar c = true ∨ c = '(') ∧ SplitsInto (c :: behind) us ∧ Derives 12 us e := by
  cases hkind : isOperation kind with
  | true =>
    refine ⟨'(', text.toList ++ [')'], _, toList_enclose text, .inr rfl, ?_,
      h.enclosed.2.of_le (by decide)⟩
    rw [← toList_enclose]
    exact h.enclosed.1
  | false =>
    obtain ⟨c, behind, htext, hc⟩ := h.opens hkind
    exact ⟨c, behind, ts, htext, hc, htext ▸ h.splits, h.derives.of_le (levelOf_operand hkind)⟩

end IsWritten

/-- An argument with its text. -/
structure Part where
  id : NodeId
  text : String
  tokens : List Token
  e : Expression

theorem exists_parts {arguments : List (NodeId × Expression)}
    (h : ∀ a ∈ arguments, ∃ kind text ts, IsWritten r a.1 kind text ts a.2) :
    ∃ parts : List Part, arguments = parts.map (fun p => (p.id, p.e)) ∧
      ∀ p ∈ parts, ∃ kind, IsWritten r p.id kind p.text p.tokens p.e := by
  induction arguments with
  | nil => exact ⟨[], rfl, nofun⟩
  | cons a arguments ih =>
    obtain ⟨⟨kind, text, ts, ha⟩, hothers⟩ := List.forall_mem_cons.1 h
    obtain ⟨parts, rfl, hparts⟩ := ih hothers
    exact ⟨⟨a.1, text, ts, a.2⟩ :: parts, rfl, List.forall_mem_cons.2 ⟨⟨kind, ha⟩, hparts⟩⟩

/-! ## Whole expressions -/

namespace IsWritten

variable {left right operand : NodeId} {leftKind rightKind operandKind : NodeKind}
  {leftText rightText operandText : String} {us : List Token} {l e' : Expression}

theorem binary {op : BinaryOp} (hplain : r.tree.IsPlain id (.binary op left right))
    (hleft : IsWritten r left leftKind leftText ts l)
    (hright : IsWritten r right rightKind rightText us e) :
    ∃ kind text ts, IsWritten r id kind text ts (.binary op l e) := by
  obtain ⟨hmark, htoken, hblank⟩ := op.isMark_spelling
  have hop := op.precedence_bounds
  obtain ⟨leftTokens, hleftSplits, hleftDerives⟩ := hleft.operand (op.precedence - 2)
    (looserLeft op leftKind) (by omega) levelOf_left
  obtain ⟨rightTokens, hrightSplits, hrightDerives⟩ := hright.operand
    (op.precedence - 2 + 1) (looserRight op rightKind) (by omega) levelOf_right
  refine ⟨_, _, _, hplain, (expression_plain_iff hplain).2 (.binary hleft.rendered hleft.kind?_eq
    hright.rendered hright.kind?_eq), ?_, .binary hleftDerives op.lookup_spelling hrightDerives,
    nofun⟩
  simpa [String.toList_append] using hleftSplits.around_mark hrightSplits hmark htoken hblank

theorem assignment {op : AssignOp} (hplain : r.tree.IsPlain id (.assignment op left right))
    (hleft : IsWritten r left leftKind leftText ts l) (htarget : leftKind.isTarget = true)
    (hright : IsWritten r right rightKind rightText us e) :
    ∃ kind text ts, IsWritten r id kind text ts (.assignment op l e) := by
  obtain ⟨hmark, htoken, hblank⟩ := op.isMark_spelling
  refine ⟨_, _, _, hplain, (expression_plain_iff hplain).2 (.assignment hleft.rendered hright.rendered),
    ?_, .assignment (hleft.derives.of_le (levelOf_target htarget)) op.lookup_spelling
      (hright.derives.of_le (Nat.zero_le _)), nofun⟩
  simpa [String.toList_append] using hleft.splits.around_mark hright.splits hmark htoken hblank

theorem unary {op : UnaryOp} (hplain : r.tree.IsPlain id (.unary op operand))
    (h : IsWritten r operand operandKind operandText ts e) :
    ∃ kind text ts, IsWritten r id kind text ts (.unary op e) := by
  obtain ⟨hmark, htoken, hextensions⟩ := op.isMark_spelling
  obtain ⟨c, behind, us, htext, hc, hsplits, hderives⟩ := h.unit_operand
  refine ⟨_, _, _, hplain, (expression_plain_iff hplain).2 (.unary h.rendered h.kind?_eq), ?_,
    .unary op.lookup_spelling hderives.looser, nofun⟩
  rw [String.toList_append, htext]
  refine hsplits.behind_mark hmark htoken fun hextends => ?_
  obtain ⟨hword, hparenthesis⟩ := hextensions c hextends
  rcases hc with hc | hc
  · rw [hword] at hc
    cases hc
  · exact hparenthesis hc

theorem step {op : StepOp} (hplain : r.tree.IsPlain id (.step op operand))
    (h : IsWritten r operand operandKind operandText ts e) :
    ∃ kind text ts, IsWritten r id kind text ts (.step op e) := by
  obtain ⟨hmark, htoken, hlast, hfirst⟩ := op.isMark_spelling
  obtain ⟨c, behind, us, htext, -, hsplits, hderives⟩ := h.unit_operand
  refine ⟨_, _, _, hplain, (expression_plain_iff hplain).2 (.step h.rendered h.kind?_eq), ?_,
    .step hderives op.lookup_spelling, nofun⟩
  rw [String.toList_append, htext]
  exact hsplits.before_mark hfirst hmark htoken hlast

theorem call {function : FunctionRef} {parts : List Part}
    (hplain : r.tree.IsPlain id (.functionCall function (parts.map (·.id))))
    (hword : isIdentifier function.name.toList = true)
    (h : ∀ p ∈ parts, ∃ kind, IsWritten r p.id kind p.text p.tokens p.e) :
    ∃ kind text ts, IsWritten r id kind text ts
      (.call (.ofWord function.name.toList) (parts.map (·.e))) := by
  have htexts : List.Forall₂ (fun c s => r.expression c = .ok s) (parts.map (·.id))
      (parts.map (·.text)) := by
    rw [List.forall₂_map_left_iff, List.forall₂_map_right_iff, List.forall₂_same]
    intro p hp
    obtain ⟨kind, hp⟩ := h p hp
    exact hp.rendered
  have hsplits : SplitsInto (", ".intercalate (parts.map (·.text))).toList
      ([comma].intercalate (parts.map (·.tokens))) := by
    have hparts := @SplitsInto.intercalate (parts.map fun p => (p.text.toList, p.tokens))
      (List.forall_mem_map.2 fun p hp => (h p hp).elim fun _ hp => hp.splits)
    rw [List.map_map, List.map_map] at hparts
    rw [String.toList_intercalate, List.map_map]
    exact hparts
  have hderives : Derives 12 (function.name.toList ::
      opening :: ([comma].intercalate (parts.map (·.tokens)) ++ [closing]))
      (.call (.ofWord function.name.toList) (parts.map (·.e))) := by
    have hcall := @Derives.call _ _ (parts.map fun p => (p.tokens, p.e)) (Derives.word hword).looser
      (List.forall_mem_map.2 fun p hp => (h p hp).elim fun _ hp => hp.derives.of_le (Nat.zero_le _))
    rw [List.map_map, List.map_map] at hcall
    exact hcall
  have htext : (function.name ++ enclose (", ".intercalate (parts.map (·.text)))).toList =
      function.name.toList ++ '(' :: ((", ".intercalate (parts.map (·.text))).toList ++ [')']) := by
    rw [String.toList_append, toList_enclose]
  refine ⟨_, _, _, hplain, (expression_plain_iff hplain).2 (.functionCall htexts),
    htext ▸ hsplits.behind_word hword, hderives, fun _ => ?_⟩
  rw [htext]
  obtain ⟨c, behind, hname, hc⟩ := exists_letter_of_isIdentifier hword
  exact ⟨c, _, by rw [hname]; rfl, .inl hc⟩

end IsWritten

theorem exists_isWritten (h : r.tree.Denotes id e) :
    ∃ kind text ts, IsWritten r id kind text ts e := by
  induction h with
  | @name id text hplain hword hself =>
    have hname : text.toList ≠ "self".toList := fun h => hself (String.toList_inj.1 h)
    have hderives := Derives.word hword
    rw [Expression.ofWord, if_neg hname] at hderives
    obtain ⟨c, behind, htext, hc⟩ := exists_letter_of_isIdentifier hword
    exact ⟨_, text, _, hplain, (expression_plain_iff hplain).2 (.simpleName text none),
      Text.Lexical.splitsInto_identifier hword, hderives, fun _ => ⟨c, behind, htext, .inl hc⟩⟩
  | self hplain =>
    have hword : isIdentifier "self".toList = true := by decide
    obtain ⟨c, behind, htext, hc⟩ := exists_letter_of_isIdentifier hword
    exact ⟨_, "self", _, hplain, (expression_plain_iff hplain).2 .thisObject,
      Text.Lexical.splitsInto_identifier hword, .word hword, fun _ => ⟨c, behind, htext, .inl hc⟩⟩
  | @number id value hplain hvalue =>
    have hinteger := integer?_intLiteral hvalue
    refine ⟨_, intLiteral value, _, hplain, (expression_plain_iff hplain).2 (.literal (.int value)),
      splitsInto_of_integer? hinteger, .number hinteger, fun _ => ?_⟩
    cases htext : (intLiteral value).toList with
    | nil =>
      rw [htext] at hinteger
      cases hinteger
    | cons c behind =>
      rw [htext] at hinteger
      exact ⟨c, behind, rfl, .inl (by rw [isWordChar, isDigit_of_integer? hinteger, Bool.or_true])⟩
  | call hplain hword _ ih =>
    obtain ⟨parts, rfl, hparts⟩ := exists_parts ih
    rw [List.map_map] at hplain ⊢
    exact IsWritten.call hplain hword hparts
  | unary hplain _ ih =>
    obtain ⟨kind, text, ts, h⟩ := ih
    exact h.unary hplain
  | step hplain _ ih =>
    obtain ⟨kind, text, ts, h⟩ := ih
    exact h.step hplain
  | binary hplain _ _ ihl ihr =>
    obtain ⟨leftKind, leftText, ts, hleft⟩ := ihl
    obtain ⟨rightKind, rightText, us, hright⟩ := ihr
    exact hleft.binary hplain hright
  | assignment hplain htarget hkind _ _ ihl ihr =>
    obtain ⟨leftKind, leftText, ts, hleft⟩ := ihl
    obtain ⟨rightKind, rightText, us, hright⟩ := ihr
    exact hleft.assignment hplain (htarget.unique hleft.plain ▸ hkind) hright
  | parenthesized hplain _ ih =>
    obtain ⟨kind, text, ts, h⟩ := ih
    exact ⟨_, enclose text, _, hplain, (expression_plain_iff hplain).2 (.parenthesized h.rendered),
      h.enclosed.1, h.enclosed.2, fun _ => ⟨'(', _, toList_enclose text, .inr rfl⟩⟩

end Renderer

/-- The text of an expression of operators is that expression again, and no other. -/
theorem Tree.Denotes.derives_tokens_iff {r : Renderer} {id : NodeId} {e : Expression}
    (h : r.tree.Denotes id e) : ∃ text, r.expression id = .ok text ∧
      ∀ e', Derives 0 (tokens text.toList) e' ↔ e' = e := by
  obtain ⟨kind, text, ts, hwritten⟩ := Renderer.exists_isWritten h
  have hderives : Derives 0 ts e := hwritten.derives.of_le (Nat.zero_le _)
  refine ⟨text, hwritten.rendered, fun e' => ?_⟩
  rw [hwritten.splits.tokens_eq]
  exact ⟨fun h' => derives_unique h' hderives, fun he => he ▸ hderives⟩

/-- Operands that have to be enclosed, on the right of an operator of the same level and behind a
prefix operator, in the value that is assigned through a pointer. -/
def differenceRenderer : Renderer where
  tree := {
    nodes := #[
      { kind := .simpleName "p" none },
      { kind := .unary .dereference 0 },
      { kind := .simpleName "a" none },
      { kind := .simpleName "b" none },
      { kind := .literal (.int 10) },
      { kind := .binary .subtract 3 4 },
      { kind := .binary .subtract 2 5 },
      { kind := .unary .negate 6 },
      { kind := .functionCall ⟨"f", ⟨1⟩, .primitive .int, []⟩ [7, 9] },
      { kind := .thisObject },
      { kind := .assignment .add 1 8 }] }
  env := .empty

theorem derives_tokens_difference :
    differenceRenderer.expression 10 = .ok "*p += f(-(a - (b - 10)), self)" ∧
      ∀ e, Derives 0 (tokens "*p += f(-(a - (b - 10)), self)".toList) e ↔
        e = .assignment .add (.unary .dereference (.name ['p']))
          (.call (.name ['f']) [.unary .negate (.binary .subtract (.name ['a'])
            (.binary .subtract (.name ['b']) (.number 10))), .self]) := by
  have plain {id : NodeId} {kind : NodeKind}
      (h : differenceRenderer.tree.node? id = some { kind }) :
      differenceRenderer.tree.IsPlain id kind := ⟨_, h, rfl, rfl⟩
  have name (id : NodeId) (text : String)
      (h : differenceRenderer.tree.node? id = some { kind := .simpleName text none })
      (hword : isIdentifier text.toList = true) (hself : text ≠ "self") :
      differenceRenderer.tree.Denotes id (.name text.toList) := .name (plain h) hword hself
  have hp := name 0 "p" rfl (by decide) (by decide)
  have ha := name 2 "a" rfl (by decide) (by decide)
  have hb := name 3 "b" rfl (by decide) (by decide)
  have hten : differenceRenderer.tree.Denotes 4 (.number (Int64.toInt 10).toNat) :=
    .number (plain rfl) (by decide)
  have hvalue : differenceRenderer.tree.Denotes 7 _ :=
    .unary (plain rfl) (.binary (plain rfl) ha (.binary (plain rfl) hb hten))
  have hself : differenceRenderer.tree.Denotes 9 .self := .self (plain rfl)
  have hcall := @Tree.Denotes.call _ 8 ⟨"f", ⟨1⟩, .primitive .int, []⟩ [(7, _), (9, _)] (plain rfl)
    (by decide) (List.forall_mem_cons.2 ⟨hvalue, List.forall_mem_cons.2 ⟨hself, nofun⟩⟩)
  have hassignment : differenceRenderer.tree.Denotes 10 _ :=
    .assignment (plain rfl) (plain rfl) rfl (.unary (plain rfl) hp) hcall
  obtain ⟨text, htext, hderives⟩ := Tree.Denotes.derives_tokens_iff hassignment
  have hrendered : differenceRenderer.expression 10 = .ok "*p += f(-(a - (b - 10)), self)" := by
    decide +kernel
  cases Except.ok.inj (htext.symm.trans hrendered)
  exact ⟨hrendered, hderives⟩

end ObjectLowering
