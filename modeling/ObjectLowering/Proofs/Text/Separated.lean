import ObjectLowering.Proofs.Text.Lexical

/-!
# ObjectLowering.Proofs.Text.Separated

Texts whose tokens do not depend on what follows them.

* `SplitsInto`: before a separator and at the end, the text splits into these tokens.
* `splitsInto_identifier`, `splitsInto_number`: a word and a number are one token.
* `SplitsInto.behind_mark`, `SplitsInto.before_mark`, `SplitsInto.around_mark`,
  `SplitsInto.enclosed`, `SplitsInto.intercalate`, `SplitsInto.behind_word`: texts put together with
  punctuators.
-/

namespace ObjectLowering.Text.Lexical

variable {piece text rest : List Char} {c : Char}

theorem isBlank_of_isWordChar (h : isWordChar c = true) : isBlank c = false := by
  refine Bool.eq_false_iff.2 fun hblank => ?_
  simp only [isBlank, List.contains_eq_mem, decide_eq_true_eq, List.mem_cons, List.not_mem_nil,
    or_false] at hblank
  rcases hblank with rfl | rfl | rfl | rfl | rfl | rfl <;> exact absurd h (by decide)

theorem isToken_of_isWordChar (h : isWordChar c = true) : isToken (c :: text) = true := by
  rw [isToken, not_comment h, List.all_cons, isBlank_of_isWordChar h]
  rfl

theorem tokens_blank_cons : tokens (' ' :: rest) = tokens rest := by
  have hpieces : pieces ([' '] ++ rest) = [' '] :: pieces rest :=
    pieces_append (isLongest_append (isPiece_singleton ' ') fun _ _ =>
      stops_of_extensions_eq_nil (by decide) (by decide))
  rw [tokens, ← List.singleton_append, hpieces, List.filter_cons_of_neg (by decide)]
  rfl

/-- What follows a word or a number in an expression, unless it is the name of a function. -/
def separators : List Char :=
  [' ', ')', ',', '+', '-']

/-- Before a separator and at the end, the text splits into these tokens. -/
def SplitsInto (text : List Char) (ts : List (List Char)) : Prop :=
  ∀ rest, (∀ c ∈ rest.head?, c ∈ separators) → tokens (text ++ rest) = ts ++ tokens rest

variable {ts us : List (List Char)} {mark : List Char}

theorem SplitsInto.tokens_eq (h : SplitsInto text ts) : tokens text = ts := by
  have hend := h [] nofun
  rwa [List.append_nil, show tokens [] = [] from rfl, List.append_nil] at hend

theorem separator_of_cons (hc : c ∈ separators) : ∀ d ∈ (c :: text).head?, d ∈ separators :=
  fun _ hd => Option.some.inj hd ▸ hc

theorem splitsInto_of_stops (hpiece : isPiece piece = true) (htoken : isToken piece = true)
    (hstops : ∀ c ∈ separators, Stops piece c) : SplitsInto piece [piece] :=
  fun _ hrest => tokens_append hpiece htoken fun c hc => hstops c (hrest c hc)

theorem isPiece_of_isIdentifier (h : isIdentifier piece = true) : isPiece piece = true := by
  rw [isPiece, h]
  rfl

theorem isToken_of_isIdentifier (h : isIdentifier piece = true) : isToken piece = true := by
  cases piece with
  | nil => cases h
  | cons c text => exact isToken_of_isWordChar (isWordChar_of_isLetter (Bool.and_eq_true_iff.1 h).1)

/-- No word, literal or number goes on with a separator. -/
theorem not_wordChar_of_separator (hc : c ∈ separators) :
    isWordChar c = false ∧ isQuote c = false ∧ c ≠ '.' := by
  have hall : separators.all (fun c => !isWordChar c && !isQuote c && c != '.') = true := by
    decide
  simpa [and_assoc] using List.all_eq_true.1 hall c hc

theorem splitsInto_identifier (h : isIdentifier piece = true) : SplitsInto piece [piece] :=
  splitsInto_of_stops (isPiece_of_isIdentifier h) (isToken_of_isIdentifier h) fun _ hc =>
    have ⟨hword, hquote, _⟩ := not_wordChar_of_separator hc
    stops_identifier h hword hquote

theorem splitsInto_number {first : Char} (hfirst : first.isDigit = true)
    (htail : isNumberTail first text = true)
    (hlast : (text.getLast?.getD first) ∉ ['e', 'E', 'p', 'P']) :
    SplitsInto (first :: text) [first :: text] := by
  have hpiece : isPiece (first :: text) = true := by
    rw [isPiece, isNumber_of_isDigit hfirst, htail, Bool.or_true]
    rfl
  have hchar : isWordChar first = true := by
    rw [isWordChar, hfirst, Bool.or_true]
  refine splitsInto_of_stops hpiece (isToken_of_isWordChar hchar) fun c hc => stops_number hfirst ?_
  obtain ⟨hword, -, hdot⟩ := not_wordChar_of_separator hc
  simp [continuesNumber, hword, hdot, hlast]

theorem isPiece_of_isMark (h : isMark mark = true) : isPiece mark = true := by
  cases mark with
  | nil => cases h
  | cons c text =>
    simp only [isMark, Bool.and_eq_true, Bool.or_eq_true, decide_eq_true_eq] at h
    rcases h.2 with rfl | hpunctuator
    · exact isPiece_singleton c
    · rw [isPiece, hpunctuator, Bool.or_true, Bool.true_or]

theorem tokens_mark_append (hmark : isMark mark = true) (htoken : isToken mark = true)
    (hc : c ∉ extensions mark) : tokens (mark ++ c :: rest) = mark :: tokens (c :: rest) := by
  refine tokens_append (isPiece_of_isMark hmark) htoken fun d hd => ?_
  rw [← Option.some.inj hd]
  exact stops_mark hmark hc

/-- A mark that nothing continues is a token before every text. -/
theorem tokens_closed_append (hmark : isMark mark = true) (htoken : isToken mark = true)
    (hlast : extensions mark = []) : tokens (mark ++ rest) = mark :: tokens rest :=
  tokens_append (isPiece_of_isMark hmark) htoken fun _ _ => stops_of_extensions_eq_nil hmark hlast

namespace SplitsInto

theorem behind_mark (hmark : isMark mark = true) (htoken : isToken mark = true)
    (hc : c ∉ extensions mark) (h : SplitsInto (c :: text) ts) :
    SplitsInto (mark ++ c :: text) (mark :: ts) := by
  intro rest hrest
  rw [List.append_assoc, List.cons_append, tokens_mark_append hmark htoken hc, ← List.cons_append,
    h rest hrest, List.cons_append]

/-- A punctuator that nothing continues ends a text, if it begins with a separator. -/
theorem before_mark (h : SplitsInto text ts) (hfirst : ∀ c ∈ mark.head?, c ∈ separators)
    (hmark : isMark mark = true) (htoken : isToken mark = true) (hlast : extensions mark = []) :
    SplitsInto (text ++ mark) (ts ++ [mark]) := by
  intro rest hrest
  have hbegins : ∀ c ∈ (mark ++ rest).head?, c ∈ separators := by
    cases mark with
    | nil => cases hmark
    | cons c mark => exact hfirst
  rw [List.append_assoc, h _ hbegins, tokens_closed_append hmark htoken hlast, List.append_assoc,
    List.singleton_append]

/-- Two texts with a punctuator between blanks. -/
theorem around_mark {left right : List Char} (hleft : SplitsInto left ts)
    (hright : SplitsInto right us) (hmark : isMark mark = true) (htoken : isToken mark = true)
    (hblank : ' ' ∉ extensions mark) :
    SplitsInto (left ++ ' ' :: (mark ++ ' ' :: right)) (ts ++ mark :: us) := by
  intro rest hrest
  rw [List.append_assoc, hleft (' ' :: _ ++ rest) (separator_of_cons (by decide)),
    List.cons_append, tokens_blank_cons, List.append_assoc, List.cons_append,
    tokens_mark_append hmark htoken hblank, tokens_blank_cons, hright rest hrest,
    List.append_assoc, List.cons_append]

theorem behind_parenthesis (h : SplitsInto text ts) :
    SplitsInto ('(' :: text) (['('] :: ts) := by
  intro rest hrest
  rw [List.cons_append, ← List.singleton_append,
    tokens_closed_append (by decide) (by decide) (by decide), h rest hrest, List.cons_append]

theorem enclosed (h : SplitsInto text ts) :
    SplitsInto ('(' :: (text ++ [')'])) (['('] :: (ts ++ [[')']])) :=
  have hbefore := h.before_mark (separator_of_cons (by decide)) (by decide) (by decide) (by decide)
  hbefore.behind_parenthesis

/-- Texts in turn, with a comma and a blank between them. -/
theorem intercalate {parts : List (List Char × List (List Char))}
    (h : ∀ part ∈ parts, SplitsInto part.1 part.2) :
    SplitsInto ([',', ' '].intercalate (parts.map Prod.fst))
      ([[',']].intercalate (parts.map Prod.snd)) := by
  induction parts with
  | nil => exact fun _ _ => rfl
  | cons part parts ih =>
    obtain ⟨hpart, hparts⟩ := List.forall_mem_cons.1 h
    cases parts with
    | nil => simpa using hpart
    | cons next parts =>
      have hcomma : ∀ {text ts}, SplitsInto text ts →
          SplitsInto (',' :: ' ' :: text) ([','] :: ts) := by
        intro text ts htext rest hrest
        rw [List.cons_append, List.cons_append, ← List.singleton_append,
          tokens_mark_append (by decide) (by decide) (by decide), tokens_blank_cons,
          htext rest hrest, List.cons_append]
      rw [List.map_cons, List.map_cons, List.map_cons, List.map_cons, List.intercalate_cons_cons,
        List.intercalate_cons_cons, List.append_assoc, List.append_assoc]
      intro rest hrest
      rw [List.append_assoc, ← List.map_cons,
        hpart (',' :: [' '] ++ _ ++ rest) (separator_of_cons (by decide))]
      exact (congrArg _ (hcomma (ih hparts) rest hrest)).trans (List.append_assoc ..).symm

/-- A word and what follows it in parentheses. -/
theorem behind_word {word : List Char} (hword : isIdentifier word = true)
    (h : SplitsInto text ts) :
    SplitsInto (word ++ '(' :: (text ++ [')'])) (word :: ['('] :: (ts ++ [[')']])) := by
  intro rest hrest
  have hstops : ∀ c ∈ ('(' :: (text ++ [')']) ++ rest).head?, Stops word c := by
    rintro c hc
    rw [← Option.some.inj hc]
    exact stops_identifier hword (by decide) (by decide)
  rw [List.append_assoc, tokens_append (isPiece_of_isIdentifier hword)
    (isToken_of_isIdentifier hword) hstops, h.enclosed rest hrest, ← List.cons_append]

end SplitsInto

end ObjectLowering.Text.Lexical
