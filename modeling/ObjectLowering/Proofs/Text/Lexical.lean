/-!
# ObjectLowering.Proofs.Text.Lexical

How a C compiler splits a text into tokens.

* `isPiece`: the identifiers, numbers, quoted literals, comments and punctuators, and every single
  character.
* `pieces`: from the front of the text always the longest piece. `flatten_pieces`: nothing is lost.
* `tokens`: the pieces without blanks and comments.
* `Stops`: no piece goes on with a character. `tokens_append`: such a character ends the piece before
  it. `tokens_ne_of_isPiece`: a piece that goes on is no token of its own.
-/

namespace ObjectLowering.Text.Lexical

/-- A character that an identifier may begin with; beyond ASCII all count as letters. -/
def isLetter (c : Char) : Bool :=
  c.isAlpha || c = '_' || c = '$' || 0x80 ≤ c.toNat

def isWordChar (c : Char) : Bool :=
  isLetter c || c.isDigit

def isIdentifier : List Char → Bool
  | [] => false
  | c :: text => isLetter c && text.all isWordChar

/-- A number goes on with `c` behind `last`: signs belong to an exponent. -/
def continuesNumber (last c : Char) : Bool :=
  isWordChar c || c = '.' || (['+', '-'].contains c && ['e', 'E', 'p', 'P'].contains last)

def isNumberTail : Char → List Char → Bool
  | _, [] => true
  | last, c :: text => continuesNumber last c && isNumberTail c text

def isNumber : List Char → Bool
  | '.' :: c :: text => c.isDigit && isNumberTail c text
  | c :: text => c.isDigit && isNumberTail c text
  | [] => false

/-- What follows the quote that opens a literal, with the quote that closes it. -/
def isQuoteBody (quote : Char) : List Char → Bool
  | '\\' :: _ :: text => isQuoteBody quote text
  | c :: text => if c = quote then text = [] else c ≠ '\n' && isQuoteBody quote text
  | [] => false

def isQuote (c : Char) : Bool :=
  c = '"' || c = '\x27'

/-- What may stand directly before the quote that opens a literal. -/
def encodings : List (List Char) :=
  [[], ['L'], ['u'], ['U'], ['u', '8']]

def isQuoted (text : List Char) : Bool :=
  encodings.any fun encoding => encoding.isPrefixOf text &&
    match text.drop encoding.length with
    | quote :: body => isQuote quote && isQuoteBody quote body
    | [] => false

/-- What follows the opening of a block comment, with its first closing. -/
def isBlockBody : List Char → Bool
  | '*' :: '/' :: text => text = []
  | _ :: text => isBlockBody text
  | [] => false

def isComment : List Char → Bool
  | '/' :: '/' :: text => !text.contains '\n'
  | '/' :: '*' :: text => isBlockBody text
  | _ => false

def punctuators : List (List Char) :=
  ["[", "]", "(", ")", "\x7b", "\x7d", ".", "->", "++", "--", "&", "*", "+", "-", "~", "!", "/", "%",
    "<<", ">>", "<", ">", "<=", ">=", "==", "!=", "^", "|", "&&", "||", "?", ":", ";", "...", "=",
    "*=", "/=", "%=", "+=", "-=", "<<=", ">>=", "&=", "^=", "|=", ",", "#", "##", "<:", ":>", "<%",
    "%>", "%:", "%:%:"].map String.toList

def isPiece (text : List Char) : Bool :=
  isIdentifier text || isNumber text || isQuoted text || isComment text ||
    punctuators.contains text || text.length = 1

def isBlank (c : Char) : Bool :=
  [' ', '\t', '\n', '\x0b', '\x0c', '\r'].contains c

/-- The piece is neither a blank nor a comment. -/
def isToken (piece : List Char) : Bool :=
  !isComment piece && !piece.all isBlank

/-- Of the beginnings of the text with up to `length` characters, the longest that is a piece. -/
def longestWithin (text : List Char) : Nat → List Char
  | 0 => []
  | length + 1 =>
    if isPiece (text.take (length + 1)) then text.take (length + 1) else longestWithin text length

def longest (text : List Char) : List Char :=
  longestWithin text text.length

/-- Takes the longest piece, up to `steps` times. -/
def piecesFrom : Nat → List Char → List (List Char)
  | 0, _ => []
  | _, [] => []
  | steps + 1, c :: text =>
    longest (c :: text) :: piecesFrom steps ((c :: text).drop (longest (c :: text)).length)

def pieces (text : List Char) : List (List Char) :=
  piecesFrom text.length text

def tokens (text : List Char) : List (List Char) :=
  (pieces text).filter isToken

example : tokens "a+++b /*c*/- 0x1e+2".toList =
    ["a", "++", "+", "b", "-", "0x1e+2"].map String.toList := by decide +kernel

variable {piece other text rest : List Char} {c : Char}

/-! ## The longest piece -/

/-- A text begins with the piece, and with no longer one. -/
structure IsLongest (piece text : List Char) : Prop where
  isPiece : isPiece piece = true
  begins : piece <+: text
  longest : ∀ other, other <+: text → Lexical.isPiece other = true → other.length ≤ piece.length

theorem isPiece_singleton (c : Char) : isPiece [c] = true := by
  simp [isPiece]

theorem IsLongest.unique (h : IsLongest piece text) (h' : IsLongest other text) : piece = other := by
  have hle : piece.length ≤ other.length := h'.longest piece h.begins h.isPiece
  exact (List.prefix_of_prefix_length_le h.begins h'.begins hle).eq_of_length_le
    (h.longest other h'.begins h'.isPiece)

theorem longestWithin_spec (htext : text ≠ []) (length : Nat) :
    isPiece (longestWithin text (length + 1)) = true ∧ longestWithin text (length + 1) <+: text ∧
      ∀ n ≤ length + 1, isPiece (text.take n) = true →
        (text.take n).length ≤ (longestWithin text (length + 1)).length := by
  induction length with
  | zero =>
    obtain ⟨c, rest, rfl⟩ := List.exists_cons_of_ne_nil htext
    have hfirst : longestWithin (c :: rest) 1 = [c] := by
      simp [longestWithin, isPiece_singleton]
    rw [hfirst]
    refine ⟨isPiece_singleton c, ⟨rest, rfl⟩, fun n hn _ => ?_⟩
    simp only [List.length_take, List.length_singleton]
    omega
  | succ length ih =>
    unfold longestWithin
    split
    · rename_i hpiece
      refine ⟨hpiece, List.take_prefix .., fun n hn _ => ?_⟩
      simp only [List.length_take]
      omega
    · rename_i hpiece
      refine ⟨ih.1, ih.2.1, fun n hn hn' => ?_⟩
      rcases Nat.lt_or_eq_of_le hn with hlt | rfl
      · exact ih.2.2 n (Nat.le_of_lt_succ hlt) hn'
      · exact absurd hn' hpiece

theorem isLongest_longest (htext : text ≠ []) : IsLongest (longest text) text := by
  have hlength : text.length = text.length - 1 + 1 := by
    have := List.length_pos_iff.2 htext
    omega
  obtain ⟨hpiece, hbegins, hmax⟩ := longestWithin_spec htext (text.length - 1)
  rw [← hlength] at hpiece hbegins hmax
  refine ⟨hpiece, hbegins, fun other hother hother' => ?_⟩
  have htake : text.take other.length = other := (List.prefix_iff_eq_take.1 hother).symm
  rw [← htake] at hother' ⊢
  exact hmax other.length hother.length_le hother'

theorem length_longest_pos (htext : text ≠ []) : 0 < (longest text).length := by
  obtain ⟨c, rest, rfl⟩ := List.exists_cons_of_ne_nil htext
  exact (isLongest_longest htext).longest [c] ⟨rest, rfl⟩ (isPiece_singleton c)

/-! ## The pieces of a text -/

theorem piecesFrom_eq {steps steps' : Nat} (h : text.length ≤ steps) (h' : text.length ≤ steps') :
    piecesFrom steps text = piecesFrom steps' text := by
  induction steps generalizing text steps' with
  | zero =>
    obtain rfl := List.eq_nil_of_length_eq_zero (Nat.le_zero.1 h)
    cases steps' <;> rfl
  | succ steps ih =>
    cases text with
    | nil => cases steps' <;> rfl
    | cons c text =>
      cases steps' with
      | zero => exact absurd h' (Nat.not_succ_le_zero _)
      | succ steps' =>
        have hpos : 0 < (longest (c :: text)).length := length_longest_pos (List.cons_ne_nil c text)
        have hdrop : ((c :: text).drop (longest (c :: text)).length).length ≤ text.length := by
          rw [List.length_drop, List.length_cons]
          omega
        unfold piecesFrom
        rw [ih (Nat.le_trans hdrop (Nat.le_of_succ_le_succ h))
          (Nat.le_trans hdrop (Nat.le_of_succ_le_succ h'))]

theorem pieces_eq_cons (htext : text ≠ []) :
    pieces text = longest text :: pieces (text.drop (longest text).length) := by
  obtain ⟨c, rest, rfl⟩ := List.exists_cons_of_ne_nil htext
  rw [pieces, List.length_cons, piecesFrom]
  congr 1
  refine piecesFrom_eq ?_ (Nat.le_refl _)
  have hpos := length_longest_pos htext
  rw [List.length_drop, List.length_cons]
  omega

theorem pieces_append (h : IsLongest piece (piece ++ rest)) :
    pieces (piece ++ rest) = piece :: pieces rest := by
  have htext : piece ++ rest ≠ [] := by
    rintro hnil
    obtain ⟨rfl, -⟩ := List.append_eq_nil_iff.1 hnil
    exact absurd h.isPiece (by decide)
  have hlongest : longest (piece ++ rest) = piece := (isLongest_longest htext).unique h
  rw [pieces_eq_cons htext, hlongest, List.drop_left]

/-- The pieces make up the text. -/
theorem flatten_pieces (text : List Char) : (pieces text).flatten = text := by
  induction hn : text.length using Nat.strongRecOn generalizing text with
  | ind n ih =>
    by_cases htext : text = []
    · subst htext
      rfl
    · have hpos := length_longest_pos htext
      have hlength := List.length_pos_iff.2 htext
      have hrest := ih _ (by rw [List.length_drop]; omega)
        (text.drop (longest text).length) rfl
      rw [pieces_eq_cons htext, List.flatten_cons, hrest]
      exact List.prefix_iff_eq_append.1 (isLongest_longest htext).begins

/-! ## Where a piece ends -/

/-- Behind `front` no piece goes on with `c`. -/
def Stops (front : List Char) (c : Char) : Prop :=
  ∀ more, isPiece (front ++ c :: more) = false

theorem isLongest_append (hpiece : isPiece piece = true) (hstops : ∀ c ∈ rest.head?, Stops piece c) :
    IsLongest piece (piece ++ rest) := by
  refine ⟨hpiece, ⟨rest, rfl⟩, fun other hbegins hother => ?_⟩
  refine Nat.le_of_not_lt fun hlonger => ?_
  obtain ⟨more, rfl⟩ := List.prefix_of_prefix_length_le ⟨rest, rfl⟩ hbegins (by omega)
  cases more with
  | nil => simp at hlonger
  | cons c more =>
    obtain ⟨after, hafter⟩ := List.prefix_append_right_inj piece |>.1 hbegins
    have hhead : c ∈ rest.head? := by
      rw [← hafter]
      exact rfl
    rw [hstops c hhead more] at hother
    cases hother

theorem tokens_append (hpiece : isPiece piece = true) (htoken : isToken piece = true)
    (hstops : ∀ c ∈ rest.head?, Stops piece c) : tokens (piece ++ rest) = piece :: tokens rest := by
  rw [tokens, pieces_append (isLongest_append hpiece hstops), List.filter_cons_of_pos htoken]
  rfl

/-- A piece that is a punctuator or a single character, and does not begin like a word, a number or a
literal. -/
def isMark : List Char → Bool
  | [] => false
  | c :: text => !isWordChar c && !isQuote c && c ≠ '.' &&
      (text = [] || punctuators.contains (c :: text))

/-- The characters with which a comment or a punctuator goes on behind a mark. -/
def extensions (mark : List Char) : List Char :=
  ("//".toList :: "/*".toList :: punctuators).filterMap fun longer =>
    if mark.isPrefixOf longer then (longer.drop mark.length).head? else none

example : extensions "<".toList = "<=<:%".toList := by decide +kernel

theorem isNumber_eq_false (hdigit : c.isDigit = false) (hdot : c ≠ '.') :
    isNumber (c :: text) = false := by
  unfold isNumber
  split
  · rename_i h
    exact absurd (List.cons.inj h).1 hdot
  · rename_i h
    obtain ⟨rfl, rfl⟩ := List.cons.inj h
    rw [hdigit, Bool.false_and]
  · rename_i h
    cases h

theorem isQuoted_eq_false (hletter : isLetter c = false) (hquote : isQuote c = false) :
    isQuoted (c :: text) = false := by
  have hne {d : Char} (hd : isLetter d = true) : (d == c) = false := by
    refine beq_eq_false_iff_ne.2 ?_
    rintro rfl
    rw [hd] at hletter
    cases hletter
  have hL : ('L' == c) = false := hne (by decide)
  have hu : ('u' == c) = false := hne (by decide)
  have hU : ('U' == c) = false := hne (by decide)
  simp [isQuoted, encodings, List.isPrefixOf, hquote, hL, hu, hU]

theorem extension_of_punctuator {mark : List Char} (h : (mark ++ c :: text) ∈ punctuators) :
    c ∈ extensions mark := by
  refine List.mem_filterMap.2 ⟨mark ++ c :: text, ?_, ?_⟩
  · exact List.mem_cons_of_mem _ (List.mem_cons_of_mem _ h)
  · simp [List.isPrefixOf_iff_prefix]

theorem not_comment_of_punctuator :
    ∀ mark ∈ punctuators, mark.take 2 ≠ ['/', '/'] ∧ mark.take 2 ≠ ['/', '*'] := by
  decide

theorem isComment_eq_true (h : isComment text = true) :
    text.take 2 = ['/', '/'] ∨ text.take 2 = ['/', '*'] := by
  unfold isComment at h
  split at h
  · exact .inl rfl
  · exact .inr rfl
  · cases h

/-- A piece that goes on is no token of its own. -/
theorem tokens_ne_of_isPiece {first : Char} {behind : List Char} {ts : List (List Char)}
    (hpiece : isPiece (first :: (behind ++ [c])) = true) (hslash : first ≠ '/')
    (hblank : isBlank first = false) :
    tokens (first :: (behind ++ c :: rest)) ≠ (first :: behind) :: ts := by
  intro h
  have htext : first :: (behind ++ c :: rest) ≠ [] := List.cons_ne_nil _ _
  have hlongest := isLongest_longest htext
  have hlength := hlongest.longest _ ⟨rest, by simp⟩ hpiece
  rw [tokens, pieces_eq_cons htext] at h
  generalize longest (first :: (behind ++ c :: rest)) = other at hlongest hlength h
  obtain ⟨more, hmore⟩ := hlongest.begins
  cases other with
  | nil => exact absurd hlongest.isPiece (by decide)
  | cons d tail =>
    obtain rfl : d = first := (List.cons.inj hmore).1
    have hcomment : isComment (d :: tail) = false := by
      refine Bool.eq_false_iff.2 fun hcomment => ?_
      rcases isComment_eq_true hcomment with h | h <;> exact hslash (List.cons.inj h).1
    have htoken : isToken (d :: tail) = true := by
      rw [isToken, hcomment, List.all_cons, hblank]
      rfl
    rw [List.filter_cons_of_pos htoken] at h
    rw [(List.cons.inj h).1, List.length_cons, List.length_append] at hlength
    exact absurd hlength (Nat.not_succ_le_self _)

/-- A mark ends before a character that extends none of the punctuators and comments. -/
theorem stops_mark {mark : List Char} (hmark : isMark mark = true) (hc : c ∉ extensions mark) :
    Stops mark c := by
  intro more
  cases mark with
  | nil => cases hmark
  | cons first behind =>
    simp only [isMark, isWordChar, Bool.and_eq_true, Bool.not_eq_true', Bool.or_eq_false_iff,
      decide_eq_true_eq, Bool.or_eq_true, List.contains_iff_mem] at hmark
    obtain ⟨⟨⟨⟨hletter, hdigit⟩, hquote⟩, hdot⟩, hpunctuator⟩ := hmark
    have hidentifier : isIdentifier (first :: behind ++ c :: more) = false := by
      rw [List.cons_append, isIdentifier, hletter, Bool.false_and]
    have hcomment : isComment (first :: behind ++ c :: more) = false := by
      refine Bool.eq_false_iff.2 fun h => ?_
      cases behind with
      | nil =>
        refine hc (List.mem_filterMap.2 ⟨[first, c], ?_, by simp [List.isPrefixOf]⟩)
        rcases isComment_eq_true h with h | h
        · cases h
          exact List.mem_cons_self
        · cases h
          exact List.mem_cons_of_mem _ List.mem_cons_self
      | cons second behind =>
        obtain ⟨hline, hblock⟩ := not_comment_of_punctuator _
          (hpunctuator.resolve_left (List.cons_ne_nil second behind))
        exact (isComment_eq_true h).elim hline hblock
    have hpunctuators : punctuators.contains (first :: (behind ++ c :: more)) = false := by
      rw [List.contains_eq_mem, decide_eq_false_iff_not]
      exact fun h => hc (extension_of_punctuator h)
    rw [List.cons_append] at hidentifier hcomment ⊢
    rw [isPiece, hidentifier, isNumber_eq_false hdigit hdot, isQuoted_eq_false hletter hquote,
      hcomment, hpunctuators]
    simp

theorem stops_of_extensions_eq_nil {mark : List Char} (hmark : isMark mark = true)
    (hlast : extensions mark = []) : Stops mark c :=
  stops_mark hmark (hlast ▸ List.not_mem_nil)

/-! ## Words and numbers -/

theorem isWordChar_of_isLetter (h : isLetter c = true) : isWordChar c = true := by
  rw [isWordChar, h, Bool.true_or]

theorem toNat_of_isAlpha (h : c.isAlpha = true) : 65 ≤ c.toNat := by
  rcases Bool.or_eq_true_iff.1 h with hupper | hlower
  · exact UInt32.le_iff_toNat_le.1 (of_decide_eq_true hupper).1
  · have hle : 97 ≤ c.toNat :=
      UInt32.le_iff_toNat_le.1 (of_decide_eq_true (Bool.and_eq_true_iff.1 hlower).1)
    omega

theorem toNat_of_isDigit (h : c.isDigit = true) : c.toNat ≤ 57 :=
  UInt32.le_iff_toNat_le.1 (of_decide_eq_true (Bool.and_eq_true_iff.1 h).2)

theorem isDigit_of_isLetter (h : isLetter c = true) : c.isDigit = false := by
  refine Bool.eq_false_iff.2 fun hdigit => ?_
  have hle := toNat_of_isDigit hdigit
  simp only [isLetter, Bool.or_eq_true, decide_eq_true_eq] at h
  rcases h with ((halpha | rfl) | rfl) | hbeyond
  · have hge := toNat_of_isAlpha halpha
    omega
  · exact absurd hdigit (by decide)
  · exact absurd hdigit (by decide)
  · omega

theorem not_wordChar_of_mark {mark : List Char} (hmark : mark ∈ punctuators) {first : Char}
    (hfirst : first ∈ mark.head?) : isWordChar first = false := by
  have hall : ∀ mark ∈ punctuators, mark.head?.all (fun first => !isWordChar first) = true := by
    decide
  simpa using (Option.all_eq_true ..).1 (hall mark hmark) first hfirst

theorem not_punctuator (h : isWordChar c = true) : punctuators.contains (c :: text) = false := by
  rw [List.contains_eq_mem, decide_eq_false_iff_not]
  intro hm
  rw [not_wordChar_of_mark hm rfl] at h
  cases h

theorem not_comment (h : isWordChar c = true) : isComment (c :: text) = false := by
  have hslash : c ≠ '/' := by
    rintro rfl
    exact absurd h (by decide)
  refine Bool.eq_false_iff.2 fun hcomment => ?_
  rcases isComment_eq_true hcomment with h | h
  · exact hslash (List.cons.inj h).1
  · exact hslash (List.cons.inj h).1

theorem not_wordChar_of_isQuote (h : isQuote c = true) : isWordChar c = false := by
  simp only [isQuote, Bool.or_eq_true, decide_eq_true_eq] at h
  rcases h with rfl | rfl <;> decide

theorem wordChars_of_encoding {encoding : List Char} (h : encoding ∈ encodings) :
    ∀ c ∈ encoding, isWordChar c = true := by
  have hall : ∀ encoding ∈ encodings, encoding.all isWordChar = true := by decide
  exact List.all_eq_true.1 (hall encoding h)

/-- A literal has a quote behind its first word characters. -/
theorem quote_of_isQuoted {word : List Char} (hword : ∀ d ∈ word, isWordChar d = true)
    (hc : isWordChar c = false) (h : isQuoted (word ++ c :: text) = true) : isQuote c = true := by
  obtain ⟨encoding, hencoding, h⟩ := List.any_eq_true.1 h
  obtain ⟨hbegins, h⟩ := Bool.and_eq_true_iff.1 h
  obtain ⟨body, hbody⟩ := List.isPrefixOf_iff_prefix.1 hbegins
  rw [← hbody, List.drop_left] at h
  cases body with
  | nil => cases h
  | cons quote body =>
    obtain ⟨hquote, -⟩ := Bool.and_eq_true_iff.1 h
    have hrest := congrArg (List.dropWhile isWordChar) hbody
    rw [List.dropWhile_append_of_pos (wordChars_of_encoding hencoding),
      List.dropWhile_append_of_pos hword,
      List.dropWhile_cons_of_neg (Bool.eq_false_iff.1 (not_wordChar_of_isQuote hquote)),
      List.dropWhile_cons_of_neg (Bool.eq_false_iff.1 hc)] at hrest
    rw [← (List.cons.inj hrest).1]
    exact hquote

/-- A word ends before a character that is neither of a word nor a quote. -/
theorem stops_identifier (hword : isIdentifier piece = true) (hc : isWordChar c = false)
    (hquote : isQuote c = false) : Stops piece c := by
  intro more
  cases piece with
  | nil => cases hword
  | cons first behind =>
    obtain ⟨hfirst, hbehind⟩ := Bool.and_eq_true_iff.1 hword
    have hchars : ∀ d ∈ first :: behind, isWordChar d = true :=
      List.forall_mem_cons.2 ⟨isWordChar_of_isLetter hfirst, List.all_eq_true.1 hbehind⟩
    have hdot : first ≠ '.' := by
      rintro rfl
      exact absurd hfirst (by decide)
    have hidentifier : isIdentifier (first :: (behind ++ c :: more)) = false := by
      simp [isIdentifier, hc]
    have hquoted : isQuoted (first :: behind ++ c :: more) = false := by
      refine Bool.eq_false_iff.2 fun h => ?_
      rw [quote_of_isQuoted hchars hc h] at hquote
      cases hquote
    rw [List.cons_append] at hquoted ⊢
    rw [isPiece, hidentifier, isNumber_eq_false (isDigit_of_isLetter hfirst) hdot, hquoted,
      not_comment (isWordChar_of_isLetter hfirst), not_punctuator (isWordChar_of_isLetter hfirst)]
    simp

theorem isNumberTail_append {last : Char} :
    isNumberTail last (text ++ rest) =
      (isNumberTail last text && isNumberTail (text.getLast?.getD last) rest) := by
  induction text generalizing last with
  | nil => rfl
  | cons d text ih =>
    rw [List.cons_append, isNumberTail, ih, isNumberTail, Bool.and_assoc, List.getLast?_cons,
      Option.getD_some]

theorem isNumber_of_isDigit (h : c.isDigit = true) :
    isNumber (c :: text) = isNumberTail c text := by
  have hdot : c ≠ '.' := by
    rintro rfl
    exact absurd h (by decide)
  unfold isNumber
  split
  · rename_i e
    exact absurd (List.cons.inj e).1 hdot
  · rename_i e
    obtain ⟨rfl, rfl⟩ := List.cons.inj e
    rw [h, Bool.true_and]
  · rename_i e
    cases e

theorem isLetter_of_isDigit (h : c.isDigit = true) : isLetter c = false := by
  refine Bool.eq_false_iff.2 fun hletter => ?_
  rw [isDigit_of_isLetter hletter] at h
  cases h

/-- A number ends before a character that does not go on with it. -/
theorem stops_number {first : Char} (hfirst : first.isDigit = true)
    (hc : continuesNumber (text.getLast?.getD first) c = false) : Stops (first :: text) c := by
  intro more
  have hchar : isWordChar first = true := by
    rw [isWordChar, hfirst, Bool.or_true]
  have hquote : isQuote first = false := by
    refine Bool.eq_false_iff.2 fun h => ?_
    rw [not_wordChar_of_isQuote h] at hchar
    cases hchar
  have hletter := isLetter_of_isDigit hfirst
  have hidentifier : isIdentifier (first :: (text ++ c :: more)) = false := by
    rw [isIdentifier, hletter, Bool.false_and]
  have hnumber : isNumber (first :: (text ++ c :: more)) = false := by
    rw [isNumber_of_isDigit hfirst, isNumberTail_append, isNumberTail, hc, Bool.false_and,
      Bool.and_false]
  rw [List.cons_append, isPiece, hidentifier, hnumber, isQuoted_eq_false hletter hquote,
    not_comment hchar, not_punctuator hchar]
  simp

end ObjectLowering.Text.Lexical
