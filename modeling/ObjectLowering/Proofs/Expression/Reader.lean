import ObjectLowering.Proofs.Expression.Grammar

/-!
# ObjectLowering.Proofs.Expression.Reader

No tokens are two expressions.

* `read`: a recursive-descent reader, which looks at one token to decide how to go on.
* `Reads`: what it reads if it is given steps enough; one lemma per way to go on.
* `IsRead`, `isRead_of_derives`: it reads what the grammar derives, up to a token with which no
  expression goes on.
* `derives_unique`: hence the grammar derives at most one expression from the same tokens.
-/

namespace ObjectLowering.Grammar

/-- What is to be read next: an expression of a kind, or what may follow one that has been read. -/
inductive Goal where
  | assignment
  | binary (level : Nat)
  | operators (level : Nat) (left : Expression)
  | prefixed
  | postfixed
  | suffixes (e : Expression)
  | arguments (function : Expression) (done : List Expression)

/-- Reads from the front of the tokens in so many steps, and returns the tokens that are left. -/
@[simp]
def read : Nat → Goal → List Token → Option (Expression × List Token)
  | 0, _, _ => none
  | steps + 1, .assignment, ts => do
    let (left, rest) ← read steps (.binary 1) ts
    match rest.head?.bind (assignmentOperators.lookup ·) with
    | some op => do
      let (value, rest) ← read steps .assignment rest.tail
      return (.assignment op left value, rest)
    | none => return (left, rest)
  | steps + 1, .binary level, ts =>
    if 10 < level then read steps .prefixed ts
    else do
      let (left, rest) ← read steps (.binary (level + 1)) ts
      read steps (.operators level left) rest
  | steps + 1, .operators level left, ts =>
    match ts.head?.bind (binaryOperators.lookup ·) with
    | some (tokenLevel, op) =>
      if tokenLevel = level then do
        let (right, rest) ← read steps (.binary (level + 1)) ts.tail
        read steps (.operators level (.binary op left right)) rest
      else some (left, ts)
    | none => some (left, ts)
  | steps + 1, .prefixed, ts =>
    match ts.head?.bind (prefixOperators.lookup ·) with
    | some op => do
      let (operand, rest) ← read steps .prefixed ts.tail
      return (.unary op operand, rest)
    | none => read steps .postfixed ts
  | _ + 1, .postfixed, [] => none
  | steps + 1, .postfixed, token :: rest =>
    if token = opening then do
      let (e, rest) ← read steps .assignment rest
      if rest.head? = some closing then read steps (.suffixes e) rest.tail else none
    else if Text.Lexical.isIdentifier token then read steps (.suffixes (.ofWord token)) rest
    else do
      let value ← integer? token
      read steps (.suffixes (.number value)) rest
  | steps + 1, .suffixes e, ts =>
    match ts.head?.bind (stepOperators.lookup ·) with
    | some op => read steps (.suffixes (.step op e)) ts.tail
    | none =>
      if ts.head? = some opening then
        if ts.tail.head? = some closing then read steps (.suffixes (.call e [])) ts.tail.tail
        else read steps (.arguments e []) ts.tail
      else some (e, ts)
  | steps + 1, .arguments function done, ts => do
    let (argument, rest) ← read steps .assignment ts
    if rest.head? = some comma then
      read steps (.arguments function (done ++ [argument])) rest.tail
    else if rest.head? = some closing then
      read steps (.suffixes (.call function (done ++ [argument]))) rest.tail
    else none

/-- Given steps enough, the reader reads the expression and leaves the rest. -/
def Reads (goal : Goal) (ts : List Token) (e : Expression) (rest : List Token) : Prop :=
  ∃ least, ∀ steps ≥ least, read steps goal ts = some (e, rest)

theorem Reads.unique {goal : Goal} {ts rest rest' : List Token} {e e' : Expression}
    (h : Reads goal ts e rest) (h' : Reads goal ts e' rest') : e = e' ∧ rest = rest' := by
  obtain ⟨least, h⟩ := h
  obtain ⟨least', h'⟩ := h'
  have heq := (h _ (Nat.le_max_left least least')).symm.trans (h' _ (Nat.le_max_right least least'))
  exact Prod.mk.inj (Option.some.inj heq)

theorem Reads.of_next {goal next : Goal} {ts us rest behind : List Token} {e e' : Expression}
    (hnext : Reads next us e rest)
    (h : ∀ steps, read steps next us = some (e, rest) →
      read (steps + 1) goal ts = some (e', behind)) : Reads goal ts e' behind := by
  obtain ⟨least, hnext⟩ := hnext
  refine ⟨least + 1, fun steps hsteps => ?_⟩
  obtain ⟨steps, rfl⟩ := Nat.exists_eq_add_of_lt hsteps
  exact h _ (hnext _ (Nat.le_add_right ..))

theorem Reads.of_nexts {goal next next' : Goal} {ts us us' rest rest' behind : List Token}
    {e e' e'' : Expression} (hnext : Reads next us e rest) (hnext' : Reads next' us' e' rest')
    (h : ∀ steps, read steps next us = some (e, rest) → read steps next' us' = some (e', rest') →
      read (steps + 1) goal ts = some (e'', behind)) : Reads goal ts e'' behind := by
  obtain ⟨least, hnext⟩ := hnext
  obtain ⟨least', hnext'⟩ := hnext'
  refine ⟨max least least' + 1, fun steps hsteps => ?_⟩
  obtain ⟨steps, rfl⟩ := Nat.exists_eq_add_of_lt hsteps
  exact h _ (hnext _ (by omega)) (hnext' _ (by omega))

/-! ## Ways to go on -/

namespace Reads

variable {ts us rest : List Token} {token : Token} {e e' left right : Expression} {level : Nat}

theorem loosest (h : Reads (.binary 1) ts e rest)
    (hrest : ∀ t ∈ rest.head?, assignmentOperators.lookup t = none) :
    Reads .assignment ts e rest := by
  refine h.of_next fun steps h => ?_
  cases rest with
  | nil => simp [h]
  | cons t rest => simp [h, hrest t rfl]

theorem assignment {op : AssignOp} {target value : Expression}
    (htarget : Reads (.binary 1) ts target (token :: us))
    (htoken : assignmentOperators.lookup token = some op) (hvalue : Reads .assignment us value rest) :
    Reads .assignment ts (.assignment op target value) rest :=
  htarget.of_nexts hvalue fun steps htarget hvalue => by simp [htarget, htoken, hvalue]

theorem tightest (h : Reads .prefixed ts e rest) : Reads (.binary 11) ts e rest :=
  h.of_next fun steps h => by simp [h]

theorem binary (hlevel : level ≤ 10) (hleft : Reads (.binary (level + 1)) ts left us)
    (h : Reads (.operators level left) us e rest) : Reads (.binary level) ts e rest :=
  hleft.of_nexts h fun steps hleft h => by simp [Nat.not_lt.2 hlevel, hleft, h]

theorem operator {op : BinaryOp} (htoken : binaryOperators.lookup token = some (level, op))
    (hright : Reads (.binary (level + 1)) ts right us)
    (h : Reads (.operators level (.binary op left right)) us e rest) :
    Reads (.operators level left) (token :: ts) e rest :=
  hright.of_nexts h fun steps hright h => by simp [htoken, hright, h]

theorem no_operator (h : ∀ t ∈ ts.head?, ∀ op, binaryOperators.lookup t ≠ some (level, op)) :
    Reads (.operators level left) ts left ts := by
  refine ⟨1, fun steps hsteps => ?_⟩
  obtain ⟨steps, rfl⟩ := Nat.exists_eq_add_of_lt hsteps
  cases ts with
  | nil => simp
  | cons t ts =>
    cases ht : binaryOperators.lookup t with
    | none => simp [ht]
    | some found =>
      obtain ⟨tokenLevel, op⟩ := found
      have hne : tokenLevel ≠ level := by
        rintro rfl
        exact h t rfl op ht
      simp [ht, hne]

theorem unary {op : UnaryOp} (htoken : prefixOperators.lookup token = some op)
    (h : Reads .prefixed ts e rest) : Reads .prefixed (token :: ts) (.unary op e) rest :=
  h.of_next fun steps h => by simp [htoken, h]

theorem no_unary (htoken : prefixOperators.lookup token = none)
    (h : Reads .postfixed (token :: ts) e rest) : Reads .prefixed (token :: ts) e rest :=
  h.of_next fun steps h => by simp [htoken, h]

theorem parenthesized (h : Reads .assignment ts e (closing :: us))
    (h' : Reads (.suffixes e) us e' rest) : Reads .postfixed (opening :: ts) e' rest :=
  h.of_nexts h' fun steps h h' => by simp [h, h']

theorem word (hword : Text.Lexical.isIdentifier token = true)
    (h : Reads (.suffixes (.ofWord token)) ts e rest) : Reads .postfixed (token :: ts) e rest := by
  have hne : token ≠ opening := by
    rintro rfl
    exact absurd hword (by decide)
  exact h.of_next fun steps h => by simp [hne, hword, h]

theorem number {value : Nat} (hvalue : integer? token = some value)
    (h : Reads (.suffixes (.number value)) ts e rest) : Reads .postfixed (token :: ts) e rest := by
  cases token with
  | nil => cases hvalue
  | cons c text =>
  have hdigit : c.isDigit = true := isDigit_of_integer? hvalue
  have hne : c :: text ≠ opening := by
    intro heq
    rw [(List.cons.inj heq).1] at hdigit
    exact absurd hdigit (by decide)
  have hword : Text.Lexical.isIdentifier (c :: text) = false := by
    rw [Text.Lexical.isIdentifier, Text.Lexical.isLetter_of_isDigit hdigit, Bool.false_and]
  exact h.of_next fun steps h => by simp [hne, hword, hvalue, h]

theorem step {op : StepOp} (htoken : stepOperators.lookup token = some op)
    (h : Reads (.suffixes (.step op e)) ts e' rest) : Reads (.suffixes e) (token :: ts) e' rest :=
  h.of_next fun steps h => by simp [htoken, h]

theorem call_empty (h : Reads (.suffixes (.call e [])) ts e' rest) :
    Reads (.suffixes e) (opening :: closing :: ts) e' rest :=
  h.of_next fun steps h => by
    have htoken : stepOperators.lookup opening = none := by decide
    simp [htoken, h]

theorem call (htoken : token ≠ closing) (h : Reads (.arguments e []) (token :: ts) e' rest) :
    Reads (.suffixes e) (opening :: token :: ts) e' rest :=
  h.of_next fun steps h => by
    have hopening : stepOperators.lookup opening = none := by decide
    simp [hopening, htoken, h]

theorem no_suffix (h : ∀ t ∈ ts.head?, stepOperators.lookup t = none ∧ t ≠ opening) :
    Reads (.suffixes e) ts e ts := by
  refine ⟨1, fun steps hsteps => ?_⟩
  obtain ⟨steps, rfl⟩ := Nat.exists_eq_add_of_lt hsteps
  cases ts with
  | nil => simp
  | cons t ts =>
    obtain ⟨hstep, hopening⟩ := h t rfl
    simp [hstep, hopening]

theorem argument {function argument : Expression} {done : List Expression}
    (hargument : Reads .assignment ts argument (comma :: us))
    (h : Reads (.arguments function (done ++ [argument])) us e rest) :
    Reads (.arguments function done) ts e rest :=
  hargument.of_nexts h fun steps hargument h => by simp [hargument, h]

theorem last_argument {function argument : Expression} {done : List Expression}
    (hargument : Reads .assignment ts argument (closing :: us))
    (h : Reads (.suffixes (.call function (done ++ [argument]))) us e rest) :
    Reads (.arguments function done) ts e rest :=
  hargument.of_nexts h fun steps hargument h => by
    have hne : closing ≠ comma := by decide
    simp [hargument, hne, h]

end Reads

/-! ## What ends an expression -/

/-- No expression of the level goes on with the token. -/
structure Ends (level : Nat) (token : Token) : Prop where
  no_step : stepOperators.lookup token = none
  no_call : token ≠ opening
  looser : ∀ {tokenLevel op}, binaryOperators.lookup token = some (tokenLevel, op) →
    tokenLevel < level
  no_assignment : level = 0 → assignmentOperators.lookup token = none

/-- No expression of the level goes on with what follows. -/
def Follow (level : Nat) (rest : List Token) : Prop :=
  ∀ t ∈ rest.head?, Ends level t

variable {level : Nat} {token : Token} {e : Expression} {ts rest : List Token}

theorem mem_of_lookup {α : Type} {table : List (Token × α)} {a : α}
    (h : table.lookup token = some a) : (token, a) ∈ table := by
  obtain ⟨before, behind, rfl, -⟩ := List.lookup_eq_some_iff.1 h
  exact List.mem_append_right _ List.mem_cons_self

theorem Ends.mono {tighter : Nat} (h : Ends level token) (hle : level ≤ tighter) :
    Ends tighter token where
  no_step := h.no_step
  no_call := h.no_call
  looser htoken := Nat.lt_of_lt_of_le (h.looser htoken) hle
  no_assignment hzero := h.no_assignment (Nat.le_zero.1 (hzero ▸ hle))

theorem Follow.mono {tighter : Nat} (h : Follow level rest) (hle : level ≤ tighter) :
    Follow tighter rest :=
  fun t ht => (h t ht).mono hle

theorem follow_cons (h : Ends level token) : Follow level (token :: rest) :=
  fun _ ht => Option.some.inj ht ▸ h

theorem ends_comma : Ends 0 comma :=
  ⟨by decide, by decide, nofun, fun _ => by decide⟩

theorem ends_closing : Ends 0 closing :=
  ⟨by decide, by decide, nofun, fun _ => by decide⟩

theorem binaryOperators_level : ∀ entry ∈ binaryOperators, 1 ≤ entry.2.1 ∧ entry.2.1 ≤ 10 ∧
    stepOperators.lookup entry.1 = none ∧ entry.1 ≠ opening := by
  decide

theorem assignmentOperators_ends : ∀ entry ∈ assignmentOperators,
    binaryOperators.lookup entry.1 = none ∧ stepOperators.lookup entry.1 = none ∧
      entry.1 ≠ opening := by
  decide

theorem ends_of_binary {op : BinaryOp} (h : binaryOperators.lookup token = some (level, op)) :
    Ends (level + 1) token := by
  obtain ⟨-, -, hstep, hopening⟩ := binaryOperators_level _ (mem_of_lookup h)
  refine ⟨hstep, hopening, fun h' => ?_, nofun⟩
  rw [h] at h'
  cases h'
  exact Nat.lt_succ_self level

theorem ends_of_assignment {op : AssignOp} (h : assignmentOperators.lookup token = some op) :
    Ends 1 token := by
  obtain ⟨hbinary, hstep, hopening⟩ := assignmentOperators_ends _ (mem_of_lookup h)
  refine ⟨hstep, hopening, fun h' => ?_, nofun⟩
  rw [hbinary] at h'
  cases h'

/-- No expression begins with a closing parenthesis, and only those of prefix operators begin with
one. -/
theorem Derives.head (h : Derives level ts e) : ∃ token behind, ts = token :: behind ∧
    token ≠ closing ∧ (12 ≤ level → prefixOperators.lookup token = none) := by
  have hprefixes : ∀ entry ∈ prefixOperators, entry.1 ≠ closing ∧
      Text.Lexical.isIdentifier entry.1 = false ∧ integer? entry.1 = none := by
    decide
  induction h with
  | assignment _ _ _ ih =>
    obtain ⟨token, behind, rfl, hclosing, -⟩ := ih
    exact ⟨token, _, rfl, hclosing, fun h => absurd h (by decide)⟩
  | binary _ _ _ ih =>
    obtain ⟨token, behind, rfl, hhead⟩ := ih
    exact ⟨token, _, rfl, hhead⟩
  | unary htoken =>
    exact ⟨_, _, rfl, (hprefixes _ (mem_of_lookup htoken)).1, fun h => absurd h (by decide)⟩
  | step _ _ ih =>
    obtain ⟨token, behind, rfl, hhead⟩ := ih
    exact ⟨token, _, rfl, hhead⟩
  | call _ _ ih =>
    obtain ⟨token, behind, rfl, hhead⟩ := ih
    exact ⟨token, _, rfl, hhead⟩
  | @word word hword =>
    refine ⟨word, [], rfl, ?_, fun _ => ?_⟩
    · rintro rfl
      exact absurd hword (by decide)
    · refine Option.eq_none_iff_forall_ne_some.2 fun op hop => ?_
      rw [(hprefixes _ (mem_of_lookup hop)).2.1] at hword
      cases hword
  | @number token value hvalue =>
    refine ⟨token, [], rfl, ?_, fun _ => ?_⟩
    · rintro rfl
      cases hvalue
    · refine Option.eq_none_iff_forall_ne_some.2 fun op hop => ?_
      rw [(hprefixes _ (mem_of_lookup hop)).2.2] at hvalue
      cases hvalue
  | parenthesized => exact ⟨opening, _, rfl, by decide, fun _ => by decide⟩
  | looser _ ih =>
    obtain ⟨token, behind, rfl, hclosing, hhead⟩ := ih
    exact ⟨token, behind, rfl, hclosing, fun h => hhead (Nat.le_succ_of_le h)⟩

/-! ## The reader reads what the grammar derives -/

/-- How the reader reads an expression of a level before what may follow it. Where more operands or
suffixes may follow, it goes on with the expression as the first part of what it reads. -/
structure IsRead (level : Nat) (ts : List Token) (e : Expression) : Prop where
  whole : level = 0 → ∀ {rest}, Follow 0 rest → Reads .assignment (ts ++ rest) e rest
  chained : 1 ≤ level → level ≤ 10 → ∀ {rest e' rest'}, Follow (level + 1) rest →
    Reads (.operators level e) rest e' rest' → Reads (.binary level) (ts ++ rest) e' rest'
  prefixed : level = 11 → ∀ {rest}, Follow 11 rest → Reads .prefixed (ts ++ rest) e rest
  postfixed : 12 ≤ level → ∀ {rest e' rest'}, Reads (.suffixes e) rest e' rest' →
    Reads .postfixed (ts ++ rest) e' rest'

namespace IsRead

theorem of_whole (h : ∀ {rest}, Follow 0 rest → Reads .assignment (ts ++ rest) e rest) :
    IsRead 0 ts e :=
  ⟨fun _ => h, fun _ => by omega, fun _ => by omega, fun _ => by omega⟩

theorem of_chained (hlevel : 1 ≤ level) (hlevel' : level ≤ 10)
    (h : ∀ {rest e' rest'}, Follow (level + 1) rest → Reads (.operators level e) rest e' rest' →
      Reads (.binary level) (ts ++ rest) e' rest') : IsRead level ts e :=
  ⟨fun _ => by omega, fun _ _ => h, fun _ => by omega, fun _ => by omega⟩

theorem of_prefixed (h : ∀ {rest}, Follow 11 rest → Reads .prefixed (ts ++ rest) e rest) :
    IsRead 11 ts e :=
  ⟨fun _ => by omega, fun _ _ => by omega, fun _ => h, fun _ => by omega⟩

theorem of_postfixed (hlevel : 12 ≤ level) (h : ∀ {rest e' rest'},
    Reads (.suffixes e) rest e' rest' → Reads .postfixed (ts ++ rest) e' rest') :
    IsRead level ts e :=
  ⟨fun _ => by omega, fun _ _ => by omega, fun _ => by omega, fun _ => h⟩

/-- An expression of one level is read as one of the next looser level if no operator follows. -/
theorem binary (h : IsRead level ts e) (hlevel : 1 ≤ level) (hlevel' : level ≤ 11)
    (hrest : Follow level rest) : Reads (.binary level) (ts ++ rest) e rest := by
  rcases Nat.lt_or_eq_of_le hlevel' with hlt | rfl
  · refine h.chained hlevel (Nat.le_of_lt_succ hlt) (hrest.mono (Nat.le_succ level)) ?_
    refine .no_operator fun t ht op hop => ?_
    exact Nat.lt_irrefl level ((hrest t ht).looser hop)
  · exact (h.prefixed rfl hrest).tightest

/-- An expression of one level is one of the next looser level. -/
theorem looser (hderives : Derives (level + 1) ts e) (h : IsRead (level + 1) ts e) :
    IsRead level ts e where
  whole hlevel rest hrest := by
    subst hlevel
    refine (h.binary (Nat.le_refl 1) (by decide) (hrest.mono (Nat.zero_le 1))).loosest fun t ht => ?_
    exact (hrest t ht).no_assignment rfl
  chained hlevel hlevel' rest e' rest' hrest hoperators :=
    .binary hlevel' (h.binary (Nat.le_add_left ..) (Nat.succ_le_succ hlevel') hrest) hoperators
  prefixed hlevel rest hrest := by
    subst hlevel
    obtain ⟨token, behind, rfl, -, htoken⟩ := hderives.head
    refine .no_unary (htoken (Nat.le_refl 12)) (h.postfixed (Nat.le_refl 12) ?_)
    exact .no_suffix fun t ht => ⟨(hrest t ht).no_step, (hrest t ht).no_call⟩
  postfixed hlevel _ _ _ hsuffixes := h.postfixed (Nat.le_succ_of_le hlevel) hsuffixes

theorem of_le {looser : Nat} (hderives : Derives level ts e) (h : IsRead level ts e)
    (hle : looser ≤ level) : IsRead looser ts e := by
  induction level with
  | zero => exact Nat.le_zero.1 hle ▸ h
  | succ level ih =>
    rcases Nat.lt_or_eq_of_le hle with hlt | rfl
    · exact ih hderives.looser (h.looser hderives) (Nat.le_of_lt_succ hlt)
    · exact h

end IsRead

theorem head_of_arguments {argument : List Token × Expression}
    {arguments : List (List Token × Expression)}
    (h : ∀ a ∈ argument :: arguments, Derives 0 a.1 a.2) (rest : List Token) :
    ∃ token behind, [comma].intercalate ((argument :: arguments).map Prod.fst) ++ closing :: rest =
      token :: behind ∧ token ≠ closing := by
  obtain ⟨token, behind, htokens, hclosing, -⟩ := (h argument List.mem_cons_self).head
  cases arguments with
  | nil => exact ⟨token, behind ++ closing :: rest, by simp [htokens], hclosing⟩
  | cons next arguments =>
    refine ⟨token, behind ++ [comma] ++ [comma].intercalate ((next :: arguments).map Prod.fst) ++
      closing :: rest, ?_, hclosing⟩
    rw [List.map_cons, List.map_cons, List.intercalate_cons_cons, htokens]
    rfl

/-- The arguments of a call, once the first of them is to be read. -/
theorem reads_arguments {function : Expression} {argument : List Token × Expression}
    {arguments : List (List Token × Expression)}
    (h : ∀ a ∈ argument :: arguments, IsRead 0 a.1 a.2) {done : List Expression} {e : Expression}
    {rest rest' : List Token}
    (hcall : Reads (.suffixes (.call function (done ++ (argument :: arguments).map Prod.snd))) rest e
      rest') :
    Reads (.arguments function done)
      ([comma].intercalate ((argument :: arguments).map Prod.fst) ++ closing :: rest) e rest' := by
  induction arguments generalizing argument done with
  | nil =>
    have hread := (h argument List.mem_cons_self).whole rfl (@follow_cons 0 closing rest ends_closing)
    simpa using hread.last_argument hcall
  | cons next arguments ih =>
    obtain ⟨hfirst, hothers⟩ := List.forall_mem_cons.1 h
    rw [List.map_cons, List.map_cons, List.intercalate_cons_cons, List.append_assoc,
      List.append_assoc]
    refine (hfirst.whole rfl (follow_cons ends_comma)).argument (ih hothers ?_)
    rwa [List.append_assoc]

/-- The reader reads what the grammar derives. -/
theorem isRead_of_derives (h : Derives level ts e) : IsRead level ts e := by
  induction h with
  | assignment htarget htoken _ iht ihv =>
    refine .of_whole fun hrest => ?_
    rw [List.append_assoc]
    refine .assignment ?_ htoken (ihv.whole rfl hrest)
    exact (iht.of_le htarget (by decide)).binary (Nat.le_refl 1) (by decide)
      (follow_cons (ends_of_assignment htoken))
  | binary _ htoken _ ihl ihr =>
    obtain ⟨hlevel, hlevel', -⟩ := binaryOperators_level _ (mem_of_lookup htoken)
    refine .of_chained hlevel hlevel' fun hrest hoperators => ?_
    rw [List.append_assoc]
    refine ihl.chained hlevel hlevel' (follow_cons (ends_of_binary htoken)) ?_
    exact .operator htoken
      (ihr.binary (Nat.le_add_left ..) (Nat.succ_le_succ hlevel') hrest) hoperators
  | unary htoken _ ih => exact .of_prefixed fun hrest => (ih.prefixed rfl hrest).unary htoken
  | step _ htoken ih =>
    refine .of_postfixed (Nat.le_refl 12) fun hsuffixes => ?_
    rw [List.append_assoc]
    exact ih.postfixed (Nat.le_refl 12) (hsuffixes.step htoken)
  | @call function ts arguments _ harguments ih iha =>
    refine .of_postfixed (Nat.le_refl 12) fun {rest _ _} hsuffixes => ?_
    rw [List.append_assoc, List.cons_append, List.append_assoc, List.singleton_append]
    refine ih.postfixed (Nat.le_refl 12) ?_
    cases arguments with
    | nil => exact hsuffixes.call_empty
    | cons argument arguments =>
      obtain ⟨token, behind, htokens, hclosing⟩ := head_of_arguments harguments rest
      have hread := @reads_arguments function argument arguments iha [] _ _ _ hsuffixes
      rw [htokens] at hread ⊢
      exact hread.call hclosing
  | word hword => exact .of_postfixed (by decide) fun hsuffixes => hsuffixes.word hword
  | number hvalue => exact .of_postfixed (by decide) fun hsuffixes => hsuffixes.number hvalue
  | parenthesized _ ih =>
    refine .of_postfixed (by decide) fun hsuffixes => ?_
    rw [List.cons_append, List.append_assoc]
    exact (ih.whole rfl (follow_cons ends_closing)).parenthesized hsuffixes
  | looser hderives ih => exact ih.looser hderives

/-- The same tokens are one expression at most. -/
theorem derives_unique {e' : Expression} (h : Derives 0 ts e) (h' : Derives 0 ts e') : e = e' := by
  have hread {e : Expression} (h : Derives 0 ts e) : Reads .assignment (ts ++ []) e [] :=
    (isRead_of_derives h).whole rfl nofun
  exact ((hread h).unique (hread h')).1

end ObjectLowering.Grammar
