import ObjectLowering.Proofs.Expression.Rendered
import ObjectLowering.Proofs.Term

/-!
# ObjectLowering.Proofs.Rendering

Which expressions and statements have a text, said of terms. A node has one if its kind is asked for
at its place and all its parts have one, where the base of a member that stands for itself is no
part.

* `textParts?`, `statementParts?`: the parts of an expression; the expressions and the statements in a
  statement.
* `Term.Renders`, `Term.States`: the terms with a text.
* `Tree.Shows`: the tree has the nodes of a term, whatever parents they record.
* `expression_iff_renders`, `statement_iff_states`: the renderer has a text for what a tree shows just
  if the term has one.
-/

namespace ObjectLowering

variable {α β : Type}

/-- Whether a member with this name stands for itself, as static variables and types do. Only a simple
name can be the name of one. -/
def Environment.standsAlone? (env : Environment) : NodeKind → Option Bool
  | .simpleName _ (some (.ofVariable id)) => some ((env.variableAt? id).any (·.isStatic))
  | .simpleName _ (some (.ofType _)) => some true
  | .simpleName _ none => some false
  | _ => none

theorem Environment.standsAlone?_form (env : Environment) (k : NodeKind) :
    env.standsAlone? k.form = env.standsAlone? k := by
  cases k <;> rfl

/-- The base of a member, unless the member stands for itself, where `formOf` says of what form a child
is. -/
def memberParts? (env : Environment) (formOf : α → Option NodeKind) : List α → Option (List α)
  | [base, name] =>
    ((formOf name).bind env.standsAlone?).map fun alone => if alone then [] else [base]
  | _ => none

/-- The children whose texts are in the text of a node, if it is an expression. -/
def textParts? (env : Environment) (formOf : α → Option NodeKind) (form : NodeKind)
    (children : List α) : Option (List α) :=
  if form.isMember then memberParts? env formOf children
  else if form.isExpression then some children
  else none

/-- The expressions and the statements among the children of a statement. -/
def statementParts? (env : Environment) (form : NodeKind) (children : List α) :
    Option (List α × List α) :=
  match form with
  | .block _ => some ([], children)
  | .expressionStatement _ | .returnStatement _ | .switchCase _ | .breakStatement =>
    some (children, [])
  | .localVariable var _ => if (env.variableAt? var).isSome then some (children, []) else none
  | .ifStatement _ _ _ | .switchStatement _ _ => some (children.take 1, children.drop 1)
  | _ => none

section Parts

variable {env : Environment} {formOf : α → Option NodeKind} {form : NodeKind}
  {children parts exprs stmts : List α}

theorem textParts?_form (k : NodeKind) :
    textParts? env formOf k.form children = textParts? env formOf k children := by
  cases k <;> rfl

theorem memberParts?_subset (h : memberParts? env formOf children = some parts) :
    parts ⊆ children := by
  unfold memberParts? at h
  split at h
  · obtain ⟨alone, -, rfl⟩ := Option.map_eq_some_iff.1 h
    cases alone <;> simp
  · cases h

theorem textParts?_subset (h : textParts? env formOf form children = some parts) :
    parts ⊆ children := by
  unfold textParts? at h
  split at h
  · exact memberParts?_subset h
  · split at h
    · cases h
      exact List.Subset.refl _
    · cases h

/-- The parts are found by their places, and by the names of members. -/
theorem textParts?_map {formOf' : β → Option NodeKind} (f : α → β)
    (h : ∀ base name, form.isMember = true → children = [base, name] →
      (formOf' (f name)).bind env.standsAlone? = (formOf name).bind env.standsAlone?) :
    textParts? env formOf' form (children.map f) =
      (textParts? env formOf form children).map (List.map f) := by
  unfold textParts?
  split
  · rename_i hm
    match children with
    | [] | [_] | _ :: _ :: _ :: _ => rfl
    | [base, name] =>
      simp only [List.map_cons, List.map_nil, memberParts?, h base name hm rfl, Option.map_map]
      congr 1
      funext alone
      cases alone <;> rfl
  · split <;> rfl

theorem statementParts?_form (k : NodeKind) :
    statementParts? env k.form children = statementParts? env k children := by
  cases k <;> rfl

theorem statementParts?_map (f : α → β) :
    statementParts? env form (children.map f) =
      (statementParts? env form children).map (Prod.map (List.map f) (List.map f)) := by
  unfold statementParts?
  split <;> simp [List.map_take]

theorem statementParts?_subset (h : statementParts? env form children = some (exprs, stmts)) :
    exprs ⊆ children ∧ stmts ⊆ children := by
  unfold statementParts? at h
  split at h
  case h_6 =>
    split at h <;> cases h
    simp
  case h_7 | h_8 =>
    cases h
    exact ⟨List.take_subset .., List.drop_subset ..⟩
  all_goals
    cases h
    try simp

theorem isExpression_of_statementParts? (h : statementParts? env form children = some (exprs, stmts)) :
    form.isExpression = false := by
  cases form <;> first | rfl | cases h

theorem exists_map_parts {P : β → Prop} {f : α → β} {parts? : Option (List α)} :
    (∃ parts, parts?.map (List.map f) = some parts ∧ ∀ c ∈ parts, P c) ↔
      ∃ parts, parts? = some parts ∧ ∀ c ∈ parts, P (f c) := by
  simp only [Option.map_eq_some_iff, exists_exists_and_eq_and, List.forall_mem_map]

theorem exists_map_statementParts {P Q : β → Prop} {f : α → β}
    {parts? : Option (List α × List α)} :
    (∃ exprs stmts, parts?.map (Prod.map (List.map f) (List.map f)) = some (exprs, stmts) ∧
        (∀ c ∈ exprs, P c) ∧ ∀ c ∈ stmts, Q c) ↔
      ∃ exprs stmts, parts? = some (exprs, stmts) ∧
        (∀ c ∈ exprs, P (f c)) ∧ ∀ c ∈ stmts, Q (f c) := by
  cases parts? with
  | none => simp
  | some parts =>
    obtain ⟨exprs, stmts⟩ := parts
    constructor
    · rintro ⟨_, _, e, he, hs⟩
      cases e
      exact ⟨exprs, stmts, rfl, List.forall_mem_map.1 he, List.forall_mem_map.1 hs⟩
    · rintro ⟨_, _, e, he, hs⟩
      cases e
      exact ⟨_, _, rfl, List.forall_mem_map.2 he, List.forall_mem_map.2 hs⟩

end Parts

/-! ## Terms with a text -/

namespace Term

/-- The expression has a text. -/
inductive Renders (env : Environment) : Term α → Prop where
  | mk {label : α} {cell : Cell} {children parts : List (Term α)} :
    textParts? env (fun c => some c.form) cell.form children = some parts →
      (∀ c ∈ parts, Renders env c) → Renders env (.node label cell children)

/-- The statement has a text. -/
inductive States (env : Environment) : Term α → Prop where
  | mk {label : α} {cell : Cell} {children exprs stmts : List (Term α)} :
    statementParts? env cell.form children = some (exprs, stmts) →
      (∀ c ∈ exprs, c.Renders env) → (∀ c ∈ stmts, States env c) →
        States env (.node label cell children)

variable {env : Environment} {l : α} {cell : Cell} {cs : List (Term α)}

theorem renders_node : (node l cell cs).Renders env ↔ ∃ parts,
    textParts? env (fun c => some c.form) cell.form cs = some parts ∧ ∀ c ∈ parts, c.Renders env := by
  constructor
  · rintro ⟨hparts, h⟩
    exact ⟨_, hparts, h⟩
  · rintro ⟨parts, hparts, h⟩
    exact .mk hparts h

theorem states_node : (node l cell cs).States env ↔ ∃ exprs stmts,
    statementParts? env cell.form cs = some (exprs, stmts) ∧ (∀ c ∈ exprs, c.Renders env) ∧
      ∀ c ∈ stmts, c.States env := by
  constructor
  · rintro ⟨hparts, he, hs⟩
    exact ⟨_, _, hparts, he, hs⟩
  · rintro ⟨exprs, stmts, hparts, he, hs⟩
    exact .mk hparts he hs

theorem States.isExpression {s : Term α} (h : s.States env) : s.form.isExpression = false := by
  cases h with
  | mk hparts _ _ => exact isExpression_of_statementParts? hparts

theorem renders_relabel {f : α → β} {s : Term α} : (s.relabel f).Renders env ↔ s.Renders env := by
  induction s with
  | node l cell cs ih =>
    have hparts : textParts? env (fun c => some c.form) cell.form (cs.map (relabel f)) =
        (textParts? env (fun c => some c.form) cell.form cs).map (List.map (relabel f)) :=
      textParts?_map (relabel f) fun _ _ _ _ => by rw [form_relabel]
    rw [relabel_node, renders_node, renders_node, hparts, exists_map_parts]
    refine exists_congr fun parts => and_congr_right fun h => forall₂_congr fun c hc => ?_
    exact ih c (textParts?_subset h hc)

theorem states_relabel {f : α → β} {s : Term α} : (s.relabel f).States env ↔ s.States env := by
  induction s with
  | node l cell cs ih =>
    rw [relabel_node, states_node, states_node, statementParts?_map, exists_map_statementParts]
    refine exists₂_congr fun exprs stmts => and_congr_right fun h => and_congr ?_ ?_
    · exact forall₂_congr fun c hc => renders_relabel
    · exact forall₂_congr fun c hc => ih c ((statementParts?_subset h).2 hc)

end Term

/-! ## Trees that show a term -/

/-- The nodes of a term are in the tree, whatever parents they record. -/
inductive Tree.Shows (t : Tree) : Term NodeId → Prop where
  | node {id : NodeId} {cell : Cell} {cs : List (Term NodeId)} {kind : NodeKind} :
    t.kind? id = some kind → kind.form = cell.form → kind.children = cs.map Term.label →
      (∀ c ∈ cs, t.Shows c) → t.Shows (.node id cell cs)

theorem Tree.Holds.shows {t : Tree} {p : Option NodeId} {s : Term NodeId} (h : t.Holds p s) :
    t.Shows s := by
  induction h with
  | node hh _ ih =>
    obtain ⟨kind, hk, hf, hc⟩ := hh.kind?
    exact .node hk hf hc ih

namespace Tree.Shows

variable {t t' : Tree} {s : Term NodeId}

theorem child {id : NodeId} {cell : Cell} {cs : List (Term NodeId)} (h : t.Shows (.node id cell cs)) :
    ∀ c ∈ cs, t.Shows c := by
  cases h with
  | node _ _ _ hcs => exact hcs

theorem kind? (h : t.Shows s) : ∃ kind, t.kind? s.label = some kind ∧ kind.form = s.form ∧
    kind.children = s.children.map Term.label := by
  cases h with
  | node hk hf hc _ => exact ⟨_, hk, hf, hc⟩

/-- A tree shows what another does if no kind in it has changed. -/
theorem congr (h : t.Shows s) (he : ∀ i ∈ s.labels, t'.kind? i = t.kind? i) : t'.Shows s := by
  induction h with
  | @node id cell cs kind hk hf hc _ ih =>
    rw [Term.labels_node] at he
    refine .node ((he id List.mem_cons_self).trans hk) hf hc fun c hm => ih c hm fun i hi => ?_
    exact he i (List.mem_cons_of_mem _ (List.mem_flatMap.2 ⟨c, hm, hi⟩))

theorem lt_size (h : t.Shows s) : ∀ i ∈ s.labels, i < t.size := by
  induction h with
  | @node id cell cs kind hk _ _ _ ih =>
    intro i hi
    rw [Term.labels_node, List.mem_cons, List.mem_flatMap] at hi
    rcases hi with rfl | ⟨c, hm, hi⟩
    · obtain ⟨node, hnode, -⟩ := Option.map_eq_some_iff.1 hk
      exact (Array.getElem?_eq_some_iff.1 hnode).1
    · exact ih c hm i hi

end Tree.Shows

namespace Renderer

variable {r : Renderer} {id : NodeId} {s : Term NodeId}

/-! ## Expressions -/

def MemberForm.isAlone : MemberForm → Bool
  | alone _ => true
  | behind _ => false

theorem map_isAlone_memberForm? (r : Renderer) (name : NodeId) (separator : String) :
    (r.memberForm? name separator).map MemberForm.isAlone =
      (r.tree.kind? name).bind r.env.standsAlone? := by
  unfold memberForm?
  split
  · rename_i text v hk
    simp only [hk, Option.bind_some, Environment.standsAlone?]
    cases r.env.variableAt? v with
    | none => rfl
    | some v =>
      simp only [Option.any_some]
      split <;> simp_all [MemberForm.isAlone]
  · rename_i hk
    rw [hk]
    rfl
  · rename_i hk
    rw [hk]
    rfl
  · rename_i hvar htype hnone
    cases hk : r.tree.kind? name with
    | none => rfl
    | some kind =>
      cases kind with
      | simpleName text binding =>
        match binding with
        | none => exact absurd hk (hnone _)
        | some (.ofVariable v) => exact absurd hk (hvar _ _)
        | some (.ofType hash) => exact absurd hk (htype _ _)
      | _ => rfl

theorem exists_memberParts_iff {kind? : NodeId → Option NodeKind} {P : NodeId → Prop}
    {base name : NodeId} :
    (∃ parts, memberParts? r.env kind? [base, name] = some parts ∧ ∀ c ∈ parts, P c) ↔
      ∃ alone, (kind? name).bind r.env.standsAlone? = some alone ∧ (alone = false → P base) := by
  rw [memberParts?]
  cases (kind? name).bind r.env.standsAlone? with
  | none => simp
  | some alone => cases alone <;> simp

/-- A member has a text if its base has one or is not asked for one. -/
theorem exists_writesMember_iff {part : NodeId → String → Prop} {base name : NodeId}
    {separator : String} :
    (∃ text, WritesMember r part base name separator text) ↔ ∃ parts,
      memberParts? r.env r.tree.kind? [base, name] = some parts ∧ ∀ c ∈ parts, ∃ text, part c text := by
  rw [exists_memberParts_iff]
  rw [← map_isAlone_memberForm? r name separator]
  constructor
  · rintro ⟨text, h⟩
    cases h with
    | alone h => exact ⟨true, by rw [h]; rfl, nofun⟩
    | behind h hbase => exact ⟨false, by rw [h]; rfl, fun _ => ⟨_, hbase⟩⟩
  · rintro ⟨alone, h, hbase⟩
    obtain ⟨form, hform, rfl⟩ := Option.map_eq_some_iff.1 h
    cases form with
    | alone text => exact ⟨text, .alone hform⟩
    | behind joint =>
      obtain ⟨text, htext⟩ := hbase rfl
      exact ⟨_, .behind hform htext⟩

theorem exists_forall₂_iff {related : α → β → Prop} {l : List α} :
    (∃ bs, List.Forall₂ related l bs) ↔ ∀ a ∈ l, ∃ b, related a b := by
  induction l with
  | nil => simp
  | cons a l ih =>
    simp only [List.forall₂_cons_left_iff, List.forall_mem_cons, ← ih]
    constructor
    · rintro ⟨_, b, bs, h, hs, -⟩
      exact ⟨⟨b, h⟩, bs, hs⟩
    · rintro ⟨⟨b, h⟩, bs, hs⟩
      exact ⟨_, b, bs, h, hs, rfl⟩

/-- An expression that is no member has a text just if all its children have one. -/
theorem exists_writes_iff_forall {part : NodeId → String → Prop} {kind : NodeKind}
    (he : kind.isExpression = true) (hm : kind.isMember = false)
    (hkinds : ∀ c ∈ kind.children, ∃ k, r.tree.kind? c = some k) :
    (∃ text, Writes r part kind text) ↔ ∀ c ∈ kind.children, ∃ text, part c text := by
  constructor
  · rintro ⟨text, h⟩
    cases h with
    | assignment ht hv => exact List.forall_mem_cons.2 ⟨⟨_, ht⟩, List.forall_mem_singleton.2 ⟨_, hv⟩⟩
    | simpleName | literal | thisObject => nofun
    | qualifiedName | fieldAccess => cases hm
    | methodCall hr h => exact List.forall_mem_cons.2 ⟨⟨_, hr⟩, exists_forall₂_iff.1 ⟨_, h⟩⟩
    | implicitCall h | functionCall h => exact exists_forall₂_iff.1 ⟨_, h⟩
    | unary h | step h | parenthesized h => exact List.forall_mem_singleton.2 ⟨_, h⟩
    | binary hl _ hr => exact List.forall_mem_cons.2 ⟨⟨_, hl⟩, List.forall_mem_singleton.2 ⟨_, hr⟩⟩
  · intro h
    cases kind with
    | assignment op target value =>
      obtain ⟨_, ht⟩ := h target (by simp [NodeKind.children])
      obtain ⟨_, hv⟩ := h value (by simp [NodeKind.children])
      exact ⟨_, .assignment ht hv⟩
    | simpleName name binding => exact ⟨_, .simpleName name binding⟩
    | methodCall method receiver arguments =>
      cases receiver with
      | none =>
        obtain ⟨_, ha⟩ := exists_forall₂_iff.2 h
        exact ⟨_, .implicitCall ha⟩
      | some receiver =>
        obtain ⟨⟨_, hr⟩, ha⟩ := List.forall_mem_cons.1 h
        obtain ⟨_, ha⟩ := exists_forall₂_iff.2 ha
        exact ⟨_, .methodCall hr ha⟩
    | functionCall function arguments =>
      obtain ⟨_, ha⟩ := exists_forall₂_iff.2 h
      exact ⟨_, .functionCall ha⟩
    | unary op operand =>
      obtain ⟨_, ho⟩ := h operand (by simp [NodeKind.children])
      obtain ⟨_, hk⟩ := hkinds operand (by simp [NodeKind.children])
      exact ⟨_, .unary ho hk⟩
    | step op operand =>
      obtain ⟨_, ho⟩ := h operand (by simp [NodeKind.children])
      obtain ⟨_, hk⟩ := hkinds operand (by simp [NodeKind.children])
      exact ⟨_, .step ho hk⟩
    | binary op left right =>
      obtain ⟨_, hl⟩ := h left (by simp [NodeKind.children])
      obtain ⟨_, hr⟩ := h right (by simp [NodeKind.children])
      obtain ⟨_, hkl⟩ := hkinds left (by simp [NodeKind.children])
      obtain ⟨_, hkr⟩ := hkinds right (by simp [NodeKind.children])
      exact ⟨_, .binary hl hkl hr hkr⟩
    | literal value => exact ⟨_, .literal value⟩
    | parenthesized inner =>
      obtain ⟨_, hi⟩ := h inner (by simp [NodeKind.children])
      exact ⟨_, .parenthesized hi⟩
    | thisObject => exact ⟨_, .thisObject⟩
    | qualifiedName | fieldAccess => cases hm
    | _ => cases he

/-- An expression has a text just if its parts have one. -/
theorem exists_writes_iff {part : NodeId → String → Prop} {kind : NodeKind}
    (hkinds : ∀ c ∈ kind.children, ∃ k, r.tree.kind? c = some k) :
    (∃ text, Writes r part kind text) ↔ ∃ parts,
      textParts? r.env r.tree.kind? kind kind.children = some parts ∧
        ∀ c ∈ parts, ∃ text, part c text := by
  unfold textParts?
  split
  · rename_i hm
    cases kind with
    | qualifiedName base name =>
      refine Iff.trans ?_ (@exists_writesMember_iff r part base name ".")
      constructor
      · rintro ⟨text, h⟩
        cases h with
        | qualifiedName h => exact ⟨text, h⟩
      · rintro ⟨text, h⟩
        exact ⟨text, .qualifiedName h⟩
    | fieldAccess base name =>
      refine Iff.trans ?_ (@exists_writesMember_iff r part base name "->")
      constructor
      · rintro ⟨text, h⟩
        cases h with
        | fieldAccess h => exact ⟨text, h⟩
      · rintro ⟨text, h⟩
        exact ⟨text, .fieldAccess h⟩
    | _ => cases hm
  · rename_i hm
    split
    · rename_i he
      rw [exists_writes_iff_forall he (Bool.eq_false_iff.2 hm) hkinds]
      simp only [Option.some.injEq, exists_eq_left']
    · rename_i he
      refine iff_of_false ?_ nofun
      rintro ⟨_, h⟩
      cases h <;> exact he rfl

/-- An expression that the tree shows is rendered just if the term has a text. -/
theorem expression_iff_renders (h : r.tree.Shows s) :
    (∃ text, r.expression s.label = .ok text) ↔ s.Renders r.env := by
  induction h with
  | @node id cell cs kind hk hf hc hcs ih =>
    obtain ⟨node, hnode, rfl⟩ := kind?_eq_some_iff.1 hk
    have hparts : textParts? r.env r.tree.kind? node.kind node.kind.children =
        (textParts? r.env (fun c => some c.form) cell.form cs).map (List.map Term.label) := by
      rw [← textParts?_form, hf, hc]
      refine textParts?_map Term.label fun base name _ e => ?_
      obtain ⟨k, hkn, hkf, -⟩ := (hcs name (by simp [e])).kind?
      rw [hkn, ← hkf, Option.bind_some, Option.bind_some, Environment.standsAlone?_form]
    have hkinds : ∀ c ∈ node.kind.children, ∃ k, r.tree.kind? c = some k := by
      rw [hc]
      refine List.forall_mem_map.2 fun c hm => ?_
      obtain ⟨k, hk, -⟩ := (hcs c hm).kind?
      exact ⟨k, hk⟩
    calc (∃ text, r.expression id = .ok text)
        ↔ ∃ text, Writes r (fun c text => r.expression c = .ok text) node.kind text := by
          constructor
          · rintro ⟨text, h⟩
            obtain ⟨node', inner, hnode', hwrites, -⟩ := expression_eq_ok_iff.1 h
            obtain rfl := Option.some.inj (hnode.symm.trans hnode')
            exact ⟨inner, hwrites⟩
          · rintro ⟨inner, h⟩
            exact ⟨_, expression_eq_ok_iff.2 ⟨node, inner, hnode, h, rfl⟩⟩
      _ ↔ (Term.node id cell cs).Renders r.env := by
          rw [exists_writes_iff hkinds, hparts, exists_map_parts, Term.renders_node]
          refine exists_congr fun parts => and_congr_right fun h => forall₂_congr fun c hc => ?_
          exact ih c (textParts?_subset h hc)

/-! ## Statements -/

section Steps

variable {ε : Type}

theorem exists_bind_eq_ok_iff {x : Except ε α} {next : α → Except ε β} :
    (∃ b, x >>= next = .ok b) ↔ ∃ a, x = .ok a ∧ ∃ b, next a = .ok b := by
  simp only [bind_eq_ok_iff]
  rw [exists_comm]
  simp only [exists_and_left]

theorem exists_pure_eq_ok_iff {a : α} : (∃ b, (pure a : Except ε α) = .ok b) ↔ True :=
  iff_true_intro ⟨a, rfl⟩

theorem exists_mapM_eq_ok_iff {f : α → Except ε β} {l : List α} :
    (∃ bs, l.mapM f = .ok bs) ↔ ∀ a ∈ l, ∃ b, f a = .ok b := by
  simp only [mapM_eq_ok_iff]
  exact exists_forall₂_iff

end Steps

/-- The statement has a text at this level and with this indentation. -/
def StatedAt (r : Renderer) (place : Nat × Nat) (id : NodeId) : Prop :=
  ∃ text, r.statementFrom place.1 id place.2 = .ok text

/-- Where a branch is rendered. It has braces already, so the statements of a block stand in it as they
do in the block one level up. -/
def branchPlace (r : Renderer) (depth indent : Nat) (id : NodeId) : Nat × Nat :=
  if (r.tree.kind? id).any (·.isBlock) then (depth + 1, indent) else (depth, indent + 1)

/-- Where a statement in a switch is rendered. Case labels stand to the left of what they guard. -/
def switchedPlace (r : Renderer) (depth indent : Nat) (id : NodeId) : Nat × Nat :=
  if (r.tree.kind? id).any (·.isCaseLabel) then (depth, indent + 1) else (depth, indent + 2)

/-- Where a statement is rendered that is part of one of this kind. -/
def placeIn (r : Renderer) (depth indent : Nat) : NodeKind → NodeId → Nat × Nat
  | .ifStatement .. => r.branchPlace depth indent
  | .switchStatement .. => r.switchedPlace depth indent
  | _ => fun _ => (depth, indent + 1)

theorem le_placeIn (r : Renderer) (depth indent : Nat) (kind : NodeKind) (c : NodeId) :
    depth ≤ (r.placeIn depth indent kind c).1 := by
  unfold placeIn
  split
  · rw [branchPlace]
    split <;> simp
  · rw [switchedPlace]
    split <;> simp
  · exact Nat.le_refl _

/-- What reads the kind of a node first fails where there is no node. -/
theorem kind?_of_bind_node {next : Node → Except TreeError String}
    (h : r.tree.node id >>= next = .ok text) : ∃ kind, r.tree.kind? id = some kind := by
  obtain ⟨node, hnode, -⟩ := bind_eq_ok_iff.1 h
  exact ⟨node.kind, kind?_eq_some_iff.2 ⟨node, node_eq_ok_iff.1 hnode, rfl⟩⟩

theorem StatedAt.exists_kind {place : Nat × Nat} (h : r.StatedAt place id) :
    ∃ kind, r.tree.kind? id = some kind := by
  obtain ⟨depth, indent⟩ := place
  obtain ⟨text, h⟩ := h
  cases depth with
  | zero => cases h
  | succ depth => exact kind?_of_bind_node h

theorem statedAt_block_iff {depth indent : Nat} {statements : List NodeId}
    (hk : r.tree.kind? id = some (.block statements)) :
    r.StatedAt (depth + 1, indent) id ↔ ∀ c ∈ statements, r.StatedAt (depth, indent + 1) c := by
  obtain ⟨node, hnode, hkind⟩ := kind?_eq_some_iff.1 hk
  simp only [StatedAt, statementFrom, exists_bind_eq_ok_iff, node_eq_ok_iff, hnode, Option.some.injEq,
    exists_eq_left', hkind, exists_pure_eq_ok_iff, exists_mapM_eq_ok_iff, and_true]

theorem exists_branch_iff {depth indent : Nat} :
    (∃ text, r.branch (fun c => r.statementFrom depth c (indent + 1)) id = .ok text) ↔
      r.StatedAt (r.branchPlace depth indent id) id := by
  cases hk : r.tree.kind? id with
  | none =>
    refine iff_of_false (fun ⟨_, h⟩ => ?_) fun h => ?_
    · obtain ⟨_, h⟩ := kind?_of_bind_node h
      cases hk.symm.trans h
    · obtain ⟨_, h⟩ := h.exists_kind
      cases hk.symm.trans h
  | some kind =>
    obtain ⟨node, hnode, rfl⟩ := kind?_eq_some_iff.1 hk
    simp only [branch, exists_bind_eq_ok_iff, node_eq_ok_iff, hnode, Option.some.injEq,
      exists_eq_left', branchPlace, hk, Option.any_some]
    cases hkind : node.kind with
    | block statements =>
      rw [hkind] at hk
      rw [NodeKind.isBlock, if_pos rfl, statedAt_block_iff hk]
      simp only [exists_mapM_eq_ok_iff, exists_bind_eq_ok_iff, exists_pure_eq_ok_iff, and_true,
        StatedAt]
    | _ => rfl

theorem exists_switched_iff {depth indent : Nat} :
    (∃ text, (do
      match (← r.tree.node id).kind with
      | .switchCase _ => r.statementFrom depth id (indent + 1)
      | _ => r.statementFrom depth id (indent + 2)) = .ok text) ↔
      r.StatedAt (r.switchedPlace depth indent id) id := by
  cases hk : r.tree.kind? id with
  | none =>
    refine iff_of_false (fun ⟨_, h⟩ => ?_) fun h => ?_
    · obtain ⟨_, h⟩ := kind?_of_bind_node h
      cases hk.symm.trans h
    · obtain ⟨_, h⟩ := h.exists_kind
      cases hk.symm.trans h
  | some kind =>
    obtain ⟨node, hnode, rfl⟩ := kind?_eq_some_iff.1 hk
    simp only [exists_bind_eq_ok_iff, node_eq_ok_iff, hnode, Option.some.injEq, exists_eq_left',
      switchedPlace, hk, Option.any_some]
    cases node.kind <;> rfl

theorem exists_localVariable_iff {var : VarId} {initial : Option NodeId} :
    (∃ text, r.localVariable id var initial = .ok text) ↔ (r.env.variableAt? var).isSome = true ∧
      ∀ c ∈ initial.toList, ∃ text, r.expression c = .ok text := by
  rw [localVariable]
  cases r.env.variableAt? var with
  | none => simp
  | some v =>
    cases initial with
    | none => simp [exists_pure_eq_ok_iff]
    | some initial => simp [exists_bind_eq_ok_iff, exists_pure_eq_ok_iff, -bind_pure_comp]

/-- One level: a statement has a text just if the expressions and the statements in it have one. -/
theorem statedAt_succ_iff {depth indent : Nat} {kind : NodeKind} (hk : r.tree.kind? id = some kind) :
    r.StatedAt (depth + 1, indent) id ↔ ∃ exprs stmts,
      statementParts? r.env kind kind.children = some (exprs, stmts) ∧
        (∀ c ∈ exprs, ∃ text, r.expression c = .ok text) ∧
          ∀ c ∈ stmts, r.StatedAt (r.placeIn depth indent kind c) c := by
  have hparts {exprs stmts : List NodeId} {P Q : List NodeId → Prop} : (∃ es ss,
      some (exprs, stmts) = some (es, ss) ∧ P es ∧ Q ss) ↔ P exprs ∧ Q stmts :=
    ⟨fun ⟨_, _, h, hp⟩ => by cases h; exact hp, fun h => ⟨_, _, rfl, h⟩⟩
  obtain ⟨node, hnode, rfl⟩ := kind?_eq_some_iff.1 hk
  rw [StatedAt, statementFrom]
  simp only [exists_bind_eq_ok_iff, node_eq_ok_iff, hnode, Option.some.injEq, exists_eq_left']
  cases node.kind with
  | block statements =>
    simp only [exists_bind_eq_ok_iff, exists_pure_eq_ok_iff, exists_mapM_eq_ok_iff, and_true,
      statementParts?, hparts, NodeKind.children]
    simp [StatedAt, placeIn]
  | expressionStatement c =>
    simp only [exists_bind_eq_ok_iff, exists_pure_eq_ok_iff, and_true, statementParts?, hparts,
      NodeKind.children]
    simp
  | returnStatement value | switchCase value =>
    cases value <;>
      simp only [exists_bind_eq_ok_iff, exists_pure_eq_ok_iff, and_true, statementParts?, hparts,
        NodeKind.children, Option.toList] <;> simp
  | breakStatement =>
    simp only [exists_pure_eq_ok_iff, statementParts?, hparts, NodeKind.children]
    simp
  | localVariable var initial =>
    simp only [exists_bind_eq_ok_iff, exists_pure_eq_ok_iff, and_true, exists_localVariable_iff,
      statementParts?, NodeKind.children]
    split
    · rename_i hvar
      simp only [hparts, hvar]
      simp
    · rename_i hvar
      simp [hvar]
  | ifStatement condition thenBranch elseBranch =>
    cases elseBranch <;>
      simp only [exists_bind_eq_ok_iff, exists_pure_eq_ok_iff, and_true, exists_and_right,
        exists_branch_iff, statementParts?, hparts, NodeKind.children] <;> simp [placeIn]
  | switchStatement subject statements =>
    simp only [exists_bind_eq_ok_iff, exists_pure_eq_ok_iff, exists_mapM_eq_ok_iff, and_true,
      exists_and_right, statementParts?, hparts, NodeKind.children]
    refine and_congr (by simp) (forall₂_congr fun c _ => ?_)
    exact exists_bind_eq_ok_iff.symm.trans exists_switched_iff
  | _ => simp [statementParts?]

/-- The same of a statement that the tree shows. -/
theorem statedAt_node_iff {cell : Cell} {cs : List (Term NodeId)} {kind : NodeKind}
    (hk : r.tree.kind? id = some kind) (hf : kind.form = cell.form)
    (hc : kind.children = cs.map Term.label) (hcs : ∀ c ∈ cs, r.tree.Shows c) {depth indent : Nat} :
    r.StatedAt (depth + 1, indent) id ↔ ∃ exprs stmts,
      statementParts? r.env cell.form cs = some (exprs, stmts) ∧
        (∀ c ∈ exprs, c.Renders r.env) ∧
          ∀ c ∈ stmts, r.StatedAt (r.placeIn depth indent kind c.label) c.label := by
  rw [statedAt_succ_iff hk, ← statementParts?_form, hf, hc, statementParts?_map,
    exists_map_statementParts]
  refine exists₂_congr fun exprs stmts => and_congr_right fun h => and_congr_left fun _ => ?_
  exact forall₂_congr fun c hm => expression_iff_renders (hcs c ((statementParts?_subset h).1 hm))

theorem states_of_statedAt (h : r.tree.Shows s) {place : Nat × Nat}
    (hs : r.StatedAt place s.label) : s.States r.env := by
  induction h generalizing place with
  | @node id cell cs kind hk hf hc hcs ih =>
    obtain ⟨depth, indent⟩ := place
    cases depth with
    | zero =>
      obtain ⟨_, h⟩ := hs
      cases h
    | succ depth =>
      obtain ⟨exprs, stmts, hparts, he, hs⟩ := (statedAt_node_iff hk hf hc hcs).1 hs
      exact .mk hparts he fun c hm => ih c ((statementParts?_subset hparts).2 hm) (hs c hm)

/-- As deep as the term has nodes is deep enough. -/
theorem statedAt_of_states (h : r.tree.Shows s) (hs : s.States r.env) {depth : Nat}
    (hd : s.labels.length ≤ depth) (indent : Nat) : r.StatedAt (depth, indent) s.label := by
  induction h generalizing depth indent with
  | @node id cell cs kind hk hf hc hcs ih =>
    obtain ⟨exprs, stmts, hparts, he, hs⟩ := Term.states_node.1 hs
    cases depth with
    | zero => cases Nat.not_lt_zero _ (Nat.lt_of_lt_of_le (Term.length_labels_pos _) hd)
    | succ depth =>
      refine (statedAt_node_iff hk hf hc hcs).2 ⟨exprs, stmts, hparts, he, fun c hm => ?_⟩
      have hmem := (statementParts?_subset hparts).2 hm
      have hlt := Nat.lt_of_lt_of_le (Term.length_labels_lt id cell hmem) hd
      have hle := Nat.le_trans (Nat.le_of_lt_succ hlt) (r.le_placeIn depth indent kind c.label)
      exact ih c hmem (hs c hm) hle _

/-- A statement that the tree shows is rendered just if the term has a text. -/
theorem statement_iff_states (h : r.tree.Shows s) (hn : s.labels.Nodup) {indent : Nat} :
    (∃ text, r.statement s.label indent = .ok text) ↔ s.States r.env := by
  show r.StatedAt (r.tree.size + 1, indent) s.label ↔ _
  refine ⟨states_of_statedAt h, fun hs => statedAt_of_states h hs ?_ indent⟩
  exact Nat.le_succ_of_le (Tree.length_le_of_nodup hn h.lt_size)

end Renderer

end ObjectLowering
