import Mathlib.Data.List.Forall2
import Mathlib.Data.List.Nodup
import ObjectLowering.Proofs.Holds
import ObjectLowering.Tree.Render

/-!
# ObjectLowering.Proofs.Expression.Rendered

The text of an expression by the texts of its parts, without a bound on the depth.

* `Writes`: the text of an expression of a kind, one rule per kind, given which texts its parts have.
* `expressionFrom_mono`: the text does not depend on how deep the renderer may go, once it goes deep
  enough.
* `expression_eq_ok_iff_exists`: as deep as the tree has nodes is deep enough, since each level is one
  node's own (`exists_renderedAt`).
* `expression_eq_ok_iff`: an expression is rendered just if its parts are, by the rule for its kind.
* `expression_induction`: induction over an expression that is rendered.
-/

namespace ObjectLowering

/-- The node is of the kind and needs no check. -/
def Tree.IsPlain (t : Tree) (id : NodeId) (kind : NodeKind) : Prop :=
  ∃ node, t.node? id = some node ∧ node.kind = kind ∧ node.nilCheck = false

theorem Tree.IsPlain.unique {t : Tree} {id : NodeId} {kind kind' : NodeKind}
    (h : t.IsPlain id kind) (h' : t.IsPlain id kind') : kind = kind' := by
  obtain ⟨node, hnode, rfl, -⟩ := h
  obtain ⟨node', hnode', rfl, -⟩ := h'
  rw [Option.some.inj (hnode.symm.trans hnode')]

theorem Tree.IsPlain.kind?_eq {t : Tree} {id : NodeId} {kind : NodeKind} (h : t.IsPlain id kind) :
    t.kind? id = some kind := by
  obtain ⟨node, hnode, rfl, -⟩ := h
  rw [Tree.kind?, hnode, Option.map_some]

namespace Renderer

variable {r : Renderer} {id : NodeId} {text : String}

/-- A member stands for itself, or follows its base. -/
inductive MemberForm where
  | alone (text : String)
  | behind (joint : String)
  deriving DecidableEq

def memberForm? (r : Renderer) (name : NodeId) (separator : String) : Option MemberForm :=
  match r.tree.kind? name with
  | some (.simpleName text (some (.ofVariable id))) =>
    match r.env.variableAt? id with
    | some v =>
      if v.isStatic then some (.alone (Spelling.variableName r.env v))
      else some (.behind ("->" ++ Spelling.variableName r.env v))
    | none => some (.behind (separator ++ text))
  | some (.simpleName text (some (.ofType hash))) =>
    some (.alone (r.simpleName text (some (.ofType hash))))
  | some (.simpleName text none) => some (.behind (separator ++ text))
  | _ => none

/-- The text of a member of `base`, where `part` says which text its base has. -/
inductive WritesMember (r : Renderer) (part : NodeId → String → Prop) (base name : NodeId)
    (separator : String) : String → Prop where
  | alone {text : String} : r.memberForm? name separator = some (.alone text) →
      WritesMember r part base name separator text
  | behind {joint baseText : String} : r.memberForm? name separator = some (.behind joint) →
      part base baseText → WritesMember r part base name separator (baseText ++ joint)

/-- The text of an expression of a kind, but for the check that it is not nil, where `part` says
which texts its parts have. -/
inductive Writes (r : Renderer) (part : NodeId → String → Prop) : NodeKind → String → Prop where
  | assignment {op : AssignOp} {target value : NodeId} {targetText valueText : String} :
    part target targetText → part value valueText →
      Writes r part (.assignment op target value)
        (targetText ++ " " ++ op.spelling ++ " " ++ valueText)
  | simpleName (name : String) (binding : Option Binding) :
    Writes r part (.simpleName name binding) (r.simpleName name binding)
  | qualifiedName {qualifier name : NodeId} {text : String} :
    WritesMember r part qualifier name "." text → Writes r part (.qualifiedName qualifier name) text
  | fieldAccess {base name : NodeId} {text : String} :
    WritesMember r part base name "->" text → Writes r part (.fieldAccess base name) text
  | methodCall {method : MethodRef} {receiver : NodeId} {arguments : List NodeId}
    {receiverText : String} {texts : List String} :
    part receiver receiverText → List.Forall₂ part arguments texts →
      Writes r part (.methodCall method (some receiver) arguments)
        ("[" ++ receiverText ++ " " ++ selector method.name texts ++ "]")
  | implicitCall {method : MethodRef} {arguments : List NodeId} {texts : List String} :
    List.Forall₂ part arguments texts →
      Writes r part (.methodCall method none arguments)
        ("[" ++ r.implicitReceiver method ++ " " ++ selector method.name texts ++ "]")
  | functionCall {function : FunctionRef} {arguments : List NodeId} {texts : List String} :
    List.Forall₂ part arguments texts →
      Writes r part (.functionCall function arguments)
        (function.name ++ enclose (", ".intercalate texts))
  | unary {op : UnaryOp} {operand : NodeId} {kind : NodeKind} {text : String} :
    part operand text → r.tree.kind? operand = some kind →
      Writes r part (.unary op operand) (op.spelling ++ encloseIf (isOperation kind) text)
  | step {op : StepOp} {operand : NodeId} {kind : NodeKind} {text : String} :
    part operand text → r.tree.kind? operand = some kind →
      Writes r part (.step op operand) (encloseIf (isOperation kind) text ++ op.spelling)
  | binary {op : BinaryOp} {left right : NodeId} {leftKind rightKind : NodeKind}
    {leftText rightText : String} :
    part left leftText → r.tree.kind? left = some leftKind →
      part right rightText → r.tree.kind? right = some rightKind →
      Writes r part (.binary op left right)
        (encloseIf (looserLeft op leftKind) leftText ++ " " ++ op.spelling ++ " " ++
          encloseIf (looserRight op rightKind) rightText)
  | literal (value : Literal) : Writes r part (.literal value) (r.literal value)
  | parenthesized {inner : NodeId} {text : String} :
    part inner text → Writes r part (.parenthesized inner) (enclose text)
  | thisObject : Writes r part .thisObject "self"

/-- The text of an expression inside the check that it is not nil, if it has one. -/
def guarded (node : Node) (text : String) : String :=
  if node.nilCheck then "nil_chk" ++ enclose text else text

theorem WritesMember.mono {part part' : NodeId → String → Prop} {base name : NodeId}
    {separator : String} (hpart : ∀ c s, part c s → part' c s)
    (h : WritesMember r part base name separator text) :
    WritesMember r part' base name separator text := by
  cases h with
  | alone hform => exact .alone hform
  | behind hform hbase => exact .behind hform (hpart _ _ hbase)

theorem Writes.mono {part part' : NodeId → String → Prop} {kind : NodeKind}
    (hpart : ∀ c s, part c s → part' c s) (h : Writes r part kind text) :
    Writes r part' kind text := by
  have hparts {ids : List NodeId} {texts : List String} (h : List.Forall₂ part ids texts) :
      List.Forall₂ part' ids texts := h.imp hpart
  cases h with
  | assignment htarget hvalue => exact .assignment (hpart _ _ htarget) (hpart _ _ hvalue)
  | simpleName name binding => exact .simpleName name binding
  | qualifiedName hmember => exact .qualifiedName (hmember.mono hpart)
  | fieldAccess hmember => exact .fieldAccess (hmember.mono hpart)
  | methodCall hreceiver harguments =>
    exact .methodCall (hpart _ _ hreceiver) (hparts harguments)
  | implicitCall harguments => exact .implicitCall (hparts harguments)
  | functionCall harguments => exact .functionCall (hparts harguments)
  | unary hoperand hkind => exact .unary (hpart _ _ hoperand) hkind
  | step hoperand hkind => exact .step (hpart _ _ hoperand) hkind
  | binary hleft hleftKind hright hrightKind =>
    exact .binary (hpart _ _ hleft) hleftKind (hpart _ _ hright) hrightKind
  | literal value => exact .literal value
  | parenthesized hinner => exact .parenthesized (hpart _ _ hinner)
  | thisObject => exact .thisObject

/-! ## One level -/

section Steps

variable {ε α β : Type}

theorem bind_eq_ok_iff {x : Except ε α} {next : α → Except ε β} {b : β} :
    x >>= next = .ok b ↔ ∃ a, x = .ok a ∧ next a = .ok b := by
  cases x with
  | ok a => exact ⟨fun h => ⟨a, rfl, h⟩, fun ⟨_, ha, h⟩ => Except.ok.inj ha ▸ h⟩
  | error e => exact ⟨nofun, fun ⟨_, ha, _⟩ => nomatch ha⟩

theorem map_eq_ok_iff {x : Except ε α} {f : α → β} {b : β} :
    f <$> x = .ok b ↔ ∃ a, x = .ok a ∧ f a = b := by
  cases x with
  | ok a => exact ⟨fun h => ⟨a, rfl, Except.ok.inj h⟩, fun ⟨_, ha, h⟩ => Except.ok.inj ha ▸ h ▸ rfl⟩
  | error e => exact ⟨nofun, fun ⟨_, ha, _⟩ => nomatch ha⟩

theorem pure_eq_ok_iff {a b : α} : (pure a : Except ε α) = .ok b ↔ a = b :=
  ⟨Except.ok.inj, congrArg Except.ok⟩

theorem mapM_eq_ok_iff {f : α → Except ε β} {l : List α} {bs : List β} :
    l.mapM f = .ok bs ↔ List.Forall₂ (f · = .ok ·) l bs := by
  induction l generalizing bs with
  | nil =>
    rw [List.mapM_nil, pure_eq_ok_iff, List.forall₂_nil_left_iff, eq_comm]
  | cons a l ih =>
    rw [List.mapM_cons, List.forall₂_cons_left_iff]
    simp only [bind_eq_ok_iff, pure_eq_ok_iff, ih]
    constructor
    · rintro ⟨b, hb, bs, hbs, rfl⟩
      exact ⟨b, bs, hb, hbs, rfl⟩
    · rintro ⟨b, bs, hb, hbs, rfl⟩
      exact ⟨b, hb, bs, hbs, rfl⟩

end Steps

theorem node_eq_ok_iff {t : Tree} {node : Node} : t.node id = .ok node ↔ t.node? id = some node := by
  unfold Tree.node
  cases t.node? id with
  | none => exact ⟨nofun, nofun⟩
  | some found => exact ⟨fun h => Except.ok.inj h ▸ rfl, fun h => Option.some.inj h ▸ rfl⟩

theorem kind?_eq_some_iff {t : Tree} {kind : NodeKind} :
    t.kind? id = some kind ↔ ∃ node, t.node? id = some node ∧ node.kind = kind := by
  rw [Tree.kind?, Option.map_eq_some_iff]

theorem member_eq_ok_iff {base : NodeId} {name : NodeId} {separator : String}
    {render : NodeId → Except TreeError String} :
    r.member (fun _ => render base) name separator = .ok text ↔
      WritesMember r (fun c s => render c = .ok s) base name separator text := by
  have hform : r.member (fun _ => render base) name separator = .ok text ↔
      r.memberForm? name separator = some (.alone text) ∨ ∃ joint baseText,
        r.memberForm? name separator = some (.behind joint) ∧ render base = .ok baseText ∧
          baseText ++ joint = text := by
    unfold member memberForm?
    rw [bind_eq_ok_iff]
    simp only [node_eq_ok_iff]
    rw [Tree.kind?]
    cases r.tree.node? name with
    | none => simp
    | some node =>
      simp only [Option.some.injEq, exists_eq_left', Option.map_some]
      split
      · split
        · split
          · simp_all [pure_eq_ok_iff]
          · simp_all [map_eq_ok_iff, String.append_assoc]
        · simp_all [map_eq_ok_iff, String.append_assoc]
      · simp_all [pure_eq_ok_iff]
      · simp_all [map_eq_ok_iff, String.append_assoc]
      · simp_all
  rw [hform]
  constructor
  · rintro (h | ⟨joint, baseText, h, hbase, rfl⟩)
    · exact .alone h
    · exact .behind h hbase
  · rintro (h | ⟨h, hbase⟩)
    · exact .inl h
    · exact .inr ⟨_, _, h, hbase, rfl⟩

/-- An expression is rendered by the rule for its kind, with its parts one level down. -/
theorem expressionFrom_succ_eq_ok_iff {depth : Nat} :
    r.expressionFrom (depth + 1) id = .ok text ↔ ∃ node inner, r.tree.node? id = some node ∧
      Writes r (fun c s => r.expressionFrom depth c = .ok s) node.kind inner ∧
        text = guarded node inner := by
  rw [expressionFrom]
  simp only [bind_eq_ok_iff, node_eq_ok_iff]
  constructor
  · rintro ⟨⟨kind, parent, span, nilCheck⟩, hnode, h⟩
    suffices hwrites : ∃ inner, Writes r (fun c s => r.expressionFrom depth c = .ok s) kind inner ∧
        text = guarded ⟨kind, parent, span, nilCheck⟩ inner from
      hwrites.elim fun inner h => ⟨_, inner, hnode, h⟩
    cases kind with
    | assignment op target value =>
      simp only [bind_eq_ok_iff, pure_eq_ok_iff] at h
      obtain ⟨targetText, htarget, valueText, hvalue, _, rfl, rfl⟩ := h
      exact ⟨_, .assignment htarget hvalue, rfl⟩
    | simpleName name binding =>
      simp only [bind_eq_ok_iff, pure_eq_ok_iff] at h
      obtain ⟨_, rfl, rfl⟩ := h
      exact ⟨_, .simpleName name binding, rfl⟩
    | qualifiedName qualifier name =>
      simp only [bind_eq_ok_iff, pure_eq_ok_iff, member_eq_ok_iff] at h
      obtain ⟨_, hmember, rfl⟩ := h
      exact ⟨_, .qualifiedName hmember, rfl⟩
    | fieldAccess base name =>
      simp only [bind_eq_ok_iff, pure_eq_ok_iff, member_eq_ok_iff] at h
      obtain ⟨_, hmember, rfl⟩ := h
      exact ⟨_, .fieldAccess hmember, rfl⟩
    | methodCall method receiver arguments =>
      cases receiver with
      | some receiver =>
        simp only [bind_eq_ok_iff, pure_eq_ok_iff, mapM_eq_ok_iff] at h
        obtain ⟨receiverText, hreceiver, texts, harguments, _, rfl, rfl⟩ := h
        exact ⟨_, .methodCall hreceiver harguments, rfl⟩
      | none =>
        simp only [bind_eq_ok_iff, pure_eq_ok_iff, mapM_eq_ok_iff] at h
        obtain ⟨_, rfl, texts, harguments, _, rfl, rfl⟩ := h
        exact ⟨_, .implicitCall harguments, rfl⟩
    | functionCall function arguments =>
      simp only [bind_eq_ok_iff, pure_eq_ok_iff, mapM_eq_ok_iff] at h
      obtain ⟨texts, harguments, _, rfl, rfl⟩ := h
      exact ⟨_, .functionCall harguments, rfl⟩
    | unary op operand =>
      simp only [bind_eq_ok_iff, pure_eq_ok_iff, node_eq_ok_iff] at h
      obtain ⟨operandText, hoperand, child, hchild, _, rfl, rfl⟩ := h
      exact ⟨_, .unary hoperand (kind?_eq_some_iff.2 ⟨child, hchild, rfl⟩), rfl⟩
    | step op operand =>
      simp only [bind_eq_ok_iff, pure_eq_ok_iff, node_eq_ok_iff] at h
      obtain ⟨operandText, hoperand, child, hchild, _, rfl, rfl⟩ := h
      exact ⟨_, .step hoperand (kind?_eq_some_iff.2 ⟨child, hchild, rfl⟩), rfl⟩
    | binary op left right =>
      simp only [bind_eq_ok_iff, pure_eq_ok_iff, node_eq_ok_iff] at h
      obtain ⟨leftText, hleft, leftNode, hleftNode, rightText, hright, rightNode, hrightNode, _, rfl,
        rfl⟩ := h
      exact ⟨_, .binary hleft (kind?_eq_some_iff.2 ⟨leftNode, hleftNode, rfl⟩) hright
        (kind?_eq_some_iff.2 ⟨rightNode, hrightNode, rfl⟩), rfl⟩
    | literal value =>
      simp only [bind_eq_ok_iff, pure_eq_ok_iff] at h
      obtain ⟨_, rfl, rfl⟩ := h
      exact ⟨_, .literal value, rfl⟩
    | parenthesized inner =>
      simp only [bind_eq_ok_iff, pure_eq_ok_iff] at h
      obtain ⟨innerText, hinner, _, rfl, rfl⟩ := h
      exact ⟨_, .parenthesized hinner, rfl⟩
    | thisObject =>
      simp only [bind_eq_ok_iff, pure_eq_ok_iff] at h
      obtain ⟨_, rfl, rfl⟩ := h
      exact ⟨_, .thisObject, rfl⟩
    | _ => cases h
  · rintro ⟨⟨kind, parent, span, nilCheck⟩, inner, hnode, hwrites, rfl⟩
    refine ⟨_, hnode, ?_⟩
    have node_of_kind {c : NodeId} {kind : NodeKind} (h : r.tree.kind? c = some kind) :
        ∃ child, r.tree.node? c = some child ∧ child.kind = kind := kind?_eq_some_iff.1 h
    cases hwrites with
    | assignment htarget hvalue =>
      simp only [bind_eq_ok_iff, pure_eq_ok_iff]
      exact ⟨_, htarget, _, hvalue, _, rfl, rfl⟩
    | simpleName name binding => rfl
    | qualifiedName hmember =>
      simp only [bind_eq_ok_iff, pure_eq_ok_iff, member_eq_ok_iff]
      exact ⟨_, hmember, rfl⟩
    | fieldAccess hmember =>
      simp only [bind_eq_ok_iff, pure_eq_ok_iff, member_eq_ok_iff]
      exact ⟨_, hmember, rfl⟩
    | methodCall hreceiver harguments =>
      simp only [bind_eq_ok_iff, pure_eq_ok_iff, mapM_eq_ok_iff]
      exact ⟨_, hreceiver, _, harguments, _, rfl, rfl⟩
    | implicitCall harguments =>
      simp only [bind_eq_ok_iff, pure_eq_ok_iff, mapM_eq_ok_iff]
      exact ⟨_, rfl, _, harguments, _, rfl, rfl⟩
    | functionCall harguments =>
      simp only [bind_eq_ok_iff, pure_eq_ok_iff, mapM_eq_ok_iff]
      exact ⟨_, harguments, _, rfl, rfl⟩
    | unary hoperand hkind =>
      obtain ⟨child, hchild, rfl⟩ := node_of_kind hkind
      simp only [bind_eq_ok_iff, pure_eq_ok_iff, node_eq_ok_iff]
      exact ⟨_, hoperand, child, hchild, _, rfl, rfl⟩
    | step hoperand hkind =>
      obtain ⟨child, hchild, rfl⟩ := node_of_kind hkind
      simp only [bind_eq_ok_iff, pure_eq_ok_iff, node_eq_ok_iff]
      exact ⟨_, hoperand, child, hchild, _, rfl, rfl⟩
    | binary hleft hleftKind hright hrightKind =>
      obtain ⟨leftNode, hleftNode, rfl⟩ := node_of_kind hleftKind
      obtain ⟨rightNode, hrightNode, rfl⟩ := node_of_kind hrightKind
      simp only [bind_eq_ok_iff, pure_eq_ok_iff, node_eq_ok_iff]
      exact ⟨_, hleft, leftNode, hleftNode, _, hright, rightNode, hrightNode, _, rfl, rfl⟩
    | literal value => rfl
    | parenthesized hinner =>
      simp only [bind_eq_ok_iff, pure_eq_ok_iff]
      exact ⟨_, hinner, _, rfl, rfl⟩
    | thisObject => rfl

/-! ## Deep enough -/

theorem expressionFrom_mono {depth more : Nat} (hle : depth ≤ more)
    (h : r.expressionFrom depth id = .ok text) : r.expressionFrom more id = .ok text := by
  induction depth generalizing id text more with
  | zero => cases h
  | succ depth ih =>
    cases more with
    | zero => exact absurd hle (Nat.not_succ_le_zero depth)
    | succ more =>
      obtain ⟨node, inner, hnode, hwrites, rfl⟩ := expressionFrom_succ_eq_ok_iff.1 h
      have hparts := hwrites.mono fun c s hc => ih (Nat.le_of_succ_le_succ hle) hc
      exact expressionFrom_succ_eq_ok_iff.2 ⟨node, inner, hnode, hparts, rfl⟩

/-- The least depth in which the expression is rendered. -/
def RenderedAt (r : Renderer) (depth : Nat) (id : NodeId) : Prop :=
  (∃ text, r.expressionFrom (depth + 1) id = .ok text) ∧
    ∀ text, r.expressionFrom depth id ≠ .ok text

theorem RenderedAt.lt_size {depth : Nat} (h : r.RenderedAt depth id) : id < r.tree.size := by
  obtain ⟨⟨text, htext⟩, -⟩ := h
  obtain ⟨node, inner, hnode, -⟩ := expressionFrom_succ_eq_ok_iff.1 htext
  exact (Array.getElem?_eq_some_iff.1 hnode).1

theorem RenderedAt.unique {depth depth' : Nat} (h : r.RenderedAt depth id)
    (h' : r.RenderedAt depth' id) : depth = depth' := by
  have hle {m n : Nat} (hm : r.RenderedAt m id) (hn : r.RenderedAt n id) : n ≤ m := by
    obtain ⟨text, htext⟩ := hm.1
    exact Nat.le_of_not_lt fun hlt => hn.2 text (expressionFrom_mono hlt htext)
  exact Nat.le_antisymm (hle h' h) (hle h h')

/-- Below an expression that needs one level more there is one that needs this level. -/
theorem RenderedAt.pred {depth : Nat} (h : r.RenderedAt (depth + 1) id) :
    ∃ c, r.RenderedAt depth c := by
  by_contra hnone
  obtain ⟨⟨text, htext⟩, hnot⟩ := h
  obtain ⟨node, inner, hnode, hwrites, rfl⟩ := expressionFrom_succ_eq_ok_iff.1 htext
  refine hnot _ (expressionFrom_succ_eq_ok_iff.2 ⟨node, inner, hnode, ?_, rfl⟩)
  refine hwrites.mono fun c s hc => ?_
  by_contra hdepth
  refine hnone ⟨c, ⟨s, hc⟩, fun s' hs' => hdepth ?_⟩
  rw [← Except.ok.inj ((expressionFrom_mono (Nat.le_succ depth) hs').symm.trans hc)]
  exact hs'

theorem RenderedAt.exists_of_le {depth : Nat} (h : r.RenderedAt depth id) :
    ∀ level ≤ depth, ∃ c, r.RenderedAt level c := by
  induction depth generalizing id with
  | zero => exact fun level hlevel => ⟨id, Nat.le_zero.1 hlevel ▸ h⟩
  | succ depth ih =>
    intro level hlevel
    rcases Nat.lt_or_eq_of_le hlevel with hlt | rfl
    · obtain ⟨c, hc⟩ := h.pred
      exact ih hc level (Nat.le_of_lt_succ hlt)
    · exact ⟨id, h⟩

/-- Every level has a node of its own. -/
theorem RenderedAt.depth_lt_size {depth : Nat} (h : r.RenderedAt depth id) :
    depth < r.tree.size := by
  choose! own hown using h.exists_of_le
  have hlevel {level : Nat} (hl : level ∈ List.range (depth + 1)) : r.RenderedAt level (own level) :=
    hown level (Nat.le_of_lt_succ (List.mem_range.1 hl))
  have hnodup : ((List.range (depth + 1)).map own).Nodup := by
    refine List.Nodup.map_on (fun m hm n hn heq => (hlevel hm).unique ?_) List.nodup_range
    rw [heq]
    exact hlevel hn
  have hlength := Tree.length_le_of_nodup hnodup fun i hi => by
    obtain ⟨level, hl, rfl⟩ := List.mem_map.1 hi
    exact (hlevel hl).lt_size
  rw [List.length_map, List.length_range] at hlength
  exact hlength

theorem exists_renderedAt {depth : Nat} (h : r.expressionFrom depth id = .ok text) :
    ∃ level, r.RenderedAt level id ∧ r.expressionFrom (level + 1) id = .ok text := by
  induction depth with
  | zero => cases h
  | succ depth ih =>
    by_cases hdepth : ∃ s, r.expressionFrom depth id = .ok s
    · obtain ⟨s, hs⟩ := hdepth
      rw [← expressionFrom_mono (Nat.le_succ depth) hs, h] at hs
      exact ih hs
    · exact ⟨depth, ⟨⟨text, h⟩, fun s hs => hdepth ⟨s, hs⟩⟩, h⟩

/-- An expression that is rendered in any depth is rendered. -/
theorem expression_eq_ok_iff_exists :
    r.expression id = .ok text ↔ ∃ depth, r.expressionFrom depth id = .ok text := by
  refine ⟨fun h => ⟨_, h⟩, fun ⟨depth, h⟩ => ?_⟩
  obtain ⟨level, hlevel, htext⟩ := exists_renderedAt h
  exact expressionFrom_mono (Nat.succ_le_succ (Nat.le_of_lt hlevel.depth_lt_size)) htext

/-- An expression is rendered just if its parts are, by the rule for its kind. -/
theorem expression_eq_ok_iff : r.expression id = .ok text ↔ ∃ node inner,
    r.tree.node? id = some node ∧
      Writes r (fun c s => r.expression c = .ok s) node.kind inner ∧ text = guarded node inner := by
  constructor
  · intro h
    obtain ⟨node, inner, hnode, hwrites, rfl⟩ := expressionFrom_succ_eq_ok_iff.1 h
    refine ⟨node, inner, hnode, hwrites.mono fun c s hc => ?_, rfl⟩
    exact expression_eq_ok_iff_exists.2 ⟨_, hc⟩
  · rintro ⟨node, inner, hnode, hwrites, rfl⟩
    -- all parts are rendered in the depth that is enough for each
    exact expression_eq_ok_iff_exists.2 ⟨r.tree.size + 2,
      expressionFrom_succ_eq_ok_iff.2 ⟨node, inner, hnode, hwrites, rfl⟩⟩

/-- What holds of an expression if it holds of its parts holds of all that are rendered. -/
theorem expression_induction {motive : NodeId → String → Prop}
    (step : ∀ id node inner, r.tree.node? id = some node →
      Writes r (fun c s => r.expression c = .ok s ∧ motive c s) node.kind inner →
        motive id (guarded node inner))
    (h : r.expression id = .ok text) : motive id text := by
  have hdepth {depth : Nat} {id : NodeId} {text : String}
      (h : r.expressionFrom depth id = .ok text) : motive id text := by
    induction depth generalizing id text with
    | zero => cases h
    | succ depth ih =>
      obtain ⟨node, inner, hnode, hwrites, rfl⟩ := expressionFrom_succ_eq_ok_iff.1 h
      refine step id node inner hnode (hwrites.mono fun c s hc => ⟨?_, ih hc⟩)
      exact expression_eq_ok_iff_exists.2 ⟨depth, hc⟩
  exact hdepth h

theorem guarded_of_plain {node : Node} (hcheck : node.nilCheck = false) : guarded node text = text := by
  rw [guarded, hcheck, if_neg Bool.false_ne_true]

theorem expression_plain_iff {kind : NodeKind} (hplain : r.tree.IsPlain id kind) :
    r.expression id = .ok text ↔ Writes r (fun c s => r.expression c = .ok s) kind text := by
  obtain ⟨node, hnode, rfl, hcheck⟩ := hplain
  rw [expression_eq_ok_iff]
  constructor
  · rintro ⟨node', inner, hnode', hwrites, rfl⟩
    obtain rfl := Option.some.inj (hnode.symm.trans hnode')
    rwa [guarded_of_plain hcheck]
  · intro hwrites
    exact ⟨node, text, hnode, hwrites, (guarded_of_plain hcheck).symm⟩

theorem toList_enclose (text : String) : (enclose text).toList = '(' :: (text.toList ++ [')']) := by
  simp [enclose, String.toList_append]

end Renderer

end ObjectLowering
