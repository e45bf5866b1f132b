import ObjectLowering.Tree.Node

/-!
# ObjectLowering.Proofs.Slots

The slots of a node, apart from what else its kind says.

* `NodeKind.form`: a kind with its slots blanked. What remains is everything but the children: which
  optional slots are filled, how long the lists are, operators, names and references.
* `replaceChild?_of_mem`, `replaceChild?_of_not_mem`: replacing a child changes the first slot that
  holds it, and the form not at all; what is no child cannot be replaced.
* `context`: the type in whose code the children of a node stand.
-/

namespace ObjectLowering.NodeKind

/-- The kind with zero in every slot. -/
def form : NodeKind → NodeKind
  | compilationUnit source types native => compilationUnit source (types.map fun _ => 0) native
  | typeDecl type members => typeDecl type (members.map fun _ => 0)
  | fieldDecl field initial => fieldDecl field (initial.map fun _ => 0)
  | methodDecl method parameters body => methodDecl method parameters (body.map fun _ => 0)
  | block statements => block (statements.map fun _ => 0)
  | expressionStatement _ => expressionStatement 0
  | localVariable var initial => localVariable var (initial.map fun _ => 0)
  | returnStatement value => returnStatement (value.map fun _ => 0)
  | ifStatement _ _ elseBranch => ifStatement 0 0 (elseBranch.map fun _ => 0)
  | switchStatement _ statements => switchStatement 0 (statements.map fun _ => 0)
  | switchCase label => switchCase (label.map fun _ => 0)
  | breakStatement => breakStatement
  | assignment op _ _ => assignment op 0 0
  | simpleName name binding => simpleName name binding
  | qualifiedName _ _ => qualifiedName 0 0
  | fieldAccess _ _ => fieldAccess 0 0
  | methodCall method receiver arguments =>
    methodCall method (receiver.map fun _ => 0) (arguments.map fun _ => 0)
  | functionCall function arguments => functionCall function (arguments.map fun _ => 0)
  | unary op _ => unary op 0
  | step op _ => step op 0
  | binary op _ _ => binary op 0 0
  | literal value => literal value
  | parenthesized _ => parenthesized 0
  | thisObject => thisObject

/-- A name, which may qualify another. -/
def isName : NodeKind → Bool
  | simpleName .. | qualifiedName .. => true
  | _ => false

def isSimpleName : NodeKind → Bool
  | simpleName .. => true
  | _ => false

def isQualifiedName : NodeKind → Bool
  | qualifiedName .. => true
  | _ => false

def isCaseLabel : NodeKind → Bool
  | switchCase _ => true
  | _ => false

def isUnit : NodeKind → Bool
  | compilationUnit .. => true
  | _ => false

/-- A step operator, which changes its operand. -/
def isStep : NodeKind → Bool
  | step .. => true
  | unary op _ => op.isStep
  | _ => false

/-- A name or member, which may stand for a variable. -/
def isAccess : NodeKind → Bool
  | simpleName .. | qualifiedName .. | fieldAccess .. => true
  | _ => false

/-- A member of something that stands before it. -/
def isMember : NodeKind → Bool
  | qualifiedName .. | fieldAccess .. => true
  | _ => false

def isAssignment : NodeKind → Bool
  | assignment .. => true
  | _ => false

def isBlock : NodeKind → Bool
  | block _ => true
  | _ => false

/-- The type in whose code the children of a node stand, where `outer` is that of the node. -/
def context (outer : Option TypeHash) : NodeKind → Option TypeHash
  | typeDecl type _ => type
  | _ => outer

@[simp] theorem isName_form (k : NodeKind) : k.form.isName = k.isName := by
  cases k <;> rfl

@[simp] theorem isSimpleName_form (k : NodeKind) : k.form.isSimpleName = k.isSimpleName := by
  cases k <;> rfl

@[simp] theorem isQualifiedName_form (k : NodeKind) :
    k.form.isQualifiedName = k.isQualifiedName := by
  cases k <;> rfl

@[simp] theorem isStep_form (k : NodeKind) : k.form.isStep = k.isStep := by
  cases k <;> rfl

@[simp] theorem isAccess_form (k : NodeKind) : k.form.isAccess = k.isAccess := by
  cases k <;> rfl

@[simp] theorem isAssignment_form (k : NodeKind) : k.form.isAssignment = k.isAssignment := by
  cases k <;> rfl

@[simp] theorem isCaseLabel_form (k : NodeKind) : k.form.isCaseLabel = k.isCaseLabel := by
  cases k <;> rfl

@[simp] theorem context_form (outer : Option TypeHash) (k : NodeKind) :
    k.form.context outer = k.context outer := by
  cases k <;> rfl

theorem isCaseLabel_of_isStep {k : NodeKind} (h : k.isStep = true) : k.isCaseLabel = false := by
  cases k <;> first | rfl | cases h

theorem isAccess_of_isStep {k : NodeKind} (h : k.isStep = true) : k.isAccess = false := by
  cases k <;> first | rfl | cases h

theorem context_of_isStep {k : NodeKind} (h : k.isStep = true) (outer : Option TypeHash) :
    k.context outer = outer := by
  cases k <;> first | rfl | cases h

theorem isQualifiedName_of_not_isAccess {k : NodeKind} (h : k.isAccess = false) :
    k.isQualifiedName = false := by
  cases k <;> first | rfl | cases h

theorem context_of_isAccess {k : NodeKind} (h : k.isAccess = true) (outer : Option TypeHash) :
    k.context outer = outer := by
  cases k <;> first | rfl | cases h

theorem isExpression_of_isStep {k : NodeKind} (h : k.isStep = true) : k.isExpression = true := by
  cases k <;> first | rfl | cases h

theorem isAccess_of_not_isExpression {k : NodeKind} (h : k.isExpression = false) :
    k.isAccess = false := by
  cases k <;> first | rfl | cases h

theorem isAssignment_of_isAccess {k : NodeKind} (h : k.isAccess = true) :
    k.isAssignment = false := by
  cases k <;> first | rfl | cases h

theorem isAccess_of_isCaseLabel {k : NodeKind} (h : k.isCaseLabel = true) : k.isAccess = false := by
  cases k <;> first | rfl | cases h

theorem toList_inj {a b : Option NodeId} : a.toList = b.toList ↔ a = b := by
  cases a <;> cases b <;> simp

/-- A kind is its form and its children. -/
theorem eq_of_form {k k' : NodeKind} (hf : k.form = k'.form) (hc : k.children = k'.children) :
    k = k' := by
  cases k <;> cases k' <;> try (cases hf; done)
  case methodCall.methodCall _ receiver _ _ receiver' _ =>
    -- the form tells whether the first child is the receiver
    cases receiver <;> cases receiver' <;> simp_all [form, children]
  all_goals simp_all [form, children, toList_inj]

/-! ## Replacing a child -/

theorem swapOption?_of_mem {old : NodeId} (new : NodeId) {slot : Option NodeId}
    (h : old ∈ slot.toList) : slot = some old ∧ swapOption? old new slot = some (some new) := by
  have hs : slot = some old := Option.mem_toList.1 h
  exact ⟨hs, by simp [swapOption?, hs]⟩

theorem swapList?_of_mem {old : NodeId} (new : NodeId) {slots : List NodeId} (h : old ∈ slots) :
    swapList? old new slots = some (slots.replace old new) := by
  induction slots with
  | nil => cases h
  | cons slot rest ih =>
    by_cases hs : slot = old
    · subst hs
      simp [swapList?]
    · have hr : old ∈ rest := by
        cases h with
        | head => exact absurd rfl hs
        | tail _ h => exact h
      have hb : (old == slot) = false := beq_false_of_ne (Ne.symm hs)
      simp [swapList?, List.replace_cons, hs, hb, ih hr]

theorem swap?_self (old new : NodeId) : swap? old new old = some new :=
  if_pos rfl

/-- A single slot that is tried before others. -/
theorem map_swap?_or (old new slot : NodeId) (f : NodeId → NodeKind) (rest : Option NodeKind) :
    ((swap? old new slot).map f).or rest = if slot = old then some (f new) else rest := by
  by_cases h : slot = old
  · simp [swap?, h]
  · simp [swap?, h]

theorem map_swapOption?_or (old new : NodeId) (slot : Option NodeId)
    (f : Option NodeId → NodeKind) (rest : Option NodeKind) :
    ((swapOption? old new slot).map f).or rest =
      if slot = some old then some (f (some new)) else rest := by
  by_cases h : slot = some old
  · simp [swapOption?, h]
  · simp [swapOption?, h]

theorem replace_of_ne {old slot : NodeId} (new : NodeId) (rest : List NodeId) (h : slot ≠ old) :
    (slot :: rest).replace old new = slot :: rest.replace old new := by
  have hb : (old == slot) = false := beq_false_of_ne (Ne.symm h)
  simp [List.replace_cons, hb]

/-- A child that a node holds can be replaced, which changes the first slot that holds it. -/
theorem replaceChild?_of_mem {k : NodeKind} {old : NodeId} (new : NodeId) (h : old ∈ k.children) :
    ∃ k', k.replaceChild? old new = some k' ∧ k'.form = k.form
      ∧ k'.children = k.children.replace old new := by
  -- the cases go by the slots of the kind, in the order in which they are tried
  cases k with
  | breakStatement | simpleName | literal | thisObject => cases h
  | compilationUnit | typeDecl | block | functionCall =>
    exact ⟨_, congrArg (Option.map _) (swapList?_of_mem new h),
      by simp [form, children, List.map_const'], rfl⟩
  | fieldDecl | methodDecl | localVariable | returnStatement | switchCase =>
    obtain ⟨rfl, hs⟩ := swapOption?_of_mem new h
    exact ⟨_, congrArg (Option.map _) hs, rfl, by simp [children]⟩
  | expressionStatement | unary | step | parenthesized =>
    cases List.mem_singleton.1 h
    exact ⟨_, congrArg (Option.map _) (swap?_self old new), rfl, by simp [children]⟩
  | assignment _ left right | qualifiedName left right | fieldAccess left right
  | binary _ left right =>
    have hr := map_swap?_or old new left
    by_cases hl : left = old
    · subst hl
      exact ⟨_, (hr _ _).trans (if_pos rfl), rfl, by simp [children]⟩
    · have hm : old = right := by simpa [children, Ne.symm hl] using h
      subst hm
      exact ⟨_, ((hr _ _).trans (if_neg hl)).trans (congrArg (Option.map _) (swap?_self old new)),
        rfl, by simp [children, replace_of_ne new _ hl]⟩
  | switchStatement subject statements =>
    have hr := map_swap?_or old new subject
    by_cases hs : subject = old
    · subst hs
      exact ⟨_, (hr _ _).trans (if_pos rfl), rfl, by simp [children]⟩
    · have hm : old ∈ statements := by simpa [children, Ne.symm hs] using h
      exact ⟨_, ((hr _ _).trans (if_neg hs)).trans (congrArg (Option.map _) (swapList?_of_mem new hm)),
        by simp [form, List.map_const'], by simp [children, replace_of_ne new _ hs]⟩
  | methodCall method receiver arguments =>
    have hr := map_swapOption?_or old new receiver
    by_cases hs : receiver = some old
    · subst hs
      exact ⟨_, (hr _ _).trans (if_pos rfl), rfl, by simp [children]⟩
    · have hn : old ∉ receiver.toList := fun h => hs (Option.mem_toList.1 h)
      have hm : old ∈ arguments := (List.mem_append.1 h).resolve_left hn
      exact ⟨_, ((hr _ _).trans (if_neg hs)).trans (congrArg (Option.map _) (swapList?_of_mem new hm)),
        by simp [form, List.map_const'], by simp [children, List.replace_append_right hn]⟩
  | ifStatement condition thenBranch elseBranch =>
    have hr := map_swap?_or old new
    by_cases hc : condition = old
    · subst hc
      exact ⟨_, (hr _ _ _).trans (if_pos rfl), rfl, by simp [children]⟩
    · by_cases ht : thenBranch = old
      · subst ht
        exact ⟨_, ((hr _ _ _).trans (if_neg hc)).trans ((hr _ _ _).trans (if_pos rfl)), rfl,
          by simp [children, replace_of_ne new _ hc]⟩
      · have hm : old ∈ elseBranch.toList := by
          simpa [children, Ne.symm hc, Ne.symm ht] using h
        obtain ⟨rfl, hs⟩ := swapOption?_of_mem new hm
        exact ⟨_, ((hr _ _ _).trans (if_neg hc)).trans (((hr _ _ _).trans (if_neg ht)).trans
          (congrArg (Option.map _) hs)), rfl,
          by simp [children, replace_of_ne new _ hc, replace_of_ne new _ ht]⟩

/-! ## Nothing to replace -/

theorem swap?_of_ne {old slot : NodeId} (new : NodeId) (h : slot ≠ old) :
    swap? old new slot = none :=
  if_neg h

theorem swapOption?_of_not_mem {old : NodeId} (new : NodeId) {slot : Option NodeId}
    (h : old ∉ slot.toList) : swapOption? old new slot = none :=
  if_neg fun hs => h (Option.mem_toList.2 hs)

theorem swapList?_of_not_mem {old : NodeId} (new : NodeId) {slots : List NodeId}
    (h : old ∉ slots) : swapList? old new slots = none := by
  induction slots with
  | nil => rfl
  | cons slot rest ih =>
    rw [List.mem_cons, not_or] at h
    rw [swapList?, if_neg (Ne.symm h.1), ih h.2]
    rfl

theorem replaceChild?_of_not_mem {k : NodeKind} {old : NodeId} (new : NodeId)
    (h : old ∉ k.children) : k.replaceChild? old new = none := by
  cases k <;>
    simp only [children, List.mem_cons, List.mem_append, not_or, List.not_mem_nil,
      not_false_eq_true, and_true] at h <;>
    simp [replaceChild?, h, swap?_of_ne, swapOption?_of_not_mem, swapList?_of_not_mem, eq_comm]

/-- What a successful replacement does to a kind. -/
theorem replaceChild?_eq_some {k k' : NodeKind} {old new : NodeId}
    (h : k.replaceChild? old new = some k') :
    old ∈ k.children ∧ k'.form = k.form ∧ k'.children = k.children.replace old new := by
  by_cases hm : old ∈ k.children
  · obtain ⟨k'', hk, hf, hc⟩ := replaceChild?_of_mem new hm
    obtain rfl := Option.some.inj (hk.symm.trans h)
    exact ⟨hm, hf, hc⟩
  · rw [replaceChild?_of_not_mem new hm] at h
    cases h

end ObjectLowering.NodeKind
