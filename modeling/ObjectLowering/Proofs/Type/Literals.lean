import ObjectLowering.Proofs.Type.Emitted
import ObjectLowering.Proofs.WellFormed

/-!
# ObjectLowering.Proofs.Type.Literals

Which strings are looked up when a type is generated: those of the literals below its declaration.

* `Renderer.Agrees`: two ways to name the slots of strings say the same of the literals below a node.
* `Renderer.expressionFrom_withSlots`, `Renderer.statementFrom_withSlots`: they then lead to the same
  text.
* `TypeDeclaration.Within`: what a declaration holds of the tree lies below its node.
* `TypeDeclaration.implementation_withSlots`: the implementation of a type depends on the slots of
  the literals below its declaration only.
-/

namespace ObjectLowering

open TypeDeclaration (bind_eq_ok)

theorem mapM_congr {ε α β : Type} {f g : α → Except ε β} {l : List α}
    (h : ∀ a ∈ l, f a = g a) : l.mapM f = l.mapM g := by
  induction l with
  | nil => rfl
  | cons a l ih =>
    rw [List.mapM_cons, List.mapM_cons, h a List.mem_cons_self,
      ih fun b hb => h b (List.mem_cons_of_mem _ hb)]

namespace Renderer

variable {r : Renderer} {slots : String → Option String} {id c : NodeId}

/-- The renderer with other names for the slots of strings. -/
def withSlots (r : Renderer) (slots : String → Option String) : Renderer :=
  { r with slot? := slots }

/-- The names are those that the renderer has for the strings below a node. -/
def Agrees (r : Renderer) (slots : String → Option String) (id : NodeId) : Prop :=
  ∀ n text, r.tree.Below id n → r.tree.kind? n = some (.literal (.string text)) →
    slots text = r.slot? text

theorem Agrees.child (h : r.Agrees slots id) (hc : c ∈ r.tree.children id) : r.Agrees slots c :=
  fun n text hb => h n text ((Tree.Below.top.child hc).trans hb)

theorem literal_withSlots (h : r.Agrees slots id) {value : Literal}
    (hk : r.tree.kind? id = some (.literal value)) :
    (r.withSlots slots).literal value = r.literal value := by
  cases value with
  | string text =>
    have hslot : (r.withSlots slots).slot? text = r.slot? text := h id text .top hk
    simp only [literal, hslot]
  | _ => rfl

theorem expressionFrom_withSlots (h : r.Agrees slots id) (depth : Nat) :
    (r.withSlots slots).expressionFrom depth id = r.expressionFrom depth id := by
  induction depth generalizing id with
  | zero => rfl
  | succ depth ih =>
    unfold expressionFrom
    have htree : (r.withSlots slots).tree = r.tree := rfl
    rw [htree]
    cases hn : r.tree.node id with
    | error e => rfl
    | ok node =>
      have hrender : ∀ c ∈ node.kind.children,
          (r.withSlots slots).expressionFrom depth c = r.expressionFrom depth c :=
        fun c hc => ih (h.child (Tree.children_of_node hn ▸ hc))
      have hmember : ∀ (base name : NodeId) (separator : String), base ∈ node.kind.children →
          (r.withSlots slots).member (fun _ => (r.withSlots slots).expressionFrom depth base) name
            separator = r.member (fun _ => r.expressionFrom depth base) name separator := by
        intro base name separator hbase
        rw [hrender base hbase]
        rfl
      simp only [bind, Except.bind]
      cases hk : node.kind with
      | assignment op target value =>
        simp only [hrender target (by simp [hk, NodeKind.children]),
          hrender value (by simp [hk, NodeKind.children])]
      | qualifiedName qualifier name =>
        simp only [hmember qualifier name "." (by simp [hk, NodeKind.children])]
      | fieldAccess base name =>
        simp only [hmember base name "->" (by simp [hk, NodeKind.children])]
      | methodCall method receiver arguments =>
        have harguments : arguments.mapM ((r.withSlots slots).expressionFrom depth) =
            arguments.mapM (r.expressionFrom depth) :=
          mapM_congr fun c hc => hrender c (by simp [hk, NodeKind.children, hc])
        cases receiver with
        | none =>
          simp only [harguments]
          rfl
        | some receiver => simp only [harguments, hrender receiver (by simp [hk, NodeKind.children])]
      | functionCall function arguments =>
        have harguments : arguments.mapM ((r.withSlots slots).expressionFrom depth) =
            arguments.mapM (r.expressionFrom depth) :=
          mapM_congr fun c hc => hrender c (by simp [hk, NodeKind.children, hc])
        simp only [harguments]
      | unary op operand => simp only [hrender operand (by simp [hk, NodeKind.children])]
      | step op operand => simp only [hrender operand (by simp [hk, NodeKind.children])]
      | binary op left right =>
        simp only [hrender left (by simp [hk, NodeKind.children]),
          hrender right (by simp [hk, NodeKind.children])]
      | literal value =>
        simp only [literal_withSlots h (hk ▸ Tree.kind?_of_node hn)]
      | parenthesized inner => simp only [hrender inner (by simp [hk, NodeKind.children])]
      | _ => rfl

theorem expression_withSlots (h : r.Agrees slots id) :
    (r.withSlots slots).expression id = r.expression id :=
  expressionFrom_withSlots h _

theorem branch_withSlots {render render' : NodeId → Except TreeError String}
    (hid : render id = render' id) (hchildren : ∀ c ∈ r.tree.children id, render c = render' c) :
    (r.withSlots slots).branch render id = r.branch render' id := by
  unfold branch
  have htree : (r.withSlots slots).tree = r.tree := rfl
  rw [htree]
  cases hn : r.tree.node id with
  | error e => rfl
  | ok node =>
    simp only [bind, Except.bind]
    cases hk : node.kind with
    | block statements =>
      have hstatements : statements.mapM render = statements.mapM render' := by
        refine mapM_congr fun c hc => hchildren c ?_
        rw [Tree.children_of_node hn, hk]
        exact hc
      simp only [hstatements]
    | _ => exact hid

theorem localVariable_withSlots {var : VarId} {initial : Option NodeId}
    (h : ∀ c ∈ initial, r.Agrees slots c) :
    (r.withSlots slots).localVariable id var initial = r.localVariable id var initial := by
  cases initial with
  | none => rfl
  | some initial =>
    unfold localVariable
    simp only [expression_withSlots (h initial rfl)]
    rfl

theorem statementFrom_withSlots (h : r.Agrees slots id) (depth indent : Nat) :
    (r.withSlots slots).statementFrom depth id indent = r.statementFrom depth id indent := by
  induction depth generalizing id indent with
  | zero => rfl
  | succ depth ih =>
    unfold statementFrom
    have htree : (r.withSlots slots).tree = r.tree := rfl
    rw [htree]
    cases hn : r.tree.node id with
    | error e => simp only [bind, Except.bind]
    | ok node =>
      have hagrees : ∀ c ∈ node.kind.children, r.Agrees slots c := fun c hc =>
        h.child (Tree.children_of_node hn ▸ hc)
      have hbranch : ∀ c ∈ node.kind.children, ∀ indent,
          (r.withSlots slots).branch (fun c => (r.withSlots slots).statementFrom depth c indent) c =
            r.branch (fun c => r.statementFrom depth c indent) c := fun c hc indent =>
        branch_withSlots (ih (hagrees c hc) indent) fun _ hd =>
          ih ((hagrees c hc).child hd) indent
      have hunexpected : (.error ((r.withSlots slots).unexpected id "statement") :
          Except TreeError String) = .error (r.unexpected id "statement") := rfl
      simp only [bind, Except.bind]
      cases hk : node.kind with
      | block statements =>
        have hstatements : statements.mapM
              (fun c => (r.withSlots slots).statementFrom depth c (indent + 1)) =
            statements.mapM fun c => r.statementFrom depth c (indent + 1) :=
          mapM_congr fun c hc => ih (hagrees c (by simp [hk, NodeKind.children, hc])) _
        simp only [hstatements]
      | expressionStatement expression =>
        simp only [expression_withSlots (hagrees expression (by simp [hk, NodeKind.children]))]
      | localVariable var initial =>
        have hinitial : ∀ c ∈ initial, r.Agrees slots c := fun c hc =>
          hagrees c (by simpa [hk, NodeKind.children] using hc)
        simp only [localVariable_withSlots hinitial]
      | returnStatement value =>
        cases value with
        | none => simp only []
        | some value =>
          simp only [expression_withSlots (hagrees value (by simp [hk, NodeKind.children]))]
      | ifStatement condition thenBranch elseBranch =>
        have hcondition := expression_withSlots
          (hagrees condition (by simp [hk, NodeKind.children]))
        have hthen := hbranch thenBranch (by simp [hk, NodeKind.children]) (indent + 1)
        cases elseBranch with
        | none => simp only [hcondition, hthen]
        | some elseBranch =>
          have helse := hbranch elseBranch (by simp [hk, NodeKind.children]) (indent + 1)
          simp only [hcondition, hthen, helse]
      | switchStatement subject statements =>
        have hsubject := expression_withSlots (hagrees subject (by simp [hk, NodeKind.children]))
        have hstatement : ∀ c ∈ statements, ∀ indent,
            (r.withSlots slots).statementFrom depth c indent = r.statementFrom depth c indent :=
          fun c hc => ih (hagrees c (by simp [hk, NodeKind.children, hc]))
        simp only [hsubject]
        cases r.expression subject with
        | error e => rfl
        | ok text =>
          simp only []
          rw [mapM_congr (l := statements)]
          intro c hc
          simp only [hstatement c hc]
      | switchCase label =>
        cases label with
        | none => simp only []
        | some label =>
          simp only [expression_withSlots (hagrees label (by simp [hk, NodeKind.children]))]
      | breakStatement => simp only []
      | _ => exact hunexpected

theorem statement_withSlots (h : r.Agrees slots id) (indent : Nat) :
    (r.withSlots slots).statement id indent = r.statement id indent :=
  statementFrom_withSlots h _ _

end Renderer

/-- The context with other names for the slots of strings. -/
def ImplementationContext.withSlots (c : ImplementationContext) (slots : String → Option String) :
    ImplementationContext :=
  { c with renderer := c.renderer.withSlots slots }

namespace TypeDeclaration

/-! ## What a declaration holds of the tree -/

/-- The first values of fields and the bodies of methods lie below the node. -/
structure Within (d : TypeDeclaration) (t : Tree) (id : NodeId) : Prop where
  initials : ∀ f ∈ d.fields, ∀ e ∈ f.initial, t.Below id e
  bodies : ∀ m ∈ d.methods, ∀ e ∈ m.body, t.Below id e

section Within

variable {env : Environment} {t : Tree} {id : NodeId} {d d' : TypeDeclaration}

theorem addMember_within {member : NodeId} {node : Node} (hn : t.node member = .ok node)
    (hm : t.Below id member) (hd : d.Within t id) (h : addMember env d node = .ok d') :
    d'.Within t id := by
  have hchild : ∀ c ∈ node.kind.children, t.Below id c := fun c hc =>
    hm.child (Tree.children_of_node hn ▸ hc)
  rcases addMember_cases h with ⟨x, initial, v, hk, -, rfl⟩ | ⟨m, parameters, body, vs, hk, -, rfl⟩
  · refine ⟨fun f hf e he => ?_, hd.bodies⟩
    rcases List.mem_append.1 hf with hf | hf
    · exact hd.initials f hf e he
    · rw [List.mem_singleton.1 hf] at he
      exact hchild e (by simpa [hk, NodeKind.children] using he)
  · refine ⟨hd.initials, fun m hmem e he => ?_⟩
    rcases List.mem_append.1 hmem with hmem | hmem
    · exact hd.bodies m hmem e he
    · rw [List.mem_singleton.1 hmem] at he
      exact hchild e (by simpa [hk, NodeKind.children] using he)

theorem addMembers_within {members : List NodeId} (hm : ∀ m ∈ members, t.Below id m)
    (hd : d.Within t id) (h : addMembers env t members d = .ok d') : d'.Within t id := by
  induction members generalizing d with
  | nil =>
    cases h
    exact hd
  | cons first members ih =>
    obtain ⟨node, d₁, hn, h₁, h⟩ := addMembers_cons_eq_ok h
    obtain ⟨hfirst, hrest⟩ := List.forall_mem_cons.1 hm
    exact ih hrest (addMember_within hn hfirst hd h₁) h

theorem within_of_ofTree (h : ofTree env t id = .ok d) : d.Within t id := by
  obtain ⟨hash, members, hk, -, hmembers⟩ := ofTree_eq_ok h
  refine addMembers_within (fun m hm => ?_) ⟨by simp, by simp⟩ hmembers
  refine Tree.Below.top.child ?_
  rw [Tree.children, hk]
  exact hm

end Within

/-! ## Implementations -/

section Implementation

variable {c : ImplementationContext} {slots : String → Option String} {d : TypeDeclaration}

theorem initialStores_withSlots {fields : List FieldMember} (indent : Nat)
    (target : VariableBinding → String)
    (h : ∀ f ∈ fields, ∀ e ∈ f.initial, c.renderer.Agrees slots e) :
    initialStores (c.withSlots slots) indent fields target =
      initialStores c indent fields target := by
  refine mapM_congr fun entry hentry => ?_
  obtain ⟨f, hf, hinitial⟩ := List.mem_filterMap.1 hentry
  obtain ⟨e, he, rfl⟩ := Option.map_eq_some_iff.1 hinitial
  have hexpression : (c.withSlots slots).renderer.expression e = c.renderer.expression e :=
    Renderer.expression_withSlots (h f hf e he)
  simp only [hexpression]
  rfl

theorem instanceInitializer_withSlots
    (h : ∀ f ∈ d.fields, ∀ e ∈ f.initial, c.renderer.Agrees slots e) :
    d.instanceInitializer (c.withSlots slots) = d.instanceInitializer c := by
  have hinstance : ∀ f ∈ d.instanceFields, ∀ e ∈ f.initial, c.renderer.Agrees slots e :=
    fun f hf => h f (List.mem_filter.1 hf).1
  unfold instanceInitializer
  rw [initialStores_withSlots _ _ hinstance]

theorem classInitializer_withSlots
    (h : ∀ f ∈ d.fields, ∀ e ∈ f.initial, c.renderer.Agrees slots e) :
    d.classInitializer (c.withSlots slots) = d.classInitializer c := by
  have hstored : ∀ f ∈ d.storedFields, ∀ e ∈ f.initial, c.renderer.Agrees slots e :=
    fun f hf => h f (List.mem_filter.1 (List.mem_filter.1 hf).1).1
  unfold classInitializer
  rw [initialStores_withSlots _ _ hstored]

theorem methodImplementation_withSlots {m : MethodMember}
    (h : ∀ e ∈ m.body, c.renderer.Agrees slots e) :
    methodImplementation (c.withSlots slots) m = methodImplementation c m := by
  unfold methodImplementation
  cases hbody : m.body with
  | none => simp only []
  | some body =>
    have hstatement : (c.withSlots slots).renderer.statement body 0 =
        c.renderer.statement body 0 := Renderer.statement_withSlots (h body hbody) 0
    simp only [hstatement]
    rfl

/-- The text of an implementation depends on the slots of the literals below the declaration only. -/
theorem implementation_withSlots {id : NodeId} (hd : d.Within c.renderer.tree id)
    (h : c.renderer.Agrees slots id) :
    d.implementation (c.withSlots slots) = d.implementation c := by
  have hbelow {e : NodeId} (he : c.renderer.tree.Below id e) : c.renderer.Agrees slots e :=
    fun n text hn => h n text (he.trans hn)
  have hfields : ∀ f ∈ d.fields, ∀ e ∈ f.initial, c.renderer.Agrees slots e :=
    fun f hf e he => hbelow (hd.initials f hf e he)
  have hmethods : d.methods.mapM (methodImplementation (c.withSlots slots)) =
      d.methods.mapM (methodImplementation c) :=
    mapM_congr fun m hm => methodImplementation_withSlots fun e he => hbelow (hd.bodies m hm e he)
  have hsection : d.methodSection (c.withSlots slots) = d.methodSection c := by
    unfold methodSection
    rw [instanceInitializer_withSlots hfields, hmethods]
  have hstatic : d.staticSection (c.withSlots slots) = d.staticSection c := by
    unfold staticSection
    rw [classInitializer_withSlots hfields]
    rfl
  unfold implementation
  rw [hsection, hstatic]
  rfl

end Implementation

end TypeDeclaration

end ObjectLowering
