import ObjectLowering.Proofs.Slots

/-!
# ObjectLowering.Proofs.Term

Program trees as plain recursive values. A term says of each node its form, its position and its
nil check, and holds the terms below it in the order of the slots. Labels tell nodes apart where
that matters: with node numbers as labels a term says where its nodes are stored.

* `labels`: the labels in pre-order.
* `strip`, `denotes?`: the expression inside parentheses; the variable that a name stands for.
* `WellNamed`: members are simple names, and qualifiers are names.
-/

namespace ObjectLowering

/-- What a node says apart from its links. -/
structure Cell where
  /-- The kind with blank slots. -/
  form : NodeKind
  span : Span
  nilCheck : Bool
  deriving DecidableEq, Repr

/-- A qualified name becomes a member access; all else stays. -/
def Cell.expose (cell : Cell) : Cell :=
  if cell.form.isQualifiedName then { cell with form := .fieldAccess 0 0 } else cell

theorem Cell.expose_of_not_isQualifiedName {cell : Cell} (h : cell.form.isQualifiedName = false) :
    cell.expose = cell := by
  rw [expose, h, if_neg Bool.false_ne_true]

theorem Cell.expose_of_isQualifiedName {cell : Cell} (h : cell.form.isQualifiedName = true) :
    cell.expose = { cell with form := .fieldAccess 0 0 } :=
  if_pos h

theorem Cell.context_expose (context : Option TypeHash) (cell : Cell) :
    cell.expose.form.context context = cell.form.context context := by
  cases hq : cell.form.isQualifiedName with
  | false => rw [expose_of_not_isQualifiedName hq]
  | true =>
    rw [expose_of_isQualifiedName hq]
    cases hf : cell.form <;> simp_all [NodeKind.context, NodeKind.isQualifiedName]

inductive Term (α : Type) where
  | node (label : α) (cell : Cell) (children : List (Term α))

namespace Term

variable {α β : Type}

@[elab_as_elim, induction_eliminator]
theorem induct {motive : Term α → Prop}
    (node : ∀ label cell children, (∀ c ∈ children, motive c) →
      motive (.node label cell children)) : ∀ s, motive s
  | .node label cell children => node label cell children fun c _ => induct node c

def label : Term α → α
  | .node label _ _ => label

def cell : Term α → Cell
  | .node _ cell _ => cell

def children : Term α → List (Term α)
  | .node _ _ children => children

@[simp] theorem label_node (l : α) (c : Cell) (cs : List (Term α)) : (node l c cs).label = l := rfl

/-- The labels in pre-order. -/
def labels : Term α → List α
  | .node label _ children => label :: children.flatMap labels

theorem labels_node (l : α) (c : Cell) (cs : List (Term α)) :
    (node l c cs).labels = l :: cs.flatMap labels := by
  rw [labels]

theorem labels_pair (l : α) (c : Cell) (x y : Term α) :
    (node l c [x, y]).labels = l :: (x.labels ++ y.labels) := by
  simp [labels_node]

theorem label_mem_labels (s : Term α) : s.label ∈ s.labels := by
  cases s with
  | node l c cs => simp [labels_node]

theorem labels_subset_of_mem {c s : Term α} (h : c ∈ s.children) : ∀ i ∈ c.labels, i ∈ s.labels := by
  cases s with
  | node l k cs =>
    intro i hi
    rw [labels_node]
    exact List.mem_cons_of_mem _ (List.mem_flatMap.2 ⟨c, h, hi⟩)

/-- The term `r` occurs in a term, which may be `r` itself. -/
inductive Within (r : Term α) : Term α → Prop where
  | refl : Within r r
  | child {label : α} {cell : Cell} {children : List (Term α)} {c : Term α} :
    c ∈ children → Within r c → Within r (.node label cell children)

theorem within_node {r : Term α} {l : α} {cell : Cell} {cs : List (Term α)}
    (h : r.Within (.node l cell cs)) : r = .node l cell cs ∨ ∃ c ∈ cs, r.Within c := by
  cases h with
  | refl => exact .inl rfl
  | child hc hr => exact .inr ⟨_, hc, hr⟩

theorem Within.trans {q r s : Term α} (hqr : q.Within r) (hrs : r.Within s) : q.Within s := by
  induction hrs with
  | refl => exact hqr
  | child hc _ ih => exact .child hc ih

theorem within_of_mem_children {c s : Term α} (h : c ∈ s.children) : c.Within s := by
  cases s with
  | node l cell cs => exact .child h .refl

theorem labels_sublist_of_mem {c : Term α} {cs : List (Term α)} (h : c ∈ cs) :
    c.labels.Sublist (cs.flatMap labels) := by
  rw [List.flatMap_def]
  exact List.sublist_flatten_of_mem (List.mem_map_of_mem h)

theorem map_label_sublist (cs : List (Term α)) : (cs.map label).Sublist (cs.flatMap labels) := by
  induction cs with
  | nil => exact .slnil
  | cons c cs ih =>
    have hc : [c.label].Sublist c.labels := List.singleton_sublist.2 c.label_mem_labels
    exact hc.append ih

theorem Within.labels_sublist {r s : Term α} (h : r.Within s) : r.labels.Sublist s.labels := by
  induction h with
  | refl => exact .refl _
  | child hc _ ih =>
    rw [labels_node]
    exact (ih.trans (labels_sublist_of_mem hc)).cons _

theorem Within.label_mem {r s : Term α} (h : r.Within s) : r.label ∈ s.labels :=
  h.labels_sublist.subset r.label_mem_labels

/-- Without repeated labels a label tells below which child it stands. -/
theorem eq_of_mem_labels {cs : List (Term α)} (hn : (cs.flatMap labels).Nodup) {c d : Term α}
    (hc : c ∈ cs) (hd : d ∈ cs) {i : α} (hic : i ∈ c.labels) (hid : i ∈ d.labels) : c = d := by
  induction cs with
  | nil => cases hc
  | cons e cs ih =>
    rw [List.flatMap_cons, List.nodup_append] at hn
    have hrest {x : Term α} (hx : x ∈ cs) (hi : i ∈ x.labels) : i ∈ cs.flatMap labels :=
      (labels_sublist_of_mem hx).subset hi
    rcases List.mem_cons.1 hc with rfl | hcs
    · rcases List.mem_cons.1 hd with rfl | hds
      · rfl
      · exact absurd rfl (hn.2.2 i hic i (hrest hds hid))
    · rcases List.mem_cons.1 hd with rfl | hds
      · exact absurd rfl (hn.2.2 i hid i (hrest hcs hic))
      · exact ih hn.2.1 hcs hds

/-- A search that goes from a term to one child needs no more steps than there are labels. -/
theorem length_labels_lt (l : α) (k : Cell) {c : Term α} {cs : List (Term α)} (h : c ∈ cs) :
    c.labels.length < (node l k cs).labels.length := by
  have := (labels_sublist_of_mem h).length_le
  rw [labels_node, List.length_cons]
  omega

theorem length_labels_pos (s : Term α) : 0 < s.labels.length :=
  List.length_pos_of_mem s.label_mem_labels

/-- The same term with other labels. -/
def relabel (f : α → β) : Term α → Term β
  | .node label cell children => .node (f label) cell (children.map (relabel f))

theorem relabel_node (f : α → β) (l : α) (c : Cell) (cs : List (Term α)) :
    (node l c cs).relabel f = node (f l) c (cs.map (relabel f)) := by
  rw [relabel]

@[simp] theorem cell_relabel (f : α → β) (s : Term α) : (s.relabel f).cell = s.cell := by
  cases s with
  | node l c cs => rw [relabel_node]; rfl

@[simp] theorem label_relabel (f : α → β) (s : Term α) : (s.relabel f).label = f s.label := by
  cases s with
  | node l c cs => rw [relabel_node]; rfl

theorem children_relabel (f : α → β) (s : Term α) :
    (s.relabel f).children = s.children.map (relabel f) := by
  cases s with
  | node l c cs => rw [relabel_node]; rfl

theorem relabel_relabel {γ : Type} (f : α → β) (g : β → γ) (s : Term α) :
    (s.relabel f).relabel g = s.relabel (g ∘ f) := by
  induction s with
  | node l c cs ih =>
    simp only [relabel_node, List.map_map, Function.comp_apply]
    congr 1
    exact List.map_congr_left ih

theorem Within.relabel {r s : Term α} (h : r.Within s) (f : α → β) :
    (r.relabel f).Within (s.relabel f) := by
  induction h with
  | refl => exact .refl
  | child hc _ ih =>
    rw [relabel_node]
    exact .child (List.mem_map_of_mem hc) ih

theorem exists_within_of_relabel {f : α → β} {r : Term β} {s : Term α}
    (h : r.Within (s.relabel f)) : ∃ q : Term α, q.Within s ∧ q.relabel f = r := by
  induction s with
  | node l cell cs ih =>
    rw [relabel_node] at h
    rcases within_node h with rfl | ⟨d, hd, hr⟩
    · exact ⟨_, .refl, relabel_node ..⟩
    · obtain ⟨c, hc, rfl⟩ := List.mem_map.1 hd
      obtain ⟨q, hq, rfl⟩ := ih c hc hr
      exact ⟨q, .child hc hq, rfl⟩

def form (s : Term α) : NodeKind :=
  s.cell.form

/-- The term is a name, which may qualify another. -/
def isName (s : Term α) : Bool :=
  s.form.isName

def isSimpleName (s : Term α) : Bool :=
  s.form.isSimpleName

@[simp] theorem form_node (l : α) (c : Cell) (cs : List (Term α)) : (node l c cs).form = c.form := rfl

@[simp] theorem form_relabel (f : α → β) (s : Term α) : (s.relabel f).form = s.form := by
  simp [form]

@[simp] theorem isName_relabel (f : α → β) (s : Term α) : (s.relabel f).isName = s.isName := by
  simp [isName]

/-- The expression inside any number of parentheses. -/
def strip : Term α → Term α
  | .node _ ⟨.parenthesized _, _, _⟩ [inner] => inner.strip
  | s => s

theorem strip_parenthesized (l : α) (n : NodeId) (span : Span) (nilCheck : Bool) (inner : Term α) :
    (node l ⟨.parenthesized n, span, nilCheck⟩ [inner]).strip = inner.strip := by
  rw [strip]

theorem strip_of_form_ne {s : Term α} (h : ∀ n, s.form ≠ .parenthesized n) : s.strip = s := by
  cases s with
  | node l cell cs =>
    unfold strip
    split
    · rename_i n _ _ _ e
      cases e
      exact absurd rfl (h n)
    · rfl

theorem strip_within (s : Term α) : s.strip.Within s := by
  fun_induction strip s with
  | case1 l n span nilCheck inner ih => exact .child List.mem_cons_self ih
  | case2 => exact .refl

/-- The variable that a name or member stands for. -/
def denotes? : Term α → Option VarId
  | .node _ ⟨.simpleName _ (some (.ofVariable v)), _, _⟩ _ => some v
  | .node _ ⟨.qualifiedName _ _, _, _⟩ [_, name] => name.denotes?
  | .node _ ⟨.fieldAccess _ _, _, _⟩ [_, name] => name.denotes?
  | _ => none

theorem strip_relabel (f : α → β) (s : Term α) : (s.relabel f).strip = s.strip.relabel f := by
  fun_induction strip s with
  | case1 l n span nilCheck inner ih =>
    rw [relabel_node]
    exact (strip_parenthesized ..).trans ih
  | case2 s hs =>
    cases s with
    | node l cell cs =>
      unfold strip
      split
      · rename_i e
        rw [relabel_node] at e
        injection e with _ hc hm
        obtain ⟨c, rfl, _⟩ := List.map_eq_singleton_iff.1 hm
        exact (hs _ _ _ _ _ (by rw [hc])).elim
      · rfl

theorem denotes?_relabel (f : α → β) (s : Term α) : (s.relabel f).denotes? = s.denotes? := by
  induction s with
  | node l cell cs ih =>
    obtain ⟨form, span, nilCheck⟩ := cell
    rw [relabel_node]
    cases form with
    | qualifiedName | fieldAccess =>
      match cs with
      | [] | [_] | _ :: _ :: _ :: _ => simp [denotes?]
      | [_, name] => simpa [denotes?] using ih name (by simp)
    | simpleName name binding =>
      cases binding with
      | none => simp [denotes?]
      | some b => cases b <;> simp [denotes?]
    | _ => simp [denotes?]

/-- A node of this form with these children keeps to the rules for names: it has a simple name as
member, and if it is a qualified name it has a name as qualifier. -/
def NamesOk (form : NodeKind) (children : List (Term α)) : Prop :=
  match form with
  | .qualifiedName _ _ => ∃ q n, children = [q, n] ∧ q.isName ∧ n.isSimpleName
  | .fieldAccess _ _ => ∃ base n, children = [base, n] ∧ n.isSimpleName
  | _ => True

theorem namesOk_of_isAccess_eq_false {form : NodeKind} {children : List (Term α)}
    (h : form.isAccess = false) : NamesOk form children := by
  cases form <;> trivial

theorem namesOk_of_isQualifiedName {form : NodeKind} {children : List (Term α)}
    (hf : form.isQualifiedName = true) (h : NamesOk form children) :
    ∃ q n, children = [q, n] ∧ q.isName = true ∧ n.isSimpleName = true := by
  cases form <;> first | exact h | cases hf

/-- All names and member accesses keep to the rules for names. -/
inductive WellNamed : Term α → Prop where
  | mk {label : α} {cell : Cell} {children : List (Term α)} :
    NamesOk cell.form children → (∀ c ∈ children, WellNamed c) → WellNamed (.node label cell children)

theorem WellNamed.names {l : α} {c : Cell} {cs : List (Term α)} (h : WellNamed (node l c cs)) :
    NamesOk c.form cs := by
  cases h with
  | mk hn _ => exact hn

theorem WellNamed.child {l : α} {c : Cell} {cs : List (Term α)} (h : WellNamed (node l c cs)) :
    ∀ s ∈ cs, s.WellNamed := by
  cases h with
  | mk _ hc => exact hc

theorem WellNamed.within {r s : Term α} (hs : s.WellNamed) (h : r.Within s) : r.WellNamed := by
  induction h with
  | refl => exact hs
  | child hc _ ih => exact ih (hs.child _ hc)

@[simp] theorem isSimpleName_relabel (f : α → β) (s : Term α) :
    (s.relabel f).isSimpleName = s.isSimpleName := by
  simp [isSimpleName]

theorem namesOk_map_relabel {f : α → β} {form : NodeKind} {cs : List (Term α)} :
    NamesOk form (cs.map (relabel f)) ↔ NamesOk form cs := by
  cases form with
  | qualifiedName | fieldAccess =>
    match cs with
    | [] | [_] | [_, _] | _ :: _ :: _ :: _ => simp [NamesOk, and_assoc]
  | _ => rfl

theorem wellNamed_relabel {f : α → β} {s : Term α} : (s.relabel f).WellNamed ↔ s.WellNamed := by
  induction s with
  | node l cell cs ih =>
    rw [relabel_node]
    refine ⟨fun h => .mk (namesOk_map_relabel.1 h.names) ?_,
      fun h => .mk (namesOk_map_relabel.2 h.names) ?_⟩
    · intro c hc
      exact (ih c hc).1 (h.child _ (List.mem_map_of_mem hc))
    · intro c hc
      obtain ⟨d, hd, rfl⟩ := List.mem_map.1 hc
      exact (ih d hd).2 (h.child d hd)

theorem labels_relabel (f : α → β) (s : Term α) : (s.relabel f).labels = s.labels.map f := by
  induction s with
  | node l cell cs ih =>
    rw [relabel_node, labels_node, labels_node, List.map_cons, List.flatMap_map, List.map_flatMap,
      List.flatMap_def, List.flatMap_def, List.map_congr_left ih]

end Term

end ObjectLowering
