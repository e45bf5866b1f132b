import ObjectLowering.Proofs.Term
import ObjectLowering.Tree.Basic

/-!
# ObjectLowering.Proofs.Holds

What a tree stores, as terms. `t.Holds parent s` says that the tree stores the term `s`, whose labels
are the numbers of its nodes, with consistent links below, and that its top node records `parent`.

* `Holds.congr`: a term is still stored if none of its nodes has changed.
* `Holds.exists_of_mem`: every number in a stored term is that of a stored term inside it.
* `stripParentheses_of_holds`, `namedVariable?_of_holds`: searches down the tree are those down the
  term.
-/

namespace ObjectLowering.Tree

/-- The node with this number says what the cell says, records this parent and has these
children. -/
def Has (t : Tree) (id : NodeId) (cell : Cell) (parent : Option NodeId) (children : List NodeId) :
    Prop :=
  ∃ kind, t.node? id = some ⟨kind, parent, cell.span, cell.nilCheck⟩ ∧ kind.form = cell.form
    ∧ kind.children = children

/-- The tree stores the term, and its top node records the parent. -/
inductive Holds (t : Tree) : Option NodeId → Term NodeId → Prop where
  | node {parent : Option NodeId} {id : NodeId} {cell : Cell} {children : List (Term NodeId)} :
    t.Has id cell parent (children.map Term.label) →
      (∀ c ∈ children, t.Holds (some id) c) → t.Holds parent (.node id cell children)

theorem Has.congr {t t' : Tree} {id : NodeId} {cell : Cell} {parent : Option NodeId}
    {children : List NodeId} (h : t.Has id cell parent children)
    (he : t'.node? id = t.node? id) : t'.Has id cell parent children := by
  obtain ⟨kind, hn, hf, hc⟩ := h
  exact ⟨kind, he.trans hn, hf, hc⟩

theorem Has.lt_size {t : Tree} {id : NodeId} {cell : Cell} {parent : Option NodeId}
    {children : List NodeId} (h : t.Has id cell parent children) : id < t.size := by
  obtain ⟨kind, hn, _, _⟩ := h
  exact (Array.getElem?_eq_some_iff.1 hn).1

theorem Has.parent? {t : Tree} {id : NodeId} {cell : Cell} {parent : Option NodeId}
    {children : List NodeId} (h : t.Has id cell parent children) : t.parent? id = parent := by
  obtain ⟨kind, hn, _, _⟩ := h
  simp [Tree.parent?, hn]

theorem Has.children {t : Tree} {id : NodeId} {cell : Cell} {parent : Option NodeId}
    {children : List NodeId} (h : t.Has id cell parent children) : t.children id = children := by
  obtain ⟨kind, hn, _, hc⟩ := h
  simp [Tree.children, kind?, hn, hc]

theorem Has.span {t : Tree} {id : NodeId} {cell : Cell} {parent : Option NodeId}
    {children : List NodeId} (h : t.Has id cell parent children) : t.span id = cell.span := by
  obtain ⟨kind, hn, _, _⟩ := h
  simp [Tree.span, hn]

theorem Has.hasNilCheck {t : Tree} {id : NodeId} {cell : Cell} {parent : Option NodeId}
    {children : List NodeId} (h : t.Has id cell parent children) :
    t.hasNilCheck id = cell.nilCheck := by
  obtain ⟨kind, hn, _, _⟩ := h
  simp [Tree.hasNilCheck, hn]

theorem Has.kind? {t : Tree} {id : NodeId} {cell : Cell} {parent : Option NodeId}
    {children : List NodeId} (h : t.Has id cell parent children) :
    ∃ kind, t.kind? id = some kind ∧ kind.form = cell.form ∧ kind.children = children := by
  obtain ⟨kind, hn, hf, hc⟩ := h
  exact ⟨kind, by simp [Tree.kind?, hn], hf, hc⟩

namespace Holds

theorem has {t : Tree} {p : Option NodeId} {id : NodeId} {cell : Cell}
    {cs : List (Term NodeId)} (h : t.Holds p (.node id cell cs)) :
    t.Has id cell p (cs.map Term.label) := by
  cases h with
  | node hh _ => exact hh

theorem child {t : Tree} {p : Option NodeId} {id : NodeId} {cell : Cell}
    {cs : List (Term NodeId)} (h : t.Holds p (.node id cell cs)) :
    ∀ c ∈ cs, t.Holds (some id) c := by
  cases h with
  | node _ hc => exact hc

theorem has_top {t : Tree} {p : Option NodeId} {s : Term NodeId} (h : t.Holds p s) :
    t.Has s.label s.cell p (s.children.map Term.label) := by
  cases h with
  | node hh _ => exact hh

theorem child_top {t : Tree} {p : Option NodeId} {s : Term NodeId} (h : t.Holds p s) :
    ∀ c ∈ s.children, t.Holds (some s.label) c := by
  cases h with
  | node _ hc => exact hc

theorem parent? {t : Tree} {p : Option NodeId} {s : Term NodeId} (h : t.Holds p s) :
    t.parent? s.label = p :=
  h.has_top.parent?

/-- A term is still stored if none of its nodes has changed. -/
theorem congr {t t' : Tree} {p : Option NodeId} {s : Term NodeId} (h : t.Holds p s)
    (he : ∀ i ∈ s.labels, t'.node? i = t.node? i) : t'.Holds p s := by
  induction h with
  | @node p id cell cs hh _ ih =>
    rw [Term.labels_node] at he
    refine .node (hh.congr (he id List.mem_cons_self)) fun c hc => ih c hc ?_
    intro i hi
    exact he i (List.mem_cons_of_mem _ (List.mem_flatMap.2 ⟨c, hc, hi⟩))

theorem lt_size {t : Tree} {p : Option NodeId} {s : Term NodeId} (h : t.Holds p s) :
    ∀ i ∈ s.labels, i < t.size := by
  induction h with
  | @node p id cell cs hh _ ih =>
    intro i hi
    rw [Term.labels_node, List.mem_cons, List.mem_flatMap] at hi
    rcases hi with rfl | ⟨c, hc, hi⟩
    · exact hh.lt_size
    · exact ih c hc i hi

theorem within {t : Tree} {p : Option NodeId} {r s : Term NodeId} (h : t.Holds p s)
    (hw : r.Within s) : ∃ q, t.Holds q r := by
  induction hw generalizing p with
  | refl => exact ⟨p, h⟩
  | child hc _ ih => exact ih (h.child _ hc)

/-- Every node of a stored term is the top of a stored term inside it. -/
theorem exists_of_mem {t : Tree} {p : Option NodeId} {s : Term NodeId} (h : t.Holds p s)
    {i : NodeId} (hi : i ∈ s.labels) : ∃ q r, t.Holds q r ∧ r.Within s ∧ r.label = i := by
  induction h with
  | @node p id cell cs hh hc ih =>
    rw [Term.labels_node, List.mem_cons, List.mem_flatMap] at hi
    rcases hi with rfl | ⟨c, hcm, hi⟩
    · exact ⟨p, _, .node hh hc, .refl, rfl⟩
    · obtain ⟨q, r, hr, hw, rfl⟩ := ih c hcm hi
      exact ⟨q, r, hr, .child hcm hw, rfl⟩

end Holds

/-! ## Sizes -/

theorem length_le_of_nodup {n : Nat} {l : List NodeId} (hn : l.Nodup) (hb : ∀ i ∈ l, i < n) :
    l.length ≤ n := by
  have hs : l ⊆ List.range n := fun i hi => List.mem_range.2 (hb i hi)
  simpa using hn.length_le_of_subset hs

theorem Holds.length_le {t : Tree} {p : Option NodeId} {s : Term NodeId} (h : t.Holds p s)
    (hn : s.labels.Nodup) : s.labels.length ≤ t.size :=
  length_le_of_nodup hn h.lt_size

/-! ## Searches down the tree -/

theorem eq_pair_of_map_label {cs : List (Term NodeId)} {a b : NodeId}
    (h : cs.map Term.label = [a, b]) : ∃ x y, cs = [x, y] ∧ x.label = a ∧ y.label = b := by
  match cs, h with
  | [x, y], h =>
    obtain ⟨hx, hy⟩ : x.label = a ∧ y.label = b := by simpa using h
    exact ⟨x, y, rfl, hx, hy⟩

theorem stripFrom_of_holds {t : Tree} {p : Option NodeId} {s : Term NodeId} (h : t.Holds p s)
    {depth : Nat} (hd : s.labels.length ≤ depth) : t.stripFrom depth s.label = s.strip.label := by
  induction depth generalizing p s with
  | zero =>
    have := s.length_labels_pos
    omega
  | succ depth ih =>
    cases s with
    | node id cell cs =>
      obtain ⟨kind, hk, hf, hc⟩ := h.has.kind?
      by_cases hp : ∃ inner, kind = .parenthesized inner
      · obtain ⟨inner, rfl⟩ := hp
        obtain ⟨c, rfl, rfl⟩ := List.map_eq_singleton_iff.1 hc.symm
        have hl := Term.length_labels_lt id cell (List.mem_singleton_self c)
        obtain ⟨form, span, nilCheck⟩ := cell
        subst hf
        have := ih (h.child c List.mem_cons_self) (by omega)
        simpa [stripFrom, hk, NodeKind.form, Term.strip_parenthesized] using this
      · have hs : (Term.node id cell cs).strip = .node id cell cs := by
          refine Term.strip_of_form_ne ?_
          intro n hn
          cases kind <;> simp_all [NodeKind.form]
        have ht : t.stripFrom (depth + 1) id = id := by
          unfold stripFrom
          split
          · rename_i inner hi
            rw [hk] at hi
            exact absurd ⟨inner, Option.some.inj hi⟩ hp
          · rfl
        rw [hs]
        exact ht

theorem stripParentheses_of_holds {t : Tree} {p : Option NodeId} {s : Term NodeId}
    (h : t.Holds p s) (hn : s.labels.Nodup) : t.stripParentheses s.label = s.strip.label :=
  stripFrom_of_holds h (h.length_le hn)

theorem variableFrom?_of_holds {t : Tree} {p : Option NodeId} {s : Term NodeId}
    (h : t.Holds p s) {depth : Nat} (hd : s.labels.length ≤ depth) :
    t.variableFrom? depth s.label = s.denotes? := by
  induction depth generalizing p s with
  | zero =>
    have := s.length_labels_pos
    omega
  | succ depth ih =>
    cases s with
    | node id cell cs =>
      obtain ⟨kind, hk, hf, hc⟩ := h.has.kind?
      obtain ⟨form, span, nilCheck⟩ := cell
      subst hf
      cases kind with
      | qualifiedName base name | fieldAccess base name =>
        obtain ⟨b, n, rfl, rfl, rfl⟩ := eq_pair_of_map_label hc.symm
        have hm : n ∈ [b, n] := by simp
        have hl := Nat.lt_of_lt_of_le (Term.length_labels_lt id _ hm) hd
        have := ih (h.child n hm) (by omega)
        simpa [variableFrom?, hk, NodeKind.form, Term.denotes?] using this
      | simpleName name binding =>
        cases binding with
        | none => simp [variableFrom?, hk, NodeKind.form, Term.denotes?]
        | some b => cases b <;> simp [variableFrom?, hk, NodeKind.form, Term.denotes?]
      | _ => simp [variableFrom?, hk, NodeKind.form, Term.denotes?]

theorem namedVariable?_of_holds {t : Tree} {p : Option NodeId} {s : Term NodeId}
    (h : t.Holds p s) (hn : s.labels.Nodup) : t.namedVariable? s.label = s.denotes? :=
  variableFrom?_of_holds h (h.length_le hn)

/-! ## New nodes -/

theorem has_alloc (t : Tree) (kind : NodeKind) (span : Span) :
    (t.alloc kind span).2.Has t.size ⟨kind.form, span, false⟩ none kind.children :=
  ⟨kind, by rw [node?_alloc, if_pos rfl], rfl, rfl⟩

/-- A new node changes the recorded parents of its children and no other node. -/
theorem node?_alloc_of_lt {t : Tree} (kind : NodeKind) (span : Span) {i : NodeId}
    (hi : i < t.size) (hc : i ∉ kind.children) : (t.alloc kind span).2.node? i = t.node? i := by
  rw [node?_alloc, if_neg (Nat.ne_of_lt hi), node?_adopt, if_neg hc]

/-- And no kind at all. -/
theorem kind?_alloc_of_lt {t : Tree} (kind : NodeKind) (span : Span) {i : NodeId}
    (hi : i < t.size) : (t.alloc kind span).2.kind? i = t.kind? i := by
  rw [kind?, node?_alloc, if_neg (Nat.ne_of_lt hi), node?_adopt, kind?]
  split
  · simp [Function.comp_def]
  · rfl

theorem Has.adopted {t : Tree} {kind : NodeKind} {c : NodeId} {cell : Cell} {p : Option NodeId}
    {cs : List NodeId} (h : t.Has c cell p cs) (span : Span) (hc : c ∈ kind.children) :
    (t.alloc kind span).2.Has c cell (some t.size) cs := by
  have hlt := h.lt_size
  obtain ⟨k, hn, hf, hcs⟩ := h
  refine ⟨k, ?_, hf, hcs⟩
  rw [node?_alloc, if_neg (Nat.ne_of_lt hlt), node?_adopt, if_pos hc, hn]
  rfl

/-- A term becomes the only child of a new node. -/
theorem Holds.adopted {t : Tree} {kind : NodeKind} {p : Option NodeId} {s : Term NodeId}
    (h : t.Holds p s) (hn : s.labels.Nodup) (span : Span) (hk : kind.children = [s.label]) :
    (t.alloc kind span).2.Holds (some t.size) s := by
  cases s with
  | node id cell cs =>
    rw [Term.labels_node, List.nodup_cons] at hn
    refine .node (h.has.adopted span (by simp [hk])) fun c hc => (h.child c hc).congr ?_
    intro i hi
    refine node?_alloc_of_lt kind span ((h.child c hc).lt_size i hi) ?_
    rw [hk, Term.label_node, List.mem_singleton]
    rintro rfl
    exact hn.1 (List.mem_flatMap.2 ⟨c, hc, hi⟩)

end ObjectLowering.Tree
