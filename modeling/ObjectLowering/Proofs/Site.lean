import ObjectLowering.Proofs.WellFormed
import ObjectLowering.Tree.Edit

/-!
# ObjectLowering.Proofs.Site

A site is the slot in which a term stands, with everything around it. A change of a tree below one
node is described by the term that stands at the site before and after; the rest of the program is
the site, which the change leaves alone but for one thing: where a qualifier stops being a name, the
qualified names around it become member accesses (`expose`).

* `owningType?_at`: the search for the enclosing type finds the `context` of the site.
* `Alters`: a change of a tree in which only nodes of a list change their kinds.
* `replace_at`: replacing a node at a site.
* `convertToFieldAccess_at`: converting the name around a site exposes the site.
-/

namespace ObjectLowering

/-- The place of a term in a program: the nodes around it, the nearest outermost, with the terms
before and after it in each. -/
inductive Site where
  | root
  | slot (id : NodeId) (cell : Cell) (before after : List (Term NodeId)) (outer : Site)

namespace Site

/-- The node that holds the slot. -/
def parent? : Site → Option NodeId
  | root => none
  | slot id _ _ _ _ => some id

/-- The nodes around the slot, the nearest first. -/
def ids : Site → List NodeId
  | root => []
  | slot id _ _ _ outer => id :: outer.ids

/-- The numbers of all nodes of the program but those in the slot. -/
def numbers : Site → List NodeId
  | root => []
  | slot id _ before after outer => id :: ((before ++ after).flatMap Term.labels ++ outer.numbers)

/-- The type in whose code the slot stands. -/
def context : Site → Option TypeHash
  | root => none
  | slot _ cell _ _ outer => cell.form.context outer.context

/-- The slot is that of the qualifier in a qualified name. -/
def isQualifier : Site → Bool
  | slot _ cell [] _ _ => cell.form.isQualifiedName
  | _ => false

/-- The site where the names around a qualifier have become member accesses. -/
def expose : Site → Site
  | slot id cell [] after outer =>
    if cell.form.isQualifiedName then
      slot id { cell with form := .fieldAccess 0 0 } [] after outer.expose
    else
      slot id cell [] after outer
  | site => site

/-- The site after a change that leaves, or does not leave, a name in the slot. -/
def settle (site : Site) (name : Bool) : Site :=
  if name then site else site.expose

/-- Names around the slot keep to the rules for names, where `name` says whether there is one in
the slot. -/
def Named (name : Bool) : Site → Prop
  | root => True
  | slot _ cell before after outer =>
    (cell.form.isQualifiedName = true → before = [] →
      name = true ∧ ∃ member : Term NodeId, after = [member] ∧ member.isSimpleName = true) ∧
    outer.Named cell.form.isName

theorem expose_of_not_isQualifier {site : Site} (h : site.isQualifier = false) :
    site.expose = site := by
  cases site with
  | root => rfl
  | slot id cell before after outer =>
    cases before with
    | nil =>
      have : cell.form.isQualifiedName = false := h
      simp [expose, this]
    | cons b before => rfl

theorem isQualifier_eq_false {site : Site} (h : site.Named false) : site.isQualifier = false := by
  cases site with
  | root => rfl
  | slot id cell before after outer =>
    cases before with
    | nil =>
      cases hq : cell.form.isQualifiedName with
      | false => exact hq
      | true => exact absurd (h.1 hq rfl).1 Bool.false_ne_true
    | cons b before => rfl

@[simp] theorem parent?_expose (site : Site) : site.expose.parent? = site.parent? := by
  unfold expose
  split
  · split <;> rfl
  · rfl

@[simp] theorem numbers_expose (site : Site) : site.expose.numbers = site.numbers := by
  induction site with
  | root => rfl
  | slot id cell before after outer ih =>
    unfold expose
    split
    · rename_i e
      cases e
      split
      · simp [numbers, ih]
      · rfl
    · rfl

@[simp] theorem ids_expose (site : Site) : site.expose.ids = site.ids := by
  induction site with
  | root => rfl
  | slot id cell before after outer ih =>
    unfold expose
    split
    · rename_i e
      cases e
      split
      · simp [ids, ih]
      · rfl
    · rfl

@[simp] theorem context_expose (site : Site) : site.expose.context = site.context := by
  induction site with
  | root => rfl
  | slot id cell before after outer ih =>
    unfold expose
    split
    · rename_i e
      cases e
      split
      · rename_i hq
        cases hf : cell.form <;> simp_all [context, NodeKind.context, NodeKind.isQualifiedName]
      · rfl
    · rfl

@[simp] theorem context_settle (site : Site) (name : Bool) :
    (site.settle name).context = site.context := by
  cases name <;> simp [settle]

@[simp] theorem ids_settle (site : Site) (name : Bool) : (site.settle name).ids = site.ids := by
  cases name <;> simp [settle]

theorem ids_sublist (site : Site) : site.ids.Sublist site.numbers := by
  induction site with
  | root => exact .slnil
  | slot id cell before after outer ih =>
    exact (ih.trans (List.sublist_append_right _ _)).cons_cons id

end Site

namespace Tree

/-- The tree stores the site around the node `c`. -/
def HoldsAround (t : Tree) (c : NodeId) : Site → Prop
  | .root => True
  | .slot id cell before after outer =>
    t.Has id cell outer.parent? (before.map Term.label ++ c :: after.map Term.label) ∧
      (∀ s ∈ before ++ after, t.Holds (some id) s) ∧ t.HoldsAround id outer

theorem HoldsAround.congr {t t' : Tree} {c : NodeId} {site : Site} (h : t.HoldsAround c site)
    (he : ∀ i ∈ site.numbers, t'.node? i = t.node? i) : t'.HoldsAround c site := by
  induction site generalizing c with
  | root => trivial
  | slot id cell before after outer ih =>
    obtain ⟨hh, hs, ho⟩ := h
    refine ⟨hh.congr (he id List.mem_cons_self), fun s hm => (hs s hm).congr ?_,
      ih ho ?_⟩
    · intro i hi
      refine he i (List.mem_cons_of_mem _ (List.mem_append_left _ ?_))
      exact List.mem_flatMap.2 ⟨s, hm, hi⟩
    · intro i hi
      exact he i (List.mem_cons_of_mem _ (List.mem_append_right _ hi))

theorem HoldsAround.lt_size {t : Tree} {c : NodeId} {site : Site} (h : t.HoldsAround c site) :
    ∀ i ∈ site.numbers, i < t.size := by
  induction site generalizing c with
  | root => simp [Site.numbers]
  | slot id cell before after outer ih =>
    obtain ⟨hh, hs, ho⟩ := h
    intro i hi
    rw [Site.numbers, List.mem_cons, List.mem_append, List.mem_flatMap] at hi
    rcases hi with rfl | ⟨s, hm, hi⟩ | hi
    · exact hh.lt_size
    · exact (hs s hm).lt_size i hi
    · exact ih ho i hi

/-! ## Searches up the tree -/

theorem owningTypeFrom?_succ {t : Tree} {id : NodeId} {kind : NodeKind}
    (h : t.kind? id = some kind) (depth : Nat) :
    t.owningTypeFrom? (depth + 1) id =
      kind.context ((t.parent? id).bind (t.owningTypeFrom? depth)) := by
  rw [owningTypeFrom?, h]
  cases kind <;> rfl

theorem owningTypeFrom?_at {t : Tree} {c : NodeId} {cell : Cell} {cs : List NodeId} {site : Site}
    (h : t.Has c cell site.parent? cs) (hs : t.HoldsAround c site) {depth : Nat}
    (hd : site.ids.length < depth) :
    t.owningTypeFrom? depth c = cell.form.context site.context := by
  induction depth generalizing c cell cs site with
  | zero => omega
  | succ depth ih =>
    obtain ⟨kind, hk, hf, _⟩ := h.kind?
    rw [owningTypeFrom?_succ hk, h.parent?, ← hf, NodeKind.context_form]
    cases site with
    | root => rfl
    | slot id cell' before after outer =>
      rw [Site.ids, List.length_cons] at hd
      rw [Site.parent?, Option.bind_some, ih hs.1 hs.2.2 (by omega)]
      rfl

theorem owningType?_at {t : Tree} {c : NodeId} {cell : Cell} {cs : List NodeId} {site : Site}
    (h : t.Has c cell site.parent? cs) (hs : t.HoldsAround c site)
    (hn : (c :: site.numbers).Nodup) : t.owningType? c = cell.form.context site.context := by
  refine owningTypeFrom?_at h hs ?_
  have hl : (c :: site.ids).length ≤ t.size := by
    refine length_le_of_nodup ((site.ids_sublist.cons_cons c).nodup hn) ?_
    intro i hi
    rcases List.mem_cons.1 hi with rfl | hi
    · exact h.lt_size
    · exact hs.lt_size i (site.ids_sublist.subset hi)
  rw [List.length_cons] at hl
  omega

theorem qualifies?_at {t : Tree} {c : NodeId} {site : Site} (h : t.parent? c = site.parent?)
    (hs : t.HoldsAround c site) (hn : c ∉ site.numbers) :
    t.qualifies? c = if site.isQualifier then site.parent? else none := by
  unfold qualifies?
  rw [h]
  cases site with
  | root => rfl
  | slot id cell before after outer =>
    obtain ⟨kind, hk, hf, hc⟩ := hs.1.kind?
    have hq : cell.form.isQualifiedName = kind.isQualifiedName := by
      rw [← hf, NodeKind.isQualifiedName_form]
    rw [Site.parent?, Option.filter_some, hk]
    cases before with
    | nil =>
      rw [Site.isQualifier, hq]
      cases kind with
      | qualifiedName qualifier name =>
        obtain ⟨rfl, _⟩ := List.cons.inj hc
        simp [NodeKind.isQualifiedName]
      | _ => rfl
    | cons b before =>
      have hne : b.label ≠ c := by
        rintro rfl
        refine hn (List.mem_cons_of_mem _ (List.mem_append_left _ ?_))
        exact List.mem_flatMap.2 ⟨b, by simp, b.label_mem_labels⟩
      cases kind with
      | qualifiedName qualifier name =>
        obtain ⟨rfl, _⟩ := List.cons.inj hc
        simp [Site.isQualifier, hne]
      | _ => rfl

/-! ## Changes at a site -/

/-- The tree `t'` has the root and the nodes of `t`, which keep their kinds but for some. -/
structure Alters (t : Tree) (altered : List NodeId) (t' : Tree) : Prop where
  root : t'.root = t.root
  size_le : t.size ≤ t'.size
  kinds : ∀ i < t.size, i ∉ altered → t'.kind? i = t.kind? i

namespace Alters

theorem refl (t : Tree) (ids : List NodeId) : t.Alters ids t :=
  ⟨rfl, Nat.le_refl _, fun _ _ _ => rfl⟩

theorem mono {t t' : Tree} {ids ids' : List NodeId} (h : t.Alters ids t') (hsub : ids ⊆ ids') :
    t.Alters ids' t' :=
  ⟨h.root, h.size_le, fun i hlt hi => h.kinds i hlt fun hm => hi (hsub hm)⟩

theorem trans {t₁ t₂ t₃ : Tree} {ids : List NodeId} (h : t₁.Alters ids t₂)
    (h' : t₂.Alters ids t₃) : t₁.Alters ids t₃ where
  root := h'.root.trans h.root
  size_le := Nat.le_trans h.size_le h'.size_le
  kinds i hlt hi := (h'.kinds i (Nat.lt_of_lt_of_le hlt h.size_le) hi).trans (h.kinds i hlt hi)

/-- A change of a node is one of the term below it. -/
theorem of_top {t t' : Tree} {id : NodeId} {ids : List NodeId} (h : t.Alters (id :: ids) t')
    {cell : Cell} {cs : List (Term NodeId)} :
    t.Alters ((Term.node id cell cs).labels ++ ids) t' := by
  refine h.mono ?_
  rw [Term.labels_node, List.cons_append]
  exact List.cons_subset_cons id (List.subset_append_right _ _)

/-- A change of a child and of what is around it is one of the node and of what is around the node. -/
theorem of_child {t t' : Tree} {id : NodeId} {ids : List NodeId} {c : Term NodeId}
    (h : t.Alters (c.labels ++ id :: ids) t') {cell : Cell} {cs : List (Term NodeId)} (hc : c ∈ cs) :
    t.Alters ((Term.node id cell cs).labels ++ ids) t' := by
  refine h.mono fun i hi => ?_
  rw [Term.labels_node, List.cons_append, List.mem_cons, List.mem_append, List.mem_flatMap]
  rcases List.mem_append.1 hi with hi | hi
  · exact .inr (.inl ⟨c, hc, hi⟩)
  · exact (List.mem_cons.1 hi).imp_right .inr

end Alters

/-- From a term to one of the terms below it. -/
theorem HoldsAround.into {t : Tree} {id : NodeId} {cell : Cell} {l r : List (Term NodeId)}
    {s : Term NodeId} {site : Site} (h : t.Holds site.parent? (.node id cell (l ++ s :: r)))
    (hs : t.HoldsAround id site) : t.HoldsAround s.label (.slot id cell l r site) := by
  refine ⟨?_, fun c hc => h.child c ?_, hs⟩
  · simpa using h.has
  · rcases List.mem_append.1 hc with hc | hc
    · exact List.mem_append_left _ hc
    · exact List.mem_append_right _ (List.mem_cons_of_mem _ hc)

/-- And back. -/
theorem HoldsAround.out {t : Tree} {id : NodeId} {cell : Cell} {l r : List (Term NodeId)}
    {s : Term NodeId} {site : Site} (h : t.Holds (some id) s)
    (hs : t.HoldsAround s.label (.slot id cell l r site)) :
    t.Holds site.parent? (.node id cell (l ++ s :: r)) ∧ t.HoldsAround id site := by
  obtain ⟨hh, hc, ho⟩ := hs
  refine ⟨.node (by simpa using hh) ?_, ho⟩
  intro c hm
  rcases List.mem_append.1 hm with hm | hm
  · exact hc c (List.mem_append_left _ hm)
  · rcases List.mem_cons.1 hm with rfl | hm
    · exact h
    · exact hc c (List.mem_append_right _ hm)

theorem node_of_node? {t : Tree} {id : NodeId} {node : Node} (h : t.node? id = some node) :
    t.node id = .ok node := by
  simp [Tree.node, h]

theorem kind?_update_of_kind (t : Tree) {id : NodeId} {change : Node → Node}
    (h : ∀ node, (change node).kind = node.kind) (other : NodeId) :
    (t.update id change).kind? other = t.kind? other := by
  rw [kind?, node?_update, kind?]
  split
  · simp [Function.comp_def, h]
  · rfl

theorem replace_append_cons {l r : List NodeId} {c : NodeId} (new : NodeId) (h : c ∉ l) :
    (l ++ c :: r).replace c new = l ++ new :: r := by
  rw [List.replace_append_right h, List.replace_cons_self]

theorem replace_at {t : Tree} {c new : NodeId} {cell newCell : Cell} {q : Option NodeId}
    {cs newCs : List NodeId} {site : Site} {p : NodeId} (hp : site.parent? = some p)
    (hc : t.Has c cell site.parent? cs) (hs : t.HoldsAround c site)
    (hnew : t.Has new newCell q newCs) (hn : (c :: new :: site.numbers).Nodup) :
    ∃ t', t.replace c new = .ok t' ∧ t'.root = t.root ∧ t'.size = t.size ∧
      t'.HoldsAround new site ∧ t'.Has new newCell site.parent? newCs ∧
      (∀ i, i ≠ c → i ≠ new → i ≠ p → t'.node? i = t.node? i) ∧
      ∀ i, i ≠ p → t'.kind? i = t.kind? i := by
  cases site with
  | root => cases hp
  | slot id parentCell before after outer =>
    cases hp
    obtain ⟨kc, hkc, _, _⟩ := hc
    obtain ⟨kn, hkn, hfn, hcn⟩ := hnew
    obtain ⟨⟨kp, hkp, hfp, hcp⟩, hrest, ho⟩ := hs
    have hmem : c ∈ kp.children := by rw [hcp]; simp
    obtain ⟨k, hk, hkf, hkch⟩ := NodeKind.replaceChild?_of_mem new hmem
    have hrep : t.replace c new = .ok (((t.update p ({ · with kind := k })).update new
        ({ · with parent := some p })).update c ({ · with parent := none })) := by
      simp [replace, node_of_node? hkc, node_of_node? hkn, node_of_node? hkp, Site.parent?, hk,
        bind, Except.bind]
    have hframe : ∀ i, i ≠ c → i ≠ new → i ≠ p → (((t.update p ({ · with kind := k })).update new
        ({ · with parent := some p })).update c ({ · with parent := none })).node? i =
          t.node? i := by
      intro i hic hin hip
      simp [node?_update, Ne.symm hic, Ne.symm hin, Ne.symm hip]
    simp only [Site.numbers, List.nodup_cons, List.mem_cons, List.mem_append, not_or] at hn
    obtain ⟨⟨hcn', hcp', hcr, hco⟩, ⟨hnp, hnr, hno⟩, ⟨hpr, hpo⟩, _⟩ := hn
    refine ⟨_, hrep, rfl, by simp, ⟨?_, ?_, ?_⟩, ?_, hframe, ?_⟩
    · refine ⟨k, by simp [node?_update, hcp', hnp, hkp], hkf.trans hfp, ?_⟩
      rw [hkch, hcp]
      refine replace_append_cons new fun hm => hcr ?_
      rw [List.flatMap_append]
      exact List.mem_append_left _ ((Term.map_label_sublist before).subset hm)
    · intro s hm
      refine (hrest s hm).congr ?_
      intro i hi
      have hi' : i ∈ (before ++ after).flatMap Term.labels := List.mem_flatMap.2 ⟨s, hm, hi⟩
      exact hframe i (fun e => hcr (e ▸ hi')) (fun e => hnr (e ▸ hi')) fun e => hpr (e ▸ hi')
    · refine ho.congr ?_
      intro i hi
      exact hframe i (fun e => hco (e ▸ hi)) (fun e => hno (e ▸ hi)) fun e => hpo (e ▸ hi)
    · exact ⟨kn, by simp [node?_update, hcn', Ne.symm hnp, hkn, Site.parent?], hfn, hcn⟩
    · intro i hip
      rw [kind?_update_of_kind, kind?_update_of_kind, kind?, node?_update, if_neg (Ne.symm hip), kind?]
      · exact fun _ => rfl
      · exact fun _ => rfl

theorem convertOne_of_node? {t : Tree} {id q n : NodeId} {parent : Option NodeId} {span : Span}
    {nilCheck : Bool} {kind : NodeKind} (h : t.node? id = some ⟨.qualifiedName q n, parent, span, nilCheck⟩)
    (hn : t.kind? n = some kind) (hs : kind.isSimpleName = true) :
    t.convertOne id = .ok (t.update id ({ · with kind := .fieldAccess q n })) := by
  obtain ⟨node, hnode, rfl⟩ := Option.map_eq_some_iff.1 hn
  cases hk : node.kind <;> simp_all [convertOne, node_of_node? h, node_of_node? hnode, bind,
    Except.bind, NodeKind.isSimpleName]

theorem convertFrom_succ {t t' : Tree} {id : NodeId} (h : t.convertOne id = .ok t') (depth : Nat) :
    t.convertFrom (depth + 1) id = match t'.qualifies? id with
      | some parent => t'.convertFrom depth parent
      | none => (t', .ok ()) := by
  rw [convertFrom]
  generalize t.convertOne id = outcome at h
  subst h
  rfl

/-- Converting the name around a qualifier turns it, and every name around it in turn, into a member
access. Each step leaves the rest of the site as it was, so the next name is still found. -/
theorem convertFrom_at {t : Tree} {c p : NodeId} {name : Bool} {site : Site}
    (hq : site.isQualifier = true) (hp : site.parent? = some p) (hs : t.HoldsAround c site)
    (hnm : site.Named name) (hn : site.numbers.Nodup) {depth : Nat}
    (hd : site.ids.length ≤ depth) :
    ∃ t', t.convertFrom depth p = (t', .ok ()) ∧ t'.root = t.root ∧ t'.size = t.size ∧
      t'.HoldsAround c site.expose ∧ ∀ i, i ∉ site.ids → t'.node? i = t.node? i := by
  induction site generalizing t c p name depth with
  | root => cases hq
  | slot id cell before after outer ih =>
    cases hp
    cases before with
    | cons b before => cases hq
    | nil =>
      replace hq : cell.form.isQualifiedName = true := hq
      obtain ⟨⟨kind, hk, hf, hc⟩, hrest, ho⟩ := hs
      obtain ⟨⟨_, member, rfl, hm⟩, hno⟩ : _ ∧ outer.Named cell.form.isName :=
        ⟨hnm.1 hq rfl, hnm.2⟩
      obtain ⟨q, n, rfl⟩ : ∃ q n, kind = .qualifiedName q n := by
        rw [← hf, NodeKind.isQualifiedName_form] at hq
        cases kind with
        | qualifiedName q n => exact ⟨q, n, rfl⟩
        | _ => cases hq
      obtain ⟨rfl, rfl⟩ : q = c ∧ n = member.label := by simpa [NodeKind.children] using hc
      obtain ⟨km, hkm, hfm, _⟩ := (hrest member (by simp)).has_top.kind?
      have hsm : km.isSimpleName = true := by
        rw [← NodeKind.isSimpleName_form, hfm]
        exact hm
      have hone := convertOne_of_node? hk hkm hsm
      simp only [Site.numbers, List.nil_append, List.flatMap_singleton, List.nodup_cons,
        List.mem_append, not_or, List.nodup_append] at hn
      obtain ⟨⟨hpm, hpo⟩, -, hno', hmo⟩ := hn
      let t₁ := t.update id ({ · with kind := .fieldAccess q member.label })
      have hframe : ∀ i, i ≠ id → t₁.node? i = t.node? i := fun i hi => by
        simp [t₁, node?_update, Ne.symm hi]
      have hhas : t₁.Has id { cell with form := .fieldAccess 0 0 } outer.parent?
          [q, member.label] :=
        ⟨.fieldAccess q member.label, by simp [t₁, node?_update, hk], rfl, rfl⟩
      have ho₁ : t₁.HoldsAround id outer := ho.congr fun i hi => hframe i fun e => hpo (e ▸ hi)
      have hm₁ : t₁.Holds (some id) member :=
        (hrest member (by simp)).congr fun i hi => hframe i fun e => hpm (e ▸ hi)
      obtain ⟨depth, rfl⟩ : ∃ d, depth = d + 1 := by
        rw [Site.ids, List.length_cons] at hd
        exact ⟨depth - 1, by omega⟩
      rw [Site.ids, List.length_cons] at hd
      rw [convertFrom_succ hone, qualifies?_at hhas.parent? ho₁ hpo, Site.expose, if_pos hq]
      cases hoq : outer.isQualifier with
      | false =>
        rw [Site.expose_of_not_isQualifier hoq]
        refine ⟨t₁, rfl, rfl, by simp [t₁], ⟨hhas, by simpa using hm₁, ho₁⟩, ?_⟩
        intro i hi
        exact hframe i fun e => hi (e ▸ List.mem_cons_self)
      | true =>
        obtain ⟨p, hp⟩ : ∃ p, outer.parent? = some p := by
          cases outer with
          | root => cases hoq
          | slot p _ _ _ _ => exact ⟨p, rfl⟩
        have hd' : outer.ids.length ≤ depth := by omega
        obtain ⟨t', hc', hr', hsz', hs', hf'⟩ := ih hoq hp ho₁ hno hno' hd'
        refine ⟨t', ?_, hr'.trans rfl, hsz'.trans (by simp [t₁]), ⟨?_, ?_, hs'⟩, ?_⟩
        · rw [if_pos rfl, hp]
          exact hc'
        · rw [Site.parent?_expose]
          exact hhas.congr (hf' id fun hm => hpo (outer.ids_sublist.subset hm))
        · simpa using hm₁.congr fun i hi => hf' i fun ho =>
            hmo i hi i (outer.ids_sublist.subset ho) rfl
        · intro i hi
          simp only [Site.ids, List.mem_cons, not_or] at hi
          exact (hf' i hi.2).trans (hframe i hi.1)

theorem convertToFieldAccess_at {t : Tree} {c p : NodeId} {name : Bool} {site : Site}
    (hq : site.isQualifier = true) (hp : site.parent? = some p) (hs : t.HoldsAround c site)
    (hnm : site.Named name) (hn : site.numbers.Nodup) :
    ∃ t', t.convertToFieldAccess p = (t', .ok ()) ∧ t'.root = t.root ∧ t'.size = t.size ∧
      t'.HoldsAround c site.expose ∧ ∀ i, i ∉ site.ids → t'.node? i = t.node? i := by
  refine convertFrom_at hq hp hs hnm hn ?_
  have := length_le_of_nodup (site.ids_sublist.nodup hn) fun i hi =>
    hs.lt_size i (site.ids_sublist.subset hi)
  omega

end Tree

end ObjectLowering
