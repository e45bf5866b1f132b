import ObjectLowering.Proofs.StaticAccess.Frame

/-!
# ObjectLowering.Proofs.StaticAccess.Calls

The method calls that a run of the pass keeps. An accessor takes the place of a whole access, and
with the access goes what its base evaluates.

* `Stands`, `Dropped`: a term in its code, outside case labels; a node in an access that an accessor
  replaces.
* `label_mem_lower_iff`: lowering keeps a method call unless it is dropped.
* `kept_call_iff`: a run keeps a method call if and only if it is in no access to a field of another
  type, but for those in case labels.
-/

namespace ObjectLowering.StaticAccess

open ObjectLowering.Tree (At)

variable {env : Environment} {t : Tree} {α : Type}

/-! ## What lowering drops -/

/-- The term stands in code of the type `inner`, below a term in code of the type `context`, and no
case label is around it. -/
inductive Stands (a : Term α) (inner : Option TypeHash) : Option TypeHash → Term α → Prop where
  | here : Stands a inner inner a
  | under {context : Option TypeHash} {l : α} {cell : Cell} {cs : List (Term α)} {c : Term α} :
    cell.form.isCaseLabel = false → c ∈ cs → Stands a inner (cell.form.context context) c →
      Stands a inner context (.node l cell cs)

/-- The label belongs to an access that an accessor replaces. -/
def Dropped (env : Environment) (i : α) (context : Option TypeHash) (s : Term α) : Prop :=
  ∃ a inner, Stands a inner context s ∧ (accessed? env inner a).isSome = true ∧ i ∈ a.labels

theorem Stands.within {a s : Term α} {inner context : Option TypeHash}
    (h : Stands a inner context s) : a.Within s := by
  induction h with
  | here => exact .refl
  | under _ hc _ ih => exact .child hc ih

/-- One step down. -/
theorem Stands.child {l : α} {cell : Cell} {cs : List (Term α)} {s c : Term α}
    {inner context : Option TypeHash} (h : Stands (.node l cell cs) inner context s)
    (hf : cell.form.isCaseLabel = false) (hc : c ∈ cs) :
    Stands c (cell.form.context inner) context s := by
  generalize ha : Term.node l cell cs = a at h
  induction h with
  | here =>
    subst ha
    exact .under hf hc .here
  | under hf' hd _ ih => exact .under hf' hd ih

theorem Dropped.mem_labels {i : α} {context : Option TypeHash} {s : Term α}
    (h : Dropped env i context s) : i ∈ s.labels := by
  obtain ⟨a, inner, hs, -, hi⟩ := h
  exact hs.within.labels_sublist.subset hi

theorem Dropped.of_child {i l : α} {context : Option TypeHash} {cell : Cell} {cs : List (Term α)}
    {c : Term α} (hf : cell.form.isCaseLabel = false) (hc : c ∈ cs)
    (h : Dropped env i (cell.form.context context) c) : Dropped env i context (.node l cell cs) := by
  obtain ⟨a, inner, hs, ha, hi⟩ := h
  exact ⟨a, inner, .under hf hc hs, ha, hi⟩

/-- What is dropped is in the top access or dropped from one of the children. -/
theorem Dropped.cases {i l : α} {context : Option TypeHash} {cell : Cell} {cs : List (Term α)}
    (h : Dropped env i context (.node l cell cs)) :
    (accessed? env context (.node l cell cs)).isSome = true ∨
      cell.form.isCaseLabel = false ∧ ∃ c ∈ cs, Dropped env i (cell.form.context context) c := by
  obtain ⟨a, inner, hs, ha, hi⟩ := h
  cases hs with
  | here => exact .inl ha
  | under hf hc hs => exact .inr ⟨hf, _, hc, a, inner, hs, ha, hi⟩

theorem dropped_iff_child {i l : α} {context : Option TypeHash} {cell : Cell} {cs : List (Term α)}
    {c : Term α} (hn : (cs.flatMap Term.labels).Nodup) (hf : cell.form.isCaseLabel = false)
    (ha : accessed? env context (.node l cell cs) = none) (hc : c ∈ cs) (hi : i ∈ c.labels) :
    Dropped env i context (.node l cell cs) ↔ Dropped env i (cell.form.context context) c := by
  refine ⟨fun h => ?_, .of_child hf hc⟩
  rcases h.cases with htop | ⟨-, d, hd, h⟩
  · rw [ha] at htop
    cases htop
  · rwa [Term.eq_of_mem_labels hn hc hd hi h.mem_labels]

/-- An access in parentheses drops whatever is in it but the parentheses. -/
theorem dropped_of_strip {context : Option TypeHash} {r s : Term α}
    (ha : (accessed? env context s.strip).isSome = true) (hr : r.Within s)
    (hf : ∀ n, r.form ≠ .parenthesized n) : Dropped env r.label context s := by
  induction s with
  | node l cell cs ih =>
    by_cases hp : ∃ n inner, cell.form = .parenthesized n ∧ cs = [inner]
    · obtain ⟨n, inner, hn, rfl⟩ := hp
      obtain ⟨form, span, nilCheck⟩ := cell
      obtain rfl : form = .parenthesized n := hn
      rw [Term.strip_parenthesized] at ha
      rcases Term.within_node hr with rfl | ⟨c, hc, hrc⟩
      · exact absurd rfl (hf n)
      · obtain rfl := List.mem_singleton.1 hc
        exact .of_child rfl List.mem_cons_self (ih c List.mem_cons_self ha hrc)
    · have hstrip : (Term.node l cell cs).strip = .node l cell cs := by
        unfold Term.strip
        split
        · rename_i n _ _ inner e
          cases e
          exact absurd ⟨n, inner, rfl, rfl⟩ hp
        · rfl
      rw [hstrip] at ha
      exact ⟨_, _, .here, ha, hr.label_mem⟩

/-- Of an assignment to a field of another type lowering keeps the calls in the value. -/
theorem label_mem_lower_value_iff {new l : α} {context : Option TypeHash} {cell : Cell}
    {target value c r : Term α} {op : AssignOp} {a b : NodeId} {g : StaticField}
    (hf : cell.form = .assignment op a b) (ha : accessed? env context target.strip = some g)
    (hn : ([target, value].flatMap Term.labels).Nodup) (hc : c ∈ [target, value])
    (hr : r.Within c) (hpar : ∀ n, r.form ≠ .parenthesized n) (hnew : r.label ≠ new)
    (hvalue : r.Within value → (r.label ∈ (lower env new context value).labels ↔
      ¬ Dropped env r.label context value)) :
    r.label ∈ (lower env new context value).labels ↔
      ¬ Dropped env r.label context (.node l cell [target, value]) := by
  have hcase : cell.form.isCaseLabel = false := by rw [hf]; rfl
  have hctx : cell.form.context context = context := by rw [hf]; rfl
  have hnone : accessed? env context (.node l cell [target, value]) = none :=
    accessed?_eq_none (denotes?_eq_none (by rw [hf]; rfl))
  rw [dropped_iff_child hn hcase hnone hc hr.label_mem, hctx]
  simp only [List.mem_cons, List.not_mem_nil, or_false] at hc
  rcases hc with rfl | rfl
  · refine iff_of_false (fun hi => ?_) (not_not.2 (dropped_of_strip (by rw [ha]; rfl) hr hpar))
    rcases mem_labels_of_mem_lower hi with he | hi
    · exact hnew he
    · simp only [List.flatMap_cons, List.flatMap_nil, List.append_nil, List.nodup_append] at hn
      exact hn.2.2 _ hr.label_mem _ hi rfl
  · exact hvalue hr

/-- Lowering keeps a method call unless the call is in an access. -/
theorem label_mem_lower_iff {new : α} {context : Option TypeHash} {s r : Term α} (hr : r.Within s)
    {method : MethodRef} {receiver : Option NodeId} {args : List NodeId}
    (hcall : r.form = .methodCall method receiver args) (hn : s.labels.Nodup)
    (hnew : r.label ≠ new) :
    r.label ∈ (lower env new context s).labels ↔ ¬ Dropped env r.label context s := by
  induction s generalizing context with
  | node l cell cs ih =>
    rw [Term.labels_node, List.nodup_cons] at hn
    obtain ⟨hl, hcs⟩ := hn
    have hpar (n : NodeId) : r.form ≠ .parenthesized n := fun hp => nomatch hcall.symm.trans hp
    have hrec {c : Term α} (hc : c ∈ cs) {context' : Option TypeHash} (hrc : r.Within c) :
        r.label ∈ (lower env new context' c).labels ↔ ¬ Dropped env r.label context' c :=
      ih c hc hrc ((Term.labels_sublist_of_mem hc).nodup hcs)
    have hne {c : Term α} (hc : c ∈ cs) (hrc : r.Within c) : r.label ≠ l := fun he =>
      hl (he ▸ (Term.labels_sublist_of_mem hc).subset hrc.label_mem)
    -- a call that is not the top term is in a child
    have hchild (hf : ∀ m o as, cell.form ≠ .methodCall m o as) : ∃ c ∈ cs, r.Within c := by
      rcases Term.within_node hr with rfl | h
      · exact absurd hcall (hf _ _ _)
      · exact h
    have hrole := roleOf_role env context (.node l cell cs)
    generalize hk : role env context (.node l cell cs) = k at hrole
    cases hrole with
    | caseLabel hf =>
      rw [lower_caseLabel hk]
      refine iff_of_true hr.label_mem fun h => ?_
      rcases h.cases with ha | ⟨hf', -⟩
      · rw [accessed?_eq_none (denotes?_eq_none (NodeKind.isAccess_of_isCaseLabel hf))] at ha
        cases ha
      · exact absurd (hf.symm.trans hf') Bool.false_ne_true.symm
    | read ha =>
      rw [lower_read hk]
      refine iff_of_false ?_ (not_not.2 ⟨_, _, .here, by rw [ha]; rfl, hr.label_mem⟩)
      simpa [readTerm, Term.labels_node] using hnew
    | store hf ho ha =>
      obtain ⟨c, hc, hrc⟩ := hchild (by simp [hf])
      rw [lower_store hk, storeTerm, Term.labels_node, List.flatMap_singleton, List.mem_cons,
        or_iff_right hnew]
      exact label_mem_lower_value_iff hf ha hcs hc hrc hpar hnew (hrec (by simp))
    | update hf ho ha =>
      obtain ⟨c, hc, hrc⟩ := hchild (by simp [hf])
      rw [← label_mem_lower_value_iff hf ha hcs hc hrc hpar hnew (hrec (by simp)), lower_update hk]
      simp [referenceTerm, Term.labels_node, hnew, hne hc hrc]
    | step hf ha =>
      obtain ⟨c, hc, hrc⟩ := hchild (by rintro _ _ _ h; rw [h] at hf; cases hf)
      have hcase : cell.form.isCaseLabel = false := NodeKind.isCaseLabel_of_isStep hf
      have hctx : cell.form.context context = context := NodeKind.context_of_isStep hf context
      rw [lower_step hk]
      refine iff_of_false ?_ (not_not.2 (.of_child hcase hc ?_))
      · simp [referenceTerm, Term.labels_node, hnew, hne hc hrc]
      · rw [hctx]
        obtain rfl := List.mem_singleton.1 hc
        exact dropped_of_strip (by rw [ha]; rfl) hrc hpar
    | other hf _ _ ha =>
      rw [lower_other hk, Term.labels_node, List.mem_cons, List.flatMap_map, List.mem_flatMap]
      rcases Term.within_node hr with rfl | ⟨c, hc, hrc⟩
      · refine iff_of_true (.inl rfl) fun h => ?_
        rcases h.cases with htop | ⟨-, c, hc, h⟩
        · rw [ha] at htop
          cases htop
        · exact hl ((Term.labels_sublist_of_mem hc).subset h.mem_labels)
      · rw [or_iff_right (hne hc hrc), dropped_iff_child hcs hf ha hc hrc.label_mem,
          ← hrec hc hrc]
        refine ⟨?_, fun h => ⟨c, hc, h⟩⟩
        rintro ⟨d, hd, hi⟩
        rcases mem_labels_of_mem_lower hi with he | hid
        · exact absurd he hnew
        · rwa [Term.eq_of_mem_labels hcs hc hd hrc.label_mem hid]

/-! ## What a run drops -/

/-- At the position of a name or member the pass looks for what the term stands for. -/
theorem target?_at (env : Environment) {site : Site} {s : Term NodeId} (h : t.At site s) :
    target? env t s.label s.label = accessed? env site.context s := by
  have hnames := Tree.namedVariable?_of_holds h.holds (List.nodup_append.1 h.nodup).1
  cases s with
  | node id cell cs =>
    cases hf : cell.form.isAccess with
    | true =>
      exact target?_eq env h (NodeKind.context_of_isAccess hf) h.holds
        (List.nodup_append.1 h.nodup).1
    | false =>
      rw [denotes?_eq_none hf] at hnames
      rw [accessed?_eq_none (denotes?_eq_none hf), target?, Tree.resolve?, hnames]
      rfl

/-- A reachable node below no case label stands in the program. -/
theorem exists_stands {s : Term NodeId} (h : t.Stores s) {id : NodeId} (hid : t.Reachable id)
    (hcase : ¬ t.UnderCaseLabel id) :
    ∃ site a, t.At site a ∧ a.label = id ∧ Stands a site.context none s ∧ a.WellNamed := by
  obtain ⟨root, hroot, hb⟩ := hid
  obtain rfl := Option.some.inj (h.root.symm.trans hroot)
  induction hb with
  | top => exact ⟨.root, s, h.at_root, rfl, .here, h.named⟩
  | @child id c hb hc ih =>
    have hup : ¬ t.UnderCaseLabel id := by
      rintro ⟨label, top, hlabel, hl, htop, hbelow⟩
      exact hcase ⟨label, top, hlabel, hl, htop, .child hbelow hc⟩
    obtain ⟨site, a, ha, rfl, hs, hn⟩ := ih hup
    cases a with
    | node id cell cs =>
      obtain ⟨kind, hk, hkf, -⟩ := ha.holds.has.kind?
      have hf : cell.form.isCaseLabel = false := by
        rw [← hkf, NodeKind.isCaseLabel_form]
        refine Bool.eq_false_iff.2 fun hl => hcase ⟨id, c, ⟨s.label, hroot, hb⟩, ?_, hc, .top⟩
        rw [hk]
        exact hl
      rw [Term.label_node, ha.holds.has.children] at hc
      obtain ⟨d, hd, rfl⟩ := List.mem_map.1 hc
      obtain ⟨site', hd', hcx⟩ := ha.exists_child hn.names hd
      exact ⟨site', d, hd', rfl, hcx ▸ hs.child hf hd, hn.child d hd⟩

/-- And what stands in the program is below no case label. -/
theorem Stands.exists_at {site : Site} {a s : Term NodeId} {inner context : Option TypeHash}
    (hs : Stands a inner context s) (hc : site.context = context) (h : t.At site s)
    (hn : s.WellNamed) (ht : t.openRegion.Encloses t) (hin : t.openRegion.inside s.label) :
    ∃ site', t.At site' a ∧ site'.context = inner ∧ t.openRegion.inside a.label := by
  induction hs generalizing site with
  | here => exact ⟨site, h, hc, hin⟩
  | @under context l cell cs c hf hm _ ih =>
    obtain ⟨site', h', hcx⟩ := h.exists_child hn.names hm
    obtain ⟨kind, hk, hkf, hch⟩ := h.holds.has.kind?
    refine ih (hcx.symm.trans (by rw [hc])) h' (hn.child c hm) (ht.down hin hk ?_ ?_)
    · rw [← NodeKind.isCaseLabel_form, hkf, hf]
    · rw [hch]
      exact List.mem_map_of_mem hm

/-- Of the stored program exactly those nodes are dropped that are below an access, outside case
labels, to a field that needs accessors. -/
theorem dropped_iff {s : Term NodeId} (h : t.Stores s) {id : NodeId} :
    Dropped env id none s ↔ ∃ a, t.Reachable a ∧ ¬ t.UnderCaseLabel a ∧ t.Below a id ∧
      (target? env t a a).isSome = true := by
  have hcons : t.Consistent := h.linked.consistent
  constructor
  · rintro ⟨a, inner, hs, ha, hi⟩
    obtain ⟨site, hat, rfl, hin⟩ :=
      hs.exists_at rfl h.at_root h.named hcons.encloses (hcons.root_inside h.root)
    have hlt : a.label < t.size := hat.holds.lt_size _ a.label_mem_labels
    obtain ⟨hreach, hcase⟩ := hin.resolve_left (Nat.not_le.2 hlt)
    exact ⟨a.label, hreach, hcase, hat.holds.below_of_mem hi, by rwa [target?_at env hat]⟩
  · rintro ⟨_, hreach, hcase, hb, ha⟩
    obtain ⟨site, a, hat, rfl, hs, -⟩ := exists_stands h hreach hcase
    rw [target?_at env hat] at ha
    exact ⟨a, site.context, hs, ha, hat.holds.mem_of_below hb⟩

/-- No change makes a method call anything else. -/
theorem exists_methodCall_of_changes {n : Nat} {method : MethodRef} {receiver : Option NodeId}
    {args : List NodeId} {k : NodeKind}
    (h : NodeKind.Changes n (.methodCall method receiver args) k) :
    ∃ receiver' args', k = .methodCall method receiver' args' := by
  have hform := h.form_eq rfl
  cases k with
  | methodCall method' receiver' args' =>
    obtain rfl : method' = method := (NodeKind.methodCall.inj hform).1
    exact ⟨receiver', args', rfl⟩
  | _ => cases hform

theorem mem_of_relabel_kept {o s : Term NodeId} (h : o.relabel t.kept = s.relabel t.kept)
    {i : NodeId} (hi : i < t.size) (hm : i ∈ o.labels) : i ∈ s.labels := by
  have hkept : t.kept i ∈ o.labels.map t.kept := List.mem_map_of_mem hm
  rw [← Term.labels_relabel, h, Term.labels_relabel] at hkept
  obtain ⟨j, hj, he⟩ := List.mem_map.1 hkept
  rw [Tree.kept_of_lt hi] at he
  exact Tree.eq_of_kept he ▸ hj

/-- After a run a method call of the program is reachable if and only if it stood in no access to a
field that needs accessors, but for accesses in case labels. It is still a call of that method. -/
theorem kept_call_iff (env : Environment) {t : Tree} (ht : t.WellFormed) :
    ∃ t' k, Pass.staticAccess.run env t = (t', .ok k) ∧
      ∀ id method receiver args, t.Reachable id →
        t.kind? id = some (.methodCall method receiver args) →
        (t'.Reachable id ↔ ∀ a, t.Reachable a → ¬ t.UnderCaseLabel a → t.Below a id →
          target? env t a a = none) ∧
        ∃ receiver' args', t'.kind? id = some (.methodCall method receiver' args') := by
  obtain ⟨s, hs⟩ := ht.exists_stores
  obtain ⟨t', k, o, hrun, ho, -, hrel⟩ := run_stores env hs
  refine ⟨t', k, pass_run hrun, ?_⟩
  intro id method receiver args hid hk
  obtain ⟨p, r, hr, hw, rfl⟩ := hs.exists_of_reachable hid
  obtain ⟨kind, hkind, hform, -⟩ := hr.has_top.kind?
  obtain rfl := Option.some.inj (hkind.symm.trans hk)
  have hlt : r.label < t.size := hs.holds.lt_size _ hw.label_mem
  constructor
  · have hkept : t.kept t.size = none := if_neg (Nat.lt_irrefl _)
    rw [← hkept, ← lower_relabel] at hrel
    have hmem : t'.Reachable r.label ↔ r.label ∈ (lower env t.size none s).labels := by
      constructor
      · exact fun h => mem_of_relabel_kept hrel hlt (ho.mem_of_reachable h)
      · exact fun h => ho.reachable_of_mem (mem_of_relabel_kept hrel.symm hlt h)
    rw [hmem, label_mem_lower_iff hw hform.symm hs.nodup (Nat.ne_of_lt hlt), dropped_iff hs]
    simp only [not_exists, not_and, Bool.not_eq_true, Option.isSome_eq_false_iff,
      Option.isNone_iff_eq_none]
  · obtain ⟨node, hn, hnode⟩ := Option.map_eq_some_iff.1 hk
    have he : t.openRegion.Edits t t' := by
      have he := edits_run env ht.toLinked.consistent
      rwa [pass_run hrun] at he
    obtain ⟨node', hn', -, -, hchanges⟩ := he.kept hn
    obtain ⟨receiver', args', hkind'⟩ := exists_methodCall_of_changes (hnode ▸ hchanges)
    exact ⟨receiver', args', by rw [Tree.kind?, hn', Option.map_some, hkind']⟩

/-! ## A call in the base of an access -/

def countEnv : Environment where
  types := #[{ name := ⟨[], ["D"]⟩, hash := ⟨1⟩ }, { name := ⟨[], ["A"]⟩, hash := ⟨2⟩ }]
  vars := #[
    { name := "count", kind := .field, declaringType := some ⟨1⟩, type := .primitive .int,
      modifiers := { isStatic := true } }]

/-- The type `A` with a method that runs `use(make("a").count)`. -/
def countSample : Tree where
  nodes := #[
    { kind := .literal (.string "a"), parent := some 1 },
    { kind := .methodCall ⟨"make", ⟨1⟩, .anyObject, true⟩ none [0], parent := some 3 },
    { kind := .simpleName "count" (some (.ofVariable 0)), parent := some 3 },
    { kind := .fieldAccess 1 2, parent := some 4 },
    { kind := .methodCall ⟨"use", ⟨2⟩, .primitive .void, true⟩ none [3], parent := some 5 },
    { kind := .expressionStatement 4, parent := some 6 },
    { kind := .block [5], parent := some 7 },
    { kind := .methodDecl ⟨"m", ⟨2⟩, .primitive .void, false⟩ [] (some 6), parent := some 8 },
    { kind := .typeDecl (some ⟨2⟩) [7], parent := some 9 },
    { kind := .compilationUnit "A.java" [8] [] }]
  root := some 9

def countLowered : Tree :=
  (Pass.staticAccess.run countEnv countSample).1

theorem countSample_wellFormed : countSample.WellFormed :=
  Tree.wellFormed_of_isTidy (by decide +kernel)

theorem countSample_reachable {id : NodeId} (h : countSample.Below 6 id) :
    countSample.Reachable id := by
  have htype : countSample.Below 9 8 := .child .top (by decide)
  have hmethod : countSample.Below 9 7 := .child htype (by decide)
  have hbody : countSample.Below 9 6 := .child hmethod (by decide)
  exact ⟨9, rfl, hbody.trans h⟩

theorem countSample_below_call : countSample.Below 6 4 := by
  have hstatement : countSample.Below 6 5 := .child .top (by decide)
  exact .child hstatement (by decide)

/-- The call of `use` is in no access. -/
theorem kept_call_iff_use : countSample.WellFormed ∧ countSample.Reachable 4 ∧
    countSample.kind? 4 = some (.methodCall ⟨"use", ⟨2⟩, .primitive .void, true⟩ none [3]) ∧
    ∃ t' k, Pass.staticAccess.run countEnv countSample = (t', .ok k) ∧ t'.Reachable 4 := by
  have hreach := countSample_reachable countSample_below_call
  obtain ⟨t', k, hrun, hcalls⟩ := kept_call_iff countEnv countSample_wellFormed
  refine ⟨countSample_wellFormed, hreach, rfl, t', k, hrun, (hcalls 4 _ _ _ hreach rfl).1.2 ?_⟩
  intro a ha _ hb
  have hclimbs : countSample.Climbs 4 [5, 6, 7, 8, 9] := ⟨rfl, rfl, rfl, rfl, rfl, rfl⟩
  have hnone : ∀ a ∈ [4, 5, 6, 7, 8, 9], (target? countEnv countSample a a).isNone = true := by
    decide +kernel
  exact Option.isNone_iff_eq_none.1
    (hnone a (countSample_wellFormed.toLinked.mem_of_below hclimbs ha hb))

/-- The call of `make` is gone after the run. -/
theorem base_call_is_lost : countSample.WellFormed ∧ countSample.Reachable 1 ∧
    countSample.kind? 1 = some (.methodCall ⟨"make", ⟨1⟩, .anyObject, true⟩ none [0]) ∧
    (Pass.staticAccess.run countEnv countSample).1 = countLowered ∧
    ¬ countLowered.Reachable 1 := by
  have haccess : countSample.Below 6 3 := .child countSample_below_call (by decide)
  have hreach : countSample.Reachable 1 := countSample_reachable (.child haccess (by decide))
  refine ⟨countSample_wellFormed, hreach, rfl, rfl, ?_⟩
  have hlowered : countLowered.WellFormed := Tree.wellFormed_of_isTidy (by decide +kernel)
  have hparents : countLowered.parent? 1 = some 3 ∧ countLowered.parent? 3 = none := by
    decide +kernel
  have hclimbs : countLowered.Climbs 1 [3] := ⟨hparents.1, hparents.2⟩
  have hroot : countLowered.root = some 9 := by decide +kernel
  rintro ⟨root, hr, hb⟩
  obtain rfl : root = 9 := Option.some.inj (hr.symm.trans hroot)
  have hmem := hlowered.toLinked.mem_of_below hclimbs ⟨9, hroot, .top⟩ hb
  exact absurd hmem (by decide)

end ObjectLowering.StaticAccess
