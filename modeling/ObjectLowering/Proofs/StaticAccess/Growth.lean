import ObjectLowering.Proofs.Region
import ObjectLowering.Proofs.Visits
import ObjectLowering.Lowering.StaticAccess

/-!
# ObjectLowering.Proofs.StaticAccess.Growth

How many nodes the pass makes for what it replaces.

* `Makes`: steps that make so many nodes and count so many replacements, if they succeed.
* `Grows`: for every replacement the tree has grown by one node or two.
* `grows_visit`: a visit keeps to that, apart from the walk that it may end with.
* `grows_visits`: and so does every walk, by induction on its visits.
-/

namespace ObjectLowering

namespace Tree

variable {t t' : Tree} {id : NodeId}

theorem size_of_replace {old new : NodeId} (h : t.replace old new = .ok t') :
    t'.size = t.size := by
  obtain ⟨parent, k, kind, -, -, -, rfl⟩ := Region.replace_eq_ok h
  simp

theorem size_of_setNilCheck {nilCheck : Bool} (h : t.setNilCheck id nilCheck = .ok t') :
    t'.size = t.size := by
  rw [setNilCheck, modify] at h
  cases hn : t.node id with
  | error e =>
    rw [hn] at h
    cases h
  | ok node =>
    rw [hn] at h
    cases h
    exact size_update ..

theorem size_convertFrom (t : Tree) (depth : Nat) (id : NodeId) :
    (t.convertFrom depth id).1.size = t.size := by
  induction depth generalizing t id with
  | zero => rfl
  | succ depth ih =>
    rw [convertFrom]
    cases hc : t.convertOne id with
    | error e => rfl
    | ok t' =>
      obtain ⟨qualifier, name, -, rfl⟩ := Region.convertOne_eq_ok hc
      dsimp only
      split
      · rw [ih, size_update]
      · exact size_update ..

end Tree

namespace StaticAccess

variable {α β : Type} {env : Environment} {m : AccessM α} {s s' s₁ : WalkState Nat} {a : α}
  {nodes replaced : Nat}

/-! ## Steps of the pass -/

/-- If the steps succeed, there are so many more nodes and replacements. -/
def Makes (m : AccessM α) (nodes replaced : Nat) : Prop :=
  ∀ s a s', m s = .ok a s' →
    s'.tree.size = s.tree.size + nodes ∧ s'.memory = s.memory + replaced

theorem makes_pure (a : α) : Makes (pure a) 0 0 := by
  rintro s _ _ ⟨⟩
  exact ⟨rfl, rfl⟩

theorem makes_tree : Makes WalkM.tree 0 0 := by
  rintro s _ _ ⟨⟩
  exact ⟨rfl, rfl⟩

theorem Makes.bind {f : α → AccessM β} {nodes' replaced' : Nat} (h : Makes m nodes replaced)
    (hf : ∀ a, Makes (f a) nodes' replaced') :
    Makes (m >>= f) (nodes + nodes') (replaced + replaced') := by
  intro s b s' hrun
  obtain ⟨a, s₁, hm, hfa⟩ := WalkM.bind_eq_ok hrun
  have hfirst := h s a s₁ hm
  have hrest := hf a s₁ b s' hfa
  omega

/-- The sums that `bind` leaves, summed up. -/
theorem Makes.total {nodes' replaced' : Nat} (h : Makes m nodes replaced) (hn : nodes = nodes')
    (hr : replaced = replaced') : Makes m nodes' replaced' :=
  hn ▸ hr ▸ h

theorem makes_alloc (kind : NodeKind) (span : Span) : Makes (WalkM.alloc kind span) 1 0 := by
  rintro s _ _ ⟨⟩
  exact ⟨Tree.size_alloc .., rfl⟩

theorem makes_add (kind : NodeKind) : Makes (WalkM.add kind) 1 0 := by
  rintro s _ _ ⟨⟩
  exact ⟨Tree.size_alloc .., rfl⟩

theorem makes_edit {change : Tree → Except TreeError Tree}
    (h : ∀ {t t'}, change t = .ok t' → t'.size = t.size) : Makes (WalkM.edit change) 0 0 := by
  intro s _ s' hrun
  rw [WalkM.edit, WalkM.bind_of_ok (WalkM.tree_run s)] at hrun
  cases hc : change s.tree with
  | error e =>
    rw [hc] at hrun
    cases hrun
  | ok t =>
    rw [hc] at hrun
    cases hrun
    exact ⟨h hc, rfl⟩

theorem makes_editPartly {change : Tree → Tree × Except TreeError Unit}
    (h : ∀ t, (change t).1.size = t.size) : Makes (WalkM.editPartly change) 0 0 := by
  intro s _ s' hrun
  rw [WalkM.editPartly, WalkM.bind_of_ok (WalkM.tree_run s)] at hrun
  have hsize := h s.tree
  generalize change s.tree = result at hrun hsize
  obtain ⟨t, outcome⟩ := result
  cases outcome with
  | error e => cases hrun
  | ok u =>
    cases hrun
    exact ⟨hsize, rfl⟩

theorem makes_substitute (old new : NodeId) : Makes (substitute old new) 0 1 := by
  have hcount : Makes (WalkM.remember (· + 1)) 0 1 := by
    rintro s _ _ ⟨⟩
    exact ⟨rfl, rfl⟩
  exact (makes_edit Tree.size_of_replace).bind fun _ => hcount

theorem makes_inheritNilCheck (old new : NodeId) : Makes (inheritNilCheck old new) 0 0 := by
  have hcheck (t : Tree) : Makes (if t.hasNilCheck old then WalkM.edit (·.setNilCheck new true)
      else pure () : AccessM Unit) 0 0 := by
    split
    · exact makes_edit Tree.size_of_setNilCheck
    · exact makes_pure ()
  exact (makes_tree.bind hcheck).total rfl rfl

theorem makes_newRead (field : StaticField) (expression : NodeId) :
    Makes (newRead field expression) 1 0 :=
  (makes_tree.bind fun _ => (makes_alloc _ _).bind fun _ =>
    (makes_inheritNilCheck _ _).bind fun _ => makes_pure _).total rfl rfl

theorem makes_newReference (field : StaticField) (expression : NodeId) :
    Makes (newReference field expression) 2 0 :=
  (makes_tree.bind fun _ => (makes_alloc _ _).bind fun _ => (makes_add _).bind fun _ =>
    (makes_inheritNilCheck _ _).bind fun _ => makes_pure _).total rfl rfl

theorem makes_substituteRead (old : NodeId) (field : StaticField) (expression : NodeId)
    (d : Descend) : Makes (do substitute old (← newRead field expression); return d) 1 1 :=
  ((makes_newRead field expression).bind fun _ => (makes_substitute _ _).bind fun _ =>
    makes_pure _).total rfl rfl

theorem makes_substituteReference (old : NodeId) (field : StaticField) (expression : NodeId)
    (d : Descend) : Makes (do substitute old (← newReference field expression); return d) 2 1 :=
  ((makes_newReference field expression).bind fun _ => (makes_substitute _ _).bind fun _ =>
    makes_pure _).total rfl rfl

theorem makes_storeBySetter (assignment value : NodeId) (field : StaticField) :
    Makes (storeBySetter (fun _ => pure ()) assignment value field) 1 1 :=
  (makes_tree.bind fun _ => (makes_alloc _ _).bind fun _ => (makes_substitute _ _).bind fun _ =>
    (makes_pure ()).bind fun _ => makes_pure _).total rfl rfl

/-! ## Visits -/

/-- For every replacement counted between the states there is one new node, or there are two. -/
def Grows (s s' : WalkState Nat) : Prop :=
  s.tree.size + s'.memory ≤ s'.tree.size + s.memory ∧
    s'.tree.size + 2 * s.memory ≤ s.tree.size + 2 * s'.memory

theorem Grows.refl (s : WalkState Nat) : Grows s s :=
  ⟨Nat.le_refl _, Nat.le_refl _⟩

theorem Grows.trans (h : Grows s s₁) (h' : Grows s₁ s') : Grows s s' := by
  obtain ⟨hlow, hhigh⟩ := h
  obtain ⟨hlow', hhigh'⟩ := h'
  exact ⟨by omega, by omega⟩

theorem Grows.size_le (h : Grows s s') : s.tree.size ≤ s'.tree.size := by
  obtain ⟨hlow, hhigh⟩ := h
  omega

theorem Grows.memory_le (h : Grows s s') : s.memory ≤ s'.memory := by
  obtain ⟨hlow, hhigh⟩ := h
  omega

/-- If the steps succeed, the tree has grown so. -/
def Growing (m : AccessM α) : Prop :=
  ∀ s a s', m s = .ok a s' → Grows s s'

theorem Makes.growing (h : Makes m nodes replaced) (hlow : replaced ≤ nodes)
    (hhigh : nodes ≤ 2 * replaced) : Growing m := by
  intro s a s' hrun
  have hmade := h s a s' hrun
  exact ⟨by omega, by omega⟩

theorem growing_pure (a : α) : Growing (pure a) :=
  (makes_pure a).growing (Nat.le_refl _) (Nat.le_refl _)

theorem growing_throw (e : TreeError) : Growing (throw e : AccessM α) :=
  nofun

/-- Steps that depend on the tree. -/
theorem growing_tree {f : Tree → AccessM α} (h : ∀ t, Growing (f t)) :
    Growing (WalkM.tree >>= f) := by
  intro s a s' hrun
  rw [WalkM.bind_of_ok (WalkM.tree_run s)] at hrun
  exact h s.tree s a s' hrun

theorem growing_visitName (id : NodeId) : Growing (visitName env id) := by
  refine growing_tree fun t => ?_
  split
  · exact growing_pure _
  · rename_i field _
    have hread := makes_substituteRead id field id .skip
    split
    · rename_i qualified _
      have hconvert : Makes (WalkM.editPartly (·.convertToFieldAccess qualified)) 0 0 :=
        makes_editPartly fun t => t.size_convertFrom _ _
      exact (hconvert.bind fun _ => hread).growing (by decide) (by decide)
    · exact hread.growing (by decide) (by decide)

theorem growing_visitStep (step operand : NodeId) : Growing (visitStep env step operand) := by
  refine growing_tree fun t => ?_
  dsimp only
  split
  · exact growing_pure _
  · exact (makes_substituteReference operand _ _ .skip).growing (by decide) (by decide)

theorem growing_visitAssignment (assignment : NodeId) (op : AssignOp) (left value : NodeId) :
    Growing (visitAssignment env (fun _ => pure ()) assignment op left value) := by
  refine growing_tree fun t => ?_
  dsimp only
  split
  · exact growing_pure _
  · split
    · exact (makes_storeBySetter assignment value _).growing (by decide) (by decide)
    · exact (makes_substituteReference left _ _ .children).growing (by decide) (by decide)

theorem growing_visit (id : NodeId) : Growing (visit env (fun _ => pure ()) id) := by
  refine growing_tree fun t => ?_
  split
  · exact growing_throw _
  · split
    · exact growing_visitAssignment _ _ _ _
    · exact growing_visitName id
    · exact growing_visitName id
    · exact growing_visitName id
    · exact growing_visitStep _ _
    · split
      · exact growing_visitStep _ _
      · exact growing_pure _
    · exact growing_pure _
    · exact growing_pure _

/-! ## Walks -/

open Visitor

theorem grows_answers {id : NodeId} {d : Descend} (h : (visit env).Answers id s d s') :
    Grows s s' :=
  growing_visit id s d s' (h _)

theorem grows_defers {id next : NodeId} (h : (visit env).Defers id s next s') : Grows s s' :=
  growing_visit id s .skip s' (h _)

theorem grows_visits {depth : Nat} {route : Route} {l : List NodeId}
    (h : (visit env).Visits depth route s l s') : Grows s s' := by
  induction h with
  | skip ha => exact grows_answers ha
  | defer hd _ ih => exact (grows_defers hd).trans ih
  | children ha _ ih => exact (grows_answers ha).trans ih
  | nil => exact .refl _
  | enter _ _ _ ihc ih => exact ihc.trans ih
  | pass _ _ ih => exact ih

end StaticAccess

end ObjectLowering
