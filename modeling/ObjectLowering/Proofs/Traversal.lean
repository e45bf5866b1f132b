import ObjectLowering.Proofs.Searches
import ObjectLowering.Proofs.Walk

/-!
# ObjectLowering.Proofs.Traversal

The ways through a tree, a stack of nodes and a recursive walk, against the recursive pre-order.

* `descendants_eq_cons`: the nodes listed below a node are the node, then what is listed below its
  children in turn.
* `Entered`: a pre-order of the children that record the node above as their parent, without what is
  below skipped nodes.
* `logged`: a visitor with a log of the nodes to which the walk sends it, and of its answers.
  `logs_walkFrom`: the log changes nothing about the walk.
* `logged_walkFrom`: a visitor that only looks is sent to such a pre-order. By induction on the number
  of levels below the node, which the levels of the walk exceed.
* `traversals_preOrder`: stack and walk both follow the pre-order, and where no visit skips anything
  and links agree, it is the same.
-/

namespace ObjectLowering

namespace Tree

variable {t : Tree} {id : NodeId}

/-! ## The stack -/

theorem Acyclic.child (h : t.Acyclic id) {c : NodeId} (hc : c ∈ t.children id) : t.Acyclic c :=
  fun hid hd => h ((Below.top.child hc).trans hid) hd

theorem preOrder_flatMap {ids : List NodeId} (h : ∀ id ∈ ids, t.Acyclic id) :
    t.PreOrder ids (ids.flatMap t.descendants) := by
  induction ids with
  | nil => exact .nil
  | cons id ids ih =>
    obtain ⟨hid, hids⟩ := List.forall_mem_cons.1 h
    exact (preOrder_descendants hid).append (ih hids)

theorem descendants_eq_cons (h : t.Acyclic id) :
    t.descendants id = id :: (t.children id).flatMap t.descendants :=
  (PreOrder.singleton (preOrder_flatMap fun _ hc => h.child hc)).descendants_eq

/-! ## What walks enter -/

/-- The children that record the node as their parent. -/
def ownChildren (t : Tree) (id : NodeId) : List NodeId :=
  (t.children id).filter fun c => t.parent? c = some id

/-- Below the node, all children record the node above them. -/
def LinkedBelow (t : Tree) (id : NodeId) : Prop :=
  ∀ {n c : NodeId}, t.Below id n → c ∈ t.children n → t.parent? c = some n

theorem LinkedBelow.ownChildren_eq (h : t.LinkedBelow id) : t.ownChildren id = t.children id :=
  List.filter_eq_self.2 fun _ hc => decide_eq_true (h .top hc)

theorem LinkedBelow.child (h : t.LinkedBelow id) {c : NodeId} (hc : c ∈ t.children id) :
    t.LinkedBelow c :=
  fun hn hd => h ((Below.top.child hc).trans hn) hd

/-- Nodes in turn, each with its answer, and behind a node that does not answer to skip them what is
entered below its own children. -/
inductive Entered (t : Tree) : List NodeId → List (NodeId × Descend) → Prop where
  | nil : t.Entered [] []
  | skip {id : NodeId} {rest : List NodeId} {others : List (NodeId × Descend)} :
    t.Entered rest others → t.Entered (id :: rest) ((id, .skip) :: others)
  | children {id : NodeId} {rest : List NodeId} {below others : List (NodeId × Descend)} :
    t.Entered (t.ownChildren id) below → t.Entered rest others →
      t.Entered (id :: rest) ((id, .children) :: below ++ others)

namespace Entered

variable {ids ids' : List NodeId} {l l' : List (NodeId × Descend)}

theorem append (h : t.Entered ids l) (h' : t.Entered ids' l') :
    t.Entered (ids ++ ids') (l ++ l') := by
  induction h with
  | nil => exact h'
  | skip _ ih => exact .skip ih
  | children hbelow _ _ ih =>
    rw [List.cons_append, List.append_assoc]
    exact .children hbelow ih

/-- Where nothing is skipped and links agree, all nodes are entered. -/
theorem preOrder (h : t.Entered ids l) (hlinks : ∀ id ∈ ids, t.LinkedBelow id)
    (hall : ∀ v ∈ l, v.2 = .children) : t.PreOrder ids (l.map Prod.fst) := by
  induction h with
  | nil => exact .nil
  | skip => cases hall _ List.mem_cons_self
  | @children id rest below others _ _ ihbelow ih =>
    obtain ⟨hid, hrest⟩ := List.forall_mem_cons.1 hlinks
    rw [hid.ownChildren_eq] at ihbelow
    have hbelow := ihbelow (fun c hc => hid.child hc) fun v hv =>
      hall v (List.mem_cons_of_mem _ (List.mem_append_left _ hv))
    have hothers := ih hrest fun v hv =>
      hall v (List.mem_cons_of_mem _ (List.mem_append_right _ hv))
    rw [List.cons_append, List.map_cons, List.map_append]
    exact hbelow.cons hothers

end Entered

end Tree

/-! ## A log of visits -/

/-- Nodes that a visitor is sent to, each with its answer. -/
abbrev VisitLog := List (NodeId × Descend)

variable {σ α β : Type}

/-- The state where the memory also keeps a log. -/
def WalkState.withLog (s : WalkState σ) (log : VisitLog) : WalkState (σ × VisitLog) :=
  ⟨s.tree, (s.memory, log)⟩

/-- The same steps but for a log that they keep. -/
def Logs (m : WalkM σ α) (m' : WalkM (σ × VisitLog) α) : Prop :=
  ∀ s log, ∃ log', m' (s.withLog log) =
    match m s with
    | .ok a s' => .ok a (s'.withLog log')
    | .error e s' => .error e (s'.withLog log')

namespace Logs

theorem pure (a : α) : Logs (σ := σ) (pure a) (pure a) :=
  fun _ log => ⟨log, rfl⟩

theorem tree : Logs (σ := σ) WalkM.tree WalkM.tree :=
  fun _ log => ⟨log, rfl⟩

theorem bind {m : WalkM σ α} {m' : WalkM (σ × VisitLog) α} {f : α → WalkM σ β}
    {f' : α → WalkM (σ × VisitLog) β} (h : Logs m m') (hf : ∀ a, Logs (f a) (f' a)) :
    Logs (m >>= f) (m' >>= f') := by
  intro s log
  obtain ⟨log', hm⟩ := h s log
  show ∃ log'', EStateM.bind m' f' (s.withLog log) = match EStateM.bind m f s with
    | .ok a s' => .ok a (s'.withLog log'')
    | .error e s' => .error e (s'.withLog log'')
  unfold EStateM.bind
  rw [hm]
  cases m s with
  | ok a s' => exact hf a s' log'
  | error e s' => exact ⟨log', rfl⟩

theorem forM {l : List α} {f : α → WalkM σ PUnit} {f' : α → WalkM (σ × VisitLog) PUnit}
    (hf : ∀ a, Logs (f a) (f' a)) : Logs (l.forM f) (l.forM f') := by
  induction l with
  | nil => exact pure ()
  | cons a l ih => exact (hf a).bind fun _ => ih

end Logs

namespace Visitor

/-- A walk without the log that it keeps. -/
def forgetLog (walk : NodeId → WalkM (σ × VisitLog) Unit) (id : NodeId) : WalkM σ Unit := fun s =>
  match walk id (s.withLog []) with
  | .ok () s' => .ok () ⟨s'.tree, s'.memory.1⟩
  | .error e s' => .error e ⟨s'.tree, s'.memory.1⟩

/-- The visitor with a log of the nodes that the walk sends it to. Visits in walks that it starts
itself are not part of the log. -/
def logged (visit : Visitor σ) : Visitor (σ × VisitLog) := fun walk id s =>
  match visit (forgetLog walk) id ⟨s.tree, s.memory.1⟩ with
  | .ok answer s' => .ok answer (s'.withLog (s.memory.2 ++ [(id, answer)]))
  | .error e s' => .error e (s'.withLog s.memory.2)

theorem logged_run (visit : Visitor σ) (walk : NodeId → WalkM (σ × VisitLog) Unit) (id : NodeId)
    (s : WalkState σ) (log : VisitLog) : visit.logged walk id (s.withLog log) =
      match visit (forgetLog walk) id s with
      | .ok answer s' => .ok answer (s'.withLog (log ++ [(id, answer)]))
      | .error e s' => .error e (s'.withLog log) := rfl

theorem forgetLog_eq {walk : NodeId → WalkM σ Unit} {walk' : NodeId → WalkM (σ × VisitLog) Unit}
    (h : ∀ id, Logs (walk id) (walk' id)) : forgetLog walk' = walk := by
  funext id s
  obtain ⟨log', hrun⟩ := h id s []
  rw [forgetLog, hrun]
  cases walk id s <;> rfl

theorem logs_logged (visit : Visitor σ) {walk : NodeId → WalkM σ Unit}
    {walk' : NodeId → WalkM (σ × VisitLog) Unit} (h : ∀ id, Logs (walk id) (walk' id))
    (id : NodeId) : Logs (visit walk id) (visit.logged walk' id) := by
  intro s log
  rw [logged_run, forgetLog_eq h]
  cases visit walk id s with
  | ok answer s' => exact ⟨log ++ [(id, answer)], rfl⟩
  | error e s' => exact ⟨log, rfl⟩

/-- The log changes nothing about the walk. -/
theorem logs_walkFrom (visit : Visitor σ) (depth : Nat) (id : NodeId) :
    Logs (visit.walkFrom depth id) (visit.logged.walkFrom depth id) := by
  induction depth generalizing id with
  | zero => exact .pure ()
  | succ depth ih =>
    refine (visit.logs_logged ih id).bind fun answer => ?_
    cases answer with
    | skip => exact .pure ()
    | children =>
      refine Logs.tree.bind fun t => .forM fun child => Logs.tree.bind fun t => ?_
      split
      · exact ih child
      · exact .pure ()

/-! ## Visitors that only look -/

variable {visit : Visitor σ} {t : Tree} {id : NodeId}

/-- At no node below `top` does the visitor change the tree or fail, whatever it remembers and however
many levels the walks have that it may start. -/
def Observes (visit : Visitor σ) (t : Tree) (top : NodeId) : Prop :=
  ∀ depth id memory, t.Below top id →
    ∃ answer memory', visit (visit.walkFrom depth) id ⟨t, memory⟩ = .ok answer ⟨t, memory'⟩

theorem Observes.child (h : visit.Observes t id) {c : NodeId} (hc : c ∈ t.children id) :
    visit.Observes t c :=
  fun depth n memory hn => h depth n memory ((Tree.Below.top.child hc).trans hn)

/-- The visit of a visitor that only looks, with its log. -/
theorem Observes.logged_visit (h : visit.Observes t id) (depth : Nat) (memory : σ)
    (log : VisitLog) : ∃ answer memory', visit.logged (visit.logged.walkFrom depth) id
      ⟨t, (memory, log)⟩ = .ok answer ⟨t, (memory', log ++ [(id, answer)])⟩ := by
  obtain ⟨answer, memory', hvisit⟩ := h depth id memory .top
  refine ⟨answer, memory', ?_⟩
  have hrun := visit.logged_run (visit.logged.walkFrom depth) id ⟨t, memory⟩ log
  rw [forgetLog_eq (visit.logs_walkFrom depth), hvisit] at hrun
  exact hrun

/-- The run sends the visitor to the nodes, and below them to what it is to enter. -/
def Enters (m : WalkM (σ × VisitLog) Unit) (t : Tree) (ids : List NodeId) : Prop :=
  ∀ memory log, ∃ memory' entered, t.Entered ids entered ∧
    m ⟨t, (memory, log)⟩ = .ok () ⟨t, (memory', log ++ entered)⟩

theorem enters_walkEach (id : NodeId) {depth : Nat} {cs : List NodeId}
    (h : ∀ c ∈ cs, Enters (visit.logged.walkFrom depth c) t [c]) :
    Enters (visit.logged.walkEach depth id cs) t (cs.filter fun c => t.parent? c = some id) := by
  induction cs with
  | nil =>
    intro memory log
    refine ⟨memory, [], .nil, ?_⟩
    rw [List.append_nil]
    rfl
  | cons c cs ih =>
    obtain ⟨hc, hcs⟩ := List.forall_mem_cons.1 h
    intro memory log
    by_cases hp : t.parent? c = some id
    · obtain ⟨memory₁, entered, hentered, hrun⟩ := hc memory log
      obtain ⟨memory', others, hothers, hrest⟩ := ih hcs memory₁ (log ++ entered)
      refine ⟨memory', entered ++ others, ?_, ?_⟩
      · rw [List.filter_cons_of_pos (by simpa using hp)]
        exact hentered.append hothers
      · rw [walkEach_cons hp hrun, hrest, List.append_assoc]
    · obtain ⟨memory', others, hothers, hrest⟩ := ih hcs memory log
      refine ⟨memory', others, ?_, ?_⟩
      · rwa [List.filter_cons_of_neg (by simpa using hp)]
      · rw [walkEach_cons_of_ne hp, hrest]

/-- One level of a walk. -/
theorem enters_walkFrom_succ {depth : Nat} (hv : visit.Observes t id)
    (h : ∀ c ∈ t.children id, Enters (visit.logged.walkFrom depth c) t [c]) :
    Enters (visit.logged.walkFrom (depth + 1) id) t [id] := by
  intro memory log
  obtain ⟨answer, memory₁, hvisit⟩ := hv.logged_visit depth memory log
  cases answer with
  | skip => exact ⟨memory₁, [(id, .skip)], .skip .nil, walkFrom_of_skip hvisit⟩
  | children =>
    obtain ⟨memory', below, hbelow, hrun⟩ :=
      enters_walkEach id h memory₁ (log ++ [(id, .children)])
    refine ⟨memory', (id, .children) :: below, ?_, ?_⟩
    · have hentered : t.Entered [id] ((id, .children) :: below ++ []) := .children hbelow .nil
      rwa [List.append_nil] at hentered
    · rw [walkFrom_of_children hvisit, hrun, List.append_assoc]
      rfl

/-- A walk with more levels than there are below the node. -/
theorem enters_walkFrom {depth : Nat} (hv : visit.Observes t id) (h : t.HasHeight depth id) :
    Enters (visit.logged.walkFrom (depth + 1) id) t [id] := by
  induction depth generalizing id with
  | zero =>
    have hleaf : t.children id = [] := h
    refine enters_walkFrom_succ hv fun c hc => ?_
    rw [hleaf] at hc
    cases hc
  | succ depth ih => exact enters_walkFrom_succ hv fun c hc => ih (hv.child hc) (h c hc)

theorem enters_walk (hv : visit.Observes t id) (h : t.Acyclic id) :
    Enters (visit.logged.walk id) t [id] := by
  intro memory log
  obtain ⟨depth, hlevels, hsize⟩ : ∃ depth, levels t = depth + 1 ∧ t.size ≤ depth := by
    refine ⟨levels t - 1, ?_, ?_⟩ <;> simp only [levels, UInt32.size] <;> omega
  obtain ⟨memory', entered, hentered, hrun⟩ :=
    enters_walkFrom hv (Tree.hasHeight_of_acyclic h .top (by simpa using hsize)) memory log
  rw [← hlevels] at hrun
  exact ⟨memory', entered, hentered, walk_of_ok hrun⟩

/-- What a walk comes to with a log, it comes to without. -/
theorem walk_of_logged {memory memory' : σ} {log : VisitLog}
    (h : visit.logged.walk id ⟨t, (memory, [])⟩ = .ok () ⟨t, (memory', log)⟩) :
    visit.walk id ⟨t, memory⟩ = .ok () ⟨t, memory'⟩ := by
  rw [walk_run] at h ⊢
  obtain ⟨log', hrun⟩ := visit.logs_walkFrom (levels t) id ⟨t, memory⟩ []
  generalize levels t = depth at h hrun ⊢
  replace hrun := h.symm.trans hrun
  cases hw : visit.walkFrom depth id ⟨t, memory⟩ with
  | ok a s' =>
    rw [hw] at hrun
    cases hrun
    rfl
  | error e s' =>
    rw [hw] at hrun
    cases hrun

end Visitor

/-! ## Both ways -/

/-- Where no node below the first lies below itself, the stack lists the node and then what it lists
below the children in turn. A walk whose visitor only looks ends there, and sends the visitor to that
pre-order, but only to children that record the node above and to nothing below a skipped node: to all
the same nodes where links agree and nothing is skipped. -/
theorem traversals_preOrder {t : Tree} {id : NodeId} (h : t.Acyclic id) :
    (t.Scans [id] (t.descendants id) ∧
      t.descendants id = id :: (t.children id).flatMap t.descendants) ∧
    ∀ {σ : Type} (visit : Visitor σ), visit.Observes t id → ∀ memory : σ, ∃ memory' log,
      visit.logged.walk id ⟨t, (memory, [])⟩ = .ok () ⟨t, (memory', log)⟩ ∧
        visit.walk id ⟨t, memory⟩ = .ok () ⟨t, memory'⟩ ∧ t.Entered [id] log ∧
        (t.LinkedBelow id → (∀ v ∈ log, v.2 = .children) →
          log.map Prod.fst = t.descendants id) := by
  refine ⟨⟨Tree.scans_descendants h, Tree.descendants_eq_cons h⟩, fun visit hv memory => ?_⟩
  obtain ⟨memory', log, hentered, hrun⟩ := Visitor.enters_walk hv h memory []
  rw [List.nil_append] at hrun
  refine ⟨memory', log, hrun, Visitor.walk_of_logged hrun, hentered, fun hlinks hall => ?_⟩
  exact (hentered.preOrder (List.forall_mem_singleton.2 hlinks) hall).descendants_eq.symm

/-- A block that runs `x = 1`. -/
def assignmentBlock : Tree where
  nodes := #[
    { kind := .simpleName "x" none, parent := some 2 },
    { kind := .literal (.int 1), parent := some 2 },
    { kind := .assignment .assign 0 1, parent := some 3 },
    { kind := .expressionStatement 2, parent := some 4 },
    { kind := .block [3] }]

/-- Remembers the labels of the nodes, and skips what is below the nodes with the label `prune`. -/
def recorder (prune : String) : Visitor (List String) := fun _ id => do
  let label := (((← WalkM.tree).kind? id).map (·.label)).getD ""
  WalkM.remember (· ++ [label])
  return if label = prune then .skip else .children

/-- The nodes to which a walk of the block sends a visitor. -/
def visitedIn (visit : Visitor (List String)) : VisitLog :=
  ((visit.logged.walk 4).outcome ⟨assignmentBlock, ([], [])⟩).1.memory.2

theorem traversals_preOrder_recorder :
    assignmentBlock.Acyclic 4 ∧ assignmentBlock.LinkedBelow 4 ∧
      (∀ prune, (recorder prune).Observes assignmentBlock 4) ∧
      (visitedIn (recorder "")).map Prod.fst = assignmentBlock.descendants 4 ∧
      visitedIn (recorder "Assignment") = [(4, .children), (3, .children), (2, .skip)] ∧
      assignmentBlock.Entered [4] [(4, .children), (3, .children), (2, .skip)] := by
  have hscans : assignmentBlock.Scans [4] (assignmentBlock.scan 6 [4]) :=
    Tree.scans_of_scan (by decide)
  have hlinks : assignmentBlock.LinkedBelow 4 := by
    intro n c _ hc
    have hall : ∀ n < assignmentBlock.size, ∀ c ∈ assignmentBlock.children n,
        assignmentBlock.parent? c = some n := by decide
    exact hall n (Tree.lt_size_of_mem_children hc) c hc
  have hlooks (prune : String) : (recorder prune).Observes assignmentBlock 4 :=
    fun _ _ _ _ => ⟨_, _, rfl⟩
  have hacyclic : assignmentBlock.Acyclic 4 := hscans.acyclic
  obtain ⟨-, hvisits⟩ := traversals_preOrder hacyclic
  have hall : visitedIn (recorder "") =
      [(4, .children), (3, .children), (2, .children), (0, .children), (1, .children)] := by
    decide +kernel
  have hpruned : visitedIn (recorder "Assignment") =
      [(4, .children), (3, .children), (2, .skip)] := by
    decide +kernel
  refine ⟨hacyclic, hlinks, hlooks, ?_, hpruned, ?_⟩
  · obtain ⟨labels, log, hrun, -, -, hsame⟩ := hvisits (recorder "") (hlooks "") []
    have hlog : visitedIn (recorder "") = log := by rw [visitedIn, WalkM.outcome_of_ok hrun]
    rw [hlog]
    refine hsame hlinks fun v hv => ?_
    rw [← hlog, hall] at hv
    revert v
    decide
  · obtain ⟨labels, log, hrun, -, hentered, -⟩ := hvisits (recorder "Assignment") (hlooks _) []
    have hlog : visitedIn (recorder "Assignment") = log := by
      rw [visitedIn, WalkM.outcome_of_ok hrun]
    rwa [← hlog, hpruned] at hentered

end ObjectLowering
