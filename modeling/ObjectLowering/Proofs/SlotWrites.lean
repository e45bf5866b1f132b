import ObjectLowering.Proofs.Slots

/-!
# ObjectLowering.Proofs.SlotWrites

Replacing a child slot by slot, where the slots are tried in turn and the first that holds the child is
written.

* `writeChild`: tries the slots of a kind. It gives the kind with what has been written, and says whether
  a slot was found.
* `writeChild_eq`: it writes what `replaceChild?` gives, and nothing if that gives nothing.
* `writeChild_spec`: the slots that are tried are the children, in the same order.
-/

namespace ObjectLowering.NodeKind

/-- Writes a slot if it holds `old`. -/
def writeSlot (old new slot : NodeId) : NodeId × Bool :=
  if slot = old then (new, true) else (slot, false)

def writeOption (old new : NodeId) : Option NodeId → Option NodeId × Bool
  | none => (none, false)
  | some slot => (writeSlot old new slot).map some id

/-- Tries the slots one after the other, up to the first that holds `old`. -/
def writeList (old new : NodeId) : List NodeId → List NodeId × Bool
  | [] => ([], false)
  | slot :: rest =>
    match writeSlot old new slot with
    | (slot, true) => (slot :: rest, true)
    | (slot, false) => (writeList old new rest).map (slot :: ·) id

/-- The second write is tried only if the first has not found its slot. -/
def inTurn {α β : Type} (first : α × Bool) (second : β → β × Bool) (b : β) : (α × β) × Bool :=
  match first with
  | (a, true) => ((a, b), true)
  | (a, false) => (second b).map (a, ·) id

/-- Tries the slots of a kind in turn. -/
def writeChild (old new : NodeId) : NodeKind → NodeKind × Bool
  | compilationUnit source types native =>
    (writeList old new types).map (compilationUnit source · native) id
  | typeDecl type members => (writeList old new members).map (typeDecl type) id
  | fieldDecl field initial => (writeOption old new initial).map (fieldDecl field) id
  | methodDecl method parameters body =>
    (writeOption old new body).map (methodDecl method parameters) id
  | block statements => (writeList old new statements).map block id
  | expressionStatement expression => (writeSlot old new expression).map expressionStatement id
  | localVariable var initial => (writeOption old new initial).map (localVariable var) id
  | returnStatement value => (writeOption old new value).map returnStatement id
  | ifStatement condition thenBranch elseBranch =>
    let branches := inTurn (writeSlot old new condition) (writeSlot old new) thenBranch
    (inTurn branches (writeOption old new) elseBranch).map
      (fun slots => ifStatement slots.1.1 slots.1.2 slots.2) id
  | switchStatement subject statements =>
    (inTurn (writeSlot old new subject) (writeList old new) statements).map
      (fun slots => switchStatement slots.1 slots.2) id
  | switchCase label => (writeOption old new label).map switchCase id
  | breakStatement => (breakStatement, false)
  | assignment op target value =>
    (inTurn (writeSlot old new target) (writeSlot old new) value).map
      (fun slots => assignment op slots.1 slots.2) id
  | simpleName name binding => (simpleName name binding, false)
  | qualifiedName qualifier name =>
    (inTurn (writeSlot old new qualifier) (writeSlot old new) name).map
      (fun slots => qualifiedName slots.1 slots.2) id
  | fieldAccess base name =>
    (inTurn (writeSlot old new base) (writeSlot old new) name).map
      (fun slots => fieldAccess slots.1 slots.2) id
  | methodCall method receiver arguments =>
    (inTurn (writeOption old new receiver) (writeList old new) arguments).map
      (fun slots => methodCall method slots.1 slots.2) id
  | functionCall function arguments =>
    (writeList old new arguments).map (functionCall function) id
  | unary op operand => (writeSlot old new operand).map (unary op) id
  | step op operand => (writeSlot old new operand).map (step op) id
  | binary op left right =>
    (inTurn (writeSlot old new left) (writeSlot old new) right).map
      (fun slots => binary op slots.1 slots.2) id
  | literal value => (literal value, false)
  | parenthesized inner => (writeSlot old new inner).map parenthesized id
  | thisObject => (thisObject, false)

/-- What is there after a write that finds `written?`, and whether it has found anything. -/
def outcome {α : Type} (before : α) (written? : Option α) : α × Bool :=
  (written?.getD before, written?.isSome)

section Outcome

variable {α β : Type}

theorem map_outcome (f : α → β) (a : α) (written? : Option α) :
    (outcome a written?).map f id = outcome (f a) (written?.map f) := by
  cases written? with
  | none => rfl
  | some a' => rfl

theorem inTurn_outcome (a : α) (b : β) (first? : Option α) (second? : β → Option β) :
    inTurn (outcome a first?) (fun b => outcome b (second? b)) b =
      outcome (a, b) ((first?.map (·, b)).or ((second? b).map (a, ·))) := by
  cases first? with
  | some a' => rfl
  | none => exact map_outcome (a, ·) b (second? b)

end Outcome

variable (old new : NodeId)

theorem writeSlot_eq (slot : NodeId) : writeSlot old new slot = outcome slot (swap? old new slot) := by
  unfold writeSlot swap?
  split <;> rfl

theorem writeOption_eq (slot : Option NodeId) :
    writeOption old new slot = outcome slot (swapOption? old new slot) := by
  cases slot with
  | none => rfl
  | some slot =>
    by_cases h : slot = old
    · simp [writeOption, writeSlot, swapOption?, outcome, h]
    · simp [writeOption, writeSlot, swapOption?, outcome, h]

theorem writeList_eq (slots : List NodeId) :
    writeList old new slots = outcome slots (swapList? old new slots) := by
  induction slots with
  | nil => rfl
  | cons slot rest ih =>
    by_cases h : slot = old
    · simp [writeList, writeSlot, swapList?, outcome, h]
    · simp only [writeList, writeSlot, swapList?, if_neg h, ih, map_outcome]

/-- Where a slot is found, the kind is what the replacement gives. Otherwise nothing is written. -/
theorem writeChild_eq (k : NodeKind) :
    k.writeChild old new = outcome k (k.replaceChild? old new) := by
  have hslot : writeSlot old new = fun slot => outcome slot (swap? old new slot) :=
    funext (writeSlot_eq old new)
  have hoption : writeOption old new = fun slot => outcome slot (swapOption? old new slot) :=
    funext (writeOption_eq old new)
  have hlist : writeList old new = fun slots => outcome slots (swapList? old new slots) :=
    funext (writeList_eq old new)
  cases k with
  | breakStatement | simpleName | literal | thisObject => rfl
  | _ =>
    simp only [writeChild, hslot, hoption, hlist, map_outcome, inTurn_outcome, Option.map_or,
      Option.map_map, Option.or_assoc]
    rfl

/-- A slot is found just if it holds a child, and then the first that holds it is written. Nothing else
of the kind changes, and nothing at all if no slot is found. -/
theorem writeChild_spec (k : NodeKind) :
    ((k.writeChild old new).2 = true ↔ old ∈ k.children) ∧
    (∀ before after, k.children = before ++ old :: after → old ∉ before →
      (k.writeChild old new).1.children = before ++ new :: after) ∧
    (old ∉ k.children → (k.writeChild old new).1 = k) ∧
    (k.writeChild old new).1.form = k.form ∧
    k.replaceChild? old new =
      if (k.writeChild old new).2 then some (k.writeChild old new).1 else none := by
  rw [writeChild_eq]
  by_cases h : old ∈ k.children
  · obtain ⟨k', hk, hform, hchildren⟩ := replaceChild?_of_mem new h
    rw [hk]
    refine ⟨by simp [outcome, h], ?_, fun hn => absurd h hn, hform, rfl⟩
    intro before after hsplit hbefore
    show k'.children = _
    rw [hchildren, hsplit, List.replace_append_right hbefore, List.replace_cons_self]
  · rw [replaceChild?_of_not_mem new h]
    refine ⟨by simp [outcome, h], ?_, fun _ => rfl, rfl, rfl⟩
    intro before after hsplit _
    exact absurd (hsplit ▸ List.mem_append_right before List.mem_cons_self) h

/-- A call whose receiver is the node 7, and which has the node 4 as first and as last argument. -/
def repeatedArgument : NodeKind :=
  methodCall { name := "join:with:and:", declaringType := ⟨1⟩, returnType := .anyObject } (some 7)
    [4, 5, 4]

/-- Of two slots that hold the node, the first is written. -/
theorem writeChild_spec_repeated :
    repeatedArgument.children = [7] ++ 4 :: [5, 4] ∧ 4 ∉ [7] ∧
    (repeatedArgument.writeChild 4 9).2 = true ∧
    (repeatedArgument.writeChild 4 9).1.children = [7, 9, 5, 4] ∧
    3 ∉ repeatedArgument.children ∧ (repeatedArgument.writeChild 3 9).1 = repeatedArgument := by
  have hfirst : 4 ∉ [7] := by simp
  have habsent : 3 ∉ repeatedArgument.children := by simp [repeatedArgument, children]
  obtain ⟨hfound, hwritten, -⟩ := writeChild_spec 4 9 repeatedArgument
  obtain ⟨-, -, hkept, -⟩ := writeChild_spec 3 9 repeatedArgument
  refine ⟨rfl, hfirst, hfound.2 ?_, hwritten [7] [5, 4] rfl hfirst, habsent, hkept habsent⟩
  simp [repeatedArgument, children]

end ObjectLowering.NodeKind
