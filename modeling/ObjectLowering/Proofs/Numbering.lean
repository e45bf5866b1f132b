import ObjectLowering.Proofs.Additions
import ObjectLowering.Proofs.Forest
import ObjectLowering.Proofs.StaticAccess.Growth
import ObjectLowering.Proofs.Unit.StringPool

/-!
# ObjectLowering.Proofs.Numbering

Nodes, variables and pooled strings have numbers that count up from zero. They can be kept in words of
32 bits as long as there are no more of them than words.

* `FitsWord`: a number is the same when it is kept in a word.
* `Tree.fitsWord_alloc_iff`, `Environment.fitsWord_declare_iff`, `StringPool.fitsWord_add`: whether the
  next number fits.
* `Tree.Call.fitsWord_runAll`, `Environment.fitsWord_afterCalls`, `StringPool.fitsWord_addAll`: so do
  all numbers that lead to something, after no more calls than there are words.
-/

namespace ObjectLowering

/-- Kept in a word of 32 bits, the number is the same. -/
def FitsWord (n : Nat) : Prop :=
  n.toUInt32.toNat = n

theorem fitsWord_iff {n : Nat} : FitsWord n ↔ n < UInt32.size := by
  rw [FitsWord, Nat.toUInt32_eq, UInt32.toNat_ofNat']
  exact ⟨fun h => h ▸ Nat.mod_lt n (by decide), Nat.mod_eq_of_lt⟩

/-- Of no more entries than words, each is found under a number that fits. -/
theorem fitsWord_of_getElem? {α : Type} {l : List α} {i : Nat} {a : α} (hi : l[i]? = some a)
    (hlength : l.length ≤ UInt32.size) : FitsWord i :=
  fitsWord_iff.2 (Nat.lt_of_lt_of_le (List.getElem?_eq_some_iff.1 hi).1 hlength)

/-! ## Nodes -/

namespace Tree

theorem fitsWord_alloc_iff {t : Tree} {kind : NodeKind} {span : Span} :
    FitsWord (t.alloc kind span).1 ↔ t.size < UInt32.size :=
  fitsWord_iff

namespace Call

theorem size_edit {t : Tree} {edited : Except TreeError Tree}
    (h : ∀ t', edited = .ok t' → t'.size = t.size) : (edit t edited).1.size = t.size := by
  cases edited with
  | ok t' => exact h t' rfl
  | error e => rfl

/-- A call makes one node at most. -/
theorem size_run (t : Tree) (call : Call) : (call.run t).1.size ≤ t.size + 1 := by
  cases call with
  | alloc kind span => exact Nat.le_of_eq (t.size_alloc kind span)
  | replace old new => exact Nat.le_succ_of_le (Nat.le_of_eq (size_edit fun _ => size_of_replace))
  | convert id => exact Nat.le_succ_of_le (Nat.le_of_eq (t.size_convertFrom _ id))
  | mark id nilCheck =>
    exact Nat.le_succ_of_le (Nat.le_of_eq (size_edit fun _ => size_of_setNilCheck))

theorem size_runAll (t : Tree) (calls : List Call) :
    (runAll t calls).size ≤ t.size + calls.length := by
  induction calls generalizing t with
  | nil => exact Nat.le_refl _
  | cons call calls ih =>
    have hrest := ih (call.run t).1
    have hfirst := call.size_run t
    rw [List.length_cons]
    exact Nat.le_trans hrest (by omega)

/-- After no more calls than there are words, the number of every node fits. -/
theorem fitsWord_runAll {calls : List Call} (h : calls.length ≤ UInt32.size) {id : NodeId} {node : Node}
    (hnode : (runAll .empty calls).node? id = some node) : FitsWord id := by
  have hsize : (runAll .empty calls).size ≤ 0 + calls.length := size_runAll .empty calls
  rw [node?, ← Array.getElem?_toList] at hnode
  refine fitsWord_of_getElem? hnode ?_
  rw [Array.length_toList]
  exact Nat.le_trans hsize (by omega)

end Call

end Tree

/-! ## Variables -/

namespace Environment

theorem fitsWord_declare_iff {env env' : Environment} {v : VariableBinding} {id : VarId}
    (h : env.declare v = .ok (id, env')) : FitsWord id ↔ env.vars.size < UInt32.size := by
  obtain ⟨-, rfl, -⟩ := declare_eq_ok_iff.1 h
  exact fitsWord_iff

theorem length_accepted (env : Environment) (calls : List Addition) :
    (accepted env calls).length ≤ calls.length := by
  induction calls generalizing env with
  | nil => exact Nat.le_refl _
  | cons a calls ih =>
    rw [accepted]
    split
    · exact Nat.succ_le_succ (ih _)
    · exact Nat.le_succ_of_le (ih env)

/-- After no more calls than there are words, the number of every variable fits. -/
theorem fitsWord_afterCalls {calls : List Addition} (h : calls.length ≤ UInt32.size) {id : VarId}
    {v : VariableBinding} (hv : (empty.afterCalls calls).variableAt? id = some v) : FitsWord id := by
  have hvars : (empty.afterCalls calls).vars.toList =
      (accepted empty calls).filterMap (·.addedVariable?) := (stored_afterCalls empty calls).2
  rw [variableAt?, ← Array.getElem?_toList, hvars] at hv
  refine fitsWord_of_getElem? hv ?_
  exact Nat.le_trans (List.length_filterMap_le _ _) (Nat.le_trans (length_accepted empty calls) h)

end Environment

/-! ## Strings -/

namespace StringPool

/-- The number of a string fits as long as there is a word for one more. -/
theorem fitsWord_add {p : StringPool} (h : p.size < UInt32.size) (text : String) :
    FitsWord (p.add text).1 := by
  unfold add
  split
  · rename_i id hid
    have hget := id?_eq_some_iff.1 hid
    rw [get?_eq_getElem?] at hget
    exact fitsWord_of_getElem? hget (Array.length_toList ▸ Nat.le_of_lt h)
  · exact fitsWord_iff.2 h

/-- Of no more literals than there are words, the number of every one fits. -/
theorem fitsWord_addAll {texts : List String} (h : texts.length ≤ UInt32.size) {text : String} {id : Nat}
    (hid : (empty.addAll texts).id? text = some id) : FitsWord id := by
  have hget := id?_eq_some_iff.1 hid
  rw [get?_eq_getElem?, toList_addAll_empty] at hget
  refine fitsWord_of_getElem? hget (Nat.le_trans ?_ h)
  exact (nodup_eraseDups texts).length_le_of_subset fun a => List.mem_eraseDups.1

end StringPool

end ObjectLowering
