import Mathlib.Data.List.Induction
import Mathlib.Data.List.Nodup
import ObjectLowering.Symbol.Environment

/-!
# ObjectLowering.Proofs.Environment

What holds of every environment that can be built by adding types and variables.

* `Built.isSome_type?`: the declaring type of every variable is known, since no variable is added
  before its type and no type ever leaves.
* `built_of_distinct`: conversely, any types with distinct hashes and any variables declared by them
  can be added.
-/

namespace ObjectLowering.Environment

/-- The environments that adding types and variables leads to. -/
inductive Built : Environment → Prop where
  | empty : Built .empty
  | register {env env' : Environment} {b : TypeBinding} :
    Built env → env.register b = .ok env' → Built env'
  | declare {env env' : Environment} {v : VariableBinding} {id : VarId} :
    Built env → env.declare v = .ok (id, env') → Built env'

theorem vars_register {env env' : Environment} {b : TypeBinding} (h : env.register b = .ok env') :
    env'.vars = env.vars := by
  obtain ⟨-, rfl⟩ := register_eq_ok_iff.1 h
  rfl

theorem types_declare {env env' : Environment} {v : VariableBinding} {id : VarId}
    (h : env.declare v = .ok (id, env')) : env'.types = env.types := by
  obtain ⟨-, -, rfl⟩ := declare_eq_ok_iff.1 h
  rfl

theorem Built.isSome_type? {env : Environment} (h : env.Built) {id : VarId} {v : VariableBinding}
    {owner : TypeHash} (hv : env.variableAt? id = some v) (ho : v.declaringType = some owner) :
    (env.type? owner).isSome = true := by
  induction h with
  | empty => simp [variableAt?, Environment.empty] at hv
  | register hb hr ih =>
    rw [variableAt?, vars_register hr] at hv
    rw [type?_register hr]
    split
    · rfl
    · exact ih hv
  | @declare env env' w new hb hd ih =>
    rw [type?, types_declare hd]
    rw [variableAt?_declare hd] at hv
    split at hv
    · cases hv
      -- a variable can only be added once its declaring type is known
      exact (declare_eq_ok_iff.1 hd).1 owner ho
    · exact ih hv

theorem type?_eq_none {types : List TypeBinding} {vars : Array VariableBinding} {hash : TypeHash}
    (h : hash ∉ types.map (·.hash)) : type? ⟨types.toArray, vars⟩ hash = none := by
  rw [type?, List.find?_toArray, List.find?_eq_none]
  intro b hb he
  exact h (List.mem_map.2 ⟨b, hb, of_decide_eq_true he⟩)

theorem built_types {types : List TypeBinding} (h : (types.map (·.hash)).Nodup) :
    Built ⟨types.toArray, #[]⟩ := by
  induction types using List.reverseRecOn with
  | nil => exact .empty
  | append_singleton types b ih =>
    rw [List.map_append, List.map_singleton, List.nodup_append] at h
    have hnew : b.hash ∉ types.map (·.hash) := fun hm => h.2.2 _ hm _ (List.mem_singleton_self _) rfl
    refine .register (ih h.1) (b := b) ?_
    rw [register, type?_eq_none hnew, List.push_toArray]
    rfl

/-- Types with distinct hashes and variables declared by them, if at all, can all be added. -/
theorem built_of_distinct {types : List TypeBinding} {vars : List VariableBinding}
    (ht : (types.map (·.hash)).Nodup)
    (hv : ∀ v ∈ vars, ∀ owner ∈ v.declaringType, owner ∈ types.map (·.hash)) :
    Built ⟨types.toArray, vars.toArray⟩ := by
  induction vars using List.reverseRecOn with
  | nil => exact built_types ht
  | append_singleton vars v ih =>
    suffices hd : declare ⟨types.toArray, vars.toArray⟩ v =
        .ok (vars.length, ⟨types.toArray, (vars ++ [v]).toArray⟩) from
      .declare (ih fun w hw => hv w (List.mem_append_left _ hw)) hd
    have hpush : (vars ++ [v]).toArray = vars.toArray.push v := (List.push_toArray ..).symm
    rw [declare, hpush]
    cases ho : v.declaringType with
    | none => rfl
    | some owner =>
      obtain ⟨b, hb, rfl⟩ := List.mem_map.1 (hv v (by simp) owner ho)
      have hs : (type? ⟨types.toArray, vars.toArray⟩ b.hash).isSome = true := by
        rw [type?, List.find?_toArray, List.find?_isSome]
        exact ⟨b, hb, decide_eq_true rfl⟩
      exact if_pos hs

end ObjectLowering.Environment
