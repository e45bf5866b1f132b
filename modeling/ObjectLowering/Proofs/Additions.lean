import ObjectLowering.Proofs.Environment

/-!
# ObjectLowering.Proofs.Additions

An environment to which types and variables are added one after the other, where some are refused.

* `Addition.addInPlace`: one call, which first checks and then writes. `Addition.addInPlace_run`: it
  leaves what `register` and `declare` give, and has written nothing when they fail.
* `Addition.add_eq_ok`, `Addition.add_eq_error_iff`: what one call can do.
* `Addition.FoundUnder.afterCall`: what can be found is found after one more call.
* `Intact`: types are known by their own hashes, each once, and so are the types that declare variables.
* `stored_afterCalls`: what is stored is what was accepted, in the order of the calls.
* `additions_kept`: after any calls the environment is intact, and the next one is either refused, which
  changes nothing, or leads to what it adds whatever comes after it.
-/

namespace ObjectLowering.Environment

theorem register_eq_error_iff {env : Environment} {b : TypeBinding} {e : RegistrationError} :
    env.register b = .error e ↔
      (env.type? b.hash).isSome = true ∧ e = .duplicateType b.name.text := by
  unfold register
  cases h : env.type? b.hash with
  | none => simp
  | some b' => simp [eq_comm]

theorem declare_eq_error_iff {env : Environment} {v : VariableBinding} {e : RegistrationError} :
    env.declare v = .error e ↔ ∃ owner, v.declaringType = some owner ∧ env.type? owner = none ∧
      e = .unknownDeclaringType v.name owner := by
  unfold declare
  cases ho : v.declaringType with
  | none => simp
  | some owner =>
    cases h : env.type? owner with
    | none => simp [h, eq_comm]
    | some b => simp [h]

/-! ## Calls -/

/-- What can be added to an environment. -/
inductive Addition where
  | ofType (b : TypeBinding)
  | ofVariable (v : VariableBinding)

/-- Adds a type in place. A failure keeps what has been written before it. -/
def registerInPlace (b : TypeBinding) : EStateM RegistrationError Environment TypeHash := do
  if ((← get).type? b.hash).isSome then
    throw (.duplicateType b.name.text)
  modify fun env => { env with types := env.types.push b }
  return b.hash

/-- Adds a variable in place. -/
def declareInPlace (v : VariableBinding) : EStateM RegistrationError Environment VarId := do
  if let some owner := v.declaringType then
    if ((← get).type? owner).isNone then
      throw (.unknownDeclaringType v.name owner)
  let id := (← get).vars.size
  modify fun env => { env with vars := env.vars.push v }
  return id

theorem registerInPlace_run (env : Environment) (b : TypeBinding) :
    (registerInPlace b).run env =
      match env.register b with
      | .ok env' => .ok b.hash env'
      | .error e => .error e env := by
  unfold registerInPlace register
  by_cases h : (env.type? b.hash).isSome = true
  · simp [h]
  · simp only [bind_pure_comp, EStateM.run_bind, EStateM.run_get, h, Bool.false_eq_true, if_false]
    rfl

theorem declareInPlace_run (env : Environment) (v : VariableBinding) :
    (declareInPlace v).run env =
      match env.declare v with
      | .ok (id, env') => .ok id env'
      | .error e => .error e env := by
  unfold declareInPlace declare
  cases ho : v.declaringType with
  | none =>
    simp only [bind_pure_comp, EStateM.run_bind, EStateM.run_get]
    rfl
  | some owner =>
    cases h : env.type? owner with
    | none => simp [h]
    | some b =>
      simp only [bind_pure_comp, EStateM.run_bind, EStateM.run_get, h, Option.isNone_some,
        Bool.false_eq_true, if_false, Option.isSome_some, if_true]
      rfl

namespace Addition

/-- Gives back what the addition is found under: the hash of a type, the number of a variable. -/
def addInPlace : Addition → EStateM RegistrationError Environment Binding
  | ofType b => do return .ofType (← registerInPlace b)
  | ofVariable v => do return .ofVariable (← declareInPlace v)

/-- The same, with the environment that results. -/
def add (env : Environment) : Addition → Except RegistrationError (Binding × Environment)
  | ofType b => (env.register b).map (.ofType b.hash, ·)
  | ofVariable v => (env.declare v).map fun added => (.ofVariable added.1, added.2)

theorem addInPlace_run (a : Addition) (env : Environment) :
    a.addInPlace.run env =
      match a.add env with
      | .ok (key, env') => .ok key env'
      | .error e => .error e env := by
  cases a with
  | ofType b =>
    rw [addInPlace, EStateM.run_bind, registerInPlace_run, add]
    cases env.register b <;> rfl
  | ofVariable v =>
    rw [addInPlace, EStateM.run_bind, declareInPlace_run, add]
    cases env.declare v <;> rfl

/-- The addition is refused: the type is there already, or the type that declares the variable is not. -/
inductive Refused (env : Environment) : Addition → RegistrationError → Prop where
  | duplicate {b : TypeBinding} : (env.type? b.hash).isSome = true →
      Refused env (ofType b) (.duplicateType b.name.text)
  | unknown {v : VariableBinding} {owner : TypeHash} : v.declaringType = some owner →
      env.type? owner = none → Refused env (ofVariable v) (.unknownDeclaringType v.name owner)

/-- What has been added is found under what was given back for it. -/
inductive FoundUnder (env : Environment) : Addition → Binding → Prop where
  | ofType {b : TypeBinding} {hash : TypeHash} : env.type? hash = some b →
      FoundUnder env (ofType b) (.ofType hash)
  | ofVariable {v : VariableBinding} {id : VarId} : env.variableAt? id = some v →
      FoundUnder env (ofVariable v) (.ofVariable id)

/-- The hash of a type, or the next number of a variable. -/
def key (next : VarId) : Addition → Binding
  | ofType b => .ofType b.hash
  | ofVariable _ => .ofVariable next

def addedType? : Addition → Option TypeBinding
  | ofType b => some b
  | ofVariable _ => none

def addedVariable? : Addition → Option VariableBinding
  | ofType _ => none
  | ofVariable v => some v

theorem map_eq_error_iff {ε α β : Type} {x : Except ε α} {f : α → β} {e : ε} :
    x.map f = .error e ↔ x = .error e := by
  cases x with
  | ok a => simp [Except.map]
  | error e' => simp [Except.map]

theorem add_eq_error_iff {a : Addition} {env : Environment} {e : RegistrationError} :
    a.add env = .error e ↔ a.Refused env e := by
  cases a with
  | ofType b =>
    rw [add, map_eq_error_iff, register_eq_error_iff]
    constructor
    · rintro ⟨hb, rfl⟩
      exact .duplicate hb
    · rintro ⟨hb⟩
      exact ⟨hb, rfl⟩
  | ofVariable v =>
    rw [add, map_eq_error_iff, declare_eq_error_iff]
    constructor
    · rintro ⟨owner, ho, hb, rfl⟩
      exact .unknown ho hb
    · intro h
      cases h with
      | unknown ho hb => exact ⟨_, ho, hb, rfl⟩

/-- An accepted type has a new hash, and an accepted variable gets the next number. -/
theorem add_eq_ok {a : Addition} {env env' : Environment} {given : Binding}
    (h : a.add env = .ok (given, env')) :
    (∃ b, a = ofType b ∧ given = .ofType b.hash ∧ env.register b = .ok env') ∨
      ∃ v, a = ofVariable v ∧ given = .ofVariable env.vars.size ∧
        env.declare v = .ok (env.vars.size, env') := by
  cases a with
  | ofType b =>
    cases hb : env.register b with
    | error e => simp [add, hb, Except.map] at h
    | ok env'' =>
      simp only [add, hb, Except.map, Except.ok.injEq, Prod.mk.injEq] at h
      obtain ⟨rfl, rfl⟩ := h
      exact .inl ⟨b, rfl, rfl, hb⟩
  | ofVariable v =>
    cases hv : env.declare v with
    | error e => simp [add, hv, Except.map] at h
    | ok added =>
      obtain ⟨id, env''⟩ := added
      simp only [add, hv, Except.map, Except.ok.injEq, Prod.mk.injEq] at h
      obtain ⟨rfl, rfl⟩ := h
      obtain rfl : id = env.vars.size := (declare_eq_ok_iff.1 hv).2.1
      exact .inr ⟨v, rfl, rfl, hv⟩

end Addition

/-! ## Any number of calls -/

/-- The environment after one more call, whether it is accepted or not. -/
def afterCall (env : Environment) (a : Addition) : Environment :=
  match a.add env with
  | .ok (_, env') => env'
  | .error _ => env

/-- The environment after calls one after the other. -/
def afterCalls (env : Environment) (calls : List Addition) : Environment :=
  calls.foldl afterCall env

/-- The calls that are accepted. -/
def accepted (env : Environment) : List Addition → List Addition
  | [] => []
  | a :: rest =>
    match a.add env with
    | .ok (_, env') => a :: accepted env' rest
    | .error _ => accepted env rest

/-- An environment of which the parts fit together. -/
structure Intact (env : Environment) : Prop where
  /-- The type that declares a variable is known. -/
  owner : ∀ id v x, env.variableAt? id = some v → v.declaringType = some x →
    (env.type? x).isSome = true
  hash : ∀ x b, env.type? x = some b → b.hash = x
  found : ∀ b ∈ env.types, env.type? b.hash = some b
  distinct : (env.types.toList.map (·.hash)).Nodup

theorem Built.afterCall {env : Environment} (h : env.Built) (a : Addition) :
    (env.afterCall a).Built := by
  unfold Environment.afterCall
  split
  · rename_i hadd
    rcases Addition.add_eq_ok hadd with ⟨b, -, -, hb⟩ | ⟨v, -, -, hv⟩
    · exact .register h hb
    · exact .declare h hv
  · exact h

theorem Built.afterCalls {env : Environment} (h : env.Built) (calls : List Addition) :
    (env.afterCalls calls).Built := by
  induction calls generalizing env with
  | nil => exact h
  | cons a rest ih => exact ih (h.afterCall a)

theorem Built.distinct {env : Environment} (h : env.Built) :
    (env.types.toList.map (·.hash)).Nodup := by
  induction h with
  | empty => exact List.nodup_nil
  | @register env env' b _ hr ih =>
    obtain ⟨hnew, rfl⟩ := register_eq_ok_iff.1 hr
    rw [Array.toList_push, List.map_append, List.nodup_append]
    refine ⟨ih, List.nodup_singleton _, ?_⟩
    intro x hx y hy hxy
    obtain ⟨b', hb', rfl⟩ := List.mem_map.1 hx
    rw [List.mem_singleton.1 hy] at hxy
    have hnone := Array.find?_eq_none.1 hnew b' (Array.mem_toList_iff.1 hb')
    exact hnone (decide_eq_true hxy)
  | declare _ hd ih =>
    rw [types_declare hd]
    exact ih

theorem type?_of_mem {env : Environment} (h : (env.types.toList.map (·.hash)).Nodup)
    {b : TypeBinding} (hb : b ∈ env.types) : env.type? b.hash = some b := by
  have hsome : env.type? b.hash ≠ none := fun hnone =>
    Array.find?_eq_none.1 hnone b hb (decide_eq_true rfl)
  obtain ⟨b', hb'⟩ := Option.ne_none_iff_exists'.1 hsome
  have hmem : b' ∈ env.types := Array.mem_of_find?_eq_some hb'
  rw [hb', List.inj_on_of_nodup_map h (Array.mem_toList_iff.2 hmem) (Array.mem_toList_iff.2 hb)
    (type?_hash hb')]

theorem Built.intact {env : Environment} (h : env.Built) : env.Intact where
  owner _ _ _ hv hx := h.isSome_type? hv hx
  hash _ _ hb := type?_hash hb
  found _ hb := type?_of_mem h.distinct hb
  distinct := h.distinct

/-- What can be found is found after one more call. -/
theorem Addition.FoundUnder.afterCall {env : Environment} {a : Addition} {given : Binding}
    (h : a.FoundUnder env given) (next : Addition) : a.FoundUnder (env.afterCall next) given := by
  unfold Environment.afterCall
  split
  · rename_i hadd
    rcases add_eq_ok hadd with ⟨b, -, -, hb⟩ | ⟨v, -, -, hv⟩
    · obtain ⟨hnew, henv⟩ := register_eq_ok_iff.1 hb
      cases h with
      | @ofType b' hash hfound =>
        refine .ofType ?_
        have hne : b.hash ≠ hash := by
          rintro rfl
          rw [hnew] at hfound
          cases hfound
        rw [type?_register hb, if_neg hne]
        exact hfound
      | ofVariable hfound =>
        subst henv
        exact .ofVariable hfound
    · cases h with
      | ofType hfound =>
        refine .ofType ?_
        rw [type?, types_declare hv]
        exact hfound
      | @ofVariable w id hfound =>
        refine .ofVariable ?_
        have hne : id ≠ env.vars.size := by
          rintro rfl
          simp [variableAt?] at hfound
        rw [variableAt?_declare hv, if_neg hne]
        exact hfound
  · exact h

theorem Addition.FoundUnder.afterCalls {env : Environment} {a : Addition} {given : Binding}
    (h : a.FoundUnder env given) (later : List Addition) :
    a.FoundUnder (env.afterCalls later) given := by
  induction later generalizing env with
  | nil => exact h
  | cons next rest ih => exact ih (h.afterCall next)

/-- What has just been added is found. -/
theorem Addition.foundUnder_of_add {env env' : Environment} {a : Addition} {given : Binding}
    (h : a.add env = .ok (given, env')) : a.FoundUnder env' given := by
  rcases add_eq_ok h with ⟨b, rfl, rfl, hb⟩ | ⟨v, rfl, rfl, hv⟩
  · refine .ofType ?_
    rw [type?_register hb, if_pos rfl]
  · refine .ofVariable ?_
    rw [variableAt?_declare hv, if_pos rfl]

/-- What is stored is what was there and what has been accepted, in the order of the calls. -/
theorem stored_afterCalls (env : Environment) (calls : List Addition) :
    (env.afterCalls calls).types.toList =
        env.types.toList ++ (accepted env calls).filterMap (·.addedType?) ∧
      (env.afterCalls calls).vars.toList =
        env.vars.toList ++ (accepted env calls).filterMap (·.addedVariable?) := by
  induction calls generalizing env with
  | nil => simp [afterCalls, accepted]
  | cons a rest ih =>
    show ((env.afterCall a).afterCalls rest).types.toList = _ ∧
      ((env.afterCall a).afterCalls rest).vars.toList = _
    cases h : a.add env with
    | error e =>
      rw [afterCall, accepted, h]
      exact ih env
    | ok added =>
      obtain ⟨given, env'⟩ := added
      obtain ⟨htypes, hvars⟩ := ih env'
      rw [afterCall, accepted, h]
      simp only [htypes, hvars]
      rcases Addition.add_eq_ok h with ⟨b, rfl, -, hb⟩ | ⟨v, rfl, -, hv⟩
      · obtain ⟨-, rfl⟩ := register_eq_ok_iff.1 hb
        simp [Addition.addedType?, Addition.addedVariable?]
      · obtain ⟨-, -, rfl⟩ := declare_eq_ok_iff.1 hv
        simp [Addition.addedType?, Addition.addedVariable?]

/-- After any calls, accepted or not, the environment is intact and holds what was accepted, in the order
of the calls. The next call is refused for a reason, which changes nothing, or it is accepted. Then a
type is given its own hash, a variable the number of those accepted before it, and under this it is
found, whatever calls come later. -/
theorem additions_kept (calls : List Addition) :
    (empty.afterCalls calls).Intact ∧
    (empty.afterCalls calls).types.toList = (accepted empty calls).filterMap (·.addedType?) ∧
    (empty.afterCalls calls).vars.toList = (accepted empty calls).filterMap (·.addedVariable?) ∧
    ∀ a : Addition,
      match a.addInPlace.run (empty.afterCalls calls) with
      | .error e env => a.add (empty.afterCalls calls) = .error e ∧
          a.Refused (empty.afterCalls calls) e ∧ env = empty.afterCalls calls ∧
          env = empty.afterCalls (calls ++ [a])
      | .ok given env => a.add (empty.afterCalls calls) = .ok (given, env) ∧
          (∀ e, ¬ a.Refused (empty.afterCalls calls) e) ∧ env = empty.afterCalls (calls ++ [a]) ∧
          given = a.key ((accepted empty calls).filterMap (·.addedVariable?)).length ∧
          ∀ later, a.FoundUnder (empty.afterCalls (calls ++ a :: later)) given := by
  have htypes : (empty.afterCalls calls).types.toList =
      (accepted empty calls).filterMap (·.addedType?) := (stored_afterCalls empty calls).1
  have hvars : (empty.afterCalls calls).vars.toList =
      (accepted empty calls).filterMap (·.addedVariable?) := (stored_afterCalls empty calls).2
  refine ⟨(Built.empty.afterCalls calls).intact, htypes, hvars, fun a => ?_⟩
  rw [Addition.addInPlace_run]
  have hnext : empty.afterCalls (calls ++ [a]) = (empty.afterCalls calls).afterCall a := by
    rw [afterCalls, List.foldl_concat]
    rfl
  cases h : a.add (empty.afterCalls calls) with
  | error e =>
    refine ⟨rfl, Addition.add_eq_error_iff.1 h, rfl, ?_⟩
    rw [hnext, afterCall, h]
  | ok added =>
    obtain ⟨given, env⟩ := added
    have henv : env = empty.afterCalls (calls ++ [a]) := by
      rw [hnext, afterCall, h]
    refine ⟨rfl, fun e he => ?_, henv, ?_, fun later => ?_⟩
    · rw [Addition.add_eq_error_iff.2 he] at h
      cases h
    · have hsize : (empty.afterCalls calls).vars.size =
          ((accepted empty calls).filterMap (·.addedVariable?)).length := by
        rw [← hvars, Array.length_toList]
      rw [← hsize]
      rcases Addition.add_eq_ok h with ⟨b, rfl, rfl, -⟩ | ⟨v, rfl, rfl, -⟩
      · rfl
      · rfl
    · have hfound := (Addition.foundUnder_of_add h).afterCalls later
      rw [henv] at hfound
      simpa [afterCalls] using hfound

/-- A field is refused until its type is there, and the type is accepted once. -/
example :
    let field : Addition := .ofVariable
      { name := "x", kind := .field, declaringType := some ⟨1⟩, type := .primitive .int }
    let type : Addition := .ofType { name := ⟨[], ["A"]⟩, hash := ⟨1⟩ }
    let env := empty.afterCalls [field, type, field, type, field]
    env.types.size = 1 ∧ env.vars.size = 2 := by
  decide

end ObjectLowering.Environment
