import ObjectLowering.Symbol.Binding

/-!
# ObjectLowering.Symbol.Environment

The store of all bindings of a program. It only grows: a registered type keeps its hash, and a
declared variable keeps its number.

* `register`: adds a type, unless one with its hash is there.
* `declare`: adds a variable, unless it names a declaring type that is not registered.
* `register_eq_ok_iff`, `declare_eq_ok_iff`: when they do so, and what is there then.
* `type?_register`, `variableAt?_declare`: what is found afterwards.
-/

namespace ObjectLowering

inductive RegistrationError where
  | duplicateType (name : String)
  | unknownDeclaringType (field : String) (owner : TypeHash)
  deriving DecidableEq, Repr, Inhabited

namespace RegistrationError

def message : RegistrationError → String
  | duplicateType name => "duplicate type: " ++ name
  | unknownDeclaringType field owner =>
    "field '" ++ field ++ "' declared by unknown type " ++ owner.text

end RegistrationError

/-- All bindings of a program, in the order in which they were added. -/
structure Environment where
  types : Array TypeBinding := #[]
  vars : Array VariableBinding := #[]
  deriving Repr, Inhabited

namespace Environment

def empty : Environment := {}

def type? (env : Environment) (hash : TypeHash) : Option TypeBinding :=
  env.types.find? (·.hash = hash)

def typeNamed? (env : Environment) (name : QualifiedName) : Option TypeBinding :=
  env.type? (.ofName name.text)

def variableAt? (env : Environment) (id : VarId) : Option VariableBinding :=
  env.vars[id]?

def fullName? (env : Environment) (hash : TypeHash) : Option String :=
  (env.type? hash).map (·.fullName)

def register (env : Environment) (b : TypeBinding) : Except RegistrationError Environment :=
  if (env.type? b.hash).isSome then
    .error (.duplicateType b.name.text)
  else
    .ok { env with types := env.types.push b }

/-- Adds a variable and gives its number. -/
def declare (env : Environment) (v : VariableBinding) :
    Except RegistrationError (VarId × Environment) :=
  match v.declaringType with
  | some owner =>
    if (env.type? owner).isSome then
      .ok (env.vars.size, { env with vars := env.vars.push v })
    else
      .error (.unknownDeclaringType v.name owner)
  | none => .ok (env.vars.size, { env with vars := env.vars.push v })

theorem type?_hash {env : Environment} {hash : TypeHash} {b : TypeBinding}
    (h : env.type? hash = some b) : b.hash = hash := by
  simpa using Array.find?_some h

/-- A type is added if its hash is new. -/
theorem register_eq_ok_iff {env env' : Environment} {b : TypeBinding} :
    env.register b = .ok env' ↔
      env.type? b.hash = none ∧ env' = { env with types := env.types.push b } := by
  unfold register
  cases h : env.type? b.hash with
  | none => simp [eq_comm]
  | some b' => simp

/-- A variable is added if the type that declares it, if any, is there. -/
theorem declare_eq_ok_iff {env env' : Environment} {v : VariableBinding} {id : VarId} :
    env.declare v = .ok (id, env') ↔
      (∀ owner, v.declaringType = some owner → (env.type? owner).isSome = true) ∧
        id = env.vars.size ∧ env' = { env with vars := env.vars.push v } := by
  have hadded : (Except.ok (env.vars.size, { env with vars := env.vars.push v }) :
      Except RegistrationError (VarId × Environment)) = .ok (id, env') ↔
        id = env.vars.size ∧ env' = { env with vars := env.vars.push v } := by
    constructor
    · intro h
      cases h
      exact ⟨rfl, rfl⟩
    · rintro ⟨rfl, rfl⟩
      rfl
  unfold declare
  cases ho : v.declaringType with
  | none => simpa using hadded
  | some owner =>
    cases h : env.type? owner with
    | none => simp [h]
    | some b => simpa [h] using hadded

/-- After a type is added it is found, and every other type is found as before. -/
theorem type?_register {env env' : Environment} {b : TypeBinding}
    (h : env.register b = .ok env') (hash : TypeHash) :
    env'.type? hash = if b.hash = hash then some b else env.type? hash := by
  obtain ⟨hnew, rfl⟩ := register_eq_ok_iff.1 h
  simp only [type?, Array.find?_push] at hnew ⊢
  by_cases hb : b.hash = hash
  · subst hb
    rw [hnew]
    simp
  · simp [hb]

/-- A variable that was added is found under its number, and every other as before. -/
theorem variableAt?_declare {env env' : Environment} {v : VariableBinding} {id : VarId}
    (h : env.declare v = .ok (id, env')) (other : VarId) :
    env'.variableAt? other = if other = id then some v else env.variableAt? other := by
  obtain ⟨-, rfl, rfl⟩ := declare_eq_ok_iff.1 h
  simp only [variableAt?, Array.getElem?_push]

end Environment

end ObjectLowering
