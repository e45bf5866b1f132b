import ObjectLowering.Proofs.Text.Occurs
import ObjectLowering.Type.Generated

/-!
# ObjectLowering.Proofs.Type.Emitted

What a generated type has of its declaration, and the functions that it gives other types to reach
its static fields.

* `emitted`: the functions, by their declarations.
* `accessorBodies_eq_join`: the bodies are written for the same functions.
* `GeneratedFrom`: what a generated type has of its declaration; `publicText` and `privateText` are what
  is declared of it in the two files.
* `generate_emits`: every one of them is declared in the declarations of the generated type, and has
  a body in its implementation.
* `exists_field_of_ofTree`: every field in the tree is a field of the declaration that is generated.
-/

namespace ObjectLowering

open Text (Occurs)

/-- The type declares the function to its users, or to the other types of its unit. -/
def GeneratedType.Declares (g : GeneratedType) (env : Environment) (f : FunctionRef) : Prop :=
  Occurs (TypeDeclaration.prototype env f ++ ";") g.publicDeclaration ∨
    Occurs (TypeDeclaration.prototype env f ++ ";") g.privateDeclaration

instance (g : GeneratedType) (env : Environment) (f : FunctionRef) : Decidable (g.Declares env f) :=
  inferInstanceAs (Decidable (_ ∨ _))

namespace TypeDeclaration

/-- The start of the body of a function that has the static state of a type set up. -/
def bodyStart (env : Environment) (typeName : String) (f : FunctionRef) : String :=
  "\n" ++ prototype env f ++ " \x7b\n  " ++ Mangle.typeInitializer typeName ++ "();\n  return "

/-- The functions that give access to the static fields of the type. -/
def emitted (d : TypeDeclaration) : List FunctionRef :=
  d.storedFields.flatMap (d.accessorFunctions ·.binding)

/-- What occurs in a line for a static field occurs in the declarations that are for the field. -/
theorem occurs_of_staticFieldLine {env : Environment} {d : TypeDeclaration} {m : FieldMember}
    {part line : String} {declared : VariableBinding → Bool} {exported : Bool}
    (hm : m ∈ d.staticFields) (hd : declared m.binding = true)
    (hline : line ∈ d.staticFieldLines env exported m.binding) (hocc : Occurs part line) :
    Occurs part (d.staticDeclarations env declared exported) := by
  have hmem : line ∈ (d.staticFields.filter (declared ·.binding)).flatMap
      (d.staticFieldLines env exported ·.binding) ++ d.initializerLines declared exported :=
    List.mem_append_left _ (List.mem_flatMap.2 ⟨m, List.mem_filter.2 ⟨hm, hd⟩, hline⟩)
  rw [staticDeclarations, if_neg (List.ne_nil_of_mem hmem)]
  exact ((hocc.in_intercalate hmem "\n").append_left "\n").append_right "\n"

theorem isPrimitiveConstant_of_stored {d : TypeDeclaration} {m : FieldMember}
    (hm : m ∈ d.storedFields) : m.binding.isPrimitiveConstant = false := by
  simpa using (List.mem_filter.1 hm).2

theorem occurs_staticDeclarations {env : Environment} {d : TypeDeclaration} {m : FieldMember}
    {f : FunctionRef} {declared : VariableBinding → Bool} (hm : m ∈ d.storedFields)
    (hd : declared m.binding = true) (hf : f ∈ d.accessorFunctions m.binding) (exported : Bool) :
    Occurs (prototype env f ++ ";") (d.staticDeclarations env declared exported) := by
  have hline : (if exported then "FOUNDATION_EXPORT " else "") ++ prototype env f ++ ";" ∈
      d.staticFieldLines env exported m.binding := by
    rw [staticFieldLines, isPrimitiveConstant_of_stored hm, if_neg Bool.false_ne_true]
    exact List.mem_map.2 ⟨prototype env f, List.mem_append_right _ (List.mem_map_of_mem hf), rfl⟩
  refine occurs_of_staticFieldLine (List.mem_filter.1 hm).1 hd hline ?_
  rw [String.append_assoc]
  exact (Occurs.refl _).append_left _

/-- The bodies for a field are those of its accessors, one after the other. -/
theorem accessorBodies_eq_join (c : ImplementationContext) (d : TypeDeclaration)
    (v : VariableBinding) : d.accessorBodies c v =
      String.join (List.zipWith (d.accessorBody c.env) (d.accessorFunctions v)
        [d.storage v, "&" ++ d.storage v, store c.options v.type (d.storage v) "value"]) := by
  rw [accessorBodies, accessorFunctions]
  cases v.type.isObject with
  | true => simp [String.join_cons, String.append_assoc]
  | false => simp [String.join_cons]

theorem length_accessorFunctions_le (d : TypeDeclaration) (v : VariableBinding) :
    (d.accessorFunctions v).length ≤ 3 := by
  rw [accessorFunctions]
  cases v.type.isObject with
  | true => simp
  | false => simp

theorem occurs_accessorBodies {c : ImplementationContext} {d : TypeDeclaration}
    {v : VariableBinding} {f : FunctionRef} (hf : f ∈ d.accessorFunctions v) :
    Occurs (bodyStart c.env d.name f) (d.accessorBodies c v) := by
  have hbody (result : String) :
      Occurs (bodyStart c.env d.name f) (d.accessorBody c.env f result) :=
    ((Occurs.refl _).append_right result).append_right _
  obtain ⟨i, hi, rfl⟩ := List.mem_iff_getElem.1 hf
  have hlen := length_accessorFunctions_le d v
  rw [accessorBodies_eq_join]
  refine (hbody _).in_join (List.mem_iff_getElem.2 ⟨i, ?_, List.getElem_zipWith⟩)
  rw [List.length_zipWith]
  exact Nat.lt_min.2 ⟨hi, Nat.lt_of_lt_of_le hi hlen⟩

/-- A step that succeeds hands its value on. -/
theorem bind_eq_ok {ε α β : Type} {x : Except ε α} {next : α → Except ε β} {b : β}
    (h : x >>= next = .ok b) : ∃ a, x = .ok a ∧ next a = .ok b := by
  cases x with
  | ok a => exact ⟨a, rfl, h⟩
  | error e => cases h

theorem hasStaticState_of_stored {d : TypeDeclaration} {m : FieldMember} (hm : m ∈ d.storedFields) :
    d.hasStaticState = true := by
  rw [hasStaticState, List.isEmpty_eq_false_iff.2 (List.ne_nil_of_mem hm)]
  rfl

/-- The implementation of a type with static state begins with the storage, and ends with the functions
that set the storage up and give access to it. -/
theorem implementation_of_state {c : ImplementationContext} {d : TypeDeclaration} {text : String}
    (h : d.implementation c = .ok text) (hstate : d.hasStaticState = true) :
    ∃ methods initializer, d.classInitializer c = .ok initializer ∧
      text = d.storageDefinitions c.env ++ methods ++ (initializer ++ d.typeInitializer
        ++ String.join (d.storedFields.map (d.accessorBodies c ·.binding))) := by
  have hstatics {before statics text : String} (hs : d.staticSection c = .ok statics)
      (htext : before ++ statics = text) : ∃ initializer, d.classInitializer c = .ok initializer ∧
        text = before ++ (initializer ++ d.typeInitializer
          ++ String.join (d.storedFields.map (d.accessorBodies c ·.binding))) := by
    obtain ⟨initializer, hinitializer, hs⟩ := bind_eq_ok hs
    cases hs
    exact ⟨initializer, hinitializer, htext.symm⟩
  simp only [implementation, hstate, if_true] at h
  split at h
  all_goals
    obtain ⟨methods, -, h⟩ := bind_eq_ok h
    obtain ⟨statics, hs, h⟩ := bind_eq_ok h
    exact ⟨methods, hstatics hs (Except.ok.inj h)⟩

theorem occurs_implementation {c : ImplementationContext} {d : TypeDeclaration} {text : String}
    (h : d.implementation c = .ok text) {f : FunctionRef} (hf : f ∈ d.emitted) :
    Occurs (bodyStart c.env d.name f) text := by
  obtain ⟨m, hm, hf⟩ := List.mem_flatMap.1 hf
  obtain ⟨methods, initializer, -, rfl⟩ := implementation_of_state h (hasStaticState_of_stored hm)
  have hmem : d.accessorBodies c m.binding ∈ d.storedFields.map (d.accessorBodies c ·.binding) :=
    List.mem_map.2 ⟨m, hm, rfl⟩
  exact (((occurs_accessorBodies hf).in_join hmem).append_left _).append_left _

/-- What the declaration file says of a type. -/
def publicText (env : Environment) (d : TypeDeclaration) : String :=
  if d.binding.isPrivate then ""
  else d.interface env ++ d.staticDeclarations env d.isExported true

/-- What the implementation file declares of a type. -/
def privateText (env : Environment) (d : TypeDeclaration) : String :=
  if d.binding.isPrivate then d.interface env ++ d.staticDeclarations env (fun _ => true) false
  else d.staticDeclarations env (fun v => !d.isExported v) false

/-- Every field is in one of the two declarations, whichever that is. -/
theorem occurs_publicText_or_privateText {env : Environment} {d : TypeDeclaration} {part : String}
    {v : VariableBinding} (h : ∀ declared : VariableBinding → Bool, declared v = true →
      ∀ exported, Occurs part (d.staticDeclarations env declared exported)) :
    Occurs part (d.publicText env) ∨ Occurs part (d.privateText env) := by
  rw [publicText, privateText]
  split
  · exact .inr ((h _ rfl false).append_left _)
  · cases he : d.isExported v with
    | true => exact .inl ((h _ he true).append_left _)
    | false => exact .inr (h _ (by rw [he]; rfl) false)

end TypeDeclaration

/-- The implementation of the type has a body for the function, which has the static state of the
type set up first. -/
def GeneratedType.Defines (g : GeneratedType) (env : Environment) (f : FunctionRef) : Prop :=
  Occurs (TypeDeclaration.bodyStart env g.typeName f) g.implementation

/-- A program that succeeds does so with the value that it hands on. -/
theorem eq_ok_get {ε α : Type} {x : Except ε α} (h : x.toOption.isSome = true) :
    x = .ok (x.toOption.get h) := by
  cases x with
  | ok a => rfl
  | error e => cases h

theorem GenerationError.ofTree_eq_ok {α : Type} {outcome : Except TreeError α} {a : α}
    (h : GenerationError.ofTree outcome = .ok a) : outcome = .ok a := by
  cases outcome with
  | ok b =>
    cases h
    rfl
  | error e => cases h

namespace GeneratedType

/-- The generated type is that of the declaration at a node of the tree. -/
structure GeneratedFrom (g : GeneratedType) (c : GenerationContext) (t : Tree) (id : NodeId)
    (d : TypeDeclaration) : Prop where
  declaration : TypeDeclaration.ofTree c.env t id = .ok d
  hash : g.hash = d.binding.hash
  typeName : g.typeName = d.name
  isPrivate : g.isPrivate = d.binding.isPrivate
  supertypes : g.supertypes = d.binding.supertypes
  publicDeclaration : g.publicDeclaration = d.publicText c.env
  privateDeclaration : g.privateDeclaration = d.privateText c.env
  implementation :
    d.implementation ⟨c.env, c.options, ⟨t, c.env, c.strings.slot?⟩⟩ = .ok g.implementation
  imports : g.imports = .collect ⟨c.env, c.headers, c.locals⟩ t id d

theorem exists_generatedFrom {c : GenerationContext} {t : Tree} {id : NodeId} {g : GeneratedType}
    (h : generate c t id = .ok g) : ∃ d, g.GeneratedFrom c t id d := by
  unfold generate at h
  obtain ⟨d, hd, h⟩ := TypeDeclaration.bind_eq_ok h
  obtain ⟨implementation, hi, h⟩ := TypeDeclaration.bind_eq_ok h
  cases h
  exact ⟨d, hd, rfl, rfl, rfl, rfl, rfl, rfl, GenerationError.ofTree_eq_ok hi, rfl⟩

theorem generate_emits {c : GenerationContext} {t : Tree} {id : NodeId} {g : GeneratedType}
    (h : generate c t id = .ok g) : ∃ d, TypeDeclaration.ofTree c.env t id = .ok d ∧
      g.hash = d.binding.hash ∧ ∀ f ∈ d.emitted, g.Declares c.env f ∧ g.Defines c.env f := by
  obtain ⟨d, hd⟩ := exists_generatedFrom h
  refine ⟨d, hd.declaration, hd.hash, fun f hf => ⟨?_, ?_⟩⟩
  · obtain ⟨m, hm, hf⟩ := List.mem_flatMap.1 hf
    rw [Declares, hd.publicDeclaration, hd.privateDeclaration]
    exact TypeDeclaration.occurs_publicText_or_privateText fun _ hdeclared exported =>
      TypeDeclaration.occurs_staticDeclarations hm hdeclared hf exported
  · rw [Defines, hd.typeName]
    exact TypeDeclaration.occurs_implementation hd.implementation hf

end GeneratedType

/-- The declaration at a node of the tree has this field. -/
def Tree.DeclaresField (t : Tree) (id : NodeId) (x : VarId) : Prop :=
  ∃ type members m initial, t.kind? id = some (.typeDecl type members) ∧ m ∈ members ∧
    t.kind? m = some (.fieldDecl x initial)

namespace TypeDeclaration

theorem header_eq_ok {env : Environment} {node : Node} {binding : TypeBinding}
    {members : List NodeId} (h : header env node = .ok (binding, members)) :
    ∃ hash, node.kind = .typeDecl (some hash) members ∧ env.type? hash = some binding := by
  unfold header at h
  cases hk : node.kind with
  | typeDecl type ms =>
    rw [hk] at h
    cases type with
    | none => cases h
    | some hash =>
      cases ht : env.type? hash with
      | none =>
        simp only [ht] at h
        cases h
      | some b =>
        simp only [ht] at h
        cases h
        exact ⟨hash, rfl, ht⟩
  | _ =>
    rw [hk] at h
    cases h

theorem boundVariable_eq_ok_iff {env : Environment} {member : Node} {id : VarId}
    {v : VariableBinding} :
    boundVariable env member id = .ok v ↔ env.variableAt? id = some v := by
  unfold boundVariable
  cases env.variableAt? id with
  | none => simp
  | some v' => simp

/-- A member is a field or a method whose variables are known, and is put behind the others. -/
theorem addMember_cases {env : Environment} {d d' : TypeDeclaration} {member : Node}
    (h : addMember env d member = .ok d') :
    (∃ x initial v, member.kind = .fieldDecl x initial ∧ env.variableAt? x = some v ∧
      d' = { d with fields := d.fields ++ [⟨v, initial⟩] }) ∨
    ∃ m parameters body vs, member.kind = .methodDecl m parameters body ∧
      parameters.mapM (boundVariable env member) = .ok vs ∧
      d' = { d with methods := d.methods ++ [⟨m, vs, body⟩] } := by
  unfold addMember at h
  split at h
  · rename_i x initial hk
    obtain ⟨v, hv, h⟩ := bind_eq_ok h
    exact .inl ⟨x, initial, v, hk, boundVariable_eq_ok_iff.1 hv, (Except.ok.inj h).symm⟩
  · rename_i m parameters body hk
    obtain ⟨vs, hvs, h⟩ := bind_eq_ok h
    exact .inr ⟨m, parameters, body, vs, hk, hvs, (Except.ok.inj h).symm⟩
  · cases h

/-- What one more member leaves of a declaration, and what it adds. -/
theorem addMember_eq_ok {env : Environment} {d d' : TypeDeclaration} {member : Node}
    (h : addMember env d member = .ok d') : d'.binding = d.binding ∧ d.fields ⊆ d'.fields ∧
      ∀ x initial, member.kind = .fieldDecl x initial →
        ∃ m ∈ d'.fields, env.variableAt? x = some m.binding := by
  rcases addMember_cases h with ⟨x, initial, v, hk, hv, rfl⟩ | ⟨m, parameters, body, vs, hk, -, rfl⟩
  · refine ⟨rfl, List.subset_append_left _ _, fun x' initial' hx => ?_⟩
    cases hk.symm.trans hx
    exact ⟨⟨v, initial⟩, by simp, hv⟩
  · refine ⟨rfl, List.Subset.refl _, fun x initial hx => ?_⟩
    cases hk.symm.trans hx

/-- Reads members one after the other. -/
def addMembers (env : Environment) (t : Tree) (members : List NodeId) (d : TypeDeclaration) :
    Except GenerationError TypeDeclaration :=
  members.foldlM (fun d member => do addMember env d (← GenerationError.ofTree (t.node member))) d

/-- The first member is read before the others. -/
theorem addMembers_cons_eq_ok {env : Environment} {t : Tree} {first : NodeId}
    {members : List NodeId} {d d' : TypeDeclaration}
    (h : addMembers env t (first :: members) d = .ok d') : ∃ node d₁, t.node first = .ok node ∧
      addMember env d node = .ok d₁ ∧ addMembers env t members d₁ = .ok d' := by
  rw [addMembers, List.foldlM_cons] at h
  obtain ⟨d₁, h₁, h⟩ := bind_eq_ok h
  obtain ⟨node, hn, h₁⟩ := bind_eq_ok h₁
  exact ⟨node, d₁, GenerationError.ofTree_eq_ok hn, h₁, h⟩

theorem addMembers_eq_ok {env : Environment} {t : Tree} {members : List NodeId}
    {d d' : TypeDeclaration} (h : addMembers env t members d = .ok d') :
    d'.binding = d.binding ∧ d.fields ⊆ d'.fields ∧
      ∀ member ∈ members, ∀ x initial, t.kind? member = some (.fieldDecl x initial) →
        ∃ m ∈ d'.fields, env.variableAt? x = some m.binding := by
  induction members generalizing d with
  | nil =>
    cases h
    exact ⟨rfl, List.Subset.refl _, by simp⟩
  | cons first members ih =>
    obtain ⟨node, d₁, hn, h₁, h⟩ := addMembers_cons_eq_ok h
    obtain ⟨hb₁, hf₁, hx₁⟩ := addMember_eq_ok h₁
    obtain ⟨hb, hf, hx⟩ := ih h
    refine ⟨hb.trans hb₁, List.Subset.trans hf₁ hf, ?_⟩
    intro member hm x initial hk
    rcases List.mem_cons.1 hm with rfl | hm
    · rw [Tree.kind?_of_node hn] at hk
      obtain ⟨m, hm, hv⟩ := hx₁ x initial (Option.some.inj hk)
      exact ⟨m, hf hm, hv⟩
    · exact hx member hm x initial hk

theorem ofTree_eq_ok {env : Environment} {t : Tree} {id : NodeId} {d : TypeDeclaration}
    (h : ofTree env t id = .ok d) : ∃ hash members, t.kind? id = some (.typeDecl (some hash) members) ∧
      env.type? hash = some d.binding ∧ addMembers env t members ⟨d.binding, [], []⟩ = .ok d := by
  obtain ⟨node, hn, h⟩ := bind_eq_ok h
  obtain ⟨⟨binding, members⟩, hh, h⟩ := bind_eq_ok h
  obtain ⟨hash, hk, ht⟩ := header_eq_ok hh
  have hnode : t.node? id = some node := Tree.node?_of_node (GenerationError.ofTree_eq_ok hn)
  have hb : d.binding = binding := (addMembers_eq_ok h).1
  subst hb
  exact ⟨hash, members, by rw [Tree.kind?, hnode, Option.map_some, hk], ht, h⟩

theorem binding_of_ofTree {env : Environment} {t : Tree} {id : NodeId} {d : TypeDeclaration}
    (h : ofTree env t id = .ok d) : env.type? d.binding.hash = some d.binding := by
  obtain ⟨hash, _, _, ht, _⟩ := ofTree_eq_ok h
  rw [Environment.type?_hash ht, ht]

theorem exists_field_of_ofTree {env : Environment} {t : Tree} {id : NodeId} {d : TypeDeclaration}
    (h : ofTree env t id = .ok d) {x : VarId} (hx : t.DeclaresField id x) :
    ∃ m ∈ d.fields, env.variableAt? x = some m.binding := by
  obtain ⟨hash, members, hk, _, hm⟩ := ofTree_eq_ok h
  obtain ⟨_, _, member, initial, hk', hmem, hfield⟩ := hx
  cases hk.symm.trans hk'
  exact (addMembers_eq_ok hm).2.2 member hmem x initial hfield

end TypeDeclaration

end ObjectLowering
