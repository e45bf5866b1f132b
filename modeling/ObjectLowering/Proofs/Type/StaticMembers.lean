import ObjectLowering.Proofs.Type.Emitted
import ObjectLowering.Proofs.Type.StaticItems

/-!
# ObjectLowering.Proofs.Type.StaticMembers

Where the static fields of a type are declared and defined, and how often.

* `publicItems`, `privateItems`: what the two declarations of a type declare for its static fields.
* `DeclaresOnce`: every static field is declared in its place and once, and its storage has the same
  linkage where it is declared and where it is defined. `declaresOnce_items`: the items of the two
  declarations do.
* `fields_of_addMembers`: the fields are those that the members of the declaration declare, in order.
* `generate_declares_once`: every type that is generated declares its static fields so.
-/

namespace ObjectLowering

/-- The variable of a field declaration. -/
def NodeKind.fieldVariable? : NodeKind → Option VarId
  | .fieldDecl field _ => some field
  | _ => none

namespace TypeDeclaration

variable {env : Environment} {d : TypeDeclaration}

/-- The items of the declaration for other units. -/
def publicItems (d : TypeDeclaration) : List StaticItem :=
  d.items d.isExported true

/-- The items of the declaration for the unit itself. -/
def privateItems (d : TypeDeclaration) : List StaticItem :=
  d.items (fun v => !d.isExported v) false

theorem isExported_eq_true {v : VariableBinding} :
    d.isExported v = true ↔ d.binding.isPrivate = false ∧ v.visibility ≠ .privateAccess := by
  simp [isExported]

/-- Nothing is declared in both. -/
theorem nodup_publicItems_append : (d.publicItems ++ d.privateItems).Nodup := by
  refine List.nodup_append'.2 ⟨nodup_items _ _, nodup_items _ _, fun item hitem hitem' => ?_⟩
  cases item with
  | ofField i role =>
    obtain ⟨f, hfield, -, hexported, -⟩ := mem_items_field.1 hitem
    obtain ⟨f', hfield', -, hexported', -⟩ := mem_items_field.1 hitem'
    cases hfield.symm.trans hfield'
    rw [hexported] at hexported'
    cases hexported'
  | initializer =>
    obtain ⟨⟨f, hf, hexported⟩, -⟩ := mem_items_initializer.1 hitem
    obtain ⟨-, hnone⟩ := mem_items_initializer.1 hitem'
    rw [hnone.resolve_left Bool.false_ne_true f hf] at hexported
    cases hexported

/-- The field at the position is static, with this variable. -/
def HasStatic (d : TypeDeclaration) (i : Nat) (v : VariableBinding) : Prop :=
  ∃ f, d.fields[i]? = some f ∧ f.binding = v ∧ v.isStatic = true

theorem HasStatic.unique {i : Nat} {v v' : VariableBinding} (h : d.HasStatic i v)
    (h' : d.HasStatic i v') : v = v' := by
  obtain ⟨f, hfield, rfl, -⟩ := h
  obtain ⟨f', hfield', rfl, -⟩ := h'
  rw [Option.some.inj (hfield.symm.trans hfield')]

/-- Every static field is declared in its place and once: in `publicItems` for other units, or in
`privateItems` for the unit. Its storage is defined once, in `slots`. -/
structure DeclaresOnce (d : TypeDeclaration) (publicItems privateItems : List StaticItem)
    (slots : List Slot) : Prop where
  accessor : ∀ {i v role}, d.HasStatic i v → v.isPrimitiveConstant = false →
    role ∈ accessorRoles v → (publicItems ++ privateItems).count (.ofField i role) = 1 ∧
      (.ofField i role ∈ publicItems ↔
        d.binding.isPrivate = false ∧ v.visibility ≠ .privateAccess)
  setter : ∀ {i v}, d.HasStatic i v → v.type.isObject = false →
    .ofField i .setter ∉ publicItems ++ privateItems
  storage : ∀ {i v}, d.HasStatic i v → v.isPrimitiveConstant = false →
    slots.countP (·.position = i) = 1 ∧ .ofField i .storage ∉ privateItems ∧
      publicItems.count (.ofField i .storage) = slots.count ⟨i, false⟩
  constant : ∀ {i v}, d.HasStatic i v → v.isPrimitiveConstant = true →
    (publicItems ++ privateItems).count (.ofField i .constant) = 1 ∧
      .ofField i .storage ∉ publicItems ++ privateItems ∧ ∀ s ∈ slots, s.position ≠ i
  initializer : (∃ i v, d.HasStatic i v ∧ v.isPrimitiveConstant = false) →
    (publicItems ++ privateItems).count .initializer = 1
  no_initializer : (∀ {i v}, d.HasStatic i v → v.isPrimitiveConstant = true) →
    .initializer ∉ publicItems ++ privateItems

theorem exists_storedField_iff {test : VariableBinding → Prop} :
    (∃ f ∈ d.storedFields, test f.binding) ↔
      ∃ i v, d.HasStatic i v ∧ v.isPrimitiveConstant = false ∧ test v := by
  simp only [storedFields, staticFields, List.mem_filter, Bool.not_eq_true']
  constructor
  · rintro ⟨f, ⟨⟨hf, hstatic⟩, hstored⟩, htest⟩
    obtain ⟨i, hi⟩ := List.mem_iff_getElem?.1 hf
    exact ⟨i, f.binding, ⟨f, hi, rfl, hstatic⟩, hstored, htest⟩
  · rintro ⟨i, _, ⟨f, hi, rfl, hstatic⟩, hstored, htest⟩
    exact ⟨f, ⟨⟨List.mem_of_getElem? hi, hstatic⟩, hstored⟩, htest⟩

theorem mem_slots {i : Nat} {isInternal : Bool} : ⟨i, isInternal⟩ ∈ d.slots ↔
    ∃ v, d.HasStatic i v ∧ v.isPrimitiveConstant = false ∧ d.isExported v = !isInternal := by
  rw [slots, List.mem_map]
  constructor
  · rintro ⟨⟨f, j⟩, hentry, heq⟩
    obtain ⟨hfield, htest⟩ := mem_positioned.1 hentry
    cases heq
    obtain ⟨hstatic, hstored⟩ := Bool.and_eq_true_iff.1 htest
    exact ⟨f.binding, ⟨f, hfield, rfl, hstatic⟩, by simpa using hstored, (Bool.not_not _).symm⟩
  · rintro ⟨_, ⟨f, hfield, rfl, hstatic⟩, hstored, hexported⟩
    refine ⟨(f, i), mem_positioned.2 ⟨hfield, by rw [hstatic, hstored]; rfl⟩, ?_⟩
    rw [hexported, Bool.not_not]

theorem nodup_slots : (d.slots.map Slot.position).Nodup := by
  rw [slots, List.map_map]
  exact d.nodup_positioned _

section Places

variable {i : Nat} {v : VariableBinding} {role : Role}

theorem mem_publicItems (h : d.HasStatic i v) :
    .ofField i role ∈ d.publicItems ↔ d.isExported v = true ∧ role ∈ roles true v := by
  obtain ⟨f, hfield, rfl, hstatic⟩ := h
  rw [publicItems, mem_items_field]
  constructor
  · rintro ⟨f', hfield', -, hexported, hrole⟩
    cases hfield.symm.trans hfield'
    exact ⟨hexported, hrole⟩
  · rintro ⟨hexported, hrole⟩
    exact ⟨f, hfield, hstatic, hexported, hrole⟩

theorem mem_privateItems (h : d.HasStatic i v) :
    .ofField i role ∈ d.privateItems ↔ d.isExported v = false ∧ role ∈ roles false v := by
  obtain ⟨f, hfield, rfl, hstatic⟩ := h
  rw [privateItems, mem_items_field]
  simp only [Bool.not_eq_true']
  constructor
  · rintro ⟨f', hfield', -, hexported, hrole⟩
    cases hfield.symm.trans hfield'
    exact ⟨hexported, hrole⟩
  · rintro ⟨hexported, hrole⟩
    exact ⟨f, hfield, hstatic, hexported, hrole⟩

/-- What is declared whether or not other units may use the field is declared once. -/
theorem count_eq_one (h : d.HasStatic i v) (hrole : ∀ exported, role ∈ roles exported v) :
    (d.publicItems ++ d.privateItems).count (.ofField i role) = 1 := by
  refine List.count_eq_one_of_mem nodup_publicItems_append (List.mem_append.2 ?_)
  cases hexported : d.isExported v with
  | true => exact .inl ((mem_publicItems h).2 ⟨hexported, hrole true⟩)
  | false => exact .inr ((mem_privateItems h).2 ⟨hexported, hrole false⟩)

theorem not_mem_items (h : d.HasStatic i v) (hrole : ∀ exported, role ∉ roles exported v) :
    .ofField i role ∉ d.publicItems ++ d.privateItems := by
  rw [List.mem_append, mem_publicItems h, mem_privateItems h]
  rintro (⟨-, hmem⟩ | ⟨-, hmem⟩)
  · exact hrole true hmem
  · exact hrole false hmem

theorem mem_roles_of_accessor (hstored : v.isPrimitiveConstant = false)
    (hrole : role ∈ accessorRoles v) (exported : Bool) : role ∈ roles exported v := by
  rw [roles, hstored, if_neg Bool.false_ne_true]
  exact List.mem_append_right _ hrole

theorem setter_not_mem_roles (hobject : v.type.isObject = false) (exported : Bool) :
    Role.setter ∉ roles exported v := by
  unfold roles accessorRoles
  rw [hobject]
  cases v.isPrimitiveConstant <;> cases exported <;> decide

theorem storage_mem_roles (hstored : v.isPrimitiveConstant = false) (exported : Bool) :
    Role.storage ∈ roles exported v ↔ exported = true := by
  unfold roles accessorRoles
  rw [hstored]
  cases exported <;> cases v.type.isObject <;> decide

theorem roles_constant (hconstant : v.isPrimitiveConstant = true) (exported : Bool) :
    roles exported v = [.constant] := by
  rw [roles, if_pos hconstant]

end Places

/-- The storage of a field is defined once. -/
theorem countP_slots {i : Nat} {v : VariableBinding} (h : d.HasStatic i v)
    (hstored : v.isPrimitiveConstant = false) : d.slots.countP (·.position = i) = 1 := by
  have hmem : i ∈ d.slots.map Slot.position :=
    List.mem_map.2 ⟨⟨i, !d.isExported v⟩, mem_slots.2 ⟨v, h, hstored, (Bool.not_not _).symm⟩, rfl⟩
  rw [← List.count_eq_one_of_mem nodup_slots hmem, List.count_eq_countP, List.countP_map]
  rfl

theorem initializer_mem_iff : .initializer ∈ d.publicItems ++ d.privateItems ↔
    ∃ i v, d.HasStatic i v ∧ v.isPrimitiveConstant = false := by
  have hstored : (∃ i v, d.HasStatic i v ∧ v.isPrimitiveConstant = false) ↔
      ∃ f ∈ d.storedFields, True := by
    simpa using (@exists_storedField_iff d fun _ => True).symm
  rw [hstored, List.mem_append, publicItems, privateItems, mem_items_initializer,
    mem_items_initializer]
  constructor
  · rintro (⟨⟨f, hf, -⟩, -⟩ | ⟨⟨f, hf, -⟩, -⟩) <;> exact ⟨f, hf, trivial⟩
  · rintro ⟨f, hf, -⟩
    by_cases hexported : ∃ f ∈ d.storedFields, d.isExported f.binding = true
    · exact .inl ⟨hexported, .inl rfl⟩
    · have hnone : ∀ f ∈ d.storedFields, d.isExported f.binding = false := fun f hf =>
        Bool.eq_false_iff.2 fun h => hexported ⟨f, hf, h⟩
      exact .inr ⟨⟨f, hf, by rw [hnone f hf]; rfl⟩, .inr hnone⟩

/-- The items of the two declarations and the storage are such. -/
theorem declaresOnce_items : d.DeclaresOnce d.publicItems d.privateItems d.slots where
  accessor h hstored hrole := by
    refine ⟨count_eq_one h (mem_roles_of_accessor hstored hrole), ?_⟩
    rw [mem_publicItems h, ← isExported_eq_true]
    exact and_iff_left (mem_roles_of_accessor hstored hrole true)
  setter h hobject := not_mem_items h (setter_not_mem_roles hobject)
  storage {i v} h hstored := by
    have hplaces : .ofField i .storage ∈ d.publicItems ↔ ⟨i, false⟩ ∈ d.slots := by
      rw [mem_publicItems h, and_iff_left ((storage_mem_roles hstored true).2 rfl), mem_slots]
      constructor
      · exact fun hexported => ⟨v, h, hstored, hexported⟩
      · rintro ⟨v', h', -, hexported⟩
        rwa [h.unique h']
    refine ⟨countP_slots h hstored, ?_, ?_⟩
    · rw [mem_privateItems h]
      exact fun hmem => Bool.false_ne_true ((storage_mem_roles hstored false).1 hmem.2)
    · have hpublic : d.publicItems.Nodup := nodup_items _ _
      have hslots : d.slots.Nodup := .of_map _ nodup_slots
      rw [hpublic.count, hslots.count]
      simp only [hplaces]
  constant {i v} h hconstant := by
    refine ⟨count_eq_one h fun exported => ?_, not_mem_items h fun exported => ?_, ?_⟩
    · rw [roles_constant hconstant]
      exact List.mem_singleton_self _
    · rw [roles_constant hconstant]
      decide
    · rintro ⟨j, isInternal⟩ hs rfl
      obtain ⟨v', h', hstored, -⟩ := mem_slots.1 hs
      rw [h.unique h', hstored] at hconstant
      cases hconstant
  initializer hstored :=
    List.count_eq_one_of_mem nodup_publicItems_append (initializer_mem_iff.2 hstored)
  no_initializer hconstants hmem := by
    obtain ⟨i, v, h, hstored⟩ := initializer_mem_iff.1 hmem
    rw [hconstants h] at hstored
    cases hstored

/-! ## The generated type -/

theorem isExported_of_private (h : d.binding.isPrivate = true) (v : VariableBinding) :
    d.isExported v = false := by
  rw [isExported, h]
  rfl

theorem publicItems_of_private (h : d.binding.isPrivate = true) : d.publicItems = [] := by
  refine List.eq_nil_iff_forall_not_mem.2 fun item hitem => ?_
  cases item with
  | ofField i role =>
    obtain ⟨f, -, -, hexported, -⟩ := mem_items_field.1 hitem
    rw [isExported_of_private h] at hexported
    cases hexported
  | initializer =>
    obtain ⟨⟨f, -, hexported⟩, -⟩ := mem_items_initializer.1 hitem
    rw [isExported_of_private h] at hexported
    cases hexported

theorem publicText_eq : d.publicText env = (if d.binding.isPrivate then "" else d.interface env) ++
    block (d.publicItems.map (d.itemText env true)) := by
  rw [publicText, staticDeclarations_eq]
  split
  · rename_i hprivate
    rw [publicItems_of_private hprivate]
    rfl
  · rfl

theorem privateText_eq : d.privateText env = (if d.binding.isPrivate then d.interface env else "") ++
    block (d.privateItems.map (d.itemText env false)) := by
  rw [privateText, staticDeclarations_eq, staticDeclarations_eq, privateItems]
  split
  · rename_i hprivate
    have hall : (fun v => !d.isExported v) = fun _ => true :=
      funext fun v => by rw [isExported_of_private hprivate v]; rfl
    rw [hall]
  · rw [String.empty_append]

/-- What is written of a type apart from its static fields. -/
theorem interface_instanceFields :
    ({ d with fields := d.instanceFields } : TypeDeclaration).interface env = d.interface env := by
  have hfields : ({ d with fields := d.instanceFields } : TypeDeclaration).instanceFields =
      d.instanceFields := by
    simp [instanceFields, List.filter_filter]
  simp only [interface, instanceVariables, hfields]
  rfl

/-- The fields of a declaration are those that its members declare. -/
theorem fields_of_addMembers {t : Tree} {members : List NodeId} {d d' : TypeDeclaration}
    (h : addMembers env t members d = .ok d') : d'.fields.map (some ·.binding) =
      d.fields.map (some ·.binding) ++ (members.filterMap fun m =>
        (t.kind? m).bind NodeKind.fieldVariable?).map env.variableAt? := by
  induction members generalizing d with
  | nil =>
    cases h
    simp
  | cons first members ih =>
    obtain ⟨node, d₁, hn, h₁, h⟩ := addMembers_cons_eq_ok h
    rw [ih h, List.filterMap_cons, Tree.kind?_of_node hn, Option.bind_some]
    rcases addMember_cases h₁ with ⟨x, initial, v, hk, hv, rfl⟩ | ⟨m, parameters, body, vs, hk, -, rfl⟩
    · simp [hk, NodeKind.fieldVariable?, hv]
    · simp [hk, NodeKind.fieldVariable?]

/-- The storage of the static fields with the flags that say how far it is set up. -/
def definitionText (env : Environment) (d : TypeDeclaration) (slots : List Slot) : String :=
  if slots = [] then ""
  else "\n" ++ String.join (slots.map (d.slotText env))
    ++ "static _Atomic(jboolean) " ++ Mangle.initializedFlag d.name ++ ";\n"
    ++ "static _Thread_local jboolean " ++ Mangle.initializingFlag d.name ++ ";\n"

theorem slots_eq_nil_iff : d.slots = [] ↔ d.hasStaticState = false := by
  rw [hasStaticState, Bool.not_eq_false', List.isEmpty_iff, storedFields_eq_map, slots,
    List.map_eq_nil_iff, List.map_eq_nil_iff]

theorem implementation_eq_ok {c : ImplementationContext} {text : String}
    (h : d.implementation c = .ok text) : ∃ methods statics,
      text = definitionText c.env d d.slots ++ methods ++ statics ∧
      (if d.binding.isInterface then pure "" else d.methodSection c) = .ok methods ∧
      (if d.hasStaticState then d.staticSection c else pure "") = .ok statics := by
  have hstorage : (if d.hasStaticState then d.storageDefinitions c.env else "") =
      definitionText c.env d d.slots := by
    rw [definitionText, storageDefinitions_eq]
    cases hstate : d.hasStaticState with
    | true => rw [if_pos rfl, if_neg fun h => by simp [slots_eq_nil_iff.1 h] at hstate]
    | false => rw [if_neg Bool.false_ne_true, if_pos (slots_eq_nil_iff.2 hstate)]
  simp only [implementation, hstorage] at h
  cases hinterface : d.binding.isInterface <;> cases hstate : d.hasStaticState <;>
    simp only [hinterface, hstate, if_true, if_false, Bool.false_eq_true] at h ⊢ <;>
    obtain ⟨methods, hmethods, h⟩ := bind_eq_ok h <;>
    obtain ⟨statics, hstatics, h⟩ := bind_eq_ok h <;>
    exact ⟨methods, statics, (Except.ok.inj h).symm, hmethods, hstatics⟩

end TypeDeclaration

namespace GeneratedType

open TypeDeclaration (StaticItem Slot)

/-- What a generated type declares for the static fields of its declaration `d`, and defines. -/
structure DeclaresStatics (g : GeneratedType) (c : GenerationContext) (t : Tree) (id : NodeId)
    (d : TypeDeclaration) (publicItems privateItems : List StaticItem) (slots : List Slot) :
    Prop where
  declaration : TypeDeclaration.ofTree c.env t id = .ok d
  fields : d.fields.map (some ·.binding) = ((t.children id).filterMap fun m =>
    (t.kind? m).bind NodeKind.fieldVariable?).map c.env.variableAt?
  publicDeclaration : g.publicDeclaration = (if d.binding.isPrivate then "" else d.interface c.env)
    ++ TypeDeclaration.block (publicItems.map (d.itemText c.env true))
  privateDeclaration : g.privateDeclaration = (if d.binding.isPrivate then d.interface c.env else "")
    ++ TypeDeclaration.block (privateItems.map (d.itemText c.env false))
  interface : d.interface c.env =
    ({ d with fields := d.instanceFields } : TypeDeclaration).interface c.env
  implementation : ∃ methods statics,
    g.implementation = d.definitionText c.env slots ++ methods ++ statics ∧
      (if d.binding.isInterface then pure ""
        else d.methodSection ⟨c.env, c.options, ⟨t, c.env, c.strings.slot?⟩⟩) = .ok methods ∧
      (if d.hasStaticState then d.staticSection ⟨c.env, c.options, ⟨t, c.env, c.strings.slot?⟩⟩
        else pure "") = .ok statics
  once : d.DeclaresOnce publicItems privateItems slots

/-- A generated type declares every static field in its place and once. -/
theorem generate_declares_once {c : GenerationContext} {t : Tree} {id : NodeId} {g : GeneratedType}
    (h : generate c t id = .ok g) : ∃ d publicItems privateItems slots,
      g.DeclaresStatics c t id d publicItems privateItems slots := by
  obtain ⟨d, hd⟩ := exists_generatedFrom h
  obtain ⟨hash, members, hkind, -, hmembers⟩ := TypeDeclaration.ofTree_eq_ok hd.declaration
  have hchildren : t.children id = members := by
    rw [Tree.children, hkind]
    rfl
  refine ⟨d, d.publicItems, d.privateItems, d.slots, hd.declaration, ?_,
    hd.publicDeclaration.trans TypeDeclaration.publicText_eq,
    hd.privateDeclaration.trans TypeDeclaration.privateText_eq,
    TypeDeclaration.interface_instanceFields.symm, ?_, TypeDeclaration.declaresOnce_items⟩
  rotate_left
  · obtain ⟨methods, statics, htext, hmethods, hstatics⟩ :=
      TypeDeclaration.implementation_eq_ok hd.implementation
    exact ⟨methods, statics, htext, hmethods, hstatics⟩
  rw [TypeDeclaration.fields_of_addMembers hmembers, hchildren, List.map_nil, List.nil_append]

/-- A public class with a constant, a counter, a private object and an instance variable. -/
def counterContext : GenerationContext where
  env := {
    types := #[{ name := ⟨[], ["A"]⟩, hash := ⟨1⟩ }]
    vars := #[
      { name := "MAX", kind := .field, declaringType := some ⟨1⟩, type := .primitive .int
        visibility := .publicAccess, modifiers := { isStatic := true, isFinal := true }
        constant := some (.int 10) },
      { name := "count", kind := .field, declaringType := some ⟨1⟩, type := .primitive .int
        visibility := .publicAccess, modifiers := { isStatic := true } },
      { name := "label", kind := .field, declaringType := some ⟨1⟩, type := .anyObject
        modifiers := { isStatic := true } },
      { name := "size", kind := .field, declaringType := some ⟨1⟩, type := .primitive .int }] }
  options := {}
  headers := .empty
  locals := [⟨1⟩]
  strings := .empty

def counterTree : Tree where
  nodes := #[
    { kind := .fieldDecl 0 none, parent := some 4 },
    { kind := .fieldDecl 1 none, parent := some 4 },
    { kind := .fieldDecl 2 none, parent := some 4 },
    { kind := .fieldDecl 3 none, parent := some 4 },
    { kind := .typeDecl (some ⟨1⟩) [0, 1, 2, 3] }]

def counterType : GeneratedType :=
  (generate counterContext counterTree 4).toOption.get (by decide +kernel)

theorem generate_counterType : generate counterContext counterTree 4 = .ok counterType := by
  rfl

/-- The counter is declared for other units with the constant and the initializer, the private object
for the unit only. -/
theorem counterType_declares_once :
    (∃ d publicItems privateItems slots,
      counterType.DeclaresStatics counterContext counterTree 4 d publicItems privateItems slots) ∧
    counterType.publicDeclaration = "\n@interface A : NSObject \x7b\n @public\n  jint size_;\n\x7d\n\n"
      ++ "@end\n\n#define A_MAX 10\nFOUNDATION_EXPORT jint A_count;\n"
      ++ "FOUNDATION_EXPORT jint A_get_count(void);\nFOUNDATION_EXPORT jint *A_getRef_count(void);\n"
      ++ "FOUNDATION_EXPORT void A_initialize(void);\n" ∧
    counterType.privateDeclaration =
      "\nid A_get_label(void);\nid *A_getRef_label(void);\nid A_set_label(id value);\n" :=
  ⟨generate_declares_once generate_counterType, by decide +kernel, by decide +kernel⟩

end GeneratedType

end ObjectLowering
