import Mathlib.Data.List.Nodup
import ObjectLowering.Type.Implementation

/-!
# ObjectLowering.Proofs.Type.StaticItems

What is declared for the static fields of a type, as a list.

Names are arbitrary, so two fields may be declared by the same text. What is declared is therefore
listed as items, which say of which field they are.

* `StaticItem`, `items`: what one of the two declarations of a type declares for its static fields;
  `staticDeclarations_eq`: its text is that of the items, line by line.
* `Slot`, `slots`: the storage that the implementation defines; `storageDefinitions_eq`.
* `mem_items_field`, `mem_items_initializer`, `nodup_items`: which items there are, each once.
-/

namespace ObjectLowering

namespace TypeDeclaration

/-- What a line of declarations declares of a static field. -/
inductive Role where
  | constant
  | storage
  | getter
  | refGetter
  | setter
  deriving DecidableEq

/-- What a line of declarations declares: something of the field at a position, or the function that
sets up the static state. -/
inductive StaticItem where
  | ofField (position : Nat) (role : Role)
  | initializer
  deriving DecidableEq

/-- The definition of the storage of the field at a position, with internal linkage or without. -/
structure Slot where
  position : Nat
  isInternal : Bool
  deriving DecidableEq

variable {env : Environment} {d : TypeDeclaration}

def accessorRoles (v : VariableBinding) : List Role :=
  [.getter, .refGetter] ++ if v.type.isObject then [.setter] else []

/-- What is declared of a static field, with its storage if other units may use it. -/
def roles (exported : Bool) (v : VariableBinding) : List Role :=
  if v.isPrimitiveConstant then [.constant]
  else (if exported then [.storage] else []) ++ accessorRoles v

def roleText (env : Environment) (d : TypeDeclaration) (exported : Bool) (v : VariableBinding) :
    Role → String
  | .constant => "#define " ++ d.storage v ++ " " ++ (v.constant.map (·.text)).getD ""
  | .storage => linkage ++ Spelling.declaration env v.type (d.storage v) ++ ";"
  | .getter => linkage ++ prototype env (d.accessors v).getter ++ ";"
  | .refGetter => linkage ++ prototype env (d.accessors v).refGetter ++ ";"
  | .setter => linkage ++ prototype env (d.accessors v).setter ++ ";"
where
  linkage : String := if exported then "FOUNDATION_EXPORT " else ""

/-- The line that declares an item. -/
def itemText (env : Environment) (d : TypeDeclaration) (exported : Bool) : StaticItem → String
  | .ofField position role =>
    (d.fields[position]?.map fun f => roleText env d exported f.binding role).getD ""
  | .initializer => (if exported then "FOUNDATION_EXPORT " else "") ++ "void "
      ++ Mangle.typeInitializer d.name ++ "(void);"

/-- Lines between empty lines; nothing if there are none. -/
def block (lines : List String) : String :=
  if lines = [] then "" else "\n" ++ "\n".intercalate lines ++ "\n"

/-- The fields that a test accepts, with their positions. -/
def positioned (d : TypeDeclaration) (test : VariableBinding → Bool) : List (FieldMember × Nat) :=
  d.fields.zipIdx.filter fun entry => test entry.1.binding

/-- What is declared for the static fields chosen by `declared`, for other units if `exported`. -/
def items (d : TypeDeclaration) (declared : VariableBinding → Bool) (exported : Bool) :
    List StaticItem :=
  ((d.positioned fun v => v.isStatic && declared v).flatMap fun entry =>
      (roles exported entry.1.binding).map (.ofField entry.2)) ++
    if (d.storedFields.any (declared ·.binding)) &&
        (exported || !d.storedFields.any (d.isExported ·.binding)) then [.initializer]
    else []

/-- The storage that is defined, with the linkage of each definition. -/
def slots (d : TypeDeclaration) : List Slot :=
  (d.positioned fun v => v.isStatic && !v.isPrimitiveConstant).map fun entry =>
    ⟨entry.2, !d.isExported entry.1.binding⟩

def slotText (env : Environment) (d : TypeDeclaration) (s : Slot) : String :=
  (d.fields[s.position]?.map fun f => (if s.isInternal then "static " else "")
    ++ Spelling.declaration env f.binding.type (d.storage f.binding) ++ ";\n").getD ""

/-! ## Texts by items -/

theorem mem_positioned {test : VariableBinding → Bool} {f : FieldMember} {i : Nat} :
    (f, i) ∈ d.positioned test ↔ d.fields[i]? = some f ∧ test f.binding = true := by
  rw [positioned, List.mem_filter, List.mk_mem_zipIdx_iff_getElem?]

theorem positioned_map_fst (test : VariableBinding → Bool) :
    (d.positioned test).map Prod.fst = d.fields.filter (test ·.binding) := by
  have hmap := List.filter_map (f := Prod.fst) (p := fun f : FieldMember => test f.binding)
    (l := d.fields.zipIdx)
  rw [List.zipIdx_map_fst] at hmap
  exact hmap.symm

theorem storedFields_eq_map : d.storedFields =
    (d.positioned fun v => v.isStatic && !v.isPrimitiveConstant).map Prod.fst := by
  rw [positioned_map_fst, storedFields, staticFields, List.filter_filter]
  refine List.filter_congr fun f _ => ?_
  rw [Bool.and_comm]

theorem map_roleText (exported : Bool) (v : VariableBinding) :
    (roles exported v).map (roleText env d exported v) = d.staticFieldLines env exported v := by
  unfold roles staticFieldLines accessorRoles accessorFunctions
  cases hconstant : v.isPrimitiveConstant with
  | true =>
    have hsome : v.constant.isSome = true := by
      simp only [VariableBinding.isPrimitiveConstant, Bool.and_eq_true] at hconstant
      exact hconstant.2
    obtain ⟨value, hvalue⟩ := Option.isSome_iff_exists.1 hsome
    simp [roleText, hvalue]
  | false =>
    cases exported <;> cases v.type.isObject <;>
      simp [roleText, roleText.linkage]

/-- The lines for the chosen fields are those of the items. -/
theorem staticDeclarations_eq (declared : VariableBinding → Bool) (exported : Bool) :
    d.staticDeclarations env declared exported =
      block ((d.items declared exported).map (d.itemText env exported)) := by
  have hfields : (d.staticFields.filter (declared ·.binding)).flatMap
      (d.staticFieldLines env exported ·.binding) =
        ((d.positioned fun v => v.isStatic && declared v).flatMap fun entry =>
          (roles exported entry.1.binding).map (.ofField entry.2)).map (d.itemText env exported) := by
    have hfilter : d.staticFields.filter (declared ·.binding) =
        (d.positioned fun v => v.isStatic && declared v).map Prod.fst := by
      rw [positioned_map_fst, staticFields, List.filter_filter]
      refine List.filter_congr fun f _ => ?_
      rw [Bool.and_comm]
    rw [hfilter, List.flatMap_map, List.map_flatMap]
    refine List.flatMap_congr fun entry hentry => ?_
    obtain ⟨hfield, -⟩ := mem_positioned.1 hentry
    rw [List.map_map, ← map_roleText]
    refine List.map_congr_left fun role _ => ?_
    rw [Function.comp_apply, itemText, hfield]
    rfl
  have hinitializer : d.initializerLines declared exported =
      (if (d.storedFields.any (declared ·.binding)) &&
          (exported || !d.storedFields.any (d.isExported ·.binding)) then [StaticItem.initializer]
        else []).map (d.itemText env exported) := by
    simp only [initializerLines]
    split <;> rfl
  rw [staticDeclarations, hfields, hinitializer, ← List.map_append]
  rfl

theorem storageDefinitions_eq : d.storageDefinitions env =
    "\n" ++ String.join (d.slots.map (d.slotText env))
      ++ "static _Atomic(jboolean) " ++ Mangle.initializedFlag d.name ++ ";\n"
      ++ "static _Thread_local jboolean " ++ Mangle.initializingFlag d.name ++ ";\n" := by
  have hslots : d.storedFields.map (fun f => (if d.isExported f.binding then "" else "static ")
      ++ Spelling.declaration env f.binding.type (d.storage f.binding) ++ ";\n") =
        d.slots.map (d.slotText env) := by
    rw [storedFields_eq_map, slots, List.map_map, List.map_map]
    refine List.map_congr_left fun entry hentry => ?_
    obtain ⟨hfield, -⟩ := mem_positioned.1 hentry
    simp only [Function.comp_apply, slotText, hfield, Option.map_some, Option.getD_some]
    cases d.isExported entry.1.binding <;> rfl
  simp only [storageDefinitions, hslots]

/-! ## Which items there are -/

theorem mem_items_field {declared : VariableBinding → Bool} {exported : Bool} {i : Nat} {role : Role} :
    .ofField i role ∈ d.items declared exported ↔ ∃ f, d.fields[i]? = some f ∧
      f.binding.isStatic = true ∧ declared f.binding = true ∧ role ∈ roles exported f.binding := by
  have hinitializer : .ofField i role ∉ (if (d.storedFields.any (declared ·.binding)) &&
      (exported || !d.storedFields.any (d.isExported ·.binding)) then [StaticItem.initializer]
        else []) := by
    split <;> simp
  rw [items, List.mem_append, or_iff_left hinitializer, List.mem_flatMap]
  constructor
  · rintro ⟨⟨f, j⟩, hentry, hitem⟩
    obtain ⟨hfield, htest⟩ := mem_positioned.1 hentry
    obtain ⟨role', hrole, heq⟩ := List.mem_map.1 hitem
    cases heq
    obtain ⟨hstatic, hdeclared⟩ := Bool.and_eq_true_iff.1 htest
    exact ⟨f, hfield, hstatic, hdeclared, hrole⟩
  · rintro ⟨f, hfield, hstatic, hdeclared, hrole⟩
    refine ⟨(f, i), mem_positioned.2 ⟨hfield, ?_⟩, List.mem_map_of_mem hrole⟩
    rw [hstatic, hdeclared]
    rfl

theorem mem_items_initializer {declared : VariableBinding → Bool} {exported : Bool} :
    .initializer ∈ d.items declared exported ↔ (∃ f ∈ d.storedFields, declared f.binding = true) ∧
      (exported = true ∨ ∀ f ∈ d.storedFields, d.isExported f.binding = false) := by
  rw [items, List.mem_append, or_iff_right]
  · simp
  · intro hitem
    obtain ⟨entry, -, hitem⟩ := List.mem_flatMap.1 hitem
    obtain ⟨role, -, heq⟩ := List.mem_map.1 hitem
    cases heq

theorem nodup_roles (exported : Bool) (v : VariableBinding) : (roles exported v).Nodup := by
  unfold roles accessorRoles
  cases v.isPrimitiveConstant <;> cases exported <;> cases v.type.isObject <;> decide

theorem nodup_positioned (test : VariableBinding → Bool) :
    ((d.positioned test).map Prod.snd).Nodup := by
  have hsub : ((d.positioned test).map Prod.snd).Sublist (d.fields.zipIdx.map Prod.snd) :=
    List.filter_sublist.map _
  refine hsub.nodup ?_
  rw [List.zipIdx_map_snd]
  exact List.nodup_range'

theorem nodup_items (declared : VariableBinding → Bool) (exported : Bool) :
    (d.items declared exported).Nodup := by
  refine List.nodup_append'.2 ⟨List.nodup_flatMap.2 ⟨fun entry _ => ?_, ?_⟩, ?_, ?_⟩
  · refine (nodup_roles exported entry.1.binding).map fun role role' heq => ?_
    cases heq
    rfl
  · refine (List.pairwise_map.1 (d.nodup_positioned _)).imp fun {entry entry'} hne item hitem hitem' => ?_
    obtain ⟨role, -, rfl⟩ := List.mem_map.1 hitem
    obtain ⟨role', -, heq⟩ := List.mem_map.1 hitem'
    exact hne (StaticItem.ofField.inj heq).1.symm
  · split
    · exact List.nodup_singleton _
    · exact List.nodup_nil
  · intro item hitem hitem'
    obtain ⟨entry, -, hitem⟩ := List.mem_flatMap.1 hitem
    obtain ⟨role, -, rfl⟩ := List.mem_map.1 hitem
    split at hitem' <;> simp at hitem'

end TypeDeclaration

end ObjectLowering
