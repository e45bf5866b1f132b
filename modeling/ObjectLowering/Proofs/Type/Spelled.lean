import Mathlib.Data.List.Basic
import ObjectLowering.Proofs.Selector
import ObjectLowering.Proofs.Type.Emitted

/-!
# ObjectLowering.Proofs.Type.Spelled

The types that the declarations of a type spell: those of instance variables, of the results and
parameters of methods, and of static fields.

* `publicTypes`, `privateTypes`: the types that are spelled in the declaration file and in the
  implementation file.
* `occurs_publicText`, `occurs_privateText`: every one of them is spelled there.
* `publicText_congr`, `privateText_congr`: no others are. The text depends on the environment in the
  spelling of these types and in the names of supertypes only.
* `publicTypes_subset`, `privateTypes_subset`: what is spelled counts as mentioned.
-/

namespace ObjectLowering

open Text (Occurs)

namespace Spelling

variable {env env' : Environment} {type : TypeRef}

theorem occurs_afterType (type rest : String) : Occurs type (afterType type rest) := by
  unfold afterType
  split
  · exact (Occurs.refl _).append_right _
  · exact ((Occurs.refl _).append_right _).append_right _

theorem declaration_congr (h : typeName env type = typeName env' type) (name : String) :
    declaration env type name = declaration env' type name := by
  rw [declaration, declaration, h]

theorem typeName_pointer_congr (h : typeName env type = typeName env' type) :
    typeName env (.pointer type) = typeName env' (.pointer type) := by
  rw [typeName, typeName, h]

end Spelling

theorem Selector.occurs_spelled {text : String} {texts : List String} (h : text ∈ texts)
    (name : String) : Occurs text (spelled name texts) := by
  obtain ⟨i, hi, rfl⟩ := List.mem_iff_getElem.1 h
  have hpiece : keyword name i ++ ":" ++ texts[i] ∈ pieces name texts :=
    List.mem_mapIdx.2 ⟨i, hi, rfl⟩
  rw [spelled_eq name (List.ne_nil_of_mem h)]
  exact Occurs.in_intercalate ((Occurs.refl _).append_left _) hpiece _

namespace TypeDeclaration

variable {env env' : Environment} {d : TypeDeclaration} {type : TypeRef}
  {declared : VariableBinding → Bool}

/-- The types that the interface of a type spells. A protocol has no instance variables. -/
def interfaceTypes (d : TypeDeclaration) : List TypeRef :=
  (if d.binding.isInterface then [] else d.instanceFields.map (·.binding.type))
    ++ d.methods.flatMap fun m => m.method.returnType :: m.parameters.map (·.type)

/-- The types that the declarations of static fields spell. Constants are written as macros. -/
def staticTypes (d : TypeDeclaration) (declared : VariableBinding → Bool) : List TypeRef :=
  (d.storedFields.filter (declared ·.binding)).map (·.binding.type)

def publicTypes (d : TypeDeclaration) : List TypeRef :=
  if d.binding.isPrivate then [] else d.interfaceTypes ++ d.staticTypes d.isExported

def privateTypes (d : TypeDeclaration) : List TypeRef :=
  if d.binding.isPrivate then d.interfaceTypes ++ d.staticTypes fun _ => true
  else d.staticTypes fun v => !d.isExported v

/-! ## Every type is spelled -/

theorem occurs_instanceVariables (h : type ∈ d.instanceFields.map (·.binding.type)) :
    Occurs (Spelling.typeName env type) (d.instanceVariables env) := by
  obtain ⟨f, hf, rfl⟩ := List.mem_map.1 h
  unfold instanceVariables
  split
  · rename_i hnil
    rw [hnil] at hf
    cases hf
  · refine ((Occurs.in_join ?_ (List.mem_map.2 ⟨f, hf, rfl⟩)).append_left _).append_right _
    exact ((Spelling.occurs_afterType _ _).append_left _).append_right _

theorem occurs_methodSignature {m : MethodMember}
    (h : type ∈ m.method.returnType :: m.parameters.map (·.type)) :
    Occurs (Spelling.typeName env type) (methodSignature env m) := by
  rw [methodSignature_eq]
  rcases List.mem_cons.1 h with rfl | h
  · exact (((Occurs.refl _).append_left _).append_right _).append_right _
  · obtain ⟨v, hv, rfl⟩ := List.mem_map.1 h
    have hparameter : Occurs (Spelling.typeName env v.type) (parameterText env v) :=
      (((Occurs.refl _).append_left _).append_right _).append_right _
    have hmem := List.mem_map_of_mem (f := parameterText env) hv
    exact (hparameter.trans (Selector.occurs_spelled hmem m.method.name)).append_left _

theorem occurs_interface (h : type ∈ d.interfaceTypes) :
    Occurs (Spelling.typeName env type) (d.interface env) := by
  rcases List.mem_append.1 h with h | h
  · cases hinterface : d.binding.isInterface with
    | true =>
      rw [hinterface] at h
      cases h
    | false =>
      rw [hinterface] at h
      rw [interface, hinterface]
      exact ((((occurs_instanceVariables h).append_left _).append_right _).append_right
        _).append_right _
  · obtain ⟨m, hm, h⟩ := List.mem_flatMap.1 h
    have hline : Occurs (Spelling.typeName env type) ("\n" ++ methodSignature env m ++ ";\n") :=
      ((occurs_methodSignature h).append_left _).append_right _
    exact ((hline.in_join (List.mem_map.2 ⟨m, hm, rfl⟩)).append_left _).append_right _

/-- The type of a field is spelled where its accessors are declared. -/
theorem occurs_staticTypes (h : type ∈ d.staticTypes declared) (exported : Bool) :
    Occurs (Spelling.typeName env type) (d.staticDeclarations env declared exported) := by
  obtain ⟨f, hf, rfl⟩ := List.mem_map.1 h
  obtain ⟨hf, hdeclared⟩ := List.mem_filter.1 hf
  have hgetter : (d.accessors f.binding).getter ∈ d.accessorFunctions f.binding :=
    List.mem_append_left _ List.mem_cons_self
  have hprototype : Occurs (Spelling.typeName env f.binding.type)
      (prototype env (d.accessors f.binding).getter ++ ";") :=
    (Spelling.occurs_afterType _ _).append_right _
  exact hprototype.trans (occurs_staticDeclarations hf hdeclared hgetter exported)

theorem occurs_publicText (h : type ∈ d.publicTypes) :
    Occurs (Spelling.typeName env type) (d.publicText env) := by
  unfold publicTypes at h
  unfold publicText
  split
  · rename_i hprivate
    rw [if_pos hprivate] at h
    cases h
  · rename_i hpublic
    rw [if_neg hpublic] at h
    rcases List.mem_append.1 h with h | h
    · exact (occurs_interface h).append_right _
    · exact (occurs_staticTypes h true).append_left _

theorem occurs_privateText (h : type ∈ d.privateTypes) :
    Occurs (Spelling.typeName env type) (d.privateText env) := by
  unfold privateTypes at h
  unfold privateText
  split
  · rename_i hprivate
    rw [if_pos hprivate] at h
    rcases List.mem_append.1 h with h | h
    · exact (occurs_interface h).append_right _
    · exact (occurs_staticTypes h false).append_left _
  · rename_i hpublic
    rw [if_neg hpublic] at h
    exact occurs_staticTypes h false

/-! ## No other types are spelled -/

theorem headline_congr (h : ∀ x ∈ d.binding.supertypes, env.fullName? x = env'.fullName? x) :
    d.headline env = d.headline env' := by
  have hinterfaces : d.protocols env = d.protocols env' :=
    List.filterMap_congr fun x hx => h x (List.mem_append_right _ hx)
  have hsuperclass : d.binding.superclass.bind env.fullName? =
      d.binding.superclass.bind env'.fullName? := by
    cases hs : d.binding.superclass with
    | none => rfl
    | some x => exact h x (List.mem_append_left _ (by rw [hs]; exact List.mem_cons_self))
  rw [headline, headline, hinterfaces, hsuperclass]

theorem instanceVariables_congr (h : ∀ type ∈ d.instanceFields.map (·.binding.type),
    Spelling.typeName env type = Spelling.typeName env' type) :
    d.instanceVariables env = d.instanceVariables env' := by
  have hlines : (d.instanceFields.map fun f => "  " ++ Spelling.declaration env f.binding.type
        (Mangle.instanceVariable f.binding.name) ++ ";\n") =
      d.instanceFields.map fun f => "  " ++ Spelling.declaration env' f.binding.type
        (Mangle.instanceVariable f.binding.name) ++ ";\n" := by
    refine List.map_congr_left fun f hf => ?_
    rw [Spelling.declaration_congr (h _ (List.mem_map_of_mem hf))]
  unfold instanceVariables
  split
  · rfl
  · rw [hlines]

theorem methodSignature_congr {m : MethodMember}
    (h : ∀ type ∈ m.method.returnType :: m.parameters.map (·.type),
      Spelling.typeName env type = Spelling.typeName env' type) :
    methodSignature env m = methodSignature env' m := by
  have hparameters : m.parameters.map (parameterText env) = m.parameters.map (parameterText env') := by
    refine List.map_congr_left fun v hv => ?_
    rw [parameterText, parameterText, h _ (List.mem_cons_of_mem _ (List.mem_map_of_mem hv))]
  rw [methodSignature_eq, methodSignature_eq, hparameters, signatureStart, signatureStart,
    h _ List.mem_cons_self]

theorem interface_congr
    (hsuper : ∀ x ∈ d.binding.supertypes, env.fullName? x = env'.fullName? x)
    (h : ∀ type ∈ d.interfaceTypes, Spelling.typeName env type = Spelling.typeName env' type) :
    d.interface env = d.interface env' := by
  have hstorage : (if d.binding.isInterface then "" else d.instanceVariables env) =
      if d.binding.isInterface then "" else d.instanceVariables env' := by
    split
    · rfl
    · rename_i hclass
      refine instanceVariables_congr fun type htype => h type (List.mem_append_left _ ?_)
      rwa [if_neg hclass]
  have hmethods : (d.methods.map fun m => "\n" ++ methodSignature env m ++ ";\n") =
      d.methods.map fun m => "\n" ++ methodSignature env' m ++ ";\n" := by
    refine List.map_congr_left fun m hm => ?_
    rw [methodSignature_congr fun type htype =>
      h type (List.mem_append_right _ (List.mem_flatMap.2 ⟨m, hm, htype⟩))]
  rw [interface, interface, headline_congr hsuper, hstorage, hmethods]

theorem prototype_congr {v : VariableBinding}
    (h : Spelling.typeName env v.type = Spelling.typeName env' v.type) {f : FunctionRef}
    (hf : f ∈ d.accessorFunctions v) : prototype env f = prototype env' f := by
  have hresult (name : String) := Spelling.declaration_congr h name
  have hreference (name : String) :=
    Spelling.declaration_congr (Spelling.typeName_pointer_congr h) name
  rcases List.mem_append.1 hf with hf | hf
  · rcases List.mem_cons.1 hf with rfl | hf
    · exact hresult _
    · rw [List.mem_singleton.1 hf]
      exact hreference _
  · split at hf
    · rw [List.mem_singleton.1 hf]
      simp only [prototype, StaticField.setter, accessors, List.map_cons, List.map_nil, hresult]
    · cases hf

theorem staticFieldLines_congr {v : VariableBinding} (exported : Bool)
    (h : v.isPrimitiveConstant = false →
      Spelling.typeName env v.type = Spelling.typeName env' v.type) :
    d.staticFieldLines env exported v = d.staticFieldLines env' exported v := by
  cases hconst : v.isPrimitiveConstant with
  | true => simp only [staticFieldLines, hconst, if_true]
  | false =>
    have hprototypes : (d.accessorFunctions v).map (prototype env) =
        (d.accessorFunctions v).map (prototype env') :=
      List.map_congr_left fun f hf => prototype_congr (h hconst) hf
    simp only [staticFieldLines, hprototypes, Spelling.declaration_congr (h hconst)]

theorem staticDeclarations_congr (exported : Bool)
    (h : ∀ type ∈ d.staticTypes declared,
      Spelling.typeName env type = Spelling.typeName env' type) :
    d.staticDeclarations env declared exported = d.staticDeclarations env' declared exported := by
  have hlines : (d.staticFields.filter (declared ·.binding)).map
        (d.staticFieldLines env exported ·.binding) =
      (d.staticFields.filter (declared ·.binding)).map
        (d.staticFieldLines env' exported ·.binding) := by
    refine List.map_congr_left fun f hf => staticFieldLines_congr exported fun hstored => ?_
    obtain ⟨hstatic, hdeclared⟩ := List.mem_filter.1 hf
    refine h _ (List.mem_map_of_mem (List.mem_filter.2 ⟨List.mem_filter.2 ⟨hstatic, ?_⟩, hdeclared⟩))
    rw [hstored]
    rfl
  rw [staticDeclarations, staticDeclarations, List.flatMap_def, List.flatMap_def, hlines]

theorem publicText_congr
    (hsuper : ∀ x ∈ d.binding.supertypes, env.fullName? x = env'.fullName? x)
    (h : ∀ type ∈ d.publicTypes, Spelling.typeName env type = Spelling.typeName env' type) :
    d.publicText env = d.publicText env' := by
  unfold publicTypes at h
  unfold publicText
  split
  · rfl
  · rename_i hpublic
    rw [if_neg hpublic] at h
    rw [interface_congr hsuper fun type htype => h type (List.mem_append_left _ htype),
      staticDeclarations_congr true fun type htype => h type (List.mem_append_right _ htype)]

theorem privateText_congr
    (hsuper : ∀ x ∈ d.binding.supertypes, env.fullName? x = env'.fullName? x)
    (h : ∀ type ∈ d.privateTypes, Spelling.typeName env type = Spelling.typeName env' type) :
    d.privateText env = d.privateText env' := by
  unfold privateTypes at h
  unfold privateText
  split
  · rename_i hprivate
    rw [if_pos hprivate] at h
    rw [interface_congr hsuper fun type htype => h type (List.mem_append_left _ htype),
      staticDeclarations_congr false fun type htype => h type (List.mem_append_right _ htype)]
  · rename_i hpublic
    rw [if_neg hpublic] at h
    exact staticDeclarations_congr false h

/-! ## Spelled types are mentioned -/

theorem interfaceTypes_subset (h : type ∈ d.interfaceTypes) : type ∈ d.surfaceTypes := by
  rcases List.mem_append.1 h with h | h
  · split at h
    · cases h
    · obtain ⟨f, hf, rfl⟩ := List.mem_map.1 h
      obtain ⟨hf, hinstance⟩ := List.mem_filter.1 hf
      refine List.mem_append_left _ (List.mem_map_of_mem (List.mem_filter.2 ⟨hf, ?_⟩))
      simp only [hinstance, Bool.true_or]
  · exact List.mem_append_right _ h

theorem staticTypes_subset (h : type ∈ d.staticTypes declared)
    (hsurface : ∀ v, declared v = true → (d.isExported v || d.binding.isPrivate) = true) :
    type ∈ d.surfaceTypes := by
  obtain ⟨f, hf, rfl⟩ := List.mem_map.1 h
  obtain ⟨hstored, hdeclared⟩ := List.mem_filter.1 hf
  obtain ⟨hstatic, -⟩ := List.mem_filter.1 hstored
  obtain ⟨hf, -⟩ := List.mem_filter.1 hstatic
  refine List.mem_append_left _ (List.mem_map_of_mem (List.mem_filter.2 ⟨hf, ?_⟩))
  simp only [Bool.or_assoc, hsurface _ hdeclared, Bool.or_true]

theorem publicTypes_subset (h : type ∈ d.publicTypes) :
    d.binding.isPrivate = false ∧ type ∈ d.surfaceTypes := by
  unfold publicTypes at h
  split at h
  · cases h
  · rename_i hpublic
    refine ⟨by simpa using hpublic, ?_⟩
    rcases List.mem_append.1 h with h | h
    · exact interfaceTypes_subset h
    · refine staticTypes_subset h fun v hv => ?_
      rw [hv, Bool.true_or]

theorem privateTypes_subset (h : type ∈ d.privateTypes) :
    d.binding.isPrivate = true ∧ type ∈ d.surfaceTypes ∨ type ∈ d.hiddenTypes := by
  unfold privateTypes at h
  split at h
  · rename_i hprivate
    refine .inl ⟨hprivate, ?_⟩
    rcases List.mem_append.1 h with h | h
    · exact interfaceTypes_subset h
    · refine staticTypes_subset h fun v _ => ?_
      rw [hprivate, Bool.or_true]
  · rename_i hpublic
    obtain ⟨f, hf, rfl⟩ := List.mem_map.1 h
    obtain ⟨hstored, hhidden⟩ := List.mem_filter.1 hf
    obtain ⟨hstatic, -⟩ := List.mem_filter.1 hstored
    refine .inr (List.mem_map_of_mem (List.mem_filter.2 ⟨hstatic, ?_⟩))
    simpa [hpublic] using hhidden

end TypeDeclaration

end ObjectLowering
