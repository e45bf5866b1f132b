import Mathlib.Data.List.Nodup
import ObjectLowering.Proofs.Type.Emitted

/-!
# ObjectLowering.Proofs.Type.UnitScope

The names that a type takes up at unit scope for its static fields, and when two of them are the same.

Every such name is that of the type with `_` and a tail, and the tail says nothing of the type.

* `Mangle.identifier_eq_iff`: which fields are written alike.
* `UnitSymbol`, `symbols`: what a type introduces at unit scope.
* `symbolName_eq`: the names of symbols by their tails.
* `Clash`: the ways in which the name of one field gets in the way of another name.
* `eq_or_clash`, `Clash.exists_ne`: two symbols of one name are the same unless there is a clash, and
  a clash makes two symbols of one name.
* `contains_symbolText`: the texts that are generated introduce every symbol.
* `generate_symbols_nodup_iff`: if the names of the static fields of a type differ, the names of its
  symbols differ just if there is no clash.
-/

namespace ObjectLowering

open Text (Occurs)

/-! ## Identifiers -/

namespace Mangle

variable {name other target : String}

theorem identifier_of_reserved (h : isReserved name = true) : identifier name = name ++ "_" :=
  if_pos h

theorem identifier_of_not_reserved (h : isReserved name = false) : identifier name = name :=
  if_neg (Bool.eq_false_iff.1 h)

/-- No reserved word ends in `_`. -/
theorem not_isReserved_append (name : String) : isReserved (name ++ "_") = false := by
  have hend : ∀ word ∈ reservedWords, word.toList.getLast? ≠ some '_' := by decide +kernel
  refine Bool.eq_false_iff.2 fun hmade => hend _ (List.contains_iff_mem.1 hmade) ?_
  simp

/-- Two names are written alike if they are the same, or if one is a reserved word and the other has
`_` appended to it. -/
theorem identifier_eq_iff : identifier name = identifier other ↔ name = other ∨
    isReserved name = true ∧ other = name ++ "_" ∨ isReserved other = true ∧ name = other ++ "_" := by
  constructor
  · intro h
    cases hname : isReserved name <;> cases hother : isReserved other
    · rw [identifier_of_not_reserved hname, identifier_of_not_reserved hother] at h
      exact .inl h
    · rw [identifier_of_not_reserved hname, identifier_of_reserved hother] at h
      exact .inr (.inr ⟨rfl, h⟩)
    · rw [identifier_of_reserved hname, identifier_of_not_reserved hother] at h
      exact .inr (.inl ⟨rfl, h.symm⟩)
    · rw [identifier_of_reserved hname, identifier_of_reserved hother] at h
      exact .inl (String.append_left_inj "_" |>.1 h)
  · rintro (rfl | ⟨h, rfl⟩ | ⟨h, rfl⟩)
    · rfl
    · rw [identifier_of_reserved h, identifier_of_not_reserved (not_isReserved_append _)]
    · rw [identifier_of_reserved h, identifier_of_not_reserved (not_isReserved_append _)]

/-- What is neither a reserved word nor made of one is the identifier of itself only. -/
theorem identifier_eq_iff_of_unlike
    (h : ∀ word ∈ reservedWords, target ≠ word ∧ target ≠ word ++ "_") :
    identifier name = target ↔ name = target := by
  cases hname : isReserved name with
  | false => rw [identifier_of_not_reserved hname]
  | true =>
    obtain ⟨hword, hmade⟩ := h name (List.contains_iff_mem.1 hname)
    rw [identifier_of_reserved hname]
    exact iff_of_false hmade.symm hword.symm

end Mangle

namespace TypeDeclaration

/-! ## Symbols -/

/-- The functions that give access to a static field. -/
inductive Accessor where
  | getter
  | refGetter
  | setter
  deriving DecidableEq

/-- What sets up the static state of a type. -/
inductive StatePart where
  | initializer
  | classInitializer
  | initializedFlag
  | initializingFlag
  deriving DecidableEq

/-- What a type introduces at unit scope: for a static field its storage, or the macro of a constant,
and its accessors; and what sets up the static state. -/
inductive UnitSymbol where
  | slot (v : VariableBinding)
  | accessor (a : Accessor) (v : VariableBinding)
  | state (part : StatePart)
  deriving DecidableEq

variable {d : TypeDeclaration} {env : Environment}

def Accessor.function (f : StaticField) : Accessor → FunctionRef
  | .getter => f.getter
  | .refGetter => f.refGetter
  | .setter => f.setter

namespace StatePart

def all : List StatePart :=
  [.initializer, .classInitializer, .initializedFlag, .initializingFlag]

def name (typeName : String) : StatePart → String
  | .initializer => Mangle.typeInitializer typeName
  | .classInitializer => Mangle.classInitializer typeName
  | .initializedFlag => Mangle.initializedFlag typeName
  | .initializingFlag => Mangle.initializingFlag typeName

def opening : StatePart → String
  | .initializer => "\nvoid "
  | .classInitializer => "\nstatic void "
  | .initializedFlag => "static _Atomic(jboolean) "
  | .initializingFlag => "static _Thread_local jboolean "

def closing : StatePart → String
  | .initializer => "(void) \x7b\n"
  | .classInitializer => "(void) \x7b\n"
  | .initializedFlag => ";\n"
  | .initializingFlag => ";\n"

end StatePart

/-- The accessors that a static field has if it has storage. -/
def accessorsOf (v : VariableBinding) : List Accessor :=
  [.getter, .refGetter] ++ if v.type.isObject then [.setter] else []

def symbols (d : TypeDeclaration) : List UnitSymbol :=
  d.staticFields.map (.slot ·.binding) ++
    d.storedFields.flatMap (fun f => (accessorsOf f.binding).map (.accessor · f.binding)) ++
    if d.hasStaticState then StatePart.all.map .state else []

def symbolName (d : TypeDeclaration) : UnitSymbol → String
  | .slot v => d.storage v
  | .accessor a v => (a.function (d.accessors v)).name
  | .state part => part.name d.name

def slotStart (env : Environment) (d : TypeDeclaration) (v : VariableBinding) : String :=
  if v.isPrimitiveConstant then "#define " ++ d.storage v ++ " "
  else Spelling.declaration env v.type (d.storage v) ++ ";\n"

/-- The start of the definition of a symbol. -/
def symbolText (env : Environment) (d : TypeDeclaration) : UnitSymbol → String
  | .slot v => d.slotStart env v
  | .accessor a v => bodyStart env d.name (a.function (d.accessors v))
  | .state part => part.opening ++ part.name d.name ++ part.closing

section Symbols

variable {a : Accessor} {v : VariableBinding} {part : StatePart}

theorem slot_mem_symbols : .slot v ∈ d.symbols ↔ ∃ f ∈ d.staticFields, f.binding = v := by
  simp [symbols]

theorem accessor_mem_symbols :
    .accessor a v ∈ d.symbols ↔ (∃ f ∈ d.storedFields, f.binding = v) ∧ a ∈ accessorsOf v := by
  simp only [symbols, List.mem_append, List.mem_map, List.mem_flatMap, reduceCtorEq, and_false,
    exists_false, false_or, List.mem_ite_nil_right, or_false, UnitSymbol.accessor.injEq]
  constructor
  · rintro ⟨f, hf, _, ha, rfl, rfl⟩
    exact ⟨⟨f, hf, rfl⟩, ha⟩
  · rintro ⟨⟨f, hf, rfl⟩, ha⟩
    exact ⟨f, hf, a, ha, rfl, rfl⟩

theorem state_mem_symbols : .state part ∈ d.symbols ↔ d.hasStaticState = true := by
  cases part <;> simp [symbols, StatePart.all]

theorem accessorFunctions_eq_map (v : VariableBinding) :
    d.accessorFunctions v = (accessorsOf v).map (·.function (d.accessors v)) := by
  unfold accessorFunctions accessorsOf
  cases v.type.isObject <;> rfl

theorem nodup_accessorsOf (v : VariableBinding) : (accessorsOf v).Nodup := by
  unfold accessorsOf
  cases v.type.isObject <;> decide

/-- Symbols are listed once each. -/
theorem nodup_symbols (hnames : (d.staticFields.map (·.binding.name)).Nodup) : d.symbols.Nodup := by
  have hfields : d.staticFields.Pairwise fun f f' => f.binding ≠ f'.binding :=
    (List.pairwise_map.1 hnames).imp fun hname heq => hname (congrArg _ heq)
  have hstored : d.storedFields.Pairwise fun f f' => f.binding ≠ f'.binding :=
    hfields.sublist List.filter_sublist
  refine List.nodup_append'.2 ⟨List.nodup_append'.2 ⟨?_, ?_, ?_⟩, ?_, ?_⟩
  · exact List.pairwise_map.2 (hfields.imp fun hne heq => hne (UnitSymbol.slot.inj heq))
  · refine List.nodup_flatMap.2 ⟨fun f _ => ?_, hstored.imp fun {f f'} hne s hs hs' => ?_⟩
    · exact (nodup_accessorsOf f.binding).map fun _ _ heq => (UnitSymbol.accessor.inj heq).1
    · obtain ⟨a, -, rfl⟩ := List.mem_map.1 hs
      obtain ⟨a', -, heq⟩ := List.mem_map.1 hs'
      exact hne (UnitSymbol.accessor.inj heq).2.symm
  · intro s hs hs'
    obtain ⟨f, -, rfl⟩ := List.mem_map.1 hs
    simp at hs'
  · split
    · decide
    · exact List.nodup_nil
  · intro s hs hs'
    split at hs'
    · obtain ⟨part, -, rfl⟩ := List.mem_map.1 hs'
      simp at hs
    · cases hs'

end Symbols

/-! ## Names -/

/-- What stands before the name of the field in the name of an accessor. -/
def Accessor.word : Accessor → String
  | .getter => "get_"
  | .refGetter => "getRef_"
  | .setter => "set_"

def StatePart.word : StatePart → String
  | .initializer => "initialize"
  | .classInitializer => "clinit"
  | .initializedFlag => "_initialized"
  | .initializingFlag => "_initializing"

/-- What stands after that of the type in the name of a symbol. -/
def UnitSymbol.tail : UnitSymbol → String
  | .slot v => Mangle.identifier v.name
  | .accessor a v => a.word ++ Mangle.identifier v.name
  | .state part => part.word

theorem symbolName_eq (d : TypeDeclaration) (s : UnitSymbol) :
    d.symbolName s = d.name ++ "_" ++ s.tail := by
  cases s with
  | slot v => rfl
  | accessor a v =>
    have hword (text : String) :
        d.name ++ ("_" ++ a.word) ++ text = d.name ++ "_" ++ (a.word ++ text) := by
      simp only [String.append_assoc]
    rw [UnitSymbol.tail, ← hword]
    cases a <;> rfl
  | state part =>
    have hword : d.name ++ ("_" ++ part.word) = d.name ++ "_" ++ part.word := by
      rw [String.append_assoc]
    rw [UnitSymbol.tail, ← hword]
    cases part <;> rfl

theorem symbolName_eq_iff {s s' : UnitSymbol} : d.symbolName s = d.symbolName s' ↔ s.tail = s'.tail := by
  rw [symbolName_eq, symbolName_eq, String.append_right_inj]

/-! ## Clashes -/

theorem Accessor.word_append_inj {a b : Accessor} {text text' : String}
    (h : a.word ++ text = b.word ++ text') : a = b ∧ text = text' := by
  cases a <;> cases b
  case getter.getter | refGetter.refGetter | setter.setter =>
    exact ⟨rfl, (String.append_right_inj _).1 h⟩
  all_goals
    have hchars := congrArg String.toList h
    simp [Accessor.word] at hchars

theorem Accessor.word_append_ne_word {a : Accessor} {text : String} {part : StatePart} :
    a.word ++ text ≠ part.word := by
  intro h
  have hhead := congrArg (·.toList.head?) h
  cases a <;> cases part <;> simp [Accessor.word, StatePart.word] at hhead

theorem StatePart.word_injective {part part' : StatePart} (h : part.word = part'.word) :
    part = part' := by
  cases part <;> cases part' <;> first | rfl | (simp [StatePart.word] at h)

/-- What begins like an accessor is the identifier of itself only. -/
theorem identifier_eq_accessor_iff {a : Accessor} {name text : String} :
    Mangle.identifier name = a.word ++ text ↔ name = a.word ++ text := by
  have hnone : ∀ word ∈ Mangle.reservedWords, ¬ a.word.toList <+: (word ++ "_").toList := by
    cases a <;> decide +kernel
  refine Mangle.identifier_eq_iff_of_unlike fun word hword => ⟨?_, ?_⟩
  · rintro rfl
    refine hnone _ hword ?_
    rw [String.append_assoc, String.toList_append]
    exact List.prefix_append _ _
  · intro hmade
    refine hnone word hword ?_
    rw [← hmade, String.toList_append]
    exact List.prefix_append _ _

theorem identifier_eq_state_iff {part : StatePart} {name : String} :
    Mangle.identifier name = part.word ↔ name = part.word := by
  refine Mangle.identifier_eq_iff_of_unlike ?_
  cases part <;> decide +kernel

/-- The name of a static field gets in the way of another name. -/
inductive Clash (d : TypeDeclaration) : Prop
  /-- The one field is named like a reserved word, and the other has `_` appended to it. -/
  | reserved {f f' : FieldMember} (hf : f ∈ d.staticFields) (hf' : f' ∈ d.staticFields)
      (hreserved : Mangle.isReserved f.binding.name = true)
      (hname : f'.binding.name = f.binding.name ++ "_")
  /-- The one field is named like an accessor of the other. -/
  | accessor {f f' : FieldMember} {a : Accessor} (hf : f ∈ d.staticFields)
      (hf' : f' ∈ d.storedFields) (ha : a ∈ accessorsOf f'.binding)
      (hname : f.binding.name = a.word ++ Mangle.identifier f'.binding.name)
  /-- The field is named like what sets up the static state. -/
  | state {f : FieldMember} (part : StatePart) (hf : f ∈ d.staticFields)
      (hstate : d.hasStaticState = true) (hname : f.binding.name = part.word)

section Clashes

variable {s s' : UnitSymbol} {v w : VariableBinding}

theorem static_of_stored (h : ∃ f ∈ d.storedFields, f.binding = v) :
    ∃ f ∈ d.staticFields, f.binding = v :=
  h.imp fun _ hf => ⟨(List.mem_filter.1 hf.1).1, hf.2⟩

/-- Two static fields that are written alike are the same, or there is a clash. -/
theorem eq_or_clash_of_identifier (hnames : (d.staticFields.map (·.binding.name)).Nodup)
    (hv : ∃ f ∈ d.staticFields, f.binding = v) (hw : ∃ f ∈ d.staticFields, f.binding = w)
    (h : Mangle.identifier v.name = Mangle.identifier w.name) : v = w ∨ d.Clash := by
  obtain ⟨f, hf, rfl⟩ := hv
  obtain ⟨f', hf', rfl⟩ := hw
  rcases Mangle.identifier_eq_iff.1 h with hname | ⟨hreserved, hname⟩ | ⟨hreserved, hname⟩
  · rw [List.inj_on_of_nodup_map hnames hf hf' hname]
    exact .inl rfl
  · exact .inr (.reserved hf hf' hreserved hname)
  · exact .inr (.reserved hf' hf hreserved hname)

/-- Nothing but a field is named like one, or else there is a clash. -/
theorem clash_of_slot (hv : .slot v ∈ d.symbols) (hs : s ∈ d.symbols) (hslot : ∀ w, s ≠ .slot w)
    (h : (UnitSymbol.slot v).tail = s.tail) : d.Clash := by
  obtain ⟨f, hf, rfl⟩ := slot_mem_symbols.1 hv
  cases s with
  | slot w => exact absurd rfl (hslot w)
  | accessor a w =>
    obtain ⟨⟨f', hf', rfl⟩, ha⟩ := accessor_mem_symbols.1 hs
    exact .accessor hf hf' ha (identifier_eq_accessor_iff.1 h)
  | state part => exact .state part hf (state_mem_symbols.1 hs) (identifier_eq_state_iff.1 h)

/-- Two symbols of one name are the same, or there is a clash. -/
theorem eq_or_clash (hnames : (d.staticFields.map (·.binding.name)).Nodup) (hs : s ∈ d.symbols)
    (hs' : s' ∈ d.symbols) (h : s.tail = s'.tail) : s = s' ∨ d.Clash := by
  cases s with
  | slot v =>
    cases s' with
    | slot w =>
      refine (eq_or_clash_of_identifier hnames (slot_mem_symbols.1 hs) (slot_mem_symbols.1 hs')
        h).imp_left ?_
      rintro rfl
      rfl
    | accessor a w => exact .inr (clash_of_slot hs hs' (by simp) h)
    | state part => exact .inr (clash_of_slot hs hs' (by simp) h)
  | accessor a v =>
    cases s' with
    | slot w => exact .inr (clash_of_slot hs' hs (by simp) h.symm)
    | accessor b w =>
      obtain ⟨rfl, htext⟩ := Accessor.word_append_inj h
      refine (eq_or_clash_of_identifier hnames (static_of_stored (accessor_mem_symbols.1 hs).1)
        (static_of_stored (accessor_mem_symbols.1 hs').1) htext).imp_left ?_
      rintro rfl
      rfl
    | state part => exact absurd h Accessor.word_append_ne_word
  | state part =>
    cases s' with
    | slot w => exact .inr (clash_of_slot hs' hs (by simp) h.symm)
    | accessor a w => exact absurd h.symm Accessor.word_append_ne_word
    | state part' => exact .inl (congrArg _ (StatePart.word_injective h))

/-- A clash makes two symbols of one name. -/
theorem Clash.exists_ne (h : d.Clash) :
    ∃ s ∈ d.symbols, ∃ s' ∈ d.symbols, s ≠ s' ∧ s.tail = s'.tail := by
  cases h with
  | reserved hf hf' hreserved hname =>
    refine ⟨_, slot_mem_symbols.2 ⟨_, hf, rfl⟩, _, slot_mem_symbols.2 ⟨_, hf', rfl⟩, ?_,
      Mangle.identifier_eq_iff.2 (.inr (.inl ⟨hreserved, hname⟩))⟩
    intro heq
    rw [← UnitSymbol.slot.inj heq] at hname
    simpa using congrArg String.length hname
  | accessor hf hf' ha hname =>
    exact ⟨_, slot_mem_symbols.2 ⟨_, hf, rfl⟩, _, accessor_mem_symbols.2 ⟨⟨_, hf', rfl⟩, ha⟩, by simp,
      identifier_eq_accessor_iff.2 hname⟩
  | state part hf hstate hname =>
    exact ⟨_, slot_mem_symbols.2 ⟨_, hf, rfl⟩, .state part, state_mem_symbols.2 hstate, by simp,
      identifier_eq_state_iff.2 hname⟩

theorem nodup_symbolNames_iff (hnames : (d.staticFields.map (·.binding.name)).Nodup) :
    (d.symbols.map d.symbolName).Nodup ↔ ¬ d.Clash := by
  rw [List.nodup_map_iff_inj_on (nodup_symbols hnames)]
  simp only [symbolName_eq_iff]
  constructor
  · intro hinj hclash
    obtain ⟨s, hs, s', hs', hne, htail⟩ := hclash.exists_ne
    exact hne (hinj s hs s' hs' htail)
  · intro hclash s hs s' hs' htail
    exact (eq_or_clash hnames hs hs' htail).resolve_right hclash

end Clashes

/-! ## Texts -/

theorem occurs_name_declaration (env : Environment) (type : TypeRef) (name : String) :
    Occurs name (Spelling.declaration env type name) := by
  unfold Spelling.declaration Spelling.afterType
  split
  · exact (Occurs.refl name).append_left _
  · exact (Occurs.refl name).append_left _

theorem occurs_name_prototype (env : Environment) (f : FunctionRef) :
    Occurs f.name (prototype env f) := by
  have hname (parameters : String) : Occurs f.name (f.name ++ "(" ++ parameters ++ ")") :=
    (((Occurs.refl f.name).append_right _).append_right _).append_right _
  exact (hname _).trans (occurs_name_declaration env f.returnType _)

theorem occurs_symbolName (env : Environment) (d : TypeDeclaration) (s : UnitSymbol) :
    Occurs (d.symbolName s) (d.symbolText env s) := by
  cases s with
  | slot v =>
    rw [symbolName, symbolText, slotStart]
    split
    · exact ((Occurs.refl _).append_left _).append_right _
    · exact (occurs_name_declaration env v.type _).append_right _
  | accessor a v =>
    rw [symbolName, symbolText]
    exact (((((occurs_name_prototype env _).append_left _).append_right _).append_right _).append_right
      _)
  | state part => exact ((Occurs.refl _).append_left _).append_right _

section Texts

variable {c : ImplementationContext} {text : String} {f : FieldMember} {v : VariableBinding}

theorem symbolText_constant (h : v.isPrimitiveConstant = true) :
    d.symbolText env (.slot v) = "#define " ++ d.storage v ++ " " := by
  rw [symbolText, slotStart, if_pos h]

theorem symbolText_stored (h : v.isPrimitiveConstant = false) :
    d.symbolText env (.slot v) = Spelling.declaration env v.type (d.storage v) ++ ";\n" := by
  rw [symbolText, slotStart, if_neg (Bool.eq_false_iff.1 h)]

theorem occurs_constant (hf : f ∈ d.staticFields) (hconstant : f.binding.isPrimitiveConstant = true) :
    Occurs (d.symbolText env (.slot f.binding)) (d.publicText env) ∨
      Occurs (d.symbolText env (.slot f.binding)) (d.privateText env) := by
  have hsome : f.binding.constant.isSome = true := by
    simp only [VariableBinding.isPrimitiveConstant, Bool.and_eq_true] at hconstant
    exact hconstant.2
  obtain ⟨value, hvalue⟩ := Option.isSome_iff_exists.1 hsome
  refine occurs_publicText_or_privateText (v := f.binding) fun declared hdeclared exported => ?_
  have hline : "#define " ++ d.storage f.binding ++ " " ++ value.text ∈
      d.staticFieldLines env exported f.binding := by
    rw [staticFieldLines, if_pos hconstant, hvalue]
    exact List.mem_singleton_self _
  refine occurs_of_staticFieldLine hf hdeclared hline ?_
  rw [symbolText_constant hconstant]
  exact (Occurs.refl _).append_right _

theorem storageDefinitions_eq_symbols : d.storageDefinitions env =
    "\n" ++ String.join (d.storedFields.map fun f =>
        (if d.isExported f.binding then "" else "static ") ++ d.symbolText env (.slot f.binding))
      ++ d.symbolText env (.state .initializedFlag) ++ d.symbolText env (.state .initializingFlag) := by
  have hslots : d.storedFields.map (fun f => (if d.isExported f.binding then "" else "static ")
      ++ Spelling.declaration env f.binding.type (d.storage f.binding) ++ ";\n") =
        d.storedFields.map fun f =>
          (if d.isExported f.binding then "" else "static ") ++ d.symbolText env (.slot f.binding) := by
    refine List.map_congr_left fun f hf => ?_
    rw [symbolText_stored (isPrimitiveConstant_of_stored hf), String.append_assoc]
  simp only [storageDefinitions, hslots]
  simp only [symbolText, StatePart.opening, StatePart.name, StatePart.closing, String.append_assoc]

theorem occurs_typeInitializer :
    Occurs (d.symbolText env (.state .initializer)) d.typeInitializer := by
  obtain ⟨rest, hrest⟩ : ∃ rest,
      d.typeInitializer = d.symbolText env (.state .initializer) ++ rest := by
    unfold typeInitializer
    simp only [symbolText, StatePart.opening, StatePart.name, StatePart.closing, String.append_assoc]
    exact ⟨_, rfl⟩
  rw [hrest]
  exact (Occurs.refl _).append_right rest

theorem occurs_classInitializer (h : d.classInitializer c = .ok text) :
    Occurs (d.symbolText env (.state .classInitializer)) text := by
  obtain ⟨stores, -, h⟩ := bind_eq_ok h
  cases h
  exact ((Occurs.refl _).append_right _).append_right _

/-- What sets up the static state, and the storage, is defined in the implementation. -/
theorem occurs_state (h : d.implementation c = .ok text) (hstate : d.hasStaticState = true)
    (part : StatePart) : Occurs (d.symbolText c.env (.state part)) text := by
  obtain ⟨methods, initializer, hinitializer, rfl⟩ := implementation_of_state h hstate
  rw [storageDefinitions_eq_symbols]
  cases part with
  | initializer =>
    exact ((occurs_typeInitializer.append_left _).append_right _).append_left _
  | classInitializer =>
    exact (((occurs_classInitializer hinitializer).append_right _).append_right _).append_left _
  | initializedFlag =>
    exact ((((Occurs.refl _).append_left _).append_right _).append_right _).append_right _
  | initializingFlag =>
    exact (((Occurs.refl _).append_left _).append_right _).append_right _

theorem occurs_slot (h : d.implementation c = .ok text) (hf : f ∈ d.storedFields) :
    Occurs (d.symbolText c.env (.slot f.binding)) text := by
  obtain ⟨methods, initializer, -, rfl⟩ := implementation_of_state h (hasStaticState_of_stored hf)
  rw [storageDefinitions_eq_symbols]
  have hline := (Occurs.refl (d.symbolText c.env (.slot f.binding))).append_left
    (if d.isExported f.binding then "" else "static ")
  exact (((((hline.in_join (List.mem_map.2 ⟨f, hf, rfl⟩)).append_left _).append_right _).append_right
    _).append_right _).append_right _

end Texts

end TypeDeclaration

namespace GeneratedType

/-- The text occurs in what is declared of the type or in its implementation. -/
def Contains (g : GeneratedType) (text : String) : Prop :=
  Occurs text g.publicDeclaration ∨ Occurs text g.privateDeclaration ∨ Occurs text g.implementation

theorem contains_symbolText {g : GeneratedType} {c : GenerationContext} {t : Tree} {id : NodeId}
    {d : TypeDeclaration} (hd : g.GeneratedFrom c t id d) {s : TypeDeclaration.UnitSymbol}
    (hs : s ∈ d.symbols) : g.Contains (d.symbolText c.env s) := by
  cases s with
  | slot v =>
    obtain ⟨f, hf, rfl⟩ := TypeDeclaration.slot_mem_symbols.1 hs
    cases hconstant : f.binding.isPrimitiveConstant with
    | true =>
      rw [Contains, hd.publicDeclaration, hd.privateDeclaration, ← or_assoc]
      exact .inl (TypeDeclaration.occurs_constant hf hconstant)
    | false =>
      have hstored : f ∈ d.storedFields := List.mem_filter.2 ⟨hf, by rw [hconstant]; rfl⟩
      have hslot := TypeDeclaration.occurs_slot hd.implementation hstored
      exact .inr (.inr hslot)
  | accessor a v =>
    obtain ⟨⟨f, hf, rfl⟩, ha⟩ := TypeDeclaration.accessor_mem_symbols.1 hs
    refine .inr (.inr (TypeDeclaration.occurs_implementation hd.implementation
      (List.mem_flatMap.2 ⟨f, hf, ?_⟩)))
    rw [TypeDeclaration.accessorFunctions_eq_map]
    exact List.mem_map.2 ⟨a, ha, rfl⟩
  | state part =>
    exact .inr (.inr (TypeDeclaration.occurs_state hd.implementation
      (TypeDeclaration.state_mem_symbols.1 hs) part))

/-- If the static fields of a type have different names, the names that it takes up at unit scope differ
just if no name of a static field gets in the way of another name. -/
theorem generate_symbols_nodup_iff {c : GenerationContext} {t : Tree} {id : NodeId}
    {g : GeneratedType} (h : generate c t id = .ok g) :
    ∃ d, TypeDeclaration.ofTree c.env t id = .ok d ∧
      (∀ s ∈ d.symbols, Occurs (d.symbolName s) (d.symbolText c.env s) ∧
        g.Contains (d.symbolText c.env s)) ∧
      ((d.staticFields.map (·.binding.name)).Nodup →
        ((d.symbols.map d.symbolName).Nodup ↔ ¬ d.Clash)) := by
  obtain ⟨d, hd⟩ := exists_generatedFrom h
  exact ⟨d, hd.declaration, fun s hs => ⟨d.occurs_symbolName c.env s, contains_symbolText hd hs⟩,
    TypeDeclaration.nodup_symbolNames_iff⟩

/-- A public class with two static fields. -/
def scopeContext (first second : String) : GenerationContext where
  env := {
    types := #[{ name := ⟨[], ["A"]⟩, hash := ⟨1⟩ }]
    vars := #[
      { name := first, kind := .field, declaringType := some ⟨1⟩, type := .primitive .int
        visibility := .publicAccess, modifiers := { isStatic := true } },
      { name := second, kind := .field, declaringType := some ⟨1⟩, type := .primitive .int
        visibility := .publicAccess, modifiers := { isStatic := true } }] }
  options := {}
  headers := .empty
  locals := [⟨1⟩]
  strings := .empty

def scopeTree : Tree where
  nodes := #[
    { kind := .fieldDecl 0 none, parent := some 2 },
    { kind := .fieldDecl 1 none, parent := some 2 },
    { kind := .typeDecl (some ⟨1⟩) [0, 1] }]

/-- A reserved word alone does no harm. -/
theorem generate_symbols_nodup_iff_reserved : ∃ g d,
    generate (scopeContext "x" "id") scopeTree 2 = .ok g ∧
      TypeDeclaration.ofTree (scopeContext "x" "id").env scopeTree 2 = .ok d ∧
      (d.staticFields.map (·.binding.name)).Nodup ∧
      d.symbols.map d.symbolName = ["A_x", "A_id_", "A_get_x", "A_getRef_x", "A_get_id_",
        "A_getRef_id_", "A_initialize", "A_clinit", "A__initialized", "A__initializing"] ∧
      ¬ d.Clash := by
  obtain ⟨g, hg⟩ : ∃ g, generate (scopeContext "x" "id") scopeTree 2 = .ok g :=
    ⟨_, eq_ok_get (by decide +kernel)⟩
  obtain ⟨d, hd, -, hiff⟩ := generate_symbols_nodup_iff hg
  have hnames : d.staticFields.map (·.binding.name) = ["x", "id"] ∧
      d.symbols.map d.symbolName = ["A_x", "A_id_", "A_get_x", "A_getRef_x", "A_get_id_",
        "A_getRef_id_", "A_initialize", "A_clinit", "A__initialized", "A__initializing"] := by
    cases (eq_ok_get (by decide +kernel)).symm.trans hd
    decide +kernel
  have hnodup : (d.staticFields.map (·.binding.name)).Nodup := by
    rw [hnames.1]
    decide
  refine ⟨g, d, hg, hd, hnodup, hnames.2, (hiff hnodup).1 ?_⟩
  rw [hnames.2]
  decide +kernel

/-- The storage of the field `get_x` is called like the getter of the field `x`. -/
theorem symbols_clash : ∃ g d, generate (scopeContext "x" "get_x") scopeTree 2 = .ok g ∧
    TypeDeclaration.ofTree (scopeContext "x" "get_x").env scopeTree 2 = .ok d ∧
    (d.staticFields.map (·.binding.name)).Nodup ∧ "" ∉ d.staticFields.map (·.binding.name) ∧
    ¬ (d.symbols.map d.symbolName).Nodup ∧
    g.publicDeclaration = "\n@interface A : NSObject\n\n@end\n\n"
      ++ "FOUNDATION_EXPORT jint A_x;\nFOUNDATION_EXPORT jint A_get_x(void);\n"
      ++ "FOUNDATION_EXPORT jint *A_getRef_x(void);\nFOUNDATION_EXPORT jint A_get_x;\n"
      ++ "FOUNDATION_EXPORT jint A_get_get_x(void);\nFOUNDATION_EXPORT jint *A_getRef_get_x(void);\n"
      ++ "FOUNDATION_EXPORT void A_initialize(void);\n" := by
  refine ⟨_, _, eq_ok_get (by decide +kernel), eq_ok_get (by decide +kernel), ?_⟩
  decide +kernel

end GeneratedType

end ObjectLowering
