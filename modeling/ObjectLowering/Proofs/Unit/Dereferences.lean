import ObjectLowering.Proofs.Text.Occurs
import ObjectLowering.Proofs.Unit.Includes
import ObjectLowering.Tree.Render

/-!
# ObjectLowering.Proofs.Unit.Dereferences

Fields of objects, and whether the types that declare them are included.

* `Tree.Dereferences`: a node stands for a field of the object that another node stands for.
* `Renderer.expressionFrom_dereference`: it is written as an access through a pointer, for which the
  type of the object must be declared.
* `dereferenced_included_iff`: the file includes the header of that type if it needs it for another
  reason, and only then.
-/

namespace ObjectLowering

open Text (Occurs)

/-- The node is the field `v` of the object that the node `base` stands for. -/
def Tree.Dereferences (t : Tree) (env : Environment) (n base : NodeId) (v : VariableBinding) : Prop :=
  ∃ name text var, (t.kind? n = some (.qualifiedName base name) ∨
      t.kind? n = some (.fieldAccess base name)) ∧
    t.kind? name = some (.simpleName text (some (.ofVariable var))) ∧
    env.variableAt? var = some v ∧ v.isField = true ∧ v.isStatic = false

namespace Renderer

variable {r : Renderer}

theorem variableName_of_instanceField {env : Environment} {v : VariableBinding}
    (hfield : v.isField = true) (hinstance : v.isStatic = false) :
    Spelling.variableName env v = Mangle.instanceVariable v.name := by
  have hkind : v.kind = .field := of_decide_eq_true hfield
  simp only [Spelling.variableName, hkind, hinstance]

theorem member_of_instanceField {base : Unit → Except TreeError String} {name : NodeId}
    {separator text : String} {bound : String} {var : VarId} {v : VariableBinding}
    (hname : r.tree.kind? name = some (.simpleName bound (some (.ofVariable var))))
    (hv : r.env.variableAt? var = some v) (hfield : v.isField = true)
    (hinstance : v.isStatic = false) (h : r.member base name separator = .ok text) :
    ∃ target, base () = .ok target ∧ text = target ++ "->" ++ Mangle.instanceVariable v.name := by
  obtain ⟨node, hnode, hkind⟩ := Option.map_eq_some_iff.1 hname
  obtain ⟨node', hnode', h⟩ := TypeDeclaration.bind_eq_ok h
  obtain rfl : node = node' := Option.some.inj (hnode.symm.trans (Tree.node?_of_node hnode'))
  simp only [hkind, hv, hinstance, if_neg Bool.false_ne_true] at h
  obtain ⟨target, htarget, h⟩ := TypeDeclaration.bind_eq_ok h
  cases h
  exact ⟨target, htarget, by rw [variableName_of_instanceField hfield hinstance]⟩

/-- A field of an object is written behind the object and an arrow. -/
theorem expressionFrom_dereference {n base : NodeId} {v : VariableBinding}
    (hd : r.tree.Dereferences r.env n base v) {depth : Nat} {text : String}
    (h : r.expressionFrom (depth + 1) n = .ok text) :
    ∃ target, r.expressionFrom depth base = .ok target ∧
      Occurs (target ++ "->" ++ Mangle.instanceVariable v.name) text := by
  obtain ⟨name, bound, var, hn, hname, hv, hfield, hinstance⟩ := hd
  obtain ⟨node, hnode, h⟩ := TypeDeclaration.bind_eq_ok h
  have hkind : r.tree.kind? n = some node.kind := by
    rw [Tree.kind?, Tree.node?_of_node hnode]
    rfl
  have hmember {separator inner : String}
      (hm : r.member (fun _ => r.expressionFrom depth base) name separator = .ok inner)
      (htext : (if node.nilCheck then "nil_chk" ++ enclose inner else inner) = text) :
      ∃ target, r.expressionFrom depth base = .ok target ∧
        Occurs (target ++ "->" ++ Mangle.instanceVariable v.name) text := by
    obtain ⟨target, htarget, rfl⟩ := member_of_instanceField hname hv hfield hinstance hm
    refine ⟨target, htarget, ?_⟩
    rw [← htext]
    split
    · exact (((Occurs.refl _).append_left _).append_right _).append_left _
    · exact .refl _
  rw [hkind] at hn
  rcases hn with hn | hn
  · rw [Option.some.inj hn] at h
    obtain ⟨inner, hm, h⟩ := TypeDeclaration.bind_eq_ok h
    exact hmember hm (Except.ok.inj h)
  · rw [Option.some.inj hn] at h
    obtain ⟨inner, hm, h⟩ := TypeDeclaration.bind_eq_ok h
    exact hmember hm (Except.ok.inj h)

end Renderer

namespace GenerationUnit

variable {u : GenerationUnit} {trees : List Tree} {options : Options} {policy : ImportPolicy}
  {x : TypeHash} {b : TypeBinding}

/-- The header is there for the sake of another type than `x`, or in any case. -/
def NamesAnyway (u : GenerationUnit) (env : Environment) (options : Options) (headers : HeaderMap)
    (policy : ImportPolicy) (trees : List Tree) (x : TypeHash) (header : String) : Prop :=
  (∃ y, y ≠ x ∧ NeededIn trees env y ∧ ¬ u.Declares y ∧
      ∃ b, env.type? y = some b ∧ b.nativeName = none ∧ headers.headerFor b.name = header) ∨
    header = options.runtimeSourceHeader ∨ header = u.headerPath ∨
      policy header = false ∧ u.ExtendsFrom env headers header

/-- A header is included or reported if it is required or fixed, or if it is refused to the
declaration file. -/
theorem names_iff {c : GenerationContext} (hbuilt : u.BuiltFrom c trees) {header : String} :
    (header ∈ (u.implementationDependencies options policy).includes ∨
        header ∈ (u.emit options policy).unimportable) ↔
      u.Requires c.env c.headers trees header ∨
        header = options.runtimeSourceHeader ∨ header = u.headerPath ∨
          policy header = false ∧ u.ExtendsFrom c.env c.headers header := by
  have hu : ∀ g ∈ u.types, g.Generated c.env c.headers := fun g hg => hbuilt.isGenerated hg
  rw [mem_unimportable_emit_iff, mem_includes_implementation_iff hbuilt,
    mem_unimportable_implementation_iff hbuilt, mem_unimportable_header_iff hu]
  cases policy header with
  | true => simp [or_comm, or_left_comm]
  | false => simp [or_assoc, or_left_comm]

/-- The header of a type from outside is required for its own sake or for that of another type. -/
theorem requires_iff {env : Environment} {headers : HeaderMap} (hb : env.type? x = some b)
    (hnative : b.nativeName = none) (hout : ¬ u.Declares x) :
    u.Requires env headers trees (headers.headerFor b.name) ↔ NeededIn trees env x ∨
      ∃ y, y ≠ x ∧ NeededIn trees env y ∧ ¬ u.Declares y ∧
        ∃ b', env.type? y = some b' ∧ b'.nativeName = none ∧
          headers.headerFor b'.name = headers.headerFor b.name := by
  constructor
  · rintro ⟨y, hy, hrest⟩
    by_cases hxy : y = x
    · exact .inl (hxy ▸ hy)
    · exact .inr ⟨y, hxy, hy, hrest⟩
  · rintro (hx | ⟨y, -, hy⟩)
    · exact ⟨x, hx, hout, b, hb, hnative, rfl⟩
    · exact ⟨y, hy⟩

/-- A field of an object is written as an access through a pointer. The header of the type from
outside that declares the field is included or reported if the unit needs the type for another
reason than this, or if the header is there anyway. -/
theorem dereferenced_included_iff {plan : UnitPlan} {env : Environment} {headers : HeaderMap}
    (h : build plan trees env options headers = .ok u) (policy : ImportPolicy) :
    ∀ t ∈ trees, ∀ id ∈ t.typeDecls, ∀ n ∈ t.descendants id, ∀ base v x b,
      t.Dereferences env n base v → v.declaringType = some x → env.type? x = some b →
        b.nativeName = none → ¬ u.Declares x →
        (∀ slot? depth text, Renderer.expressionFrom ⟨t, env, slot?⟩ (depth + 1) n = .ok text →
          ∃ target, Renderer.expressionFrom ⟨t, env, slot?⟩ depth base = .ok target ∧
            Occurs (target ++ "->" ++ Mangle.instanceVariable v.name) text) ∧
        ((headers.headerFor b.name ∈ (u.implementationDependencies options policy).includes ∨
            headers.headerFor b.name ∈ (u.emit options policy).unimportable) ↔
          NeededIn trees env x ∨
            u.NamesAnyway env options headers policy trees x (headers.headerFor b.name)) := by
  intro t _ id _ n _ base v x b hderef _ hb hnative hout
  constructor
  · intro slot? depth text htext
    exact Renderer.expressionFrom_dereference (r := ⟨t, env, slot?⟩) hderef htext
  · obtain ⟨c, rfl, -, rfl, -, hbuilt⟩ := build_builtFrom h
    rw [names_iff hbuilt, requires_iff hb hnative hout, or_assoc]
    rfl

/-! ## A class that reads two fields -/

/-- A method of `A` reads a field of its parameter of type `B` and a field of its parameter of type
`C`, on which it also calls a method. -/
def tillEnv : Environment where
  types := #[
    { name := ⟨[], ["A"]⟩, hash := ⟨1⟩ },
    { name := ⟨[], ["B"]⟩, hash := ⟨2⟩ },
    { name := ⟨[], ["C"]⟩, hash := ⟨3⟩ }]
  vars := #[
    { name := "count", kind := .field, declaringType := some ⟨2⟩, type := .primitive .int },
    { name := "size", kind := .field, declaringType := some ⟨3⟩, type := .primitive .int },
    { name := "b", kind := .parameter, type := .declared ⟨2⟩ },
    { name := "c", kind := .parameter, type := .declared ⟨3⟩ }]

def tillTree : Tree where
  nodes := #[
    { kind := .simpleName "b" (some (.ofVariable 2)), parent := some 2 },
    { kind := .simpleName "count" (some (.ofVariable 0)), parent := some 2 },
    { kind := .qualifiedName 0 1, parent := some 8 },
    { kind := .simpleName "c" (some (.ofVariable 3)), parent := some 5 },
    { kind := .simpleName "size" (some (.ofVariable 1)), parent := some 5 },
    { kind := .fieldAccess 3 4, parent := some 9 },
    { kind := .simpleName "c" (some (.ofVariable 3)), parent := some 7 },
    { kind := .methodCall ⟨"run", ⟨3⟩, .primitive .void, false⟩ (some 6) [], parent := some 10 },
    { kind := .expressionStatement 2, parent := some 11 },
    { kind := .expressionStatement 5, parent := some 11 },
    { kind := .expressionStatement 7, parent := some 11 },
    { kind := .block [8, 9, 10], parent := some 12 },
    { kind := .methodDecl ⟨"take:with:", ⟨1⟩, .primitive .void, false⟩ [2, 3] (some 11)
      parent := some 13 },
    { kind := .typeDecl (some ⟨1⟩) [12], parent := some 14 },
    { kind := .compilationUnit "A.java" [13] [] }]
  root := some 14

def tillBuild : Except GenerationError GenerationUnit :=
  build ⟨"A.java", "A", [0]⟩ [tillTree] tillEnv {} .empty

def till : GenerationUnit :=
  tillBuild.toOption.get (by decide +kernel)

theorem tillBuild_eq : tillBuild = .ok till :=
  eq_ok_get _

/-- The header of `C` is included, for the sake of the call. -/
theorem dereferenced_included_till :
    "C.h" ∈ (till.implementationDependencies {} (.blocking [])).includes ∨
      "C.h" ∈ (till.emit {} (.blocking [])).unimportable := by
  have hheader : HeaderMap.empty.headerFor ⟨[], ["C"]⟩ = "C.h" := by decide +kernel
  have hfield : tillTree.Dereferences tillEnv 5 3
      { name := "size", kind := .field, declaringType := some ⟨3⟩, type := .primitive .int } :=
    ⟨4, "size", 1, .inr rfl, rfl, rfl, rfl, rfl⟩
  have hC := (dereferenced_included_iff tillBuild_eq (.blocking []) tillTree List.mem_cons_self 13
    (by decide) 5 (by decide +kernel) 3 _ ⟨3⟩ { name := ⟨[], ["C"]⟩, hash := ⟨3⟩ } hfield rfl rfl rfl
    (by decide +kernel)).2
  rw [hheader] at hC
  refine hC.2 (.inl ⟨tillTree, List.mem_cons_self, 13, by decide, .inl ⟨7, by decide +kernel, ?_⟩⟩)
  exact .method rfl rfl

/-- The field of `b` is read through a pointer, but the header of `B` is neither included nor
reported. -/
theorem dereferenced_type_not_included : tillBuild = .ok till ∧
    (∃ v ∈ tillEnv.vars, v.declaringType = some ⟨2⟩ ∧ 2 ∈ tillTree.descendants 13 ∧
      tillTree.Dereferences tillEnv 2 0 v) ∧
    (∃ g ∈ till.types, Occurs "  b->count_;\n" g.implementation) ∧
    (tillEnv.type? ⟨2⟩).map (HeaderMap.empty.headerFor ·.name) = some "B.h" ∧
    (tillEnv.type? ⟨2⟩).map (·.nativeName) = some none ∧ ¬ till.Declares ⟨2⟩ ∧
    "B.h" ∉ (till.implementationDependencies {} (.blocking [])).includes ∧
    "B.h" ∉ (till.emit {} (.blocking [])).unimportable := by
  refine ⟨tillBuild_eq, ⟨_, Array.mem_of_getElem? (i := 0) rfl, rfl, by decide +kernel, 1, "count", 0,
    .inl rfl, rfl, rfl, rfl, rfl⟩, by decide +kernel, by decide +kernel, rfl, by decide +kernel,
    by decide +kernel, by decide +kernel⟩

end GenerationUnit

end ObjectLowering
