import Mathlib.Data.Fin.VecNotation
import Mathlib.Logic.Relation
import ObjectLowering.Proofs.Batch.Emitted

/-!
# ObjectLowering.Proofs.Batch.IncludeGraph

Which declaration files of a batch include which others.

* `Includes.printsInclude`: the line of an include stands in the text of the file.
* `Crosses.includes`, `Includes.exists_crosses`: a unit includes another one if one of its public types
  extends a type from outside that has the header of the other one, and otherwise only if that is the
  header of the runtime.
* `Threads`: types that lead from each unit of a circle to the next. `extends_of_threads`: they follow
  a chain of supertypes, as long as they meet no unit that is entered at one type and left from
  another.
* `includes_circle_iff`: if types do not extend each other in a circle, units include each other in a
  circle exactly if it is tangled. `includes_cycle`: two units with nested types may do so.
-/

open Relation

namespace ObjectLowering

namespace Environment

/-- The type `y` is a direct supertype of `x`. -/
def Extends (env : Environment) (x y : TypeHash) : Prop :=
  ∃ b, env.type? x = some b ∧ y ∈ b.supertypes

theorem mem_of_type? {env : Environment} {x : TypeHash} {b : TypeBinding}
    (h : env.type? x = some b) : b ∈ env.types.toList :=
  Array.mem_toList_iff.2 (Array.mem_of_find?_eq_some h)

/-- Supertypes that stand ever lower make no circle. -/
theorem not_transGen_extends_of_rank {env : Environment} (rank : TypeHash → Nat)
    (h : ∀ b ∈ env.types.toList, ∀ y ∈ b.supertypes, rank y < rank b.hash) (x : TypeHash) :
    ¬ TransGen env.Extends x x := by
  have hstep {x y : TypeHash} : env.Extends x y → rank y < rank x := by
    rintro ⟨b, hb, hy⟩
    rw [← type?_hash hb]
    exact h b (mem_of_type? hb) y hy
  have hpath {y : TypeHash} (hxy : TransGen env.Extends x y) : rank y < rank x := by
    induction hxy with
    | single hxy => exact hstep hxy
    | tail _ hyz ih => exact (hstep hyz).trans ih
  exact fun hx => Nat.lt_irrefl _ (hpath hx)

end Environment

namespace Generator

variable {t : Generator} {inputs : List SourceInput} {p q : UnitPlan} {u v : GenerationUnit}

/-! ## Units -/

/-- The declaration file of one unit includes that of another. -/
def Includes (t : Generator) (inputs : List SourceInput) (p q : UnitPlan) : Prop :=
  p ≠ q ∧ ∃ u v, (p, u) ∈ t.emitted inputs ∧ (q, v) ∈ t.emitted inputs ∧
    v.headerPath ∈ (u.headerDependencies t.options t.policy).includes

theorem includes_iff_emitted : t.Includes inputs p q ↔ p ≠ q ∧ ∃ e ∈ t.emitted inputs,
    ∃ f ∈ t.emitted inputs, e.1 = p ∧ f.1 = q ∧
      f.2.headerPath ∈ (e.2.headerDependencies t.options t.policy).includes := by
  refine and_congr_right fun _ => ?_
  constructor
  · rintro ⟨u, v, hu, hv, hincludes⟩
    exact ⟨_, hu, _, hv, rfl, rfl, hincludes⟩
  · rintro ⟨⟨_, u⟩, hu, ⟨_, v⟩, hv, rfl, rfl, hincludes⟩
    exact ⟨u, v, hu, hv, hincludes⟩

instance (t : Generator) (inputs : List SourceInput) (p q : UnitPlan) :
    Decidable (t.Includes inputs p q) :=
  decidable_of_iff _ includes_iff_emitted.symm

/-- The declaration file that is put out for one unit has a line with the header of another. -/
def PrintsInclude (t : Generator) (inputs : List SourceInput) (p q : UnitPlan) : Prop :=
  ∃ o ∈ (t.run inputs).outputs, ∃ o' ∈ (t.run inputs).outputs,
    o.outputPath = p.outputPath ∧ o'.outputPath = q.outputPath ∧
      Text.Occurs ("#include \"" ++ o'.headerPath ++ "\"\n") o.header

theorem Includes.printsInclude (h : t.Includes inputs p q) : t.PrintsInclude inputs p q := by
  obtain ⟨-, u, v, hu, hv, hincludes⟩ := h
  have hop : u.outputPath = p.outputPath := (unit?_eq_some (mem_emitted_iff.1 hu).2).2.1
  have hoq : v.outputPath = q.outputPath := (unit?_eq_some (mem_emitted_iff.1 hv).2).2.1
  rw [PrintsInclude, outputs_run]
  exact ⟨_, List.mem_map_of_mem hu, _, List.mem_map_of_mem hv, hop, hoq,
    GenerationUnit.occurs_header hincludes⟩

/-- The types that a unit declares have the header of the unit. -/
def OwnHeaders (t : Generator) (inputs : List SourceInput) : Prop :=
  ∀ e ∈ t.emitted inputs, ∀ x b, t.env.type? x = some b → e.2.Declares x →
    (t.headers inputs).headerFor b.name = e.2.headerPath

theorem ownHeaders_of_types (h : ∀ e ∈ t.emitted inputs, ∀ b ∈ t.env.types.toList,
    e.2.Declares b.hash → (t.headers inputs).headerFor b.name = e.2.headerPath) :
    t.OwnHeaders inputs := by
  intro e he x b hb hx
  obtain rfl := Environment.type?_hash hb
  exact h e he b (Environment.mem_of_type? hb) hx

/-- The unit has the header of the runtime. -/
def HasRuntimeHeader (t : Generator) (inputs : List SourceInput) (q : UnitPlan) : Prop :=
  ∃ e ∈ t.emitted inputs, e.1 = q ∧ e.2.headerPath = t.options.runtimeHeader

instance (t : Generator) (inputs : List SourceInput) (q : UnitPlan) :
    Decidable (t.HasRuntimeHeader inputs q) :=
  inferInstanceAs
    (Decidable (∃ e ∈ t.emitted inputs, e.1 = q ∧ e.2.headerPath = t.options.runtimeHeader))

/-- A public type `a` of the unit `p` extends a type `b` from outside, which has the header of the
unit `q`. -/
def Crosses (t : Generator) (inputs : List SourceInput) (p : UnitPlan) (a : TypeHash)
    (q : UnitPlan) (b : TypeHash) : Prop :=
  p ≠ q ∧ ∃ u v, (p, u) ∈ t.emitted inputs ∧ (q, v) ∈ t.emitted inputs ∧
    u.Declares a ∧ ¬ u.Declares b ∧
    (∃ c, t.env.type? a = some c ∧ c.isPrivate = false ∧ b ∈ c.supertypes) ∧
    ∃ c, t.env.type? b = some c ∧ c.nativeName = none ∧
      (t.headers inputs).headerFor c.name = v.headerPath ∧ t.policy v.headerPath = true

theorem Crosses.extends {a b : TypeHash} (h : t.Crosses inputs p a q b) : t.env.Extends a b := by
  obtain ⟨-, u, v, -, -, -, -, ⟨c, hc, -, hb⟩, -⟩ := h
  exact ⟨c, hc, hb⟩

/-- The unit `p` includes the unit `q` only because `q` has the header of the runtime, which all units
include. -/
def RuntimeOnly (t : Generator) (inputs : List SourceInput) (p q : UnitPlan) : Prop :=
  t.HasRuntimeHeader inputs q ∧ ¬ ∃ a b, t.Crosses inputs p a q b

/-- If a public type of one unit extends a type from outside that has the header of another one, the
first unit includes the second. -/
theorem Crosses.includes {a b : TypeHash} (h : t.Crosses inputs p a q b) : t.Includes inputs p q := by
  obtain ⟨hne, u, v, hu, hv, ⟨g, hg, rfl⟩, hnot, ⟨d, hd, hpublic, hsuper⟩, hb⟩ := h
  obtain ⟨c, hc, hnative, hheader, hpolicy⟩ := hb
  have hgenerated := generated_of_mem_emitted hu
  obtain ⟨d', hd', hprivate', hsuper'⟩ := (hgenerated g hg).binding
  obtain rfl : d = d' := Option.some.inj (hd.symm.trans hd')
  refine ⟨hne, u, v, hu, hv, (GenerationUnit.mem_includes_header_iff hgenerated).2 (.inr ?_)⟩
  exact ⟨hpolicy, g, hg, hprivate' ▸ hpublic, b, hsuper' ▸ hsuper, hnot, c, hc, hnative, hheader⟩

/-- The header of the runtime apart, there is no other reason to include a unit. -/
theorem Includes.exists_crosses (h : t.Includes inputs p q) (hreason : ¬ t.RuntimeOnly inputs p q) :
    ∃ a b, t.Crosses inputs p a q b := by
  obtain ⟨hne, u, v, hu, hv, hincludes⟩ := h
  have hgenerated := generated_of_mem_emitted hu
  rw [GenerationUnit.mem_includes_header_iff hgenerated] at hincludes
  obtain hruntime | ⟨hpolicy, g, hg, hpublic, x, hx, hnot, c, hc, hnative, hheader⟩ := hincludes
  · by_contra hnone
    exact hreason ⟨⟨_, hv, rfl, hruntime⟩, hnone⟩
  · obtain ⟨d, hd, hprivate, hsuper⟩ := (hgenerated g hg).binding
    exact ⟨g.hash, x, hne, u, v, hu, hv, ⟨g, hg, rfl⟩, hnot,
      ⟨d, hd, hprivate ▸ hpublic, hsuper ▸ hx⟩, c, hc, hnative, hheader, hpolicy⟩

/-! ## Circles -/

variable {n : Nat} {units : Fin (n + 1) → UnitPlan} {a b : Fin (n + 1) → TypeHash}

/-- Around a circle of units, the public type `a i` of each extends the type `b i` from outside, which
has the header of the next. -/
def Threads (t : Generator) (inputs : List SourceInput) (units : Fin (n + 1) → UnitPlan)
    (a b : Fin (n + 1) → TypeHash) : Prop :=
  ∀ i, t.Crosses inputs (units i) (a i) (units (i + 1)) (b i)

/-- Whichever types lead around a circle of units, one unit is entered at a type and left from another
one that is no supertype of it. -/
def Tangled (t : Generator) (inputs : List SourceInput) (units : Fin (n + 1) → UnitPlan) : Prop :=
  (∃ a b, t.Threads inputs units a b) ∧
    ∀ a b, t.Threads inputs units a b → ∃ i, ¬ ReflTransGen t.env.Extends (b i) (a (i + 1))

/-- From the first unit on, types follow a chain of supertypes as long as no unit is left from a type
that is no supertype of the one at which it was entered. -/
theorem extends_of_threads (h : t.Threads inputs units a b)
    (hstraight : ∀ i, ReflTransGen t.env.Extends (b i) (a (i + 1))) (i : Fin (n + 1)) :
    TransGen t.env.Extends (a 0) (b i) := by
  induction i using Fin.induction with
  | zero => exact .single (h 0).extends
  | succ i ih =>
    have hnext : ReflTransGen t.env.Extends (b i.castSucc) (a i.succ) :=
      Fin.coeSucc_eq_succ ▸ hstraight i.castSucc
    exact (ih.trans_left hnext).tail (h i.succ).extends

theorem tangled_of_includes (hextends : ∀ x, ¬ TransGen t.env.Extends x x)
    (hreasons : ∀ i, ¬ t.RuntimeOnly inputs (units i) (units (i + 1)))
    (hcircle : ∀ i, t.Includes inputs (units i) (units (i + 1))) : t.Tangled inputs units := by
  choose a b hab using fun i => (hcircle i).exists_crosses (hreasons i)
  refine ⟨⟨a, b, hab⟩, fun a b hab => ?_⟩
  by_contra! hstraight
  have hlast := hstraight (Fin.last n)
  rw [Fin.last_add_one] at hlast
  exact hextends (a 0) ((extends_of_threads hab hstraight (Fin.last n)).trans_left hlast)

/-- Let types not extend each other in a circle. Around units none of which is included only for the
header of the runtime, declaration files include each other exactly if the circle is tangled. The lines
that include them stand in the texts of the files. -/
theorem includes_circle_iff (hextends : ∀ x, ¬ TransGen t.env.Extends x x)
    (hreasons : ∀ i, ¬ t.RuntimeOnly inputs (units i) (units (i + 1))) :
    ((∀ i, t.Includes inputs (units i) (units (i + 1))) ↔ t.Tangled inputs units) ∧
      ∀ i, t.Includes inputs (units i) (units (i + 1)) →
        t.PrintsInclude inputs (units i) (units (i + 1)) := by
  refine ⟨⟨tangled_of_includes hextends hreasons, ?_⟩, fun i => Includes.printsInclude⟩
  rintro ⟨⟨a, b, hab⟩, -⟩ i
  exact (hab i).includes

/-! ## Nested types -/

/-- The types `A` and `B` with nested types, of which `A.N` may extend `B` and `B.K` extends `A`. -/
def nestedGenerator (super : Option TypeHash) : Generator where
  env := { types := #[
    { name := ⟨[], ["A"]⟩, hash := ⟨1⟩ },
    { name := ⟨[], ["A", "N"]⟩, hash := ⟨2⟩, superclass := super },
    { name := ⟨[], ["B"]⟩, hash := ⟨3⟩ },
    { name := ⟨[], ["B", "K"]⟩, hash := ⟨4⟩, superclass := some ⟨1⟩ }] }

/-- A file with a type and the one that is nested in it. -/
def nestedFile (sourceName : String) (outer inner : TypeHash) : SourceInput where
  sourceName
  tree := {
    nodes := #[
      { kind := .typeDecl (some outer) [], parent := some 2 },
      { kind := .typeDecl (some inner) [], parent := some 2 },
      { kind := .compilationUnit sourceName [0, 1] [] }]
    root := some 2 }

def nestedFiles : List SourceInput :=
  [nestedFile "A.java" ⟨1⟩ ⟨2⟩, nestedFile "B.java" ⟨3⟩ ⟨4⟩]

def nestedPlans : UnitPlan × UnitPlan :=
  (⟨"A.java", "A", [0]⟩, ⟨"B.java", "B", [1]⟩)

def nestedCircle : Fin 2 → UnitPlan :=
  ![nestedPlans.1, nestedPlans.2]

theorem nested_not_transGen_extends :
    (∀ x, ¬ TransGen (nestedGenerator none).env.Extends x x) ∧
      ∀ x, ¬ TransGen (nestedGenerator (some ⟨3⟩)).env.Extends x x :=
  ⟨Environment.not_transGen_extends_of_rank (fun x => if x = ⟨4⟩ then 1 else 0) (by decide),
    Environment.not_transGen_extends_of_rank (fun x => if x = ⟨2⟩ ∨ x = ⟨4⟩ then 1 else 0)
      (by decide)⟩

/-- The unit of `B.K` includes that of `A`. They make a circle if `A.N` extends `B`: the unit of `A` is
entered at `A` and left from `A.N`. -/
theorem includes_circle_iff_nested :
    (∀ i, ¬ (nestedGenerator none).HasRuntimeHeader nestedFiles (nestedCircle i)) ∧
      (∀ i, ¬ (nestedGenerator (some ⟨3⟩)).HasRuntimeHeader nestedFiles (nestedCircle i)) ∧
      (nestedGenerator none).Includes nestedFiles (nestedCircle 1) (nestedCircle 0) ∧
      ¬ (nestedGenerator none).Tangled nestedFiles nestedCircle ∧
      (nestedGenerator (some ⟨3⟩)).Tangled nestedFiles nestedCircle ∧
      ∀ i, (nestedGenerator (some ⟨3⟩)).PrintsInclude nestedFiles (nestedCircle i)
        (nestedCircle (i + 1)) := by
  obtain ⟨hnone, hsome⟩ := nested_not_transGen_extends
  have hapart : ∀ i, ¬ (nestedGenerator none).HasRuntimeHeader nestedFiles (nestedCircle i) := by
    decide +kernel
  have hapart' : ∀ i,
      ¬ (nestedGenerator (some ⟨3⟩)).HasRuntimeHeader nestedFiles (nestedCircle i) := by
    decide +kernel
  have hcircle : ∀ i, (nestedGenerator (some ⟨3⟩)).Includes nestedFiles (nestedCircle i)
      (nestedCircle (i + 1)) := by decide +kernel
  obtain ⟨htangled, hprints⟩ := includes_circle_iff hsome fun i h => hapart' (i + 1) h.1
  refine ⟨hapart, hapart', by decide +kernel, fun htangled => ?_, htangled.1 hcircle,
    fun i => hprints i (hcircle i)⟩
  have hcircle := (includes_circle_iff hnone fun i h => hapart (i + 1) h.1).1.2 htangled
  exact absurd (hcircle 0) (by decide +kernel)

/-- A unit whose header passes for that of the runtime is included by all others. -/
def runtimeGenerator : Generator where
  env := (nestedGenerator none).env
  options := { runtimeHeader := "B.h" }

/-- Without a supertype of `A.N`, the unit of `A` has no type for which it would include another one. -/
theorem runtimeOnly_nested :
    runtimeGenerator.RuntimeOnly nestedFiles nestedPlans.1 nestedPlans.2 := by
  refine ⟨by decide +kernel, ?_⟩
  rintro ⟨a, b, -, u, v, hu, -, ha, -, ⟨c, hc, -, hb⟩, -⟩
  have hlocal : ∀ e ∈ runtimeGenerator.emitted nestedFiles, e.1 = nestedPlans.1 →
      ¬ e.2.Declares ⟨4⟩ := by decide +kernel
  have hsupers : ∀ c ∈ runtimeGenerator.env.types.toList, c.supertypes ≠ [] → c.hash = ⟨4⟩ := by
    decide
  have hhash : a = ⟨4⟩ := by
    rw [← Environment.type?_hash hc]
    exact hsupers c (Environment.mem_of_type? hc) (List.ne_nil_of_mem hb)
  exact hlocal _ hu rfl (hhash ▸ ha)

/-- If `A.N` extends `B`, the two units include each other, though no type extends itself. So they do
if the header of `B` passes for that of the runtime, and the unit of `A` includes it for nothing else. -/
theorem includes_cycle : ((∀ x, ¬ TransGen (nestedGenerator (some ⟨3⟩)).env.Extends x x) ∧
      (nestedGenerator (some ⟨3⟩)).OwnHeaders nestedFiles ∧
      (∀ i, ¬ (nestedGenerator (some ⟨3⟩)).HasRuntimeHeader nestedFiles (nestedCircle i)) ∧
      (nestedGenerator (some ⟨3⟩)).Includes nestedFiles nestedPlans.1 nestedPlans.2 ∧
      (nestedGenerator (some ⟨3⟩)).Includes nestedFiles nestedPlans.2 nestedPlans.1) ∧
    (∀ x, ¬ TransGen runtimeGenerator.env.Extends x x) ∧
      runtimeGenerator.OwnHeaders nestedFiles ∧
      runtimeGenerator.RuntimeOnly nestedFiles nestedPlans.1 nestedPlans.2 ∧
      runtimeGenerator.Includes nestedFiles nestedPlans.1 nestedPlans.2 ∧
      runtimeGenerator.Includes nestedFiles nestedPlans.2 nestedPlans.1 := by
  obtain ⟨hnone, hsome⟩ := nested_not_transGen_extends
  refine ⟨⟨hsome, ?_, ?_, ?_, ?_⟩, hnone, ?_, runtimeOnly_nested, ?_, ?_⟩
  · exact ownHeaders_of_types (by decide +kernel)
  · decide +kernel
  · decide +kernel
  · decide +kernel
  · exact ownHeaders_of_types (by decide +kernel)
  · decide +kernel
  · decide +kernel

end Generator

end ObjectLowering
