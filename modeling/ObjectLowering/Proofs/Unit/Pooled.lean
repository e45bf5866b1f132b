import ObjectLowering.Proofs.Searches
import ObjectLowering.Proofs.Type.Literals
import ObjectLowering.Proofs.Unit.Built
import ObjectLowering.Proofs.Unit.SlotDeclarations

/-!
# ObjectLowering.Proofs.Unit.Pooled

The string literals of a unit, from the trees to the slots.

* `StringPool.Collects`: a pool holds the strings that the trees reach, each once, by number.
* `RendersSlots`: a type is generated with every string literal written as the slot of its string.
* `build_pools`: both hold of a unit that has been built, and its declarations declare every slot and
  fill it with its string.
-/

namespace ObjectLowering

/-- The pool holds the literals of some trees, in the order in which the trees list them first. -/
structure StringPool.Collects (p : StringPool) (trees : List Tree) : Prop where
  distinct : p.strings.toList.Nodup
  inOrder : p.strings.toList = (trees.flatMap literals).eraseDups
  /-- A tree lists its nodes in pre-order, all that its root reaches. -/
  listed : ∀ t ∈ trees, ∀ root, t.root = some root →
    t.Scans [root] (t.descendants root) ∧ t.PreOrder [root] (t.descendants root)
  reached : ∀ text, (∃ id, p.get? id = some text) ↔
    ∃ t ∈ trees, ∃ n, t.Reachable n ∧ t.kind? n = some (.literal (.string text))
  numbered : ∀ id text, p.id? text = some id ↔ p.get? id = some text
  settled : ∀ id text, p.get? id = some text → p.add text = (id, p)

/-- The type is generated from a declaration below which every string literal is in the pool and is
written as its slot. Its texts are what is written if every string is the name of a slot, whatever
the slots of other strings. -/
def GeneratedType.RendersSlots (g : GeneratedType) (p : StringPool) (env : Environment)
    (options : Options) (trees : List Tree) : Prop :=
  ∃ t ∈ trees, ∃ id ∈ t.typeDecls, ∃ d, TypeDeclaration.ofTree env t id = .ok d ∧
    (∀ n text, t.Below id n → t.kind? n = some (.literal (.string text)) →
      ∃ number, p.get? number = some text ∧
        (Renderer.mk t env p.slot?).literal (.string text) = StringPool.slotName number) ∧
    g.publicDeclaration = d.publicText env ∧ g.privateDeclaration = d.privateText env ∧
    ∀ name : String → String,
      (∀ number text, p.get? number = some text → name text = StringPool.slotName number) →
        d.implementation ⟨env, options, ⟨t, env, fun text => some (name text)⟩⟩ =
          .ok g.implementation

namespace StringPool

theorem collects_ofTrees {trees : List Tree}
    (hends : ∀ t ∈ trees, ∀ root, t.root = some root → ∃ nodes, t.Scans [root] nodes) :
    (ofTrees trees).Collects trees := by
  have hacyclic {t : Tree} (ht : t ∈ trees) (root : NodeId) (hroot : t.root = some root) :
      t.Acyclic root := by
    obtain ⟨nodes, hnodes⟩ := hends t ht root hroot
    exact hnodes.acyclic
  have hstrings : (ofTrees trees).strings.toList = (trees.flatMap literals).eraseDups :=
    toList_addAll_empty _
  refine ⟨nodup_strings _, hstrings, fun t ht root hroot => ?_, fun text => ?_,
    fun _ _ => id?_eq_some_iff, fun _ _ => add_of_get?⟩
  · exact ⟨Tree.scans_descendants (hacyclic ht root hroot),
      Tree.preOrder_descendants (hacyclic ht root hroot)⟩
  · simp only [get?_eq_getElem?, ← List.mem_iff_getElem?, hstrings, List.mem_eraseDups,
      List.mem_flatMap]
    constructor
    · rintro ⟨t, ht, htext⟩
      exact ⟨t, ht, (mem_literals_iff (hacyclic ht)).1 htext⟩
    · rintro ⟨t, ht, hn⟩
      exact ⟨t, ht, (mem_literals_iff (hacyclic ht)).2 hn⟩

end StringPool

theorem Tree.reachable_of_mem_typeDecls {t : Tree} {id : NodeId} (h : id ∈ t.typeDecls) :
    t.Reachable id := by
  unfold typeDecls at h
  split at h
  · rename_i hk
    obtain ⟨root, hroot, hk⟩ := Option.bind_eq_some_iff.1 hk
    refine ⟨root, hroot, .child .top ?_⟩
    rw [children, hk]
    exact h
  · cases h

namespace GenerationUnit

variable {plan : UnitPlan} {trees : List Tree} {env : Environment} {options : Options}
  {headers : HeaderMap} {u : GenerationUnit}

theorem strings_of_build (h : build plan trees env options headers = .ok u) :
    u.strings = .ofTrees trees := by
  unfold build at h
  obtain ⟨declarations, -, h⟩ := TypeDeclaration.bind_eq_ok h
  obtain ⟨order, -, h⟩ := TypeDeclaration.bind_eq_ok h
  obtain ⟨types, -, h⟩ := TypeDeclaration.bind_eq_ok h
  cases h
  rfl

/-- Every literal below a declaration is reached from a root, so the pool knows it. -/
theorem rendersSlots {c : GenerationContext} (hp : c.strings.Collects trees) {t : Tree}
    (ht : t ∈ trees) {id : NodeId} (hid : id ∈ t.typeDecls) {g : GeneratedType}
    (hg : GeneratedType.generate c t id = .ok g) :
    g.RendersSlots c.strings c.env c.options trees := by
  obtain ⟨d, hd⟩ := GeneratedType.exists_generatedFrom hg
  have hpooled : ∀ n text, t.Below id n → t.kind? n = some (.literal (.string text)) →
      ∃ number, c.strings.get? number = some text ∧
        c.strings.slot? text = some (StringPool.slotName number) := by
    intro n text hn hk
    obtain ⟨root, hroot, hbelow⟩ := Tree.reachable_of_mem_typeDecls hid
    obtain ⟨number, hnumber⟩ := (hp.reached text).2 ⟨t, ht, n, ⟨root, hroot, hbelow.trans hn⟩, hk⟩
    refine ⟨number, hnumber, ?_⟩
    rw [StringPool.slot?, (hp.numbered number text).2 hnumber]
    rfl
  refine ⟨t, ht, id, hid, d, hd.declaration, fun n text hn hk => ?_, hd.publicDeclaration,
    hd.privateDeclaration, fun name hname => ?_⟩
  · obtain ⟨number, hnumber, hslot⟩ := hpooled n text hn hk
    refine ⟨number, hnumber, ?_⟩
    simp only [Renderer.literal, hslot, Option.getD_some]
  · have hagrees : (Renderer.mk t c.env c.strings.slot?).Agrees (fun text => some (name text)) id := by
      intro n text hn hk
      obtain ⟨number, hnumber, hslot⟩ := hpooled n text hn hk
      exact (congrArg some (hname number text hnumber)).trans hslot.symm
    have hsame := TypeDeclaration.implementation_withSlots
      (c := ⟨c.env, c.options, ⟨t, c.env, c.strings.slot?⟩⟩)
      (TypeDeclaration.within_of_ofTree hd.declaration) hagrees
    exact hsame.trans hd.implementation

/-- The pool of a unit that has been built holds just the strings that its trees reach, each under one
number; its types are generated with the slots of these strings in place of all string literals; and
its declarations declare every slot once and fill it once, with what is read as its string. The nodes
of a tree can be listed only if none lies below itself. -/
theorem build_pools (h : build plan trees env options headers = .ok u)
    (hends : ∀ t ∈ trees, ∀ root, t.root = some root → ∃ nodes, t.Scans [root] nodes) :
    u.strings.Collects trees ∧ (∀ g ∈ u.types, g.RendersSlots u.strings env options trees) ∧
      Function.Injective StringPool.slotName ∧
      StringPool.declaredSlots u.strings.declarations =
        (List.range u.strings.size).map StringPool.slotName ∧
      StringPool.storedSlots u.strings.declarations =
        u.strings.strings.toList.zipIdx.map fun entry =>
          (StringPool.slotName entry.2, entry.1.toUTF8.data.toList) := by
  have hstrings := strings_of_build h
  obtain ⟨c, rfl, rfl, -, hc, hbuilt⟩ := build_builtFrom h
  have hcollects : u.strings.Collects trees := hstrings ▸ StringPool.collects_ofTrees hends
  refine ⟨hcollects, fun g hg => ?_, StringPool.slotName_injective,
    StringPool.declaredSlots_declarations _, StringPool.storedSlots_declarations _⟩
  obtain ⟨t, ht, id, hid, hgen⟩ := hbuilt.generated g hg
  rw [hstrings, ← hc] at hcollects ⊢
  exact rendersSlots hcollects ht hid hgen

/-! ## A class that logs three strings -/

def diaryEnv : Environment where
  types := #[{ name := ⟨[], ["A"]⟩, hash := ⟨1⟩ }]

/-- The first string, with a quote, a letter beyond ASCII and a newline, stands there twice. -/
def diaryTree : Tree where
  nodes := #[
    { kind := .literal (.string "\"é\n"), parent := some 3 },
    { kind := .literal (.string "x"), parent := some 3 },
    { kind := .literal (.string "\"é\n"), parent := some 3 },
    { kind := .functionCall ⟨"log", ⟨1⟩, .primitive .void, []⟩ [0, 1, 2], parent := some 4 },
    { kind := .expressionStatement 3, parent := some 5 },
    { kind := .block [4], parent := some 6 },
    { kind := .methodDecl ⟨"run", ⟨1⟩, .primitive .void, false⟩ [] (some 5), parent := some 7 },
    { kind := .typeDecl (some ⟨1⟩) [6], parent := some 8 },
    { kind := .compilationUnit "A.java" [7] [] }]
  root := some 8

def diaryBuild : Except GenerationError GenerationUnit :=
  build ⟨"A.java", "A", [0]⟩ [diaryTree] diaryEnv {} .empty

def diary : GenerationUnit :=
  diaryBuild.toOption.get (by decide +kernel)

theorem build_pools_diary : diaryBuild = .ok diary ∧
    (∃ nodes, diaryTree.Scans [8] nodes) ∧
    diary.strings.Collects [diaryTree] ∧
    (∀ g ∈ diary.types, g.RendersSlots diary.strings diaryEnv {} [diaryTree]) ∧
    StringPool.declaredSlots diary.strings.declarations = ["_string_0", "_string_1"] ∧
    StringPool.storedSlots diary.strings.declarations =
      [("_string_0", [0x22, 0xc3, 0xa9, 0x0a]), ("_string_1", [0x78])] := by
  have hbuild : build ⟨"A.java", "A", [0]⟩ [diaryTree] diaryEnv {} .empty = .ok diary := eq_ok_get _
  have hends : diaryTree.Scans [8] (diaryTree.scan 10 [8]) := Tree.scans_of_scan (by decide)
  obtain ⟨hcollects, hrenders, -, hdeclared, hstored⟩ := build_pools hbuild (by
    intro t ht root hroot
    rw [List.mem_singleton.1 ht] at hroot ⊢
    cases hroot
    exact ⟨_, hends⟩)
  refine ⟨hbuild, ⟨_, hends⟩, hcollects, hrenders, hdeclared.trans ?_, hstored.trans ?_⟩
  · decide +kernel
  · decide +kernel

end GenerationUnit

end ObjectLowering
