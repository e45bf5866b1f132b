import ObjectLowering.Proofs.Expression.Rendered
import ObjectLowering.Proofs.Selector
import ObjectLowering.Proofs.Type.StaticMembers
import ObjectLowering.Proofs.Unit.Built

/-!
# ObjectLowering.Proofs.Type.Selectors

Calls and method declarations spell selectors alike.

* `Selector.Agree`: two spellings of a selector, with arguments and with parameters. They have the same
  keywords in the same places.
* `exists_method_of_ofTree`: every method in the tree is a method of the declaration that is generated.
* `printsSignature_of_mem`: its signature is printed where the type is declared, and before its body.
* `call_agrees_with_signature`: a call sends the selector that is declared for a method of its name with
  as many parameters.
-/

namespace ObjectLowering

open Text (Occurs)

/-- Two spellings of the selector `name`, one with arguments and one with parameters. Without any, both
are the name up to the colons at its end. Otherwise both are pieces with blanks between them, one for
each argument and parameter, and the same keywords stand before the colons. If the name is made of as
many keywords, it is made of these. -/
structure Selector.Agree (name : String) (arguments parameters : List String)
    (sent declared : String) : Prop where
  length : arguments.length = parameters.length
  alone : arguments = [] → sent = Text.trimEnd ':' name ∧ declared = Text.trimEnd ':' name ∧
    ∃ n, name.toList = (Text.trimEnd ':' name).toList ++ List.replicate n ':' ∧
      (Text.trimEnd ':' name).toList.getLast? ≠ some ':'
  spelled : arguments ≠ [] → sent = " ".intercalate (pieces name arguments) ∧
    declared = " ".intercalate (pieces name parameters)
  count : (pieces name arguments).length = arguments.length ∧
    (pieces name parameters).length = parameters.length
  sameKeywords : (pieces name arguments).map keywordOf = (pieces name parameters).map keywordOf
  glued : ∀ ks, ks.length = arguments.length → (∀ k ∈ ks, k ≠ "" ∧ ':' ∉ k.toList) →
    name = glue ks → glue ((pieces name arguments).map keywordOf) = name

theorem Selector.agree_spelled (name : String) {arguments parameters : List String}
    (h : arguments.length = parameters.length) :
    Agree name arguments parameters (spelled name arguments) (spelled name parameters) where
  length := h
  alone := by
    rintro rfl
    obtain rfl : parameters = [] := List.length_eq_zero_iff.1 h.symm
    exact ⟨rfl, rfl, trimEnd_spec name⟩
  spelled := by
    intro hne
    have hne' : parameters ≠ [] := by
      rintro rfl
      exact hne (List.length_eq_zero_iff.1 h)
    exact ⟨spelled_eq name hne, spelled_eq name hne'⟩
  count := ⟨length_pieces name arguments, length_pieces name parameters⟩
  sameKeywords := by rw [map_keywordOf_pieces, map_keywordOf_pieces, h]
  glued := by
    rintro ks hlength hks rfl
    rw [map_keywordOf_pieces, ← hlength]
    exact glue_keywords hks

/-- A call is rendered as a message to its receiver. -/
theorem Renderer.expression_methodCall {r : Renderer} {id : NodeId} {text : String} {m : MethodRef}
    {receiver : Option NodeId} {arguments : List NodeId}
    (hk : r.tree.kind? id = some (.methodCall m receiver arguments))
    (h : r.expression id = .ok text) :
    ∃ node receiverText texts, r.tree.node? id = some node ∧
      List.Forall₂ (r.expression · = .ok ·) arguments texts ∧
      text = guarded node ("[" ++ receiverText ++ " " ++ selector m.name texts ++ "]") := by
  obtain ⟨node, inner, hnode, hwrites, rfl⟩ := expression_eq_ok_iff.1 h
  rw [Tree.kind?, hnode, Option.map_some, Option.some.injEq] at hk
  rw [hk] at hwrites
  cases hwrites with
  | methodCall _ harguments => exact ⟨node, _, _, hnode, harguments, rfl⟩
  | implicitCall harguments => exact ⟨node, _, _, hnode, harguments, rfl⟩

/-- The declaration at a node of the tree has this method. -/
def Tree.DeclaresMethod (t : Tree) (id : NodeId) (m : MethodRef) (parameters : List VarId)
    (body : Option NodeId) : Prop :=
  ∃ type members member, t.kind? id = some (.typeDecl type members) ∧ member ∈ members ∧
    t.kind? member = some (.methodDecl m parameters body)

namespace TypeDeclaration

theorem methods_addMember {env : Environment} {d d' : TypeDeclaration} {member : Node}
    (h : addMember env d member = .ok d') : d.methods ⊆ d'.methods ∧
      ∀ m parameters body, member.kind = .methodDecl m parameters body →
        ∃ vs, List.Forall₂ (env.variableAt? · = some ·) parameters vs ∧ ⟨m, vs, body⟩ ∈ d'.methods := by
  rcases addMember_cases h with ⟨x, initial, v, hk, -, rfl⟩ | ⟨m, parameters, body, vs, hk, hvs, rfl⟩
  · refine ⟨List.Subset.refl _, fun m parameters body hm => ?_⟩
    cases hk.symm.trans hm
  · refine ⟨List.subset_append_left _ _, fun m' parameters' body' hm => ?_⟩
    cases hk.symm.trans hm
    refine ⟨vs, (Renderer.mapM_eq_ok_iff.1 hvs).imp fun _ _ => boundVariable_eq_ok_iff.1, ?_⟩
    simp

theorem methods_addMembers {env : Environment} {t : Tree} {members : List NodeId}
    {d d' : TypeDeclaration} (h : addMembers env t members d = .ok d') : d.methods ⊆ d'.methods ∧
      ∀ member ∈ members, ∀ m parameters body,
        t.kind? member = some (.methodDecl m parameters body) →
          ∃ vs, List.Forall₂ (env.variableAt? · = some ·) parameters vs ∧
            ⟨m, vs, body⟩ ∈ d'.methods := by
  induction members generalizing d with
  | nil =>
    cases h
    exact ⟨List.Subset.refl _, by simp⟩
  | cons first members ih =>
    obtain ⟨node, d₁, hn, h₁, h⟩ := addMembers_cons_eq_ok h
    obtain ⟨hkept₁, hfirst⟩ := methods_addMember h₁
    obtain ⟨hkept, hrest⟩ := ih h
    refine ⟨List.Subset.trans hkept₁ hkept, fun member hm m parameters body hk => ?_⟩
    rcases List.mem_cons.1 hm with rfl | hm
    · rw [Tree.kind?_of_node hn, Option.some.injEq] at hk
      obtain ⟨vs, hvs, hmem⟩ := hfirst m parameters body hk
      exact ⟨vs, hvs, hkept hmem⟩
    · exact hrest member hm m parameters body hk

theorem exists_method_of_ofTree {env : Environment} {t : Tree} {id : NodeId} {d : TypeDeclaration}
    (h : ofTree env t id = .ok d) {m : MethodRef} {parameters : List VarId} {body : Option NodeId}
    (hm : t.DeclaresMethod id m parameters body) :
    ∃ vs, List.Forall₂ (env.variableAt? · = some ·) parameters vs ∧ ⟨m, vs, body⟩ ∈ d.methods := by
  obtain ⟨hash, members, hk, -, hmembers⟩ := ofTree_eq_ok h
  obtain ⟨type, members', member, hk', hmem, hmethod⟩ := hm
  cases hk.symm.trans hk'
  exact (methods_addMembers hmembers).2 member hmem m parameters body hmethod

theorem occurs_signature_interface (env : Environment) {d : TypeDeclaration} {m : MethodMember}
    (hm : m ∈ d.methods) : Occurs ("\n" ++ methodSignature env m ++ ";\n") (d.interface env) := by
  have hlines : Occurs ("\n" ++ methodSignature env m ++ ";\n")
      (String.join (d.methods.map fun m => "\n" ++ methodSignature env m ++ ";\n")) :=
    (Occurs.refl _).in_join (List.mem_map.2 ⟨m, hm, rfl⟩)
  rw [interface]
  exact (hlines.append_left _).append_right _

theorem occurs_signature_implementation {c : ImplementationContext} {d : TypeDeclaration}
    {text : String} (h : d.implementation c = .ok text) (hclass : d.binding.isInterface = false)
    {m : MethodMember} (hm : m ∈ d.methods) (hbody : m.body.isSome = true) :
    Occurs ("\n" ++ methodSignature c.env m ++ " ") text := by
  obtain ⟨methods, statics, rfl, hmethods, -⟩ := implementation_eq_ok h
  rw [hclass, if_neg Bool.false_ne_true] at hmethods
  obtain ⟨initializer, -, hmethods⟩ := bind_eq_ok hmethods
  obtain ⟨texts, htexts, hmethods⟩ := bind_eq_ok hmethods
  obtain rfl := Except.ok.inj hmethods
  obtain ⟨methodText, hmem, hmethod⟩ := exists_mem_of_mapM_eq_ok htexts hm
  have hstart : Occurs ("\n" ++ methodSignature c.env m ++ " ") methodText := by
    obtain ⟨body, hb⟩ := Option.isSome_iff_exists.1 hbody
    rw [methodImplementation, hb] at hmethod
    obtain ⟨bodyText, -, hmethod⟩ := bind_eq_ok hmethod
    obtain rfl := Except.ok.inj hmethod
    exact (Occurs.refl _).append_right _
  exact ((((hstart.in_join hmem).append_left _).append_right _).append_left _).append_right _

end TypeDeclaration

namespace GeneratedType

/-- The signature is printed where the type is declared and, if the method has a body in a class, before
the body. -/
structure PrintsSignature (g : GeneratedType) (signature : String) (body : Option NodeId) : Prop where
  declared : Occurs ("\n" ++ signature ++ ";\n")
    (if g.isPrivate then g.privateDeclaration else g.publicDeclaration)
  defined : g.isInterface = false → body.isSome = true →
    Occurs ("\n" ++ signature ++ " ") g.implementation

theorem isInterface_of_generate {c : GenerationContext} {t : Tree} {id : NodeId} {g : GeneratedType}
    {d : TypeDeclaration} (h : generate c t id = .ok g) (hd : g.GeneratedFrom c t id d) :
    g.isInterface = d.binding.isInterface := by
  obtain ⟨d', hd', h⟩ := TypeDeclaration.bind_eq_ok h
  obtain ⟨implementation, -, h⟩ := TypeDeclaration.bind_eq_ok h
  obtain rfl := Except.ok.inj (hd.declaration.symm.trans hd')
  obtain rfl := Except.ok.inj h
  rfl

theorem printsSignature_of_mem {c : GenerationContext} {t : Tree} {id : NodeId} {g : GeneratedType}
    {d : TypeDeclaration} (h : generate c t id = .ok g) (hd : g.GeneratedFrom c t id d)
    {m : MethodMember} (hm : m ∈ d.methods) :
    g.PrintsSignature (TypeDeclaration.methodSignature c.env m) m.body where
  declared := by
    have hinterface := TypeDeclaration.occurs_signature_interface c.env hm
    rw [hd.isPrivate, hd.privateDeclaration, hd.publicDeclaration, TypeDeclaration.privateText,
      TypeDeclaration.publicText]
    cases d.binding.isPrivate with
    | true => exact hinterface.append_right _
    | false => exact hinterface.append_right _
  defined := by
    intro hclass hbody
    rw [isInterface_of_generate h hd] at hclass
    exact TypeDeclaration.occurs_signature_implementation hd.implementation hclass hm hbody

/-- A call sends the selector that the signature of a method spells, if the method has the name that is
called and as many parameters as the call has arguments. -/
theorem call_agrees_with_signature {c : GenerationContext} {t : Tree} {id call : NodeId}
    {g : GeneratedType} {r : Renderer} {m m' : MethodRef} {parameters : List VarId}
    {body receiver : Option NodeId} {arguments : List NodeId} {text : String}
    (hgen : generate c t id = .ok g) (hmethod : t.DeclaresMethod id m parameters body)
    (hcall : r.tree.kind? call = some (.methodCall m' receiver arguments))
    (htext : r.expression call = .ok text) (hname : m'.name = m.name)
    (harity : arguments.length = parameters.length) :
    ∃ node receiverText argumentTexts vs sent declared,
      r.tree.node? call = some node ∧
      List.Forall₂ (r.expression · = .ok ·) arguments argumentTexts ∧
      text = Renderer.guarded node ("[" ++ receiverText ++ " " ++ sent ++ "]") ∧
      List.Forall₂ (c.env.variableAt? · = some ·) parameters vs ∧
      g.PrintsSignature (TypeDeclaration.signatureStart c.env m ++ declared) body ∧
      Selector.Agree m.name argumentTexts (vs.map (TypeDeclaration.parameterText c.env)) sent
        declared := by
  obtain ⟨d, hd⟩ := exists_generatedFrom hgen
  obtain ⟨vs, hvs, hmem⟩ := TypeDeclaration.exists_method_of_ofTree hd.declaration hmethod
  obtain ⟨node, receiverText, texts, hnode, htexts, rfl⟩ := Renderer.expression_methodCall hcall htext
  have hlength : texts.length = (vs.map (TypeDeclaration.parameterText c.env)).length := by
    rw [List.length_map, ← htexts.length_eq, ← hvs.length_eq, harity]
  have hprints := printsSignature_of_mem hgen hd hmem
  rw [TypeDeclaration.methodSignature_eq] at hprints
  rw [hname, Renderer.selector_eq]
  exact ⟨node, receiverText, texts, vs, _, _, hnode, htexts, rfl, hvs, hprints,
    Selector.agree_spelled m.name hlength⟩

/-- A class whose method calls itself with two numbers. -/
def sumContext : GenerationContext where
  env := {
    types := #[{ name := ⟨[], ["A"]⟩, hash := ⟨1⟩ }]
    vars := #[
      { name := "a", kind := .parameter, declaringType := none, type := .primitive .int },
      { name := "b", kind := .parameter, declaringType := none, type := .primitive .int }] }
  options := {}
  headers := .empty
  locals := [⟨1⟩]
  strings := .empty

def sumMethod : MethodRef where
  name := "add:with:"
  declaringType := ⟨1⟩
  returnType := .primitive .int

def sumTree : Tree where
  nodes := #[
    { kind := .literal (.int 1), parent := some 2 },
    { kind := .literal (.int 2), parent := some 2 },
    { kind := .methodCall sumMethod none [0, 1], parent := some 3 },
    { kind := .returnStatement (some 2), parent := some 4 },
    { kind := .block [3], parent := some 5 },
    { kind := .methodDecl sumMethod [0, 1] (some 4), parent := some 6 },
    { kind := .typeDecl (some ⟨1⟩) [5] }]

def sumType : GeneratedType :=
  (generate sumContext sumTree 6).toOption.get (by decide +kernel)

theorem call_agrees_with_signature_sum :
    sumTree.DeclaresMethod 6 sumMethod [0, 1] (some 4) ∧
    (⟨sumTree, sumContext.env, sumContext.strings.slot?⟩ : Renderer).expression 2 =
      .ok "[self add:1 with:2]" ∧
    ∃ node receiverText argumentTexts vs sent declared,
      sumTree.node? 2 = some node ∧ argumentTexts.length = 2 ∧
      List.Forall₂ (sumContext.env.variableAt? · = some ·) [0, 1] vs ∧
      "[self add:1 with:2]" = Renderer.guarded node ("[" ++ receiverText ++ " " ++ sent ++ "]") ∧
      sumType.PrintsSignature (TypeDeclaration.signatureStart sumContext.env sumMethod ++ declared)
        (some 4) ∧
      Selector.Agree "add:with:" argumentTexts
        (vs.map (TypeDeclaration.parameterText sumContext.env)) sent declared := by
  have hmethod : sumTree.DeclaresMethod 6 sumMethod [0, 1] (some 4) :=
    ⟨some ⟨1⟩, [5], 5, rfl, by simp, rfl⟩
  have htext : (⟨sumTree, sumContext.env, sumContext.strings.slot?⟩ : Renderer).expression 2 =
      .ok "[self add:1 with:2]" := by
    decide +kernel
  have hgen : generate sumContext sumTree 6 = .ok sumType := by rfl
  obtain ⟨node, receiverText, texts, vs, sent, declared, hnode, htexts, hsent, hvs, hprints, hagree⟩ :=
    call_agrees_with_signature hgen hmethod rfl htext rfl rfl
  exact ⟨hmethod, htext, node, receiverText, texts, vs, sent, declared, hnode, htexts.length_eq.symm,
    hvs, hsent, hprints, hagree⟩

end GeneratedType

end ObjectLowering
