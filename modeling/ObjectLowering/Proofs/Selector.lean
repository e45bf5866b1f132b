import Mathlib.Data.List.TakeWhile
import ObjectLowering.Proofs.Text.Pieces
import ObjectLowering.Type.Interface

/-!
# ObjectLowering.Proofs.Selector

Method names with texts behind their colons, which is how calls and signatures are written.

* `keyword`: the keyword of each place, the empty one where the name has no more.
* `spelled`: the name with texts in its places. `Renderer.selector_eq`: so calls write it, with their
  arguments; `TypeDeclaration.methodSignature_eq`: so signatures do, with their parameters.
* `trimEnd_spec`: without texts, it is the name without the colons at its end.
* `map_keywordOf_pieces`: before the colons of the pieces stand the keywords of the places, whatever the
  texts are.
* `glue_keywords`: a name that is made of keywords with colons is made of the keywords of its places.
-/

namespace ObjectLowering

namespace Selector

/-- The keyword of a place. -/
def keyword (name : String) (i : Nat) : String :=
  ((Text.pieces ':' name)[i]?).getD ""

/-- The texts in their places. -/
def pieces (name : String) (texts : List String) : List String :=
  texts.mapIdx fun i text => keyword name i ++ ":" ++ text

/-- The selector `name` with texts in its places. -/
def spelled (name : String) (texts : List String) : String :=
  if texts = [] then Text.trimEnd ':' name else " ".intercalate (pieces name texts)

/-- What stands before the first colon. -/
def keywordOf (piece : String) : String :=
  String.ofList (piece.toList.takeWhile (· ≠ ':'))

/-- Keywords with a colon behind each. -/
def glue (keywords : List String) : String :=
  String.join (keywords.map (· ++ ":"))

theorem spelled_eq (name : String) {texts : List String} (h : texts ≠ []) :
    spelled name texts = " ".intercalate (pieces name texts) :=
  if_neg h

/-- What is left of a name is the name up to the colons at its end. -/
theorem trimEnd_spec (name : String) :
    ∃ n, name.toList = (Text.trimEnd ':' name).toList ++ List.replicate n ':' ∧
      (Text.trimEnd ':' name).toList.getLast? ≠ some ':' := by
  obtain ⟨n, hcolons⟩ :
      ∃ n, (name.toList.reverse.takeWhile (· = ':')).reverse = List.replicate n ':' := by
    refine ⟨_, List.eq_replicate_iff.2 ⟨rfl, fun c hc => ?_⟩⟩
    have hcolon := List.mem_takeWhile_imp (List.mem_reverse.1 hc)
    exact of_decide_eq_true hcolon
  have hleft : (Text.trimEnd ':' name).toList =
      (name.toList.reverse.dropWhile (· = ':')).reverse := String.toList_ofList
  refine ⟨n, ?_, ?_⟩
  · rw [← hcolons, hleft, ← List.reverse_append, List.takeWhile_append_dropWhile,
      List.reverse_reverse]
  · intro hlast
    rw [hleft, List.getLast?_reverse] at hlast
    have hstop := List.head?_dropWhile_not (· = ':') name.toList.reverse
    simp [hlast] at hstop

theorem colon_notMem_keyword (name : String) (i : Nat) : ':' ∉ (keyword name i).toList := by
  unfold keyword
  cases h : (Text.pieces ':' name)[i]? with
  | none => simp
  | some k => exact Text.notMem_of_mem_pieces (List.mem_of_getElem? h)

theorem keywordOf_append {keyword : String} (h : ':' ∉ keyword.toList) (text : String) :
    keywordOf (keyword ++ ":" ++ text) = keyword := by
  have hne : ∀ c ∈ keyword.toList, decide (c ≠ ':') = true := fun c hc =>
    decide_eq_true fun he => h (he ▸ hc)
  rw [keywordOf, String.toList_append, String.toList_append, List.append_assoc,
    List.takeWhile_append_of_pos hne]
  simp

theorem length_pieces (name : String) (texts : List String) :
    (pieces name texts).length = texts.length :=
  List.length_mapIdx

theorem map_keywordOf_pieces (name : String) (texts : List String) :
    (pieces name texts).map keywordOf = (List.range texts.length).map (keyword name) := by
  refine List.ext_getElem (by simp [length_pieces]) fun i hi hi' => ?_
  simp [pieces, keywordOf_append (colon_notMem_keyword name i)]

theorem pieces_glue {ks : List String} (h : ∀ k ∈ ks, k ≠ "" ∧ ':' ∉ k.toList) :
    Text.pieces ':' (glue ks) = ks := by
  refine Text.pieces_of_toList ?_ h
  rw [glue, String.toList_join, List.flatMap_map]
  simp

/-- The keywords of the places of a name that is made of as many. -/
theorem glue_keywords {ks : List String} (h : ∀ k ∈ ks, k ≠ "" ∧ ':' ∉ k.toList) :
    glue ((List.range ks.length).map (keyword (glue ks))) = glue ks := by
  congr 1
  refine List.ext_getElem (by simp) fun i hi hi' => ?_
  simp [keyword, pieces_glue h, hi']

end Selector

/-! ## Calls and signatures -/

/-- A call writes its arguments into the places of the selector. -/
theorem Renderer.selector_eq (name : String) (arguments : List String) :
    selector name arguments = Selector.spelled name arguments := by
  unfold selector Selector.spelled
  by_cases h : arguments = []
  · rw [if_pos h, if_pos (List.isEmpty_iff.2 h)]
  · rw [if_neg h, if_neg (mt List.isEmpty_iff.1 h), Selector.pieces, List.mapIdx_eq_zipIdx_map]
    rfl

namespace TypeDeclaration

/-- A parameter as a signature shows it. -/
def parameterText (env : Environment) (v : VariableBinding) : String :=
  "(" ++ Spelling.typeName env v.type ++ ")" ++ Mangle.identifier v.name

/-- What a signature shows before the selector. -/
def signatureStart (env : Environment) (m : MethodRef) : String :=
  (if m.isStatic then "+ (" else "- (") ++ Spelling.typeName env m.returnType ++ ")"

/-- A signature writes its parameters into the places of the selector. -/
theorem methodSignature_eq (env : Environment) (m : MethodMember) :
    methodSignature env m = signatureStart env m.method ++
      Selector.spelled m.method.name (m.parameters.map (parameterText env)) := by
  have hstart : (if m.method.isStatic then "+" else "-") ++ " (" ++
      Spelling.typeName env m.method.returnType ++ ")" = signatureStart env m.method := by
    unfold signatureStart
    cases m.method.isStatic <;> rfl
  unfold methodSignature Selector.spelled
  simp only [hstart]
  by_cases h : m.parameters = []
  · rw [if_pos (List.isEmpty_iff.2 h), if_pos (List.map_eq_nil_iff.2 h)]
  · rw [if_neg (mt List.isEmpty_iff.1 h), if_neg (mt List.map_eq_nil_iff.1 h), Selector.pieces,
      List.mapIdx_eq_zipIdx_map, List.zipIdx_map, List.map_map]
    refine congrArg (signatureStart env m.method ++ " ".intercalate ·)
      (List.map_congr_left fun x _ => ?_)
    -- A signature writes the colon and the bracket in one piece.
    have hopen : (":(" : String) = ":" ++ "(" := rfl
    simp only [Function.comp, Prod.map, Selector.keyword, parameterText, hopen,
      String.append_assoc, id]

end TypeDeclaration

end ObjectLowering
