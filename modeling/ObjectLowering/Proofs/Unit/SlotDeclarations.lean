import ObjectLowering.Proofs.Text.StringLiteral
import ObjectLowering.Proofs.Unit.StringPool

/-!
# ObjectLowering.Proofs.Unit.SlotDeclarations

The text that declares and fills the slots of a pool, as a reader of lines finds it.

* `declaredSlots`, `storedSlots`: the slots that the lines of a text declare, and those that they fill,
  with the bytes that a compiler reads in the literal.
* `toList_declarations`: the text consists of the lines that are meant, since no string breaks one.
* `declaredSlots_declarations`, `storedSlots_declarations`: every slot is declared, and filled with its
  string, in the order of the numbers.
-/

namespace ObjectLowering.StringPool

variable {p : StringPool} {text : String} {id : Nat}

/-! ## Reading the declarations -/

/-- A character of an identifier. -/
def isNameChar (c : Char) : Bool :=
  c.isAlphanum || c = '_'

/-- The name in a line that declares a slot. -/
def declaredSlot? (line : List Char) : Option String :=
  (line.dropPrefix? "static NSString *".toList).bind fun rest =>
    if rest.dropWhile isNameChar = [';'] then some (String.ofList (rest.takeWhile isNameChar))
    else none

/-- The name in a line that fills a slot, and the bytes of the string that it is filled with. -/
def storedSlot? (line : List Char) : Option (String × List UInt8) :=
  (line.dropPrefix? "  ".toList).bind fun rest =>
    ((rest.dropWhile isNameChar).dropPrefix? " = JreStringConstant(@\"".toList).bind fun literal =>
      (Text.StringLiteral.read .plain literal).bind fun (bytes, rest') =>
        if rest' = ");".toList then some (String.ofList (rest.takeWhile isNameChar), bytes) else none

/-- The slots that the lines of a text declare. -/
def declaredSlots (text : String) : List String :=
  (text.toList.splitOn '\n').filterMap declaredSlot?

/-- The slots that the lines of a text fill. -/
def storedSlots (text : String) : List (String × List UInt8) :=
  (text.toList.splitOn '\n').filterMap storedSlot?

theorem isNameChar_of_mem_slotName {c : Char} (h : c ∈ (slotName id).toList) :
    isNameChar c = true := by
  have hprefix : "_string_".toList.all isNameChar = true := by decide
  rw [slotName, String.toList_append] at h
  rcases List.mem_append.1 h with h | h
  · exact List.all_eq_true.1 hprefix c h
  · have hdigits : (toString id).toList = Nat.toDigits 10 id := Nat.toList_repr
    rw [hdigits] at h
    have hdigit := Nat.isDigit_of_mem_toDigits (by decide) (by decide) h
    simp [isNameChar, Char.isAlphanum, hdigit]

/-- A name ends before a character that no name has. -/
theorem span_slotName (id : Nat) {c : Char} (hc : isNameChar c = false) (rest : List Char) :
    ((slotName id).toList ++ c :: rest).takeWhile isNameChar = (slotName id).toList ∧
      ((slotName id).toList ++ c :: rest).dropWhile isNameChar = c :: rest := by
  have hname : ∀ c ∈ (slotName id).toList, isNameChar c = true :=
    fun _ => isNameChar_of_mem_slotName
  rw [List.takeWhile_append_of_pos hname, List.dropWhile_append_of_pos hname]
  simp [hc]

theorem dropPrefix?_append (l rest : List Char) : (l ++ rest).dropPrefix? l = some rest :=
  List.dropPrefix?_eq_some_iff.2 ⟨l, rfl, beq_self_eq_true l⟩

/-- The line that declares a slot. -/
def slotLine (id : Nat) : List Char :=
  "static NSString *".toList ++ ((slotName id).toList ++ [';'])

/-- The line that fills a slot. -/
def storeLine (text : String) (id : Nat) : List Char :=
  "  ".toList ++ ((slotName id).toList ++ (" = JreStringConstant(@\"".toList ++
    (Text.Escape.escape text.toList ++ '"' :: ");".toList)))

theorem declaredSlot?_slotLine (id : Nat) : declaredSlot? (slotLine id) = some (slotName id) := by
  obtain ⟨htake, hdrop⟩ := span_slotName id (by decide : isNameChar ';' = false) []
  unfold declaredSlot? slotLine
  rw [dropPrefix?_append, Option.bind_some, if_pos hdrop, htake]
  exact congrArg some String.ofList_toList

theorem storedSlot?_storeLine (text : String) (id : Nat) :
    storedSlot? (storeLine text id) = some (slotName id, text.toUTF8.data.toList) := by
  have hblank : " = JreStringConstant(@\"".toList = ' ' :: "= JreStringConstant(@\"".toList := by
    decide
  obtain ⟨htake, hdrop⟩ := span_slotName id (by decide : isNameChar ' ' = false)
    ("= JreStringConstant(@\"".toList ++ (Text.Escape.escape text.toList ++ '"' :: ");".toList))
  rw [← List.cons_append, ← hblank] at htake hdrop
  rw [storedSlot?, storeLine, dropPrefix?_append, Option.bind_some, hdrop, htake,
    dropPrefix?_append, Option.bind_some, Text.StringLiteral.read_escape, Option.bind_some,
    Text.StringLiteral.toList_toUTF8]
  simp only [if_true, String.ofList_toList]

/-! ## Lines -/

/-- Lines, each with its end. -/
def unlines (lines : List (List Char)) : List Char :=
  lines.flatMap (· ++ ['\n'])

theorem splitOn_unlines {lines : List (List Char)} (h : ∀ line ∈ lines, '\n' ∉ line) :
    (unlines lines).splitOn '\n' = lines ++ [[]] := by
  have hjoin : ['\n'].intercalate (lines ++ [[]]) = unlines lines := by
    induction lines with
    | nil => rfl
    | cons line lines ih =>
      have hne : lines ++ [[]] ≠ [] := List.append_ne_nil_of_right_ne_nil _ (List.cons_ne_nil _ _)
      rw [List.cons_append, List.intercalate_cons_of_ne_nil hne,
        ih fun l hl => h l (List.mem_cons_of_mem _ hl)]
      rfl
  have hlines : ∀ line ∈ lines ++ [[]], '\n' ∉ line := by
    intro line hl
    rcases List.mem_append.1 hl with hl | hl
    · exact h line hl
    · rw [List.mem_singleton.1 hl]
      exact List.not_mem_nil
  rw [← hjoin]
  exact List.splitOn_intercalate _ hlines
    (List.append_ne_nil_of_right_ne_nil _ (List.cons_ne_nil _ _))

/-- The head of the function that fills the slots. -/
def storesHead : List Char :=
  "__attribute__((constructor)) static void initialize_string_constants() \x7b".toList

/-- The lines of the declarations of a pool that is not empty. -/
def declarationLines (p : StringPool) : List (List Char) :=
  [] :: p.strings.toList.zipIdx.map (fun entry => slotLine entry.2) ++ [] :: storesHead ::
    p.strings.toList.zipIdx.map (fun entry => storeLine entry.1 entry.2) ++ [['\x7d']]

theorem toList_slot (id : Nat) :
    ("static NSString *" ++ slotName id ++ ";\n").toList = slotLine id ++ ['\n'] := by
  have hend : ";\n".toList = [';'] ++ ['\n'] := by decide
  unfold slotLine
  rw [String.toList_append, String.toList_append, hend, List.append_assoc, List.append_assoc,
    List.append_assoc]

theorem toList_stringLiteral (text : String) : (Text.Escape.stringLiteral text).toList =
    "@\"".toList ++ (Text.Escape.escape text.toList ++ ['"']) := by
  have hquote : "\"".toList = ['"'] := by decide
  unfold Text.Escape.stringLiteral Text.Escape.escapeString
  rw [String.toList_append, String.toList_append,
    String.toList_ofList (l := Text.Escape.escape text.toList), hquote, List.append_assoc]

theorem toList_store (text : String) (id : Nat) :
    ("  " ++ slotName id ++ " = JreStringConstant(" ++ Text.Escape.stringLiteral text
      ++ ");\n").toList = storeLine text id ++ ['\n'] := by
  have hopen : " = JreStringConstant(@\"".toList = " = JreStringConstant(".toList ++ "@\"".toList := by
    decide
  have hend : ");\n".toList = ");".toList ++ ['\n'] := by decide
  unfold storeLine
  simp only [String.toList_append, toList_stringLiteral, hopen, hend, List.append_assoc,
    List.cons_append, List.nil_append]

/-- Joined lines, where `line` is what stands in the line of an entry. -/
theorem toList_join_lines {α : Type} (entries : List α) {text : α → String}
    {line : α → List Char} (h : ∀ e, (text e).toList = line e ++ ['\n']) :
    (String.join (entries.map text)).toList = unlines (entries.map line) := by
  rw [String.toList_join, unlines, List.flatMap_map, List.flatMap_map]
  simp only [h]

theorem toList_declarations (h : p.isEmpty = false) :
    p.declarations.toList = unlines p.declarationLines := by
  have hslots := toList_join_lines p.strings.toList.zipIdx fun e => toList_slot e.2
  have hstores := toList_join_lines p.strings.toList.zipIdx fun e => toList_store e.1 e.2
  have hhead : "\n__attribute__((constructor)) static void initialize_string_constants() \x7b\n".toList =
      '\n' :: (storesHead ++ ['\n']) := by decide
  have htail : "\x7d\n".toList = ['\x7d'] ++ ['\n'] := by decide
  have hstart : "\n".toList = ['\n'] := by decide
  unfold declarations declarationLines
  rw [h, if_neg Bool.false_ne_true]
  dsimp only
  rw [String.toList_append, String.toList_append, String.toList_append, String.toList_append, hslots,
    hstores, hhead, htail, hstart]
  simp only [unlines, List.flatMap_append, List.flatMap_cons, List.flatMap_nil, List.nil_append,
    List.append_assoc, List.cons_append, List.append_nil]

theorem newline_notMem_slotLine (id : Nat) : '\n' ∉ slotLine id := by
  have hname : '\n' ∉ (slotName id).toList := fun hm => by cases isNameChar_of_mem_slotName hm
  unfold slotLine
  simp only [List.mem_append, not_or]
  exact ⟨by decide, hname, by decide⟩

theorem newline_notMem_storeLine (text : String) (id : Nat) : '\n' ∉ storeLine text id := by
  have hname : '\n' ∉ (slotName id).toList := fun hm => by cases isNameChar_of_mem_slotName hm
  unfold storeLine
  simp only [List.mem_append, List.mem_cons, not_or]
  exact ⟨by decide, hname, by decide, Text.StringLiteral.newline_notMem_escape _, by decide,
    by decide⟩

theorem newline_notMem_declarationLines (p : StringPool) :
    ∀ line ∈ p.declarationLines, '\n' ∉ line := by
  unfold declarationLines
  simp only [List.forall_mem_append, List.forall_mem_cons, List.forall_mem_map, List.not_mem_nil,
    newline_notMem_slotLine, newline_notMem_storeLine, not_false_eq_true, implies_true, true_and]
  exact ⟨by decide, by decide, fun _ h => h.elim⟩

/-! ## What is declared and filled -/

theorem declaredSlot?_storeLine (text : String) (id : Nat) :
    declaredSlot? (storeLine text id) = none := by
  have hblank : "  ".toList = ' ' :: [' '] := by decide
  have hprefix (rest : List Char) :
      (' ' :: rest).dropPrefix? "static NSString *".toList = none := rfl
  unfold declaredSlot? storeLine
  rw [hblank, List.cons_append, hprefix, Option.bind_none]

theorem storedSlot?_slotLine (id : Nat) : storedSlot? (slotLine id) = none := by
  have hstart : "static NSString *".toList = 's' :: "tatic NSString *".toList := by decide
  have hprefix (rest : List Char) : ('s' :: rest).dropPrefix? "  ".toList = none := rfl
  unfold storedSlot? slotLine
  rw [hstart, List.cons_append, hprefix, Option.bind_none]

/-- What a reader finds line by line in the declarations, if it finds nothing in the lines around the
declarations and the stores. -/
theorem filterMap_splitOn_declarations {α : Type} (p : StringPool) {read : List Char → Option α}
    (hnil : read [] = none) (hhead : read storesHead = none) (hend : read ['\x7d'] = none) :
    (p.declarations.toList.splitOn '\n').filterMap read =
      p.strings.toList.zipIdx.filterMap (fun entry => read (slotLine entry.2)) ++
        p.strings.toList.zipIdx.filterMap fun entry => read (storeLine entry.1 entry.2) := by
  cases h : p.isEmpty with
  | true =>
    have hstrings : p.strings = #[] := Array.isEmpty_iff.1 h
    have hempty : p.declarations.toList = [] := by
      unfold declarations
      rw [h, if_pos rfl]
      rfl
    rw [hempty, hstrings]
    simp [hnil]
  | false =>
    rw [toList_declarations h, splitOn_unlines p.newline_notMem_declarationLines]
    simp only [declarationLines, List.filterMap_append, List.filterMap_cons, List.filterMap_nil,
      List.filterMap_map, hnil, hhead, hend, List.append_nil]
    rfl

/-- Every slot is declared, in the order of the numbers. -/
theorem declaredSlots_declarations (p : StringPool) :
    declaredSlots p.declarations = (List.range p.size).map slotName := by
  have hsnd : p.strings.toList.zipIdx.map Prod.snd = List.range p.size := by
    rw [List.zipIdx_map_snd, List.range_eq_range', Array.length_toList]
    rfl
  unfold declaredSlots
  rw [p.filterMap_splitOn_declarations rfl (by decide) (by decide)]
  simp only [declaredSlot?_slotLine, declaredSlot?_storeLine, List.filterMap_none, List.append_nil]
  rw [← hsnd, List.map_map, ← List.filterMap_eq_map]
  rfl

/-- Every slot is filled with the string of its number, in the order of the numbers. -/
theorem storedSlots_declarations (p : StringPool) : storedSlots p.declarations =
    p.strings.toList.zipIdx.map fun entry => (slotName entry.2, entry.1.toUTF8.data.toList) := by
  unfold storedSlots
  rw [p.filterMap_splitOn_declarations rfl (by decide) (by decide)]
  simp only [storedSlot?_slotLine, storedSlot?_storeLine, List.filterMap_none, List.nil_append]
  rw [← List.filterMap_eq_map]
  rfl

end ObjectLowering.StringPool
