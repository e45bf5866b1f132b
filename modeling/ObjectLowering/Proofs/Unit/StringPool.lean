import ObjectLowering.Proofs.Descendants
import ObjectLowering.Proofs.FirstOccurrence
import ObjectLowering.Unit.StringPool

/-!
# ObjectLowering.Proofs.Unit.StringPool

The pool of string literals.

* `id?_eq_some_iff`: a string has the number under which it is found, since the strings and the index
  stay in step; so `nodup_strings`, no string occurs twice.
* `toList_addAll_empty`: the strings stand in the order in which they first appear. `add_of_get?`:
  adding one again changes nothing.
* `mem_literals_iff`: the literals of a tree are those that its root reaches.
-/

namespace ObjectLowering.StringPool

variable {p : StringPool} {text : String} {id : Nat}

/-! ## Numbers -/

theorem get?_eq_getElem? (p : StringPool) (id : Nat) : p.get? id = p.strings.toList[id]? :=
  Array.getElem?_toList.symm

/-- A string has the number under which it is found. -/
theorem id?_eq_some_iff : p.id? text = some id ↔ p.get? id = some text := by
  rw [get?_eq_getElem?]
  exact p.inStep text id

theorem id?_eq_none_iff : p.id? text = none ↔ text ∉ p.strings.toList := by
  rw [Option.eq_none_iff_forall_ne_some, List.mem_iff_getElem?, not_exists]
  simp only [ne_eq, id?_eq_some_iff, get?_eq_getElem?]

/-- Two numbers of one string are the same, as the index has but one. -/
theorem nodup_strings (p : StringPool) : p.strings.toList.Nodup := by
  refine List.nodup_iff_injective_get.2 fun i j hij => Fin.ext ?_
  have hfound (k : Fin p.strings.toList.length) :
      p.index.get? (p.strings.toList.get k) = some k.val :=
    (p.inStep _ _).2 (List.getElem?_eq_getElem k.isLt)
  have hi := hfound i
  rw [hij] at hi
  exact Option.some.inj (hi.symm.trans (hfound j))

theorem add_of_mem (h : text ∈ p.strings.toList) : (p.add text).2 = p := by
  unfold add
  split
  · rfl
  · rename_i hnone
    exact absurd h (id?_eq_none_iff.1 hnone)

theorem toList_add_of_notMem (h : text ∉ p.strings.toList) :
    (p.add text).2.strings.toList = p.strings.toList ++ [text] := by
  unfold add
  split
  · rename_i hid
    rw [id?_eq_none_iff.2 h] at hid
    cases hid
  · exact Array.toList_push

theorem addAll_append (p : StringPool) (texts texts' : List String) :
    p.addAll (texts ++ texts') = (p.addAll texts).addAll texts' :=
  List.foldl_append

/-- Strings are numbered as they first appear. -/
theorem toList_addAll_empty (texts : List String) :
    (empty.addAll texts).strings.toList = texts.eraseDups := by
  induction texts using List.reverseRecOn with
  | nil => rfl
  | append_singleton texts text ih =>
    have hadd : (empty.addAll (texts ++ [text])) = ((empty.addAll texts).add text).2 :=
      addAll_append ..
    have hmem : text ∈ (empty.addAll texts).strings.toList ↔ text ∈ texts := by
      rw [ih, List.mem_eraseDups]
    rw [hadd]
    by_cases hm : text ∈ texts
    · rw [add_of_mem (hmem.2 hm), ih, eraseDups_concat_of_mem hm]
    · rw [toList_add_of_notMem (mt hmem.1 hm), ih, eraseDups_concat_of_notMem hm]

theorem add_of_get? (hget : p.get? id = some text) : p.add text = (id, p) := by
  have hid := id?_eq_some_iff.2 hget
  unfold add
  split
  · rename_i hid'
    rw [Option.some.inj (hid.symm.trans hid')]
  · rename_i hnone
    rw [hid] at hnone
    cases hnone

theorem slotName_injective : Function.Injective slotName := by
  intro m n h
  have hrepr : Nat.repr m = Nat.repr n := (String.append_right_inj _).1 h
  have hdigits : Nat.toDigits 10 m = Nat.toDigits 10 n := by
    rw [← Nat.toList_repr, ← Nat.toList_repr, hrepr]
  rw [← Nat.ofDigitChars_ten_toDigits (n := m), hdigits, Nat.ofDigitChars_ten_toDigits]

/-! ## Literals -/

theorem mem_literals_iff {t : Tree} (hacyclic : ∀ root, t.root = some root → t.Acyclic root) :
    text ∈ literals t ↔ ∃ id, t.Reachable id ∧ t.kind? id = some (.literal (.string text)) := by
  unfold literals Tree.Reachable
  cases hroot : t.root with
  | none => simp
  | some root =>
    simp only [List.mem_filterMap, Tree.mem_descendants_iff (hacyclic root hroot),
      Option.some.injEq, exists_eq_left']
    constructor
    · rintro ⟨id, hid, hk⟩
      split at hk
      · rename_i hkind
        cases hk
        exact ⟨id, hid, hkind⟩
      · cases hk
    · rintro ⟨id, hid, hk⟩
      exact ⟨id, hid, by rw [hk]⟩

end ObjectLowering.StringPool
