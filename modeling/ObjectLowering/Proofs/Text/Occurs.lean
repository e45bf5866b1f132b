/-!
# ObjectLowering.Proofs.Text.Occurs

A text that occurs somewhere in another, and two texts that do so one before the other.

* `Occurs.in_join`, `Occurs.in_intercalate`: what occurs in one of several texts occurs in the text
  that they are joined to.
* `Occurs.line_in_join`: where texts are lines, each of them starts one.
* `Occurs.precedes`: what occurs in the front of a text stands before what follows the front.
-/

namespace ObjectLowering.Text

/-- The text `part` occurs in `text`. -/
def Occurs (part text : String) : Prop :=
  part.toList <:+: text.toList

instance (part text : String) : Decidable (Occurs part text) :=
  inferInstanceAs (Decidable (_ <:+: _))

namespace Occurs

variable {part text : String}

theorem refl (text : String) : Occurs text text :=
  List.infix_rfl

theorem trans {whole : String} (h : Occurs part text) (h' : Occurs text whole) :
    Occurs part whole :=
  List.IsInfix.trans h h'

theorem append_left (h : Occurs part text) (before : String) : Occurs part (before ++ text) := by
  rw [Occurs, String.toList_append]
  exact List.IsInfix.trans h (List.suffix_append ..).isInfix

theorem append_right (h : Occurs part text) (after : String) : Occurs part (text ++ after) := by
  rw [Occurs, String.toList_append]
  exact List.IsInfix.trans h (List.prefix_append ..).isInfix

theorem in_join {texts : List String} (h : Occurs part text) (hm : text ∈ texts) :
    Occurs part (String.join texts) := by
  induction texts with
  | nil => cases hm
  | cons first rest ih =>
    rw [String.join_cons]
    rcases List.mem_cons.1 hm with rfl | hm
    · exact h.append_right _
    · exact (ih hm).append_left _

/-- Where all texts end a line, each of them starts one. -/
theorem line_in_join {line : String} {lines : List String} (hm : line ∈ lines)
    (h : ∀ l ∈ lines, ∃ start, l = start ++ "\n") :
    Occurs ("\n" ++ line) ("\n" ++ String.join lines) := by
  induction lines with
  | nil => cases hm
  | cons first rest ih =>
    obtain ⟨⟨start, hfirst⟩, hrest⟩ := List.forall_mem_cons.1 h
    rw [String.join_cons]
    rcases List.mem_cons.1 hm with rfl | hm
    · rw [← String.append_assoc]
      exact (refl _).append_right _
    · have hsplit : "\n" ++ (first ++ String.join rest) =
          ("\n" ++ start) ++ ("\n" ++ String.join rest) := by
        rw [hfirst]
        simp only [String.append_assoc]
      rw [hsplit]
      exact (ih hm hrest).append_left _

theorem in_intercalate {texts : List String} (h : Occurs part text) (hm : text ∈ texts)
    (separator : String) : Occurs part (separator.intercalate texts) := by
  induction texts with
  | nil => cases hm
  | cons first rest ih =>
    cases rest with
    | nil =>
      rw [String.intercalate_singleton]
      rwa [← List.mem_singleton.1 hm]
    | cons second rest =>
      rw [String.intercalate_cons_cons]
      rcases List.mem_cons.1 hm with rfl | hm
      · exact (h.append_right _).append_right _
      · exact (ih hm).append_left _

end Occurs

/-- In the text, `first` stands somewhere before `second`. -/
def Precedes (first second text : String) : Prop :=
  ∃ before between after, text = before ++ first ++ between ++ second ++ after

theorem Occurs.precedes {first front : String} (h : Occurs first front) (second rest : String) :
    Precedes first second (front ++ second ++ rest) := by
  obtain ⟨before, between, hfront⟩ := h
  refine ⟨String.ofList before, String.ofList between, rest, ?_⟩
  rw [← String.toList_inj]
  simp [← hfront]

theorem Precedes.of_occurs {first start second text : String} (hocc : Occurs start first)
    (h : Precedes first second text) : Precedes start second text := by
  obtain ⟨before, between, after, rfl⟩ := h
  have hfront : Occurs start (before ++ first ++ between) :=
    (hocc.append_left _).append_right _
  exact hfront.precedes second after

end ObjectLowering.Text
