/-!
# ObjectLowering.SortedSet

Finite sets whose elements are listed in strictly ascending order, so that a set prints in one way
however it was collected.

* `mem_insert`: inserting adds exactly the element.
* `ext_mem`: two sets with the same elements are equal.
-/

namespace ObjectLowering

/-- A finite set, as the strictly ascending list of its elements. -/
structure SortedSet (α : Type) [Ord α] where
  toList : List α
  ascending : toList.Pairwise fun a b => compare a b = .lt

namespace SortedSet

variable {α : Type} [Ord α]

/-- Puts an element in its place in an ascending list, unless it is there already. -/
def place (x : α) : List α → List α
  | [] => [x]
  | y :: ys =>
    match compare x y with
    | .lt => x :: y :: ys
    | .eq => y :: ys
    | .gt => y :: place x ys

theorem mem_or_eq_of_mem_place {x z : α} {l : List α} (h : z ∈ place x l) : z = x ∨ z ∈ l := by
  induction l with
  | nil => simpa [place] using h
  | cons y ys ih =>
    unfold place at h
    split at h <;> simp only [List.mem_cons] at h ⊢
    · exact h
    · exact .inr h
    · rcases h with h | h
      · exact .inr (.inl h)
      · rcases ih h with h | h
        · exact .inl h
        · exact .inr (.inr h)

theorem mem_place_of_mem {x z : α} {l : List α} (h : z ∈ l) : z ∈ place x l := by
  induction l with
  | nil => simp at h
  | cons y ys ih =>
    unfold place
    split
    · exact List.mem_cons_of_mem _ h
    · exact h
    · rcases List.mem_cons.1 h with h | h
      · exact h ▸ List.mem_cons_self
      · exact List.mem_cons_of_mem _ (ih h)

theorem mem_place_self [Std.LawfulEqOrd α] (x : α) (l : List α) : x ∈ place x l := by
  induction l with
  | nil => simp [place]
  | cons y ys ih =>
    unfold place
    split
    · exact List.mem_cons_self
    · rename_i h
      exact Std.LawfulEqOrd.eq_of_compare h ▸ List.mem_cons_self
    · exact List.mem_cons_of_mem _ ih

theorem place_ascending [Std.TransOrd α] (x : α) {l : List α}
    (h : l.Pairwise fun a b => compare a b = .lt) :
    (place x l).Pairwise fun a b => compare a b = .lt := by
  induction l with
  | nil => simp [place]
  | cons y ys ih =>
    have ⟨hy, hys⟩ := List.pairwise_cons.1 h
    unfold place
    split
    · rename_i hxy
      refine List.pairwise_cons.2 ⟨fun z hz => ?_, h⟩
      rcases List.mem_cons.1 hz with rfl | hz
      · exact hxy
      · exact Std.TransCmp.lt_trans hxy (hy z hz)
    · exact h
    · rename_i hxy
      refine List.pairwise_cons.2 ⟨fun z hz => ?_, ih hys⟩
      rcases mem_or_eq_of_mem_place hz with rfl | hz
      · exact Std.OrientedCmp.gt_iff_lt.1 hxy
      · exact hy z hz

def empty : SortedSet α :=
  ⟨[], .nil⟩

instance : Inhabited (SortedSet α) := ⟨empty⟩

instance : Membership α (SortedSet α) := ⟨fun s x => x ∈ s.toList⟩

theorem mem_def {s : SortedSet α} {x : α} : x ∈ s ↔ x ∈ s.toList := Iff.rfl

instance [DecidableEq α] (s : SortedSet α) (x : α) : Decidable (x ∈ s) :=
  decidable_of_iff _ mem_def.symm

def isEmpty (s : SortedSet α) : Bool :=
  s.toList.isEmpty

def insert [Std.TransOrd α] (s : SortedSet α) (x : α) : SortedSet α :=
  ⟨place x s.toList, place_ascending x s.ascending⟩

def insertAll [Std.TransOrd α] (s : SortedSet α) (xs : List α) : SortedSet α :=
  xs.foldl insert s

def ofList [Std.TransOrd α] (xs : List α) : SortedSet α :=
  empty.insertAll xs

def contains [BEq α] (s : SortedSet α) (x : α) : Bool :=
  s.toList.contains x

@[simp] theorem not_mem_empty (x : α) : x ∉ (empty : SortedSet α) := List.not_mem_nil

theorem nodup [Std.ReflOrd α] (s : SortedSet α) : s.toList.Nodup := by
  refine s.ascending.imp fun {a b} hlt heq => ?_
  rw [heq, Std.ReflOrd.compare_self] at hlt
  cases hlt

variable [Std.TransOrd α] [Std.LawfulEqOrd α]

@[simp] theorem mem_insert {s : SortedSet α} {x z : α} : z ∈ s.insert x ↔ z = x ∨ z ∈ s :=
  ⟨mem_or_eq_of_mem_place, fun h => h.elim (fun h => h ▸ mem_place_self x s.toList) mem_place_of_mem⟩

@[simp] theorem mem_insertAll {s : SortedSet α} {xs : List α} {z : α} :
    z ∈ s.insertAll xs ↔ z ∈ s ∨ z ∈ xs := by
  induction xs generalizing s with
  | nil => simp [insertAll]
  | cons x xs ih =>
    have := ih (s := s.insert x)
    simp only [insertAll, List.foldl_cons, mem_insert, List.mem_cons] at this ⊢
    rw [this, or_comm (a := z = x), or_assoc]

@[simp] theorem mem_ofList {xs : List α} {z : α} : z ∈ ofList xs ↔ z ∈ xs := by
  simp [ofList]

/-- Two sets with the same elements are equal. -/
theorem ext_mem {s t : SortedSet α} (h : ∀ x, x ∈ s ↔ x ∈ t) : s = t := by
  obtain ⟨l, hl⟩ := s
  obtain ⟨m, hm⟩ := t
  simp only [mem_def] at h
  congr
  induction l generalizing m with
  | nil =>
    cases m with
    | nil => rfl
    | cons y m => exact absurd ((h y).2 List.mem_cons_self) List.not_mem_nil
  | cons x l ih =>
    cases m with
    | nil => exact absurd ((h x).1 List.mem_cons_self) List.not_mem_nil
    | cons y m =>
      have ⟨hx, hl'⟩ := List.pairwise_cons.1 hl
      have ⟨hy, hm'⟩ := List.pairwise_cons.1 hm
      have irrefl (a : α) : compare a a ≠ .lt := by simp
      have hxy : x = y := by
        rcases List.mem_cons.1 ((h x).1 List.mem_cons_self) with e | e
        · exact e
        · rcases List.mem_cons.1 ((h y).2 List.mem_cons_self) with f | f
          · exact f.symm
          · exact absurd (Std.TransCmp.lt_trans (hy x e) (hx y f)) (irrefl y)
      subst hxy
      congr
      refine ih hl' m hm' fun z => ⟨fun hz => ?_, fun hz => ?_⟩
      · rcases List.mem_cons.1 ((h z).1 (List.mem_cons_of_mem _ hz)) with rfl | e
        · exact absurd (hx z hz) (irrefl z)
        · exact e
      · rcases List.mem_cons.1 ((h z).2 (List.mem_cons_of_mem _ hz)) with rfl | e
        · exact absurd (hy z hz) (irrefl z)
        · exact e

end SortedSet

end ObjectLowering
