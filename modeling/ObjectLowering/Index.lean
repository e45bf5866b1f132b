/-!
# ObjectLowering.Index

Positions by key, as a loop over a list keeps them.

* `get?_insert`: what is found under a key.
* `InStep`: the index of a list without repetitions. `InStep.insert`: one more entry at its end.
-/

namespace ObjectLowering

/-- Positions by key. A later entry of a key stands in front of an earlier one and hides it. -/
structure Index (α : Type) where
  entries : List (α × Nat) := []
  deriving Repr, Inhabited

namespace Index

variable {α : Type} [BEq α]

def get? (index : Index α) (key : α) : Option Nat :=
  index.entries.lookup key

def insert (index : Index α) (key : α) (position : Nat) : Index α :=
  ⟨(key, position) :: index.entries⟩

@[simp] theorem get?_empty (key : α) : ({} : Index α).get? key = none := rfl

/-- The entries of a list are found under their positions, and nothing else is found. -/
def InStep (index : Index α) (l : List α) : Prop :=
  ∀ key i, index.get? key = some i ↔ l[i]? = some key

theorem inStep_empty : ({} : Index α).InStep [] := by
  simp [InStep]

variable [LawfulBEq α] {index : Index α} {key : α} {l : List α}

theorem get?_insert [DecidableEq α] (index : Index α) (key : α) (position : Nat) (other : α) :
    (index.insert key position).get? other =
      if other = key then some position else index.get? other := by
  by_cases h : other = key
  · simp [insert, get?, h]
  · have hb : (other == key) = false := by simpa using h
    simp only [insert, get?, List.lookup_cons, hb, if_neg h]

theorem InStep.insert [DecidableEq α] (h : index.InStep l) (hnew : index.get? key = none) :
    (index.insert key l.length).InStep (l ++ [key]) := by
  have hl (i : Nat) : l[i]? ≠ some key := fun hi => by
    rw [(h key i).2 hi] at hnew
    cases hnew
  intro other i
  have hconcat : (l ++ [key])[i]? = if i = l.length then some key else l[i]? := by grind
  rw [get?_insert, hconcat]
  split
  · rename_i hother
    split
    · rename_i hi
      simp [hother, hi]
    · rename_i hi
      simp [hother, hl i, Ne.symm hi]
  · rename_i hother
    split
    · rename_i hi
      have hend : index.get? other ≠ some l.length := by simp [h other l.length]
      simp [hi, hend, Ne.symm hother]
    · exact h other i

end Index

end ObjectLowering
