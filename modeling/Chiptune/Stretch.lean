/-!
# Stretches of an array

A stretch is a number of places in a row. It is changed in place, and every other place keeps what
it has (`getElem?_changeStretch`).
-/

namespace Chiptune

variable {α : Type}

/-- Changes a stretch of an array, each place by its distance from the start of the stretch. Places
behind the end of the array are left out. -/
@[specialize]
def changeStretch (items : Array α) (offset count : Nat) (change : Nat → α → α) : Array α :=
  Nat.fold count (fun i _ items => items.modify (offset + i) (change i)) items

@[simp] theorem changeStretch_zero (items : Array α) (offset : Nat) (change : Nat → α → α) :
    changeStretch items offset 0 change = items := rfl

theorem changeStretch_succ (items : Array α) (offset count : Nat) (change : Nat → α → α) :
    changeStretch items offset (count + 1) change =
      (changeStretch items offset count change).modify (offset + count) (change count) :=
  Nat.fold_succ ..

@[simp] theorem size_changeStretch (items : Array α) (offset count : Nat)
    (change : Nat → α → α) : (changeStretch items offset count change).size = items.size := by
  induction count with
  | zero => rfl
  | succ count ih => rw [changeStretch_succ, Array.size_modify, ih]

/-- A place of the stretch is changed once, and no other place is. -/
theorem getElem?_changeStretch (items : Array α) (offset count : Nat) (change : Nat → α → α)
    (i : Nat) :
    (changeStretch items offset count change)[i]? =
      if offset ≤ i ∧ i < offset + count then items[i]?.map (change (i - offset)) else items[i]? := by
  induction count with
  | zero => rw [changeStretch_zero, if_neg (by omega)]
  | succ count ih =>
    rw [changeStretch_succ, Array.getElem?_modify, ih]
    by_cases hlast : offset + count = i
    · rw [if_pos hlast, if_neg (by omega), if_pos (by omega), ← hlast, Nat.add_sub_cancel_left]
    · have hsame : (offset ≤ i ∧ i < offset + (count + 1)) ↔ (offset ≤ i ∧ i < offset + count) := by
        omega
      rw [if_neg hlast]
      simp only [hsame]

end Chiptune
