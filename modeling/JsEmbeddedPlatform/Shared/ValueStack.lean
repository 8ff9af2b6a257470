import Mathlib.Data.List.Basic

/-!
# Stacks with relative indices

The top comes first in the list. An index counts from the bottom when it is not negative, and
from the top, which is -1, when it is.
-/

set_option autoImplicit false

namespace ValueStack

universe u

variable {α : Type u}

/-- How many values are above the one that the index names. -/
def place (s : List α) (idx : Int) : Option Nat :=
  if idx < 0 then (if (-idx).toNat ≤ s.length then some ((-idx).toNat - 1) else none)
  else if idx.toNat < s.length then some (s.length - 1 - idx.toNat) else none

def get? (s : List α) (idx : Int) : Option α := (place s idx).bind fun above => s[above]?

def popN (s : List α) (count : Nat) : Option (List α) :=
  if count ≤ s.length then some (s.drop count) else none

section Lemmas
variable (a b v : α) (s : List α)

/-- Below `above`, the index that names a value does so whatever the number of them is. -/
theorem get?_below (above : List α) :
    get? (above ++ v :: s) (-(above.length + 1 : Nat)) = some v := by
  unfold get? place
  rw [if_pos (by omega), if_pos (by simp)]
  simp

@[simp] theorem get?_top : get? (v :: s) (-1) = some v := get?_below v s []

@[simp] theorem get?_second : get? (a :: v :: s) (-2) = some v := get?_below v s [a]

@[simp] theorem get?_third : get? (a :: b :: v :: s) (-3) = some v :=
  get?_below v s [a, b]

/-- What is pushed does not move the values that are counted from the bottom. -/
theorem get?_bottom (above : List α) : get? (above ++ [v]) 0 = some v := by
  unfold get? place
  rw [if_neg (by omega), if_pos (by simp)]
  simp

@[simp] theorem popN_one : popN (v :: s) 1 = some s := by simp [popN]

@[simp] theorem popN_two : popN (a :: v :: s) 2 = some s := by simp [popN]

end Lemmas

end ValueStack
