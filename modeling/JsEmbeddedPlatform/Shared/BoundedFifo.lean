import Mathlib.Data.Nat.ModEq
import JsEmbeddedPlatform.Shared.Runs

/-!
# A bounded first-in first-out queue

The specification is a list of waiting items and a capacity. A send on a full
queue and a receive or a peek on an empty one are waits, not steps. The second
half is the index arithmetic of a ring of `capacity` slots.
-/

set_option autoImplicit false

namespace BoundedFifo

universe u v

variable {α : Type u} {β : Type v}

inductive Call (α : Type u) where
  | send (item : α)
  | receive
  | peek
deriving DecidableEq, Repr

/-- What a call that took effect answers; `refused` is a queue out of service. -/
inductive Reply (α : Type u) where
  | accepted
  | handed (item : α)
  | refused
deriving DecidableEq, Repr

def Call.map (f : α → β) : Call α → Call β
  | .send item => .send (f item)
  | .receive => .receive
  | .peek => .peek

def step (capacity : Nat) (items : List α) : Call α → Option (List α × Reply α)
  | .send x => if items.length < capacity then some (items ++ [x], .accepted) else none
  | .receive =>
    match items with
    | [] => none
    | x :: rest => some (rest, .handed x)
  | .peek =>
    match items with
    | [] => none
    | x :: rest => some (x :: rest, .handed x)

def sent : List (Call α) → List α
  | [] => []
  | .send x :: cs => x :: sent cs
  | _ :: cs => sent cs

/-- The items that receiving calls were handed; a peek does not take its item. -/
def received : List (Call α) → List (Reply α) → List α
  | .receive :: cs, .handed x :: rs => x :: received cs rs
  | _ :: cs, _ :: rs => received cs rs
  | _, _ => []

/-- Every sent item is received or still waits, once, in the order of the sends. -/
theorem run_conserves {capacity : Nat} {items last : List α} {calls : List (Call α)}
    {replies : List (Reply α)} (h : Runs.run (step capacity) items calls = some (last, replies)) :
    items ++ sent calls = received calls replies ++ last := by
  induction calls generalizing items replies with
  | nil =>
    simp only [Runs.run_nil, Option.some.injEq, Prod.mk.injEq] at h
    simp [sent, received, h.1]
  | cons c cs ih =>
    obtain ⟨next, r, rs, hs, hr, rfl⟩ := Runs.run_cons_iff.mp h
    have rest := ih hr
    cases c with
    | send x =>
      simp only [step, Option.ite_none_right_eq_some, Option.some.injEq, Prod.mk.injEq] at hs
      obtain ⟨_, rfl, rfl⟩ := hs
      simpa [sent, received] using rest
    | receive =>
      cases items with
      | nil => simp [step] at hs
      | cons x xs =>
        simp only [step, Option.some.injEq, Prod.mk.injEq] at hs
        obtain ⟨rfl, rfl⟩ := hs
        simpa [sent, received] using rest
    | peek =>
      cases items with
      | nil => simp [step] at hs
      | cons x xs =>
        simp only [step, Option.some.injEq, Prod.mk.injEq] at hs
        obtain ⟨rfl, rfl⟩ := hs
        simpa [sent, received] using rest

/-! ## Slots of a ring -/

/-- The slot of the `i`-th waiting item when the last one read lay in slot `read`. -/
def slot (capacity read i : Nat) : Nat := (read + 1 + i) % capacity

theorem slot_lt {capacity : Nat} (h : 0 < capacity) (read i : Nat) :
    slot capacity read i < capacity := Nat.mod_lt _ h

/-- Stepping to the next slot with a comparison instead of a division. -/
theorem slot_wrap {capacity k : Nat} (h : k < capacity) :
    (k + 1) % capacity = if capacity ≤ k + 1 then 0 else k + 1 := by
  split
  · have : k + 1 = capacity := by omega
    rw [this, Nat.mod_self]
  · exact Nat.mod_eq_of_lt (by omega)

theorem slot_zero (capacity read : Nat) : slot capacity read 0 = (read + 1) % capacity := rfl

theorem slot_advance (capacity read i : Nat) :
    slot capacity (slot capacity read 0) i = slot capacity read (i + 1) := by
  unfold slot
  rw [Nat.add_assoc, Nat.mod_add_mod]
  congr 1
  omega

theorem slot_succ (capacity read i : Nat) :
    (slot capacity read i + 1) % capacity = slot capacity read (i + 1) := by
  unfold slot
  rw [Nat.mod_add_mod]
  congr 1

theorem slot_injective {capacity read i j : Nat} (hi : i < capacity) (hj : j < capacity)
    (h : slot capacity read i = slot capacity read j) : i = j := by
  unfold slot at h
  have same : i ≡ j [MOD capacity] := Nat.ModEq.add_left_cancel' (read + 1) h
  exact Nat.ModEq.eq_of_lt_of_lt same hi hj

end BoundedFifo
