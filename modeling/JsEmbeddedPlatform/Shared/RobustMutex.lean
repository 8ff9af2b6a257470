import Mathlib.Logic.Basic

/-!
# A robust mutex

When the owner dies, the next lock succeeds and says so. The state the mutex protects
counts as inconsistent from then on: an unlock without a repair makes the mutex
unusable for good. A thread that locks what it holds waits for itself.
-/

set_option autoImplicit false

universe u

inductive RobustMutex (Thread : Type u) where
  | free
  | held (owner : Thread) (consistent : Bool)
  | ownerDied
  | notRecoverable
deriving DecidableEq, Repr

namespace RobustMutex

inductive LockResult where
  | acquired
  | ownerDead
  | notRecoverable
deriving DecidableEq, Repr

variable {Thread : Type u}

/-- `none` while the owner lives and has not unlocked. -/
def lock (t : Thread) : RobustMutex Thread → Option (LockResult × RobustMutex Thread)
  | .free => some (.acquired, .held t true)
  | .held _ _ => none
  | .ownerDied => some (.ownerDead, .held t false)
  | .notRecoverable => some (.notRecoverable, .notRecoverable)

def owner : RobustMutex Thread → Option Thread
  | .held t _ => some t
  | _ => none

section Owner
variable [DecidableEq Thread]

def unlock (t : Thread) (m : RobustMutex Thread) : RobustMutex Thread :=
  match m with
  | .held u consistent =>
    if u = t then (if consistent then .free else .notRecoverable) else m
  | _ => m

/-- The end of a thread that may hold the mutex. -/
def die (t : Thread) (m : RobustMutex Thread) : RobustMutex Thread :=
  match m with
  | .held u _ => if u = t then .ownerDied else m
  | _ => m

theorem unlock_held (t : Thread) : unlock t (.held t true) = .free := by
  simp [unlock]

theorem owner_unlock (t : Thread) (m : RobustMutex Thread) : (unlock t m).owner ≠ some t := by
  cases m with
  | held u consistent =>
    simp only [unlock]
    by_cases h : u = t
    · rw [if_pos h]
      cases consistent <;> nofun
    · rw [if_neg h]
      intro hu
      exact h (Option.some.inj hu)
  | free => nofun
  | ownerDied => nofun
  | notRecoverable => nofun

theorem die_of_owner_ne {t : Thread} {m : RobustMutex Thread} (h : m.owner ≠ some t) :
    die t m = m := by
  cases m with
  | held u consistent =>
    have hne : u ≠ t := fun hu => h (congrArg some hu)
    simp only [die, if_neg hne]
  | free => rfl
  | ownerDied => rfl
  | notRecoverable => rfl

end Owner

end RobustMutex
