import JsEmbeddedPlatform.Shared.Heap
import Mathlib.Logic.Function.Basic

/-!
# Slots that own blocks of a heap

Each slot holds a pointer or none. No two hold the same one and what they hold is
live, so that a block is released and allocated through one slot without any change
for the others.
-/

set_option autoImplicit false

namespace Ownership

universe u v

variable {α : Type u} {Slot : Type v}

structure Owned (h : Heap α) (pointer : Slot → Option Nat) : Prop where
  live : ∀ s p, pointer s = some p → p ∈ h.live
  distinct : ∀ s t p, pointer s = some p → pointer t = some p → s = t

/-- The block behind a pointer. -/
def block (h : Heap α) (pointer : Option Nat) : Option α := pointer.bind h.get?

@[simp] theorem block_none (h : Heap α) : block h none = none := rfl

theorem owned_empty : Owned (Heap.empty : Heap α) (fun _ : Slot => none) where
  live := by simp
  distinct := by simp

section Rules
variable {h : Heap α} {pointer : Slot → Option Nat}

/-- Slots may be emptied without a release of what they hold. -/
theorem Owned.forget (own : Owned h pointer) {pointer' : Slot → Option Nat}
    (fewer : ∀ s p, pointer' s = some p → pointer s = some p) : Owned h pointer' where
  live s p hs := own.live s p (fewer s p hs)
  distinct s t p hs ht := own.distinct s t p (fewer s p hs) (fewer t p ht)

theorem Owned.block_free (own : Owned h pointer) {s t : Slot} {p : Nat}
    (hs : pointer s = some p) (hts : t ≠ s) :
    block (h.free p) (pointer t) = block h (pointer t) := by
  cases ht : pointer t with
  | none => rfl
  | some q =>
    have hq : q ≠ p := fun hq => hts (own.distinct t s p (hq ▸ ht) hs)
    simp only [block, Option.bind_some, Heap.get?_free, if_neg hq]

theorem Owned.block_alloc (own : Owned h pointer) {p : Nat} (fresh : p ∉ h.live) (a : α)
    (t : Slot) : block (h.alloc p a) (pointer t) = block h (pointer t) := by
  cases ht : pointer t with
  | none => rfl
  | some q =>
    have hq : q ≠ p := fun hq => fresh (hq ▸ own.live t q ht)
    simp only [block, Option.bind_some, Heap.get?_alloc fresh, if_neg hq]

variable [DecidableEq Slot]

theorem Owned.free (own : Owned h pointer) {s : Slot} {p : Nat} (hs : pointer s = some p) :
    Owned (h.free p) (Function.update pointer s none) where
  live t q ht := by
    by_cases hts : t = s
    · rw [hts, Function.update_self] at ht
      cases ht
    · rw [Function.update_of_ne hts] at ht
      rw [Heap.live_free, List.mem_filter]
      refine ⟨own.live t q ht, ?_⟩
      have hq : q ≠ p := fun hq => hts (own.distinct t s p (hq ▸ ht) hs)
      simpa using hq
  distinct t r q ht hr := by
    by_cases hts : t = s
    · rw [hts, Function.update_self] at ht
      cases ht
    · by_cases hrs : r = s
      · rw [hrs, Function.update_self] at hr
        cases hr
      · rw [Function.update_of_ne hts] at ht
        rw [Function.update_of_ne hrs] at hr
        exact own.distinct t r q ht hr

theorem Owned.alloc (own : Owned h pointer) {s : Slot} {p : Nat} (fresh : p ∉ h.live) (a : α) :
    Owned (h.alloc p a) (Function.update pointer s (some p)) where
  live t q ht := by
    rw [Heap.live_alloc fresh, List.mem_cons]
    by_cases hts : t = s
    · rw [hts, Function.update_self] at ht
      exact Or.inl (Option.some.inj ht).symm
    · rw [Function.update_of_ne hts] at ht
      exact Or.inr (own.live t q ht)
  distinct t r q ht hr := by
    by_cases hts : t = s
    · by_cases hrs : r = s
      · rw [hts, hrs]
      · rw [hts, Function.update_self, Option.some.injEq] at ht
        rw [Function.update_of_ne hrs] at hr
        exact absurd (ht ▸ own.live r q hr) fresh
    · rw [Function.update_of_ne hts] at ht
      by_cases hrs : r = s
      · rw [hrs, Function.update_self, Option.some.injEq] at hr
        exact absurd (hr ▸ own.live t q ht) fresh
      · rw [Function.update_of_ne hrs] at hr
        exact own.distinct t r q ht hr

end Rules

/-! ## An allocator -/

/-- An address that is not in use. -/
def unused (h : Heap α) : Nat := h.live.foldr max 0 + 1

theorem unused_notMem (h : Heap α) : unused h ∉ h.live := by
  have bound : ∀ (ps : List Nat), ∀ p ∈ ps, p ≤ ps.foldr max 0 := by
    intro ps
    induction ps with
    | nil => simp
    | cons q ps ih =>
      intro p hp
      rw [List.foldr_cons]
      rcases List.mem_cons.mp hp with rfl | hp
      · exact Nat.le_max_left _ _
      · exact Nat.le_trans (ih p hp) (Nat.le_max_right _ _)
  intro hmem
  have := bound h.live (unused h) hmem
  unfold unused at this
  omega

/-- A pointer that is not NULL is released; one that is not live must not be. -/
def release (pointer : Option Nat) (h : Heap α) : Option (Heap α) :=
  match pointer with
  | none => some h
  | some p => if p ∈ h.live then some (h.free p) else none

def allocate (a : α) (h : Heap α) : Nat × Heap α := (unused h, h.alloc (unused h) a)

section Slots
variable {h : Heap α} {pointer : Slot → Option Nat} [DecidableEq Slot]

theorem Owned.release (own : Owned h pointer) (s : Slot) :
    ∃ h', Ownership.release (pointer s) h = some h' ∧
      Owned h' (Function.update pointer s none) ∧
      ∀ t, t ≠ s → block h' (pointer t) = block h (pointer t) := by
  cases hs : pointer s with
  | none =>
    refine ⟨h, rfl, ?_, fun _ _ => rfl⟩
    rw [← hs, Function.update_eq_self]
    exact own
  | some p =>
    refine ⟨h.free p, ?_, own.free hs, fun t ht => own.block_free hs ht⟩
    unfold Ownership.release
    exact if_pos (own.live s p hs)

theorem Owned.allocate (own : Owned h pointer) (s : Slot) (a : α) :
    Owned (Ownership.allocate a h).2
      (Function.update pointer s (some (Ownership.allocate a h).1)) ∧
    block (Ownership.allocate a h).2 (some (Ownership.allocate a h).1) = some a ∧
    ∀ t, block (Ownership.allocate a h).2 (pointer t) = block h (pointer t) := by
  have fresh := unused_notMem h
  refine ⟨own.alloc fresh a, ?_, own.block_alloc fresh a⟩
  simp only [Ownership.allocate, block, Option.bind_some, Heap.get?_alloc fresh, if_true]

end Slots

end Ownership
