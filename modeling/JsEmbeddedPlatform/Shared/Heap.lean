import Mathlib.Data.List.Nodup

/-!
# A heap of equally typed blocks

The live blocks with their contents, the youngest allocation first. An address
may be handed out again once its block is released.
-/

set_option autoImplicit false

universe u v

structure Heap (α : Type u) where
  blocks : List (Nat × α)
  distinct : (blocks.map Prod.fst).Nodup

namespace Heap

variable {α : Type u}

def empty : Heap α := ⟨[], List.nodup_nil⟩

/-- The addresses in use. -/
def live (h : Heap α) : List Nat := h.blocks.map Prod.fst

def get? (h : Heap α) (p : Nat) : Option α := h.blocks.lookup p

/-- An allocator hands out no address in use: such a request leaves the heap alone. -/
def alloc (h : Heap α) (p : Nat) (a : α) : Heap α :=
  if fresh : p ∈ h.live then h
  else ⟨(p, a) :: h.blocks, List.nodup_cons.mpr ⟨fresh, h.distinct⟩⟩

def modify (h : Heap α) (p : Nat) (f : α → α) : Heap α where
  blocks := h.blocks.map fun b => if b.1 = p then (b.1, f b.2) else b
  distinct := by
    have : (h.blocks.map fun b => if b.1 = p then (b.1, f b.2) else b).map Prod.fst =
        h.blocks.map Prod.fst := by
      rw [List.map_map]
      apply List.map_congr_left
      intro b _
      simp only [Function.comp]
      split <;> rfl
    rw [this]
    exact h.distinct

def free (h : Heap α) (p : Nat) : Heap α where
  blocks := h.blocks.filter fun b => b.1 ≠ p
  distinct := h.distinct.sublist (List.Sublist.map Prod.fst List.filter_sublist)

theorem lookup_isSome_iff (bs : List (Nat × α)) (p : Nat) :
    (bs.lookup p).isSome ↔ p ∈ bs.map Prod.fst := by
  induction bs with
  | nil => simp
  | cons b bs ih =>
    obtain ⟨k, a⟩ := b
    by_cases h : p = k
    · simp [h]
    · have hk : (p == k) = false := by simpa using h
      simp only [List.lookup_cons, hk, List.map_cons, List.mem_cons, ih]
      tauto

theorem mem_live_iff (h : Heap α) (p : Nat) : p ∈ h.live ↔ ∃ a, h.get? p = some a := by
  rw [← Option.isSome_iff_exists]
  exact (lookup_isSome_iff h.blocks p).symm

theorem mem_live_of_get? {h : Heap α} {p : Nat} {a : α} (hp : h.get? p = some a) : p ∈ h.live :=
  (h.mem_live_iff p).mpr ⟨a, hp⟩

theorem live_nodup (h : Heap α) : h.live.Nodup := h.distinct

@[simp] theorem live_empty : (empty : Heap α).live = [] := rfl

@[simp] theorem get?_empty (p : Nat) : (empty : Heap α).get? p = none := rfl

theorem live_alloc {h : Heap α} {p : Nat} (fresh : p ∉ h.live) (a : α) :
    (h.alloc p a).live = p :: h.live := by
  simp only [alloc, fresh, dite_false]
  rfl

theorem get?_alloc {h : Heap α} {p : Nat} (fresh : p ∉ h.live) (a : α) (q : Nat) :
    (h.alloc p a).get? q = if q = p then some a else h.get? q := by
  simp only [alloc, fresh, dite_false, get?, List.lookup_cons]
  by_cases hq : q = p
  · simp [hq]
  · have : (q == p) = false := by simpa using hq
    simp [hq, this]

@[simp] theorem live_modify (h : Heap α) (p : Nat) (f : α → α) :
    (h.modify p f).live = h.live := by
  simp only [live, modify, List.map_map]
  apply List.map_congr_left
  intro b _
  simp only [Function.comp]
  split <;> rfl

theorem get?_modify (h : Heap α) (p : Nat) (f : α → α) (q : Nat) :
    (h.modify p f).get? q = if q = p then (h.get? q).map f else h.get? q := by
  simp only [get?, modify]
  induction h.blocks with
  | nil => simp
  | cons b bs ih =>
    obtain ⟨k, a⟩ := b
    by_cases hk : k = p
    · subst hk
      by_cases hq : q = k
      · simp [hq]
      · have : (q == k) = false := by simpa using hq
        simpa [List.lookup_cons, hq, this] using ih
    · by_cases hq : q = k
      · subst hq
        simp [hk]
      · have : (q == k) = false := by simpa using hq
        simpa [List.lookup_cons, hk, this] using ih

theorem live_free (h : Heap α) (p : Nat) : (h.free p).live = h.live.filter (· ≠ p) := by
  simp only [live, free, List.filter_map]
  rfl

theorem get?_free (h : Heap α) (p q : Nat) :
    (h.free p).get? q = if q = p then none else h.get? q := by
  simp only [get?, free]
  induction h.blocks with
  | nil => simp
  | cons b bs ih =>
    obtain ⟨k, a⟩ := b
    by_cases hk : k = p
    · subst hk
      by_cases hq : q = k
      · simpa [hq] using ih
      · have : (q == k) = false := by simpa using hq
        simpa [List.lookup_cons, hq, this] using ih
    · by_cases hq : q = k
      · subst hq
        simp [hk]
      · have : (q == k) = false := by simpa using hq
        simpa [List.lookup_cons, hk, hq, this] using ih

theorem ext_blocks {h k : Heap α} (e : h.blocks = k.blocks) : h = k := by
  cases h
  cases k
  cases e
  rfl

theorem modify_comm (h : Heap α) {p q : Nat} (hpq : p ≠ q) (f g : α → α) :
    (h.modify p f).modify q g = (h.modify q g).modify p f := by
  apply ext_blocks
  simp only [modify, List.map_map]
  apply List.map_congr_left
  intro b _
  simp only [Function.comp]
  by_cases hp : b.1 = p
  · have hq : b.1 ≠ q := fun e => hpq (hp.symm.trans e)
    simp [hp, hpq]
  · by_cases hq : b.1 = q
    · simp [hq, Ne.symm hpq]
    · simp [hp, hq]

/-- Initialising a fresh block in a second write. -/
theorem modify_alloc {h : Heap α} {p : Nat} (fresh : p ∉ h.live) (a : α) (f : α → α) :
    (h.alloc p a).modify p f = h.alloc p (f a) := by
  apply ext_blocks
  simp only [alloc, fresh, dite_false, modify, List.map_cons, if_true, List.cons.injEq, true_and]
  have apart : ∀ b ∈ h.blocks, (if b.1 = p then (b.1, f b.2) else b) = b := by
    intro b hb
    have : b.1 ≠ p := by
      intro e
      exact fresh (e ▸ List.mem_map_of_mem hb)
    rw [if_neg this]
  exact (List.map_congr_left apart).trans (List.map_id' _)

/-- The blocks seen through a projection of their contents. -/
def view {β : Type v} (g : α → β) (h : Heap α) : List (Nat × β) :=
  h.blocks.map fun b => (b.1, g b.2)

section View
variable {β : Type v} (g : α → β)

@[simp] theorem view_empty : view g (empty : Heap α) = [] := rfl

theorem view_keys (h : Heap α) : (h.view g).map Prod.fst = h.live := by
  simp only [view, live, List.map_map]
  rfl

theorem lookup_view (h : Heap α) (p : Nat) : (h.view g).lookup p = (h.get? p).map g := by
  simp only [view, get?]
  induction h.blocks with
  | nil => rfl
  | cons b bs ih =>
    obtain ⟨k, a⟩ := b
    by_cases hk : p = k
    · simp [hk]
    · have : (p == k) = false := by simpa using hk
      simpa [List.lookup_cons, this] using ih

theorem mem_view_iff (h : Heap α) (p : Nat) (b : β) :
    (p, b) ∈ h.view g ↔ (h.get? p).map g = some b := by
  rw [← lookup_view]
  have nodup : ((h.view g).map Prod.fst).Nodup := by
    rw [view_keys]
    exact h.live_nodup
  generalize h.view g = bs at nodup
  induction bs with
  | nil => simp
  | cons x bs ih =>
    obtain ⟨k, c⟩ := x
    obtain ⟨hk, hrest⟩ := List.nodup_cons.mp nodup
    by_cases hp : p = k
    · subst hp
      have away : (p, b) ∉ bs := fun hm => hk (List.mem_map.mpr ⟨(p, b), hm, rfl⟩)
      simp [away, eq_comm]
    · have : (p == k) = false := by simpa using hp
      simp only [List.mem_cons, Prod.mk.injEq, hp, false_and, false_or, List.lookup_cons, this]
      exact ih hrest

theorem view_alloc {h : Heap α} {p : Nat} (fresh : p ∉ h.live) (a : α) :
    (h.alloc p a).view g = (p, g a) :: h.view g := by
  simp only [alloc, fresh, dite_false]
  rfl

/-- A change that the projection does not see. -/
theorem view_modify (h : Heap α) (p : Nat) {f : α → α} (hf : ∀ a, g (f a) = g a) :
    (h.modify p f).view g = h.view g := by
  simp only [view, modify, List.map_map]
  apply List.map_congr_left
  intro b _
  simp only [Function.comp]
  split
  · rw [hf]
  · rfl

theorem view_free (h : Heap α) (p : Nat) :
    (h.free p).view g = (h.view g).filter fun b => b.1 ≠ p := by
  simp only [view, free, List.filter_map]
  rfl

end View

end Heap
