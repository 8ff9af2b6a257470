import JsEmbeddedPlatform.Shared.Heap
import JsEmbeddedPlatform.Shared.LinkRing

/-!
# Lists linked through fields of heap records

The header of the ring is the pair of variables `first` and `last`, so a null
link stands for the header. `assignNext` and `assignPrev` are the assignments a
program makes: to a field of the neighbour, or to the variable when there is none.
-/

set_option autoImplicit false

universe u v

/-- Where a record keeps its links. -/
structure LinkFields (α : Type u) where
  next : α → Option Nat
  prev : α → Option Nat
  setNext : Option Nat → α → α
  setPrev : Option Nat → α → α
  next_setNext : ∀ v a, next (setNext v a) = v
  prev_setNext : ∀ v a, prev (setNext v a) = prev a
  prev_setPrev : ∀ v a, prev (setPrev v a) = v
  next_setPrev : ∀ v a, next (setPrev v a) = next a

structure IntrusiveList (α : Type u) where
  heap : Heap α
  first : Option Nat
  last : Option Nat

namespace IntrusiveList

open LinkRing

variable {α : Type u} (F : LinkFields α) (l : IntrusiveList α)

def nextOf : Option Nat → Option Nat
  | none => l.first
  | some p => (l.heap.get? p).bind F.next

def prevOf : Option Nat → Option Nat
  | none => l.last
  | some p => (l.heap.get? p).bind F.prev

def Represents (xs : List Nat) : Prop :=
  Ring (nextOf F l) (prevOf F l) none (xs.map some)

def assignNext (p v : Option Nat) : IntrusiveList α :=
  match p with
  | none => { l with first := v }
  | some a => { l with heap := l.heap.modify a (F.setNext v) }

def assignPrev (p v : Option Nat) : IntrusiveList α :=
  match p with
  | none => { l with last := v }
  | some a => { l with heap := l.heap.modify a (F.setPrev v) }

/-- A link that may be followed: null or the address of a live block. -/
def Valid (p : Option Nat) : Prop := ∀ a, p = some a → a ∈ l.heap.live

section Assign
variable {F l}

theorem nextOf_assignNext {p v : Option Nat} (hp : l.Valid p) :
    nextOf F (l.assignNext F p v) = Function.update (nextOf F l) p v := by
  funext q
  cases p with
  | none => cases q <;> simp [assignNext, nextOf, Function.update]
  | some a =>
    obtain ⟨x, hx⟩ := (l.heap.mem_live_iff a).mp (hp a rfl)
    cases q with
    | none => simp [assignNext, nextOf, Function.update]
    | some b =>
      by_cases hb : b = a
      · subst hb
        simp [assignNext, nextOf, Heap.get?_modify, hx, F.next_setNext]
      · simp [assignNext, nextOf, Heap.get?_modify, hb, Function.update]

theorem prevOf_assignNext (p v : Option Nat) :
    prevOf F (l.assignNext F p v) = prevOf F l := by
  funext q
  cases p with
  | none => cases q <;> rfl
  | some a =>
    cases q with
    | none => rfl
    | some b =>
      by_cases hb : b = a
      · cases hg : l.heap.get? a <;>
          simp [assignNext, prevOf, Heap.get?_modify, hb, hg, F.prev_setNext]
      · simp [assignNext, prevOf, Heap.get?_modify, hb]

theorem prevOf_assignPrev {p v : Option Nat} (hp : l.Valid p) :
    prevOf F (l.assignPrev F p v) = Function.update (prevOf F l) p v := by
  funext q
  cases p with
  | none => cases q <;> simp [assignPrev, prevOf, Function.update]
  | some a =>
    obtain ⟨x, hx⟩ := (l.heap.mem_live_iff a).mp (hp a rfl)
    cases q with
    | none => simp [assignPrev, prevOf, Function.update]
    | some b =>
      by_cases hb : b = a
      · subst hb
        simp [assignPrev, prevOf, Heap.get?_modify, hx, F.prev_setPrev]
      · simp [assignPrev, prevOf, Heap.get?_modify, hb, Function.update]

theorem nextOf_assignPrev (p v : Option Nat) :
    nextOf F (l.assignPrev F p v) = nextOf F l := by
  funext q
  cases p with
  | none => cases q <;> rfl
  | some a =>
    cases q with
    | none => rfl
    | some b =>
      by_cases hb : b = a
      · cases hg : l.heap.get? a <;>
          simp [assignPrev, nextOf, Heap.get?_modify, hb, hg, F.next_setPrev]
      · simp [assignPrev, nextOf, Heap.get?_modify, hb]

@[simp] theorem live_assignNext (p v : Option Nat) :
    (l.assignNext F p v).heap.live = l.heap.live := by
  cases p <;> simp [assignNext]

@[simp] theorem live_assignPrev (p v : Option Nat) :
    (l.assignPrev F p v).heap.live = l.heap.live := by
  cases p <;> simp [assignPrev]

end Assign

section Operations
variable {F l} {xs : List Nat}

theorem Represents.empty : Represents F (⟨Heap.empty, none, none⟩ : IntrusiveList α) [] :=
  Ring.empty rfl rfl

theorem Represents.nodup (h : Represents F l xs) : xs.Nodup :=
  (List.nodup_cons.mp (Ring.nodup h)).2.of_map some

theorem Represents.first_mem (h : Represents F l xs) {p : Nat} (hp : l.first = some p) :
    p ∈ xs := by
  have := (Ring.around h List.mem_cons_self).2.2.1
  simpa [nextOf, hp] using this

theorem Represents.last_mem (h : Represents F l xs) {p : Nat} (hp : l.last = some p) :
    p ∈ xs := by
  have := (Ring.around h List.mem_cons_self).2.2.2
  simpa [prevOf, hp] using this

theorem Represents.ends (h : Represents F l xs) : l.first = none ↔ l.last = none := by
  obtain ⟨h1, h2, _⟩ := Ring.around h List.mem_cons_self
  constructor
  · intro hf
    simpa [nextOf, prevOf, hf] using h2
  · intro hl
    simpa [nextOf, prevOf, hl] using h1

/-- The links of a member lead to members or to the header, and back. -/
theorem Represents.around (h : Represents F l xs) {x : Nat} {a : α} (hx : x ∈ xs)
    (ha : l.heap.get? x = some a) :
    nextOf F l (F.prev a) = some x ∧ prevOf F l (F.next a) = some x ∧
      (∀ p, F.next a = some p → p ∈ xs) ∧ (∀ p, F.prev a = some p → p ∈ xs) := by
  have hmem : some x ∈ (none :: xs.map some : List (Option Nat)) := by simp [hx]
  obtain ⟨h1, h2, h3, h4⟩ := Ring.around h hmem
  have hnext : nextOf F l (some x) = F.next a := by simp [nextOf, ha]
  have hprev : prevOf F l (some x) = F.prev a := by simp [prevOf, ha]
  rw [hprev] at h1 h4
  rw [hnext] at h2 h3
  refine ⟨h1, h2, ?_, ?_⟩
  · intro p hp
    simpa [hp] using h3
  · intro p hp
    simpa [hp] using h4

/-- Removing a record: bridge its neighbours, then release it. -/
def unlink (F : LinkFields α) (l : IntrusiveList α) (x : Nat) (a : α) : IntrusiveList α :=
  let bridged := (l.assignNext F (F.prev a) (F.next a)).assignPrev F (F.next a) (F.prev a)
  { bridged with heap := bridged.heap.free x }

theorem Represents.unlink (h : Represents F l xs) {x : Nat} {a : α} (hx : x ∈ xs)
    (live : ∀ p ∈ xs, p ∈ l.heap.live) (ha : l.heap.get? x = some a) :
    Represents F (unlink F l x a) (xs.filter (· ≠ x)) := by
  obtain ⟨_, _, hnext, hprev⟩ := h.around hx ha
  obtain ⟨as, bs, rfl⟩ := List.append_of_mem hx
  have hnd := h.nodup
  have hx' : x ∉ as ∧ x ∉ bs := by
    have := List.nodup_append.mp hnd
    refine ⟨fun hxa => this.2.2 x hxa x List.mem_cons_self rfl, ?_⟩
    exact (List.nodup_cons.mp this.2.1).1
  have kept : (as ++ x :: bs).filter (· ≠ x) = as ++ bs := by
    rw [List.filter_append, List.filter_cons_of_neg (by simp)]
    have keep : ∀ ys : List Nat, x ∉ ys → ys.filter (· ≠ x) = ys := by
      intro ys hys
      apply List.filter_eq_self.mpr
      intro y hy
      have : y ≠ x := fun e => hys (e ▸ hy)
      simpa using this
    rw [keep as hx'.1, keep bs hx'.2]
  rw [kept]
  have ring : Ring (nextOf F l) (prevOf F l) none (as.map some ++ some x :: bs.map some) := by
    simpa [Represents] using h
  have cut := ring.unlink
  have hnx : nextOf F l (some x) = F.next a := by simp [nextOf, ha]
  have hpx : prevOf F l (some x) = F.prev a := by simp [prevOf, ha]
  rw [hnx, hpx] at cut
  have validPrev : l.Valid (F.prev a) := fun p hp => live p (hprev p hp)
  have validNext : (l.assignNext F (F.prev a) (F.next a)).Valid (F.next a) := by
    intro p hp
    rw [live_assignNext]
    exact live p (hnext p hp)
  have bridgedNext : nextOf F ((l.assignNext F (F.prev a) (F.next a)).assignPrev F (F.next a)
      (F.prev a)) = Function.update (nextOf F l) (F.prev a) (F.next a) := by
    rw [nextOf_assignPrev, nextOf_assignNext validPrev]
  have bridgedPrev : prevOf F ((l.assignNext F (F.prev a) (F.next a)).assignPrev F (F.next a)
      (F.prev a)) = Function.update (prevOf F l) (F.next a) (F.prev a) := by
    rw [prevOf_assignPrev validNext, prevOf_assignNext]
  have freed : ∀ q : Option Nat, q ≠ some x →
      nextOf F (IntrusiveList.unlink F l x a) q =
        Function.update (nextOf F l) (F.prev a) (F.next a) q ∧
      prevOf F (IntrusiveList.unlink F l x a) q =
        Function.update (prevOf F l) (F.next a) (F.prev a) q := by
    intro q hq
    rw [← bridgedNext, ← bridgedPrev]
    cases q with
    | none => exact ⟨rfl, rfl⟩
    | some b =>
      have hb : b ≠ x := fun e => hq (by rw [e])
      simp [IntrusiveList.unlink, nextOf, prevOf, Heap.get?_free, hb]
  have away : ∀ q ∈ (none :: (as.map some ++ bs.map some) : List (Option Nat)), q ≠ some x := by
    rintro q hq rfl
    simp [hx'] at hq
  have goal : Ring (nextOf F (IntrusiveList.unlink F l x a))
      (prevOf F (IntrusiveList.unlink F l x a)) none (as.map some ++ bs.map some) :=
    cut.congr (fun q hq => (freed q (away q hq)).1) (fun q hq => (freed q (away q hq)).2)
  simpa [Represents] using goal

/-- A new record in front: its links point to the old first node and to the header. -/
def pushFront (F : LinkFields α) (l : IntrusiveList α) (x : Nat) (a : α) : IntrusiveList α :=
  let added := { l with heap := l.heap.alloc x (F.setPrev none (F.setNext l.first a)) }
  { added.assignPrev F l.first (some x) with first := some x }

/-- A new record behind the last one. -/
def pushBack (F : LinkFields α) (l : IntrusiveList α) (x : Nat) (a : α) : IntrusiveList α :=
  let added := { l with heap := l.heap.alloc x (F.setPrev l.last (F.setNext none a)) }
  { added.assignNext F l.last (some x) with last := some x }

section Alloc
variable {x : Nat} {a : α}

theorem nextOf_alloc (fresh : x ∉ l.heap.live) :
    nextOf F { l with heap := l.heap.alloc x a } =
      Function.update (nextOf F l) (some x) (F.next a) := by
  funext q
  cases q with
  | none => simp [nextOf, Function.update]
  | some b =>
    by_cases hb : b = x
    · subst hb
      simp [nextOf, Heap.get?_alloc fresh]
    · simp [nextOf, Heap.get?_alloc fresh, hb, Function.update]

theorem prevOf_alloc (fresh : x ∉ l.heap.live) :
    prevOf F { l with heap := l.heap.alloc x a } =
      Function.update (prevOf F l) (some x) (F.prev a) := by
  funext q
  cases q with
  | none => simp [prevOf, Function.update]
  | some b =>
    by_cases hb : b = x
    · subst hb
      simp [prevOf, Heap.get?_alloc fresh]
    · simp [prevOf, Heap.get?_alloc fresh, hb, Function.update]

end Alloc

theorem Represents.pushFront (h : Represents F l xs) (live : ∀ p ∈ xs, p ∈ l.heap.live)
    {x : Nat} (fresh : x ∉ l.heap.live) (a : α) :
    Represents F (pushFront F l x a) (x :: xs) := by
  have hx : some x ∉ (none :: xs.map some : List (Option Nat)) := by
    simp only [List.mem_cons, List.mem_map, Option.some.injEq, exists_eq_right, not_or]
    exact ⟨by simp, fun hm => fresh (live x hm)⟩
  have pushed := Ring.pushFront h hx
  have valid : Valid { l with heap := l.heap.alloc x (F.setPrev none (F.setNext l.first a)) }
      l.first := by
    intro p hp
    rw [Heap.live_alloc fresh]
    exact List.mem_cons_of_mem x (live p (h.first_mem hp))
  have hnext : nextOf F (IntrusiveList.pushFront F l x a) =
      Function.update (Function.update (nextOf F l) (some x) (nextOf F l none)) none (some x) := by
    have inner := nextOf_assignPrev (F := F)
      (l := { l with heap := l.heap.alloc x (F.setPrev none (F.setNext l.first a)) })
      l.first (some x)
    rw [nextOf_alloc fresh, F.next_setPrev, F.next_setNext] at inner
    funext q
    cases q with
    | none => rfl
    | some b =>
      have := congrFun inner (some b)
      rw [Function.update_of_ne (by simp)]
      exact this
  have hprev : prevOf F (IntrusiveList.pushFront F l x a) =
      Function.update (Function.update (prevOf F l) (some x) none) (nextOf F l none) (some x) := by
    have inner := prevOf_assignPrev (F := F) (v := some x) valid
    rw [prevOf_alloc fresh, F.prev_setPrev] at inner
    funext q
    have := congrFun inner q
    cases q with
    | none => exact this
    | some b => exact this
  rw [← hnext, ← hprev] at pushed
  simpa [Represents] using pushed

theorem Represents.pushBack (h : Represents F l xs) (live : ∀ p ∈ xs, p ∈ l.heap.live)
    {x : Nat} (fresh : x ∉ l.heap.live) (a : α) :
    Represents F (pushBack F l x a) (xs ++ [x]) := by
  have hx : some x ∉ (none :: xs.map some : List (Option Nat)) := by
    simp only [List.mem_cons, List.mem_map, Option.some.injEq, exists_eq_right, not_or]
    exact ⟨by simp, fun hm => fresh (live x hm)⟩
  have pushed := Ring.pushBack h hx
  have valid : Valid { l with heap := l.heap.alloc x (F.setPrev l.last (F.setNext none a)) }
      l.last := by
    intro p hp
    rw [Heap.live_alloc fresh]
    exact List.mem_cons_of_mem x (live p (h.last_mem hp))
  have hnext : nextOf F (IntrusiveList.pushBack F l x a) =
      Function.update (Function.update (nextOf F l) (some x) none) (prevOf F l none) (some x) := by
    have inner := nextOf_assignNext (F := F) (v := some x) valid
    rw [nextOf_alloc fresh, F.next_setPrev, F.next_setNext] at inner
    funext q
    have := congrFun inner q
    cases q with
    | none => exact this
    | some b => exact this
  have hprev : prevOf F (IntrusiveList.pushBack F l x a) =
      Function.update (Function.update (prevOf F l) (some x) (prevOf F l none)) none (some x) := by
    have inner := prevOf_assignNext (F := F)
      (l := { l with heap := l.heap.alloc x (F.setPrev l.last (F.setNext none a)) })
      l.last (some x)
    rw [prevOf_alloc fresh, F.prev_setPrev] at inner
    funext q
    cases q with
    | none => rfl
    | some b =>
      have := congrFun inner (some b)
      rw [Function.update_of_ne (by simp)]
      exact this
  rw [← hnext, ← hprev] at pushed
  simpa [Represents] using pushed

section View
variable {β : Type v} {g : α → β}

/-- A projection that sees no link. -/
def Unlinked (F : LinkFields α) (g : α → β) : Prop :=
  ∀ v a, g (F.setNext v a) = g a ∧ g (F.setPrev v a) = g a

theorem view_assignNext (hg : Unlinked F g) (p v : Option Nat) :
    (l.assignNext F p v).heap.view g = l.heap.view g := by
  cases p with
  | none => rfl
  | some a => exact Heap.view_modify g _ _ fun x => (hg v x).1

theorem view_assignPrev (hg : Unlinked F g) (p v : Option Nat) :
    (l.assignPrev F p v).heap.view g = l.heap.view g := by
  cases p with
  | none => rfl
  | some a => exact Heap.view_modify g _ _ fun x => (hg v x).2

theorem view_unlink (hg : Unlinked F g) (x : Nat) (a : α) :
    (unlink F l x a).heap.view g = (l.heap.view g).filter fun b => b.1 ≠ x := by
  simp only [unlink, Heap.view_free, view_assignPrev hg, view_assignNext hg]

theorem view_pushFront (hg : Unlinked F g) {x : Nat} (fresh : x ∉ l.heap.live) (a : α) :
    (pushFront F l x a).heap.view g = (x, g a) :: l.heap.view g := by
  simp only [pushFront, view_assignPrev hg, Heap.view_alloc g fresh, (hg _ _).1, (hg _ _).2]

theorem view_pushBack (hg : Unlinked F g) {x : Nat} (fresh : x ∉ l.heap.live) (a : α) :
    (pushBack F l x a).heap.view g = (x, g a) :: l.heap.view g := by
  simp only [pushBack, view_assignNext hg, Heap.view_alloc g fresh, (hg _ _).1, (hg _ _).2]

/-- Records after an operation, seen through a projection that sees no link. -/
theorem map_get?_unlink (hg : Unlinked F g) (x : Nat) (a : α) (q : Nat) :
    ((IntrusiveList.unlink F l x a).heap.get? q).map g =
      if q = x then none else (l.heap.get? q).map g := by
  rw [← Heap.lookup_view, view_unlink hg, ← Heap.view_free, Heap.lookup_view, Heap.get?_free]
  split <;> rfl

theorem map_get?_pushFront (hg : Unlinked F g) {x : Nat} (fresh : x ∉ l.heap.live) (a : α)
    (q : Nat) : ((IntrusiveList.pushFront F l x a).heap.get? q).map g =
      if q = x then some (g a) else (l.heap.get? q).map g := by
  rw [← Heap.lookup_view, view_pushFront hg fresh, ← Heap.view_alloc g fresh, Heap.lookup_view,
    Heap.get?_alloc fresh]
  split <;> rfl

theorem map_get?_pushBack (hg : Unlinked F g) {x : Nat} (fresh : x ∉ l.heap.live) (a : α)
    (q : Nat) : ((IntrusiveList.pushBack F l x a).heap.get? q).map g =
      if q = x then some (g a) else (l.heap.get? q).map g := by
  rw [← Heap.lookup_view, view_pushBack hg fresh, ← Heap.view_alloc g fresh, Heap.lookup_view,
    Heap.get?_alloc fresh]
  split <;> rfl

end View

section Live

theorem live_unlink (x : Nat) (a : α) :
    (IntrusiveList.unlink F l x a).heap.live = l.heap.live.filter (· ≠ x) := by
  simp only [IntrusiveList.unlink, Heap.live_free, live_assignPrev, live_assignNext]

theorem live_pushFront {x : Nat} (fresh : x ∉ l.heap.live) (a : α) :
    (IntrusiveList.pushFront F l x a).heap.live = x :: l.heap.live := by
  simp only [IntrusiveList.pushFront, live_assignPrev, Heap.live_alloc fresh]

theorem live_pushBack {x : Nat} (fresh : x ∉ l.heap.live) (a : α) :
    (IntrusiveList.pushBack F l x a).heap.live = x :: l.heap.live := by
  simp only [IntrusiveList.pushBack, live_assignNext, Heap.live_alloc fresh]

end Live

/-- Writing a field that is no link leaves the list alone. -/
theorem Represents.modify (h : Represents F l xs) (p : Nat) {f : α → α}
    (hf : ∀ a, F.next (f a) = F.next a ∧ F.prev (f a) = F.prev a) :
    Represents F { l with heap := l.heap.modify p f } xs := by
  apply Ring.congr h
  · intro q _
    cases q with
    | none => rfl
    | some b =>
      by_cases hb : b = p
      · cases hg : l.heap.get? p <;> simp [nextOf, Heap.get?_modify, hb, hg, (hf _).1]
      · simp [nextOf, Heap.get?_modify, hb]
  · intro q _
    cases q with
    | none => rfl
    | some b =>
      by_cases hb : b = p
      · cases hg : l.heap.get? p <;> simp [prevOf, Heap.get?_modify, hb, hg, (hf _).2]
      · simp [prevOf, Heap.get?_modify, hb]

/-- Following the `next` fields from `first` meets exactly the members, then a null link. -/
theorem Represents.walk (h : Represents F l xs) {fuel : Nat} (hf : xs.length ≤ fuel) :
    LinkRing.walk (nextOf F l) none fuel l.first = xs.map some :=
  Ring.walk_eq h (by simpa using hf)

end Operations

end IntrusiveList
