import JsEmbeddedPlatform.Shared.IntrusiveList

/-!
# Walks along a chain of records

A loop that follows `next` pointers and releases what it passes. It ends at a null
pointer, or at a record that is no longer live.
-/

set_option autoImplicit false

namespace Chain

universe u v

section Walk
variable {σ : Type u} {ε : Type v}

/-- `body` reads the next pointer of a record before it releases it. After as many rounds as there
are live records the next one is not live, and `body` says so. -/
def walk (body : Nat → σ → Except ε (Option Nat × σ)) : Nat → Option Nat → σ → Except ε σ
  | _, none, s => .ok s
  | 0, some p, s => do
    let (_, t) ← body p s
    pure t
  | rounds + 1, some p, s => do
    let (q, t) ← body p s
    walk body rounds q t

/-- The rule for such a loop: `I` holds of the records that are left. -/
theorem walk_spec (body : Nat → σ → Except ε (Option Nat × σ)) {I : List Nat → σ → Prop}
    (hbody : ∀ x xs s, I (x :: xs) s → ∃ t, body x s = .ok (xs.head?, t) ∧ I xs t)
    {xs : List Nat} {rounds : Nat} {s : σ} (hrounds : xs.length ≤ rounds) (h : I xs s) :
    ∃ t, walk body rounds xs.head? s = .ok t ∧ I [] t := by
  induction xs generalizing rounds s with
  | nil =>
    refine ⟨s, ?_, h⟩
    cases rounds <;> rfl
  | cons x xs ih =>
    obtain ⟨t, ht, hI⟩ := hbody x xs s h
    cases rounds with
    | zero => simp at hrounds
    | succ rounds =>
      obtain ⟨u, hu, hlast⟩ := ih (by simpa using hrounds) hI
      refine ⟨u, ?_, hlast⟩
      simp only [List.head?_cons, walk, ht]
      exact hu

/-- A walk that keeps account of what it does is the walk that does not, seen without the account. -/
theorem walk_map {τ : Type u} (f : σ → τ) {body : Nat → σ → Except ε (Option Nat × σ)}
    {plain : Nat → τ → Except ε (Option Nat × τ)}
    (hbody : ∀ p s, (body p s).map (fun r => (r.1, f r.2)) = plain p (f s)) (rounds : Nat)
    (p : Option Nat) (s : σ) :
    (walk body rounds p s).map f = walk plain rounds p (f s) := by
  induction rounds generalizing p s with
  | zero =>
    cases p with
    | none => rfl
    | some p =>
      have hround := hbody p s
      simp only [walk, bind, Except.bind, pure, Except.pure]
      rw [← hround]
      cases body p s with
      | error e => rfl
      | ok r => rfl
  | succ rounds ih =>
    cases p with
    | none => rfl
    | some p =>
      have hround := hbody p s
      simp only [walk, bind, Except.bind]
      rw [← hround]
      cases body p s with
      | error e => rfl
      | ok r => exact ih r.1 r.2

end Walk

section Records
variable {α : Type u} (next : α → Option Nat)

/-- From `p` on, the next pointers lead through the records `xs` to null. -/
def Leads (h : Heap α) : Option Nat → List Nat → Prop
  | p, [] => p = none
  | p, x :: xs => p = some x ∧ ∃ a, h.get? x = some a ∧ Leads h (next a) xs

variable {next} {h : Heap α}

theorem Leads.head {p : Option Nat} {xs : List Nat} (hl : Leads next h p xs) : p = xs.head? := by
  cases xs with
  | nil => exact hl
  | cons x xs => exact hl.1

/-- The rule for a search of at most `rounds` records: at the null pointer, and at a record for
which there is a round. -/
theorem Leads.rounds_induction {motive : Nat → Option Nat → List Nat → Prop}
    (atNull : ∀ rounds, motive rounds none [])
    (atRecord : ∀ rounds x a xs, h.get? x = some a → motive rounds (next a) xs →
      motive (rounds + 1) (some x) (x :: xs))
    {rounds : Nat} {p : Option Nat} {xs : List Nat} (hl : Leads next h p xs)
    (hrounds : xs.length ≤ rounds) : motive rounds p xs := by
  induction xs generalizing p rounds with
  | nil =>
    obtain rfl : p = none := hl
    exact atNull rounds
  | cons x xs ih =>
    obtain ⟨rfl, a, ha, hrest⟩ := hl
    cases rounds with
    | zero => cases hrounds
    | succ rounds => exact atRecord rounds x a xs ha (ih hrest (Nat.le_of_succ_le_succ hrounds))

theorem Leads.live {p : Option Nat} {xs : List Nat} (hl : Leads next h p xs) :
    ∀ x ∈ xs, x ∈ h.live := by
  induction xs generalizing p with
  | nil => nofun
  | cons x xs ih =>
    obtain ⟨_, a, ha, hrest⟩ := hl
    intro y hy
    rcases List.mem_cons.mp hy with rfl | hy
    · exact Heap.mem_live_of_get? ha
    · exact ih hrest y hy

theorem Leads.congr {k : Heap α} {p : Option Nat} {xs : List Nat} (hl : Leads next h p xs)
    (same : ∀ x ∈ xs, k.get? x = h.get? x) : Leads next k p xs := by
  induction xs generalizing p with
  | nil => exact hl
  | cons x xs ih =>
    obtain ⟨hp, a, ha, hrest⟩ := hl
    refine ⟨hp, a, ?_, ih hrest ?_⟩
    · rw [same x List.mem_cons_self, ha]
    · intro y hy
      exact same y (List.mem_cons_of_mem x hy)

theorem Leads.free {p : Option Nat} {xs : List Nat} {q : Nat} (hl : Leads next h p xs)
    (hq : q ∉ xs) : Leads next (h.free q) p xs := by
  apply hl.congr
  intro x hx
  rw [Heap.get?_free, if_neg]
  rintro rfl
  exact hq hx

theorem Leads.modify {p : Option Nat} {xs : List Nat} (hl : Leads next h p xs) (q : Nat) {f : α → α}
    (hf : ∀ a, next (f a) = next a) : Leads next (h.modify q f) p xs := by
  induction xs generalizing p with
  | nil => exact hl
  | cons x xs ih =>
    obtain ⟨hp, a, ha, hrest⟩ := hl
    refine ⟨hp, if x = q then f a else a, ?_, ?_⟩
    · rw [Heap.get?_modify, ha]
      split <;> rfl
    · have hnext : next (if x = q then f a else a) = next a := by
        split
        · exact hf a
        · rfl
      rw [hnext]
      exact ih hrest

theorem Leads.alloc {p : Option Nat} {xs : List Nat} {q : Nat} (hl : Leads next h p xs)
    (fresh : q ∉ h.live) (a : α) : Leads next (h.alloc q a) p xs := by
  apply hl.congr
  intro x hx
  rw [Heap.get?_alloc fresh, if_neg]
  rintro rfl
  exact fresh (hl.live x hx)

theorem Leads.push {p : Option Nat} {xs : List Nat} {q : Nat} {a : α} (hl : Leads next h p xs)
    (fresh : q ∉ h.live) (ha : next a = p) : Leads next (h.alloc q a) (some q) (q :: xs) := by
  refine ⟨rfl, a, ?_, ?_⟩
  · rw [Heap.get?_alloc fresh, if_pos rfl]
  · rw [ha]
    exact hl.alloc fresh a

/-- A record is taken out behind another one, whose next pointer becomes its own. -/
theorem Leads.bypass {p : Option Nat} {before after : List Nat} {x y : Nat} {b : α}
    (hl : Leads next h p (before ++ x :: y :: after)) (nodup : (before ++ x :: y :: after).Nodup)
    (hy : h.get? y = some b) {f : α → α} (hf : ∀ a, next (f a) = next b) :
    Leads next ((h.modify x f).free y) p (before ++ x :: after) := by
  have other : ∀ z, z ≠ x → z ≠ y → ((h.modify x f).free y).get? z = h.get? z := by
    intro z hx hy
    rw [Heap.get?_free, if_neg hy, Heap.get?_modify, if_neg hx]
  induction before generalizing p with
  | nil =>
    obtain ⟨hp, a, ha, _, c, hc, hrest⟩ := hl
    obtain ⟨hx, hnodup⟩ := List.nodup_cons.mp nodup
    have hxy : x ≠ y := by
      rintro rfl
      exact hx List.mem_cons_self
    rw [hy] at hc
    cases hc
    refine ⟨hp, f a, ?_, ?_⟩
    · rw [Heap.get?_free, if_neg hxy, Heap.get?_modify, if_pos rfl, ha, Option.map_some]
    · rw [hf]
      apply hrest.congr
      intro z hz
      apply other
      · rintro rfl
        exact hx (List.mem_cons_of_mem y hz)
      · rintro rfl
        exact (List.nodup_cons.mp hnodup).1 hz
  | cons z before ih =>
    obtain ⟨hp, a, ha, hrest⟩ := hl
    obtain ⟨hz, hnodup⟩ := List.nodup_cons.mp nodup
    refine ⟨hp, a, ?_, ih hrest hnodup⟩
    rw [other, ha]
    · rintro rfl
      exact hz (by simp)
    · rintro rfl
      exact hz (by simp)

/-- The round of a loop that only releases. -/
def release {ε : Type v} (stale : Nat → ε) (next : α → Option Nat) (p : Nat) (h : Heap α) :
    Except ε (Option Nat × Heap α) :=
  match h.get? p with
  | none => .error (stale p)
  | some a => .ok (next a, h.free p)

/-- `xs` are still to be released of the chain `all`, of which `h` had the records. -/
structure Left (next : α → Option Nat) (h : Heap α) (all xs : List Nat) (k : Heap α) : Prop where
  leads : Leads next k xs.head? xs
  nodup : xs.Nodup
  rest : ∀ q, (if q ∈ xs then none else k.get? q) = if q ∈ all then none else h.get? q

theorem Left.begin {p : Option Nat} {xs : List Nat} (hl : Leads next h p xs) (nodup : xs.Nodup) :
    Left next h xs xs h :=
  ⟨hl.head ▸ hl, nodup, fun _ => rfl⟩

theorem Left.step {k : Heap α} {all xs : List Nat} {x : Nat} (hl : Left next h all (x :: xs) k) :
    ∃ a, k.get? x = some a ∧ next a = xs.head? ∧ Left next h all xs (k.free x) := by
  obtain ⟨_, a, ha, hrest⟩ := hl.leads
  obtain ⟨hx, hnodup⟩ := List.nodup_cons.mp hl.nodup
  refine ⟨a, ha, hrest.head, ?_, hnodup, ?_⟩
  · have := hrest.free hx
    rwa [hrest.head] at this
  · intro q
    rw [← hl.rest q, Heap.get?_free]
    by_cases hq : q = x
    · simp [hq]
    · simp [hq]

theorem walk_release {ε : Type v} (stale : Nat → ε) {p : Option Nat} {xs : List Nat}
    (hl : Leads next h p xs) (nodup : xs.Nodup) :
    ∃ k, walk (release stale next) h.live.length p h = .ok k ∧
      ∀ q, k.get? q = if q ∈ xs then none else h.get? q := by
  have hlength : xs.length ≤ h.live.length := List.Nodup.length_le_of_subset nodup hl.live
  rw [hl.head]
  obtain ⟨k, hk, hend⟩ := walk_spec (release stale next) (I := Left next h xs)
    (fun x rest k hleft => by
      obtain ⟨a, ha, hnext, hleft⟩ := hleft.step
      refine ⟨k.free x, ?_, hleft⟩
      simp only [release, ha, hnext])
    hlength (Left.begin hl nodup)
  refine ⟨k, hk, fun q => ?_⟩
  have := hend.rest q
  rwa [if_neg List.not_mem_nil] at this

theorem live_eq_nil (hnone : ∀ q, h.get? q = none) : h.live = [] := by
  apply List.eq_nil_iff_forall_not_mem.mpr
  intro q hq
  obtain ⟨a, ha⟩ := (h.mem_live_iff q).mp hq
  rw [hnone q] at ha
  cases ha

theorem eq_empty_of_live (hlive : h.live = []) : h = Heap.empty :=
  Heap.ext_blocks (List.map_eq_nil_iff.mp hlive)

theorem get?_of_live {q : Nat} (hq : q ∉ h.live) : h.get? q = none := by
  cases ha : h.get? q with
  | none => rfl
  | some a => exact absurd (Heap.mem_live_of_get? ha) hq

end Records

section Lists
variable {α : Type u} {F : LinkFields α} {l : IntrusiveList α} {xs : List Nat}

theorem leads_of_links {prev : Option Nat → Option Nat} {p : Option Nat}
    (h : LinkRing.Links (l.nextOf F) prev (p :: (xs.map some ++ [none])))
    (live : ∀ x ∈ xs, x ∈ l.heap.live) : Leads F.next l.heap (l.nextOf F p) xs := by
  induction xs generalizing p with
  | nil => exact h.1
  | cons x xs ih =>
    obtain ⟨hp, _, hrest⟩ := h
    obtain ⟨a, ha⟩ := (l.heap.mem_live_iff x).mp (live x List.mem_cons_self)
    refine ⟨hp, a, ha, ?_⟩
    have hnext : l.nextOf F (some x) = F.next a := by
      simp only [IntrusiveList.nextOf, ha, Option.bind_some]
    rw [← hnext]
    exact ih hrest fun y hy => live y (List.mem_cons_of_mem x hy)

theorem leads_of_represents (h : l.Represents F xs) (live : ∀ x ∈ xs, x ∈ l.heap.live) :
    Leads F.next l.heap l.first xs :=
  leads_of_links h.links live

end Lists

end Chain
