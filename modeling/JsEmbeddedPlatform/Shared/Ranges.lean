import Mathlib.Algebra.Ring.Nat
import Mathlib.Data.List.Basic

/-!
# Ranges that tile an interval

Ranges of numbers, given by where they begin and by their length, that do not meet and
together are an interval. In ascending order each begins where the one before it ends,
and in no other order.
-/

set_option autoImplicit false

namespace Ranges

structure Range where
  first : Nat
  length : Nat
deriving DecidableEq, Repr

def Range.Covers (r : Range) (i : Nat) : Prop := r.first ≤ i ∧ i < r.first + r.length

/-- No two ranges have a number in common. -/
def Apart (rs : List Range) : Prop := rs.Pairwise fun r s => ∀ i, r.Covers i → ¬ s.Covers i

structure Tiles (lo hi : Nat) (rs : List Range) : Prop where
  apart : Apart rs
  covered : ∀ i, (lo ≤ i ∧ i < hi) ↔ ∃ r ∈ rs, r.Covers i

/-- The empty ones may stand anywhere. -/
def Ascending (rs : List Range) : Prop :=
  rs.Pairwise fun r s => 0 < r.length → 0 < s.length → r.first < s.first

def total (rs : List Range) : Nat := (rs.map Range.length).sum

/-- Each begins at `lo` plus the length of those before it. -/
def Consecutive : Nat → List Range → Prop
  | _, [] => True
  | lo, r :: rest => (0 < r.length → r.first = lo) ∧ Consecutive (lo + r.length) rest

section Facts
variable {lo hi : Nat} {r : Range} {rs : List Range}

theorem covers_first (h : 0 < r.length) : r.Covers r.first :=
  ⟨Nat.le_refl _, Nat.lt_add_of_pos_right h⟩

@[simp] theorem total_cons (r : Range) (rs : List Range) :
    total (r :: rs) = r.length + total rs := by
  simp [total]

/-- What is behind the first range tiles what it leaves. -/
theorem Tiles.tail (h : Tiles lo hi (r :: rs)) (hfirst : 0 < r.length → r.first = lo) :
    Tiles (lo + r.length) hi rs := by
  obtain ⟨hr, hrs⟩ := List.pairwise_cons.mp h.apart
  refine ⟨hrs, ?_⟩
  intro i
  constructor
  · intro hi
    obtain ⟨s, hs, hcovers⟩ := (h.covered i).mp (by omega)
    rcases List.mem_cons.mp hs with rfl | hs
    · unfold Range.Covers at hcovers
      have := hfirst (by omega)
      omega
    · exact ⟨s, hs, hcovers⟩
  · intro ⟨s, hs, hcovers⟩
    have hinside := (h.covered i).mpr ⟨s, List.mem_cons_of_mem r hs, hcovers⟩
    refine ⟨?_, hinside.2⟩
    by_contra hless
    have hnot : ¬ r.Covers i := fun hr' => hr s hs i hr' hcovers
    unfold Range.Covers at hnot
    have := hfirst (by omega)
    omega

/-- In ascending order the first range that is not empty begins at `lo`. -/
theorem Tiles.head_first (h : Tiles lo hi (r :: rs)) (hasc : Ascending (r :: rs))
    (hlength : 0 < r.length) : r.first = lo := by
  have hlow : lo ≤ r.first :=
    ((h.covered r.first).mpr ⟨r, List.mem_cons_self, covers_first hlength⟩).1
  have hinside := (h.covered r.first).mpr ⟨r, List.mem_cons_self, covers_first hlength⟩
  obtain ⟨s, hs, hcovers⟩ := (h.covered lo).mp ⟨Nat.le_refl _, by omega⟩
  unfold Range.Covers at hcovers
  rcases List.mem_cons.mp hs with rfl | hs
  · omega
  · have := (List.pairwise_cons.mp hasc).1 s hs hlength (by omega)
    omega

theorem Tiles.consecutive (h : Tiles lo hi rs) (hasc : Ascending rs) : Consecutive lo rs := by
  induction rs generalizing lo with
  | nil => trivial
  | cons r rs ih =>
    have hfirst : 0 < r.length → r.first = lo := h.head_first hasc
    exact ⟨hfirst, ih (h.tail hfirst) (List.pairwise_cons.mp hasc).2⟩

theorem Consecutive.le_first (h : Consecutive lo rs) (hr : r ∈ rs) (hlength : 0 < r.length) :
    lo ≤ r.first := by
  induction rs generalizing lo with
  | nil => cases hr
  | cons s rs ih =>
    rcases List.mem_cons.mp hr with rfl | hr
    · exact Nat.le_of_eq (h.1 hlength).symm
    · exact Nat.le_trans (Nat.le_add_right _ _) (ih h.2 hr)

theorem Consecutive.ascending (h : Consecutive lo rs) : Ascending rs := by
  induction rs generalizing lo with
  | nil => exact List.Pairwise.nil
  | cons r rs ih =>
    refine List.pairwise_cons.mpr ⟨?_, ih h.2⟩
    intro s hs hr hlength
    have hbegins := h.1 hr
    have hbehind := h.2.le_first hs hlength
    omega

theorem Tiles.ascending_iff (h : Tiles lo hi rs) : Ascending rs ↔ Consecutive lo rs :=
  ⟨h.consecutive, Consecutive.ascending⟩

theorem consecutive_iff : Consecutive lo rs ↔
    ∀ before r after, rs = before ++ r :: after → 0 < r.length → r.first = lo + total before := by
  induction rs generalizing lo with
  | nil =>
    constructor
    · intro _ before r after hsplit
      exact absurd hsplit.symm (by simp)
    · exact fun _ => trivial
  | cons s rs ih =>
    constructor
    · intro h before r after hsplit hlength
      cases before with
      | nil =>
        cases hsplit
        exact h.1 hlength
      | cons b before =>
        cases hsplit
        have := ih.mp h.2 before r after rfl hlength
        rw [total_cons]
        omega
    · intro h
      refine ⟨h [] s rs rfl, ih.mpr ?_⟩
      intro before r after hsplit hlength
      have := h (s :: before) r after (by rw [hsplit, List.cons_append]) hlength
      rw [total_cons] at this
      omega

/-- Together they are as long as the interval. -/
theorem Tiles.total_eq (h : Tiles lo hi rs) (hconsecutive : Consecutive lo rs) (hle : lo ≤ hi) :
    lo + total rs = hi := by
  induction rs generalizing lo with
  | nil =>
    by_contra hne
    have hlt : lo < hi := by
      unfold total at hne
      simp only [List.map_nil, List.sum_nil] at hne
      omega
    obtain ⟨r, hr, _⟩ := (h.covered lo).mp ⟨Nat.le_refl _, hlt⟩
    cases hr
  | cons r rs ih =>
    have hfits : lo + r.length ≤ hi := by
      by_cases hlength : 0 < r.length
      · have hfirst := hconsecutive.1 hlength
        have hlast : r.Covers (r.first + r.length - 1) := by
          unfold Range.Covers
          omega
        have := (h.covered _).mpr ⟨r, List.mem_cons_self, hlast⟩
        omega
      · omega
    have := ih (h.tail hconsecutive.1) hconsecutive.2 hfits
    rw [total_cons]
    omega

end Facts

end Ranges
