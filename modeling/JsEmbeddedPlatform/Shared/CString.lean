import Mathlib.Data.List.TakeWhile

/-!
# NUL-terminated text

A text ends before its first NUL; the bytes are those that can be read from the
pointer on.
-/

set_option autoImplicit false

namespace CString

/-- The ASCII characters of a literal, without the NUL that C puts behind them. -/
def ascii (literal : String) : List UInt8 := literal.toList.map fun c => UInt8.ofNat c.toNat

def text (memory : List UInt8) : List UInt8 := memory.takeWhile (· ≠ 0)

/-- What a function that looks for the NUL reads, `none` when there is none to find. -/
def read (memory : List UInt8) : Option (List UInt8) :=
  if 0 ∈ memory then some (text memory) else none

theorem length_text_le (memory : List UInt8) : (text memory).length ≤ memory.length :=
  (List.takeWhile_prefix _).length_le

theorem text_append_nul {s : List UInt8} (h : 0 ∉ s) (rest : List UInt8) :
    text (s ++ 0 :: rest) = s := by
  unfold text
  rw [List.takeWhile_append_of_pos]
  · simp
  · intro c hc
    have : c ≠ 0 := fun h0 => h (h0 ▸ hc)
    simpa using this

theorem text_append_zero (s rest : List UInt8) : text (s ++ 0 :: rest) = text s := by
  induction s with
  | nil => simp [text]
  | cons c s ih =>
    unfold text at ih ⊢
    rw [List.cons_append, List.takeWhile_cons, List.takeWhile_cons, ih]

theorem nul_notMem_text (memory : List UInt8) : 0 ∉ text memory := by
  intro h
  have := List.mem_takeWhile_imp h
  simp at this

theorem text_eq_self_iff {s : List UInt8} : text s = s ↔ 0 ∉ s := by
  unfold text
  rw [List.takeWhile_eq_self_iff]
  constructor
  · intro h h0
    simpa using h 0 h0
  · intro h c hc
    have : c ≠ 0 := fun h0 => h (h0 ▸ hc)
    simpa using this

/-- What stands in front is the whole text when it has no NUL and one follows. -/
theorem text_append_eq_iff {s rest : List UInt8} :
    text (s ++ rest) = s ↔ 0 ∉ s ∧ ∀ c ∈ rest.head?, c = 0 := by
  constructor
  · intro h
    have hs : 0 ∉ s := h ▸ nul_notMem_text (s ++ rest)
    refine ⟨hs, ?_⟩
    intro c hc
    cases rest with
    | nil => cases hc
    | cons d rest =>
      cases hc
      by_contra hd
      unfold text at h
      rw [List.takeWhile_append_of_pos (by
        intro c hc
        have : c ≠ 0 := fun h0 => hs (h0 ▸ hc)
        simpa using this), List.takeWhile_cons_of_pos (by simpa using hd)] at h
      simp at h
  · intro ⟨hs, hrest⟩
    cases rest with
    | nil => rw [List.append_nil, text_eq_self_iff.mpr hs]
    | cons d rest =>
      rw [hrest d rfl]
      exact text_append_nul hs rest

theorem text_append_take (s rest : List UInt8) : (text (s ++ rest)).take s.length = text s := by
  unfold text
  rw [List.take_takeWhile, List.take_left]

theorem text_isPrefix (s rest : List UInt8) : text s <+: text (s ++ rest) := by
  rw [← text_append_take s rest]
  exact List.take_prefix _ _

theorem read_eq_some {memory s : List UInt8} (h : read memory = some s) : text memory = s := by
  unfold read at h
  split at h
  · exact Option.some.inj h
  · cases h

end CString
