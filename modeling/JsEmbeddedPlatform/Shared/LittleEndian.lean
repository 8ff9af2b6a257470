import Mathlib.Data.Nat.ModEq
import Mathlib.Data.List.Basic

/-!
# Little-endian numbers

A number of `w` bytes, low byte first. Encoding drops what does not fit, decoding
takes as many bytes as there are.
-/

set_option autoImplicit false

namespace LittleEndian

def encode : Nat → Nat → List UInt8
  | 0, _ => []
  | w + 1, n => UInt8.ofNat n :: encode w (n / 256)

def decode : List UInt8 → Nat
  | [] => 0
  | b :: rest => b.toNat + 256 * decode rest

@[simp] theorem length_encode (w n : Nat) : (encode w n).length = w := by
  induction w generalizing n with
  | zero => rfl
  | succ w ih => simp [encode, ih]

/-- What fits is read back. -/
theorem decode_encode {w n : Nat} (h : n < 256 ^ w) : decode (encode w n) = n := by
  induction w generalizing n with
  | zero =>
    simp only [Nat.pow_zero] at h
    simp only [encode, decode]
    omega
  | succ w ih =>
    rw [Nat.pow_succ] at h
    have hdiv : n / 256 < 256 ^ w := by omega
    have hlow : (UInt8.ofNat n).toNat = n % 256 := by simp
    simp only [encode, decode, ih hdiv, hlow]
    omega

/-- A field is read from the front of what follows. -/
theorem decode_take_encode {w n : Nat} (h : n < 256 ^ w) (rest : List UInt8) :
    decode ((encode w n ++ rest).take w) = n := by
  rw [List.take_append_of_le_length (by simp), List.take_of_length_le (by simp), decode_encode h]

/-- A byte is read from what follows. -/
theorem getElem?_behind (front rest : List UInt8) (i : Nat) :
    (front ++ rest)[front.length + i]? = rest[i]? := by
  rw [List.getElem?_append_right (Nat.le_add_right _ _), Nat.add_sub_cancel_left]

end LittleEndian
