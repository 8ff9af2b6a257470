import Mathlib.Algebra.Order.Group.Nat
import Mathlib.Data.List.Basic

/-!
# Decimal texts

The digits of a natural number as ASCII characters, the most significant one first. A text of
digits is read from its front, ten times what was read and the next digit.
-/

set_option autoImplicit false

namespace Decimal

def IsDigit (c : UInt8) : Prop := 48 ≤ c ∧ c ≤ 57

instance (c : UInt8) : Decidable (IsDigit c) := inferInstanceAs (Decidable (48 ≤ c ∧ c ≤ 57))

def digit (d : Nat) : UInt8 := UInt8.ofNat (48 + d)

/-- The shortest text of a number; zero has one digit. -/
def text (n : Nat) : List UInt8 :=
  if n < 10 then [digit n] else text (n / 10) ++ [digit (n % 10)]

/-- What is read when `n` was read before. -/
def valueFrom (n : Nat) (digits : List UInt8) : Nat :=
  digits.foldl (fun n c => 10 * n + (c.toNat - 48)) n

theorem toNat_digit {d : Nat} (h : d < 10) : (digit d).toNat = 48 + d := by
  unfold digit
  rw [UInt8.toNat_ofNat']
  omega

theorem isDigit_digit {d : Nat} (h : d < 10) : IsDigit (digit d) := by
  have hd := toNat_digit h
  constructor
  · rw [UInt8.le_iff_toNat_le, hd]
    exact Nat.le_add_right 48 d
  · rw [UInt8.le_iff_toNat_le, hd]
    exact Nat.add_le_add_left (Nat.le_of_lt_succ h) 48

theorem text_of_lt {n : Nat} (h : n < 10) : text n = [digit n] := by
  rw [text, if_pos h]

theorem text_of_le {n : Nat} (h : 10 ≤ n) : text n = text (n / 10) ++ [digit (n % 10)] := by
  rw [text, if_neg (Nat.not_lt.mpr h)]

theorem text_ne_nil (n : Nat) : text n ≠ [] := by
  rw [text]
  split
  · exact List.cons_ne_nil _ _
  · exact List.append_ne_nil_of_right_ne_nil _ (List.cons_ne_nil _ _)

theorem length_text_pos (n : Nat) : 0 < (text n).length :=
  List.length_pos_iff.mpr (text_ne_nil n)

theorem isDigit_text {n : Nat} {c : UInt8} (hc : c ∈ text n) : IsDigit c := by
  induction n using text.induct with
  | case1 n h =>
    rw [text_of_lt h] at hc
    rw [List.mem_singleton.mp hc]
    exact isDigit_digit h
  | case2 n h ih =>
    rw [text_of_le (Nat.not_lt.mp h)] at hc
    rcases List.mem_append.mp hc with hc | hc
    · exact ih hc
    · rw [List.mem_singleton.mp hc]
      exact isDigit_digit (Nat.mod_lt n (Nat.zero_lt_succ 9))

/-- A number of at most `k` digits is below `10 ^ k`. -/
theorem length_text_le_iff {n k : Nat} (hk : 0 < k) : (text n).length ≤ k ↔ n < 10 ^ k := by
  induction n using text.induct generalizing k with
  | case1 n h =>
    rw [text_of_lt h, List.length_singleton]
    have hle : 10 ^ 1 ≤ 10 ^ k := Nat.pow_le_pow_right (Nat.zero_lt_succ 9) hk
    omega
  | case2 n h ih =>
    rw [text_of_le (Nat.not_lt.mp h), List.length_append, List.length_singleton]
    cases k with
    | zero => cases hk
    | succ k =>
      cases k with
      | zero =>
        have hpos := length_text_pos (n / 10)
        simp only [Nat.zero_add, Nat.pow_one]
        omega
      | succ k =>
        have hdiv := ih (Nat.succ_pos k)
        rw [Nat.add_le_add_iff_right, hdiv, Nat.div_lt_iff_lt_mul (Nat.zero_lt_succ 9),
          ← Nat.pow_succ]

theorem valueFrom_append (n : Nat) (front back : List UInt8) :
    valueFrom n (front ++ back) = valueFrom (valueFrom n front) back :=
  List.foldl_append

theorem valueFrom_text (n : Nat) : valueFrom 0 (text n) = n := by
  induction n using text.induct with
  | case1 n h =>
    rw [text_of_lt h, valueFrom, List.foldl_cons, List.foldl_nil, toNat_digit h]
    omega
  | case2 n h ih =>
    have hmod : n % 10 < 10 := Nat.mod_lt n (Nat.zero_lt_succ 9)
    rw [text_of_le (Nat.not_lt.mp h), valueFrom_append, ih, valueFrom, List.foldl_cons,
      List.foldl_nil, toNat_digit hmod]
    omega

end Decimal
