import JsEmbeddedPlatform.Shared.CString
import JsEmbeddedPlatform.Shared.Decimal

/-!
# Texts in buffers

The functions that write a string or a number into what is left of a buffer.
-/

set_option autoImplicit false

namespace JsEmbeddedPlatform.Texts

/-- A function returns 0, or it writes where it must not. -/
inductive Stop where
  | refused
  | memory
deriving DecidableEq, Repr

/-- `str` is the text of a string, its NUL left out. -/
def utilsStringCopy (length : Nat) (str : List UInt8) : Option (List UInt8) :=
  if str.length < length then some str else none

/-- The digits are written from the end of the buffer on. -/
def intToTextLoop : Nat → Int → List UInt8 → Int × List UInt8
  | 0, data, text => (data, text)
  | room + 1, data, text =>
    let text := UInt8.ofInt (48 + data.tmod 10) :: text
    let data := data.tdiv 10
    if 0 < room ∧ 0 < data then intToTextLoop room data text else (data, text)

/-- A buffer without a byte is written in front of, as is one that the digits of a negative number
fill; where they leave one byte, the sign is not written there. -/
def utilsIntToText (data : Int) (length : Nat) : Except Stop (List UInt8) :=
  if length = 0 then .error .memory
  else
    let (rest, text) :=
      intToTextLoop length (if data < 0 then (0 - data).bmod (2 ^ 64) else data) []
    if 0 < rest then .error .refused
    else if data < 0 then
      if text.length + 1 = length then .error .refused
      else if text.length = length then .error .memory
      else .ok (45 :: text)
    else .ok text

/-- A string behind the text that is in a buffer. -/
def putString (bufferLen : Nat) (text str : List UInt8) : Except Stop (List UInt8) :=
  match utilsStringCopy (bufferLen - text.length) str with
  | some str => .ok (text ++ str)
  | none => .error .refused

def putInt (bufferLen : Nat) (text : List UInt8) (data : Int) : Except Stop (List UInt8) :=
  match utilsIntToText data (bufferLen - text.length) with
  | .ok digits => .ok (text ++ digits)
  | .error stop => .error stop

/-! ## What is written -/

theorem intToTextLoop_nat {room n : Nat} (h : (Decimal.text n).length ≤ room)
    (text : List UInt8) : intToTextLoop room n text = (0, Decimal.text n ++ text) := by
  induction room generalizing n text with
  | zero =>
    have := Decimal.length_text_pos n
    omega
  | succ room ih =>
    have hdigit : UInt8.ofInt (48 + (n : Int).tmod 10) = Decimal.digit (n % 10) := by
      have hmod : (n : Int).tmod 10 = ((n % 10 : Nat) : Int) := rfl
      have hbyte : ((48 + ((n % 10 : Nat) : Int)) % 2 ^ 8).toNat = 48 + n % 10 := by omega
      rw [hmod, UInt8.ofInt, hbyte]
      rfl
    have hdiv : (n : Int).tdiv 10 = ((n / 10 : Nat) : Int) := rfl
    rw [intToTextLoop, hdigit, hdiv]
    by_cases hn : n < 10
    · have hzero : n / 10 = 0 := Nat.div_eq_of_lt hn
      rw [hzero, if_neg (fun hpos => Int.lt_irrefl 0 hpos.2), Decimal.text_of_lt hn,
        Nat.mod_eq_of_lt hn]
      rfl
    · have hle : 10 ≤ n := Nat.not_lt.mp hn
      rw [Decimal.text_of_le hle, List.length_append, List.length_singleton] at h
      have hlen := Decimal.length_text_pos (n / 10)
      have hpos : 0 < n / 10 := Nat.div_pos hle (Nat.zero_lt_succ 9)
      rw [if_pos ⟨by omega, by omega⟩, ih (by omega), Decimal.text_of_le hle, List.append_assoc]
      rfl

theorem intToTextLoop_long {room n : Nat} (hroom : 0 < room)
    (h : room < (Decimal.text n).length) (text : List UInt8) :
    0 < (intToTextLoop room n text).1 := by
  induction room generalizing n text with
  | zero => cases hroom
  | succ room ih =>
    have hdiv : (n : Int).tdiv 10 = ((n / 10 : Nat) : Int) := rfl
    have hle : 10 ≤ n := by
      by_contra hn
      rw [Decimal.text_of_lt (by omega), List.length_singleton] at h
      omega
    have hpos : 0 < n / 10 := Nat.div_pos hle (Nat.zero_lt_succ 9)
    rw [Decimal.text_of_le hle, List.length_append, List.length_singleton] at h
    rw [intToTextLoop, hdiv]
    by_cases hlast : room = 0
    · rw [hlast, if_neg (fun hmore => Nat.lt_irrefl 0 hmore.1)]
      exact Int.natCast_pos.mpr hpos
    · rw [if_pos ⟨by omega, by omega⟩]
      exact ih (by omega) (by omega) _

theorem utilsIntToText_long {n length : Nat} (hlength : 0 < length)
    (h : length < (Decimal.text n).length) : utilsIntToText n length = .error .refused := by
  have hnonneg : ¬ (n : Int) < 0 := by omega
  have hlong := intToTextLoop_long hlength h []
  unfold utilsIntToText
  rw [if_neg (by omega), if_neg hnonneg]
  exact if_pos hlong

theorem utilsIntToText_nat {n length : Nat} (h : (Decimal.text n).length ≤ length) :
    utilsIntToText n length = .ok (Decimal.text n) := by
  have hpos := Decimal.length_text_pos n
  have hnonneg : ¬ (n : Int) < 0 := by omega
  unfold utilsIntToText
  rw [if_neg (by omega), if_neg hnonneg, intToTextLoop_nat h, List.append_nil]
  exact (if_neg (Int.lt_irrefl 0)).trans (if_neg hnonneg)

theorem length_text_uint16 (id : UInt16) : (Decimal.text id.toNat).length ≤ 5 := by
  rw [Decimal.length_text_le_iff (by decide)]
  have := id.toNat_lt
  omega

@[simp] theorem ok_bind {α β : Type} (a : α) (f : α → Except Stop β) :
    (Except.ok a >>= f) = f a := rfl

section Put
variable {bufferLen : Nat} {text : List UInt8}

theorem putString_ok {str : List UInt8} (h : text.length + str.length < bufferLen) :
    putString bufferLen text str = .ok (text ++ str) := by
  unfold putString utilsStringCopy
  rw [if_pos (by omega)]

theorem putInt_ok {n : Nat} (h : text.length + (Decimal.text n).length ≤ bufferLen) :
    putInt bufferLen text n = .ok (text ++ Decimal.text n) := by
  unfold putInt
  rw [utilsIntToText_nat (by omega)]

end Put

end JsEmbeddedPlatform.Texts
