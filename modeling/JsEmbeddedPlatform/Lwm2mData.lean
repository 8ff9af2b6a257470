import JsEmbeddedPlatform.Shared.CString
import JsEmbeddedPlatform.Shared.LittleEndian
import Mathlib.Data.List.Induction

/-!
# The values of the LWM2M core

What the parsers hand to the objects: an element has an id, a type and a union whose
member the type names. The decoders for integers and booleans are here, with what the
numbers in texts and bytes stand for.
-/

set_option autoImplicit false

namespace JsEmbeddedPlatform.Lwm2mData

def coap201Created : UInt8 := 0x41
def coap202Deleted : UInt8 := 0x42
def coap205Content : UInt8 := 0x45
def coap500InternalServerError : UInt8 := 0xA0

/-- The type and the union member that goes with it. The children of the nested types and
the number of a float are read by none of the objects. -/
inductive Value where
  | undefined
  | object
  | objectInstance
  | multipleResource
  | string (buffer : List UInt8)
  | opaqueBytes (buffer : List UInt8)
  | integer (value : Int)
  | float
  | boolean (value : Bool)
  | objectLink
deriving DecidableEq, Repr

structure Element where
  id : Nat
  value : Value
deriving DecidableEq, Repr

/-- The bytes of `asBuffer`, `none` for a type that has another member of the union. -/
def Value.asBuffer : Value → Option (List UInt8)
  | .string buffer => some buffer
  | .opaqueBytes buffer => some buffer
  | _ => none

/-- The types that go with `asBuffer`. -/
def Value.isBytes : Value → Bool
  | .string _ => true
  | .opaqueBytes _ => true
  | _ => false

theorem Value.asBuffer_eq_none_iff (v : Value) : v.asBuffer = none ↔ v.isBytes = false := by
  cases v <;> simp [asBuffer, isBytes]

/-- What a handler must not do: read a member of the union that the type does not name, or use
memory that is not there. -/
inductive Fault where
  | wrongMember
  | memory
deriving DecidableEq, Repr

/-- `value.asBuffer` as a handler reads it that has not looked at the type. -/
def Value.readBuffer (v : Value) : Except Fault (List UInt8) :=
  match v.asBuffer with
  | some buffer => .ok buffer
  | none => .error .wrongMember

/-- A use of memory. -/
def access {α : Type} : Option α → Except Fault α
  | some a => .ok a
  | none => .error .memory

@[simp] theorem access_some {α : Type} (a : α) : access (some a) = .ok a := rfl

theorem access_eq_ok_iff {α : Type} {o : Option α} {a : α} : access o = .ok a ↔ o = some a := by
  cases o <;> simp [access]

@[simp] theorem ok_bind {α β : Type} (a : α) (f : α → Except Fault β) :
    (Except.ok a >>= f) = f a := rfl

theorem access_getElem? {buffer : List UInt8} {i : Nat} (h : i < buffer.length) :
    access buffer[i]? = .ok buffer[i] := by
  rw [List.getElem?_eq_getElem h]
  rfl

/-- What `memcpy` finds from `index` on. -/
def slice (buffer : List UInt8) (index n : Nat) : Except Fault (List UInt8) :=
  if index + n ≤ buffer.length then .ok ((buffer.drop index).take n) else .error .memory

theorem slice_eq {buffer : List UInt8} {index n : Nat} (h : index + n ≤ buffer.length) :
    slice buffer index n = .ok ((buffer.drop index).take n) := if_pos h

theorem slice_length {buffer data : List UInt8} {index n : Nat}
    (h : slice buffer index n = .ok data) : data.length = n := by
  unfold slice at h
  split at h
  · cases h
    simp only [List.length_take, List.length_drop]
    omega
  · cases h

theorem readBuffer_some {v : Value} {buffer : List UInt8} (h : v.asBuffer = some buffer) :
    v.readBuffer = .ok buffer := by
  rw [Value.readBuffer, h]

theorem readBuffer_error {v : Value} (h : v.isBytes = false) :
    v.readBuffer = .error .wrongMember := by
  rw [Value.readBuffer, (v.asBuffer_eq_none_iff).mpr h]

/-! ## Decoding -/

def utilsTextToIntLoop (result : Nat) : List UInt8 → Option Nat
  | [] => some result
  | c :: rest =>
    if 48 ≤ c ∧ c ≤ 57 then
      if (2 ^ 64 - 1) / 10 < result then none
      else utilsTextToIntLoop ((result * 10 + (c.toNat - 48)) % 2 ^ 64) rest
    else none

def utilsTextToInt : List UInt8 → Option Int
  | [] => none
  | c :: rest =>
    if c = 45 then do
      let result ← utilsTextToIntLoop 0 rest
      if 2 ^ 63 - 1 < result then none else some (-result)
    else do
      let result ← utilsTextToIntLoop 0 (c :: rest)
      if 2 ^ 63 - 1 < result then none else some result

/-- On a little-endian processor. -/
def utilsCopyValue (src : List UInt8) : List UInt8 := src.reverse

def lwm2mDataDecodeInt : Value → Option Int
  | .integer value => some value
  | .string buffer => utilsTextToInt buffer
  | .opaqueBytes buffer =>
    if buffer.length ∈ [1, 2, 4, 8] then
      some (BitVec.ofNat (8 * buffer.length) (LittleEndian.decode (utilsCopyValue buffer))).toInt
    else none
  | _ => none

def lwm2mDataDecodeBool : Value → Option Bool
  | .boolean value => some value
  | .string buffer => if buffer = [48] then some false else if buffer = [49] then some true else none
  | .opaqueBytes buffer => if buffer = [0] then some false else if buffer = [1] then some true else none
  | _ => none

/-! ## Encoding -/

def lwm2mDataEncodeInt (value : Int) : Value := .integer value

def lwm2mDataEncodeBool (value : Bool) : Value := .boolean value

/-- `allocated` says that `lwm2m_malloc` finds room. -/
def lwm2mDataEncodeString (allocated : Bool) (memory : List UInt8) : Value :=
  if CString.text memory = [] then .string []
  else if allocated then .string (CString.text memory)
  else .undefined

theorem encodeString_true (memory : List UInt8) :
    lwm2mDataEncodeString true memory = .string (CString.text memory) := by
  unfold lwm2mDataEncodeString
  split
  · next hempty => rw [hempty]
  · rfl

/-! ## The numbers that texts and bytes stand for -/

def Digits (text : List UInt8) : Prop := ∀ c ∈ text, 48 ≤ c ∧ c ≤ 57

instance (text : List UInt8) : Decidable (Digits text) :=
  List.decidableBAll (fun c => 48 ≤ c ∧ c ≤ 57) text

def digitsFrom (n : Nat) (text : List UInt8) : Nat :=
  text.foldl (fun n c => 10 * n + (c.toNat - 48)) n

def decimal : List UInt8 → Option Int
  | [] => none
  | c :: rest =>
    if c = 45 then if Digits rest then some (-(digitsFrom 0 rest)) else none
    else if Digits (c :: rest) then some (digitsFrom 0 (c :: rest))
    else none

def bigEndian (bytes : List UInt8) : Nat := bytes.foldl (fun n b => 256 * n + b.toNat) 0

def number : Value → Option Int
  | .integer value => some value
  | .string text => decimal text
  | .opaqueBytes bytes =>
    if bytes.length ∈ [1, 2, 4, 8] then
      some (BitVec.ofNat (8 * bytes.length) (bigEndian bytes)).toInt
    else none
  | _ => none

/-- A text whose number has at most 64 bits. -/
def NumberFits (v : Value) : Prop :=
  match v with
  | .string text => ∀ n ∈ decimal text, n.natAbs < 2 ^ 64
  | _ => True

instance (v : Value) : Decidable (NumberFits v) :=
  match v with
  | .string text => inferInstanceAs (Decidable (∀ n ∈ decimal text, n.natAbs < 2 ^ 64))
  | .undefined | .object | .objectInstance | .multipleResource | .opaqueBytes _ | .integer _
  | .float | .boolean _ | .objectLink => isTrue trivial

theorem digitsFrom_mod (n : Nat) (text : List UInt8) :
    digitsFrom (n % 2 ^ 64) text % 2 ^ 64 = digitsFrom n text % 2 ^ 64 := by
  induction text generalizing n with
  | nil => simp [digitsFrom]
  | cons c rest ih =>
    simp only [digitsFrom, List.foldl_cons] at ih ⊢
    rw [← ih, ← ih (10 * n + (c.toNat - 48))]
    congr 2
    omega

/-- The loop goes on past 64 bits when only the last digit is too much. -/
theorem utilsTextToIntLoop_spec {result n : Nat} {text : List UInt8} (hresult : result < 2 ^ 64)
    (h : utilsTextToIntLoop result text = some n) :
    Digits text ∧ n = digitsFrom result text % 2 ^ 64 := by
  induction text generalizing result with
  | nil =>
    cases h
    exact ⟨by simp [Digits], (Nat.mod_eq_of_lt hresult).symm⟩
  | cons c rest ih =>
    rw [utilsTextToIntLoop] at h
    split at h
    · rename_i hc
      split at h
      · cases h
      · obtain ⟨hrest, hn⟩ := ih (Nat.mod_lt _ (by decide)) h
        refine ⟨?_, ?_⟩
        · intro d hd
          rcases List.mem_cons.mp hd with rfl | hd
          · exact hc
          · exact hrest d hd
        · rw [hn, digitsFrom_mod]
          simp only [digitsFrom, List.foldl_cons, Nat.mul_comm]
    · cases h

/-- A text that is accepted is a number with its sign, of which the last 64 bits are kept. -/
theorem utilsTextToInt_cases {text : List UInt8} {value : Int}
    (h : utilsTextToInt text = some value) :
    ∃ n : Nat, n % 2 ^ 64 < 2 ^ 63 ∧
      (decimal text = some (-(n : Int)) ∧ value = -((n % 2 ^ 64 : Nat) : Int) ∨
        decimal text = some (n : Int) ∧ value = ((n % 2 ^ 64 : Nat) : Int)) := by
  cases text with
  | nil => cases h
  | cons c rest =>
    rw [utilsTextToInt] at h
    rw [decimal]
    split at h
    · next hc =>
      obtain ⟨result, hloop, hvalue⟩ := Option.bind_eq_some_iff.mp h
      obtain ⟨hdigits, hresult⟩ := utilsTextToIntLoop_spec (by decide) hloop
      split at hvalue
      · cases hvalue
      · cases hvalue
        rw [if_pos hc, if_pos hdigits]
        exact ⟨_, by omega, Or.inl ⟨rfl, by rw [hresult]⟩⟩
    · next hc =>
      obtain ⟨result, hloop, hvalue⟩ := Option.bind_eq_some_iff.mp h
      obtain ⟨hdigits, hresult⟩ := utilsTextToIntLoop_spec (by decide) hloop
      split at hvalue
      · cases hvalue
      · cases hvalue
        rw [if_neg hc, if_pos hdigits]
        exact ⟨_, by omega, Or.inr ⟨rfl, by rw [hresult]⟩⟩

theorem utilsTextToInt_spec {text : List UInt8} {value : Int}
    (h : utilsTextToInt text = some value) :
    ∃ n, decimal text = some n ∧ (value = n ↔ n.natAbs < 2 ^ 64) := by
  obtain ⟨n, hkept, ⟨hn, rfl⟩ | ⟨hn, rfl⟩⟩ := utilsTextToInt_cases h
  · refine ⟨_, hn, ?_⟩
    omega
  · refine ⟨_, hn, ?_⟩
    omega

theorem decode_reverse (bytes : List UInt8) :
    LittleEndian.decode bytes.reverse = bigEndian bytes := by
  induction bytes using List.reverseRecOn with
  | nil => rfl
  | append_singleton bytes b ih =>
    rw [List.reverse_concat, bigEndian, List.foldl_concat, LittleEndian.decode, ih, bigEndian]
    omega

/-- What the decoder gives is the number that the value stands for, unless that number is
in a text and has more than 64 bits. -/
theorem decodeInt_spec {v : Value} {value : Int} (h : lwm2mDataDecodeInt v = some value) :
    ∃ n, number v = some n ∧ (value = n ↔ NumberFits v) := by
  cases v with
  | integer m =>
    cases h
    exact ⟨_, rfl, by simp [NumberFits]⟩
  | string text =>
    obtain ⟨n, hn, hiff⟩ := utilsTextToInt_spec h
    refine ⟨n, hn, ?_⟩
    simp only [NumberFits, hn, Option.mem_def, Option.some.injEq, forall_eq', hiff]
  | opaqueBytes bytes =>
    simp only [lwm2mDataDecodeInt, utilsCopyValue, decode_reverse] at h
    exact ⟨value, h, by simp [NumberFits]⟩
  | undefined => cases h
  | object => cases h
  | objectInstance => cases h
  | multipleResource => cases h
  | float => cases h
  | boolean b => cases h
  | objectLink => cases h

theorem utilsTextToInt_wraps {text : List UInt8} {value : Int}
    (h : utilsTextToInt text = some value) :
    ∃ n, decimal text = some n ∧ value.bmod (2 ^ 64) = n.bmod (2 ^ 64) := by
  obtain ⟨n, _, ⟨hn, rfl⟩ | ⟨hn, rfl⟩⟩ := utilsTextToInt_cases h
  · refine ⟨_, hn, ?_⟩
    rw [Int.natCast_emod, ← Int.zero_sub, ← Int.zero_sub]
    exact Int.sub_emod_bmod 0 _
  · refine ⟨_, hn, ?_⟩
    rw [Int.natCast_emod]
    exact Int.emod_bmod _ _

/-- Modulo 2^64 it is that number in any case. -/
theorem decodeInt_wraps {v : Value} {value : Int} (h : lwm2mDataDecodeInt v = some value) :
    ∃ n, number v = some n ∧ value.bmod (2 ^ 64) = n.bmod (2 ^ 64) := by
  cases v with
  | string text => exact utilsTextToInt_wraps h
  | _ =>
    obtain ⟨n, hn, hiff⟩ := decodeInt_spec h
    refine ⟨n, hn, ?_⟩
    rw [hiff.mpr trivial]

end JsEmbeddedPlatform.Lwm2mData
