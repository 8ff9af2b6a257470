import JsEmbeddedPlatform.CoapPacket

/-!
# The options of a message

An option is written as the distance of its number to that of the option in front of it,
its length and its value. The reader adds the distances up again.
-/

set_option autoImplicit false

namespace JsEmbeddedPlatform.Coap

open Lwm2mData (Fault access access_getElem? slice slice_eq slice_length)
open LittleEndian (getElem?_behind)

/-! ## Headers -/

theorem nibble_lt (x : Nat) : coapOptionNibble x < 15 := by
  unfold coapOptionNibble
  split_ifs <;> omega

/-- The two halves of the first byte, which is no payload marker. -/
theorem firstByte_halves {a b : Nat} (ha : a < 15) (hb : b < 15) :
    (UInt8.ofNat (a <<< 4 ||| b) >>> 4).toNat = a ∧
      (UInt8.ofNat (a <<< 4 ||| b) &&& 0x0F).toNat = b ∧
      UInt8.ofNat (a <<< 4 ||| b) &&& 0xF0 ≠ 0xF0 := by
  have all : ∀ a < 15, ∀ b < 15, (UInt8.ofNat (a <<< 4 ||| b) >>> 4).toNat = a ∧
      (UInt8.ofNat (a <<< 4 ||| b) &&& 0x0F).toNat = b ∧
      UInt8.ofNat (a <<< 4 ||| b) &&& 0xF0 ≠ 0xF0 := by
    decide +kernel
  exact all a ha b hb

theorem small_field {x : Nat} (h : x < 13) : coapOptionNibble x = x ∧ extended x = [] := by
  unfold coapOptionNibble extended
  exact ⟨if_pos h, by rw [if_neg (by omega), if_neg (by omega)]⟩

theorem byte_field {x : Nat} (h : 13 ≤ x) (h' : x ≤ 268) :
    coapOptionNibble x = 13 ∧ extended x = [UInt8.ofNat (x - 13)] := by
  unfold coapOptionNibble extended
  rw [if_neg (by omega), if_pos (by omega), if_neg (by omega), if_pos (by omega)]
  exact ⟨rfl, rfl⟩

theorem word_field {x : Nat} (h : 268 < x) :
    coapOptionNibble x = 14 ∧
      extended x = [UInt8.ofNat ((x - 269) >>> 8), UInt8.ofNat (x - 269)] := by
  unfold coapOptionNibble extended
  rw [if_neg (by omega), if_neg (by omega), if_pos h]
  exact ⟨rfl, rfl⟩

/-- A delta or a length is read as it was written. -/
theorem readExtended_extended {x : Nat} (hx : x < 65536 + 269) (front rest : List UInt8) :
    readExtended (front ++ (extended x ++ rest)) (coapOptionNibble x) front.length =
      .ok (x, front.length + (extended x).length) := by
  have low : ∀ n : Nat, (UInt8.ofNat n).toNat = n % 256 := fun n => by simp
  have here : ∀ rest : List UInt8, (front ++ rest)[front.length]? = rest[0]? :=
    fun rest => getElem?_behind front rest 0
  unfold readExtended
  rcases Nat.lt_or_ge x 13 with h13 | h13
  · obtain ⟨hnibble, hextended⟩ := small_field h13
    rw [hnibble, hextended, if_neg (by omega), if_neg (by omega)]
    rfl
  rcases Nat.lt_or_ge 268 x with h268 | h268
  · obtain ⟨hnibble, hextended⟩ := word_field h268
    have hsum : 14 + 255 + ((x - 269) >>> 8 % 256) <<< 8 + (x - 269) % 256 = x := by
      rw [Nat.shiftRight_eq_div_pow, Nat.shiftLeft_eq]
      omega
    rw [hnibble, hextended, if_neg (by decide), if_pos rfl, here, getElem?_behind]
    simp only [List.cons_append, List.getElem?_cons_zero, List.getElem?_cons_succ,
      Lwm2mData.access_some, Lwm2mData.ok_bind, low, hsum]
    rfl
  · obtain ⟨hnibble, hextended⟩ := byte_field h13 h268
    have hsum : 13 + (x - 13) % 256 = x := by omega
    rw [hnibble, hextended, if_pos rfl, here]
    simp only [List.cons_append, List.getElem?_cons_zero, Lwm2mData.access_some,
      Lwm2mData.ok_bind, low, hsum]
    rfl

def optionFirst (delta length : Nat) : UInt8 :=
  UInt8.ofNat (coapOptionNibble delta <<< 4 ||| coapOptionNibble length)

theorem optionFirst_halves (delta length : Nat) :
    (optionFirst delta length >>> 4).toNat = coapOptionNibble delta ∧
      (optionFirst delta length &&& 0x0F).toNat = coapOptionNibble length ∧
      optionFirst delta length &&& 0xF0 ≠ 0xF0 :=
  firstByte_halves (nibble_lt delta) (nibble_lt length)

theorem setOptionHeader_eq (delta length : Nat) :
    coapSetOptionHeader delta length =
      optionFirst delta length :: (extended delta ++ extended length) := rfl

theorem readOptionHeader_written {delta length : Nat} (hdelta : delta < 65536 + 269)
    (hlength : length < 65536 + 269) (front rest : List UInt8) :
    readOptionHeader (front ++ (coapSetOptionHeader delta length ++ rest))
        (optionFirst delta length) (front.length + 1) =
      .ok ⟨delta, length, front.length + (coapSetOptionHeader delta length).length⟩ := by
  obtain ⟨hhigh, hlow, _⟩ := optionFirst_halves delta length
  have hd := readExtended_extended hdelta (front ++ [optionFirst delta length])
    (extended length ++ rest)
  have hl := readExtended_extended hlength
    (front ++ [optionFirst delta length] ++ extended delta) rest
  rw [readOptionHeader, hhigh, hlow, setOptionHeader_eq]
  simp only [List.append_assoc, List.cons_append, List.nil_append, List.length_append,
    List.length_cons, List.length_nil, Nat.zero_add] at hd hl ⊢
  have hmiddle : front.length + ((extended delta).length + 1) =
      front.length + 1 + (extended delta).length := by omega
  have hend : front.length + 1 + (extended delta).length + (extended length).length =
      front.length + ((extended delta).length + (extended length).length + 1) := by omega
  rw [hmiddle, hend] at hl
  simp only [hd, hl, Lwm2mData.ok_bind]

/-! ## A list of options -/

/-- The options in the order of their numbers, behind the option `current`. -/
def encodeOptions (current : Nat) : List (Nat × List UInt8) → List UInt8
  | [] => []
  | (number, value) :: rest =>
    coapSetOptionHeader (number - current) value.length ++ (value ++ encodeOptions number rest)

/-- The number that the next delta counts from. -/
def lastNumber (current : Nat) (opts : List (Nat × List UInt8)) : Nat :=
  (opts.getLast?.map Prod.fst).getD current

theorem lastNumber_cons (current number : Nat) (value : List UInt8)
    (rest : List (Nat × List UInt8)) :
    lastNumber current ((number, value) :: rest) = lastNumber number rest := by
  unfold lastNumber
  rw [List.getLast?_cons]
  cases rest.getLast? <;> rfl

theorem lastNumber_append (current : Nat) (xs ys : List (Nat × List UInt8)) :
    lastNumber current (xs ++ ys) = lastNumber (lastNumber current xs) ys := by
  induction xs generalizing current with
  | nil => rfl
  | cons x xs ih =>
    obtain ⟨number, value⟩ := x
    rw [List.cons_append, lastNumber_cons, lastNumber_cons, ih]

theorem encodeOptions_append (current : Nat) (xs ys : List (Nat × List UInt8)) :
    encodeOptions current (xs ++ ys) =
      encodeOptions current xs ++ encodeOptions (lastNumber current xs) ys := by
  induction xs generalizing current with
  | nil => rfl
  | cons x xs ih =>
    obtain ⟨number, value⟩ := x
    simp only [List.cons_append, encodeOptions, ih, lastNumber_cons, List.append_assoc]

/-- What the reader makes of one option. -/
def store (p : Packet) (opt : Nat × List UInt8) : Packet :=
  (storeOption opt.1 opt.2 (p.setOption opt.1)).1

/-- The options that do not end the parse. -/
def Accepted (number : Nat) : Prop :=
  ∀ (value : List UInt8) (p : Packet), (storeOption number value p).2 = none

/-- The numbers do not fall. -/
inductive Ordered : Nat → List (Nat × List UInt8) → Prop where
  | nil (current : Nat) : Ordered current []
  | cons {current number : Nat} {rest : List (Nat × List UInt8)} (value : List UInt8) :
      current ≤ number → number < 65536 + 269 → Accepted number → Ordered number rest →
      Ordered current ((number, value) :: rest)

theorem ordered_append {current : Nat} {xs ys : List (Nat × List UInt8)}
    (hx : Ordered current xs) (hy : Ordered (lastNumber current xs) ys) :
    Ordered current (xs ++ ys) := by
  induction hx with
  | nil current => exact hy
  | cons value hle hlt hacc _ ih =>
    rw [lastNumber_cons] at hy
    exact .cons value hle hlt hacc (ih hy)

theorem length_le_encodeOptions {current : Nat} {opts : List (Nat × List UInt8)}
    {opt : Nat × List UInt8} (h : opt ∈ opts) :
    opt.2.length ≤ (encodeOptions current opts).length := by
  induction opts generalizing current with
  | nil => cases h
  | cons x opts ih =>
    obtain ⟨number, value⟩ := x
    simp only [encodeOptions, List.length_append]
    rcases List.mem_cons.mp h with rfl | h
    · simp only
      omega
    · have hrest := @ih number h
      omega

theorem slice_behind (front value rest : List UInt8) :
    slice (front ++ (value ++ rest)) front.length value.length = .ok value := by
  rw [slice_eq (by simp only [List.length_append]; omega), List.drop_left, List.take_left]

/-- One round of the loop. -/
theorem parseOptions_option {memory value : List UInt8} {dataLen number current delta : Nat}
    (errorMessage : String) (p : Packet) (hend : current < dataLen)
    (hfirst : access memory[current]? = .ok (optionFirst delta value.length))
    {index : Nat}
    (hheader : readOptionHeader memory (optionFirst delta value.length) (current + 1) =
      .ok ⟨delta, value.length, index⟩)
    (hlen : index + value.length ≤ dataLen)
    (hvalue : slice memory index value.length = .ok value)
    (hacc : Accepted (number + delta)) :
    parseOptions memory dataLen errorMessage number current p =
      parseOptions memory dataLen errorMessage (number + delta) (index + value.length)
        (store p (number + delta, value)) := by
  obtain ⟨_, _, hmarker⟩ := optionFirst_halves delta value.length
  rw [parseOptions, dif_pos hend, hfirst]
  simp only
  rw [if_neg hmarker]
  split
  · next fault hfault =>
    rw [hheader] at hfault
    cases hfault
  · next header hok =>
    rw [hheader] at hok
    cases hok
    simp only
    rw [if_neg (by omega), hvalue]
    simp only
    split
    · next q status message hstore =>
      have hnone := hacc value (p.setOption (number + delta))
      rw [hstore] at hnone
      cases hnone
    · next q hstore =>
      rw [store, hstore]

theorem parseOptions_encodeOptions {dataLen : Nat} (errorMessage : String)
    (opts : List (Nat × List UInt8)) (front rest : List UInt8) (number : Nat) (p : Packet)
    (hread : Ordered number opts) (hvalues : ∀ opt ∈ opts, opt.2.length < 65536 + 269)
    (hlen : front.length + (encodeOptions number opts).length ≤ dataLen) :
    parseOptions (front ++ (encodeOptions number opts ++ rest)) dataLen errorMessage number
        front.length p =
      parseOptions (front ++ (encodeOptions number opts ++ rest)) dataLen errorMessage
        (lastNumber number opts) (front.length + (encodeOptions number opts).length)
        (opts.foldl store p) := by
  induction hread generalizing front p with
  | nil => rfl
  | @cons number next opts value hle hlt hacc _ ih =>
    obtain ⟨hvalue, hvalues⟩ := List.forall_mem_cons.mp hvalues
    simp only at hvalue
    have hsum : number + (next - number) = next := by omega
    have hmem : front ++ (encodeOptions number ((next, value) :: opts) ++ rest) =
        front ++ (coapSetOptionHeader (next - number) value.length ++
          (value ++ (encodeOptions next opts ++ rest))) := by
      simp only [encodeOptions, List.append_assoc]
    have hsize : (encodeOptions number ((next, value) :: opts)).length =
        (coapSetOptionHeader (next - number) value.length).length + value.length +
          (encodeOptions next opts).length := by
      simp only [encodeOptions, List.length_append, Nat.add_assoc]
    have hpos : 0 < (coapSetOptionHeader (next - number) value.length).length :=
      Nat.succ_pos _
    have hfirst : access (front ++ (coapSetOptionHeader (next - number) value.length ++
        (value ++ (encodeOptions next opts ++ rest))))[front.length]? =
          .ok (optionFirst (next - number) value.length) := by
      have h := getElem?_behind front (coapSetOptionHeader (next - number) value.length ++
        (value ++ (encodeOptions next opts ++ rest))) 0
      rw [Nat.add_zero] at h
      rw [h]
      rfl
    have hheader := readOptionHeader_written
      (show next - number < 65536 + 269 by omega) hvalue front (value ++ (encodeOptions next opts ++ rest))
    have hslice := slice_behind (front ++ coapSetOptionHeader (next - number) value.length) value
      (encodeOptions next opts ++ rest)
    rw [List.append_assoc, List.length_append] at hslice
    have hrun := ih (front ++ coapSetOptionHeader (next - number) value.length ++ value)
      (store p (next, value)) hvalues (by
        simp only [List.length_append]
        omega)
    simp only [List.append_assoc, List.length_append] at hrun
    rw [hmem, hsize, lastNumber_cons, List.foldl_cons,
      parseOptions_option errorMessage p (by omega) hfirst hheader (by omega) hslice
        (hsum.symm ▸ hacc), hsum, Nat.add_assoc front.length, hrun]
    congr 1
    omega

/-- Behind the last option the message ends. -/
theorem parseOptions_end {memory : List UInt8} {dataLen : Nat} (errorMessage : String)
    (number : Nat) (p : Packet) :
    parseOptions memory dataLen errorMessage number dataLen p =
      .ok ⟨noError, p, errorMessage⟩ := by
  rw [parseOptions, dif_neg (Nat.lt_irrefl dataLen)]

/-- Or the payload follows. -/
theorem parseOptions_payload (errorMessage : String) (front payload beyond : List UInt8)
    (number : Nat) (p : Packet) :
    parseOptions (front ++ (0xFF :: payload ++ beyond)) (front.length + (payload.length + 1))
        errorMessage number front.length p =
      .ok ⟨noError, { p with payload := payload }, errorMessage⟩ := by
  have hfirst : access (front ++ (0xFF :: payload ++ beyond))[front.length]? = .ok 0xFF := by
    have h := getElem?_behind front (0xFF :: payload ++ beyond) 0
    rw [Nat.add_zero] at h
    rw [h]
    rfl
  have hslice := slice_behind (front ++ [0xFF]) payload beyond
  rw [List.append_assoc, List.length_append, List.singleton_append,
    List.length_singleton] at hslice
  rw [parseOptions, dif_pos (by omega), hfirst]
  simp only
  rw [if_pos (by decide), show front.length + (payload.length + 1) - (front.length + 1) =
    payload.length by omega]
  rw [show (front ++ (0xFF :: payload ++ beyond)) = front ++ 0xFF :: (payload ++ beyond) from rfl,
    hslice]

end JsEmbeddedPlatform.Coap
