import JsEmbeddedPlatform.CoapRoundTrip
import Mathlib.Algebra.Order.BigOperators.Group.List
import Mathlib.Algebra.Order.Group.Nat

/-!
# Where messages end

The reader looks at bytes behind the datagram, but never at more than four, and nothing of
what it keeps is longer than the datagram. The writer is given as many bytes as
`coap_serialize_get_size` counts, which is enough for every message of this program.
-/

set_option autoImplicit false

namespace JsEmbeddedPlatform.Coap

open Lwm2mData (Fault access access_getElem? slice slice_eq slice_length)

/-! ## Reading -/

theorem readExtended_ok {memory : List UInt8} (x : Nat) {current : Nat}
    (h : current + 2 ≤ memory.length) :
    ∃ y next, readExtended memory x current = .ok (y, next) ∧ next ≤ current + 2 := by
  unfold readExtended
  split_ifs
  · rw [access_getElem? (show current < memory.length by omega)]
    exact ⟨_, current + 1, rfl, by omega⟩
  · rw [access_getElem? (show current < memory.length by omega),
      access_getElem? (show current + 1 < memory.length by omega)]
    exact ⟨_, current + 2, rfl, by omega⟩
  · exact ⟨x, current, rfl, by omega⟩

theorem readOptionHeader_ok {memory : List UInt8} (first : UInt8) {current : Nat}
    (h : current + 4 ≤ memory.length) :
    ∃ header, readOptionHeader memory first current = .ok header := by
  obtain ⟨delta, next, hdelta, hnext⟩ := readExtended_ok (first >>> 4).toNat
    (show current + 2 ≤ memory.length by omega)
  obtain ⟨length, last, hlength, -⟩ := readExtended_ok (first &&& 0x0F).toNat
    (show next + 2 ≤ memory.length by omega)
  refine ⟨⟨delta, length, last⟩, ?_⟩
  unfold readOptionHeader
  rw [hdelta, Lwm2mData.ok_bind]
  simp only [hlength, Lwm2mData.ok_bind]

/-- The bytes of the parts of an option that may be repeated. -/
def partBytes (parts : List (List UInt8)) : Nat := (parts.map List.length).sum

@[simp] theorem partBytes_append (parts more : List (List UInt8)) :
    partBytes (parts ++ more) = partBytes parts + partBytes more := by
  simp [partBytes]

@[simp] theorem partBytes_singleton (part : List UInt8) : partBytes [part] = part.length := by
  simp [partBytes]

/-- The bytes that a packet points to in the datagram. -/
def Packet.viewed (p : Packet) : Nat :=
  p.payload.length + p.proxyUri.length + p.uriHost.length + p.locationQuery.length +
    partBytes p.locationPath + partBytes p.uriPath + partBytes p.uriQuery

/-- The copies fit into their arrays, and the datagram is as long as what is viewed of it. -/
structure Packet.Within (p : Packet) (dataLen : Nat) : Prop where
  token : p.token.length ≤ coapTokenLen
  etag : p.etag.length ≤ coapEtagLen
  ifMatch : p.ifMatch.length ≤ coapEtagLen
  accept : p.accept.length ≤ coapMaxAcceptNum
  viewed : p.viewed ≤ dataLen

theorem multiOption_le (option : List UInt8) : (multiOption option).length ≤ option.length :=
  List.length_take_le' _ option

theorem merge_length (dst option : List UInt8) (separator : UInt8) :
    (coapMergeMultiOption dst option separator).length ≤ dst.length + option.length + 1 := by
  unfold coapMergeMultiOption
  split
  · simp only [List.length_append, List.length_singleton]
    omega
  · omega

theorem setOption_viewed (p : Packet) (number : Nat) :
    (p.setOption number).viewed = p.viewed := by
  unfold Packet.setOption
  split <;> rfl

theorem Packet.Within.setOption {p : Packet} {n : Nat} (h : p.Within n) (number : Nat) :
    (p.setOption number).Within n := by
  unfold Packet.setOption
  split
  · exact ⟨h.token, h.etag, h.ifMatch, h.accept, h.viewed⟩
  · exact h

theorem ite_within {c : Prop} [Decidable c] {a b : Packet × Option (UInt8 × String)} {n : Nat}
    (ha : c → a.1.Within n) (hb : ¬ c → b.1.Within n) : (if c then a else b).1.Within n := by
  split
  · next h => exact ha h
  · next h => exact hb h

/-- A value adds at most itself, and the separator of a query that is merged. -/
theorem storeOption_within {p : Packet} {n : Nat} (h : p.Within n) (number : Nat)
    (value : List UInt8) : (storeOption number value p).1.Within (n + value.length + 1) := by
  have hviewed := h.viewed
  have hpart := multiOption_le value
  have hquery := merge_length p.locationQuery value 38
  have htake := List.length_take_le coapEtagLen value
  unfold Packet.viewed at hviewed
  unfold storeOption
  repeat' refine ite_within (fun _ => ?_) fun _ => ?_
  all_goals refine ⟨?_, ?_, ?_, ?_, ?_⟩
  all_goals first
    | exact h.token
    | exact h.etag
    | exact h.ifMatch
    | exact h.accept
    | exact htake
    | exact List.length_append.trans_le ‹p.accept.length < coapMaxAcceptNum›
    | simp only [Packet.viewed, partBytes_append, partBytes_singleton]; omega

theorem Packet.Within.of_viewed {p : Packet} {m n : Nat} (h : p.Within m) (hn : p.viewed ≤ n) :
    p.Within n :=
  ⟨h.token, h.etag, h.ifMatch, h.accept, hn⟩

/-- What an option leaves is behind the option. -/
theorem store_within {p : Packet} {dataLen current : Nat} (h : p.Within dataLen)
    (hcurrent : p.viewed ≤ current) (number : Nat) (value : List UInt8) (next : Nat)
    (hnext : current + 1 + value.length ≤ next) :
    (storeOption number value (p.setOption number)).1.viewed ≤ next ∧
      (next ≤ dataLen → (storeOption number value (p.setOption number)).1.Within dataLen) := by
  have hwithin := storeOption_within ((h.of_viewed hcurrent).setOption number) number value
  have hviewed := hwithin.viewed
  exact ⟨by omega, fun hle => hwithin.of_viewed (by omega)⟩

theorem parseOptions_within {memory : List UInt8} {dataLen : Nat}
    (hmemory : dataLen + 4 ≤ memory.length) (errorMessage : String) (number current : Nat)
    (p : Packet) (h : p.Within dataLen) (hcurrent : p.viewed ≤ current) :
    ∃ parsed, parseOptions memory dataLen errorMessage number current p = .ok parsed ∧
      parsed.packet.Within dataLen := by
  fun_induction parseOptions memory dataLen errorMessage number current p with
  | case1 number current p hend fault hfirst =>
    rw [access_getElem? (show current < memory.length by omega)] at hfirst
    cases hfirst
  | case2 number current p hend first hfirst hmarker fault hpayload =>
    rw [slice_eq (show current + 1 + (dataLen - (current + 1)) ≤ memory.length by omega)]
      at hpayload
    cases hpayload
  | case3 number current p hend first hfirst hmarker payload hpayload =>
    have hlen := slice_length hpayload
    refine ⟨_, rfl, h.token, h.etag, h.ifMatch, h.accept, ?_⟩
    simp only [Packet.viewed] at hcurrent ⊢
    omega
  | case4 number current p hend first hfirst hmarker fault hheader =>
    obtain ⟨header, hok⟩ := readOptionHeader_ok first
      (show current + 1 + 4 ≤ memory.length by omega)
    rw [hok] at hheader
    cases hheader
  | case5 number current p hend first hfirst hmarker header hheader hlong => exact ⟨_, rfl, h⟩
  | case6 number current p hend first hfirst hmarker header hheader hfits fault hvalue =>
    rw [slice_eq (show header.value + header.length ≤ memory.length by omega)] at hvalue
    cases hvalue
  | case7 number current p hend first hfirst hmarker header hheader hfits value hvalue q status
      message hstore =>
    have hvalueLen := slice_length hvalue
    have hle := readOptionHeader_le hheader
    have hwithin := store_within h hcurrent (number + header.delta) value
      (header.value + header.length) (by omega)
    rw [hstore] at hwithin
    exact ⟨_, rfl, hwithin.2 (by omega)⟩
  | case8 number current p hend first hfirst hmarker header hheader hfits value hvalue q hstore ih =>
    have hvalueLen := slice_length hvalue
    have hle := readOptionHeader_le hheader
    have hwithin := store_within h hcurrent (number + header.delta) value
      (header.value + header.length) (by omega)
    rw [hstore] at hwithin
    exact ih (hwithin.2 (by omega)) hwithin.1
  | case9 number current p hend => exact ⟨_, rfl, h⟩

theorem parseHeader_ok {memory : List UInt8} (h : 4 ≤ memory.length) :
    ∃ p tokenLen, parseHeader memory = .ok (p, tokenLen) ∧ tokenLen ≤ coapTokenLen ∧
      p.viewed = 0 ∧ p.token = [] ∧ p.etag = [] ∧ p.ifMatch = [] ∧ p.accept = [] := by
  unfold parseHeader
  rw [access_getElem? (show 0 < memory.length by omega),
    access_getElem? (show 1 < memory.length by omega),
    access_getElem? (show 2 < memory.length by omega),
    access_getElem? (show 3 < memory.length by omega)]
  exact ⟨_, _, rfl, Nat.min_le_left _ _, rfl, rfl, rfl, rfl, rfl⟩

/-- Header and token are twelve bytes at most, the header of an option five. -/
theorem coapParseMessage_within (memory : List UInt8) (dataLen : Nat) (errorMessage : String)
    (hheader : 12 ≤ memory.length) (hmemory : dataLen + 4 ≤ memory.length) :
    ∃ parsed, coapParseMessage memory dataLen errorMessage = .ok parsed ∧
      parsed.packet.Within dataLen := by
  obtain ⟨p, tokenLen, hok, hlen, hviewed, htoken, hetag, hifMatch, haccept⟩ :=
    parseHeader_ok (show 4 ≤ memory.length by omega)
  have hwithin : ∀ token : List UInt8, token.length ≤ coapTokenLen →
      ({ p with token := token } : Packet).Within dataLen := by
    intro token htokenLen
    refine ⟨htokenLen, ?_, ?_, ?_, ?_⟩
    · rw [hetag]
      exact Nat.zero_le _
    · rw [hifMatch]
      exact Nat.zero_le _
    · rw [haccept]
      exact Nat.zero_le _
    · exact hviewed.trans_le (Nat.zero_le dataLen)
  unfold coapParseMessage
  rw [hok, Lwm2mData.ok_bind]
  dsimp only
  split
  · exact ⟨_, rfl, hwithin _ (by rwa [List.length_replicate])⟩
  · split
    · have hp := hwithin [] (Nat.zero_le _)
      rw [← htoken] at hp
      exact parseOptions_within hmemory errorMessage 0 coapHeaderLen p hp
        (hviewed.trans_le (Nat.zero_le _))
    · have hslice := slice_eq (show coapHeaderLen + tokenLen ≤ memory.length by
        unfold coapHeaderLen coapTokenLen at *
        omega)
      rw [hslice, Lwm2mData.ok_bind]
      refine parseOptions_within hmemory errorMessage 0 (coapHeaderLen + tokenLen) _
        (Packet.Within.setOption (hwithin _ ?_) coapOptionToken) ?_
      · rw [slice_length hslice]
        exact hlen
      · rw [setOption_viewed]
        exact hviewed.trans_le (Nat.zero_le _)

theorem coapParseMessage_within_get :
    ∃ parsed, coapParseMessage [0x40, 1, 0, 7, 0xB1, 0x33, 0x11, 0x2C, 0, 0, 0, 0] 8 "" =
        .ok parsed ∧ parsed.packet.Within 8 :=
  coapParseMessage_within _ 8 "" (by decide) (by decide)

/-- The four bytes are needed: the extended delta and length of a last option. -/
example : coapParseMessage [0x48, 1, 0, 7, 1, 2, 3, 4, 5, 6, 7, 8, 0xEE, 0, 0, 0] 13 "" =
    .error .memory := by decide +kernel

/-! ## Writing -/

theorem extended_length (x : Nat) : (extended x).length ≤ 2 := by
  unfold extended
  split_ifs <;> simp

theorem extended_short {x : Nat} (h : x ≤ 268) : (extended x).length ≤ 1 := by
  unfold extended
  rw [if_neg (by omega)]
  split <;> simp

theorem extended_nil {x : Nat} (h : x ≤ 12) : extended x = [] := by
  unfold extended
  rw [if_neg (by omega), if_neg (by omega)]

theorem setOptionHeader_length (delta length : Nat) :
    (coapSetOptionHeader delta length).length =
      1 + (extended delta).length + (extended length).length := by
  rw [coapSetOptionHeader, List.length_cons, List.length_append]
  omega

theorem setOptionHeader_le (delta length : Nat) :
    (coapSetOptionHeader delta length).length ≤ coapMaxOptionHeaderLen := by
  rw [setOptionHeader_length]
  have hdelta := extended_length delta
  have hlength := extended_length length
  unfold coapMaxOptionHeaderLen
  omega

theorem serializeOption_le {p : Packet} {number size : Nat} {write : Nat → List UInt8}
    (w : Written) (h : ∀ current, (write current).length ≤ size) :
    (serializeOption p number write w).bytes.length ≤
      w.bytes.length + (if number ∈ p.options then size else 0) := by
  unfold serializeOption
  split
  · rw [List.length_append]
    have := h w.currentNumber
    omega
  · omega

theorem intBytes_short {value : UInt32} (h : value.toNat < 0x1000000) :
    (intBytes value).length ≤ 3 := by
  have hmask : ¬ 0xFF000000 &&& value ≠ 0 := by
    rw [mask_ne_zero_iff 0xFF000000 value (show 24 ≤ 32 by decide) (by decide)]
    omega
  unfold intBytes
  rw [if_neg hmask]
  split_ifs <;> simp

/-- An integer of four bytes fits where the delta needs no byte. -/
theorem serializeIntOption_le {number : Nat} {value : UInt32} (current : Nat)
    (hnumber : number ≤ 268) (h : number ≤ 12 ∨ value.toNat < 0x1000000) :
    (coapSerializeIntOption number current value).length ≤ coapMaxOptionHeaderLen := by
  have hlen := intBytes_length value
  have hext := extended_nil (show (intBytes value).length ≤ 12 by omega)
  rw [coapSerializeIntOption, List.length_append, setOptionHeader_length, hext, List.length_nil]
  unfold coapMaxOptionHeaderLen
  rcases h with h | h
  · rw [extended_nil (show number - current ≤ 12 by omega), List.length_nil]
    omega
  · have hshort := extended_short (show number - current ≤ 268 by omega)
    have hvalue := intBytes_short h
    omega

theorem serializeInt_le {p : Packet} {number : Nat} {field : UInt32} (w : Written)
    (hnumber : number ≤ 268) (h : number ≤ 12 ∨ field.toNat < 0x1000000) :
    (coapSerializeInt p number field w).bytes.length ≤
      w.bytes.length + optionSize p number 0 :=
  serializeOption_le w fun current => serializeIntOption_le current hnumber h

theorem serializeBytes_le {p : Packet} (number : Nat) (field : List UInt8) (w : Written) :
    (coapSerializeBytes p number field none w).bytes.length ≤
      w.bytes.length + optionSize p number field.length := by
  refine serializeOption_le w fun current => ?_
  rw [coapSerializeArrayOption, List.length_append]
  have := setOptionHeader_le (number - current) field.length
  omega

theorem serializeMultiOption_le (number current : Nat) (field : List (List UInt8)) :
    (coapSerializeMultiOption number current field).length ≤
      (field.map fun data => coapMaxOptionHeaderLen + data.length).sum := by
  induction field generalizing current with
  | nil => exact Nat.le_refl 0
  | cons data field ih =>
    rw [coapSerializeMultiOption, List.length_append, List.length_append, List.map_cons,
      List.sum_cons]
    have hheader := setOptionHeader_le (number - current) data.length
    have hrest := ih number
    omega

theorem serializeMulti_le {p : Packet} (number : Nat) (field : List (List UInt8)) (w : Written) :
    (coapSerializeMulti p number field w).bytes.length ≤
      w.bytes.length + multiSize p number field :=
  serializeOption_le w fun current => serializeMultiOption_le number current field

theorem serializeAccepts_le {number : Nat} (hnumber : number ≤ 268) (accepts : List UInt16)
    (w : Written) :
    (serializeAccepts number accepts w).bytes.length ≤
      w.bytes.length + accepts.length * coapMaxOptionHeaderLen := by
  induction accepts generalizing w with
  | nil => exact Nat.le_add_right _ _
  | cons accept accepts ih =>
    have haccept : accept.toUInt32.toNat < 0x1000000 := by
      rw [UInt16.toNat_toUInt32]
      have := accept.toNat_lt
      omega
    have hone := serializeIntOption_le w.currentNumber hnumber (.inr haccept)
    rw [serializeAccepts, List.length_cons, Nat.add_mul, Nat.one_mul]
    refine (ih _).trans ?_
    rw [List.length_append]
    omega

theorem serializeAccept_le (p : Packet) (w : Written) :
    (coapSerializeAccept p w).bytes.length ≤ w.bytes.length +
      (if coapOptionAccept ∈ p.options then p.accept.length * coapMaxOptionHeaderLen else 0) := by
  unfold coapSerializeAccept
  split
  · exact serializeAccepts_le (by decide) p.accept w
  · exact Nat.le_refl _

@[simp] theorem partBytes_cons (part : List UInt8) (parts : List (List UInt8)) :
    partBytes (part :: parts) = part.length + partBytes parts := by
  simp [partBytes]

/-- The separators are not among the parts. -/
theorem splitFrom_bytes (splitChar : UInt8) (part rest : List UInt8) :
    (splitFrom splitChar part rest).length + partBytes (splitFrom splitChar part rest) ≤
      part.length + rest.length + 1 := by
  fun_induction splitFrom splitChar part rest with
  | case1 part =>
    rw [partBytes_singleton, List.length_singleton, List.length_nil]
    omega
  | case2 part rest ih =>
    rw [partBytes_cons, List.length_cons, List.length_cons]
    cases rest with
    | nil =>
      simp only [List.length_nil, partBytes, List.map_nil, List.sum_nil]
      omega
    | cons d rest =>
      simp only [List.length_singleton] at ih
      simp only [List.length_cons]
      omega
  | case3 part c rest hc ih =>
    rw [List.length_append, List.length_singleton] at ih
    rw [List.length_cons]
    omega

/-- A part of less than 269 bytes needs one more byte for its length if it has 13 at least. -/
theorem multiOption_parts (number : Nat) {values : List (List UInt8)} (current : Nat)
    (hvalues : ∀ value ∈ values, value.length < 269) :
    14 * (coapSerializeMultiOption number current values).length ≤
      14 * (extended (number - current)).length + 15 * (values.length + partBytes values) := by
  induction values generalizing current with
  | nil =>
    rw [coapSerializeMultiOption, List.length_nil]
    omega
  | cons value values ih =>
    have hvalue := hvalues value List.mem_cons_self
    have hext : 14 * (extended value.length).length ≤ value.length + 1 := by
      by_cases hshort : value.length ≤ 12
      · rw [extended_nil hshort, List.length_nil]
        omega
      · have := extended_short (show value.length ≤ 268 by omega)
        omega
    have hrest := ih number fun v hv => hvalues v (List.mem_cons_of_mem _ hv)
    rw [Nat.sub_self, extended_nil (Nat.zero_le 12), List.length_nil] at hrest
    rw [coapSerializeMultiOption, List.length_append, List.length_append, setOptionHeader_length,
      partBytes_cons, List.length_cons]
    omega

/-- Three parts of a query can need a byte for their length before its text has 55 bytes. -/
theorem serializeSplit_le {p : Packet} {number : Nat} {field : List UInt8} (w : Written)
    (hnumber : number ≤ 268) (hfield : field.length < 55) :
    (coapSerializeBytes p number field (some 38) w).bytes.length ≤
      w.bytes.length + optionSize p number field.length := by
  refine serializeOption_le w fun current => ?_
  have hbytes := splitFrom_bytes 38 [] field
  have hvalues : ∀ value ∈ splitFrom 38 [] field, value.length < 269 := by
    intro value hvalue
    have hle : value.length ≤ partBytes (splitFrom 38 [] field) :=
      List.le_sum_of_mem (List.mem_map_of_mem hvalue)
    rw [List.length_nil] at hbytes
    omega
  have hparts := multiOption_parts number current hvalues
  have hext := extended_short (show number - current ≤ 268 by omega)
  rw [List.length_nil] at hbytes
  unfold coapSerializeArrayOption coapMaxOptionHeaderLen
  dsimp only
  omega

/-- What the buffer of `coap_serialize_get_size` is large enough for. -/
structure Packet.Small (p : Packet) : Prop where
  maxAge : p.maxAge.toNat < 0x1000000
  size : p.size.toNat < 0x1000000
  block1 : p.block1.num ≤ 0x0FFFFF
  block2 : p.block2.num ≤ 0x0FFFFF
  locationQuery : p.locationQuery.length < 55

theorem blockValue_small {b : Block} (h : b.num ≤ 0x0FFFFF) : (blockValue b).toNat < 0x1000000 := by
  have hnum : b.num.toNat ≤ 0x0FFFFF := by simpa using UInt32.le_iff_toNat_le.mp h
  have hshift : (b.num <<< 4).toNat < 2 ^ 24 := by
    rw [UInt32.toNat_shiftLeft]
    simp only [UInt32.reduceToNat, Nat.reduceMod, Nat.shiftLeft_eq]
    omega
  have hsize : (UInt32.ofNat (0xF &&& coapLog2 (b.size / 16))).toNat < 2 ^ 24 := by
    have hle : 0xF &&& coapLog2 (b.size / 16) ≤ 0xF := Nat.and_le_left
    rw [UInt32.toNat_ofNat']
    omega
  unfold blockValue
  rw [UInt32.toNat_or]
  refine Nat.or_lt_two_pow ?_ hsize
  split
  · rw [UInt32.toNat_or]
    exact Nat.or_lt_two_pow hshift (by decide)
  · exact hshift

/-- One more option on both sides. -/
theorem add_option {base a b size total : Nat} (h : a ≤ b + size) (hb : base + b ≤ total) :
    base + a ≤ total + size := by
  omega

/-- The buffers that messages are written into are as long as this size. -/
theorem coapSerializeMessage_length {p : Packet} (h : p.Small) :
    (coapSerializeMessage p).1.length ≤ coapSerializeGetSize p := by
  have hoptions : coapHeaderLen + p.payload.length + p.token.length +
      (serializeOptions p).bytes.length + (if p.payload = [] then 0 else 1) ≤
      coapSerializeGetSize p := by
    unfold serializeOptions coapSerializeGetSize
    apply Nat.add_le_add_right
    apply add_option (serializeBytes_le coapOptionProxyUri p.proxyUri _)
    apply add_option (serializeInt_le _ (by decide) (.inr h.size))
    apply add_option (serializeInt_le _ (by decide) (.inr (blockValue_small h.block1)))
    apply add_option (serializeInt_le _ (by decide) (.inr (blockValue_small h.block2)))
    apply add_option (serializeSplit_le _ (by decide) h.locationQuery)
    apply add_option (serializeAccept_le p _)
    apply add_option (serializeMulti_le coapOptionUriQuery p.uriQuery _)
    apply add_option (serializeInt_le _ (by decide) (.inr h.maxAge))
    apply add_option (serializeInt_le _ (by decide) (.inl (by decide)))
    apply add_option (serializeMulti_le coapOptionUriPath p.uriPath _)
    apply add_option (serializeMulti_le coapOptionLocationPath p.locationPath _)
    apply add_option (serializeInt_le _ (by decide) (.inl (by decide)))
    apply add_option (serializeInt_le _ (by decide) (.inl (by decide)))
    apply add_option (serializeInt_le _ (by decide) (.inl (by decide)))
    apply add_option (serializeBytes_le coapOptionEtag p.etag _)
    apply add_option (serializeBytes_le coapOptionUriHost p.uriHost _)
    apply add_option (serializeBytes_le coapOptionIfMatch p.ifMatch _)
    exact Nat.le_refl _
  have hpayload : (if p.payload = [] then [] else 0xFF :: p.payload).length =
      p.payload.length + (if p.payload = [] then 0 else 1) := by
    split
    · next hnil => rw [hnil, List.length_nil]
    · rw [List.length_cons]
  unfold coapSerializeMessage
  simp only [List.length_append, hpayload]
  have hheader : (headerBytes p).length = coapHeaderLen := rfl
  omega

/-- The setters that a message of this program is set up with keep to it. -/
def Setter.Small : Setter → Prop
  | .maxAge age => age.toNat < 0x1000000
  | .size n => n.toNat < 0x1000000
  | .locationQuery query => query.length < 55
  | _ => True

instance (s : Setter) : Decidable s.Small :=
  match s with
  | .maxAge age => Nat.decLt age.toNat 0x1000000
  | .size n => Nat.decLt n.toNat 0x1000000
  | .locationQuery query => Nat.decLt query.length 55
  | .contentType _ | .accept _ | .etag _ | .ifMatch _ | .ifNoneMatch | .token _ | .proxyUri _
  | .uriHost _ | .uriPath _ | .uriPathSegment _ | .uriQuery _ | .locationPath _ | .observe _
  | .block2 _ _ _ | .block1 _ _ _ | .payload _ | .statusCode _ => isTrue trivial

theorem Packet.Small.setOption {p : Packet} (h : p.Small) (number : Nat) :
    (p.setOption number).Small := by
  unfold Packet.setOption
  split
  · exact ⟨h.maxAge, h.size, h.block1, h.block2, h.locationQuery⟩
  · exact h

/-- A field that has no bound of its own is set. -/
theorem Packet.Small.set {p : Packet} (h : p.Small) (q : Packet) (number : Nat)
    (hmaxAge : q.maxAge = p.maxAge := by rfl) (hsize : q.size = p.size := by rfl)
    (hblock1 : q.block1 = p.block1 := by rfl) (hblock2 : q.block2 = p.block2 := by rfl)
    (hquery : q.locationQuery = p.locationQuery := by rfl) : (q.setOption number).Small := by
  have hq : q.Small := by
    refine ⟨?_, ?_, ?_, ?_, ?_⟩
    · rw [hmaxAge]
      exact h.maxAge
    · rw [hsize]
      exact h.size
    · rw [hblock1]
      exact h.block1
    · rw [hblock2]
      exact h.block2
    · rw [hquery]
      exact h.locationQuery
  exact hq.setOption number

theorem Packet.Small.apply {p : Packet} (h : p.Small) {s : Setter} (hs : s.Small) :
    (s.apply p).Small := by
  have ⟨hmaxAge, hsize, hblock1, hblock2, hquery⟩ := h
  cases s with
  | maxAge age =>
    unfold Setter.apply coapSetHeaderMaxAge
    apply Packet.Small.setOption
    exact ⟨hs, hsize, hblock1, hblock2, hquery⟩
  | size n =>
    unfold Setter.apply coapSetHeaderSize
    apply Packet.Small.setOption
    exact ⟨hmaxAge, hs, hblock1, hblock2, hquery⟩
  | locationQuery query =>
    unfold Setter.apply coapSetHeaderLocationQuery
    apply Packet.Small.setOption
    exact ⟨hmaxAge, hsize, hblock1, hblock2,
      (List.dropWhile_sublist _).length_le.trans_lt hs⟩
  | accept n =>
    unfold Setter.apply coapSetHeaderAccept
    dsimp only
    split
    · exact h.set { p with accept := p.accept ++ [n] } coapOptionAccept
    · exact h
  | block2 num more width =>
    unfold Setter.apply coapSetHeaderBlock2
    dsimp only
    split
    · exact h
    split
    · exact h
    split
    · exact h
    next hnum =>
    apply Packet.Small.setOption
    exact ⟨hmaxAge, hsize, hblock1, UInt32.not_lt.mp hnum, hquery⟩
  | block1 num more width =>
    unfold Setter.apply coapSetHeaderBlock1
    dsimp only
    split
    · exact h
    split
    · exact h
    split
    · exact h
    next hnum =>
    apply Packet.Small.setOption
    exact ⟨hmaxAge, hsize, UInt32.not_lt.mp hnum, hblock2, hquery⟩
  | payload bytes => exact ⟨hmaxAge, hsize, hblock1, hblock2, hquery⟩
  | statusCode code =>
    unfold Setter.apply coapSetStatusCode
    dsimp only
    split <;> exact ⟨hmaxAge, hsize, hblock1, hblock2, hquery⟩
  | contentType n => exact h.set { p with contentType := n } coapOptionContentType
  | etag bytes => exact h.set { p with etag := bytes.take coapEtagLen } coapOptionEtag
  | ifMatch bytes => exact h.set { p with ifMatch := bytes.take coapEtagLen } coapOptionIfMatch
  | ifNoneMatch => exact h.set p coapOptionIfNoneMatch
  | token bytes => exact h.set { p with token := bytes.take coapTokenLen } coapOptionToken
  | proxyUri uri => exact h.set { p with proxyUri := uri } coapOptionProxyUri
  | uriHost host => exact h.set { p with uriHost := host } coapOptionUriHost
  | uriPath path => exact h.set { p with uriPath := segments 47 47 path } coapOptionUriPath
  | uriPathSegment segment =>
    exact h.set { p with uriPath := p.uriPath ++ [multiOption segment] } coapOptionUriPath
  | uriQuery query => exact h.set { p with uriQuery := segments 63 38 query } coapOptionUriQuery
  | locationPath path =>
    exact h.set { p with locationPath := segments 47 47 path } coapOptionLocationPath
  | observe n => exact h.set { p with observe := 0x00FFFFFF &&& n } coapOptionObserve

theorem Packet.Small.foldl {p : Packet} (h : p.Small) (setters : List Setter)
    (hsetters : ∀ s ∈ setters, s.Small) : (setters.foldl Setter.apply p).Small := by
  induction setters generalizing p with
  | nil => exact h
  | cons s setters ih =>
    exact ih (h.apply (hsetters s List.mem_cons_self))
      fun s hs => hsetters s (List.mem_cons_of_mem _ hs)

/-- No message that is set up with the setters overruns the buffer that it is written into. -/
theorem setUp_length (type : MessageType) (code : UInt8) (mid : UInt16) (setters : List Setter)
    (hsetters : ∀ s ∈ setters, s.Small) :
    (coapSerializeMessage (setUp type code mid setters)).1.length ≤
      coapSerializeGetSize (setUp type code mid setters) := by
  have hinit : (coapInitMessage type code mid).Small := by
    constructor <;> simp [coapInitMessage]
  exact coapSerializeMessage_length (hinit.foldl setters hsetters)

theorem setUp_length_registerUpdate :
    (coapSerializeMessage (setUp .con 2 7 registerUpdate)).1.length ≤
      coapSerializeGetSize (setUp .con 2 7 registerUpdate) :=
  setUp_length .con 2 7 registerUpdate (by decide +kernel)

/-- A Size option of four bytes overruns the buffer by one. -/
example : (coapSerializeMessage (setUp .con 1 7 [.size 0x1000000])).1.length =
    coapSerializeGetSize (setUp .con 1 7 [.size 0x1000000]) + 1 := by decide +kernel

end JsEmbeddedPlatform.Coap
