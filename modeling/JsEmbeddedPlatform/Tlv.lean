import JsEmbeddedPlatform.Lwm2mData

/-!
# The TLV format of the LWM2M core

An array of `lwm2m_data_t` is a forest: resources and resource instances are its leaves,
object instances and multiple resources have children of their own. The writer puts a
header in front of each item, the reader finds the items again and knows of a leaf only
its bytes.
-/

set_option autoImplicit false

namespace JsEmbeddedPlatform.Tlv

open Lwm2mData (Fault access access_getElem? slice slice_eq slice_length utilsCopyValue)

inductive DataType where
  | undefined
  | object
  | objectInstance
  | multipleResource
  | string
  | opaqueBytes
  | integer
  | float
  | boolean
  | objectLink
deriving DecidableEq, Repr

/-- A number that a `float` holds exactly, by the bits of that `float`, or one beyond the range of a
`float`, by the bits of its `double`. -/
inductive FloatBits where
  | single (bits : UInt32) (finite : bits &&& 0x7FFFFFFF < 0x7F800000)
  | double (bits : UInt64) (beyond : 0x47EFFFFFE0000000 < bits &&& 0x7FFFFFFFFFFFFFFF)
      (number : bits &&& 0x7FFFFFFFFFFFFFFF ≤ 0x7FF0000000000000)
deriving DecidableEq, Repr

/-- An object is not one of the types that the format knows, so its children are left out. -/
inductive Leaf where
  | undefined
  | object
  | string (buffer : List UInt8)
  | opaqueBytes (buffer : List UInt8)
  | integer (value : Int64)
  | float (bits : FloatBits)
  | boolean (value : Bool)
  | objectLink (objectId objectInstanceId : UInt16)
deriving DecidableEq, Repr

inductive Nested where
  | objectInstance
  | multipleResource
deriving DecidableEq, Repr

/-- `lwm2m_data_t`. -/
inductive Data where
  | leaf (id : UInt16) (value : Leaf)
  | nested (id : UInt16) (type : Nested) (children : List Data)
deriving Repr

def Leaf.type : Leaf → DataType
  | .undefined => .undefined
  | .object => .object
  | .string _ => .string
  | .opaqueBytes _ => .opaqueBytes
  | .integer _ => .integer
  | .float _ => .float
  | .boolean _ => .boolean
  | .objectLink _ _ => .objectLink

def Nested.type : Nested → DataType
  | .objectInstance => .objectInstance
  | .multipleResource => .multipleResource

/-- Along the array and down into the children. -/
theorem forest_induction {P : List Data → Prop} (nil : P [])
    (leaf : ∀ id value rest, P rest → P (.leaf id value :: rest))
    (nested : ∀ id type children rest, P children → P rest →
      P (.nested id type children :: rest)) (items : List Data) : P items := by
  have step : ∀ (item : Data) (rest : List Data), P rest → P (item :: rest) := by
    intro item
    induction item using Data.rec
      (motive_2 := fun items => P items) with
    | leaf id value => exact leaf id value
    | nested id type children ih => exact fun rest => nested id type children rest ih
    | nil => exact nil
    | cons item rest ihItem ihRest => exact ihItem rest ihRest
  induction items with
  | nil => exact nil
  | cons item rest ih => exact step item rest ih

/-! ## The header -/

def prvGetHeaderType : DataType → UInt8
  | .object => 0x10
  | .objectInstance => 0x00
  | .multipleResource => 0x80
  | .string => 0xC0
  | .integer => 0xC0
  | .float => 0xC0
  | .boolean => 0xC0
  | .opaqueBytes => 0xC0
  | .objectLink => 0xC0
  | .undefined => 0xFF

def prvGetDataType (type : UInt8) : DataType :=
  if type = 0x10 then .object
  else if type = 0x00 then .objectInstance
  else if type = 0x80 then .multipleResource
  else if type = 0xC0 then .opaqueBytes
  else if type = 0x40 then .opaqueBytes
  else .undefined

def prvGetHeaderLength (id : UInt16) (dataLen : Nat) : Nat :=
  2 + (if 0xFF < id then 1 else 0) +
    (if 0xFFFF < dataLen then 3 else if 0xFF < dataLen then 2 else if 7 < dataLen then 1 else 0)

def idBytes (id : UInt16) : List UInt8 :=
  if 0xFF < id then [(id >>> 8 &&& 0xFF).toUInt8, (id &&& 0xFF).toUInt8] else [id.toUInt8]

/-- A length of more than 24 bits is not written: the three bytes stay as `lwm2m_malloc` has
handed them out. -/
def lengthBytes (fresh : Vector UInt8 3) (dataLen : Nat) : List UInt8 :=
  if dataLen ≤ 7 then []
  else if dataLen ≤ 0xFF then [UInt8.ofNat dataLen]
  else if dataLen ≤ 0xFFFF then [UInt8.ofNat (dataLen >>> 8), UInt8.ofNat dataLen]
  else if dataLen ≤ 0xFFFFFF then
    [UInt8.ofNat (dataLen >>> 16), UInt8.ofNat (dataLen >>> 8), UInt8.ofNat dataLen]
  else fresh.toList

def withLengthFlag (first : UInt8) (dataLen : Nat) : UInt8 :=
  if dataLen ≤ 7 then first + UInt8.ofNat dataLen
  else if dataLen ≤ 0xFF then first ||| 0x08
  else if dataLen ≤ 0xFFFF then first ||| 0x10
  else if dataLen ≤ 0xFFFFFF then first ||| 0x18
  else first

def headerType (isInstance : Bool) (type : DataType) : UInt8 :=
  (if isInstance then 0x40 else prvGetHeaderType type) &&& 0xC0

def prvCreateHeader (fresh : Vector UInt8 3) (isInstance : Bool) (type : DataType) (id : UInt16)
    (dataLen : Nat) : List UInt8 :=
  withLengthFlag (headerType isInstance type ||| (if 0xFF < id then 0x20 else 0x00)) dataLen ::
    (idBytes id ++ lengthBytes fresh dataLen)

/-! ## Writing -/

/-- A number that a `float` holds exactly is not rounded by the cast. -/
def prvEncodeFloat : FloatBits → List UInt8
  | .double bits _ _ => utilsCopyValue (LittleEndian.encode 8 bits.toNat)
  | .single bits _ => utilsCopyValue (LittleEndian.encode 4 bits.toNat)

def prvEncodeInt (data : Int64) : List UInt8 :=
  if -2 ^ 7 ≤ data.toInt ∧ data.toInt ≤ 2 ^ 7 - 1 then [data.toUInt64.toUInt8]
  else if -2 ^ 15 ≤ data.toInt ∧ data.toInt ≤ 2 ^ 15 - 1 then
    [(data.toUInt64.toUInt16 >>> 8 &&& 0xFF).toUInt8, (data.toUInt64.toUInt16 &&& 0xFF).toUInt8]
  else if -2 ^ 31 ≤ data.toInt ∧ data.toInt ≤ 2 ^ 31 - 1 then
    utilsCopyValue (LittleEndian.encode 4 data.toUInt64.toUInt32.toNat)
  else utilsCopyValue (LittleEndian.encode 8 data.toUInt64.toNat)

/-- The loop that fills `buf[k]` for `k` from 3 down to 0. -/
def objectLinkBytes (v : UInt32) : Nat → List UInt8
  | 0 => []
  | k + 1 => objectLinkBytes (v >>> 8) k ++ [(v &&& 0xFF).toUInt8]

/-- What stands behind the header, `none` for a type that is not written. -/
def Leaf.bytes : Leaf → Option (List UInt8)
  | .undefined => none
  | .object => none
  | .string buffer => some buffer
  | .opaqueBytes buffer => some buffer
  | .integer value => some (prvEncodeInt value)
  | .float bits => some (prvEncodeFloat bits)
  | .boolean value => some [if value then 1 else 0]
  | .objectLink objectId objectInstanceId =>
    some (objectLinkBytes (objectId.toUInt32 <<< 16 ||| objectInstanceId.toUInt32) 4)

mutual
def itemLength : Data → Option Nat
  | .leaf id value => do
    let bytes ← value.bytes
    some (prvGetHeaderLength id bytes.length + bytes.length)
  | .nested id _ children => do
    let subLength ← prvGetLength children
    some (prvGetHeaderLength id subLength + subLength)

/-- `none` is the -1 of the source. -/
def prvGetLength : List Data → Option Nat
  | [] => some 0
  | item :: rest => do
    let length ← itemLength item
    let more ← prvGetLength rest
    some (length + more)
end

/-- `tlv_serialize` around its loop: without a length there is nothing to write. -/
def allocated (length : Option Nat) (written : Option (List UInt8)) : Option (List UInt8) :=
  match length with
  | none => none
  | some 0 => some []
  | some (_ + 1) => written

mutual
def serializeItem (fresh : Vector UInt8 3) (isResourceInstance : Bool) :
    Data → Option (List UInt8)
  | .leaf id value => do
    let bytes ← value.bytes
    some (prvCreateHeader fresh isResourceInstance value.type id bytes.length ++ bytes)
  | .nested id type children => do
    let isInstance := isResourceInstance || type == .multipleResource
    let tmpBuffer ← allocated (prvGetLength children) (serializeItems fresh isInstance children)
    some (prvCreateHeader fresh false type.type id tmpBuffer.length ++ tmpBuffer)

/-- The loop of `tlv_serialize`. -/
def serializeItems (fresh : Vector UInt8 3) (isResourceInstance : Bool) :
    List Data → Option (List UInt8)
  | [] => some []
  | item :: rest => do
    let bytes ← serializeItem fresh isResourceInstance item
    let more ← serializeItems fresh isResourceInstance rest
    some (bytes ++ more)
end

/-- There is memory for the buffers of all levels. -/
def tlvSerialize (fresh : Vector UInt8 3) (isResourceInstance : Bool) (dataP : List Data) :
    Option (List UInt8) :=
  allocated (prvGetLength dataP) (serializeItems fresh isResourceInstance dataP)

/-! ## Reading -/

structure Decoded where
  type : DataType
  id : UInt16
  dataIndex : Nat
  dataLen : Nat
deriving DecidableEq, Repr

/-- The id and the index behind it; `none` where the source returns 0. -/
def decodeId (buffer : List UInt8) (first : UInt8) : Except Fault (Option (UInt16 × Nat)) :=
  if first &&& 0x20 = 0x20 then
    if buffer.length < 3 then .ok none
    else do
      let high ← access buffer[1]?
      let low ← access buffer[2]?
      .ok (some ((high.toUInt16 <<< 8) + low.toUInt16, 3))
  else do
    let id ← access buffer[1]?
    .ok (some (id.toUInt16, 2))

/-- The length and the index behind it. -/
def decodeLength (buffer : List UInt8) (first : UInt8) (dataIndex : Nat) :
    Except Fault (Option (Nat × Nat)) :=
  if first &&& 0x18 = 0x00 then .ok (some ((first &&& 0x07).toNat, dataIndex))
  else if first &&& 0x18 = 0x08 then
    if buffer.length < dataIndex + 1 then .ok none
    else do
      let b ← access buffer[dataIndex]?
      .ok (some (b.toNat, dataIndex + 1))
  else if first &&& 0x18 = 0x10 then
    if buffer.length < dataIndex + 2 then .ok none
    else do
      let b ← access buffer[dataIndex]?
      let c ← access buffer[dataIndex + 1]?
      .ok (some (b.toNat <<< 8 + c.toNat, dataIndex + 2))
  else if first &&& 0x18 = 0x18 then
    if buffer.length < dataIndex + 3 then .ok none
    else do
      let b ← access buffer[dataIndex]?
      let c ← access buffer[dataIndex + 1]?
      let d ← access buffer[dataIndex + 2]?
      .ok (some (b.toNat <<< 16 + c.toNat <<< 8 + d.toNat, dataIndex + 3))
  else .ok none

/-- `buffer` is what is left of the message. -/
def lwm2mDecodeTLV (buffer : List UInt8) : Except Fault (Option Decoded) :=
  if buffer.length < 2 then .ok none
  else do
    let first ← access buffer[0]?
    match ← decodeId buffer first with
    | none => .ok none
    | some (id, idIndex) =>
      match ← decodeLength buffer first idIndex with
      | none => .ok none
      | some (dataLen, dataIndex) =>
        if buffer.length < dataIndex + dataLen then .ok none
        else .ok (some ⟨prvGetDataType (first &&& 0xC0), id, dataIndex, dataLen⟩)

/-- What a length field says has at most 24 bits. -/
structure Decoded.Within (d : Decoded) (buffer : List UInt8) : Prop where
  header : prvGetHeaderLength d.id d.dataLen ≤ d.dataIndex
  data : d.dataIndex + d.dataLen ≤ buffer.length
  length : d.dataLen ≤ 0xFFFFFF

/-- The length of the id field and the bound that it sets to the id. -/
theorem decodeId_cases {buffer : List UInt8} (first : UInt8) (h : 2 ≤ buffer.length) :
    decodeId buffer first = .ok none ∨
      ∃ id dataIndex, decodeId buffer first = .ok (some (id, dataIndex)) ∧
        2 + (if 0xFF < id then 1 else 0) ≤ dataIndex := by
  unfold decodeId
  split
  · split
    · exact Or.inl rfl
    · rw [access_getElem? (by omega), access_getElem? (by omega)]
      refine Or.inr ⟨_, _, rfl, ?_⟩
      split
      · omega
      · omega
  · rw [access_getElem? (by omega)]
    refine Or.inr ⟨_, _, rfl, ?_⟩
    have hid : ¬ (0xFF : UInt16) < buffer[1].toUInt16 := by
      rw [UInt16.lt_iff_toNat_lt]
      have hb : buffer[1].toNat < 256 := buffer[1].toNat_lt
      simp only [UInt8.toNat_toUInt16, UInt16.reduceToNat]
      omega
    rw [if_neg hid]

theorem decodeLength_cases (buffer : List UInt8) (first : UInt8) (i : Nat) :
    decodeLength buffer first i = .ok none ∨
      ∃ dataLen dataIndex, decodeLength buffer first i = .ok (some (dataLen, dataIndex)) ∧
        i + (if 0xFFFF < dataLen then 3 else if 0xFF < dataLen then 2
          else if 7 < dataLen then 1 else 0) ≤ dataIndex ∧ dataLen ≤ 0xFFFFFF := by
  have byte : ∀ b : UInt8, b.toNat < 256 := fun b => b.toNat_lt
  unfold decodeLength
  split
  · refine Or.inr ⟨_, _, rfl, ?_⟩
    have hlow : (first &&& 0x07).toNat ≤ 7 := by
      rw [UInt8.toNat_and]
      exact Nat.and_le_right
    split_ifs <;> omega
  split
  · split
    · exact Or.inl rfl
    · rw [access_getElem? (by omega)]
      refine Or.inr ⟨_, _, rfl, ?_⟩
      have hb := byte buffer[i]
      split_ifs <;> omega
  split
  · split
    · exact Or.inl rfl
    · rw [access_getElem? (by omega), access_getElem? (by omega)]
      refine Or.inr ⟨_, _, rfl, ?_⟩
      have hb := byte buffer[i]
      have hc := byte buffer[i + 1]
      rw [Nat.shiftLeft_eq]
      split_ifs <;> omega
  split
  · split
    · exact Or.inl rfl
    · rw [access_getElem? (by omega), access_getElem? (by omega), access_getElem? (by omega)]
      refine Or.inr ⟨_, _, rfl, ?_⟩
      have hb := byte buffer[i]
      have hc := byte buffer[i + 1]
      have hd := byte buffer[i + 2]
      rw [Nat.shiftLeft_eq, Nat.shiftLeft_eq]
      split_ifs <;> omega
  · exact Or.inl rfl

/-- The bytes that are looked at are there, and so are those that are found. -/
theorem decodeTLV_cases (buffer : List UInt8) :
    lwm2mDecodeTLV buffer = .ok none ∨
      ∃ d, lwm2mDecodeTLV buffer = .ok (some d) ∧ d.Within buffer := by
  unfold lwm2mDecodeTLV
  split
  · exact Or.inl rfl
  · next hlen =>
    rw [access_getElem? (by omega), Lwm2mData.ok_bind]
    have htwo : 2 ≤ buffer.length := by omega
    rcases decodeId_cases buffer[0] htwo with hid | ⟨id, idIndex, hid, hheader⟩
    · exact Or.inl (by rw [hid]; rfl)
    rw [hid, Lwm2mData.ok_bind]
    rcases decodeLength_cases buffer buffer[0] idIndex with
      hlength | ⟨dataLen, dataIndex, hlength, hmore, hmax⟩
    · exact Or.inl (by simp only [hlength]; rfl)
    simp only [hlength, Lwm2mData.ok_bind]
    split
    · exact Or.inl rfl
    · have hdata : dataIndex + dataLen ≤ buffer.length := by omega
      have hindex : prvGetHeaderLength id dataLen ≤ dataIndex := by
        unfold prvGetHeaderLength
        omega
      exact Or.inr ⟨_, rfl, hindex, hdata, hmax⟩

theorem decodeTLV_within {buffer : List UInt8} {d : Decoded}
    (h : lwm2mDecodeTLV buffer = .ok (some d)) : d.Within buffer := by
  rcases decodeTLV_cases buffer with hnone | ⟨d', hsome, hd⟩
  · rw [hnone] at h
    cases h
  · rw [hsome] at h
    cases h
    exact hd

theorem Decoded.Within.two_le {d : Decoded} {buffer : List UInt8} (h : d.Within buffer) :
    2 ≤ d.dataIndex := by
  have hheader := h.header
  unfold prvGetHeaderLength at hheader
  omega

/-- The types whose items have children. -/
def DataType.nested : DataType → Option Nested
  | .objectInstance => some .objectInstance
  | .multipleResource => some .multipleResource
  | _ => none

def consItem (item : Data) (rest : Except Fault (Option (List Data))) :
    Except Fault (Option (List Data)) :=
  rest.map fun items => items.map (item :: ·)

/-- The loop of `tlv_parse`. An item without children where there should be some is `none`: all
that was read is freed. -/
def parseItems (buffer : List UInt8) : Except Fault (Option (List Data)) :=
  match _h : lwm2mDecodeTLV buffer with
  | .error fault => .error fault
  | .ok none => .ok (some [])
  | .ok (some d) =>
    match _hdata : slice buffer d.dataIndex d.dataLen with
    | .error fault => .error fault
    | .ok data =>
      match d.type.nested with
      | none =>
        consItem (.leaf d.id (.opaqueBytes data))
          (parseItems (buffer.drop (d.dataIndex + d.dataLen)))
      | some type =>
        match parseItems data with
        | .error fault => .error fault
        | .ok none => .ok none
        | .ok (some []) => .ok none
        | .ok (some (child :: children)) =>
          consItem (.nested d.id type (child :: children))
            (parseItems (buffer.drop (d.dataIndex + d.dataLen)))
termination_by buffer.length
decreasing_by
  all_goals
    have hwithin := decodeTLV_within _h
    have hheader := hwithin.two_le
    have hend := hwithin.data
    have hlen := slice_length _hdata
    first
    | omega
    | (simp only [List.length_drop]
       omega)

/-- The elements, none when the source returns 0. -/
def tlvParse (buffer : List UInt8) : Except Fault (List Data) :=
  (parseItems buffer).map fun items => items.getD []

/-! ## Reading item by item -/

theorem parseItems_end {buffer : List UInt8} (h : lwm2mDecodeTLV buffer = .ok none) :
    parseItems buffer = .ok (some []) := by
  rw [parseItems]
  split
  · next fault hfault =>
    rw [h] at hfault
    cases hfault
  · rfl
  · next d hd =>
    rw [h] at hd
    cases hd

/-- The items behind the first one. -/
def Decoded.rest (d : Decoded) (buffer : List UInt8) : List UInt8 :=
  buffer.drop (d.dataIndex + d.dataLen)

def Decoded.data (d : Decoded) (buffer : List UInt8) : List UInt8 :=
  (buffer.drop d.dataIndex).take d.dataLen

theorem parseItems_leaf {buffer : List UInt8} {d : Decoded}
    (h : lwm2mDecodeTLV buffer = .ok (some d)) (htype : d.type.nested = none) :
    parseItems buffer =
      consItem (.leaf d.id (.opaqueBytes (d.data buffer))) (parseItems (d.rest buffer)) := by
  have hslice := slice_eq (decodeTLV_within h).data
  rw [parseItems]
  split
  · next fault hfault =>
    rw [h] at hfault
    cases hfault
  · next hnone =>
    rw [h] at hnone
    cases hnone
  · next d' hd =>
    rw [h] at hd
    cases hd
    split
    · next fault hfault =>
      rw [hslice] at hfault
      cases hfault
    · next data hdata =>
      rw [hslice] at hdata
      cases hdata
      rw [htype]
      rfl

/-- What becomes of an item with children once these are read. -/
def withChildren (id : UInt16) (type : Nested) (rest : Except Fault (Option (List Data))) :
    Except Fault (Option (List Data)) → Except Fault (Option (List Data))
  | .error fault => .error fault
  | .ok none => .ok none
  | .ok (some []) => .ok none
  | .ok (some (child :: children)) => consItem (.nested id type (child :: children)) rest

theorem parseItems_nested {buffer : List UInt8} {d : Decoded} {type : Nested}
    (h : lwm2mDecodeTLV buffer = .ok (some d)) (htype : d.type.nested = some type) :
    parseItems buffer =
      withChildren d.id type (parseItems (d.rest buffer)) (parseItems (d.data buffer)) := by
  have hslice := slice_eq (decodeTLV_within h).data
  rw [parseItems]
  split
  · next fault hfault =>
    rw [h] at hfault
    cases hfault
  · next hnone =>
    rw [h] at hnone
    cases hnone
  · next d' hd =>
    rw [h] at hd
    cases hd
    split
    · next fault hfault =>
      rw [hslice] at hfault
      cases hfault
    · next data hdata =>
      rw [hslice] at hdata
      cases hdata
      rw [htype]
      unfold withChildren Decoded.rest Decoded.data
      rfl

end JsEmbeddedPlatform.Tlv
