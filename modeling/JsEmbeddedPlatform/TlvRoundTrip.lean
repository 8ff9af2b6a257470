import JsEmbeddedPlatform.Tlv
import Mathlib.Tactic.IntervalCases

/-!
# What is written as TLV is read again

The length that the writer computes beforehand is the number of bytes that it writes, and
the reader finds the same forest in them, its leaves as bytes.
-/

set_option autoImplicit false

namespace JsEmbeddedPlatform.Tlv

open Lwm2mData (Fault access utilsCopyValue)
open LittleEndian (getElem?_behind)

/-! ## Lengths -/

theorem idBytes_length (id : UInt16) : (idBytes id).length = if 0xFF < id then 2 else 1 := by
  unfold idBytes
  split
  · rfl
  · rfl

theorem lengthBytes_length (fresh : Vector UInt8 3) (n : Nat) :
    (lengthBytes fresh n).length =
      if 0xFFFF < n then 3 else if 0xFF < n then 2 else if 7 < n then 1 else 0 := by
  unfold lengthBytes
  split_ifs <;> first | omega | rfl | simp

theorem createHeader_length (fresh : Vector UInt8 3) (isInstance : Bool) (type : DataType)
    (id : UInt16) (n : Nat) :
    (prvCreateHeader fresh isInstance type id n).length = prvGetHeaderLength id n := by
  unfold prvCreateHeader prvGetHeaderLength
  rw [List.length_cons, List.length_append, idBytes_length, lengthBytes_length]
  split <;> omega

theorem allocated_eq {length : Option Nat} {written : Option (List UInt8)}
    (h : length = written.map List.length) : allocated length written = written := by
  subst h
  cases written with
  | none => rfl
  | some bytes =>
    cases bytes with
    | nil => rfl
    | cons b bytes => rfl

/-- The buffer that `tlv_serialize` allocates is filled to its end and not beyond. -/
theorem getLength_eq (fresh : Vector UInt8 3) (isResourceInstance : Bool) (items : List Data) :
    prvGetLength items = (serializeItems fresh isResourceInstance items).map List.length := by
  induction items using forest_induction generalizing isResourceInstance with
  | nil => rfl
  | leaf id value rest ih =>
    rw [prvGetLength, itemLength, serializeItems, serializeItem, ih isResourceInstance]
    cases value.bytes with
    | none => rfl
    | some bytes =>
      cases serializeItems fresh isResourceInstance rest with
      | none => rfl
      | some more =>
        simp only [Option.bind_eq_bind, Option.bind_some, Option.map_some, List.length_append,
          createHeader_length]
  | nested id type children rest ihChildren ihRest =>
    have hchildren := ihChildren (isResourceInstance || type == .multipleResource)
    rw [prvGetLength, itemLength, serializeItems, serializeItem, ihRest isResourceInstance,
      allocated_eq hchildren, hchildren]
    cases serializeItems fresh (isResourceInstance || type == .multipleResource) children with
    | none => rfl
    | some bytes =>
      cases serializeItems fresh isResourceInstance rest with
      | none => rfl
      | some more =>
        simp only [Option.bind_eq_bind, Option.bind_some, Option.map_some, List.length_append,
          createHeader_length]

theorem tlvSerialize_eq (fresh : Vector UInt8 3) (isResourceInstance : Bool)
    (items : List Data) :
    tlvSerialize fresh isResourceInstance items =
      serializeItems fresh isResourceInstance items :=
  allocated_eq (getLength_eq fresh isResourceInstance items)

/-! ## Headers -/

theorem headerType_cases (isInstance : Bool) (type : DataType) :
    headerType isInstance type ∈ [(0x00 : UInt8), 0x40, 0x80, 0xC0] := by
  cases isInstance <;> cases type <;> decide

/-- The three fields of the first byte do not disturb each other. -/
theorem firstByte_fields {t f : UInt8} (ht : t ∈ [(0x00 : UInt8), 0x40, 0x80, 0xC0])
    (hf : f ∈ [(0x00 : UInt8), 0x20]) (n : Nat) :
    withLengthFlag (t ||| f) n &&& 0xC0 = t ∧ withLengthFlag (t ||| f) n &&& 0x20 = f := by
  have small : ∀ t ∈ [(0x00 : UInt8), 0x40, 0x80, 0xC0], ∀ f ∈ [(0x00 : UInt8), 0x20], ∀ n < 8,
      ((t ||| f) + UInt8.ofNat n) &&& 0xC0 = t ∧ ((t ||| f) + UInt8.ofNat n) &&& 0x20 = f := by
    decide +kernel
  have flagged : ∀ t ∈ [(0x00 : UInt8), 0x40, 0x80, 0xC0], ∀ f ∈ [(0x00 : UInt8), 0x20],
      ∀ flag ∈ [(0x00 : UInt8), 0x08, 0x10, 0x18],
        (t ||| f ||| flag) &&& 0xC0 = t ∧ (t ||| f ||| flag) &&& 0x20 = f := by
    decide +kernel
  unfold withLengthFlag
  split_ifs with h7
  · exact small t ht f hf n (by omega)
  · exact flagged t ht f hf 0x08 (by decide)
  · exact flagged t ht f hf 0x10 (by decide)
  · exact flagged t ht f hf 0x18 (by decide)
  · have h0 := flagged t ht f hf 0x00 (by decide)
    rwa [UInt8.or_zero] at h0

theorem firstByte_small {t f : UInt8} (ht : t ∈ [(0x00 : UInt8), 0x40, 0x80, 0xC0])
    (hf : f ∈ [(0x00 : UInt8), 0x20]) {n : Nat} (hn : n ≤ 7) :
    ((t ||| f) + UInt8.ofNat n) &&& 0x18 = 0x00 ∧
      (((t ||| f) + UInt8.ofNat n) &&& 0x07).toNat = n := by
  have small : ∀ t ∈ [(0x00 : UInt8), 0x40, 0x80, 0xC0], ∀ f ∈ [(0x00 : UInt8), 0x20], ∀ n < 8,
      ((t ||| f) + UInt8.ofNat n) &&& 0x18 = 0x00 ∧
        (((t ||| f) + UInt8.ofNat n) &&& 0x07).toNat = n := by
    decide +kernel
  exact small t ht f hf n (by omega)

theorem firstByte_flag {t f : UInt8} (ht : t ∈ [(0x00 : UInt8), 0x40, 0x80, 0xC0])
    (hf : f ∈ [(0x00 : UInt8), 0x20]) (flag : UInt8)
    (hflag : flag ∈ [(0x08 : UInt8), 0x10, 0x18]) : (t ||| f ||| flag) &&& 0x18 = flag := by
  have flagged : ∀ t ∈ [(0x00 : UInt8), 0x40, 0x80, 0xC0], ∀ f ∈ [(0x00 : UInt8), 0x20],
      ∀ flag ∈ [(0x08 : UInt8), 0x10, 0x18], (t ||| f ||| flag) &&& 0x18 = flag := by
    decide +kernel
  exact flagged t ht f hf flag hflag

theorem idFlag_mem (id : UInt16) :
    (if 0xFF < id then 0x20 else 0x00 : UInt8) ∈ [(0x00 : UInt8), 0x20] := by
  split <;> decide

theorem idBytes_toNat (id : UInt16) :
    ((id >>> 8 &&& 0xFF).toUInt8.toUInt16 <<< 8) + (id &&& 0xFF).toUInt8.toUInt16 = id := by
  apply UInt16.toNat_inj.mp
  have hid : id.toNat < 65536 := id.toNat_lt
  have low : ∀ n : Nat, n &&& 255 = n % 256 := fun n => Nat.and_two_pow_sub_one_eq_mod n 8
  simp [UInt16.toNat_add, UInt16.toNat_shiftLeft, UInt16.toNat_shiftRight, Nat.shiftLeft_eq,
    Nat.shiftRight_eq_div_pow, low]
  omega

theorem decodeId_header {first : UInt8} {id : UInt16} (tail : List UInt8)
    (h : first &&& 0x20 = if 0xFF < id then 0x20 else 0x00) :
    decodeId (first :: (idBytes id ++ tail)) first =
      .ok (some (id, 1 + (idBytes id).length)) := by
  unfold decodeId idBytes
  rw [h]
  split
  · rw [if_pos rfl, if_neg (by simp)]
    exact congrArg (fun i => Except.ok (some (i, 3))) (idBytes_toNat id)
  · next hid =>
    rw [if_neg (by decide)]
    refine congrArg (fun i => Except.ok (some (i, 2))) ?_
    apply UInt16.toNat_inj.mp
    have hlow : id.toNat ≤ 255 := by
      rw [UInt16.lt_iff_toNat_lt] at hid
      simpa using hid
    simp only [UInt8.toNat_toUInt16, UInt16.toNat_toUInt8]
    omega

theorem decodeLength_header (fresh : Vector UInt8 3) {t f : UInt8}
    (ht : t ∈ [(0x00 : UInt8), 0x40, 0x80, 0xC0]) (hf : f ∈ [(0x00 : UInt8), 0x20]) {n : Nat}
    (hn : n ≤ 0xFFFFFF) (front tail : List UInt8) :
    decodeLength (front ++ (lengthBytes fresh n ++ tail)) (withLengthFlag (t ||| f) n)
      front.length = .ok (some (n, front.length + (lengthBytes fresh n).length)) := by
  have low : ∀ n : Nat, (UInt8.ofNat n).toNat = n % 256 := fun n => by simp
  have at0 : ∀ rest : List UInt8, (front ++ rest)[front.length]? = rest[0]? :=
    fun rest => getElem?_behind front rest 0
  unfold withLengthFlag lengthBytes
  split_ifs with h7 h8 h16
  · obtain ⟨hflag, hlow⟩ := firstByte_small ht hf h7
    rw [decodeLength, if_pos hflag, hlow]
    rfl
  · have hflag := firstByte_flag ht hf 0x08 (by decide)
    rw [decodeLength, hflag, if_neg (by decide), if_pos rfl, if_neg (by simp), at0]
    simp only [List.cons_append, List.getElem?_cons_zero, Lwm2mData.access_some,
      Lwm2mData.ok_bind, low, Nat.mod_eq_of_lt (show n < 256 by omega)]
    rfl
  · have hflag := firstByte_flag ht hf 0x10 (by decide)
    have hsplit : (n >>> 8 % 256) <<< 8 + n % 256 = n := by
      rw [Nat.shiftRight_eq_div_pow, Nat.shiftLeft_eq]
      omega
    rw [decodeLength, hflag, if_neg (by decide), if_neg (by decide), if_pos rfl, if_neg (by simp), at0,
      getElem?_behind]
    simp only [List.cons_append, List.getElem?_cons_zero, List.getElem?_cons_succ,
      Lwm2mData.access_some, Lwm2mData.ok_bind, low, hsplit]
    rfl
  · have hflag := firstByte_flag ht hf 0x18 (by decide)
    have hsplit : (n >>> 16 % 256) <<< 16 + (n >>> 8 % 256) <<< 8 + n % 256 = n := by
      rw [Nat.shiftRight_eq_div_pow, Nat.shiftRight_eq_div_pow, Nat.shiftLeft_eq,
        Nat.shiftLeft_eq]
      omega
    rw [decodeLength, hflag, if_neg (by decide), if_neg (by decide), if_neg (by decide), if_pos rfl,
      if_neg (by simp), at0, getElem?_behind, getElem?_behind]
    simp only [List.cons_append, List.getElem?_cons_zero, List.getElem?_cons_succ,
      Lwm2mData.access_some, Lwm2mData.ok_bind, low, hsplit]
    rfl

/-- A header is read as it was written, whatever follows the data. -/
theorem decodeTLV_header (fresh : Vector UInt8 3) (isInstance : Bool) (type : DataType)
    (id : UInt16) {data : List UInt8} (rest : List UInt8) (hdata : data.length ≤ 0xFFFFFF) :
    lwm2mDecodeTLV (prvCreateHeader fresh isInstance type id data.length ++ (data ++ rest)) =
      .ok (some ⟨prvGetDataType (headerType isInstance type), id,
        prvGetHeaderLength id data.length, data.length⟩) := by
  have ht := headerType_cases isInstance type
  have hf := idFlag_mem id
  have hheader := createHeader_length fresh isInstance type id data.length
  unfold prvCreateHeader at hheader ⊢
  generalize hfirst : withLengthFlag
    (headerType isInstance type ||| (if 0xFF < id then 0x20 else 0x00)) data.length = first
    at hheader ⊢
  obtain ⟨htype, hflag⟩ := firstByte_fields ht hf data.length
  rw [hfirst] at htype hflag
  have hlength := decodeLength_header fresh ht hf hdata (first :: idBytes id) (data ++ rest)
  rw [hfirst, List.length_cons, Nat.add_comm (idBytes id).length] at hlength
  rw [lwm2mDecodeTLV, if_neg, List.cons_append, List.append_assoc, List.getElem?_cons_zero,
    Lwm2mData.access_some, Lwm2mData.ok_bind, decodeId_header _ hflag, Lwm2mData.ok_bind]
  · simp only [List.cons_append] at hlength
    simp only [hlength, Lwm2mData.ok_bind, htype]
    simp only [List.length_cons, List.length_append] at hheader ⊢
    have hindex : 1 + (idBytes id).length + (lengthBytes fresh data.length).length =
        prvGetHeaderLength id data.length := by omega
    rw [if_neg (by omega), hindex]
  · have hid := idBytes_length id
    simp only [List.length_cons, List.length_append]
    split at hid <;> omega

/-! ## The forest -/

mutual
/-- What the reader knows of an item. -/
def Data.parsed : Data → Data
  | .leaf id value => .leaf id (.opaqueBytes (value.bytes.getD []))
  | .nested id type children => .nested id type (parsedItems children)

def parsedItems : List Data → List Data
  | [] => []
  | item :: rest => item.parsed :: parsedItems rest
end

mutual
/-- An item that has no children where it should have some. -/
def Data.childless : Data → Bool
  | .leaf _ _ => false
  | .nested _ _ children => children.isEmpty || childless children

def childless : List Data → Bool
  | [] => false
  | item :: rest => item.childless || childless rest
end

mutual
/-- Every length has at most 24 bits. -/
def Data.fits : Data → Bool
  | .leaf _ value => value.bytes.any (·.length ≤ 0xFFFFFF)
  | .nested _ _ children => fits children && (prvGetLength children).any (· ≤ 0xFFFFFF)

def fits : List Data → Bool
  | [] => true
  | item :: rest => item.fits && fits rest
end

theorem leaf_type (isInstance : Bool) {value : Leaf} {bytes : List UInt8}
    (h : value.bytes = some bytes) :
    (prvGetDataType (headerType isInstance value.type)).nested = none := by
  have all : ∀ isInstance : Bool, ∀ type ∈ [DataType.string, .opaqueBytes, .integer, .float,
      .boolean, .objectLink], (prvGetDataType (headerType isInstance type)).nested = none := by
    decide +kernel
  apply all
  cases value with
  | undefined => cases h
  | object => cases h
  | _ => simp [Leaf.type]

theorem nested_type (type : Nested) :
    (prvGetDataType (headerType false type.type)).nested = some type := by
  cases type <;> decide

theorem Decoded.data_header {d : Decoded} {header data : List UInt8} (rest : List UInt8)
    (hindex : d.dataIndex = header.length) (hlength : d.dataLen = data.length) :
    d.data (header ++ (data ++ rest)) = data := by
  rw [Decoded.data, hindex, hlength, List.drop_left, List.take_left]

theorem Decoded.rest_header {d : Decoded} {header data : List UInt8} (rest : List UInt8)
    (hindex : d.dataIndex = header.length) (hlength : d.dataLen = data.length) :
    d.rest (header ++ (data ++ rest)) = rest := by
  rw [Decoded.rest, hindex, hlength, ← List.append_assoc, ← List.length_append, List.drop_left]

theorem parseItems_header_leaf (fresh : Vector UInt8 3) (isInstance : Bool) (id : UInt16)
    {value : Leaf} {bytes : List UInt8} (rest : List UInt8) (h : value.bytes = some bytes)
    (hfits : bytes.length ≤ 0xFFFFFF) :
    parseItems (prvCreateHeader fresh isInstance value.type id bytes.length ++ (bytes ++ rest)) =
      consItem (.leaf id (.opaqueBytes bytes)) (parseItems rest) := by
  rw [parseItems_leaf (decodeTLV_header fresh isInstance value.type id rest hfits)
    (leaf_type isInstance h)]
  have hindex := (createHeader_length fresh isInstance value.type id bytes.length).symm
  rw [Decoded.data_header rest hindex rfl, Decoded.rest_header rest hindex rfl]

theorem parseItems_header_nested (fresh : Vector UInt8 3) (id : UInt16) (type : Nested)
    {bytes : List UInt8} (rest : List UInt8) (hfits : bytes.length ≤ 0xFFFFFF) :
    parseItems (prvCreateHeader fresh false type.type id bytes.length ++ (bytes ++ rest)) =
      withChildren id type (parseItems rest) (parseItems bytes) := by
  rw [parseItems_nested (decodeTLV_header fresh false type.type id rest hfits)
    (nested_type type)]
  have hindex := (createHeader_length fresh false type.type id bytes.length).symm
  rw [Decoded.data_header rest hindex rfl, Decoded.rest_header rest hindex rfl]

theorem serializeItems_leaf {fresh : Vector UInt8 3} {isResourceInstance : Bool} {id : UInt16}
    {value : Leaf} {rest : List Data} {bytes : List UInt8}
    (h : serializeItems fresh isResourceInstance (.leaf id value :: rest) = some bytes) :
    ∃ data more, value.bytes = some data ∧
      serializeItems fresh isResourceInstance rest = some more ∧
      bytes = prvCreateHeader fresh isResourceInstance value.type id data.length ++
        (data ++ more) := by
  rw [serializeItems, serializeItem] at h
  obtain ⟨item, hitem, h⟩ := Option.bind_eq_some_iff.mp h
  obtain ⟨data, hdata, hitem⟩ := Option.bind_eq_some_iff.mp hitem
  obtain ⟨more, hmore, h⟩ := Option.bind_eq_some_iff.mp h
  cases hitem
  cases h
  exact ⟨data, more, hdata, hmore, by rw [List.append_assoc]⟩

theorem serializeItems_nested {fresh : Vector UInt8 3} {isResourceInstance : Bool} {id : UInt16}
    {type : Nested} {children rest : List Data} {bytes : List UInt8}
    (h : serializeItems fresh isResourceInstance (.nested id type children :: rest) =
      some bytes) :
    ∃ isInstance data more, serializeItems fresh isInstance children = some data ∧
      serializeItems fresh isResourceInstance rest = some more ∧
      bytes = prvCreateHeader fresh false type.type id data.length ++ (data ++ more) := by
  rw [serializeItems, serializeItem, allocated_eq (getLength_eq _ _ _)] at h
  obtain ⟨item, hitem, h⟩ := Option.bind_eq_some_iff.mp h
  obtain ⟨data, hdata, hitem⟩ := Option.bind_eq_some_iff.mp hitem
  obtain ⟨more, hmore, h⟩ := Option.bind_eq_some_iff.mp h
  cases hitem
  cases h
  exact ⟨_, data, more, hdata, hmore, by rw [List.append_assoc]⟩

theorem fits_nested {id : UInt16} {type : Nested} {children rest : List Data}
    (h : fits (.nested id type children :: rest)) :
    fits children ∧ fits rest ∧ ∀ n, prvGetLength children = some n → n ≤ 0xFFFFFF := by
  rw [fits, Data.fits, Bool.and_eq_true, Bool.and_eq_true, Option.any_eq_true] at h
  obtain ⟨⟨hchildren, n, hn, hlen⟩, hrest⟩ := h
  refine ⟨hchildren, hrest, ?_⟩
  intro m hm
  rw [hn] at hm
  cases hm
  simpa using hlen

theorem fits_leaf {id : UInt16} {value : Leaf} {rest : List Data}
    (h : fits (.leaf id value :: rest)) :
    fits rest ∧ ∀ data, value.bytes = some data → data.length ≤ 0xFFFFFF := by
  rw [fits, Data.fits, Bool.and_eq_true, Option.any_eq_true] at h
  obtain ⟨⟨bytes, hbytes, hlen⟩, hrest⟩ := h
  refine ⟨hrest, ?_⟩
  intro data hdata
  rw [hbytes] at hdata
  cases hdata
  simpa using hlen

theorem parseItems_serializeItems (fresh : Vector UInt8 3) {isResourceInstance : Bool}
    {items : List Data} {bytes : List UInt8} (hfits : fits items)
    (h : serializeItems fresh isResourceInstance items = some bytes) :
    parseItems bytes = .ok (if childless items then none else some (parsedItems items)) := by
  induction items using forest_induction generalizing isResourceInstance bytes with
  | nil =>
    cases h
    exact parseItems_end rfl
  | leaf id value rest ih =>
    obtain ⟨hrest, hlen⟩ := fits_leaf hfits
    obtain ⟨data, more, hdata, hmore, rfl⟩ := serializeItems_leaf h
    rw [parseItems_header_leaf fresh isResourceInstance id more hdata (hlen data hdata),
      ih hrest hmore, childless, Data.childless, parsedItems, Data.parsed, hdata, Bool.false_or]
    cases childless rest <;> rfl
  | nested id type children rest ihChildren ihRest =>
    obtain ⟨hchildren, hrest, hlen⟩ := fits_nested hfits
    obtain ⟨isInstance, data, more, hdata, hmore, rfl⟩ := serializeItems_nested h
    have hlength : prvGetLength children = some data.length := by
      rw [getLength_eq fresh isInstance, hdata]
      rfl
    rw [parseItems_header_nested fresh id type more (hlen _ hlength), ihChildren hchildren hdata,
      ihRest hrest hmore, childless, Data.childless, parsedItems, Data.parsed]
    cases children with
    | nil => rfl
    | cons child children =>
      cases childless (child :: children) with
      | true => rfl
      | false => cases childless rest <;> rfl

theorem getLength_of_fits {items : List Data} (h : fits items) : ∃ n, prvGetLength items = some n := by
  induction items using forest_induction with
  | nil => exact ⟨0, rfl⟩
  | leaf id value rest ih =>
    rw [fits, Data.fits, Bool.and_eq_true, Option.any_eq_true] at h
    obtain ⟨⟨data, hdata, _⟩, hrest⟩ := h
    obtain ⟨n, hn⟩ := ih hrest
    rw [prvGetLength, itemLength, hdata, hn]
    exact ⟨_, rfl⟩
  | nested id type children rest ihChildren ihRest =>
    obtain ⟨hchildren, hrest, _⟩ := fits_nested h
    obtain ⟨m, hm⟩ := ihChildren hchildren
    obtain ⟨n, hn⟩ := ihRest hrest
    rw [prvGetLength, itemLength, hm, hn]
    exact ⟨_, rfl⟩

theorem serializeItems_of_fits (fresh : Vector UInt8 3) (isResourceInstance : Bool)
    {items : List Data} (h : fits items) :
    ∃ bytes, serializeItems fresh isResourceInstance items = some bytes ∧
      prvGetLength items = some bytes.length := by
  obtain ⟨n, hn⟩ := getLength_of_fits h
  have hlength := getLength_eq fresh isResourceInstance items
  rw [hn] at hlength
  obtain ⟨bytes, hbytes, hsize⟩ := Option.map_eq_some_iff.mp hlength.symm
  exact ⟨bytes, hbytes, by rw [hn, hsize]⟩

/-- What the reader returns for what the writer has written into a buffer that it fills: the same
items, with bytes in place of the values, or nothing at all where an item lacks its children. -/
theorem tlvParse_tlvSerialize (fresh : Vector UInt8 3) (isResourceInstance : Bool)
    (items : List Data) (hfits : fits items) :
    ∃ bytes, tlvSerialize fresh isResourceInstance items = some bytes ∧
      prvGetLength items = some bytes.length ∧
      tlvParse bytes = .ok (if childless items then [] else parsedItems items) := by
  obtain ⟨bytes, hbytes, hlength⟩ := serializeItems_of_fits fresh isResourceInstance hfits
  refine ⟨bytes, (tlvSerialize_eq fresh isResourceInstance items).trans hbytes, hlength, ?_⟩
  rw [tlvParse, parseItems_serializeItems fresh hfits hbytes]
  cases childless items <;> rfl

theorem tlvParse_tlvSerialize_instance :
    ∃ bytes, tlvSerialize (Vector.replicate 3 0xAA) false
        [.nested 1 .objectInstance [.leaf 300 (.integer (-2)),
          .nested 6 .multipleResource [.leaf 0 (.boolean true)]]] = some bytes ∧
      prvGetLength [.nested 1 .objectInstance [.leaf 300 (.integer (-2)),
          .nested 6 .multipleResource [.leaf 0 (.boolean true)]]] = some bytes.length ∧
      tlvParse bytes = .ok [.nested 1 .objectInstance [.leaf 300 (.opaqueBytes [0xFE]),
          .nested 6 .multipleResource [.leaf 0 (.opaqueBytes [1])]]] :=
  tlvParse_tlvSerialize (Vector.replicate 3 0xAA) false [.nested 1 .objectInstance
    [.leaf 300 (.integer (-2)), .nested 6 .multipleResource [.leaf 0 (.boolean true)]]] (by decide)

/-! ## The values -/

theorem toInt_eq (v : Int64) :
    v.toInt = if v.toUInt64.toNat < 2 ^ 63 then (v.toUInt64.toNat : Int)
      else v.toUInt64.toNat - 2 ^ 64 := by
  have h := BitVec.toInt_eq_toNat_cond v.toBitVec
  rw [show v.toInt = v.toBitVec.toInt from rfl, show v.toUInt64.toNat = v.toBitVec.toNat from rfl,
    h]
  split_ifs <;> omega

theorem copyValue_copyValue {w n : Nat} (h : n < 256 ^ w) :
    LittleEndian.decode (utilsCopyValue (utilsCopyValue (LittleEndian.encode w n))) = n := by
  unfold utilsCopyValue
  rw [List.reverse_reverse, LittleEndian.decode_encode h]

theorem copyValue_length (w n : Nat) :
    (utilsCopyValue (LittleEndian.encode w n)).length = w := by
  rw [utilsCopyValue, List.length_reverse, LittleEndian.length_encode]

theorem low16_bytes (n : UInt16) :
    LittleEndian.decode (utilsCopyValue [(n >>> 8 &&& 0xFF).toUInt8, (n &&& 0xFF).toUInt8]) =
      n.toNat := by
  have hn : n.toNat < 65536 := n.toNat_lt
  have low : ∀ m : Nat, m &&& 255 = m % 256 := fun m => Nat.and_two_pow_sub_one_eq_mod m 8
  simp [utilsCopyValue, LittleEndian.decode, UInt16.toNat_shiftRight, Nat.shiftRight_eq_div_pow,
    low]
  omega

theorem decodeInt_bytes {bytes : List UInt8} {w n : Nat} (hlen : bytes.length = w)
    (hw : w ∈ [1, 2, 4, 8]) (hn : LittleEndian.decode (utilsCopyValue bytes) = n) :
    Lwm2mData.lwm2mDataDecodeInt (.opaqueBytes bytes) =
      some (BitVec.ofNat (8 * w) n).toInt := by
  subst hlen
  subst hn
  rw [Lwm2mData.lwm2mDataDecodeInt, if_pos hw]

/-- An integer takes 1, 2, 4 or 8 bytes, and these stand for it. -/
theorem decodeInt_encodeInt (v : Int64) :
    Lwm2mData.lwm2mDataDecodeInt (.opaqueBytes (prvEncodeInt v)) = some v.toInt := by
  have hv := toInt_eq v
  have hlt : v.toUInt64.toNat < 2 ^ 64 := v.toUInt64.toNat_lt
  unfold prvEncodeInt
  split_ifs with h8 h16 h32
  · have hbyte : LittleEndian.decode (utilsCopyValue [v.toUInt64.toUInt8]) =
        v.toUInt64.toNat % 2 ^ 8 := by
      simp [utilsCopyValue, LittleEndian.decode]
    rw [decodeInt_bytes (w := 1) rfl (by decide) hbyte, BitVec.toInt_eq_toNat_cond, BitVec.toNat_ofNat]
    simp only [Option.some.injEq]
    split_ifs at hv ⊢ <;> omega
  · rw [decodeInt_bytes (w := 2) rfl (by decide) (low16_bytes _), UInt64.toNat_toUInt16,
      BitVec.toInt_eq_toNat_cond, BitVec.toNat_ofNat]
    simp only [Option.some.injEq]
    split_ifs at hv ⊢ <;> omega
  · have hfit : v.toUInt64.toUInt32.toNat < 256 ^ 4 := v.toUInt64.toUInt32.toNat_lt
    rw [decodeInt_bytes (copyValue_length 4 _) (by decide) (copyValue_copyValue hfit),
      UInt64.toNat_toUInt32, BitVec.toInt_eq_toNat_cond, BitVec.toNat_ofNat]
    simp only [Option.some.injEq]
    split_ifs at hv ⊢ <;> omega
  · have hfit : v.toUInt64.toNat < 256 ^ 8 := hlt
    rw [decodeInt_bytes (copyValue_length 8 _) (by decide) (copyValue_copyValue hfit),
      BitVec.toInt_eq_toNat_cond, BitVec.toNat_ofNat]
    simp only [Option.some.injEq]
    split_ifs at hv ⊢ <;> omega

theorem decode_objectLinkBytes (k : Nat) (v : UInt32) :
    LittleEndian.decode (utilsCopyValue (objectLinkBytes v k)) = v.toNat % 256 ^ k := by
  unfold utilsCopyValue
  induction k generalizing v with
  | zero => simp [objectLinkBytes, LittleEndian.decode, Nat.mod_one]
  | succ k ih =>
    have low : v.toNat &&& 255 = v.toNat % 256 := Nat.and_two_pow_sub_one_eq_mod v.toNat 8
    rw [objectLinkBytes, List.reverse_concat, LittleEndian.decode, ih, Nat.pow_succ,
      Nat.mul_comm (256 ^ k), Nat.mod_mul]
    simp only [UInt32.toNat_shiftRight, UInt32.toNat_toUInt8, UInt32.toNat_and,
      UInt32.reduceToNat, low, Nat.shiftRight_eq_div_pow, Nat.reduceMod, Nat.reducePow,
      Nat.mod_mod]

theorem link_toNat (objectId objectInstanceId : UInt16) :
    (objectId.toUInt32 <<< 16 ||| objectInstanceId.toUInt32).toNat =
      2 ^ 16 * objectId.toNat + objectInstanceId.toNat := by
  have ho : objectId.toNat < 2 ^ 16 := objectId.toNat_lt
  have hi : objectInstanceId.toNat < 2 ^ 16 := objectInstanceId.toNat_lt
  rw [Nat.two_pow_add_eq_or_of_lt hi]
  simp only [UInt32.toNat_or, UInt32.toNat_shiftLeft, UInt16.toNat_toUInt32, UInt32.reduceToNat,
    Nat.shiftLeft_eq, Nat.reduceMod, Nat.reducePow]
  congr 1
  omega

/-- What the bytes of a leaf still say about its value. -/
def Leaf.ReadAs (value : Leaf) (bytes : List UInt8) : Prop :=
  match value with
  | .undefined => False
  | .object => False
  | .string buffer => bytes = buffer
  | .opaqueBytes buffer => bytes = buffer
  | .integer v => Lwm2mData.lwm2mDataDecodeInt (.opaqueBytes bytes) = some v.toInt
  | .float (.single bits _) =>
    bytes.length = 4 ∧ LittleEndian.decode (utilsCopyValue bytes) = bits.toNat
  | .float (.double bits _ _) =>
    bytes.length = 8 ∧ LittleEndian.decode (utilsCopyValue bytes) = bits.toNat
  | .boolean v => Lwm2mData.lwm2mDataDecodeBool (.opaqueBytes bytes) = some v
  | .objectLink objectId objectInstanceId =>
    LittleEndian.decode (utilsCopyValue bytes) =
      2 ^ 16 * objectId.toNat + objectInstanceId.toNat

theorem Leaf.readAs_bytes {value : Leaf} {bytes : List UInt8} (h : value.bytes = some bytes) :
    value.ReadAs bytes := by
  cases value with
  | undefined => cases h
  | object => cases h
  | string buffer =>
    cases h
    rfl
  | opaqueBytes buffer =>
    cases h
    rfl
  | integer v =>
    cases h
    exact decodeInt_encodeInt v
  | float bits =>
    cases h
    cases bits with
    | single bits finite => exact ⟨copyValue_length 4 _, copyValue_copyValue bits.toNat_lt⟩
    | double bits beyond number => exact ⟨copyValue_length 8 _, copyValue_copyValue bits.toNat_lt⟩
  | boolean v =>
    cases h
    cases v <;> rfl
  | objectLink objectId objectInstanceId =>
    cases h
    have ho : objectId.toNat < 2 ^ 16 := objectId.toNat_lt
    have hi : objectInstanceId.toNat < 2 ^ 16 := objectInstanceId.toNat_lt
    rw [Leaf.ReadAs, decode_objectLinkBytes, link_toNat]
    exact Nat.mod_eq_of_lt (by omega)

/-- The forest has kept its form, its ids and, in its bytes, its values. -/
inductive Reads : List Data → List Data → Prop where
  | nil : Reads [] []
  | leaf {id : UInt16} {value : Leaf} {bytes : List UInt8} {rest read : List Data} :
      value.ReadAs bytes → Reads rest read →
      Reads (.leaf id value :: rest) (.leaf id (.opaqueBytes bytes) :: read)
  | nested {id : UInt16} {type : Nested} {children below rest read : List Data} :
      Reads children below → Reads rest read →
      Reads (.nested id type children :: rest) (.nested id type below :: read)

theorem reads_parsedItems {items : List Data} (h : fits items) :
    Reads items (parsedItems items) := by
  induction items using forest_induction with
  | nil => exact .nil
  | leaf id value rest ih =>
    obtain ⟨n, hn⟩ := getLength_of_fits h
    obtain ⟨hrest, _⟩ := fits_leaf h
    rw [prvGetLength, itemLength] at hn
    rw [parsedItems, Data.parsed]
    cases hbytes : value.bytes with
    | none =>
      rw [hbytes] at hn
      cases hn
    | some bytes => exact .leaf (Leaf.readAs_bytes hbytes) (ih hrest)
  | nested id type children rest ihChildren ihRest =>
    obtain ⟨hchildren, hrest, _⟩ := fits_nested h
    exact .nested (ihChildren hchildren) (ihRest hrest)

/-- A forest whose items all have their children survives: no value is lost on the way. -/
theorem tlvParse_reads (fresh : Vector UInt8 3) (isResourceInstance : Bool) {items : List Data}
    (hfits : fits items) (hchildren : childless items = false) :
    ∃ bytes read, tlvSerialize fresh isResourceInstance items = some bytes ∧
      tlvParse bytes = .ok read ∧ Reads items read := by
  obtain ⟨bytes, hbytes, _⟩ := serializeItems_of_fits fresh isResourceInstance hfits
  refine ⟨bytes, parsedItems items,
    (tlvSerialize_eq fresh isResourceInstance items).trans hbytes, ?_, reads_parsedItems hfits⟩
  rw [tlvParse, parseItems_serializeItems fresh hfits hbytes, hchildren]
  rfl

theorem tlvParse_reads_server :
    ∃ bytes read, tlvSerialize (Vector.replicate 3 0) false
        [.nested 0 .objectInstance [.leaf 1 (.integer 86400), .leaf 6 (.boolean true),
          .leaf 7 (.string [85])]] = some bytes ∧
      tlvParse bytes = .ok read ∧
      Reads [.nested 0 .objectInstance [.leaf 1 (.integer 86400), .leaf 6 (.boolean true),
        .leaf 7 (.string [85])]] read :=
  tlvParse_reads (Vector.replicate 3 0) false (by decide) (by decide)

/-! ## What the reader accepts -/

/-- What can come out of the reader: every leaf is bytes, every other item has children, and the
writer needs at most `room` bytes for it. -/
structure Accepted (items : List Data) (room : Nat) : Prop where
  fits : fits items
  children : childless items = false
  parsed : parsedItems items = items
  length : ∃ n, prvGetLength items = some n ∧ n ≤ room

theorem Accepted.nil (room : Nat) : Accepted [] room :=
  ⟨rfl, rfl, rfl, 0, rfl, Nat.zero_le room⟩

theorem getHeaderLength_mono (id : UInt16) {m n : Nat} (h : m ≤ n) :
    prvGetHeaderLength id m ≤ prvGetHeaderLength id n := by
  unfold prvGetHeaderLength
  split_ifs <;> omega

theorem Accepted.leaf {rest : List Data} {m room : Nat} (id : UInt16) {data : List UInt8}
    (h : Accepted rest m) (hdata : data.length ≤ 0xFFFFFF)
    (hroom : prvGetHeaderLength id data.length + data.length + m ≤ room) :
    Accepted (.leaf id (.opaqueBytes data) :: rest) room := by
  obtain ⟨n, hn, hle⟩ := h.length
  refine ⟨?_, ?_, ?_, prvGetHeaderLength id data.length + data.length + n, ?_, by omega⟩
  · rw [Tlv.fits, h.fits, Bool.and_true]
    simpa [Data.fits, Leaf.bytes] using hdata
  · rw [childless, h.children]
    rfl
  · rw [parsedItems, h.parsed]
    rfl
  · rw [prvGetLength, hn]
    rfl

theorem Accepted.nested {rest : List Data} {child : Data} {children : List Data} {k m room : Nat}
    (id : UInt16) (type : Nested) (hchildren : Accepted (child :: children) k)
    (hk : k ≤ 0xFFFFFF) (h : Accepted rest m) (hroom : prvGetHeaderLength id k + k + m ≤ room) :
    Accepted (.nested id type (child :: children) :: rest) room := by
  obtain ⟨j, hj, hjk⟩ := hchildren.length
  obtain ⟨n, hn, hnm⟩ := h.length
  have hmono := getHeaderLength_mono id hjk
  refine ⟨?_, ?_, ?_, prvGetHeaderLength id j + j + n, ?_, by omega⟩
  · rw [Tlv.fits, h.fits, Data.fits, hchildren.fits, hj, Bool.and_true, Bool.true_and,
      Option.any_some]
    exact decide_eq_true (by omega)
  · rw [childless, h.children, Data.childless, hchildren.children]
    rfl
  · rw [parsedItems, h.parsed, Data.parsed, hchildren.parsed]
  · rw [prvGetLength, hn, itemLength, hj]
    rfl

theorem parseItems_accepted (buffer : List UInt8) :
    ∃ read, parseItems buffer = .ok read ∧ ∀ items ∈ read, Accepted items buffer.length := by
  induction hlen : buffer.length using Nat.strong_induction_on generalizing buffer with
  | _ length ih =>
    subst hlen
    rcases decodeTLV_cases buffer with hnone | ⟨d, hd, hwithin⟩
    · refine ⟨_, parseItems_end hnone, ?_⟩
      intro items hitems
      cases hitems
      exact .nil _
    have htwo := hwithin.two_le
    have hend := hwithin.data
    have hheader := hwithin.header
    have hrestLen : (d.rest buffer).length = buffer.length - (d.dataIndex + d.dataLen) :=
      List.length_drop
    have hdataLen : (d.data buffer).length = d.dataLen := by
      rw [Decoded.data, List.length_take, List.length_drop]
      omega
    obtain ⟨readRest, hrest, hrestSpec⟩ := ih _ (by omega) _ hrestLen
    cases htype : d.type.nested with
    | none =>
      rw [parseItems_leaf hd htype, hrest]
      refine ⟨_, rfl, ?_⟩
      intro items hitems
      obtain ⟨rest, hmem, rfl⟩ := Option.map_eq_some_iff.mp hitems
      refine (hrestSpec rest hmem).leaf d.id ?_ ?_
      · rw [hdataLen]
        exact hwithin.length
      · rw [hdataLen]
        omega
    | some type =>
      obtain ⟨readChildren, hchildren, hchildrenSpec⟩ := ih _ (by omega) _ hdataLen
      rw [parseItems_nested hd htype, hrest, hchildren]
      cases readChildren with
      | none => exact ⟨_, rfl, by simp⟩
      | some children =>
        cases children with
        | nil => exact ⟨_, rfl, by simp⟩
        | cons child children =>
          refine ⟨_, rfl, ?_⟩
          intro items hitems
          obtain ⟨rest, hmem, rfl⟩ := Option.map_eq_some_iff.mp hitems
          have hchild := hchildrenSpec _ rfl
          refine Accepted.nested d.id type hchild hwithin.length (hrestSpec rest hmem) ?_
          omega

theorem tlvParse_accepted (buffer : List UInt8) :
    ∃ items, tlvParse buffer = .ok items ∧ Accepted items buffer.length := by
  obtain ⟨read, hread, hspec⟩ := parseItems_accepted buffer
  refine ⟨read.getD [], by rw [tlvParse, hread]; rfl, ?_⟩
  cases read with
  | none => exact .nil _
  | some items => exact hspec items rfl

/-- Whatever the bytes are, none outside of the buffer is read, and what is accepted can be written
again: it takes no more bytes than it was read from and is read as what it was. -/
theorem tlvParse_normal (fresh : Vector UInt8 3) (isResourceInstance : Bool)
    (buffer : List UInt8) :
    ∃ items bytes, tlvParse buffer = .ok items ∧ childless items = false ∧
      tlvSerialize fresh isResourceInstance items = some bytes ∧
      bytes.length ≤ buffer.length ∧ tlvParse bytes = .ok items := by
  obtain ⟨items, hitems, hacc⟩ := tlvParse_accepted buffer
  obtain ⟨bytes, hbytes, hlength⟩ :=
    serializeItems_of_fits fresh isResourceInstance hacc.fits
  obtain ⟨n, hn, hle⟩ := hacc.length
  rw [hn] at hlength
  cases hlength
  refine ⟨items, bytes, hitems, hacc.children,
    (tlvSerialize_eq fresh isResourceInstance items).trans hbytes, hle, ?_⟩
  rw [tlvParse, parseItems_serializeItems fresh hacc.fits hbytes, hacc.children, hacc.parsed]
  rfl

end JsEmbeddedPlatform.Tlv
