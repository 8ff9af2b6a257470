import JsEmbeddedPlatform.Lwm2mData
import Mathlib.Data.Finset.Insert

/-!
# CoAP messages

The packet of the CoAP library with the setters of its fields, the writer and the reader.
The fields of a packet that have no bit in the option map are not written; the reader goes
over the bytes of a datagram and keeps what it knows.
-/

set_option autoImplicit false

namespace JsEmbeddedPlatform.Coap

open Lwm2mData (Fault access access_getElem? slice slice_eq slice_length)

def coapHeaderLen : Nat := 4
def coapEtagLen : Nat := 8
def coapTokenLen : Nat := 8
def coapMaxAcceptNum : Nat := 2
def coapMaxOptionHeaderLen : Nat := 5

def coapOptionIfMatch : Nat := 1
def coapOptionUriHost : Nat := 3
def coapOptionEtag : Nat := 4
def coapOptionIfNoneMatch : Nat := 5
def coapOptionObserve : Nat := 6
def coapOptionUriPort : Nat := 7
def coapOptionLocationPath : Nat := 8
def coapOptionUriPath : Nat := 11
def coapOptionContentType : Nat := 12
def coapOptionMaxAge : Nat := 14
def coapOptionUriQuery : Nat := 15
def coapOptionAccept : Nat := 17
def coapOptionToken : Nat := 19
def coapOptionLocationQuery : Nat := 20
def coapOptionBlock2 : Nat := 23
def coapOptionBlock1 : Nat := 27
def coapOptionSize : Nat := 28
def coapOptionProxyUri : Nat := 35

def noError : UInt8 := 0
def badRequest400 : UInt8 := 128
def badOption402 : UInt8 := 130
def proxyingNotSupported505 : UInt8 := 165

inductive MessageType where
  | con
  | non
  | ack
  | rst
deriving DecidableEq, Repr

structure Block where
  num : UInt32 := 0
  more : UInt8 := 0
  size : UInt16 := 0
  offset : UInt32 := 0
deriving DecidableEq, Repr

/-- `coap_packet_t`. A pointer and its length are one list, so are the chained `multi_option_t`;
`options` are the numbers whose bit is set. -/
structure Packet where
  version : UInt8 := 0
  type : MessageType
  code : UInt8
  mid : UInt16
  options : Finset Nat := ∅
  contentType : UInt32 := 0
  maxAge : UInt32 := 0
  proxyUri : List UInt8 := []
  etag : List UInt8 := []
  uriHost : List UInt8 := []
  locationPath : List (List UInt8) := []
  uriPort : UInt16 := 0
  locationQuery : List UInt8 := []
  uriPath : List (List UInt8) := []
  observe : UInt32 := 0
  token : List UInt8 := []
  accept : List UInt16 := []
  ifMatch : List UInt8 := []
  block2 : Block := {}
  block1 : Block := {}
  size : UInt32 := 0
  uriQuery : List (List UInt8) := []
  ifNoneMatch : UInt8 := 0
  payload : List UInt8 := []
deriving DecidableEq

/-- `SET_OPTION`. The map has five bytes, and option 40 lands behind them, in the padding. -/
def Packet.setOption (p : Packet) (opt : Nat) : Packet :=
  if opt ≤ 40 then { p with options := insert opt p.options } else p

/-- `coap_add_multi_option`, where the length is cast to a byte; there is memory for the option. -/
def multiOption (option : List UInt8) : List UInt8 := option.take (option.length % 256)

def coapInitMessage (type : MessageType) (code : UInt8) (mid : UInt16) : Packet :=
  { type := type, code := code, mid := mid }

def coapFreeHeader (p : Packet) : Packet := { p with uriPath := [], uriQuery := [], locationPath := [] }

/-! ## Setters -/

def coapSetHeaderContentType (p : Packet) (contentType : UInt32) : Packet :=
  { p with contentType := contentType }.setOption coapOptionContentType

def coapSetHeaderAccept (p : Packet) (accept : UInt16) : Packet :=
  if p.accept.length < coapMaxAcceptNum then
    { p with accept := p.accept ++ [accept] }.setOption coapOptionAccept
  else p

def coapSetHeaderMaxAge (p : Packet) (age : UInt32) : Packet :=
  { p with maxAge := age }.setOption coapOptionMaxAge

def coapSetHeaderEtag (p : Packet) (etag : List UInt8) : Packet :=
  { p with etag := etag.take coapEtagLen }.setOption coapOptionEtag

def coapSetHeaderIfMatch (p : Packet) (etag : List UInt8) : Packet :=
  { p with ifMatch := etag.take coapEtagLen }.setOption coapOptionIfMatch

def coapSetHeaderIfNoneMatch (p : Packet) : Packet := p.setOption coapOptionIfNoneMatch

def coapSetHeaderToken (p : Packet) (token : List UInt8) : Packet :=
  { p with token := token.take coapTokenLen }.setOption coapOptionToken

def coapSetHeaderProxyUri (p : Packet) (uri : List UInt8) : Packet :=
  { p with proxyUri := uri }.setOption coapOptionProxyUri

def coapSetHeaderUriHost (p : Packet) (host : List UInt8) : Packet :=
  { p with uriHost := host }.setOption coapOptionUriHost

/-- The parts between the separators; behind the last separator there is one only if it is not
empty. `segment` is what has been read of the part. -/
def segmentsFrom (separator : UInt8) (segment : List UInt8) : List UInt8 → List (List UInt8)
  | [] => [segment]
  | c :: rest =>
    if c = separator then
      segment :: (if rest = [] then [] else segmentsFrom separator [] rest)
    else segmentsFrom separator (segment ++ [c]) rest

/-- The loop of the three setters that take a whole path or query, with the character that may
stand in front of it. The text is a C string, and there is memory for each part. -/
def segments (front separator : UInt8) (text : List UInt8) : List (List UInt8) :=
  (segmentsFrom separator [] (if text.head? = some front then text.tail else text)).map multiOption

def coapSetHeaderUriPath (p : Packet) (path : List UInt8) : Packet :=
  { p with uriPath := segments 47 47 path }.setOption coapOptionUriPath

def coapSetHeaderUriPathSegment (p : Packet) (segment : List UInt8) : Packet :=
  { p with uriPath := p.uriPath ++ [multiOption segment] }.setOption coapOptionUriPath

def coapSetHeaderUriQuery (p : Packet) (query : List UInt8) : Packet :=
  { p with uriQuery := segments 63 38 query }.setOption coapOptionUriQuery

def coapSetHeaderLocationPath (p : Packet) (path : List UInt8) : Packet :=
  { p with locationPath := segments 47 47 path }.setOption coapOptionLocationPath

def coapSetHeaderLocationQuery (p : Packet) (query : List UInt8) : Packet :=
  { p with locationQuery := query.dropWhile (· = 63) }.setOption coapOptionLocationQuery

def coapSetHeaderObserve (p : Packet) (observe : UInt32) : Packet :=
  { p with observe := 0x00FFFFFF &&& observe }.setOption coapOptionObserve

def coapSetHeaderBlock2 (p : Packet) (num : UInt32) (more : UInt8) (size : UInt16) : Packet :=
  if size < 16 then p
  else if 2048 < size then p
  else if 0x0FFFFF < num then p
  else
    { p with
      block2 := { p.block2 with
        num := num
        more := if more ≠ 0 then 1 else 0
        size := size } }.setOption coapOptionBlock2

def coapSetHeaderBlock1 (p : Packet) (num : UInt32) (more : UInt8) (size : UInt16) : Packet :=
  if size < 16 then p
  else if 2048 < size then p
  else if 0x0FFFFF < num then p
  else
    { p with
      block1 := { p.block1 with
        num := num
        more := more
        size := size } }.setOption coapOptionBlock1

def coapSetHeaderSize (p : Packet) (size : UInt32) : Packet :=
  { p with size := size }.setOption coapOptionSize

/-- `payload_len` has 16 bits. -/
def coapSetPayload (p : Packet) (payload : List UInt8) : Packet :=
  { p with payload := payload.take (payload.length % 2 ^ 16) }

def coapSetStatusCode (p : Packet) (code : Nat) : Packet :=
  if code ≤ 0xFF then { p with code := UInt8.ofNat code } else p

/-! ## Writing -/

def coapLog2Loop (result value : Nat) : Nat → Nat
  | 0 => result
  | fuel + 1 =>
    if value >>> 1 = 0 then result + 1 else coapLog2Loop (result + 1) (value >>> 1) fuel

/-- A value of 16 bits is zero after 16 shifts at the latest. -/
def coapLog2 (value : UInt16) : Nat := coapLog2Loop 0 value.toNat 16 - 1

def coapOptionNibble (value : Nat) : Nat :=
  if value < 13 then value else if value ≤ 0xFF + 13 then 13 else 14

/-- The bytes that a delta or a length adds to the header of its option. -/
def extended (x : Nat) : List UInt8 :=
  if 268 < x then [UInt8.ofNat ((x - 269) >>> 8), UInt8.ofNat (x - 269)]
  else if 12 < x then [UInt8.ofNat (x - 13)]
  else []

def coapSetOptionHeader (delta length : Nat) : List UInt8 :=
  UInt8.ofNat (coapOptionNibble delta <<< 4 ||| coapOptionNibble length) ::
    (extended delta ++ extended length)

/-- The bytes of an integer without the zeros in front. -/
def intBytes (value : UInt32) : List UInt8 :=
  (if 0xFF000000 &&& value ≠ 0 then [(value >>> 24).toUInt8] else []) ++
  (if 0xFFFF0000 &&& value ≠ 0 then [(value >>> 16).toUInt8] else []) ++
  (if 0xFFFFFF00 &&& value ≠ 0 then [(value >>> 8).toUInt8] else []) ++
  (if 0xFFFFFFFF &&& value ≠ 0 then [value.toUInt8] else [])

def coapSerializeIntOption (number currentNumber : Nat) (value : UInt32) : List UInt8 :=
  coapSetOptionHeader (number - currentNumber) (intBytes value).length ++ intBytes value

/-- The parts of an array that is split. The character behind a separator is skipped without being
looked at. -/
def splitFrom (splitChar : UInt8) (part : List UInt8) : List UInt8 → List (List UInt8)
  | [] => [part]
  | c :: rest =>
    if c = splitChar then
      part :: (match rest with
        | [] => []
        | d :: rest => splitFrom splitChar [d] rest)
    else splitFrom splitChar (part ++ [c]) rest

/-- The chain of `multi_option_t`; behind the first one the delta is zero. -/
def coapSerializeMultiOption (number : Nat) : Nat → List (List UInt8) → List UInt8
  | _, [] => []
  | currentNumber, data :: rest =>
    coapSetOptionHeader (number - currentNumber) data.length ++ data ++
      coapSerializeMultiOption number number rest

/-- `splitChar` is none for the NUL of the source. -/
def coapSerializeArrayOption (number currentNumber : Nat) (array : List UInt8)
    (splitChar : Option UInt8) : List UInt8 :=
  match splitChar with
  | some c => coapSerializeMultiOption number currentNumber (splitFrom c [] array)
  | none => coapSetOptionHeader (number - currentNumber) array.length ++ array

/-- The number of the option that was written last, and what was written. -/
structure Written where
  currentNumber : Nat
  bytes : List UInt8

/-- What the macros of the source have in common. -/
def serializeOption (p : Packet) (number : Nat) (write : Nat → List UInt8) (w : Written) :
    Written :=
  if number ∈ p.options then ⟨number, w.bytes ++ write w.currentNumber⟩ else w

def coapSerializeInt (p : Packet) (number : Nat) (field : UInt32) : Written → Written :=
  serializeOption p number fun currentNumber => coapSerializeIntOption number currentNumber field

def coapSerializeBytes (p : Packet) (number : Nat) (field : List UInt8)
    (splitter : Option UInt8) : Written → Written :=
  serializeOption p number fun currentNumber =>
    coapSerializeArrayOption number currentNumber field splitter

def coapSerializeMulti (p : Packet) (number : Nat) (field : List (List UInt8)) :
    Written → Written :=
  serializeOption p number fun currentNumber =>
    coapSerializeMultiOption number currentNumber field

def serializeAccepts (number : Nat) : List UInt16 → Written → Written
  | [], w => w
  | accept :: rest, w =>
    serializeAccepts number rest
      ⟨number, w.bytes ++ coapSerializeIntOption number w.currentNumber accept.toUInt32⟩

def coapSerializeAccept (p : Packet) (w : Written) : Written :=
  if coapOptionAccept ∈ p.options then serializeAccepts coapOptionAccept p.accept w else w

def blockValue (block : Block) : UInt32 :=
  (if block.more ≠ 0 then block.num <<< 4 ||| 0x8 else block.num <<< 4) |||
    UInt32.ofNat (0xF &&& coapLog2 (block.size / 16))

def serializeOptions (p : Packet) : Written :=
  coapSerializeBytes p coapOptionProxyUri p.proxyUri none <|
  coapSerializeInt p coapOptionSize p.size <|
  coapSerializeInt p coapOptionBlock1 (blockValue p.block1) <|
  coapSerializeInt p coapOptionBlock2 (blockValue p.block2) <|
  coapSerializeBytes p coapOptionLocationQuery p.locationQuery (some 38) <|
  coapSerializeAccept p <|
  coapSerializeMulti p coapOptionUriQuery p.uriQuery <|
  coapSerializeInt p coapOptionMaxAge p.maxAge <|
  coapSerializeInt p coapOptionContentType p.contentType <|
  coapSerializeMulti p coapOptionUriPath p.uriPath <|
  coapSerializeMulti p coapOptionLocationPath p.locationPath <|
  coapSerializeInt p coapOptionUriPort p.uriPort.toUInt32 <|
  coapSerializeInt p coapOptionObserve p.observe <|
  coapSerializeInt p coapOptionIfNoneMatch (p.contentType - p.contentType) <|
  coapSerializeBytes p coapOptionEtag p.etag none <|
  coapSerializeBytes p coapOptionUriHost p.uriHost none <|
  coapSerializeBytes p coapOptionIfMatch p.ifMatch none ⟨0, []⟩

def MessageType.toUInt8 : MessageType → UInt8
  | .con => 0
  | .non => 1
  | .ack => 2
  | .rst => 3

def headerBytes (p : Packet) : List UInt8 :=
  [((0xC0 : UInt8) &&& (1 : UInt8) <<< 6) ||| ((0x30 : UInt8) &&& p.type.toUInt8 <<< 4) |||
      ((0x0F : UInt8) &&& UInt8.ofNat p.token.length),
    p.code, (p.mid >>> 8).toUInt8, p.mid.toUInt8]

/-- The bytes that are written, and the packet as it is left. -/
def coapSerializeMessage (p : Packet) : List UInt8 × Packet :=
  (headerBytes p ++ p.token ++ (serializeOptions p).bytes ++
      (if p.payload = [] then [] else 0xFF :: p.payload),
    coapFreeHeader { p with version := 1 })

/-- The five bytes that are counted for the header of an option, and its value. -/
def optionSize (p : Packet) (number length : Nat) : Nat :=
  if number ∈ p.options then coapMaxOptionHeaderLen + length else 0

def multiSize (p : Packet) (number : Nat) (field : List (List UInt8)) : Nat :=
  if number ∈ p.options then (field.map fun data => coapMaxOptionHeaderLen + data.length).sum
  else 0

def coapSerializeGetSize (p : Packet) : Nat :=
  coapHeaderLen + p.payload.length + p.token.length +
    optionSize p coapOptionIfMatch p.ifMatch.length +
    optionSize p coapOptionUriHost p.uriHost.length +
    optionSize p coapOptionEtag p.etag.length +
    optionSize p coapOptionIfNoneMatch 0 +
    optionSize p coapOptionObserve 0 +
    optionSize p coapOptionUriPort 0 +
    multiSize p coapOptionLocationPath p.locationPath +
    multiSize p coapOptionUriPath p.uriPath +
    optionSize p coapOptionContentType 0 +
    optionSize p coapOptionMaxAge 0 +
    multiSize p coapOptionUriQuery p.uriQuery +
    (if coapOptionAccept ∈ p.options then p.accept.length * coapMaxOptionHeaderLen else 0) +
    optionSize p coapOptionLocationQuery p.locationQuery.length +
    optionSize p coapOptionBlock2 0 +
    optionSize p coapOptionBlock1 0 +
    optionSize p coapOptionSize 0 +
    optionSize p coapOptionProxyUri p.proxyUri.length +
    (if p.payload = [] then 0 else 1)

/-! ## Reading -/

def coapParseIntOption (bytes : List UInt8) : UInt32 :=
  bytes.foldl (fun var b => var <<< 8 ||| b.toUInt32) 0

/-- `coap_merge_multi_option` moves the option behind those before it, inside of the datagram. -/
def coapMergeMultiOption (dst option : List UInt8) (separator : UInt8) : List UInt8 :=
  if 0 < dst.length then dst ++ [separator] ++ option else option

def parseBlock (value : List UInt8) : Block :=
  let num := coapParseIntOption value
  { num := num >>> 4
    more := ((num &&& 0x08) >>> 3).toUInt8
    size := (16 : UInt16) <<< (num &&& 0x07).toUInt16
    offset := (num &&& ~~~0x0000000F) <<< (num &&& 0x07) }

/-- The `switch` over the number of an option, with the error and its text for one that ends the
parse. -/
def storeOption (number : Nat) (value : List UInt8) (p : Packet) :
    Packet × Option (UInt8 × String) :=
  if number = coapOptionContentType then ({ p with contentType := coapParseIntOption value }, none)
  else if number = coapOptionMaxAge then ({ p with maxAge := coapParseIntOption value }, none)
  else if number = coapOptionEtag then ({ p with etag := value.take coapEtagLen }, none)
  else if number = coapOptionAccept then
    if p.accept.length < coapMaxAcceptNum then
      ({ p with accept := p.accept ++ [(coapParseIntOption value).toUInt16] }, none)
    else (p, none)
  else if number = coapOptionIfMatch then ({ p with ifMatch := value.take coapEtagLen }, none)
  else if number = coapOptionIfNoneMatch then ({ p with ifNoneMatch := 1 }, none)
  else if number = coapOptionUriHost then ({ p with uriHost := value }, none)
  else if number = coapOptionUriPort then
    ({ p with uriPort := (coapParseIntOption value).toUInt16 }, none)
  else if number = coapOptionUriPath then
    ({ p with uriPath := p.uriPath ++ [multiOption value] }, none)
  else if number = coapOptionUriQuery then
    ({ p with uriQuery := p.uriQuery ++ [multiOption value] }, none)
  else if number = coapOptionLocationPath then
    ({ p with locationPath := p.locationPath ++ [multiOption value] }, none)
  else if number = coapOptionLocationQuery then
    ({ p with locationQuery := coapMergeMultiOption p.locationQuery value 38 }, none)
  else if number = coapOptionProxyUri then
    ({ p with proxyUri := value },
      some (proxyingNotSupported505, "This is a constrained server (Contiki)"))
  else if number = coapOptionObserve then ({ p with observe := coapParseIntOption value }, none)
  else if number = coapOptionBlock2 then ({ p with block2 := parseBlock value }, none)
  else if number = coapOptionBlock1 then ({ p with block1 := parseBlock value }, none)
  else if number = coapOptionSize then ({ p with size := coapParseIntOption value }, none)
  else if number % 2 = 1 then (p, some (badOption402, "Unsupported critical option"))
  else (p, none)

/-- A delta or a length with the bytes that extend it, and the index behind them. -/
def readExtended (memory : List UInt8) (x current : Nat) : Except Fault (Nat × Nat) :=
  if x = 13 then do
    let b ← access memory[current]?
    .ok (x + b.toNat, current + 1)
  else if x = 14 then do
    let b ← access memory[current]?
    let c ← access memory[current + 1]?
    .ok (x + 255 + b.toNat <<< 8 + c.toNat, current + 2)
  else .ok (x, current)

structure OptionHeader where
  delta : Nat
  length : Nat
  /-- where the value begins -/
  value : Nat

def readOptionHeader (memory : List UInt8) (first : UInt8) (current : Nat) :
    Except Fault OptionHeader := do
  let (delta, current) ← readExtended memory (first >>> 4).toNat current
  let (length, current) ← readExtended memory (first &&& 0x0F).toNat current
  .ok ⟨delta, length, current⟩

/-- What `coap_parse_message` returns, the packet and `coap_error_message`. -/
structure Parsed where
  status : UInt8
  packet : Packet
  errorMessage : String
deriving DecidableEq

theorem readExtended_le {memory : List UInt8} {x current y next : Nat}
    (h : readExtended memory x current = .ok (y, next)) :
    current ≤ next ∧ next ≤ current + 2 := by
  unfold readExtended at h
  split_ifs at h
  · cases hb : memory[current]? with
    | none =>
      rw [hb] at h
      cases h
    | some b =>
      rw [hb] at h
      cases h
      omega
  · cases hb : memory[current]? with
    | none =>
      rw [hb] at h
      cases h
    | some b =>
      cases hc : memory[current + 1]? with
      | none =>
        rw [hb, hc] at h
        cases h
      | some c =>
        rw [hb, hc] at h
        cases h
        omega
  · cases h
    omega

theorem readOptionHeader_le {memory : List UInt8} {first : UInt8} {current : Nat}
    {header : OptionHeader} (h : readOptionHeader memory first current = .ok header) :
    current ≤ header.value ∧ header.value ≤ current + 4 := by
  unfold readOptionHeader at h
  cases hdelta : readExtended memory (first >>> 4).toNat current with
  | error fault =>
    rw [hdelta] at h
    cases h
  | ok delta =>
    obtain ⟨delta, next⟩ := delta
    rw [hdelta, Lwm2mData.ok_bind] at h
    cases hlength : readExtended memory (first &&& 0x0F).toNat next with
    | error fault =>
      simp only [hlength] at h
      cases h
    | ok length =>
      obtain ⟨length, last⟩ := length
      simp only [hlength, Lwm2mData.ok_bind] at h
      cases h
      have hd := readExtended_le hdelta
      have hl := readExtended_le hlength
      simp only
      omega

/-- The loop over the options. `memory` is what can be read from `data` on, of which `dataLen` bytes
are the message; `current` is where `current_option` points. -/
def parseOptions (memory : List UInt8) (dataLen : Nat) (errorMessage : String)
    (optionNumber current : Nat) (p : Packet) : Except Fault Parsed :=
  if _hend : current < dataLen then
    match access memory[current]? with
    | .error fault => .error fault
    | .ok first =>
      if first &&& 0xF0 = 0xF0 then
        match slice memory (current + 1) (dataLen - (current + 1)) with
        | .error fault => .error fault
        | .ok payload => .ok ⟨noError, { p with payload := payload }, errorMessage⟩
      else
        match _hheader : readOptionHeader memory first (current + 1) with
        | .error fault => .error fault
        | .ok header =>
          if dataLen < header.value + header.length then
            .ok ⟨badRequest400, p, errorMessage⟩
          else
            match slice memory header.value header.length with
            | .error fault => .error fault
            | .ok value =>
              match storeOption (optionNumber + header.delta) value
                (p.setOption (optionNumber + header.delta)) with
              | (p, some (status, message)) => .ok ⟨status, p, message⟩
              | (p, none) =>
                parseOptions memory dataLen errorMessage (optionNumber + header.delta)
                  (header.value + header.length) p
  else .ok ⟨noError, p, errorMessage⟩
termination_by dataLen - current
decreasing_by
  have hle := readOptionHeader_le _hheader
  omega

def messageTypeOf (b : UInt8) : MessageType :=
  if b = 0 then .con else if b = 1 then .non else if b = 2 then .ack else .rst

/-- The first four bytes with the length of the token. -/
def parseHeader (memory : List UInt8) : Except Fault (Packet × Nat) := do
  let b0 ← access memory[0]?
  let b1 ← access memory[1]?
  let b2 ← access memory[2]?
  let b3 ← access memory[3]?
  .ok (
    { version := ((0xC0 : UInt8) &&& b0) >>> 6
      type := messageTypeOf (((0x30 : UInt8) &&& b0) >>> 4)
      code := b1
      mid := (b2.toUInt16 <<< (8 : UInt16)) ||| b3.toUInt16 },
    min coapTokenLen ((0x0F : UInt8) &&& b0).toNat)

/-- Header and token are read whatever `dataLen` is. -/
def coapParseMessage (memory : List UInt8) (dataLen : Nat) (errorMessage : String) :
    Except Fault Parsed := do
  let (p, tokenLen) ← parseHeader memory
  if p.version ≠ 1 then
    .ok ⟨badRequest400, { p with token := List.replicate tokenLen 0 }, "CoAP version must be 1"⟩
  else if tokenLen = 0 then parseOptions memory dataLen errorMessage 0 coapHeaderLen p
  else do
    let token ← slice memory coapHeaderLen tokenLen
    parseOptions memory dataLen errorMessage 0 (coapHeaderLen + tokenLen)
      ({ p with token := token }.setOption coapOptionToken)

end JsEmbeddedPlatform.Coap
