import JsEmbeddedPlatform.Lwm2mData
import JsEmbeddedPlatform.Lwm2mList
import JsEmbeddedPlatform.ObjectFirmware
import JsEmbeddedPlatform.Shared.Ownership
import JsEmbeddedPlatform.Shared.Runs

/-!
# The LWM2M Security object

An instance points to the server URI, the two keys of the client and the key of the
server. A pointer and the length that goes with it are separate fields, and each request
changes them on branches of its own. What the code must not do, to write or read through
NULL or past the end of a block, is `none` or a fault.
-/

set_option autoImplicit false

namespace JsEmbeddedPlatform.ObjectSecurity

open Lwm2mData Lwm2mList
open ObjectFirmware (coap204Changed coap400BadRequest coap404NotFound coap406NotAcceptable strncpy)
open Ownership (release allocate)

abbrev Memory := Heap (List UInt8)

def lwm2mSecurityUriId : Nat := 0
def lwm2mSecurityBootstrapId : Nat := 1
def lwm2mSecuritySecurityId : Nat := 2
def lwm2mSecurityPublicKeyId : Nat := 3
def lwm2mSecurityServerPublicKeyId : Nat := 4
def lwm2mSecuritySecretKeyId : Nat := 5
def lwm2mSecuritySmsSecurityId : Nat := 6
def lwm2mSecuritySmsKeyParamId : Nat := 7
def lwm2mSecuritySmsSecretKeyId : Nat := 8
def lwm2mSecuritySmsServerNumberId : Nat := 9
def lwm2mSecurityShortServerId : Nat := 10
def lwm2mSecurityHoldOffId : Nat := 11
def lwm2mSecurityBootstrapTimeoutId : Nat := 12

def lwm2mSecurityModePreSharedKey : UInt8 := 0
def lwm2mSecurityModeNone : UInt8 := 3

structure SecurityInstance where
  instanceId : Nat
  uri : Option Nat
  isBootstrap : Bool
  securityMode : UInt8
  publicIdentity : Option Nat
  publicIdLen : UInt16
  serverPublicKey : Option Nat
  serverPublicKeyLen : UInt16
  secretKey : Option Nat
  secretKeyLen : UInt16
  smsSecurityMode : UInt8
  smsParams : Option Nat
  smsParamsLen : UInt16
  smsSecret : Option Nat
  smsSecretLen : UInt16
  shortID : UInt16
  clientHoldOffTime : UInt32
  bootstrapServerAccountTimeout : UInt32
deriving DecidableEq, Repr

abbrev InstanceList := List SecurityInstance

/-- After the `memset`. -/
def zeroed (instanceId : Nat) : SecurityInstance :=
  ⟨instanceId, none, false, 0, none, 0, none, 0, none, 0, 0, none, 0, none, 0, 0, 0, 0⟩

/-! ## Reading -/

/-- `lwm2m_data_encode_opaque`: `length` bytes are read from `buffer` when there is room for
them. -/
def lwm2mDataEncodeOpaque (allocated : Bool) (m : Memory) (buffer : Option Nat) (length : Nat) :
    Option Value :=
  if length = 0 then some (.opaqueBytes [])
  else if allocated then do
    let bytes ← Ownership.block m buffer
    if length ≤ bytes.length then some (.opaqueBytes (bytes.take length)) else none
  else some .undefined

/-- A string that is NULL is the empty one. -/
def encodeUri (allocated : Bool) (m : Memory) (uri : Option Nat) : Option Value :=
  match uri with
  | none => some (.string [])
  | some p => do
    let bytes ← m.get? p
    let text ← CString.read bytes
    some (lwm2mDataEncodeString allocated (text ++ [0]))

def prvGetValue (allocated : Bool) (m : Memory) (id : Nat) (target : SecurityInstance) :
    Option (UInt8 × Value) :=
  if id = lwm2mSecurityUriId then
    (encodeUri allocated m target.uri).map fun v => (coap205Content, v)
  else if id = lwm2mSecurityBootstrapId then
    some (coap205Content, lwm2mDataEncodeBool target.isBootstrap)
  else if id = lwm2mSecuritySecurityId then
    some (coap205Content, lwm2mDataEncodeInt target.securityMode.toNat)
  else if id = lwm2mSecurityPublicKeyId then
    (lwm2mDataEncodeOpaque allocated m target.publicIdentity target.publicIdLen.toNat).map
      fun v => (coap205Content, v)
  else if id = lwm2mSecurityServerPublicKeyId then
    (lwm2mDataEncodeOpaque allocated m target.serverPublicKey
      target.serverPublicKeyLen.toNat).map fun v => (coap205Content, v)
  else if id = lwm2mSecuritySecretKeyId then
    (lwm2mDataEncodeOpaque allocated m target.secretKey target.secretKeyLen.toNat).map
      fun v => (coap205Content, v)
  else if id = lwm2mSecuritySmsSecurityId then
    some (coap205Content, lwm2mDataEncodeInt target.smsSecurityMode.toNat)
  else if id = lwm2mSecuritySmsKeyParamId then
    (lwm2mDataEncodeOpaque allocated m target.smsParams target.smsParamsLen.toNat).map
      fun v => (coap205Content, v)
  else if id = lwm2mSecuritySmsSecretKeyId then
    (lwm2mDataEncodeOpaque allocated m target.smsSecret target.smsSecretLen.toNat).map
      fun v => (coap205Content, v)
  else if id = lwm2mSecuritySmsServerNumberId then some (coap205Content, lwm2mDataEncodeInt 0)
  else if id = lwm2mSecurityShortServerId then
    some (coap205Content, lwm2mDataEncodeInt target.shortID.toNat)
  else if id = lwm2mSecurityHoldOffId then
    some (coap205Content, lwm2mDataEncodeInt target.clientHoldOffTime.toNat)
  else if id = lwm2mSecurityBootstrapTimeoutId then
    some (coap205Content, lwm2mDataEncodeInt target.bootstrapServerAccountTimeout.toNat)
  else some (coap404NotFound, .undefined)

def resList : List Nat :=
  [lwm2mSecurityUriId, lwm2mSecurityBootstrapId, lwm2mSecuritySecurityId,
    lwm2mSecurityPublicKeyId, lwm2mSecurityServerPublicKeyId, lwm2mSecuritySecretKeyId,
    lwm2mSecuritySmsSecurityId, lwm2mSecuritySmsKeyParamId, lwm2mSecuritySmsSecretKeyId,
    lwm2mSecuritySmsServerNumberId, lwm2mSecurityShortServerId, lwm2mSecurityHoldOffId,
    lwm2mSecurityBootstrapTimeoutId]

/-- Each element comes with whether there is room for its text or bytes. -/
def readLoop (m : Memory) (target : SecurityInstance) :
    List (Nat × Bool) → Option (UInt8 × List Element)
  | [] => some (coap205Content, [])
  | (id, allocated) :: rest => do
    let (result, value) ← prvGetValue allocated m id target
    if result = coap205Content then
      let (last, filled) ← readLoop m target rest
      some (last, ⟨id, value⟩ :: filled)
    else some (result, [])

/-- `array` is whether `lwm2m_data_new` finds room, for a Read of the full instance, `room` the
same for its elements. -/
def prvSecurityRead (array : Bool) (room : Nat → Bool) (instanceId : Nat) (ids : List (Nat × Bool))
    (m : Memory) (list : InstanceList) : Option (UInt8 × List Element) :=
  match lwm2mListFind SecurityInstance.instanceId instanceId list with
  | none => some (coap404NotFound, [])
  | some target =>
    if ids = [] then
      if array then readLoop m target (resList.map fun id => (id, room id))
      else some (coap500InternalServerError, [])
    else readLoop m target ids

/-- `lwm2m_strdup` on the unix platform: the copy, or NULL without room for it. The text is
measured first. -/
def getServerUri (allocated : Bool) (secObjInstID : Nat) (m : Memory) (list : InstanceList) :
    Option (Option (List UInt8)) :=
  match lwm2mListFind SecurityInstance.instanceId secObjInstID list with
  | none => some none
  | some target => do
    let bytes ← Ownership.block m target.uri
    let text ← CString.read bytes
    some (if allocated then some (text ++ [0]) else none)

/-! ## Writing -/

/-- A block of its own for `content`. The `memset` of the new block comes before the test for
NULL, so that one is written through when there is no room. -/
def placeBlock (room : Bool) (content : Option (List UInt8)) (m : Memory) :
    Option (Option Nat × Memory) :=
  match content with
  | none => some (none, m)
  | some bytes =>
    if room then some (some (allocate bytes m).1, (allocate bytes m).2) else none

/-- What the old pointer holds is released first. -/
def replaceBlock (room : Bool) (old : Option Nat) (content : Option (List UInt8)) (m : Memory) :
    Option (Option Nat × Memory) := do
  let m ← release old m
  placeBlock room content m

/-- What is made of the bytes of an element takes the place of the old block. -/
def writeBlock (room : Bool) (v : Value) (old : Option Nat)
    (content : List UInt8 → Option (List UInt8)) (m : Memory) :
    Except Fault (List UInt8 × Option Nat × Memory) := do
  let m ← access (release old m)
  let buffer ← v.readBuffer
  let (new, m) ← access (placeBlock room (content buffer) m)
  .ok (buffer, new, m)

def writeUri (room : Bool) (v : Value) (m : Memory) (target : SecurityInstance) :
    Except Fault (UInt8 × Memory × SecurityInstance) := do
  let (_, uri, m) ← writeBlock room v target.uri
    (fun buffer => some (strncpy buffer buffer.length ++ [0])) m
  .ok (coap204Changed, m, { target with uri := uri })

/-- The block and the length of `publicIdentity` and `secretKey`: a length of zero makes the
pointer NULL and leaves the length that was there. -/
def writeKey (room : Bool) (v : Value) (old : Option Nat) (oldLen : UInt16) (m : Memory) :
    Except Fault (Option Nat × UInt16 × Memory) := do
  let (buffer, key, m) ← writeBlock room v old
    (fun buffer => if buffer.length ≠ 0 then some (buffer ++ [0]) else none) m
  .ok (key, if buffer.length ≠ 0 then UInt16.ofNat buffer.length else oldLen, m)

def writeServerPublicKey (room : Bool) (v : Value) (m : Memory) (target : SecurityInstance) :
    Except Fault (UInt8 × Memory × SecurityInstance) := do
  let (buffer, key, m) ← writeBlock room v target.serverPublicKey
    (fun buffer => some (buffer ++ [0])) m
  .ok (coap204Changed, m,
    { target with serverPublicKey := key, serverPublicKeyLen := UInt16.ofNat buffer.length })

/-- The four numbers: the result, and the value from 0 to `limit` that is stored. -/
def writeInt (v : Value) (limit : Int) : UInt8 × Option Nat :=
  match lwm2mDataDecodeInt v with
  | some value =>
    if 0 ≤ value ∧ value ≤ limit then (coap204Changed, some value.toNat)
    else (coap406NotAcceptable, none)
  | none => (coap400BadRequest, none)

def writeElement (e : Element) (room : Bool) (m : Memory) (target : SecurityInstance) :
    Except Fault (UInt8 × Memory × SecurityInstance) :=
  if e.id = lwm2mSecurityUriId then writeUri room e.value m target
  else if e.id = lwm2mSecurityBootstrapId then
    match lwm2mDataDecodeBool e.value with
    | some value => .ok (coap204Changed, m, { target with isBootstrap := value })
    | none => .ok (coap400BadRequest, m, target)
  else if e.id = lwm2mSecuritySecurityId then
    let (result, value) := writeInt e.value 3
    .ok (result, m, { target with
      securityMode := (value.map UInt8.ofNat).getD target.securityMode })
  else if e.id = lwm2mSecurityPublicKeyId then do
    let (key, len, m) ← writeKey room e.value target.publicIdentity target.publicIdLen m
    .ok (coap204Changed, m, { target with publicIdentity := key, publicIdLen := len })
  else if e.id = lwm2mSecurityServerPublicKeyId then writeServerPublicKey room e.value m target
  else if e.id = lwm2mSecuritySecretKeyId then do
    let (key, len, m) ← writeKey room e.value target.secretKey target.secretKeyLen m
    .ok (coap204Changed, m, { target with secretKey := key, secretKeyLen := len })
  else if e.id = lwm2mSecuritySmsSecurityId ∨ e.id = lwm2mSecuritySmsKeyParamId ∨
      e.id = lwm2mSecuritySmsSecretKeyId ∨ e.id = lwm2mSecuritySmsServerNumberId then
    .ok (coap204Changed, m, target)
  else if e.id = lwm2mSecurityShortServerId then
    let (result, value) := writeInt e.value 0xFFFF
    .ok (result, m, { target with shortID := (value.map UInt16.ofNat).getD target.shortID })
  else if e.id = lwm2mSecurityHoldOffId then
    let (result, value) := writeInt e.value 0xFFFFFFFF
    .ok (result, m, { target with
      clientHoldOffTime := (value.map UInt32.ofNat).getD target.clientHoldOffTime })
  else if e.id = lwm2mSecurityBootstrapTimeoutId then
    let (result, value) := writeInt e.value 0xFFFFFFFF
    .ok (result, m, { target with bootstrapServerAccountTimeout :=
      (value.map UInt32.ofNat).getD target.bootstrapServerAccountTimeout })
  else .ok (coap400BadRequest, m, target)

/-- Each element comes with whether there is room for its block; the first one is read even
when there is none. -/
def writeLoop : List (Element × Bool) → Memory → SecurityInstance →
    Except Fault (UInt8 × Memory × SecurityInstance)
  | [], _, _ => .error .memory
  | [(e, room)], m, target => writeElement e room m target
  | (e, room) :: next :: rest, m, target => do
    let (result, m, target) ← writeElement e room m target
    if result = coap204Changed then writeLoop (next :: rest) m target
    else .ok (result, m, target)

def prvSecurityWrite (instanceId : Nat) (data : List (Element × Bool)) (m : Memory)
    (list : InstanceList) : Except Fault (UInt8 × Memory × InstanceList) :=
  match lwm2mListFind SecurityInstance.instanceId instanceId list with
  | none => .ok (coap404NotFound, m, list)
  | some target => do
    let (result, m, target) ← writeLoop data m target
    .ok (result, m, replaceFound SecurityInstance.instanceId instanceId target list)

/-- Of what the instance points to only the URI is released. -/
def prvSecurityDelete (id : Nat) (m : Memory) (list : InstanceList) :
    Option (UInt8 × Memory × InstanceList) :=
  match lwm2mListRemove SecurityInstance.instanceId id list with
  | (list, none) => some (coap404NotFound, m, list)
  | (list, some target) => do
    let m ← release target.uri m
    some (coap202Deleted, m, list)

def prvSecurityCreate (allocated : Bool) (instanceId : Nat) (data : List (Element × Bool))
    (m : Memory) (list : InstanceList) : Except Fault (UInt8 × Memory × InstanceList) :=
  if allocated then do
    let list := lwm2mListAdd SecurityInstance.instanceId (zeroed instanceId) list
    let (result, m, list) ← prvSecurityWrite instanceId data m list
    if result = coap204Changed then .ok (coap201Created, m, list)
    else do
      let (_, m, list) ← access (prvSecurityDelete instanceId m list)
      .ok (result, m, list)
  else .ok (coap500InternalServerError, m, list)

/-! ## The client's own instances -/

def cleanSecurityObject : InstanceList → Memory → Option Memory
  | [], m => some m
  | securityInstance :: rest, m => do
    let m ← release securityInstance.uri m
    let m ← release securityInstance.publicIdentity m
    let m ← release securityInstance.secretKey m
    cleanSecurityObject rest m

/-- The arguments of `get_security_object`: texts without their NUL, `none` for NULL; behind
`psk` are the bytes that can be read. -/
structure Arguments where
  serverId : UInt16
  serverUri : List UInt8
  bsPskId : Option (List UInt8)
  psk : Option (List UInt8)
  pskLen : UInt16
  isBootstrap : Bool
deriving DecidableEq, Repr

/-- Which of the allocations succeed, in the order in which they are made. -/
structure Room where
  object : Bool
  securityInstance : Bool
  uri : Bool
  identity : Bool
  secret : Bool
deriving DecidableEq, Repr

/-- `strdup`, whose result is not tested. -/
def copyIdentity (room : Bool) (bsPskId : Option (List UInt8)) (m : Memory)
    (target : SecurityInstance) : Memory × SecurityInstance :=
  match bsPskId with
  | none => (m, target)
  | some id =>
    let len := UInt16.ofNat id.length
    if room then
      ((allocate (id ++ [0]) m).2,
        { target with publicIdentity := some (allocate (id ++ [0]) m).1, publicIdLen := len })
    else (m, { target with publicIdentity := none, publicIdLen := len })

def Arguments.complete (a : Arguments) (target : SecurityInstance) : SecurityInstance :=
  { target with isBootstrap := a.isBootstrap, shortID := a.serverId, clientHoldOffTime := 10 }

/-- Without room for the secret key the object is cleaned, which has no instance yet, and the
caller finds the key to be NULL. -/
def copySecret (room : Bool) (a : Arguments) (m : Memory) (target : SecurityInstance) :
    Option (Memory × SecurityInstance) :=
  if a.pskLen = 0 then some (m, a.complete target)
  else if room then do
    let psk ← a.psk
    if a.pskLen.toNat ≤ psk.length then
      let (key, m) := allocate (psk.take a.pskLen.toNat) m
      some (m, a.complete { target with secretKey := some key, secretKeyLen := a.pskLen })
    else none
  else some (m, target)

def prvCreateSecurityInstance (room : Room) (a : Arguments) (m : Memory) :
    Option (Memory × SecurityInstance) := do
  let (uri, m) ← replaceBlock room.uri none (some (a.serverUri ++ [0])) m
  let target := { zeroed 0 with uri := uri, securityMode := lwm2mSecurityModeNone }
  if a.bsPskId = none ∧ a.psk = none then some (m, a.complete target)
  else
    let target := { target with securityMode := lwm2mSecurityModePreSharedKey }
    let (m, target) := copyIdentity room.identity a.bsPskId m target
    copySecret room.secret a m target

/-- The object has no instance yet; the inner `none` is that NULL is returned. -/
def getSecurityObject (room : Room) (a : Arguments) (m : Memory) :
    Option (Memory × Option InstanceList) :=
  if room.object ∧ room.securityInstance then do
    let (m, target) ← prvCreateSecurityInstance room a m
    if (a.bsPskId ≠ none ∨ a.psk ≠ none) ∧ 0 < a.pskLen ∧ target.secretKey = none then
      some (m, none)
    else some (m, some (lwm2mListAdd SecurityInstance.instanceId target []))
  else some (m, none)

def bootstrapArguments (serverUri : List UInt8) : Arguments :=
  ⟨123, serverUri, none, none, 65535, true⟩

def createBootstrapSecurityInstance (room : Room) (serverUri : List UInt8) (m : Memory)
    (list : InstanceList) : Option (Memory × InstanceList) :=
  match lwm2mListFind SecurityInstance.instanceId 0 list with
  | some _ => some (m, list)
  | none =>
    if room.securityInstance then do
      let (m, target) ← prvCreateSecurityInstance room (bootstrapArguments serverUri) m
      some (m, lwm2mListAdd SecurityInstance.instanceId target list)
    else some (m, list)

/-! ## Runs -/

/-- `object` is the instance list of the object, `none` as long as there is no object. -/
structure State where
  memory : Memory
  object : Option InstanceList

def initial : State := ⟨Heap.empty, none⟩

inductive Request where
  | getSecurityObject (room : Room) (a : Arguments)
  | createBootstrap (room : Room) (serverUri : List UInt8)
  | create (id : Nat) (allocated : Bool) (data : List (Element × Bool))
  | write (id : Nat) (data : List (Element × Bool))
  | delete (id : Nat)
  | cleanSecurityObject
deriving DecidableEq

/-- The code of a response, `none` for what the client does by itself. -/
abbrev Answer := Option UInt8

def step (s : State) : Request → Option (State × Answer)
  | .getSecurityObject room a => do
    let (m, object) ← getSecurityObject room a s.memory
    some (⟨m, object⟩, none)
  | .createBootstrap room serverUri => do
    let list ← s.object
    let (m, list) ← createBootstrapSecurityInstance room serverUri s.memory list
    some (⟨m, some list⟩, none)
  | .create id allocated data => do
    let list ← s.object
    let (result, m, list) ← (prvSecurityCreate allocated id data s.memory list).toOption
    some (⟨m, some list⟩, some result)
  | .write id data => do
    let list ← s.object
    let (result, m, list) ← (prvSecurityWrite id data s.memory list).toOption
    some (⟨m, some list⟩, some result)
  | .delete id => do
    let list ← s.object
    let (result, m, list) ← prvSecurityDelete id s.memory list
    some (⟨m, some list⟩, some result)
  | .cleanSecurityObject => do
    let list ← s.object
    let m ← cleanSecurityObject list s.memory
    some (⟨m, some []⟩, none)

end JsEmbeddedPlatform.ObjectSecurity
