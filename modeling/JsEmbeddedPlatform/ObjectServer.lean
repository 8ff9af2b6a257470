import JsEmbeddedPlatform.Lwm2mData
import JsEmbeddedPlatform.Lwm2mList
import JsEmbeddedPlatform.ObjectFirmware
import JsEmbeddedPlatform.Shared.Runs

/-!
# The LWM2M Server object

Each instance holds seven resources that a server writes and reads, with the requests
that reach them and what the client does by itself when it starts over.
-/

set_option autoImplicit false

namespace JsEmbeddedPlatform.ObjectServer

open Lwm2mData Lwm2mList
open ObjectFirmware (coap204Changed coap400BadRequest coap404NotFound coap405MethodNotAllowed
  coap406NotAcceptable strncpy length_strncpy)

def lwm2mServerShortIdId : Nat := 0
def lwm2mServerLifetimeId : Nat := 1
def lwm2mServerMinPeriodId : Nat := 2
def lwm2mServerMaxPeriodId : Nat := 3
def lwm2mServerDisableId : Nat := 4
def lwm2mServerTimeoutId : Nat := 5
def lwm2mServerStoringId : Nat := 6
def lwm2mServerBindingId : Nat := 7
def lwm2mServerUpdateId : Nat := 8

/-- `char binding[4]`: at most three bytes of it are written, so that it ends with a NUL. -/
structure Binding where
  bytes : List UInt8
  size : bytes.length = 4
  terminated : bytes[3]? = some 0
deriving DecidableEq

/-- The bytes are copied to the front. -/
def Binding.overwrite (b : Binding) (front : List UInt8) (short : front.length ≤ 3) : Binding where
  bytes := front ++ b.bytes.drop front.length
  size := by
    rw [List.length_append, List.length_drop, b.size]
    omega
  terminated := by
    rw [List.getElem?_append_right short, List.getElem?_drop, Nat.add_sub_of_le short]
    exact b.terminated

def Binding.zero : Binding := ⟨[0, 0, 0, 0], rfl, rfl⟩

structure ServerInstance where
  instanceId : Nat
  shortServerId : UInt16
  lifetime : UInt32
  defaultMinPeriod : UInt32
  defaultMaxPeriod : UInt32
  disableTimeout : UInt32
  storing : Bool
  binding : Binding
deriving DecidableEq

abbrev InstanceList := List ServerInstance

/-! ## Reading -/

def prvGetValue (allocated : Bool) (id : Nat) (target : ServerInstance) : UInt8 × Value :=
  if id = lwm2mServerShortIdId then
    (coap205Content, lwm2mDataEncodeInt target.shortServerId.toNat)
  else if id = lwm2mServerLifetimeId then
    (coap205Content, lwm2mDataEncodeInt target.lifetime.toNat)
  else if id = lwm2mServerMinPeriodId then
    (coap205Content, lwm2mDataEncodeInt target.defaultMinPeriod.toNat)
  else if id = lwm2mServerMaxPeriodId then
    (coap205Content, lwm2mDataEncodeInt target.defaultMaxPeriod.toNat)
  else if id = lwm2mServerDisableId then (coap405MethodNotAllowed, .undefined)
  else if id = lwm2mServerTimeoutId then
    (coap205Content, lwm2mDataEncodeInt target.disableTimeout.toNat)
  else if id = lwm2mServerStoringId then
    (coap205Content, lwm2mDataEncodeBool target.storing)
  else if id = lwm2mServerBindingId then
    (coap205Content, lwm2mDataEncodeString allocated target.binding.bytes)
  else if id = lwm2mServerUpdateId then (coap405MethodNotAllowed, .undefined)
  else (coap404NotFound, .undefined)

def resList : List Nat :=
  [lwm2mServerShortIdId, lwm2mServerLifetimeId, lwm2mServerMinPeriodId, lwm2mServerMaxPeriodId,
    lwm2mServerTimeoutId, lwm2mServerStoringId, lwm2mServerBindingId]

/-- The elements that have been filled in when the loop ends, with its result. -/
def readLoop (allocated : Bool) (target : ServerInstance) : List Nat → UInt8 × List Element
  | [] => (coap205Content, [])
  | id :: rest =>
    let (result, value) := prvGetValue allocated id target
    if result = coap205Content then
      let (last, filled) := readLoop allocated target rest
      (last, ⟨id, value⟩ :: filled)
    else (result, [])

/-- `ids` are the resources that are asked for, none for the full instance, for which
`lwm2m_data_new` makes the array. -/
def prvServerRead (array allocated : Bool) (instanceId : Nat) (ids : List Nat)
    (list : InstanceList) : UInt8 × List Element :=
  match lwm2mListFind ServerInstance.instanceId instanceId list with
  | none => (coap404NotFound, [])
  | some target =>
    if ids = [] then
      if array then readLoop allocated target resList else (coap500InternalServerError, [])
    else readLoop allocated target ids

/-! ## Writing -/

def prvSetIntValue (v : Value) (data : UInt32) : UInt8 × UInt32 :=
  match lwm2mDataDecodeInt v with
  | some value =>
    if 0 ≤ value ∧ value ≤ 0xFFFFFFFF then (coap204Changed, UInt32.ofNat value.toNat)
    else (coap406NotAcceptable, data)
  | none => (coap400BadRequest, data)

def writeShortId (v : Value) (target : ServerInstance) : UInt8 × ServerInstance :=
  let (result, value) := prvSetIntValue v target.shortServerId.toUInt32
  if result = coap204Changed then
    if 0 < value ∧ value ≤ 0xFFFF then (result, { target with shortServerId := value.toUInt16 })
    else (coap406NotAcceptable, target)
  else (result, target)

def writeStoring (v : Value) (target : ServerInstance) : UInt8 × ServerInstance :=
  match lwm2mDataDecodeBool v with
  | some value => (coap204Changed, { target with storing := value })
  | none => (coap400BadRequest, target)

def bindingModes : List (List UInt8) :=
  ["U", "UQ", "S", "SQ", "US", "UQS"].map CString.ascii

/-- `strncmp` has the result 0. -/
def strncmpEqual (a b : List UInt8) (n : Nat) : Prop :=
  (CString.text a).take n = (CString.text b).take n

instance (a b : List UInt8) (n : Nat) : Decidable (strncmpEqual a b n) :=
  inferInstanceAs (Decidable ((CString.text a).take n = (CString.text b).take n))

def storeBinding (buffer : List UInt8) (target : ServerInstance) : UInt8 × ServerInstance :=
  if h : 0 < buffer.length ∧ buffer.length ≤ 3 ∧
      ∃ mode ∈ bindingModes, strncmpEqual buffer (mode ++ [0]) buffer.length then
    (coap204Changed, { target with
      binding := target.binding.overwrite (strncpy buffer buffer.length) (by
        rw [length_strncpy]
        exact h.2.1) })
  else (coap400BadRequest, target)

def writeBinding (v : Value) (target : ServerInstance) : UInt8 × ServerInstance :=
  match v.asBuffer with
  | some buffer => storeBinding buffer target
  | none => (coap400BadRequest, target)

def writeElement (e : Element) (target : ServerInstance) : UInt8 × ServerInstance :=
  if e.id = lwm2mServerShortIdId then writeShortId e.value target
  else if e.id = lwm2mServerLifetimeId then
    let (result, value) := prvSetIntValue e.value target.lifetime
    (result, { target with lifetime := value })
  else if e.id = lwm2mServerMinPeriodId then
    let (result, value) := prvSetIntValue e.value target.defaultMinPeriod
    (result, { target with defaultMinPeriod := value })
  else if e.id = lwm2mServerMaxPeriodId then
    let (result, value) := prvSetIntValue e.value target.defaultMaxPeriod
    (result, { target with defaultMaxPeriod := value })
  else if e.id = lwm2mServerDisableId then (coap405MethodNotAllowed, target)
  else if e.id = lwm2mServerTimeoutId then
    let (result, value) := prvSetIntValue e.value target.disableTimeout
    (result, { target with disableTimeout := value })
  else if e.id = lwm2mServerStoringId then writeStoring e.value target
  else if e.id = lwm2mServerBindingId then writeBinding e.value target
  else if e.id = lwm2mServerUpdateId then (coap405MethodNotAllowed, target)
  else (coap404NotFound, target)

/-- `none` when there is no element: the first one is read nevertheless. -/
def writeLoop : List Element → ServerInstance → Option (UInt8 × ServerInstance)
  | [], _ => none
  | [e], target => some (writeElement e target)
  | e :: next :: rest, target =>
    let (result, target) := writeElement e target
    if result = coap204Changed then writeLoop (next :: rest) target else some (result, target)

def prvServerWrite (instanceId : Nat) (data : List Element) (list : InstanceList) :
    Option (UInt8 × InstanceList) :=
  match lwm2mListFind ServerInstance.instanceId instanceId list with
  | none => some (coap404NotFound, list)
  | some target => do
    let (result, target) ← writeLoop data target
    pure (result, replaceFound ServerInstance.instanceId instanceId target list)

def prvServerDelete (id : Nat) (list : InstanceList) : UInt8 × InstanceList :=
  match lwm2mListRemove ServerInstance.instanceId id list with
  | (list, none) => (coap404NotFound, list)
  | (list, some _) => (coap202Deleted, list)

/-- After the `memset`. -/
def zeroed (instanceId : Nat) : ServerInstance := ⟨instanceId, 0, 0, 0, 0, 0, false, .zero⟩

def prvServerCreate (allocated : Bool) (instanceId : Nat) (data : List Element)
    (list : InstanceList) : Option (UInt8 × InstanceList) :=
  if allocated then do
    let list := lwm2mListAdd ServerInstance.instanceId (zeroed instanceId) list
    let (result, list) ← prvServerWrite instanceId data list
    if result = coap204Changed then pure (coap201Created, list)
    else pure (result, (prvServerDelete instanceId list).2)
  else some (coap500InternalServerError, list)

def prvCreateServerInstance (serverInstance : ServerInstance) (serverId : UInt16)
    (binding : List UInt8) (short : binding.length ≤ 2) (lifetime : UInt32) (storing : Bool) :
    ServerInstance :=
  { serverInstance with
    instanceId := 0
    shortServerId := serverId
    lifetime := lifetime
    storing := storing
    binding := serverInstance.binding.overwrite (binding ++ [0]) (by
      rw [List.length_append]
      exact Nat.succ_le_succ short) }

/-- The only instance of `get_server_object` with the arguments of its caller, and the one of
`create_bootstrap_server_instance`. -/
def bootInstance : ServerInstance :=
  prvCreateServerInstance (zeroed 0) 123 (CString.ascii "U") (by decide) 300 false

def getServerObject : InstanceList := lwm2mListAdd ServerInstance.instanceId bootInstance []

def createBootstrapServerInstance (allocated : Bool) (list : InstanceList) : InstanceList :=
  match lwm2mListFind ServerInstance.instanceId 0 list with
  | some _ => list
  | none =>
    if allocated then lwm2mListAdd ServerInstance.instanceId bootInstance list else list

/-! ## Runs -/

/-- `create` is `object_create` when it has parsed its payload: for an instance with an id, or
for resources alone, for which it takes a new id. A bootstrap server creates with an id. -/
inductive Request where
  | create (id : Option Nat) (allocated : Bool) (data : List Element)
  | write (id : Nat) (data : List Element)
  | delete (id : Nat)
  | cleanServerObject
  | createBootstrap (allocated : Bool)
deriving DecidableEq

/-- The code of the response with the instance that it is about, `none` for what the client
does by itself. -/
abbrev Answer := Option (UInt8 × Nat)

def objectCreate (id : Option Nat) (allocated : Bool) (data : List Element)
    (list : InstanceList) : Option (InstanceList × Answer) :=
  match id with
  | some id =>
    match lwm2mListFind ServerInstance.instanceId id list with
    | some _ => some (list, some (coap406NotAcceptable, id))
    | none => (prvServerCreate allocated id data list).map fun r => (r.2, some (r.1, id))
  | none =>
    let id := lwm2mListNewId ServerInstance.instanceId list
    (prvServerCreate allocated id data list).map fun r => (r.2, some (r.1, id))

def step (list : InstanceList) : Request → Option (InstanceList × Answer)
  | .create id allocated data => objectCreate id allocated data list
  | .write id data => (prvServerWrite id data list).map fun r => (r.2, some (r.1, id))
  | .delete id => some ((prvServerDelete id list).2, some ((prvServerDelete id list).1, id))
  | .cleanServerObject => some ([], none)
  | .createBootstrap allocated => some (createBootstrapServerInstance allocated list, none)

end JsEmbeddedPlatform.ObjectServer
