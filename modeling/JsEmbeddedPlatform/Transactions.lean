import JsEmbeddedPlatform.CoapPacket
import JsEmbeddedPlatform.Lwm2mList
import JsEmbeddedPlatform.Shared.Runs

/-!
# Transactions

A request is sent again until it is answered: a list of transactions, sorted by message id, the
clock that makes them due, the responses that end them. Handles of peers and callbacks with their
data are parameters; what a callback does is outside.
-/

set_option autoImplicit false

namespace JsEmbeddedPlatform.Transactions

open Coap (Packet MessageType coapInitMessage coapSetHeaderToken coapSerializeMessage
  coapSerializeGetSize coapOptionToken)
open Lwm2mData (Fault)
open Lwm2mList (lwm2mListAdd lwm2mListFind lwm2mListRemove replaceFound Sorted)

def coapResponseTimeout : Int := 2
def coapMaxRetransmit : Nat := 4
def coapDelete : UInt8 := 4
def unauthorized401 : UInt8 := 0x81
def internalServerError500 : Int := 0xA0

/-- `lwm2m_transaction_t`. The callback is given with its `userData`. -/
structure Transaction (Peer Callback : Type) where
  mID : UInt16
  peerH : Peer
  ackReceived : Bool := false
  responseTimeout : Int := 0
  retransCounter : Nat := 0
  retransTime : Int := 0
  message : Packet
  buffer : Option (List UInt8) := none
  callback : Option Callback := none
deriving DecidableEq

/-- What can be seen of a transaction: `lwm2m_buffer_send` of its buffer, a call of its callback,
an acknowledgement of what came. -/
inductive Event (Peer Callback : Type) where
  | send (mID : UInt16) (peerH : Peer) (buffer : List UInt8)
  | callback (mID : UInt16) (callback : Callback) (message : Option Packet)
  | ack (peerH : Peer) (mid : UInt16)
deriving DecidableEq

section Operations
variable {Peer Callback : Type}

def key (t : Transaction Peer Callback) : Nat := t.mID.toNat

def coapGetHeaderToken (p : Packet) : List UInt8 :=
  if coapOptionToken ∈ p.options then p.token else []

/-- The bytes of a token that is made up; the last two are what the stack holds. -/
def tempToken (mID : UInt16) (tvSec : Int) (stack : UInt8 × UInt8) : List UInt8 :=
  [mID.toUInt8, (mID >>> 8).toUInt8, UInt8.ofInt tvSec, UInt8.ofInt (tvSec / 2 ^ 8),
    UInt8.ofInt (tvSec / 2 ^ 16), UInt8.ofInt (tvSec / 2 ^ 24), stack.1, stack.2]

/-- `transaction_new` without a path, as a client calls it; `sessionH` is none for NULL. -/
def transactionNew (sessionH : Option Peer) (method : UInt8) (mID : UInt16) (tokenLen : Nat)
    (token : Option (List UInt8)) (tvSec : Int) (stack : UInt8 × UInt8) :
    Option (Transaction Peer Callback) :=
  match sessionH with
  | none => none
  | some peerH =>
    let message := coapInitMessage .con method mID
    some {
      mID := mID
      peerH := peerH
      message :=
        if 0 < tokenLen then
          coapSetHeaderToken message (token.getD ((tempToken mID tvSec stack).take tokenLen))
        else message }

def prvCheckFinished (t : Transaction Peer Callback) (receivedMessage : Packet) : Bool :=
  if coapDelete < t.message.code then t.ackReceived
  else if coapOptionToken ∉ t.message.options then t.ackReceived
  else decide (t.message.token = coapGetHeaderToken receivedMessage)

def transactionRemove (list : List (Transaction Peer Callback)) (t : Transaction Peer Callback) :
    List (Transaction Peer Callback) :=
  (lwm2mListRemove key (key t) list).1

def runCallback (t : Transaction Peer Callback) (message : Option Packet) :
    List (Event Peer Callback) :=
  match t.callback with
  | none => []
  | some callback => [.callback t.mID callback message]

/-- The first part of `transaction_send`: none where the transaction is given up. The length of the
buffer is kept in 16 bits, and a message that needs more is written behind it. -/
def fillBuffer (malloc : Bool) (t : Transaction Peer Callback) :
    Except Fault (Option (Transaction Peer Callback)) :=
  match t.buffer with
  | some _ => .ok (some t)
  | none =>
    let bufferLen := coapSerializeGetSize t.message % 2 ^ 16
    if bufferLen = 0 then .ok none
    else if malloc then
      let (buffer, message) := coapSerializeMessage t.message
      if bufferLen < buffer.length then .error .memory
      else .ok (some { t with buffer := some buffer, message := message })
    else .ok none

/-- The second part, with whether the last try was made. A clock that fails leaves `timeout` as it
is; the transaction ends then. -/
def transmit (tvSec : Int) (t : Transaction Peer Callback) :
    Transaction Peer Callback × Bool × List (Event Peer Callback) :=
  if t.ackReceived then (t, false, [])
  else
    let timeout : Int :=
      if t.retransCounter = 0 then 0
      else coapResponseTimeout * 2 ^ (t.retransCounter - 1)
    let failed := t.retransCounter = 0 ∧ tvSec < 0
    let t :=
      if t.retransCounter = 0 ∧ 0 ≤ tvSec then
        { t with
          retransTime := tvSec + coapResponseTimeout
          retransCounter := 1 }
      else t
    if t.retransCounter ≤ coapMaxRetransmit + 1 then
      ({ t with
          retransTime := t.retransTime + timeout
          retransCounter := t.retransCounter + 1 },
        failed, [.send t.mID t.peerH (t.buffer.getD [])])
    else (t, true, [])

/-- What `transaction_send` returns, the list, the transaction where it is still in it. -/
structure Sent (Peer Callback : Type) where
  result : Int
  list : List (Transaction Peer Callback)
  transaction : Transaction Peer Callback
  events : List (Event Peer Callback)

def transactionSend (malloc : Bool) (tvSec : Int) (list : List (Transaction Peer Callback))
    (t : Transaction Peer Callback) : Except Fault (Sent Peer Callback) :=
  match fillBuffer malloc t with
  | .error fault => .error fault
  | .ok none => .ok ⟨internalServerError500, transactionRemove list t, t, []⟩
  | .ok (some filled) =>
    let (t, maxRetriesReached, events) := transmit tvSec filled
    if t.ackReceived ∨ maxRetriesReached then
      .ok ⟨-1, transactionRemove list t, t, events ++ runCallback t none⟩
    else .ok ⟨0, replaceFound key (key t) t list, t, events⟩

def interval (currentTime : Int) (t : Transaction Peer Callback) : Int :=
  if currentTime < t.retransTime then t.retransTime - currentTime else 1

/-- The loop of `transaction_step` over the nodes from `transacP` on. -/
def stepFrom (malloc : Bool) (currentTime tvSec : Int) :
    List (Transaction Peer Callback) → List (Transaction Peer Callback) → Int →
      Except Fault (List (Transaction Peer Callback) × Int × List (Event Peer Callback))
  | [], list, timeout => .ok (list, timeout, [])
  | t :: pending, list, timeout =>
    if t.retransTime ≤ currentTime then
      match transactionSend malloc tvSec list t with
      | .error fault => .error fault
      | .ok sent =>
        let timeout :=
          if sent.result = 0 then
            if interval currentTime sent.transaction < timeout then
              interval currentTime sent.transaction
            else timeout
          else 1
        match stepFrom malloc currentTime tvSec pending sent.list timeout with
        | .error fault => .error fault
        | .ok (list, timeout, events) => .ok (list, timeout, sent.events ++ events)
    else
      stepFrom malloc currentTime tvSec pending list
        (if interval currentTime t < timeout then interval currentTime t else timeout)

def transactionStep (malloc : Bool) (currentTime tvSec : Int)
    (list : List (Transaction Peer Callback)) (timeout : Int) :
    Except Fault (List (Transaction Peer Callback) × Int × List (Event Peer Callback)) :=
  stepFrom malloc currentTime tvSec list list timeout

/-- What a message of its peer does with one transaction, none where the search goes on. -/
def respond (tvSec : Int) (message : Packet) (response : Bool) (t : Transaction Peer Callback) :
    Option (Option (Transaction Peer Callback) × List (Event Peer Callback)) :=
  let found : Bool :=
    !t.ackReceived && (message.type = .ack || message.type = .rst) && t.mID = message.mid
  let t := if found then { t with ackReceived := true } else t
  let reset : Bool := found && message.type = .rst
  if reset || prvCheckFinished t message then
    let acks := if !reset && message.type = .con && response then [.ack t.peerH message.mid] else []
    if !reset && message.code = unauthorized401 && t.retransCounter < coapMaxRetransmit then
      some (some { t with
        ackReceived := false
        retransTime := t.retransTime + coapResponseTimeout }, acks)
    else some (none, acks ++ runCallback t (some message))
  else if found then
    some (some { t with
      retransTime := (if 0 ≤ tvSec then tvSec else t.retransTime) +
        (if t.responseTimeout ≠ 0 then t.responseTimeout
          else coapResponseTimeout * t.retransCounter) }, [])
  else none

/-- The loop of `transaction_handleResponse` over the nodes from `transacP` on. -/
def handleFrom [DecidableEq Peer] (tvSec : Int) (fromSessionH : Peer) (message : Packet)
    (response : Bool) (list : List (Transaction Peer Callback)) :
    List (Transaction Peer Callback) →
      List (Transaction Peer Callback) × Bool × List (Event Peer Callback)
  | [] => (list, false, [])
  | t :: pending =>
    if fromSessionH = t.peerH then
      match respond tvSec message response t with
      | some (some t', events) => (replaceFound key (key t) t' list, true, events)
      | some (none, events) => (transactionRemove list t, true, events)
      | none => handleFrom tvSec fromSessionH message response list pending
    else handleFrom tvSec fromSessionH message response list pending

def transactionHandleResponse [DecidableEq Peer] (tvSec : Int) (fromSessionH : Peer)
    (message : Packet) (response : Bool) (list : List (Transaction Peer Callback)) :
    List (Transaction Peer Callback) × Bool × List (Event Peer Callback) :=
  handleFrom tvSec fromSessionH message response list list

/-! ## The context -/

/-- The list and what the clock read last. -/
structure Context (Peer Callback : Type) where
  now : Int
  transactionList : List (Transaction Peer Callback)

inductive Action (Peer Callback : Type) where
  /-- a transaction that was made, put into the list and sent -/
  | start (malloc : Bool) (t : Transaction Peer Callback)
  | step (malloc : Bool) (timeout : Int)
  | response (fromSessionH : Peer) (message : Packet) (response : Bool)

/-- An action with what the clock reads in it. -/
structure Input (Peer Callback : Type) where
  time : Int
  action : Action Peer Callback

/-- A transaction that was not sent yet. -/
def Unsent (t : Transaction Peer Callback) : Prop :=
  t.ackReceived = false ∧ t.responseTimeout = 0 ∧ t.retransCounter = 0 ∧ t.buffer = none

instance (t : Transaction Peer Callback) : Decidable (Unsent t) := by
  unfold Unsent
  infer_instance

/-- The clock does not go back, and a message id is not used again while it is in use: the list
would hold two nodes of one id. -/
def contextStep [DecidableEq Peer] (c : Context Peer Callback) (i : Input Peer Callback) :
    Option (Context Peer Callback × List (Event Peer Callback)) :=
  if i.time < c.now then none
  else
    match i.action with
    | .start malloc t =>
      if Unsent t ∧ lwm2mListFind key (key t) c.transactionList = none then
        match transactionSend malloc i.time (lwm2mListAdd key t c.transactionList) t with
        | .error _ => none
        | .ok sent => some (⟨i.time, sent.list⟩, sent.events)
      else none
    | .step malloc timeout =>
      match transactionStep malloc i.time i.time c.transactionList timeout with
      | .error _ => none
      | .ok (list, _, events) => some (⟨i.time, list⟩, events)
    | .response fromSessionH message response =>
      let (list, _, events) :=
        transactionHandleResponse i.time fromSessionH message response c.transactionList
      some (⟨i.time, list⟩, events)

end Operations

end JsEmbeddedPlatform.Transactions
