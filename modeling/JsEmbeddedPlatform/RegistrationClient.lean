import JsEmbeddedPlatform.RegisterPayload
import JsEmbeddedPlatform.Retransmission

/-!
# The registrations of a client

The servers of a client and its transactions: registrations, updates and deregistrations are
requests whose replies change the state of a server. The calls come in any order; the servers are
those that the client has, and the bootstrap is outside.
-/

set_option autoImplicit false

namespace JsEmbeddedPlatform.Registration

open CString (ascii)
open Coap (Packet coapSetHeaderUriPath coapSetHeaderUriQuery coapSetHeaderContentType
  coapSetPayload)
open Lwm2mList (lwm2mListAdd lwm2mListFind)
open Transactions (Transaction transactionNew transactionSend transactionStep
  transactionHandleResponse key coapDelete)

def noError : UInt8 := 0
def created201 : UInt8 := 0x41
def changed204 : UInt8 := 0x44
def badRequest400 : UInt8 := 0x80
def notFound404 : UInt8 := 0x84
def internalServerError500 : UInt8 := 0xA0
def serviceUnavailable503 : UInt8 := 0xA3
def coapPost : UInt8 := 2
def lwm2mContentLink : UInt32 := 40
def uriRegistration : List UInt8 := ascii "/rd"

/-- The factor of its definition is 1.5. -/
def coapMaxTransmitWait : Int := 93

inductive Status where
  | deregistered
  | regPending
  | registered
  | regFailed
  | regUpdatePending
  | regUpdateNeeded
  | regFullUpdateNeeded
  | deregPending
deriving DecidableEq, Repr

/-- The functions that are called with a reply. -/
inductive Handler where
  | registrationReply
  | registrationUpdateReply
  | deregistrationReply
deriving DecidableEq, Repr

/-- A handler with its `userData`, the server. -/
structure Callback where
  handler : Handler
  server : UInt16
deriving DecidableEq, Repr

structure Server (Peer : Type) where
  secObjInstID : UInt16
  shortID : UInt16
  lifetime : Int
  registration : Int
  binding : Binding
  sessionH : Option Peer
  status : Status
  location : Option (List UInt8)
deriving DecidableEq

abbrev Event (Peer : Type) := Transactions.Event Peer Callback

/-- What a server is changed with. -/
structure Link (Peer : Type) where
  context : Transactions.Context Peer Callback
  nextMID : UInt16

/-- What its surroundings let a request do: which allocations succeed, what the connection is. -/
structure Attempt (Peer : Type) where
  payload : Bool
  query : Bool
  connect : Option Peer
  transaction : Bool
  buffer : Bool
  stack : UInt8 × UInt8

/-! ## Replies -/

section Replies
variable {Peer : Type}

def coapGetMultiOptionAsString (malloc : Bool) (option : List (List UInt8)) :
    Option (List UInt8) :=
  if malloc then some (option.flatMap fun o => 47 :: o) else none

def Server.setRegistration (server : Server Peer) (tvSec : Int) : Server Peer :=
  if 0 ≤ tvSec then { server with registration := tvSec } else server

def prvHandleRegistrationReply (tvSec : Int) (malloc : Bool) (server : Server Peer)
    (packet : Option Packet) : Server Peer :=
  if server.status = .regPending then
    let server := server.setRegistration tvSec
    match packet with
    | some packet =>
      if packet.code = created201 then
        { server with
          status := .registered
          location := coapGetMultiOptionAsString malloc packet.locationPath }
      else { server with status := .regFailed }
    | none => { server with status := .regFailed }
  else server

def prvHandleRegistrationUpdateReply (tvSec : Int) (server : Server Peer)
    (packet : Option Packet) : Server Peer :=
  if server.status = .regUpdatePending then
    let server := server.setRegistration tvSec
    match packet with
    | some packet =>
      if packet.code = changed204 then { server with status := .registered }
      else { server with status := .regFailed }
    | none => { server with status := .regFailed }
  else server

def prvHandleDeregistrationReply (server : Server Peer) : Server Peer :=
  if server.status = .deregPending then { server with status := .deregistered } else server

def handleReply (tvSec : Int) (malloc : Bool) (server : Server Peer) (packet : Option Packet) :
    Handler → Server Peer
  | .registrationReply => prvHandleRegistrationReply tvSec malloc server packet
  | .registrationUpdateReply => prvHandleRegistrationUpdateReply tvSec server packet
  | .deregistrationReply => prvHandleDeregistrationReply server

/-- The calls of handlers with this server, in their order. -/
def replies (tvSec : Int) (malloc : Bool) : List (Event Peer) → Server Peer → Server Peer
  | [], server => server
  | .callback _ callback packet :: events, server =>
    if callback.server = server.secObjInstID then
      replies tvSec malloc events (handleReply tvSec malloc server packet callback.handler)
    else replies tvSec malloc events server
  | _ :: events, server => replies tvSec malloc events server

end Replies

/-! ## Requests -/

section Requests
variable {Peer : Type}

/-- None where it cannot be made; the lengths that are counted suffice. -/
def registerPayload (c : Registrant) (malloc : Bool) : Option (List UInt8) :=
  match objectGetRegisterPayloadBufferLength c with
  | .error _ => none
  | .ok length => if malloc then (objectGetRegisterPayload c length).toOption else none

/-- The query without its NUL. -/
def registrationQuery (c : Registrant) (server : Server Peer) (malloc : Bool) :
    Option (List UInt8) :=
  match prvGetRegistrationQueryLength c server.binding server.lifetime with
  | .error _ => none
  | .ok length =>
    if malloc then
      match prvGetRegistrationQuery c server.binding server.lifetime length with
      | .error _ => none
      | .ok query => if query.length = length then some query.dropLast else none
    else none

def newTransaction (tvSec : Int) (a : Attempt Peer) (sessionH : Option Peer) (method : UInt8)
    (mID : UInt16) : Option (Transaction Peer Callback) :=
  if a.transaction then transactionNew sessionH method mID 4 none tvSec a.stack else none

/-- A transaction is put into the list and sent; the flag is whether `transaction_send` returned 0.
None for a message id in use, for a clock that goes back and for a write behind the buffer. -/
def addAndSend (tvSec : Int) (a : Attempt Peer) (l : Link Peer)
    (t : Transaction Peer Callback) : Option (Link Peer × Bool × List (Event Peer)) :=
  if tvSec < l.context.now ∨ lwm2mListFind key (key t) l.context.transactionList ≠ none then none
  else
    match transactionSend a.buffer tvSec (lwm2mListAdd key t l.context.transactionList) t with
    | .error _ => none
    | .ok sent =>
      some ({ l with context := ⟨tvSec, sent.list⟩ }, decide (sent.result = 0), sent.events)

/-- The request is sent, and the server waits for the reply. -/
def request (tvSec : Int) (malloc : Bool) (a : Attempt Peer) (l : Link Peer)
    (server : Server Peer) (t : Transaction Peer Callback) (message : Packet) (handler : Handler)
    (pending : Status) : Option (Link Peer × Server Peer × Bool) :=
  match addAndSend tvSec a l
      { t with message := message, callback := some ⟨handler, server.secObjInstID⟩ } with
  | none => none
  | some (l, sent, events) =>
    let server := replies tvSec malloc events server
    some (l, if sent then { server with status := pending } else server, sent)

def prvRegister (tvSec : Int) (malloc : Bool) (c : Registrant) (a : Attempt Peer) (l : Link Peer)
    (server : Server Peer) : Option (Link Peer × Server Peer × UInt8) :=
  match registerPayload c a.payload with
  | none => some (l, server, internalServerError500)
  | some payload =>
    match registrationQuery c server a.query with
    | none => some (l, server, internalServerError500)
    | some query =>
      let server := { server with sessionH := server.sessionH <|> a.connect }
      if server.sessionH.isNone then some (l, server, serviceUnavailable503)
      else
        let mID := l.nextMID
        let l := { l with nextMID := mID + 1 }
        match newTransaction tvSec a server.sessionH coapPost mID with
        | none => some (l, server, serviceUnavailable503)
        | some t =>
          let message := coapSetHeaderUriPath t.message uriRegistration
          let message := coapSetHeaderUriQuery message query
          let message := coapSetHeaderContentType message lwm2mContentLink
          let message := coapSetPayload message payload
          match request tvSec malloc a l server t message .registrationReply .regPending with
          | none => none
          | some (l, server, sent) =>
            some (l, server, if sent then noError else serviceUnavailable503)

/-- None where the location is NULL, which is read. -/
def prvUpdateRegistration (tvSec : Int) (malloc : Bool) (c : Registrant) (a : Attempt Peer)
    (withObjects : Bool) (l : Link Peer) (server : Server Peer) :
    Option (Link Peer × Server Peer) :=
  let mID := l.nextMID
  let l := { l with nextMID := mID + 1 }
  match newTransaction tvSec a server.sessionH coapPost mID with
  | none => some (l, server)
  | some t =>
    match server.location with
    | none => none
    | some location =>
      let message := coapSetHeaderUriPath t.message location
      let message :=
        if withObjects then (registerPayload c a.payload).map (coapSetPayload message)
        else some message
      match message with
      | none => some (l, server)
      | some message =>
        match request tvSec malloc a l server t message .registrationUpdateReply
            .regUpdatePending with
        | none => none
        | some (l, server, _) => some (l, server)

def registrationDeregister (tvSec : Int) (malloc : Bool) (a : Attempt Peer) (l : Link Peer)
    (server : Server Peer) : Option (Link Peer × Server Peer) :=
  if server.status = .deregistered ∨ server.status = .regPending ∨ server.status = .deregPending ∨
      server.status = .regFailed then some (l, server)
  else
    match server.location with
    | none => some (l, server)
    | some location =>
      let mID := l.nextMID
      let l := { l with nextMID := mID + 1 }
      match newTransaction tvSec a server.sessionH coapDelete mID with
      | none => some (l, server)
      | some t =>
        match request tvSec malloc a l server t (coapSetHeaderUriPath t.message location)
            .deregistrationReply .deregPending with
        | none => none
        | some (l, server, _) => some (l, server)

/-! ## Loops over the servers -/

/-- A loop over the servers; a code stops it. -/
def walk {Acc : Type} (body : Acc → Server Peer → Option (Acc × Server Peer × Option UInt8)) :
    Acc → List (Server Peer) → Option (Acc × List (Server Peer) × Option UInt8)
  | acc, [] => some (acc, [], none)
  | acc, server :: rest =>
    match body acc server with
    | none => none
    | some (acc, server, some code) => some (acc, server :: rest, some code)
    | some (acc, server, none) =>
      match walk body acc rest with
      | none => none
      | some (acc, rest, code) => some (acc, server :: rest, code)

def startBody (tvSec : Int) (malloc : Bool) (c : Registrant) (attempts : UInt16 → Attempt Peer)
    (l : Link Peer) (server : Server Peer) :
    Option (Link Peer × Server Peer × Option UInt8) :=
  if server.status = .deregistered ∨ server.status = .regFailed then
    match prvRegister tvSec malloc c (attempts server.secObjInstID) l server with
    | none => none
    | some (l, server, result) => some (l, server, if result = noError then none else some result)
  else some (l, server, none)

/-- `registration_start`. -/
def registrationStart (tvSec : Int) (malloc : Bool) (c : Registrant)
    (attempts : UInt16 → Attempt Peer) (l : Link Peer) (servers : List (Server Peer)) :
    Option (Link Peer × List (Server Peer) × Option UInt8) :=
  walk (startBody tvSec malloc c attempts) l servers

def updateStatus (withObjects : Bool) : Status :=
  if withObjects then .regFullUpdateNeeded else .regUpdateNeeded

/-- With a short id the first server that has it is meant, else all. -/
def updateBody (shortServerID : UInt16) (withObjects : Bool) (_ : Unit) (server : Server Peer) :
    Option (Unit × Server Peer × Option UInt8) :=
  if shortServerID ≠ 0 then
    if server.shortID = shortServerID then
      match server.status with
      | .registered | .regUpdatePending =>
        some ((), { server with status := updateStatus withObjects }, some noError)
      | .regFullUpdateNeeded | .regUpdateNeeded =>
        some ((), if withObjects then { server with status := .regFullUpdateNeeded } else server,
          some noError)
      | _ => some ((), server, some badRequest400)
    else some ((), server, none)
  else
    match server.status with
    | .registered | .regUpdatePending =>
      some ((), { server with status := updateStatus withObjects }, none)
    | _ => some ((), server, none)

/-- `lwm2m_update_registration` of a client that has a server. -/
def lwm2mUpdateRegistration (shortServerID : UInt16) (withObjects : Bool)
    (servers : List (Server Peer)) : Option (List (Server Peer) × UInt8) :=
  if servers = [] then none
  else
    match walk (updateBody shortServerID withObjects) () servers with
    | none => none
    | some (_, servers, code) =>
      some (servers, code.getD (if shortServerID ≠ 0 then notFound404 else noError))

def deregisterBody (tvSec : Int) (malloc : Bool) (attempts : UInt16 → Attempt Peer)
    (l : Link Peer) (server : Server Peer) : Option (Link Peer × Server Peer × Option UInt8) :=
  match registrationDeregister tvSec malloc (attempts server.secObjInstID) l server with
  | none => none
  | some (l, server) => some (l, server, none)

def lwm2mDeregister (tvSec : Int) (malloc : Bool) (attempts : UInt16 → Attempt Peer)
    (l : Link Peer) (servers : List (Server Peer)) :
    Option (Link Peer × List (Server Peer) × Option UInt8) :=
  walk (deregisterBody tvSec malloc attempts) l servers

/-- How long after a registration it is updated. -/
def nextUpdate (lifetime : Int) : Int :=
  if coapMaxTransmitWait < lifetime then lifetime - coapMaxTransmitWait else lifetime / 2

def stepBody (currentTime : Int) (malloc : Bool) (c : Registrant)
    (attempts : UInt16 → Attempt Peer) (acc : Link Peer × Int) (server : Server Peer) :
    Option ((Link Peer × Int) × Server Peer × Option UInt8) :=
  let (l, timeout) := acc
  let update (withObjects : Bool) : Option ((Link Peer × Int) × Server Peer × Option UInt8) :=
    match prvUpdateRegistration currentTime malloc c (attempts server.secObjInstID) withObjects l
        server with
    | none => none
    | some (l, server) => some ((l, timeout), server, none)
  match server.status with
  | .registered =>
    let interval := server.registration + nextUpdate server.lifetime - currentTime
    if interval ≤ 0 then update false
    else some ((l, if interval < timeout then interval else timeout), server, none)
  | .regUpdateNeeded => update false
  | .regFullUpdateNeeded => update true
  | .regFailed => some ((l, timeout), { server with sessionH := none }, none)
  | _ => some ((l, timeout), server, none)

/-- `registration_step`, with the time to sleep. -/
def registrationStep (currentTime : Int) (malloc : Bool) (c : Registrant)
    (attempts : UInt16 → Attempt Peer) (timeout : Int) (l : Link Peer)
    (servers : List (Server Peer)) :
    Option ((Link Peer × Int) × List (Server Peer) × Option UInt8) :=
  walk (stepBody currentTime malloc c attempts) (l, timeout) servers

end Requests

/-! ## The client -/

structure Client (Peer : Type) where
  link : Link Peer
  serverList : List (Server Peer)

inductive Action (Peer : Type) where
  | start (c : Registrant) (attempts : UInt16 → Attempt Peer)
  | update (shortServerID : UInt16) (withObjects : Bool)
  | deregister (attempts : UInt16 → Attempt Peer)
  | registrationStep (c : Registrant) (attempts : UInt16 → Attempt Peer) (timeout : Int)
  | transactionStep (malloc : Bool) (timeout : Int)
  | response (fromSessionH : Peer) (message : Packet) (response : Bool)

/-- An action with the clock in it and whether the text of a location can be allocated. -/
structure Input (Peer : Type) where
  time : Int
  malloc : Bool
  action : Action Peer

section Client
variable {Peer : Type} [DecidableEq Peer]

/-- The handlers are called while the transactions are walked through, and change none of them. -/
def transactionsStep (c : Client Peer) (i : Input Peer)
    (action : Transactions.Action Peer Callback) : Option (Client Peer) :=
  match Transactions.contextStep c.link.context ⟨i.time, action⟩ with
  | none => none
  | some (context, events) =>
    some ⟨{ c.link with context := context }, c.serverList.map (replies i.time i.malloc events)⟩

def clientStep (c : Client Peer) (i : Input Peer) : Option (Client Peer × Unit) :=
  match i.action with
  | .start registrant attempts =>
    (registrationStart i.time i.malloc registrant attempts c.link c.serverList).map
      fun (link, servers, _) => (⟨link, servers⟩, ())
  | .update shortServerID withObjects =>
    (lwm2mUpdateRegistration shortServerID withObjects c.serverList).map
      fun (servers, _) => (⟨c.link, servers⟩, ())
  | .deregister attempts =>
    (lwm2mDeregister i.time i.malloc attempts c.link c.serverList).map
      fun (link, servers, _) => (⟨link, servers⟩, ())
  | .registrationStep registrant attempts timeout =>
    (registrationStep i.time i.malloc registrant attempts timeout c.link c.serverList).map
      fun ((link, _), servers, _) => (⟨link, servers⟩, ())
  | .transactionStep malloc timeout =>
    (transactionsStep c i (.step malloc timeout)).map fun c => (c, ())
  | .response fromSessionH message response =>
    (transactionsStep c i (.response fromSessionH message response)).map fun c => (c, ())

end Client

end JsEmbeddedPlatform.Registration
