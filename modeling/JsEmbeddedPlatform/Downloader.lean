import JsEmbeddedPlatform.InetAddr
import JsEmbeddedPlatform.Shared.LittleEndian

/-!
# The firmware downloader

`firmware_downloader_start` is cut at its calls of `recv`: a state is what the function
has between two of them, and a packet, or none when the call fails, takes it to the
next. The port's storage is a record of the functions it calls. Every call that can be
seen from outside is logged in the order in which it is made.
-/

set_option autoImplicit false

namespace JsEmbeddedPlatform.Downloader

open Timers (Port)

def firmwareSucc : UInt8 := 0
def firmwareEraseErr : UInt8 := 1
def firmwareWriteErr : UInt8 := 2

def firmwareDownloaderSucc : UInt8 := 0
def firmwareDownloaderErrConn : UInt8 := 1
def firmwareDownloaderErrWrite : UInt8 := 3
def firmwareDownloaderErrBadUri : UInt8 := 4
def firmwareDownloaderErrMem : UInt8 := 5

def chunkSize : Nat := 512
def chunkMultiplier : Nat := 8
def bufferSize : Nat := chunkSize + 16

def payloadTypeRequest : UInt8 := 0x04
def payloadTypeDescription : UInt8 := 0x05
def payloadTypeFlowStart : UInt8 := 0xA0
def payloadTypeFlowEnd : UInt8 := 0xA3
def payloadTypeChunk : UInt8 := 0xA1
def payloadTypeChunkAck : UInt8 := 0xA2

/-- The functions of `platform/firmware.h`. A pointer is given as the bytes that can be read from
it on; `writeCodeChunk` takes its offset and its length after the data. -/
structure FirmwarePlatform (σ : Type) where
  writeStart : List UInt8 → σ → UInt8 × σ
  writeCodeChunk : List UInt8 → Nat → Nat → σ → UInt8 × σ
  writeFinish : σ → UInt8 × σ
  writeCleanup : σ → σ
  maxMemory : Nat

inductive Event where
  | killEventloopThread
  | errorLedOff
  | socket (ok : Bool)
  | connect (address : Nat) (port : Int) (ok : Bool)
  | malloc (ok : Bool)
  | send (packet : List UInt8) (ok : Bool)
  | writeStart (name : List UInt8) (result : UInt8)
  | writeCodeChunk (data : List UInt8) (offset length : Nat) (result : UInt8)
  | writeFinish (result : UInt8)
  | close
  | writeCleanup
  | free
  | startEventloopThread
  | errorLedOn
deriving DecidableEq, Repr

/-- `description` and `chunks` wait in one of the two loops. `overrun` is after a host of more
than 19 characters, which `sscanf` writes past the end of `ip`. -/
inductive Phase where
  | description
  | chunks
  | returned (res : UInt8)
  | overrun
deriving DecidableEq, Repr

/-- `buff` is what can be read from the pointer of that name on: the block that is allocated and
what follows it in memory. -/
structure Download (σ : Type) where
  phase : Phase
  buff : List UInt8
  store : σ
  trace : List Event
deriving DecidableEq, Repr

section Run
variable {σ : Type}

def Download.log (e : Event) (d : Download σ) : Download σ := { d with trace := d.trace ++ [e] }

/-- A call of the system, whose outcome is given by its place in the trace. -/
def ask (outcome : Nat → Bool) (e : Bool → Event) (d : Download σ) : Bool × Download σ :=
  (outcome d.trace.length, d.log (e (outcome d.trace.length)))

def overwrite (bytes buff : List UInt8) : List UInt8 := bytes ++ buff.drop bytes.length

def Download.put (bytes : List UInt8) (d : Download σ) : Download σ :=
  { d with buff := overwrite bytes d.buff }

def Download.id (d : Download σ) : UInt8 := d.buff.getD 0 0

/-- A packed field of `w` bytes. -/
def Download.field (i w : Nat) (d : Download σ) : Nat :=
  LittleEndian.decode ((d.buff.drop i).take w)

/-- From the label `cleanup` on. -/
def cleanup (P : FirmwarePlatform σ) (res : UInt8) (allocated : Bool) (d : Download σ) :
    Download σ :=
  { d with
    phase := .returned res
    store := P.writeCleanup d.store
    trace := d.trace ++ [.close, .writeCleanup] ++ (if allocated then [.free] else []) ++
      [if res = firmwareSucc then .startEventloopThread else .errorLedOn] }

/-- `send` of the first `n` bytes of the buffer, with the jump that follows a failure. -/
def sendBuffer (P : FirmwarePlatform σ) (outcome : Nat → Bool) (n : Nat) (d : Download σ) :
    Download σ :=
  let (sent, d) := ask outcome (.send (d.buff.take n)) d
  if sent then d else cleanup P firmwareDownloaderErrConn true d

/-- `struct payload_request` -/
def request : List UInt8 := [payloadTypeRequest, UInt8.ofNat (chunkSize / chunkMultiplier)]

def sendRequest (P : FirmwarePlatform σ) (outcome : Nat → Bool) (d : Download σ) : Download σ :=
  let (allocated, d) := ask outcome .malloc d
  if allocated then sendBuffer P outcome 2 (d.put request)
  else cleanup P firmwareDownloaderErrMem false d

def openConnection (port : Port) (P : FirmwarePlatform σ) (outcome : Nat → Bool)
    (uri : PackageUri.Scanned) (d : Download σ) : Download σ :=
  let (opened, d) := ask outcome .socket d
  if opened then
    let (connected, d) := 
      ask outcome (.connect (InetAddr.inetAddr port uri.ip) (uri.port % 65536)) d
    if connected then sendRequest P outcome d
    else { d with phase := .returned firmwareDownloaderErrConn }
  else { d with phase := .returned firmwareDownloaderErrConn }

/-- Up to the first `recv`. `heap` is what the block has in it that `malloc` returns, and what
follows it. -/
def start (port : Port) (P : FirmwarePlatform σ) (outcome : Nat → Bool) (uri heap : List UInt8)
    (store : σ) : Download σ :=
  let d : Download σ := ⟨.description, heap, store, [.killEventloopThread, .errorLedOff]⟩
  let scanned := PackageUri.sscanf port uri
  if PackageUri.uriProtocol.isPrefixOf uri then
    if 20 ≤ scanned.ip.length then { d with phase := .overrun }
    else if scanned.port = 0 ∨ scanned.ip = [] then
      { d with phase := .returned firmwareDownloaderErrBadUri }
    else openConnection port P outcome scanned d
  else { d with phase := .returned firmwareDownloaderErrBadUri }

def callWriteStart (P : FirmwarePlatform σ) (d : Download σ) : UInt8 × Download σ :=
  let (res, store) := P.writeStart (d.buff.drop 4) d.store
  (res, { d with store := store }.log (.writeStart (CString.text (d.buff.drop 4)) res))

def callWriteCodeChunk (P : FirmwarePlatform σ) (offset length : Nat) (d : Download σ) :
    UInt8 × Download σ :=
  let (res, store) := P.writeCodeChunk (d.buff.drop 7) offset length d.store
  (res, { d with store := store }.log
    (.writeCodeChunk ((d.buff.drop 7).take length) offset length res))

def callWriteFinish (P : FirmwarePlatform σ) (d : Download σ) : UInt8 × Download σ :=
  let (res, store) := P.writeFinish d.store
  (res, { d with store := store }.log (.writeFinish res))

/-- The first loop, after `recv` returned `recvLen` bytes. -/
def describe (P : FirmwarePlatform σ) (outcome : Nat → Bool) (recvLen : Nat) (d : Download σ) :
    Download σ :=
  if recvLen < 2 ∨ d.id ≠ payloadTypeDescription then d
  else if P.maxMemory < d.field 1 2 * chunkSize then
    cleanup P firmwareDownloaderErrMem true d
  else
    let (res, d) := callWriteStart P d
    if res = firmwareSucc then
      sendBuffer P outcome 1 { d.put [payloadTypeFlowStart] with phase := .chunks }
    else cleanup P firmwareDownloaderErrWrite true d

def finish (P : FirmwarePlatform σ) (d : Download σ) : Download σ :=
  let (res, d) := callWriteFinish P d
  if res = firmwareSucc then cleanup P firmwareDownloaderSucc true d
  else cleanup P firmwareWriteErr true d

def writeChunk (P : FirmwarePlatform σ) (outcome : Nat → Bool) (currChunk chunkLen : Nat)
    (d : Download σ) : Download σ :=
  let (res, d) := callWriteCodeChunk P (currChunk * chunkSize) chunkLen d
  if res = firmwareSucc then
    sendBuffer P outcome 3 (d.put (payloadTypeChunkAck :: LittleEndian.encode 2 currChunk))
  else cleanup P firmwareDownloaderErrWrite true d

/-- The second loop, after `recv` returned `recvLen` bytes. -/
def receiveChunk (P : FirmwarePlatform σ) (outcome : Nat → Bool) (recvLen : Nat) (d : Download σ) :
    Download σ :=
  if d.id = payloadTypeFlowEnd then finish P d
  else if 2 < recvLen ∧ d.id = payloadTypeChunk then
    writeChunk P outcome (d.field 1 2) (d.field 3 4) d
  else d

/-- `recv` returns `packet`, of which it takes as much as the buffer has room for; an empty one
is a connection that is closed, or an error. -/
def receive (P : FirmwarePlatform σ) (outcome : Nat → Bool) (d : Download σ)
    (packet : List UInt8) : Download σ :=
  let received := packet.take bufferSize
  match d.phase with
  | .description =>
    if received = [] then cleanup P firmwareDownloaderErrConn true d
    else describe P outcome received.length (d.put received)
  | .chunks =>
    if received = [] then cleanup P firmwareDownloaderErrConn true d
    else receiveChunk P outcome received.length (d.put received)
  | _ => d

def receiveAll (P : FirmwarePlatform σ) (outcome : Nat → Bool) (d : Download σ)
    (packets : List (List UInt8)) : Download σ :=
  packets.foldl (receive P outcome) d

/-- The packets as the inputs of a run. -/
def recvStep (P : FirmwarePlatform σ) (outcome : Nat → Bool) (d : Download σ)
    (packet : List UInt8) : Option (Download σ × Unit) := some (receive P outcome d packet, ())

def firmwareDownloaderStart (port : Port) (P : FirmwarePlatform σ) (outcome : Nat → Bool)
    (uri heap : List UInt8) (store : σ) (packets : List (List UInt8)) : Download σ :=
  receiveAll P outcome (start port P outcome uri heap store) packets

end Run

/-! ## One packet -/

section Packet
variable {σ : Type} {P : FirmwarePlatform σ} {outcome : Nat → Bool}

/-- What lies behind the bytes that are written stays. -/
theorem drop_overwrite {bytes : List UInt8} {i : Nat} (h : bytes.length ≤ i) (buff : List UInt8) :
    (overwrite bytes buff).drop i = buff.drop i := by
  unfold overwrite
  rw [List.drop_append, List.drop_eq_nil_of_le h, List.nil_append, List.drop_drop]
  congr 1
  omega

@[simp] theorem log_trace (e : Event) (d : Download σ) : (d.log e).trace = d.trace ++ [e] := rfl
@[simp] theorem log_store (e : Event) (d : Download σ) : (d.log e).store = d.store := rfl
@[simp] theorem log_phase (e : Event) (d : Download σ) : (d.log e).phase = d.phase := rfl

@[simp] theorem put_trace (bytes : List UInt8) (d : Download σ) :
    (d.put bytes).trace = d.trace := rfl
@[simp] theorem put_store (bytes : List UInt8) (d : Download σ) :
    (d.put bytes).store = d.store := rfl
@[simp] theorem put_phase (bytes : List UInt8) (d : Download σ) :
    (d.put bytes).phase = d.phase := rfl
@[simp] theorem put_buff (bytes : List UInt8) (d : Download σ) :
    (d.put bytes).buff = overwrite bytes d.buff := rfl

@[simp] theorem cleanup_phase (res : UInt8) (allocated : Bool) (d : Download σ) :
    (cleanup P res allocated d).phase = .returned res := rfl
@[simp] theorem cleanup_store (res : UInt8) (allocated : Bool) (d : Download σ) :
    (cleanup P res allocated d).store = P.writeCleanup d.store := rfl

theorem cleanup_trace_grows (res : UInt8) (allocated : Bool) (d : Download σ) :
    d.trace <+: (cleanup P res allocated d).trace := by
  unfold cleanup
  simp only [List.append_assoc]
  exact List.prefix_append _ _

theorem receiveAll_cons (d : Download σ) (packet : List UInt8) (packets : List (List UInt8)) :
    receiveAll P outcome d (packet :: packets) =
      receiveAll P outcome (receive P outcome d packet) packets := rfl

theorem receiveAll_append (d : Download σ) (packets later : List (List UInt8)) :
    receiveAll P outcome d (packets ++ later) =
      receiveAll P outcome (receiveAll P outcome d packets) later :=
  List.foldl_append ..

theorem receive_over {d : Download σ} (h : d.phase ≠ .description ∧ d.phase ≠ .chunks)
    (packet : List UInt8) : receive P outcome d packet = d := by
  unfold receive
  split
  · next hphase => exact absurd hphase h.1
  · next hphase => exact absurd hphase h.2
  · rfl

theorem receiveAll_over {d : Download σ} (h : d.phase ≠ .description ∧ d.phase ≠ .chunks)
    (packets : List (List UInt8)) : receiveAll P outcome d packets = d := by
  induction packets with
  | nil => rfl
  | cons packet packets ih =>
    unfold receiveAll at ih ⊢
    rw [List.foldl_cons, receive_over h, ih]

theorem receiveAll_returned {d : Download σ} {res : UInt8} (h : d.phase = .returned res)
    (packets : List (List UInt8)) : receiveAll P outcome d packets = d :=
  receiveAll_over (by rw [h]; exact ⟨nofun, nofun⟩) packets

theorem describe_ignores {recvLen : Nat} {d : Download σ}
    (h : recvLen < 2 ∨ d.id ≠ payloadTypeDescription) : describe P outcome recvLen d = d :=
  if_pos h

/-- What `send` and the jump do. -/
theorem sendBuffer_cases (P : FirmwarePlatform σ) (outcome : Nat → Bool) (n : Nat)
    (d : Download σ) :
    sendBuffer P outcome n d = d.log (.send (d.buff.take n) true) ∨
      sendBuffer P outcome n d =
        cleanup P firmwareDownloaderErrConn true (d.log (.send (d.buff.take n) false)) := by
  unfold sendBuffer ask
  cases h : outcome d.trace.length with
  | true => exact Or.inl (by simp)
  | false => exact Or.inr (by simp)

theorem sendBuffer_grows (n : Nat) (d : Download σ) :
    d.trace <+: (sendBuffer P outcome n d).trace := by
  rcases sendBuffer_cases P outcome n d with h | h
  · rw [h]
    exact List.prefix_append _ _
  · rw [h]
    refine List.IsPrefix.trans ?_ (cleanup_trace_grows ..)
    exact List.prefix_append _ _

theorem describe_grows (recvLen : Nat) (d : Download σ) :
    d.trace <+: (describe P outcome recvLen d).trace := by
  unfold describe
  split
  · exact List.prefix_rfl
  · split
    · exact cleanup_trace_grows ..
    · apply (show d.trace <+: (callWriteStart P d).2.trace from List.prefix_append _ _).trans
      simp only
      split
      · refine List.IsPrefix.trans ?_ (sendBuffer_grows ..)
        exact List.prefix_rfl
      · exact cleanup_trace_grows ..

theorem receiveChunk_grows (recvLen : Nat) (d : Download σ) :
    d.trace <+: (receiveChunk P outcome recvLen d).trace := by
  unfold receiveChunk
  split
  · unfold finish
    apply (show d.trace <+: (callWriteFinish P d).2.trace from List.prefix_append _ _).trans
    simp only
    split <;> exact cleanup_trace_grows ..
  · split
    · unfold writeChunk
      generalize d.field 1 2 = currChunk, d.field 3 4 = chunkLen
      apply (show d.trace <+: (callWriteCodeChunk P (currChunk * chunkSize) chunkLen d).2.trace
        from List.prefix_append _ _).trans
      simp only
      split
      · refine List.IsPrefix.trans ?_ (sendBuffer_grows ..)
        exact List.prefix_rfl
      · exact cleanup_trace_grows ..
    · exact List.prefix_rfl

/-- What was logged stays logged. -/
theorem receive_grows (d : Download σ) (packet : List UInt8) :
    d.trace <+: (receive P outcome d packet).trace := by
  unfold receive
  simp only
  split
  · split
    · exact cleanup_trace_grows ..
    · exact describe_grows _ (d.put _)
  · split
    · exact cleanup_trace_grows ..
    · exact receiveChunk_grows _ (d.put _)
  · exact List.prefix_rfl

theorem receiveAll_grows (d : Download σ) (packets : List (List UInt8)) :
    d.trace <+: (receiveAll P outcome d packets).trace := by
  induction packets generalizing d with
  | nil => exact List.prefix_rfl
  | cons packet packets ih => exact (receive_grows d packet).trans (ih _)

end Packet

/-! ## The first calls -/

section Start
variable {σ : Type} {P : FirmwarePlatform σ} {outcome : Nat → Bool}

/-- A buffer is sent, or the run is over. -/
theorem sendBuffer_step (P : FirmwarePlatform σ) (outcome : Nat → Bool) (n : Nat)
    (d : Download σ) :
    sendBuffer P outcome n d = d.log (.send (d.buff.take n) true) ∨
      ((∃ code, (sendBuffer P outcome n d).phase = .returned code) ∧
        (sendBuffer P outcome n d).store = P.writeCleanup d.store) := by
  rcases sendBuffer_cases P outcome n d with heq | heq
  · exact Or.inl heq
  · rw [heq]
    exact Or.inr ⟨⟨_, rfl⟩, rfl⟩

/-- With a URI that is accepted and a host that fits, a connection is opened. -/
theorem start_accepted {port : Port} {uri : List UInt8}
    (huri : PackageUri.Accepted (PackageUri.sscanf port uri))
    (hip : (PackageUri.sscanf port uri).ip.length < 20) (P : FirmwarePlatform σ)
    (outcome : Nat → Bool) (heap : List UInt8) (store : σ) :
    start port P outcome uri heap store =
      openConnection port P outcome (PackageUri.sscanf port uri)
        ⟨.description, heap, store, [.killEventloopThread, .errorLedOff]⟩ := by
  obtain ⟨rest, hform, _⟩ := PackageUri.accepted_form huri
  have hbegins : PackageUri.uriProtocol.isPrefixOf uri = true := by
    rw [List.isPrefixOf_iff_prefix, hform]
    exact List.prefix_append _ _
  have hopen : ¬ ((PackageUri.sscanf port uri).port = 0 ∨ (PackageUri.sscanf port uri).ip = []) := by
    intro h
    rcases h with h | h
    · exact huri.1 h
    · exact huri.2 h
  have hshort : ¬ 20 ≤ (PackageUri.sscanf port uri).ip.length := by omega
  unfold start
  simp only [hbegins, if_true, hshort, if_false, hopen]

/-- The first calls, when they all succeed. -/
def connected (port : Port) (uri : PackageUri.Scanned) : List Event :=
  [.killEventloopThread, .errorLedOff, .socket true,
    .connect (InetAddr.inetAddr port uri.ip) (uri.port % 65536) true, .malloc true,
    .send request true]

theorem start_waits (hall : ∀ n, outcome n = true) {port : Port} {uri : List UInt8}
    (huri : PackageUri.Accepted (PackageUri.sscanf port uri))
    (hip : (PackageUri.sscanf port uri).ip.length < 20) (heap : List UInt8) (store : σ) :
    start port P outcome uri heap store =
      ⟨.description, overwrite request heap, store,
        connected port (PackageUri.sscanf port uri)⟩ := by
  rw [start_accepted huri hip]
  unfold openConnection sendRequest sendBuffer ask
  generalize PackageUri.sscanf port uri = scanned
  simp only [hall, if_true]
  rfl

theorem sendRequest_cases (P : FirmwarePlatform σ) (outcome : Nat → Bool) {d : Download σ}
    (hphase : d.phase = .description) :
    ((sendRequest P outcome d).phase = .description ∧
        (sendRequest P outcome d).buff = overwrite request d.buff ∧
        (sendRequest P outcome d).store = d.store) ∨
      ((∃ code, (sendRequest P outcome d).phase = .returned code) ∧
        (sendRequest P outcome d).store = P.writeCleanup d.store) := by
  unfold sendRequest ask
  generalize outcome d.trace.length = allocated
  cases allocated with
  | true =>
    simp only [if_true]
    rcases sendBuffer_step P outcome 2 ((d.log (.malloc true)).put request) with hsent | hover
    · rw [hsent]
      exact Or.inl ⟨hphase, rfl, rfl⟩
    · exact Or.inr hover
  | false => exact Or.inr ⟨⟨_, rfl⟩, rfl⟩

/-- The request is sent with a connection open, or the run ends before it and with an error. -/
theorem start_requests (port : Port) (P : FirmwarePlatform σ) (outcome : Nat → Bool)
    (uri heap : List UInt8) (store : σ) :
    (∃ ip connected, start port P outcome uri heap store =
        sendRequest P outcome ⟨.description, heap, store,
          [.killEventloopThread, .errorLedOff, .socket true, .connect ip connected true]⟩) ∨
      (((start port P outcome uri heap store).phase = .overrun ∨
          ∃ code, (start port P outcome uri heap store).phase = .returned code ∧
            code ≠ firmwareDownloaderSucc) ∧
        (start port P outcome uri heap store).store = store) := by
  unfold start openConnection ask
  simp only
  split
  · split
    · exact Or.inr ⟨Or.inl rfl, rfl⟩
    · split
      · exact Or.inr ⟨Or.inr ⟨_, rfl, by decide⟩, rfl⟩
      · split
        · next hsocket =>
          split
          · next hconnect =>
            rw [hconnect, hsocket]
            exact Or.inl ⟨_, _, rfl⟩
          · exact Or.inr ⟨Or.inr ⟨_, rfl, by decide⟩, rfl⟩
        · exact Or.inr ⟨Or.inr ⟨_, rfl, by decide⟩, rfl⟩
  · exact Or.inr ⟨Or.inr ⟨_, rfl, by decide⟩, rfl⟩

/-- A run that does not come to wait for the description has not called the storage, but for the
clean-up. -/
theorem start_cases (port : Port) (P : FirmwarePlatform σ) (outcome : Nat → Bool)
    (uri heap : List UInt8) (store : σ) :
    ((start port P outcome uri heap store).phase = .description ∧
        (start port P outcome uri heap store).buff = overwrite request heap ∧
        (start port P outcome uri heap store).store = store) ∨
      (((start port P outcome uri heap store).phase ≠ .description ∧
          (start port P outcome uri heap store).phase ≠ .chunks) ∧
        ((start port P outcome uri heap store).store = store ∨
          (start port P outcome uri heap store).store = P.writeCleanup store)) := by
  rcases start_requests port P outcome uri heap store with
    ⟨ip, connected, hstart⟩ | ⟨hover | ⟨code, hreturned, _⟩, hstore⟩
  · rw [hstart]
    rcases sendRequest_cases P outcome (d := ⟨.description, heap, store,
        [.killEventloopThread, .errorLedOff, .socket true, .connect ip connected true]⟩) rfl with
      hwaits | ⟨⟨code, hreturned⟩, hstore⟩
    · exact Or.inl hwaits
    · exact Or.inr ⟨by rw [hreturned]; exact ⟨nofun, nofun⟩, Or.inr hstore⟩
  · exact Or.inr ⟨by rw [hover]; exact ⟨nofun, nofun⟩, Or.inl hstore⟩
  · exact Or.inr ⟨by rw [hreturned]; exact ⟨nofun, nofun⟩, Or.inl hstore⟩

end Start

/-! ## Packets of the server -/

/-- `struct payload_description`; `nameLen` is a byte that the downloader does not look at. -/
def descriptionPacket (chunkNum nameLen : Nat) (name : List UInt8) : List UInt8 :=
  payloadTypeDescription :: (LittleEndian.encode 2 chunkNum ++ UInt8.ofNat nameLen :: name)

/-- `struct payload_chunk` -/
def chunkPacket (chunkId length : Nat) (data : List UInt8) : List UInt8 :=
  payloadTypeChunk :: (LittleEndian.encode 2 chunkId ++ (LittleEndian.encode 4 length ++ data))

section Fields
variable {σ : Type} {P : FirmwarePlatform σ} {outcome : Nat → Bool} {d : Download σ}

@[simp] theorem length_descriptionPacket (chunkNum nameLen : Nat) (name : List UInt8) :
    (descriptionPacket chunkNum nameLen name).length = 4 + name.length := by
  simp only [descriptionPacket, List.length_cons, List.length_append, LittleEndian.length_encode]
  omega

@[simp] theorem length_chunkPacket (chunkId length : Nat) (data : List UInt8) :
    (chunkPacket chunkId length data).length = 7 + data.length := by
  simp only [chunkPacket, List.length_cons, List.length_append, LittleEndian.length_encode]
  omega

theorem put_descriptionPacket_name (chunkNum nameLen : Nat) (name : List UInt8)
    (d : Download σ) :
    (d.put (descriptionPacket chunkNum nameLen name)).buff.drop 4 =
      name ++ d.buff.drop (4 + name.length) := by
  have hsplit : descriptionPacket chunkNum nameLen name =
      (payloadTypeDescription :: (LittleEndian.encode 2 chunkNum ++ [UInt8.ofNat nameLen])) ++
        name := by
    simp [descriptionPacket]
  rw [put_buff, overwrite, length_descriptionPacket, hsplit, List.append_assoc]
  exact List.drop_left' (by simp)

theorem put_descriptionPacket_chunkNum {chunkNum : Nat} (h : chunkNum < 65536) (nameLen : Nat)
    (name : List UInt8) (d : Download σ) :
    (d.put (descriptionPacket chunkNum nameLen name)).field 1 2 = chunkNum := by
  simp only [Download.field, put_buff, overwrite, descriptionPacket, List.cons_append,
    List.append_assoc, List.drop_succ_cons, List.drop_zero]
  exact LittleEndian.decode_take_encode h _

theorem put_chunkPacket_data (chunkId length : Nat) (data : List UInt8) (d : Download σ) :
    (d.put (chunkPacket chunkId length data)).buff.drop 7 =
      data ++ d.buff.drop (7 + data.length) := by
  have hsplit : chunkPacket chunkId length data =
      (payloadTypeChunk :: (LittleEndian.encode 2 chunkId ++ LittleEndian.encode 4 length)) ++
        data := by
    simp [chunkPacket]
  rw [put_buff, overwrite, length_chunkPacket, hsplit, List.append_assoc]
  exact List.drop_left' (by simp)

theorem put_chunkPacket_id {chunkId : Nat} (h : chunkId < 65536) (length : Nat)
    (data : List UInt8) (d : Download σ) :
    (d.put (chunkPacket chunkId length data)).field 1 2 = chunkId := by
  simp only [Download.field, put_buff, overwrite, chunkPacket, List.cons_append,
    List.append_assoc, List.drop_succ_cons, List.drop_zero]
  exact LittleEndian.decode_take_encode h _

theorem put_chunkPacket_length (chunkId : Nat) {length : Nat} (h : length < 4294967296)
    (data : List UInt8) (d : Download σ) :
    (d.put (chunkPacket chunkId length data)).field 3 4 = length := by
  simp only [Download.field, put_buff, overwrite, chunkPacket, List.cons_append,
    List.append_assoc, List.drop_succ_cons]
  rw [List.drop_append_of_le_length (by simp), List.drop_eq_nil_of_le (by simp), List.nil_append]
  exact LittleEndian.decode_take_encode h _

/-- A description that `recv` returns alone. -/
theorem receive_description (hphase : d.phase = .description) {chunkNum : Nat}
    (hnum : chunkNum < 65536) (nameLen : Nat) {name : List UInt8}
    (hname : 4 + name.length ≤ bufferSize) :
    receive P outcome d (descriptionPacket chunkNum nameLen name) =
      let received := d.put (descriptionPacket chunkNum nameLen name)
      if P.maxMemory < chunkNum * chunkSize then cleanup P firmwareDownloaderErrMem true received
      else if (callWriteStart P received).1 = firmwareSucc then
        sendBuffer P outcome 1
          { (callWriteStart P received).2.put [payloadTypeFlowStart] with phase := .chunks }
      else cleanup P firmwareDownloaderErrWrite true (callWriteStart P received).2 := by
  unfold receive
  rw [List.take_of_length_le (by rw [length_descriptionPacket]; exact hname), hphase]
  simp only
  rw [if_neg (by simp [descriptionPacket])]
  unfold describe
  rw [if_neg (by
    rw [length_descriptionPacket]
    intro h
    rcases h with h | h
    · omega
    · exact h rfl), put_descriptionPacket_chunkNum hnum]

/-- A chunk that `recv` returns alone. -/
theorem receive_chunk (hphase : d.phase = .chunks) {chunkId length : Nat} (hid : chunkId < 65536)
    (hlength : length < 4294967296) {data : List UInt8} (hdata : 7 + data.length ≤ bufferSize) :
    receive P outcome d (chunkPacket chunkId length data) =
      writeChunk P outcome chunkId length (d.put (chunkPacket chunkId length data)) := by
  unfold receive
  rw [List.take_of_length_le (by rw [length_chunkPacket]; exact hdata), hphase]
  simp only
  rw [if_neg (by simp [chunkPacket])]
  unfold receiveChunk
  have hne : (d.put (chunkPacket chunkId length data)).id = payloadTypeChunk := rfl
  rw [hne, if_neg (by decide), if_pos ⟨by rw [length_chunkPacket]; omega, rfl⟩,
    put_chunkPacket_id hid, put_chunkPacket_length chunkId hlength]

theorem receive_flowEnd (hphase : d.phase = .chunks) :
    receive P outcome d [payloadTypeFlowEnd] = finish P (d.put [payloadTypeFlowEnd]) := by
  unfold receive
  rw [List.take_of_length_le (by simp [bufferSize]), hphase]
  rfl

/-- A chunk is written and acknowledged, or the run is over. -/
theorem writeChunk_step {id length : Nat} {res : UInt8} {store : σ}
    (h : P.writeCodeChunk (d.buff.drop 7) (id * chunkSize) length d.store = (res, store)) :
    (res = firmwareSucc ∧ (writeChunk P outcome id length d).phase = d.phase ∧
        (writeChunk P outcome id length d).store = store) ∨
      ((∃ code, (writeChunk P outcome id length d).phase = .returned code) ∧
        (writeChunk P outcome id length d).store = P.writeCleanup store) := by
  unfold writeChunk callWriteCodeChunk
  rw [h]
  simp only
  split
  · next hok =>
    rcases sendBuffer_step P outcome 3 ((Download.log (.writeCodeChunk ((d.buff.drop 7).take length)
      (id * chunkSize) length res) { d with store := store }).put
        (payloadTypeChunkAck :: LittleEndian.encode 2 id)) with hsent | hover
    · rw [hsent]
      exact Or.inl ⟨hok, rfl, rfl⟩
    · exact Or.inr hover
  · exact Or.inr ⟨⟨_, rfl⟩, rfl⟩

/-- A description is refused, or storage is started and the flow with it, or the run is over. -/
theorem receive_description_step (hphase : d.phase = .description) {chunkNum : Nat}
    (hnum : chunkNum < 65536) (hcheck : chunkNum * chunkSize ≤ P.maxMemory) (nameLen : Nat)
    {name : List UInt8} (hname : 4 + name.length ≤ bufferSize) {res : UInt8} {store : σ}
    (h : P.writeStart (name ++ d.buff.drop (4 + name.length)) d.store = (res, store)) :
    (res = firmwareSucc ∧
        (receive P outcome d (descriptionPacket chunkNum nameLen name)).phase = .chunks ∧
        (receive P outcome d (descriptionPacket chunkNum nameLen name)).store = store) ∨
      ((∃ code,
          (receive P outcome d (descriptionPacket chunkNum nameLen name)).phase = .returned code) ∧
        (receive P outcome d (descriptionPacket chunkNum nameLen name)).store =
          P.writeCleanup store) := by
  rw [receive_description hphase hnum nameLen hname]
  simp only
  rw [if_neg (by omega)]
  unfold callWriteStart
  rw [put_descriptionPacket_name, put_store, h]
  simp only
  split
  · next hok =>
    rcases sendBuffer_step P outcome 1 { (Download.log (.writeStart
      (CString.text (name ++ d.buff.drop (4 + name.length))) res)
        { d.put (descriptionPacket chunkNum nameLen name) with store := store }).put
          [payloadTypeFlowStart] with phase := .chunks } with hsent | hover
    · rw [hsent]
      exact Or.inl ⟨hok, rfl, rfl⟩
    · exact Or.inr hover
  · exact Or.inr ⟨⟨_, rfl⟩, rfl⟩

theorem finish_store (d : Download σ) :
    (∃ code, (finish P d).phase = .returned code) ∧
      (finish P d).store = P.writeCleanup (P.writeFinish d.store).2 := by
  unfold finish callWriteFinish
  simp only
  split <;> exact ⟨⟨_, rfl⟩, rfl⟩

section Sent
variable (hall : ∀ n, outcome n = true)
include hall

theorem sendBuffer_sent (n : Nat) (d : Download σ) :
    sendBuffer P outcome n d = d.log (.send (d.buff.take n) true) := by
  unfold sendBuffer ask
  simp [hall]

theorem sendBuffer_put (bytes : List UInt8) (d : Download σ) :
    sendBuffer P outcome bytes.length (d.put bytes) = (d.put bytes).log (.send bytes true) := by
  rw [sendBuffer_sent hall, put_buff, overwrite, List.take_left]

theorem writeChunk_sent {id length : Nat} {store : σ}
    (h : P.writeCodeChunk (d.buff.drop 7) (id * chunkSize) length d.store =
      (firmwareSucc, store)) :
    writeChunk P outcome id length d =
      (Download.put (payloadTypeChunkAck :: LittleEndian.encode 2 id)
        (Download.log (.writeCodeChunk ((d.buff.drop 7).take length) (id * chunkSize) length
          firmwareSucc) { d with store := store })).log
        (.send (payloadTypeChunkAck :: LittleEndian.encode 2 id) true) := by
  unfold writeChunk callWriteCodeChunk
  rw [h]
  simp only [if_true]
  exact sendBuffer_put hall (payloadTypeChunkAck :: LittleEndian.encode 2 id) _

theorem receive_description_sent (hphase : d.phase = .description) {chunkNum : Nat}
    (hnum : chunkNum < 65536) (hcheck : chunkNum * chunkSize ≤ P.maxMemory) (nameLen : Nat)
    {name : List UInt8} (hname : 4 + name.length ≤ bufferSize) {store : σ}
    (h : P.writeStart (name ++ d.buff.drop (4 + name.length)) d.store = (firmwareSucc, store)) :
    receive P outcome d (descriptionPacket chunkNum nameLen name) =
      Download.log (.send [payloadTypeFlowStart] true)
        { Download.put [payloadTypeFlowStart] (Download.log
            (.writeStart (CString.text (name ++ d.buff.drop (4 + name.length))) firmwareSucc)
            { d.put (descriptionPacket chunkNum nameLen name) with store := store }) with
          phase := .chunks } := by
  rw [receive_description hphase hnum nameLen hname]
  simp only
  rw [if_neg (by omega)]
  unfold callWriteStart
  rw [put_descriptionPacket_name, put_store, h]
  simp only [if_true]
  rw [sendBuffer_sent hall]
  rfl

end Sent

end Fields

/-- A URI that is accepted. -/
def firmUri : List UInt8 := CString.ascii "firm://10.0.0.2:10001"

/-- Memory for the buffer. -/
def freshHeap : List UInt8 := List.replicate bufferSize 0

end JsEmbeddedPlatform.Downloader
