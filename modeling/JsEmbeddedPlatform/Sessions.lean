import JsEmbeddedPlatform.Delivery
import Mathlib.Logic.Function.Basic

/-!
# Many connections to one uploader

`utils/firmware-uploader.js` with any number of connections. The chunk size, the buffer, the
end flag and the position in the file are shared by all of them. A read is done in two steps:
its bytes come into the buffer, and later it calls back.
-/

set_option autoImplicit false

namespace JsEmbeddedPlatform.Sessions

open Downloader (payloadTypeRequest payloadTypeDescription payloadTypeFlowStart payloadTypeFlowEnd
  payloadTypeChunk payloadTypeChunkAck)
open Uploader (Server writeAt alloc requestedSize descBuff ceilDiv fileBytesAligned fillChunk)
open FileChunks (ackMessage)

/-! ## The process -/

/-- A call of `fs.read` that has not called back, of which `bytesRead` is known once it is done.
`current` is as in `Uploader.PendingRead`. -/
structure Read where
  connection : Nat
  length : Nat
  current : Bool
  bytesRead : Option Nat
deriving DecidableEq, Repr

/-- `connections` counts those that were made; `currChunk` is the only variable of their own. -/
structure Process where
  file : List UInt8
  programName : List UInt8
  chunkSize : Nat
  chunkBuffer : Option (List UInt8)
  endFlag : Bool
  connections : Nat
  currChunk : Nat → Nat
  position : Nat
  reads : List Read

def listening (file programName : List UInt8) : Process :=
  ⟨file, programName, 0, none, false, 0, fun _ => 0, 0, []⟩

/-- The listener of `net.createServer`. -/
def connect (p : Process) : Process :=
  { p with
    endFlag := false
    connections := p.connections + 1
    currChunk := Function.update p.currChunk p.connections 0 }

def sendChunk (c : Nat) (p : Process) : Option (Process × List (List UInt8)) :=
  match p.chunkBuffer with
  | none => none
  | some buffer =>
    some ({ p with
      chunkBuffer := some (alloc buffer.length)
      reads := p.reads ++ [⟨c, p.chunkSize, true, none⟩] }, [])

def describe (buff : List UInt8) (p : Process) : Option (Process × List (List UInt8)) :=
  let chunkSize := requestedSize buff
  let chunkCount := ceilDiv (fileBytesAligned p.file.length) chunkSize
  if chunkCount < 65536 then
    some ({ p with
      chunkSize := chunkSize
      chunkBuffer := some (alloc (chunkSize + 7))
      reads := p.reads.map fun r => { r with current := false } },
      [descBuff chunkCount p.programName])
  else none

/-- `socket.on('data', ...)` of connection `c`: what is written to its socket, or nothing when it
throws. -/
def onData (c : Nat) (buff : List UInt8) (p : Process) :
    Option (Process × List (List UInt8)) :=
  if buff.getD 0 0 = payloadTypeRequest then describe buff p
  else if buff.getD 0 0 = payloadTypeFlowStart then sendChunk c p
  else if buff.getD 0 0 = payloadTypeChunkAck then
    if buff.length < 3 then none
    else if p.endFlag then some (p, [[payloadTypeFlowEnd]])
    else sendChunk c p
  else some (p, [])

/-- The bytes at the position of the file, which all reads share. -/
def readBytes (r : Read) (p : Process) : List UInt8 := (p.file.drop p.position).take r.length

/-- Read `i`, which is `r`, fills its buffer. -/
def perform (i : Nat) (r : Read) (p : Process) : Process :=
  { p with
    chunkBuffer := if r.current then p.chunkBuffer.map (writeAt 7 (readBytes r p)) else p.chunkBuffer
    position := p.position + (readBytes r p).length
    reads := p.reads.set i { r with bytesRead := some (readBytes r p).length } }

/-- The callback of a read of `n` bytes, which leaves the reads `rest`. -/
def callback (c n : Nat) (rest : List Read) (p : Process) :
    Option (Process × List (List UInt8)) :=
  match p.chunkBuffer with
  | none => none
  | some buffer =>
    let filled := fillChunk (p.currChunk c) p.chunkSize n buffer
    if p.currChunk c < 65536 then
      some ({ p with
        chunkBuffer := some filled
        endFlag := p.endFlag || decide (n < p.chunkSize)
        currChunk := Function.update p.currChunk c (p.currChunk c + 1)
        reads := rest }, [filled])
    else none

/-! ## With one connection -/

/-- What `Uploader` has of a read. -/
def Read.pending (r : Read) : Uploader.PendingRead := ⟨r.length, r.current⟩

/-- What `Uploader` has of the process when `c` is the connection. -/
def Process.server (c : Nat) (p : Process) : Server :=
  ⟨p.file, p.programName, p.chunkSize, p.chunkBuffer, p.endFlag, p.currChunk c, p.position,
    p.reads.map Read.pending⟩

theorem sendChunk_server (c : Nat) (p : Process) :
    (sendChunk c p).map (Prod.map (Process.server c) id) = Uploader.sendChunk (p.server c) := by
  unfold sendChunk Uploader.sendChunk Process.server
  cases p.chunkBuffer with
  | none => rfl
  | some buffer => simp [Read.pending]

theorem onData_server (c : Nat) (buff : List UInt8) (p : Process) :
    (onData c buff p).map (Prod.map (Process.server c) id) =
      Uploader.onData buff (p.server c) := by
  have hflag : (p.server c).endFlag = p.endFlag := rfl
  unfold onData Uploader.onData
  rw [hflag, ← sendChunk_server]
  split
  · unfold describe Uploader.describe Process.server
    simp only
    split
    · simp [Function.comp_def, Read.pending]
    · rfl
  · split
    · rfl
    · split
      · split
        · rfl
        · split <;> rfl
      · rfl

/-- A read that calls back at once. -/
theorem read_server (i : Nat) (r : Read) (rest : List Read) (p : Process) :
    (callback r.connection (readBytes r p).length rest (perform i r p)).map
        (Prod.map (Process.server r.connection) id) =
      Uploader.readDone r.pending (rest.map Read.pending) (p.server r.connection) := by
  unfold callback Uploader.readDone perform Process.server Read.pending
  cases p.chunkBuffer with
  | none => simp
  | some buffer =>
    cases r.current with
    | true =>
      simp only [if_true, Option.map_some]
      split
      · simp [readBytes]
      · rfl
    | false =>
      simp only [Bool.false_eq_true, if_false]
      split
      · simp [readBytes]
      · rfl

/-! ## The clients -/

/-- Where a client is: what it has had an answer to, or what it waits for. After `strayed` it has
sent something else than the protocol has next. -/
inductive ClientStage where
  | connected
  | requested
  | described
  | reading
  | chunk
  | ended
  | strayed
deriving DecidableEq, Repr

/-- `ids` and `data` are of the chunks that it has received; of a chunk as many bytes are data as
it announces. -/
structure Client where
  stage : ClientStage
  ids : List Nat
  data : List UInt8
deriving DecidableEq, Repr

/-- What a client that follows the protocol sends next. -/
def Client.due (buff : List UInt8) (k : Client) : Bool :=
  match k.stage with
  | .connected => decide (buff.length = 2) && decide (buff.getD 0 0 = payloadTypeRequest)
  | .described => decide (buff = [payloadTypeFlowStart])
  | .chunk => decide (buff = ackMessage (k.ids.getLastD 0))
  | _ => false

def Client.send (buff : List UInt8) (k : Client) : Client :=
  if k.due buff then
    { k with stage := if k.stage = .connected then .requested else .reading }
  else { k with stage := .strayed }

def Client.receive (k : Client) (packet : List UInt8) : Client :=
  if k.stage = .strayed then k
  else if packet.getD 0 0 = payloadTypeDescription then { k with stage := .described }
  else if packet.getD 0 0 = payloadTypeChunk then
    { stage := .chunk
      ids := k.ids ++ [LittleEndian.decode ((packet.drop 1).take 2)]
      data := k.data ++ (packet.drop 7).take (LittleEndian.decode ((packet.drop 3).take 4)) }
  else if packet.getD 0 0 = payloadTypeFlowEnd then { k with stage := .ended }
  else k

/-! ## The system -/

/-- `process` is none when it has thrown. `taken` counts the bytes that the reads of a connection
have returned. -/
structure System where
  process : Option Process
  clients : Nat → Client
  taken : Nat → Nat

inductive Event where
  | connect
  | data (c : Nat) (buff : List UInt8)
  | perform (i : Nat)
  | callback (i : Nat)
deriving DecidableEq, Repr

def initial (file programName : List UInt8) : System :=
  ⟨some (listening file programName), fun _ => ⟨.connected, [], []⟩, fun _ => 0⟩

/-- A callback for connection `c` is done. -/
def System.answers (c : Nat) (s : System) :
    Option (Process × List (List UInt8)) → System × List (Nat × List UInt8)
  | none => ({ s with process := none }, [])
  | some (p, packets) =>
    ({ s with
      process := some p
      clients := Function.update s.clients c (packets.foldl Client.receive (s.clients c)) },
      packets.map fun packet => (c, packet))

/-- The output is what is written to which socket. -/
def step (s : System) (e : Event) : Option (System × List (Nat × List UInt8)) :=
  match s.process with
  | none => none
  | some p =>
    match e with
    | .connect => some ({ s with process := some (connect p) }, [])
    | .data c buff =>
      if c < p.connections then
        some (System.answers c
          { s with clients := Function.update s.clients c ((s.clients c).send buff) }
          (onData c buff p))
      else none
    | .perform i =>
      match p.reads[i]? with
      | none => none
      | some r =>
        if r.bytesRead = none then
          some ({ s with
            process := some (perform i r p)
            taken := Function.update s.taken r.connection
              (s.taken r.connection + (readBytes r p).length) }, [])
        else none
    | .callback i =>
      match p.reads[i]? with
      | none => none
      | some r =>
        match r.bytesRead with
        | none => none
        | some n =>
          some (System.answers r.connection s (callback r.connection n (p.reads.eraseIdx i) p))

/-! ## What the clients are to receive -/

/-- The file, in order, with a NUL behind it, and chunks that are numbered from 0 on. -/
structure Client.Served (file : List UInt8) (k : Client) : Prop where
  ids : k.ids = List.range k.ids.length
  data : k.data <+: file ++ [0]
  complete : k.stage = .ended → k.data = file ++ [0]

def Served (file : List UInt8) (s : System) : Prop :=
  ∀ c, (s.clients c).stage ≠ .strayed → (s.clients c).Served file

/-- `chunk_buffer` is replaced or cleared. -/
def Clears (buff : List UInt8) (p : Process) : Prop :=
  buff.getD 0 0 = payloadTypeRequest ∨ buff.getD 0 0 = payloadTypeFlowStart ∨
    (buff.getD 0 0 = payloadTypeChunkAck ∧ p.endFlag = false)

instance (buff : List UInt8) (p : Process) : Decidable (Clears buff p) :=
  inferInstanceAs (Decidable (_ ∨ _ ∨ _))

/-- What the sessions share is not touched by one while another needs it: the end flag is not
reset before the last acknowledgement, the buffer is not cleared while a read has not called
back, and a read begins where the connection's own reads have ended. -/
def Separate (s : System) (e : Event) : Prop :=
  match s.process with
  | none => True
  | some p =>
    match e with
    | .connect => p.endFlag = true → ∀ c < p.connections, (s.clients c).stage ≠ .chunk
    | .data _ buff => Clears buff p → p.reads = []
    | .perform i => ∀ r ∈ p.reads[i]?, p.position = s.taken r.connection
    | .callback _ => True

instance decidableSeparate (s : System) (e : Event) : Decidable (Separate s e) :=
  match hp : s.process, e with
  | none, _ => isTrue (by simp [Separate, hp])
  | some p, .connect =>
    decidable_of_iff
      (p.endFlag = true → ∀ c < p.connections, (s.clients c).stage ≠ .chunk)
      (by simp [Separate, hp])
  | some p, .data _ buff =>
    decidable_of_iff (Clears buff p → p.reads = []) (by simp [Separate, hp])
  | some p, .perform i =>
    decidable_of_iff (∀ r ∈ p.reads[i]?, p.position = s.taken r.connection)
      (by simp [Separate, hp])
  | some _, .callback _ => isTrue (by simp [Separate, hp])

end JsEmbeddedPlatform.Sessions
