import JsEmbeddedPlatform.Downloader

/-!
# The firmware uploader

`utils/firmware-uploader.js` with one connection. A state is what the program has between
two of its callbacks, of which there is one for data and one for a read of the file; each
hands back what it writes to the socket, or nothing when it throws.
-/

set_option autoImplicit false

namespace JsEmbeddedPlatform.Uploader

open Downloader (payloadTypeRequest payloadTypeDescription payloadTypeFlowStart payloadTypeFlowEnd
  payloadTypeChunk payloadTypeChunkAck chunkMultiplier descriptionPacket chunkPacket)

/-- A call of `fs.read` that has not called back. `current` says that the buffer that it fills is
still `chunk_buffer`. -/
structure PendingRead where
  length : Nat
  current : Bool
deriving DecidableEq, Repr

/-- `programName` is `process.argv[2]`, which is also the name of the file; `position` is where the
next read of it begins. -/
structure Server where
  file : List UInt8
  programName : List UInt8
  chunkSize : Nat
  chunkBuffer : Option (List UInt8)
  endFlag : Bool
  currChunk : Nat
  position : Nat
  reads : List PendingRead
deriving DecidableEq, Repr

/-- Listening, with the first connection. -/
def connected (file programName : List UInt8) : Server :=
  ⟨file, programName, 0, none, false, 0, 0, []⟩

/-- `Math.ceil(a / b)` -/
def ceilDiv (a b : Nat) : Nat := (a + b - 1) / b

def fileBytesAligned (fileBytes : Nat) : Nat := chunkMultiplier * ceilDiv fileBytes chunkMultiplier

/-- Bytes put into a buffer that has room for them. -/
def writeAt (i : Nat) (bytes buffer : List UInt8) : List UInt8 :=
  buffer.take i ++ bytes ++ buffer.drop (i + bytes.length)

/-- `Buffer.alloc(size, 0, 'ascii')` -/
def alloc (size : Nat) : List UInt8 := List.replicate size 0

/-- `buff[1]*CHUNK_MULTIPLIER || 256`, where a byte that is not there makes it NaN. -/
def requestedSize (buff : List UInt8) : Nat :=
  if (buff.getD 1 0).toNat * chunkMultiplier = 0 then 256
  else (buff.getD 1 0).toNat * chunkMultiplier

def descBuff (chunkCount : Nat) (programName : List UInt8) : List UInt8 :=
  writeAt (4 + programName.length) [0]
    (writeAt 3 [UInt8.ofNat (programName.length + 1)]
      (writeAt 1 (LittleEndian.encode 2 chunkCount)
        (writeAt 0 [payloadTypeDescription]
          (writeAt 4 programName (alloc (5 + programName.length))))))

def sendChunk (u : Server) : Option (Server × List (List UInt8)) :=
  match u.chunkBuffer with
  | none => none
  | some buffer =>
    some ({ u with
      chunkBuffer := some (alloc buffer.length)
      reads := u.reads ++ [⟨u.chunkSize, true⟩] }, [])

/-- The answer to a request; `writeUInt16LE` throws when the count does not fit. -/
def describe (buff : List UInt8) (u : Server) : Option (Server × List (List UInt8)) :=
  let chunkSize := requestedSize buff
  let chunkCount := ceilDiv (fileBytesAligned u.file.length) chunkSize
  if chunkCount < 65536 then
    some ({ u with
      chunkSize := chunkSize
      chunkBuffer := some (alloc (chunkSize + 7))
      reads := u.reads.map fun r => { r with current := false } },
      [descBuff chunkCount u.programName])
  else none

/-- `socket.on('data', ...)` -/
def onData (buff : List UInt8) (u : Server) : Option (Server × List (List UInt8)) :=
  if buff.getD 0 0 = payloadTypeRequest then describe buff u
  else if buff.getD 0 0 = payloadTypeFlowStart then sendChunk u
  else if buff.getD 0 0 = payloadTypeChunkAck then
    -- `readUInt16LE(1)` throws when there are not three bytes
    if buff.length < 3 then none
    else if u.endFlag then some (u, [[payloadTypeFlowEnd]])
    else sendChunk u
  else some (u, [])

/-- What the callback of `fs.read` makes of `chunk_buffer`. -/
def fillChunk (currChunk chunkSize : Nat) (bytesRead : Nat) (buffer : List UInt8) : List UInt8 :=
  let ended := if bytesRead < chunkSize then writeAt (7 + bytesRead) [0] buffer else buffer
  let chunkBytesToSend := if bytesRead < chunkSize then bytesRead + 1 else bytesRead
  writeAt 3 (LittleEndian.encode 4 chunkBytesToSend)
    (writeAt 1 (LittleEndian.encode 2 currChunk) (writeAt 0 [payloadTypeChunk] ended))

/-- The first of the reads has read all it was asked for, or what is left of the file. The third
argument of `socket.write` is not a length: the whole buffer is written. -/
def readDone (r : PendingRead) (rest : List PendingRead) (u : Server) :
    Option (Server × List (List UInt8)) :=
  let bytes := (u.file.drop u.position).take r.length
  match u.chunkBuffer with
  | none => none
  | some buffer =>
    let filled := fillChunk u.currChunk u.chunkSize bytes.length
      (if r.current then writeAt 7 bytes buffer else buffer)
    if u.currChunk < 65536 then
      some ({ u with
        chunkBuffer := some filled
        endFlag := u.endFlag || decide (bytes.length < u.chunkSize)
        currChunk := u.currChunk + 1
        position := u.position + bytes.length
        reads := rest }, [filled])
    else none

/-! ## The packets -/

section Packets

/-- Bytes that are replaced by as many others. -/
theorem writeAt_middle {i : Nat} {before old bytes : List UInt8} (hi : i = before.length)
    (hlength : old.length = bytes.length) (after : List UInt8) :
    writeAt i bytes (before ++ (old ++ after)) = before ++ (bytes ++ after) := by
  unfold writeAt
  rw [List.take_left' hi.symm, ← List.append_assoc before old,
    List.drop_left' (by rw [List.length_append]; omega), List.append_assoc]

theorem alloc_add (m n : Nat) : alloc (m + n) = alloc m ++ alloc n :=
  List.replicate_add ..

@[simp] theorem length_alloc (n : Nat) : (alloc n).length = n := List.length_replicate

/-- `desc_buff` is a `struct payload_description`, with the NUL behind the name. -/
theorem descBuff_eq (chunkCount : Nat) (programName : List UInt8) :
    descBuff chunkCount programName =
      descriptionPacket chunkCount (programName.length + 1) (programName ++ [0]) := by
  have hname : writeAt 4 programName (alloc (5 + programName.length)) =
      alloc 4 ++ (programName ++ [0]) := by
    have hsize : 5 + programName.length = 4 + (programName.length + 1) := by omega
    rw [hsize, alloc_add, alloc_add]
    exact writeAt_middle (length_alloc 4).symm (length_alloc _) _
  have hheader : ∀ rest, writeAt 3 [UInt8.ofNat (programName.length + 1)]
      (writeAt 1 (LittleEndian.encode 2 chunkCount)
        (writeAt 0 [payloadTypeDescription] (alloc 4 ++ rest))) =
      descriptionPacket chunkCount (programName.length + 1) rest := fun _ => rfl
  unfold descBuff
  rw [hname, hheader]
  have hend : descriptionPacket chunkCount (programName.length + 1) (programName ++ [0]) =
      descriptionPacket chunkCount (programName.length + 1) programName ++ ([0] ++ []) := by
    simp [descriptionPacket]
  rw [hend]
  exact writeAt_middle (by simp) rfl _

/-- Filled up with NULs. -/
def padded (n : Nat) (bytes : List UInt8) : List UInt8 := bytes ++ alloc (n - bytes.length)

theorem length_padded {n : Nat} {bytes : List UInt8} (h : bytes.length ≤ n) :
    (padded n bytes).length = n := by
  unfold padded
  rw [List.length_append, length_alloc]
  omega

/-- How many bytes a chunk announces: the last one has a NUL behind what is left of the file. -/
def chunkLength (chunkSize : Nat) (bytes : List UInt8) : Nat :=
  if bytes.length < chunkSize then bytes.length + 1 else bytes.length

/-- `chunk_buffer` is a `struct payload_chunk`, padded to the size of all chunks. -/
theorem fillChunk_eq (currChunk : Nat) {chunkSize : Nat} {bytes : List UInt8}
    (h : bytes.length ≤ chunkSize) :
    fillChunk currChunk chunkSize bytes.length (writeAt 7 bytes (alloc (chunkSize + 7))) =
      chunkPacket currChunk (chunkLength chunkSize bytes) (padded chunkSize bytes) := by
  have hdata : writeAt 7 bytes (alloc (chunkSize + 7)) = alloc 7 ++ padded chunkSize bytes := by
    have hsize : chunkSize + 7 = 7 + (bytes.length + (chunkSize - bytes.length)) := by omega
    rw [hsize, alloc_add, alloc_add]
    exact writeAt_middle (length_alloc 7).symm (length_alloc _) _
  have hended : (if bytes.length < chunkSize then
      writeAt (7 + bytes.length) [0] (alloc 7 ++ padded chunkSize bytes)
      else alloc 7 ++ padded chunkSize bytes) = alloc 7 ++ padded chunkSize bytes := by
    split
    · next hlt =>
      have hsplit : alloc 7 ++ padded chunkSize bytes =
          (alloc 7 ++ bytes) ++ ([0] ++ alloc (chunkSize - bytes.length - 1)) := by
        have hroom : chunkSize - bytes.length = 1 + (chunkSize - bytes.length - 1) := by omega
        unfold padded
        rw [hroom, alloc_add, List.append_assoc]
        simp [alloc]
      rw [hsplit]
      exact writeAt_middle (by simp) rfl _
    · rfl
  unfold fillChunk
  rw [hdata]
  simp only
  rw [hended]
  rfl

end Packets

end JsEmbeddedPlatform.Uploader
