import JsEmbeddedPlatform.Uploader

/-!
# The chunks of a file

What the uploader makes of its file chunk by chunk, for chunks of any size: the bytes of a chunk,
the packet it is sent in, and the states between the read of one chunk and the read of the next.
-/

set_option autoImplicit false

namespace JsEmbeddedPlatform.FileChunks

open Downloader (payloadTypeFlowStart payloadTypeFlowEnd payloadTypeChunkAck chunkPacket)
open Uploader

variable {size k : Nat} {file name : List UInt8}

/-! ## The bytes -/

/-- The bytes of the file that are sent with chunk `k`. -/
def chunkBytes (size : Nat) (file : List UInt8) (k : Nat) : List UInt8 :=
  (file.drop (k * size)).take size

def chunkMessage (size : Nat) (file : List UInt8) (k : Nat) : List UInt8 :=
  chunkPacket k (chunkLength size (chunkBytes size file k))
    (padded size (chunkBytes size file k))

def ackMessage (k : Nat) : List UInt8 := payloadTypeChunkAck :: LittleEndian.encode 2 k

theorem length_chunkBytes_le (size : Nat) (file : List UInt8) (k : Nat) :
    (chunkBytes size file k).length ≤ size := by
  unfold chunkBytes
  rw [List.length_take]
  omega

theorem length_chunkBytes_full (h : (k + 1) * size ≤ file.length) :
    (chunkBytes size file k).length = size := by
  unfold chunkBytes
  rw [List.length_take, List.length_drop]
  rw [Nat.add_mul, Nat.one_mul] at h
  omega

theorem length_chunkBytes_last (hsize : 0 < size) (h : k = file.length / size) :
    (chunkBytes size file k).length < size := by
  have hmod : file.length - k * size < size := by
    have hlt := Nat.mod_lt file.length hsize
    have hdiv := Nat.div_add_mod file.length size
    rw [h, Nat.mul_comm]
    omega
  unfold chunkBytes
  rw [List.length_take, List.length_drop]
  omega

/-! ## The uploader from chunk to chunk -/

/-- The uploader when it has described the firmware. -/
def described (size : Nat) (file name : List UInt8) : Server :=
  ⟨file, name, size, some (alloc (size + 7)), false, 0, 0, []⟩

/-- The uploader when it has asked for the bytes of chunk `k`. -/
def asking (size : Nat) (file name : List UInt8) (k : Nat) : Server :=
  ⟨file, name, size, some (alloc (size + 7)), false, k, k * size, [⟨size, true⟩]⟩

/-- The uploader when it has sent chunk `k`. -/
def asked (size : Nat) (file name : List UInt8) (k : Nat) : Server :=
  ⟨file, name, size, some (chunkMessage size file k),
    decide ((chunkBytes size file k).length < size), k + 1,
    k * size + (chunkBytes size file k).length, []⟩

theorem readDone_asking (hid : k < 65536) :
    readDone ⟨size, true⟩ [] (asking size file name k) =
      some (asked size file name k, [chunkMessage size file k]) := by
  have hfill := fillChunk_eq k (length_chunkBytes_le size file k)
  unfold readDone asking
  simp only [if_true, if_pos hid, Bool.false_or]
  unfold chunkBytes at hfill
  rw [hfill]
  rfl

theorem onData_ack (u : Server) (hend : u.endFlag = false) (k : Nat) :
    onData (ackMessage k) u = sendChunk u := by
  unfold onData
  rw [hend]
  rfl

/-- The buffer of a chunk is large enough for the next. -/
theorem length_chunkMessage (size : Nat) (file : List UInt8) (k : Nat) :
    (chunkMessage size file k).length = size + 7 := by
  unfold chunkMessage
  rw [Downloader.length_chunkPacket, length_padded (length_chunkBytes_le size file k),
    Nat.add_comm]

theorem onData_asked_full (h : (k + 1) * size ≤ file.length) :
    onData (ackMessage k) (asked size file name k) =
      some (asking size file name (k + 1), []) := by
  have hbytes := length_chunkBytes_full h
  rw [onData_ack _ (by unfold asked; simp [hbytes])]
  unfold sendChunk asked asking
  simp only
  rw [length_chunkMessage, hbytes, Nat.add_mul, Nat.one_mul]
  simp

theorem onData_asked_last (hsize : 0 < size) (h : k = file.length / size) :
    onData (ackMessage k) (asked size file name k) =
      some (asked size file name k, [[payloadTypeFlowEnd]]) := by
  have hend : (asked size file name k).endFlag = true :=
    decide_eq_true (length_chunkBytes_last hsize h)
  unfold onData
  rw [hend]
  rfl

theorem onData_flowStart (size : Nat) (file name : List UInt8) :
    onData [payloadTypeFlowStart] (described size file name) =
      some (asking size file name 0, []) := by
  have hsend : onData [payloadTypeFlowStart] (described size file name) =
      sendChunk (described size file name) := rfl
  rw [hsend]
  unfold sendChunk described asking
  simp

end JsEmbeddedPlatform.FileChunks
