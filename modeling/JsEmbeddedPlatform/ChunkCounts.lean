import JsEmbeddedPlatform.FileChunks
import JsEmbeddedPlatform.Shared.Runs

/-!
# Chunks announced and chunks sent

One session of the uploader with a client that asks for chunks of `8 * b` bytes, starts the flow
and acknowledges what it gets. The announced number is a quotient that is rounded up, the sent
one is that of the reads up to the first short one.
-/

set_option autoImplicit false

namespace JsEmbeddedPlatform.ChunkCounts

open Downloader (payloadTypeRequest payloadTypeDescription payloadTypeFlowStart payloadTypeFlowEnd
  payloadTypeChunk payloadTypeChunkAck chunkMultiplier descriptionPacket chunkPacket)
open Uploader
open FileChunks
open Runs (Forced)

/-! ## The session -/

/-- What a client answers; the first byte tells the packets apart. -/
def answer (packet : List UInt8) : List (List UInt8) :=
  if packet.getD 0 0 = payloadTypeDescription then [[payloadTypeFlowStart]]
  else if packet.getD 0 0 = payloadTypeChunk then
    [[payloadTypeChunkAck, packet.getD 1 0, packet.getD 2 0]]
  else []

/-- The packets in either direction that have not been received. `uploader` is none when it has
thrown. -/
structure Session where
  uploader : Option Server
  toClient : List (List UInt8)
  toUploader : List (List UInt8)
deriving DecidableEq, Repr

inductive Event where
  | clientReceives
  | uploaderReceives
  | fileRead
deriving DecidableEq, Repr

def Session.uploaderSends (s : Session) :
    Option (Server × List (List UInt8)) → Session × List (List UInt8)
  | none => ({ s with uploader := none }, [])
  | some (u, packets) =>
    ({ s with uploader := some u, toClient := s.toClient ++ packets }, packets)

/-- The output is what the uploader sends. -/
def step (s : Session) : Event → Option (Session × List (List UInt8))
  | .clientReceives =>
    match s.toClient with
    | [] => none
    | packet :: rest =>
      some ({ s with toClient := rest, toUploader := s.toUploader ++ answer packet }, [])
  | .uploaderReceives =>
    match s.uploader, s.toUploader with
    | some u, packet :: rest =>
      some ({ s with toUploader := rest }.uploaderSends (onData packet u))
    | _, _ => none
  | .fileRead =>
    match s.uploader with
    | none => none
    | some u =>
      match u.reads with
      | [] => none
      | r :: rest => some (s.uploaderSends (readDone r rest u))

def request (b : UInt8) : List UInt8 := [payloadTypeRequest, b]

/-- The client has asked for its chunk size. -/
def requested (file programName : List UInt8) (b : UInt8) : Session :=
  ⟨some (connected file programName), [], [request b]⟩

/-! ## What is counted -/

/-- The field at 1 of a description or a chunk. -/
def shortField (packet : List UInt8) : Nat :=
  LittleEndian.decode ((packet.drop 1).take 2)

def nameLen (description : List UInt8) : Nat := (description.getD 3 0).toNat

def isFlowEnd (packet : List UInt8) : Bool := packet.getD 0 0 = payloadTypeFlowEnd

def chunksBeforeEnd (sent : List (List UInt8)) : List (List UInt8) :=
  (sent.takeWhile fun packet => !isFlowEnd packet).filter fun packet =>
    packet.getD 0 0 = payloadTypeChunk

/-- What has been sent of a file is what the description says. -/
structure Announced (file programName : List UInt8) (chunkSize : Nat)
    (sent : List (List UInt8)) : Prop where
  ended : ∃ packet ∈ sent, isFlowEnd packet = true
  described : ∃ description, sent.head? = some description ∧
    description.getD 0 0 = payloadTypeDescription ∧
    (chunksBeforeEnd sent).length = shortField description ∧
    (∀ packet ∈ chunksBeforeEnd sent, shortField packet < shortField description) ∧
    shortField description = ceilDiv (fileBytesAligned file.length) chunkSize ∧
    nameLen description = programName.length + 1

/-- The session has one run, at whose end everything has been sent as announced. -/
def SendsAsAnnounced (file programName : List UInt8) (b : UInt8) : Prop :=
  ∃ events last outs, Forced step (requested file programName b) events last outs ∧
    (∀ event, step last event = none) ∧
    Announced file programName (b.toNat * chunkMultiplier) outs.flatten

/-! ## The announced number -/

/-- Rounding to a multiple of 8 before the division by such a multiple changes nothing. -/
theorem ceilDiv_aligned {b : Nat} (hb : 0 < b) (n : Nat) :
    ceilDiv (fileBytesAligned n) (b * chunkMultiplier) =
      if n % (b * chunkMultiplier) = 0 then n / (b * chunkMultiplier)
      else n / (b * chunkMultiplier) + 1 := by
  unfold ceilDiv fileBytesAligned chunkMultiplier
  have hpos : 0 < b * 8 := by omega
  have hlt : n % (b * 8) < b * 8 := Nat.mod_lt _ hpos
  have hn : n = b * 8 * (n / (b * 8)) + n % (b * 8) := (Nat.div_add_mod _ _).symm
  generalize n / (b * 8) = q at hn ⊢
  generalize n % (b * 8) = r at hn hlt ⊢
  have hup : 8 * ceilDiv n 8 = b * 8 * q + 8 * ((r + 7) / 8) := by
    unfold ceilDiv
    rw [hn, Nat.mul_right_comm]
    omega
  have hsum : b * 8 * q + 8 * ((r + 7) / 8) + b * 8 - 1 =
      b * 8 * q + (8 * ((r + 7) / 8) + (b * 8 - 1)) := by omega
  rw [hup, hsum, Nat.mul_add_div hpos]
  split
  · next hr =>
    rw [hr]
    have hzero : (8 * ((0 + 7) / 8) + (b * 8 - 1)) / (b * 8) = 0 :=
      Nat.div_eq_of_lt (by omega)
    omega
  · next hr =>
    have hone : (8 * ((r + 7) / 8) + (b * 8 - 1)) / (b * 8) = 1 := by
      apply Nat.div_eq_of_lt_le <;> omega
    omega

/-! ## One step at a time -/

section Steps
variable {u v : Server} {packet : List UInt8} {packets : List (List UInt8)}

theorem forced_fileRead {r : PendingRead} {rest : List PendingRead} (hreads : u.reads = r :: rest)
    (hdone : readDone r rest u = some (v, packets)) :
    Forced step ⟨some u, [], []⟩ [.fileRead] ⟨some v, packets, []⟩ [packets] := by
  apply Forced.single
  · simp only [step, hreads, hdone, Session.uploaderSends, List.nil_append]
  · intro j hj
    cases j with
    | clientReceives => rfl
    | uploaderReceives => rfl
    | fileRead => exact absurd rfl hj

theorem forced_uploaderReceives (hreads : u.reads = [])
    (hdata : onData packet u = some (v, packets)) :
    Forced step ⟨some u, [], [packet]⟩ [.uploaderReceives] ⟨some v, packets, []⟩ [packets] := by
  apply Forced.single
  · simp only [step, hdata, Session.uploaderSends, List.nil_append]
  · intro j hj
    cases j with
    | clientReceives => rfl
    | uploaderReceives => exact absurd rfl hj
    | fileRead => simp only [step, hreads]

theorem forced_throw (hreads : u.reads = []) (hdata : onData packet u = none) :
    Forced step ⟨some u, [], [packet]⟩ [.uploaderReceives] ⟨none, [], []⟩ [[]] := by
  apply Forced.single
  · simp only [step, hdata, Session.uploaderSends]
  · intro j hj
    cases j with
    | clientReceives => rfl
    | uploaderReceives => exact absurd rfl hj
    | fileRead => simp only [step, hreads]

theorem forced_clientReceives (hreads : u.reads = []) (packet : List UInt8) :
    Forced step ⟨some u, [packet], []⟩ [.clientReceives] ⟨some u, [], answer packet⟩ [[]] := by
  apply Forced.single
  · simp only [step, List.nil_append]
  · intro j hj
    cases j with
    | clientReceives => exact absurd rfl hj
    | uploaderReceives => rfl
    | fileRead => simp only [step, hreads]

/-- With nothing to receive and nothing to read it is over. -/
theorem step_over (hreads : u.reads = []) (event : Event) :
    step ⟨some u, [], []⟩ event = none := by
  cases event with
  | clientReceives => rfl
  | uploaderReceives => rfl
  | fileRead => simp only [step, hreads]

theorem step_thrown (event : Event) : step ⟨none, [], []⟩ event = none := by
  cases event with
  | clientReceives => rfl
  | uploaderReceives => rfl
  | fileRead => rfl

end Steps

/-! ## The whole session -/

section Whole
variable {size k : Nat} {file name : List UInt8}

/-- The bytes are read and sent, and acknowledged. -/
theorem chunk_exchanged (file name : List UInt8) (hid : k < 65536) :
    Forced step ⟨some (asking size file name k), [], []⟩ [.fileRead, .clientReceives]
      ⟨some (asked size file name k), [], [ackMessage k]⟩ [[chunkMessage size file k], []] := by
  have hread : Forced step ⟨some (asking size file name k), [], []⟩ [.fileRead]
      ⟨some (asked size file name k), [chunkMessage size file k], []⟩ [[chunkMessage size file k]] :=
    forced_fileRead rfl (readDone_asking hid)
  exact hread.trans (forced_clientReceives rfl (chunkMessage size file k))

/-- All chunks from `k` on, by induction on how many full ones there are. -/
theorem chunks_exchanged (name : List UInt8) (hsize : 0 < size) (n : Nat) (hk : k + n = file.length / size)
    (hids : file.length / size < 65536) :
    ∃ u events outs, Forced step ⟨some (asking size file name k), [], []⟩ events
        ⟨some u, [], []⟩ outs ∧ u.reads = [] ∧
      outs.flatten = (List.range' k (n + 1)).map (chunkMessage size file) ++
        [[payloadTypeFlowEnd]] := by
  induction n generalizing k with
  | zero =>
    have hlast : Forced step ⟨some (asked size file name k), [], [ackMessage k]⟩
        [.uploaderReceives, .clientReceives] ⟨some (asked size file name k), [], []⟩
        [[[payloadTypeFlowEnd]], []] :=
      (forced_uploaderReceives rfl (onData_asked_last hsize (by omega))).trans
        (forced_clientReceives rfl [payloadTypeFlowEnd])
    exact ⟨_, _, _, (chunk_exchanged file name (by omega)).trans hlast, rfl, rfl⟩
  | succ n ih =>
    have hfull : (k + 1) * size ≤ file.length := by
      rw [← Nat.le_div_iff_mul_le hsize]
      omega
    have hnext : Forced step ⟨some (asked size file name k), [], [ackMessage k]⟩
        [.uploaderReceives] ⟨some (asking size file name (k + 1)), [], []⟩ [[]] :=
      forced_uploaderReceives rfl (onData_asked_full hfull)
    obtain ⟨u, events, outs, hrest, hreads, houts⟩ := ih (k := k + 1) (by omega)
    refine ⟨u, _, _, ((chunk_exchanged file name (by omega)).trans hnext).trans hrest, hreads, ?_⟩
    rw [List.flatten_append, houts, List.range'_succ]
    rfl

theorem requestedSize_request {b : UInt8} (hb : b ≠ 0) :
    requestedSize (request b) = b.toNat * chunkMultiplier := by
  have hpos : b.toNat ≠ 0 := by
    intro hzero
    exact hb (UInt8.toNat_inj.mp hzero)
  have hbyte : (request b).getD 1 0 = b := rfl
  unfold requestedSize
  rw [hbyte, if_neg]
  unfold chunkMultiplier
  omega

def announcedCount (file : List UInt8) (size : Nat) : Nat :=
  ceilDiv (fileBytesAligned file.length) size

def description (size : Nat) (file name : List UInt8) : List UInt8 :=
  descriptionPacket (announcedCount file size) (name.length + 1) (name ++ [0])

/-- Everything that the uploader sends. -/
def transcript (size : Nat) (file name : List UInt8) : List (List UInt8) :=
  description size file name ::
    ((List.range (file.length / size + 1)).map (chunkMessage size file) ++ [[payloadTypeFlowEnd]])

theorem onData_request {b : UInt8} (hb : b ≠ 0) (file name : List UInt8) :
    onData (request b) (connected file name) =
      if announcedCount file (b.toNat * chunkMultiplier) < 65536 then
        some (described (b.toNat * chunkMultiplier) file name,
          [description (b.toNat * chunkMultiplier) file name])
      else none := by
  have hdescribe : onData (request b) (connected file name) =
      describe (request b) (connected file name) := rfl
  rw [hdescribe]
  unfold describe description
  rw [requestedSize_request hb, ← descBuff_eq]
  rfl

theorem count_chunk {b : UInt8} (hb : b ≠ 0) (file : List UInt8) :
    announcedCount file (b.toNat * chunkMultiplier) =
      if file.length % (b.toNat * chunkMultiplier) = 0
      then file.length / (b.toNat * chunkMultiplier)
      else file.length / (b.toNat * chunkMultiplier) + 1 := by
  apply ceilDiv_aligned
  apply Nat.pos_of_ne_zero
  intro hzero
  exact hb (UInt8.toNat_inj.mp hzero)

/-- The count fits its field: everything is sent and it is over. -/
theorem session_sends {b : UInt8} (hb : b ≠ 0) (name : List UInt8)
    (hcount : announcedCount file (b.toNat * chunkMultiplier) < 65536) :
    ∃ events last outs, Forced step (requested file name b) events last outs ∧
      (∀ event, step last event = none) ∧
      outs.flatten = transcript (b.toNat * chunkMultiplier) file name := by
  have hsize : 0 < b.toNat * chunkMultiplier := by
    rw [← requestedSize_request hb]
    unfold requestedSize
    split <;> omega
  have hids : file.length / (b.toNat * chunkMultiplier) < 65536 := by
    rw [count_chunk hb] at hcount
    split at hcount <;> omega
  have hdescribed : Forced step (requested file name b) [.uploaderReceives, .clientReceives]
      ⟨some (described (b.toNat * chunkMultiplier) file name), [], [[payloadTypeFlowStart]]⟩
      [[description (b.toNat * chunkMultiplier) file name], []] :=
    (forced_uploaderReceives rfl ((onData_request hb file name).trans (if_pos hcount))).trans
      (forced_clientReceives rfl _)
  have hstarted : Forced step
      ⟨some (described (b.toNat * chunkMultiplier) file name), [], [[payloadTypeFlowStart]]⟩
      [.uploaderReceives] ⟨some (asking (b.toNat * chunkMultiplier) file name 0), [], []⟩ [[]] :=
    forced_uploaderReceives rfl (onData_flowStart _ file name)
  obtain ⟨u, events, outs, hrest, hreads, houts⟩ :=
    chunks_exchanged name hsize (file.length / (b.toNat * chunkMultiplier))
      (Nat.zero_add _) hids
  refine ⟨_, _, _, (hdescribed.trans hstarted).trans hrest, step_over hreads, ?_⟩
  rw [List.flatten_append, houts, ← List.range_eq_range']
  rfl

/-- It does not fit: `writeUInt16LE` throws and nothing is sent. -/
theorem session_throws {b : UInt8} (hb : b ≠ 0) (name : List UInt8)
    (hcount : ¬ announcedCount file (b.toNat * chunkMultiplier) < 65536) :
    Forced step (requested file name b) [.uploaderReceives] ⟨none, [], []⟩ [[]] :=
  forced_throw rfl ((onData_request hb file name).trans (if_neg hcount))

end Whole

/-! ## The numbers in the transcript -/

section Numbers
variable {size : Nat} {file name : List UInt8}

theorem shortField_chunkMessage {k : Nat} (hid : k < 65536) :
    shortField (chunkMessage size file k) = k :=
  LittleEndian.decode_take_encode (w := 2) hid _

theorem shortField_description (hcount : announcedCount file size < 65536) :
    shortField (description size file name) = announcedCount file size :=
  LittleEndian.decode_take_encode (w := 2) hcount _

theorem nameLen_description :
    nameLen (description size file name) = (name.length + 1) % 256 := by
  unfold nameLen description descriptionPacket
  simp [LittleEndian.encode]

theorem chunksBeforeEnd_transcript (size : Nat) (file name : List UInt8) :
    chunksBeforeEnd (transcript size file name) =
      (List.range (file.length / size + 1)).map (chunkMessage size file) := by
  have hsent : (transcript size file name).takeWhile (fun packet => !isFlowEnd packet) =
      description size file name ::
        (List.range (file.length / size + 1)).map (chunkMessage size file) := by
    unfold transcript
    rw [List.takeWhile_cons_of_pos rfl, List.takeWhile_append_of_pos]
    · rw [List.takeWhile_cons_of_neg (by decide), List.append_nil]
    · intro packet hpacket
      obtain ⟨k, _, rfl⟩ := List.mem_map.mp hpacket
      rfl
  unfold chunksBeforeEnd
  have hother : (description size file name).getD 0 0 = payloadTypeDescription := rfl
  rw [hsent, List.filter_cons_of_neg (by rw [hother]; decide), List.filter_eq_self]
  intro packet hpacket
  obtain ⟨k, _, rfl⟩ := List.mem_map.mp hpacket
  rfl

theorem transcript_announced_iff (hcount : announcedCount file size < 65536) :
    Announced file name size (transcript size file name) ↔
      announcedCount file size = file.length / size + 1 ∧ name.length + 1 < 256 := by
  have hhead : (transcript size file name).head? = some (description size file name) := rfl
  have hlength : (chunksBeforeEnd (transcript size file name)).length = file.length / size + 1 := by
    rw [chunksBeforeEnd_transcript, List.length_map, List.length_range]
  constructor
  · rintro ⟨_, packet, hpacket, _, hchunks, _, _, hname⟩
    rw [hhead] at hpacket
    cases hpacket
    rw [hlength, shortField_description hcount] at hchunks
    rw [nameLen_description] at hname
    have := Nat.mod_lt (name.length + 1) (y := 256) (by omega)
    omega
  · rintro ⟨heq, hname⟩
    refine ⟨⟨[payloadTypeFlowEnd], ?_, rfl⟩, description size file name, hhead, rfl, ?_, ?_, ?_, ?_⟩
    · unfold transcript
      simp
    · rw [hlength, shortField_description hcount, heq]
    · intro packet hpacket
      rw [chunksBeforeEnd_transcript] at hpacket
      obtain ⟨k, hk, rfl⟩ := List.mem_map.mp hpacket
      have hk := List.mem_range.mp hk
      rw [shortField_chunkMessage (by omega), shortField_description hcount]
      omega
    · exact shortField_description hcount
    · rw [nameLen_description, Nat.mod_eq_of_lt hname]

theorem sends_iff_transcript {b : UInt8} (hb : b ≠ 0) (name : List UInt8)
    (hcount : announcedCount file (b.toNat * chunkMultiplier) < 65536) :
    SendsAsAnnounced file name b ↔ Announced file name (b.toNat * chunkMultiplier)
      (transcript (b.toNat * chunkMultiplier) file name) := by
  obtain ⟨events, last, outs, hforced, hover, houts⟩ := session_sends hb name hcount
  constructor
  · rintro ⟨events', last', outs', hforced', hover', hannounced⟩
    rw [← houts, (hforced.end_unique hover hforced' hover').2]
    exact hannounced
  · intro hannounced
    exact ⟨events, last, outs, hforced, hover, by rw [houts]; exact hannounced⟩

theorem count_fits_of_sends {b : UInt8} (hb : b ≠ 0) (h : SendsAsAnnounced file name b) :
    announcedCount file (b.toNat * chunkMultiplier) < 65536 := by
  by_contra hcount
  obtain ⟨events, last, outs, hforced, hover, hannounced⟩ := h
  obtain ⟨packet, hpacket, _⟩ := hannounced.ended
  rw [← ((session_throws hb name hcount).end_unique step_thrown hforced hover).2] at hpacket
  simp at hpacket

/-- As many chunks as announced are sent of the files whose size is no multiple of the chunk size
and that do not have more than 65535 chunks. -/
theorem sends_as_announced_iff (file programName : List UInt8) {b : UInt8} (hb : b ≠ 0) :
    SendsAsAnnounced file programName b ↔
      file.length % (b.toNat * chunkMultiplier) ≠ 0 ∧
      file.length / (b.toNat * chunkMultiplier) + 1 < 65536 ∧ programName.length + 1 < 256 := by
  have hformula := count_chunk hb file
  constructor
  · intro h
    have hcount := count_fits_of_sends hb h
    have hsame := (transcript_announced_iff hcount).mp ((sends_iff_transcript hb _ hcount).mp h)
    split at hformula <;> omega
  · rintro ⟨hmod, hfits, hname⟩
    rw [if_neg hmod] at hformula
    have hcount : announcedCount file (b.toNat * chunkMultiplier) < 65536 := by omega
    exact (sends_iff_transcript hb _ hcount).mpr
      ((transcript_announced_iff hcount).mpr ⟨hformula, hname⟩)

/-- A file of nine bytes and chunks of eight. -/
theorem nine_bytes_as_announced :
    SendsAsAnnounced (List.replicate 9 0x61) [0x66] 1 :=
  (sends_as_announced_iff (List.replicate 9 0x61) [0x66] (by decide)).mpr (by decide)

/-- Of a file with eight bytes the client is told one chunk of eight, and gets the chunks 0 and 1;
an empty file has no chunk, and the client gets one. -/
theorem full_chunk_not_as_announced :
    ¬ SendsAsAnnounced (List.replicate 8 0x61) [0x66] 1 ∧
    announcedCount (List.replicate 8 0x61) 8 = 1 ∧
    (chunksBeforeEnd (transcript 8 (List.replicate 8 0x61) [0x66])).map shortField = [0, 1] ∧
    ¬ SendsAsAnnounced [] [0x66] 1 := by
  refine ⟨?_, by decide, by decide, ?_⟩
  · rw [sends_iff_transcript (by decide) _ (by decide), transcript_announced_iff (by decide)]
    decide
  · rw [sends_iff_transcript (by decide) _ (by decide), transcript_announced_iff (by decide)]
    decide

end Numbers

end JsEmbeddedPlatform.ChunkCounts
