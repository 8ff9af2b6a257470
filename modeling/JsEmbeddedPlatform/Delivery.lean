import JsEmbeddedPlatform.FileChunks
import JsEmbeddedPlatform.FlashContents
import JsEmbeddedPlatform.PackageUri
import JsEmbeddedPlatform.Shared.Runs

/-!
# A download from the uploader

The downloader of stm32 and the uploader on either side of a connection that hands over
each send with one `recv`. Which of them goes on is left open; it turns out that there is
never a choice.
-/

set_option autoImplicit false

namespace JsEmbeddedPlatform.Delivery

open Downloader (Download Phase receive request chunkSize firmwareSucc firmwareDownloaderSucc
  firmwareDownloaderErrMem payloadTypeFlowStart payloadTypeFlowEnd payloadTypeChunkAck
  descriptionPacket chunkPacket firmUri freshHeap)
open FlashStore (Store platform sectorSize metadataSize)
open FileChunks
open FlashContents
open Uploader
open Runs (Forced)

inductive Side where
  | device
  | uploader
deriving DecidableEq, Repr

/-- The packets in either direction that have not been received. `uploader` is none when it has
thrown. -/
structure System where
  device : Download Store
  uploader : Option Server
  toDevice : List (List UInt8)
  toUploader : List (List UInt8)

inductive Event where
  | deviceReceives
  | uploaderReceives
  | fileRead
deriving DecidableEq, Repr

def sent (events : List Downloader.Event) : List (List UInt8) :=
  events.filterMap fun e =>
    match e with
    | .send packet true => some packet
    | _ => none

/-- `firmware_downloader_start` up to its first `recv`, with the uploader listening. -/
def initial (outcome : Nat → Bool) (uri heap : List UInt8) (store : Store)
    (file programName : List UInt8) : System :=
  let d := Downloader.start .stm32 platform outcome uri heap store
  ⟨d, some (connected file programName), [], sent d.trace⟩

/-- A callback of the uploader is done. When it throws the process ends and its connection is
closed. -/
def System.uploaderSends (s : System) :
    Option (Server × List (List UInt8)) → System × List (Side × List UInt8)
  | none => ({ s with uploader := none, toDevice := s.toDevice ++ [[]] }, [])
  | some (u, packets) =>
    ({ s with uploader := some u, toDevice := s.toDevice ++ packets },
      packets.map fun packet => (.uploader, packet))

/-- The output is what is sent. -/
def step (outcome : Nat → Bool) (s : System) :
    Event → Option (System × List (Side × List UInt8))
  | .deviceReceives =>
    match s.toDevice with
    | [] => none
    | packet :: rest =>
      if s.device.phase = .description ∨ s.device.phase = .chunks then
        let d := receive platform outcome s.device packet
        let packets := sent (d.trace.drop s.device.trace.length)
        some ({ s with device := d, toDevice := rest, toUploader := s.toUploader ++ packets },
          packets.map fun packet => (.device, packet))
      else none
  | .uploaderReceives =>
    match s.uploader, s.toUploader with
    | some u, packet :: rest =>
      some ({ s with toUploader := rest }.uploaderSends (onData packet u))
    | _, _ => none
  | .fileRead =>
    match s.uploader with
    | none => none
    | some u =>
      match u.reads with
      | [] => none
      | r :: rest => some (s.uploaderSends (readDone r rest u))

/-! ## What a chunk is made of -/

/-- A chunk and its acknowledgement. -/
def exchange (file : List UInt8) (k : Nat) : List (Side × List UInt8) :=
  [(.uploader, chunkMessage chunkSize file k), (.device, ackMessage k)]

def chunkCount (fileBytes : Nat) : Nat := ceilDiv (fileBytesAligned fileBytes) chunkSize

/-- Everything that is sent after the request. -/
def transcript (file programName : List UInt8) : List (Side × List UInt8) :=
  (.uploader, descriptionPacket (chunkCount file.length) (programName.length + 1)
      (programName ++ [0])) ::
    (.device, [payloadTypeFlowStart]) ::
      ((List.range (file.length / chunkSize + 1)).flatMap (exchange file) ++
        [(.uploader, [payloadTypeFlowEnd])])

section Chunks
variable {file : List UInt8} {k : Nat}

/-- What is written of a chunk: its bytes, and a NUL if they are the last. -/
theorem take_padded (n : Nat) (bytes rest : List UInt8) :
    (padded n bytes ++ rest).take (chunkLength n bytes) =
      if bytes.length < n then bytes ++ [0] else bytes := by
  unfold chunkLength padded
  split
  · next hlt =>
    obtain ⟨m, hm⟩ : ∃ m, n - bytes.length = m + 1 := ⟨n - bytes.length - 1, by omega⟩
    rw [hm, List.append_assoc, List.take_length_add_append]
    rfl
  · rw [List.append_assoc, List.take_left]

theorem chunkLength_le {n : Nat} {bytes : List UInt8} (h : bytes.length ≤ n) :
    chunkLength n bytes ≤ n := by
  unfold chunkLength
  split
  · omega
  · exact h

theorem take_full (file : List UInt8) (k : Nat) :
    file.take (k * chunkSize) ++ chunkBytes chunkSize file k = file.take ((k + 1) * chunkSize) := by
  unfold chunkBytes
  rw [Nat.add_mul, Nat.one_mul, List.take_add]

theorem take_last (h : k = file.length / chunkSize) :
    file.take (k * chunkSize) ++ chunkBytes chunkSize file k = file := by
  have hrest : (file.drop (k * chunkSize)).length ≤ chunkSize := by
    rw [List.length_drop, h]
    unfold chunkSize
    omega
  unfold chunkBytes
  rw [List.take_of_length_le hrest, List.take_append_drop]

end Chunks

/-! ## The device -/

section Device
variable {outcome : Nat → Bool} {d : Download Store} {memory : Nat → UInt8}
  {name code : List UInt8}

/-- A packet takes the device from `d` to `t`, and these packets are its answer. -/
structure Answers (outcome : Nat → Bool) (d : Download Store) (packet : List UInt8)
    (t : Download Store) (answer : List (List UInt8)) : Prop where
  becomes : receive platform outcome d packet = t
  sends : sent (t.trace.drop d.trace.length) = answer

theorem name_fits (h : name.length ≤ 254) : 4 + (name ++ [0]).length ≤ Downloader.bufferSize := by
  rw [List.length_append, List.length_singleton]
  unfold Downloader.bufferSize chunkSize
  omega

/-- Too many chunks: nothing is erased or programmed. -/
theorem device_refuses (outcome : Nat → Bool) (hphase : d.phase = .description) {count : Nat}
    (hcount : count < 65536) (hmemory : platform.maxMemory < count * chunkSize) (nameLen : Nat)
    (hname : 4 + name.length ≤ Downloader.bufferSize) :
    ∃ t, Answers outcome d (descriptionPacket count nameLen name) t [] ∧
      t.phase = .returned firmwareDownloaderErrMem ∧ t.store = d.store := by
  refine ⟨_, ⟨rfl, ?_⟩, ?_, ?_⟩
  · rw [Downloader.receive_description hphase hcount nameLen hname]
    simp only [if_pos hmemory, Downloader.cleanup, Downloader.put_trace, List.append_assoc,
      List.drop_left]
    rfl
  · rw [Downloader.receive_description hphase hcount nameLen hname]
    simp only [if_pos hmemory, Downloader.cleanup_phase]
  · rw [Downloader.receive_description hphase hcount nameLen hname]
    simp only [if_pos hmemory, Downloader.cleanup_store, Downloader.put_store]
    rfl

variable (hall : ∀ n, outcome n = true)
include hall

theorem device_starts (hphase : d.phase = .description) (hhal : ∀ n, d.store.hal n = true)
    (hcalls : d.store.calls = []) {count : Nat} (hcount : count < 65536)
    (hmemory : count * chunkSize ≤ platform.maxMemory) (nameLen : Nat) (hname : 0 ∉ name)
    (hlength : name.length ≤ 254) :
    ∃ t, Answers outcome d (descriptionPacket count nameLen (name ++ [0])) t
        [[payloadTypeFlowStart]] ∧
      t.phase = .chunks ∧ Written d.store.before name [] t.store := by
  obtain ⟨s, hstart, hwritten⟩ := writeStart_written hhal hcalls hname (by omega)
    (d.buff.drop (4 + (name ++ [0]).length))
  have hreceive := Downloader.receive_description_sent (P := platform) hall hphase hcount hmemory
    nameLen (name_fits hlength) (by rw [List.append_assoc]; exact hstart)
  refine ⟨_, ⟨hreceive, ?_⟩, rfl, hwritten⟩
  simp only [Downloader.log_trace, Downloader.put_trace, List.append_assoc, List.drop_left]
  rfl

/-- A chunk of the file, the next or the last. -/
theorem device_writes (hphase : d.phase = .chunks) (h : Written memory name code d.store) {k : Nat}
    (hid : k < 65536) (hcode : code.length = k * chunkSize) {bytes : List UInt8}
    (hbytes : bytes.length ≤ chunkSize)
    (hlength : name.length ≤ 254) (hsize : code.length ≤ 130560) :
    ∃ t, Answers outcome d
        (chunkPacket k (chunkLength chunkSize bytes) (padded chunkSize bytes)) t [ackMessage k] ∧
      t.phase = .chunks ∧
      Written memory name
        (code ++ if bytes.length < chunkSize then bytes ++ [0] else bytes) t.store := by
  have hannounced := chunkLength_le hbytes
  have hpadded := length_padded hbytes
  have hend : FlashStore.namePtr + name.length + 1 + code.length + chunkLength chunkSize bytes <
      4294967296 := by
    have : chunkLength chunkSize bytes ≤ 512 := hannounced
    unfold FlashStore.namePtr FlashStore.sectorAddr metadataSize
    omega
  have hdata : chunkLength chunkSize bytes ≤
      (padded chunkSize bytes ++ d.buff.drop (7 + (padded chunkSize bytes).length)).length := by
    rw [List.length_append]
    omega
  obtain ⟨s, hwrite, hwritten⟩ := writeCodeChunk_written h hdata hend
  rw [take_padded] at hwritten
  have hwrite : platform.writeCodeChunk ((d.put (chunkPacket k (chunkLength chunkSize bytes)
      (padded chunkSize bytes))).buff.drop 7) (k * chunkSize) (chunkLength chunkSize bytes)
      d.store = (firmwareSucc, s) := by
    rw [Downloader.put_chunkPacket_data, ← hcode]
    exact hwrite
  have hreceive : receive platform outcome d (chunkPacket k (chunkLength chunkSize bytes)
      (padded chunkSize bytes)) = Downloader.writeChunk platform outcome k
        (chunkLength chunkSize bytes) (d.put _) :=
    Downloader.receive_chunk hphase hid (Nat.lt_of_le_of_lt hannounced (by decide))
      (by rw [hpadded]; unfold Downloader.bufferSize chunkSize; omega)
  rw [Downloader.writeChunk_sent hall hwrite] at hreceive
  refine ⟨_, ⟨hreceive, ?_⟩, hphase, hwritten⟩
  simp only [Downloader.log_trace, Downloader.put_trace, List.append_assoc, List.drop_left]
  rfl

omit hall in
theorem device_finishes (outcome : Nat → Bool) (hphase : d.phase = .chunks)
    (h : Written memory name code d.store)
    (hfits : metadataSize + name.length + 1 + code.length ≤ sectorSize) :
    ∃ t, Answers outcome d [payloadTypeFlowEnd] t [] ∧
      t.phase = .returned firmwareDownloaderSucc ∧ Delivered t.store.flash name code := by
  obtain ⟨s, hfinish, hdelivered⟩ := writeFinish_delivers h hfits
  have hreceive : receive platform outcome d [payloadTypeFlowEnd] =
      Downloader.finish platform (d.put [payloadTypeFlowEnd]) := Downloader.receive_flowEnd hphase
  unfold Downloader.finish Downloader.callWriteFinish at hreceive
  rw [Downloader.put_store, FlashStore.platform_writeFinish, hfinish] at hreceive
  refine ⟨_, ⟨hreceive, ?_⟩, rfl, hdelivered⟩
  simp only [if_true, Downloader.cleanup, Downloader.log_trace, Downloader.put_trace,
    List.append_assoc, List.drop_left]
  rfl

end Device

/-! ## One step at a time -/

section Steps
variable {outcome : Nat → Bool} {d t : Download Store} {u v : Server}

theorem forced_fileRead {r : PendingRead} {rest : List PendingRead} {packets : List (List UInt8)}
    (hreads : u.reads = r :: rest) (hdone : readDone r rest u = some (v, packets)) :
    Forced (step outcome) ⟨d, some u, [], []⟩ [.fileRead] ⟨d, some v, packets, []⟩
      [packets.map fun packet => (.uploader, packet)] := by
  apply Forced.single
  · simp only [step, hreads, hdone, System.uploaderSends, List.nil_append]
  · intro j hj
    cases j with
    | deviceReceives => rfl
    | uploaderReceives => rfl
    | fileRead => exact absurd rfl hj

theorem forced_uploaderReceives {packet : List UInt8} {packets : List (List UInt8)}
    (hreads : u.reads = []) (hdata : onData packet u = some (v, packets)) :
    Forced (step outcome) ⟨d, some u, [], [packet]⟩ [.uploaderReceives] ⟨d, some v, packets, []⟩
      [packets.map fun packet => (.uploader, packet)] := by
  apply Forced.single
  · simp only [step, hdata, System.uploaderSends, List.nil_append]
  · intro j hj
    cases j with
    | deviceReceives => rfl
    | uploaderReceives => exact absurd rfl hj
    | fileRead => simp only [step, hreads]

theorem forced_deviceReceives {packet : List UInt8} {answer : List (List UInt8)}
    (hreads : u.reads = []) (hphase : d.phase = .description ∨ d.phase = .chunks)
    (h : Answers outcome d packet t answer) :
    Forced (step outcome) ⟨d, some u, [packet], []⟩ [.deviceReceives] ⟨t, some u, [], answer⟩
      [answer.map fun packet => (.device, packet)] := by
  apply Forced.single
  · simp only [step, if_pos hphase, h.becomes, h.sends, List.nil_append]
  · intro j hj
    cases j with
    | deviceReceives => exact absurd rfl hj
    | uploaderReceives => rfl
    | fileRead => simp only [step, hreads]

/-- With nothing to receive and nothing to read it is over. -/
theorem step_over (hreads : u.reads = []) (event : Event) :
    step outcome ⟨d, some u, [], []⟩ event = none := by
  cases event with
  | deviceReceives => rfl
  | uploaderReceives => rfl
  | fileRead => simp only [step, hreads]

end Steps

/-! ## The exchange of chunks -/

section Exchange
variable {outcome : Nat → Bool} {d : Download Store} {memory : Nat → UInt8}
  {file name : List UInt8} {k : Nat}

variable (hall : ∀ n, outcome n = true) (hlength : name.length ≤ 254)
  (hfits : file.length ≤ 130560)
include hall hlength hfits

/-- The bytes are read and sent, and acknowledged once they are written. -/
theorem chunk_exchanged (hphase : d.phase = .chunks)
    (h : Written memory name (file.take (k * chunkSize)) d.store)
    (hk : k * chunkSize ≤ file.length) :
    ∃ t, Forced (step outcome) ⟨d, some (asking chunkSize file name k), [], []⟩
        [.fileRead, .deviceReceives]
        ⟨t, some (asked chunkSize file name k), [], [ackMessage k]⟩
        [[(.uploader, chunkMessage chunkSize file k)], [(.device, ackMessage k)]] ∧
      t.phase = .chunks ∧
      Written memory name (file.take (k * chunkSize) ++
        if (chunkBytes chunkSize file k).length < chunkSize then chunkBytes chunkSize file k ++ [0]
        else chunkBytes chunkSize file k) t.store := by
  have hid : k < 65536 := by
    unfold chunkSize at hk
    omega
  have hcode : (file.take (k * chunkSize)).length = k * chunkSize := by
    rw [List.length_take]
    omega
  obtain ⟨t, hanswers, htphase, hwritten⟩ := device_writes hall hphase h hid hcode
    (length_chunkBytes_le chunkSize file k) hlength (by omega)
  have hread : Forced (step outcome) ⟨d, some (asking chunkSize file name k), [], []⟩ [.fileRead]
      ⟨d, some (asked chunkSize file name k), [chunkMessage chunkSize file k], []⟩
      [[(.uploader, chunkMessage chunkSize file k)]] :=
    forced_fileRead rfl (readDone_asking hid)
  have hacked : Forced (step outcome)
      ⟨d, some (asked chunkSize file name k), [chunkMessage chunkSize file k], []⟩
      [.deviceReceives] ⟨t, some (asked chunkSize file name k), [], [ackMessage k]⟩
      [[(.device, ackMessage k)]] :=
    forced_deviceReceives rfl (Or.inr hphase) hanswers
  exact ⟨t, hread.trans hacked, htphase, hwritten⟩

/-- After a full chunk the uploader asks for the next. -/
theorem full_exchanged (hphase : d.phase = .chunks)
    (h : Written memory name (file.take (k * chunkSize)) d.store)
    (hk : (k + 1) * chunkSize ≤ file.length) :
    ∃ t, Forced (step outcome) ⟨d, some (asking chunkSize file name k), [], []⟩
        [.fileRead, .deviceReceives, .uploaderReceives]
        ⟨t, some (asking chunkSize file name (k + 1)), [], []⟩
        [[(.uploader, chunkMessage chunkSize file k)], [(.device, ackMessage k)], []] ∧
      t.phase = .chunks ∧ Written memory name (file.take ((k + 1) * chunkSize)) t.store := by
  obtain ⟨t, hforced, htphase, hwritten⟩ := chunk_exchanged hall hlength hfits hphase h
    (Nat.le_trans (Nat.mul_le_mul_right _ (Nat.le_succ k)) hk)
  have hbytes := length_chunkBytes_full hk
  rw [if_neg (by omega), take_full] at hwritten
  exact ⟨t, hforced.trans (forced_uploaderReceives rfl (onData_asked_full hk)), htphase, hwritten⟩

/-- After the last one the flow ends. -/
theorem last_exchanged (hphase : d.phase = .chunks)
    (h : Written memory name (file.take (k * chunkSize)) d.store)
    (hk : k = file.length / chunkSize) :
    ∃ t, Forced (step outcome) ⟨d, some (asking chunkSize file name k), [], []⟩
        [.fileRead, .deviceReceives, .uploaderReceives, .deviceReceives]
        ⟨t, some (asked chunkSize file name k), [], []⟩
        [[(.uploader, chunkMessage chunkSize file k)], [(.device, ackMessage k)],
          [(.uploader, [payloadTypeFlowEnd])], []] ∧
      t.phase = .returned firmwareDownloaderSucc ∧ Delivered t.store.flash name (file ++ [0]) := by
  obtain ⟨t, hforced, htphase, hwritten⟩ := chunk_exchanged hall hlength hfits hphase h
    (by rw [hk]; exact Nat.div_mul_le_self _ _)
  rw [if_pos (length_chunkBytes_last (by decide) hk), ← List.append_assoc, take_last hk] at hwritten
  obtain ⟨last, hanswers, hreturned, hdelivered⟩ := device_finishes outcome htphase
    hwritten (by
      rw [List.length_append, List.length_singleton]
      unfold metadataSize sectorSize
      omega)
  refine ⟨last, ?_, hreturned, hdelivered⟩
  exact (hforced.trans (forced_uploaderReceives rfl (onData_asked_last (by decide) hk))).trans
    (forced_deviceReceives rfl (Or.inr htphase) hanswers)

/-- All chunks from `k` on, by induction on how many full ones there are. -/
theorem chunks_exchanged (n : Nat) (hphase : d.phase = .chunks)
    (h : Written memory name (file.take (k * chunkSize)) d.store)
    (hk : k + n = file.length / chunkSize) :
    ∃ t u events outs, Forced (step outcome) ⟨d, some (asking chunkSize file name k), [], []⟩ events
        ⟨t, some u, [], []⟩ outs ∧ u.reads = [] ∧
      outs.flatten = (List.range' k (n + 1)).flatMap (exchange file) ++
        [(.uploader, [payloadTypeFlowEnd])] ∧
      t.phase = .returned firmwareDownloaderSucc ∧ Delivered t.store.flash name (file ++ [0]) := by
  induction n generalizing k d with
  | zero =>
    obtain ⟨t, hforced, hreturned, hdelivered⟩ :=
      last_exchanged hall hlength hfits hphase h (by omega)
    exact ⟨t, _, _, _, hforced, rfl, rfl, hreturned, hdelivered⟩
  | succ n ih =>
    have hfull : (k + 1) * chunkSize ≤ file.length := by
      rw [← Nat.le_div_iff_mul_le (by decide)]
      omega
    obtain ⟨m, hforced, hmphase, hwritten⟩ :=
      full_exchanged hall hlength hfits hphase h hfull
    obtain ⟨t, u, events, outs, hrest, hreads, houts, hreturned, hdelivered⟩ :=
      ih hmphase hwritten (by omega)
    refine ⟨t, u, _, _, hforced.trans hrest, hreads, ?_, hreturned, hdelivered⟩
    rw [List.flatten_append, houts, List.range'_succ, List.flatMap_cons, List.append_assoc]
    rfl

end Exchange

/-! ## The whole run -/

section Whole
variable {outcome : Nat → Bool} {d : Download Store} {file name : List UInt8}

theorem onData_request (hcount : chunkCount file.length < 65536) (name : List UInt8) :
    onData request (connected file name) =
      some (described chunkSize file name,
        [descriptionPacket (chunkCount file.length) (name.length + 1) (name ++ [0])]) := by
  have hdescribe : onData request (connected file name) = describe request (connected file name) :=
    rfl
  rw [hdescribe, ← descBuff_eq]
  exact if_pos hcount

theorem initial_requests (hall : ∀ n, outcome n = true) {uri : List UInt8}
    (huri : PackageUri.Accepted (PackageUri.sscanf .stm32 uri))
    (hip : (PackageUri.sscanf .stm32 uri).ip.length < 20) (heap : List UInt8) (before : Store)
    (file name : List UInt8) :
    ∃ d, initial outcome uri heap before file name =
        ⟨d, some (connected file name), [], [request]⟩ ∧
      d.phase = .description ∧ d.store = before := by
  unfold initial
  rw [Downloader.start_waits hall huri hip]
  exact ⟨_, rfl, rfl, rfl⟩

theorem described_is_sent (outcome : Nat → Bool) (d : Download Store) (name : List UInt8)
    (hcount : chunkCount file.length < 65536) :
    Forced (step outcome) ⟨d, some (connected file name), [], [request]⟩ [.uploaderReceives]
      ⟨d, some (described chunkSize file name),
        [descriptionPacket (chunkCount file.length) (name.length + 1) (name ++ [0])], []⟩
      [[(.uploader, descriptionPacket (chunkCount file.length) (name.length + 1) (name ++ [0]))]] :=
  forced_uploaderReceives rfl (onData_request hcount name)

/-- A file whose chunks fit is not larger than they are. -/
theorem fileBytes_le (h : chunkCount file.length * chunkSize ≤ platform.maxMemory) :
    file.length ≤ 130560 := by
  have hmax : platform.maxMemory = 131008 := rfl
  rw [hmax] at h
  unfold chunkCount fileBytesAligned ceilDiv chunkSize Downloader.chunkMultiplier at h
  omega

theorem too_large_is_refused (outcome : Nat → Bool) (hphase : d.phase = .description)
    (hcount : chunkCount file.length < 65536)
    (hmemory : platform.maxMemory < chunkCount file.length * chunkSize)
    (hlength : name.length ≤ 254) :
    ∃ t u events outs, Forced (step outcome) ⟨d, some (connected file name), [], [request]⟩ events
        ⟨t, some u, [], []⟩ outs ∧ u.reads = [] ∧
      t.phase = .returned firmwareDownloaderErrMem ∧ t.store = d.store := by
  obtain ⟨t, hanswers, hreturned, hstore⟩ := device_refuses outcome hphase hcount hmemory
    (name.length + 1) (name_fits hlength)
  have hforced := (described_is_sent outcome d name hcount).trans
    (forced_deviceReceives rfl (Or.inl hphase) hanswers)
  exact ⟨t, _, _, _, hforced, rfl, hreturned, hstore⟩

theorem fitting_is_delivered (hall : ∀ n, outcome n = true) (hphase : d.phase = .description)
    (hhal : ∀ n, d.store.hal n = true) (hcalls : d.store.calls = [])
    (hcount : chunkCount file.length < 65536)
    (hmemory : chunkCount file.length * chunkSize ≤ platform.maxMemory) (hname : 0 ∉ name)
    (hlength : name.length ≤ 254) :
    ∃ t u events outs, Forced (step outcome) ⟨d, some (connected file name), [], [request]⟩ events
        ⟨t, some u, [], []⟩ outs ∧ u.reads = [] ∧ outs.flatten = transcript file name ∧
      t.phase = .returned firmwareDownloaderSucc ∧ Delivered t.store.flash name (file ++ [0]) := by
  obtain ⟨m, hanswers, hmphase, hwritten⟩ := device_starts hall hphase hhal hcalls hcount hmemory
    (name.length + 1) hname hlength
  have hstarted := ((described_is_sent outcome d name hcount).trans
    (forced_deviceReceives rfl (Or.inl hphase) hanswers)).trans
      (forced_uploaderReceives rfl (onData_flowStart chunkSize file name))
  obtain ⟨t, u, events, outs, hrest, hreads, houts, hreturned, hdelivered⟩ :=
    chunks_exchanged hall hlength (fileBytes_le hmemory) (file.length / chunkSize) hmphase
      (by rw [Nat.zero_mul]; exact hwritten) (Nat.zero_add _)
  refine ⟨t, u, _, _, hstarted.trans hrest, hreads, ?_, hreturned, hdelivered⟩
  rw [List.flatten_append, houts, ← List.range_eq_range']
  rfl

end Whole

/-- There is one run and it comes to an end. When the announced chunks are too many the device
has called nothing of the HAL; otherwise the packets are those of the transcript, and what the
record leads to is the name and the file with a NUL behind it. -/
theorem firmware_is_delivered (uri heap file name : List UInt8) (outcome : Nat → Bool)
    (before : Store) (huri : PackageUri.Accepted (PackageUri.sscanf .stm32 uri))
    (hip : (PackageUri.sscanf .stm32 uri).ip.length < 20) (hall : ∀ n, outcome n = true)
    (hhal : ∀ n, before.hal n = true) (hcalls : before.calls = [])
    (hcount : chunkCount file.length < 65536) (hname : 0 ∉ name) (hlength : name.length ≤ 254) :
    ∃ events last outs,
      Runs.run (step outcome) (initial outcome uri heap before file name) events =
        some (last, outs) ∧
      (∀ others t sends,
        Runs.run (step outcome) (initial outcome uri heap before file name) others =
          some (t, sends) → others <+: events) ∧
      (platform.maxMemory < chunkCount file.length * chunkSize →
        last.device.phase = .returned firmwareDownloaderErrMem ∧ last.device.store.calls = []) ∧
      (chunkCount file.length * chunkSize ≤ platform.maxMemory →
        last.device.phase = .returned firmwareDownloaderSucc ∧
        outs.flatten = transcript file name ∧
        Delivered last.device.store.flash name (file ++ [0])) := by
  obtain ⟨d, hinitial, hphase, rfl⟩ := initial_requests hall huri hip heap before file name
  rw [hinitial]
  by_cases hmemory : platform.maxMemory < chunkCount file.length * chunkSize
  · obtain ⟨t, u, events, outs, hforced, hreads, hreturned, hstore⟩ :=
      too_large_is_refused outcome hphase hcount hmemory hlength
    refine ⟨events, _, outs, hforced.run, ?_, ?_, ?_⟩
    · intro others m sends hrun
      exact hforced.every_run (step_over hreads) hrun
    · intro _
      exact ⟨hreturned, by rw [hstore, hcalls]⟩
    · intro hle
      omega
  · obtain ⟨t, u, events, outs, hforced, hreads, houts, hreturned, hdelivered⟩ :=
      fitting_is_delivered hall hphase hhal hcalls hcount (Nat.le_of_not_lt hmemory) hname hlength
    refine ⟨events, _, outs, hforced.run, ?_, ?_, ?_⟩
    · intro others m sends hrun
      exact hforced.every_run (step_over hreads) hrun
    · intro hlt
      exact absurd hlt hmemory
    · intro _
      exact ⟨hreturned, houts, hdelivered⟩

/-- The file `a` holds `1`. -/
theorem one_byte_is_delivered :
    ∃ events last outs,
      Runs.run (step fun _ => true) (initial (fun _ => true) firmUri freshHeap
        ⟨fun _ => 0xFF, fun _ => true, [], FlashStore.startMetadata []⟩ [49] [97]) events =
        some (last, outs) ∧
      last.device.phase = .returned firmwareDownloaderSucc ∧
      outs.flatten = transcript [49] [97] ∧
      Delivered last.device.store.flash [97] [49, 0] := by
  obtain ⟨events, last, outs, hrun, _, _, hdelivered⟩ :=
    firmware_is_delivered firmUri freshHeap [49] [97] (fun _ => true)
      ⟨fun _ => 0xFF, fun _ => true, [], FlashStore.startMetadata []⟩ (by decide) (by decide)
      (fun _ => rfl) (fun _ => rfl) rfl (by decide) (by decide) (by decide)
  exact ⟨events, last, outs, hrun, hdelivered (by decide)⟩

end JsEmbeddedPlatform.Delivery
