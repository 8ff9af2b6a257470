import JsEmbeddedPlatform.Delivery

/-!
# The stages of a download

The downloader of any port and the uploader, with calls that may fail. What the port makes of
the chunks is left to a property of its storage; a run goes from stage to stage and either
fails or comes to the end.
-/

set_option autoImplicit false

namespace JsEmbeddedPlatform.Transfers

open Timers (Port)
open Downloader
open Uploader
open Delivery (Side sent chunkCount name_fits)
open FileChunks (chunkBytes chunkMessage ackMessage asked length_chunkBytes_le
  onData_flowStart)

variable {σ : Type}

/-- As `Delivery.System`, with the storage of any port. -/
structure System (σ : Type) where
  device : Download σ
  uploader : Option Server
  toDevice : List (List UInt8)
  toUploader : List (List UInt8)

/-- `firmware_downloader_start` up to its first `recv`, with the uploader listening. -/
def initial (port : Port) (P : FirmwarePlatform σ) (outcome : Nat → Bool)
    (uri heap : List UInt8) (store : σ) (file programName : List UInt8) : System σ :=
  let d := start port P outcome uri heap store
  ⟨d, some (Uploader.connected file programName), [], sent d.trace⟩

def System.uploaderSends (s : System σ) : Option (Server × List (List UInt8)) → System σ
  | none => { s with uploader := none, toDevice := s.toDevice ++ [[]] }
  | some (u, packets) => { s with uploader := some u, toDevice := s.toDevice ++ packets }

/-- What one `recv` leaves of a packet. -/
def unread (packet : List UInt8) : List (List UInt8) :=
  if packet.length ≤ bufferSize then [] else [packet.drop bufferSize]

def step (P : FirmwarePlatform σ) (outcome : Nat → Bool) (s : System σ) :
    Delivery.Event → Option (System σ × Unit)
  | .deviceReceives =>
    match s.toDevice with
    | [] => none
    | packet :: rest =>
      if s.device.phase = .description ∨ s.device.phase = .chunks then
        let d := receive P outcome s.device packet
        some ({ s with
          device := d
          toDevice := unread packet ++ rest
          toUploader := s.toUploader ++ sent (d.trace.drop s.device.trace.length) }, ())
      else none
  | .uploaderReceives =>
    match s.uploader, s.toUploader with
    | some u, packet :: rest =>
      some ({ s with toUploader := rest }.uploaderSends (onData packet u), ())
    | _, _ => none
  | .fileRead =>
    match s.uploader with
    | none => none
    | some u =>
      match u.reads with
      | [] => none
      | r :: rest => some (s.uploaderSends (readDone r rest u), ())

/-- On stm32 this is `Delivery`, as long as each packet fits into one `recv`. -/
def ofDelivery (s : Delivery.System) : System FlashStore.Store :=
  ⟨s.device, s.uploader, s.toDevice, s.toUploader⟩

theorem uploaderSends_delivery (s : Delivery.System) (r : Option (Server × List (List UInt8))) :
    (ofDelivery s).uploaderSends r = ofDelivery (s.uploaderSends r).1 := by
  cases r <;> rfl

theorem step_delivery {outcome : Nat → Bool} {s : Delivery.System}
    (hfits : ∀ packet ∈ s.toDevice, packet.length ≤ bufferSize) (e : Delivery.Event) :
    step FlashStore.platform outcome (ofDelivery s) e =
      (Delivery.step outcome s e).map fun next => (ofDelivery next.1, ()) := by
  obtain ⟨device, uploader, toDevice, toUploader⟩ := s
  cases e with
  | deviceReceives =>
    cases toDevice with
    | nil => rfl
    | cons packet rest =>
      have hunread : unread packet = [] := if_pos (hfits packet List.mem_cons_self)
      simp only [step, Delivery.step, ofDelivery, hunread, List.nil_append]
      split <;> rfl
  | uploaderReceives =>
    cases uploader with
    | none => rfl
    | some u =>
      cases toUploader with
      | nil => rfl
      | cons packet rest =>
        exact congrArg (fun t => some (t, ()))
          (uploaderSends_delivery ⟨device, some u, toDevice, rest⟩ (onData packet u))
  | fileRead =>
    cases uploader with
    | none => rfl
    | some u =>
      cases hreads : u.reads with
      | nil => simp only [step, Delivery.step, ofDelivery, hreads, Option.map_none]
      | cons r rest =>
        simp only [step, Delivery.step, hreads, Option.map_some]
        rw [← uploaderSends_delivery]
        simp only [ofDelivery, hreads]

/-! ## What is written of the file -/

/-- The bytes that are written, chunk after chunk. -/
def text (file : List UInt8) : List UInt8 := file ++ [0]

def lastChunk (file : List UInt8) : Nat := file.length / chunkSize

section Text
variable {file : List UInt8} {k : Nat}

theorem mul_le_of_lastChunk (h : k ≤ lastChunk file) : k * chunkSize ≤ file.length :=
  (Nat.le_div_iff_mul_le (by decide)).mp h

/-- A chunk that is not full has the NUL behind its bytes. -/
theorem chunkBytes_text (h : k ≤ lastChunk file) :
    chunkBytes chunkSize (text file) k =
      if (chunkBytes chunkSize file k).length < chunkSize then chunkBytes chunkSize file k ++ [0]
      else chunkBytes chunkSize file k := by
  have hk := mul_le_of_lastChunk h
  unfold text chunkBytes
  rw [List.drop_append_of_le_length hk, List.length_take]
  generalize file.drop (k * chunkSize) = left
  split
  · next hlt =>
    have hshort : left.length < chunkSize := by omega
    rw [List.take_of_length_le (Nat.le_of_lt hshort), List.take_of_length_le]
    rw [List.length_append, List.length_singleton]
    exact hshort
  · next hge => exact List.take_append_of_le_length (by omega)

theorem chunkLength_text (h : k ≤ lastChunk file) :
    chunkLength chunkSize (chunkBytes chunkSize file k) =
      (chunkBytes chunkSize (text file) k).length := by
  unfold chunkLength
  rw [chunkBytes_text h]
  split
  · rw [List.length_append, List.length_singleton]
  · rfl

theorem padded_text (h : k ≤ lastChunk file) :
    ∃ rest, padded chunkSize (chunkBytes chunkSize file k) =
      chunkBytes chunkSize (text file) k ++ rest := by
  have htake := Delivery.take_padded chunkSize (chunkBytes chunkSize file k) []
  rw [List.append_nil, ← chunkBytes_text h] at htake
  refine ⟨(padded chunkSize (chunkBytes chunkSize file k)).drop
    (chunkLength chunkSize (chunkBytes chunkSize file k)),
    ?_⟩
  rw [← htake, List.take_append_drop]

/-- The last chunk is the last of the text too. -/
theorem text_complete (file : List UInt8) :
    (text file).take ((lastChunk file + 1) * chunkSize) = text file := by
  apply List.take_of_length_le
  unfold text lastChunk chunkSize
  rw [List.length_append, List.length_singleton]
  omega

theorem lastChunk_lt (hcount : chunkCount file.length < 65536) : lastChunk file < 65536 := by
  unfold chunkCount fileBytesAligned ceilDiv chunkSize chunkMultiplier at hcount
  unfold lastChunk chunkSize
  omega

end Text

/-! ## The stages -/

/-- `asking`, `chunk` and `acked` are of one chunk: it is being read, it is under way, or its
acknowledgement is. -/
inductive Stage where
  | requested
  | described
  | started
  | asking (k : Nat)
  | chunk (k : Nat)
  | acked (k : Nat)
  | ending
  | done
deriving DecidableEq, Repr

def Stage.next (last : Nat) : Stage → Stage
  | .requested => .described
  | .described => .started
  | .started => .asking 0
  | .asking k => .chunk k
  | .chunk k => .acked k
  | .acked k => if k < last then .asking (k + 1) else .ending
  | .ending => .done
  | .done => .done

def Stage.remaining (last : Nat) : Stage → Nat
  | .requested => 3 * last + 7
  | .described => 3 * last + 6
  | .started => 3 * last + 5
  | .asking k => 3 * (last - k) + 4
  | .chunk k => 3 * (last - k) + 3
  | .acked k => 3 * (last - k) + 2
  | .ending => 1
  | .done => 0

theorem remaining_next (last : Nat) {stage : Stage} (h : stage ≠ .done) :
    (stage.next last).remaining last < stage.remaining last := by
  cases stage with
  | done => exact absurd rfl h
  | acked k =>
    simp only [Stage.next]
    split
    · simp only [Stage.remaining]
      omega
    · simp only [Stage.remaining]
      omega
  | _ =>
    simp only [Stage.next, Stage.remaining]
    omega

def Stage.system (file name : List UInt8) : Stage → Download σ → System σ
  | .requested, d => ⟨d, some (Uploader.connected file name), [], [request]⟩
  | .described, d => ⟨d, some (FileChunks.described chunkSize file name),
      [descriptionPacket (chunkCount file.length) (name.length + 1) (name ++ [0])], []⟩
  | .started, d => ⟨d, some (FileChunks.described chunkSize file name), [], [[payloadTypeFlowStart]]⟩
  | .asking k, d => ⟨d, some (FileChunks.asking chunkSize file name k), [], []⟩
  | .chunk k, d => ⟨d, some (asked chunkSize file name k), [chunkMessage chunkSize file k], []⟩
  | .acked k, d => ⟨d, some (asked chunkSize file name k), [], [ackMessage k]⟩
  | .ending, d => ⟨d, some (asked chunkSize file name (lastChunk file)), [[payloadTypeFlowEnd]], []⟩
  | .done, d => ⟨d, some (asked chunkSize file name (lastChunk file)), [], []⟩

/-- The run is over, and not with success. -/
structure Failed (d : Download σ) : Prop where
  notDescription : d.phase ≠ .description
  notChunks : d.phase ≠ .chunks
  notSucc : d.phase ≠ .returned firmwareDownloaderSucc

theorem failed_of_returned {d : Download σ} {code : UInt8} (h : d.phase = .returned code)
    (hcode : code ≠ firmwareDownloaderSucc) : Failed d :=
  ⟨by simp [h], by simp [h], by simpa [h] using hcode⟩

/-- What the storage functions establish when they succeed: `Stored k` is of a store that has
the first `k` chunks. -/
structure Stores (P : FirmwarePlatform σ) (file name : List UInt8) (before : σ)
    (Stored : Nat → σ → Prop) : Prop where
  start : ∀ rest s, P.writeStart (name ++ 0 :: rest) before = (firmwareSucc, s) → Stored 0 s
  chunk : ∀ k rest s t, Stored k s →
    P.writeCodeChunk (chunkBytes chunkSize (text file) k ++ rest) (k * chunkSize)
      (chunkBytes chunkSize (text file) k).length s = (firmwareSucc, t) → Stored (k + 1) t

/-- No call fails. -/
structure Smooth (P : FirmwarePlatform σ) (outcome : Nat → Bool) (file name : List UInt8)
    (before : σ) (Stored : Nat → σ → Prop) : Prop where
  calls : ∀ n, outcome n = true
  start : ∀ rest, (P.writeStart (name ++ 0 :: rest) before).1 = firmwareSucc
  chunk : ∀ k rest s, Stored k s →
    (P.writeCodeChunk (chunkBytes chunkSize (text file) k ++ rest) (k * chunkSize)
      (chunkBytes chunkSize (text file) k).length s).1 = firmwareSucc
  finish : ∀ k s, Stored k s → (P.writeFinish s).1 = firmwareSucc

def Stage.Holds (P : FirmwarePlatform σ) (file : List UInt8) (before : σ)
    (Stored : Nat → σ → Prop) : Stage → Download σ → Prop
  | .requested, d => d.phase = .description ∧ d.store = before
  | .described, d => d.phase = .description ∧ d.store = before
  | .started, d => d.phase = .chunks ∧ Stored 0 d.store
  | .asking k, d => k ≤ lastChunk file ∧ d.phase = .chunks ∧ Stored k d.store
  | .chunk k, d => k ≤ lastChunk file ∧ d.phase = .chunks ∧ Stored k d.store
  | .acked k, d => k ≤ lastChunk file ∧ d.phase = .chunks ∧ Stored (k + 1) d.store
  | .ending, d => d.phase = .chunks ∧ Stored (lastChunk file + 1) d.store
  | .done, d => d.phase = .returned firmwareDownloaderSucc ∧
      ∃ s, Stored (lastChunk file + 1) s ∧ d.store = P.writeCleanup (P.writeFinish s).2

/-- The system is in this stage. -/
structure At (P : FirmwarePlatform σ) (file name : List UInt8) (before : σ)
    (Stored : Nat → σ → Prop) (stage : Stage) (s : System σ) : Prop where
  system : s = stage.system file name s.device
  holds : stage.Holds P file before Stored s.device

/-! ## The device -/

section Device
variable {P : FirmwarePlatform σ} {outcome : Nat → Bool} {file name : List UInt8} {before : σ}
  {Stored : Nat → σ → Prop} {d : Download σ} {k : Nat}

/-- The device goes on, and this is its answer. -/
structure Answers (d t : Download σ) (phase : Phase) (answer : List (List UInt8)) : Prop where
  phase : t.phase = phase
  sends : sent (t.trace.drop d.trace.length) = answer

/-- A failure has a call that fails. -/
structure Fails (P : FirmwarePlatform σ) (outcome : Nat → Bool) (file name : List UInt8)
    (before : σ) (Stored : Nat → σ → Prop) (t : Download σ) : Prop where
  failed : Failed t
  rough : ¬ Smooth P outcome file name before Stored

/-- After one call of the storage the device answers, or the answer is not sent. -/
theorem replies {phase : Phase} {buff : List UInt8} {s : σ} {e : Event} {t : Download σ}
    (he : sent [e] = []) (bytes : List UInt8)
    (ht : sendBuffer P outcome bytes.length
      (Download.put bytes ⟨phase, buff, s, d.trace ++ [e]⟩) = t) :
    (Answers d t phase [bytes] ∧ t.store = s) ∨ Fails P outcome file name before Stored t := by
  rcases sendBuffer_cases P outcome bytes.length (Download.put bytes ⟨phase, buff, s, d.trace ++ [e]⟩)
    with hsent | hfails
  · rw [ht, put_buff, overwrite, List.take_left] at hsent
    rw [hsent]
    refine Or.inl ⟨⟨rfl, ?_⟩, rfl⟩
    rw [log_trace, put_trace, List.append_assoc, List.drop_left]
    unfold sent at he ⊢
    rw [List.filterMap_append, he]
    rfl
  · refine Or.inr ⟨?_, fun smooth => ?_⟩
    · rw [← ht, hfails]
      exact failed_of_returned rfl (by decide)
    · have htrace := congrArg Download.trace (hfails.symm.trans (sendBuffer_sent smooth.calls _ _))
      simp [cleanup, Download.log] at htrace

theorem describe_stage (stores : Stores P file name before Stored) (hphase : d.phase = .description)
    (hstore : d.store = before) (hcount : chunkCount file.length < 65536)
    (hmemory : chunkCount file.length * chunkSize ≤ P.maxMemory)
    (hname : 4 + (name ++ [0]).length ≤ bufferSize) {t : Download σ}
    (ht : receive P outcome d (descriptionPacket (chunkCount file.length) (name.length + 1)
      (name ++ [0])) = t) :
    (Answers d t .chunks [[payloadTypeFlowStart]] ∧ Stored 0 t.store) ∨
      Fails P outcome file name before Stored t := by
  rw [receive_description hphase hcount _ hname] at ht
  simp only at ht
  rw [if_neg (by omega)] at ht
  unfold callWriteStart at ht
  rw [put_descriptionPacket_name, put_store, hstore, List.append_assoc, List.singleton_append] at ht
  cases hwrite : P.writeStart (name ++ 0 :: d.buff.drop (4 + (name ++ [0]).length)) before with
  | mk res s =>
    rw [hwrite] at ht
    simp only at ht
    by_cases hres : res = firmwareSucc
    · subst hres
      rw [if_pos rfl] at ht
      rcases replies (d := d) rfl [payloadTypeFlowStart] ht with ⟨hanswers, hsame⟩ | hfails
      · exact Or.inl ⟨hanswers, hsame ▸ stores.start _ _ hwrite⟩
      · exact Or.inr hfails
    · rw [if_neg hres] at ht
      refine Or.inr ⟨ht ▸ failed_of_returned rfl (by decide), fun smooth => hres ?_⟩
      have hsucc := smooth.start (d.buff.drop (4 + (name ++ [0]).length))
      rw [hwrite] at hsucc
      exact hsucc

theorem chunk_stage (stores : Stores P file name before Stored) (hphase : d.phase = .chunks)
    (hk : k ≤ lastChunk file) (hcount : chunkCount file.length < 65536)
    (hstored : Stored k d.store) {t : Download σ}
    (ht : receive P outcome d (chunkMessage chunkSize file k) = t) :
    (Answers d t .chunks [ackMessage k] ∧ Stored (k + 1) t.store) ∨
      Fails P outcome file name before Stored t := by
  have hid : k < 65536 := Nat.lt_of_le_of_lt hk (lastChunk_lt hcount)
  have hlength := length_chunkBytes_le chunkSize file k
  have hpadded := length_padded hlength
  have hannounced := Delivery.chunkLength_le hlength
  obtain ⟨rest, hdata⟩ := padded_text hk
  have hmessage : receive P outcome d (chunkMessage chunkSize file k) = writeChunk P outcome k
      (chunkLength chunkSize (chunkBytes chunkSize file k)) (d.put (chunkMessage chunkSize file k)) := by
    apply receive_chunk hphase hid
    · exact Nat.lt_of_le_of_lt hannounced (by decide)
    · rw [hpadded]
      decide
  rw [hmessage, chunkLength_text hk] at ht
  unfold writeChunk callWriteCodeChunk chunkMessage at ht
  rw [put_chunkPacket_data, put_store, hdata, List.append_assoc] at ht
  generalize hbehind :
    rest ++ d.buff.drop (7 + (chunkBytes chunkSize (text file) k ++ rest).length) = behind
    at ht
  cases hwrite : P.writeCodeChunk (chunkBytes chunkSize (text file) k ++ behind) (k * chunkSize)
      (chunkBytes chunkSize (text file) k).length d.store with
  | mk res s =>
    rw [hwrite] at ht
    simp only at ht
    by_cases hres : res = firmwareSucc
    · subst hres
      rw [if_pos rfl] at ht
      rcases replies (d := d) rfl (ackMessage k) ht with ⟨hanswers, hsame⟩ | hfails
      · exact Or.inl ⟨⟨hanswers.phase.trans hphase, hanswers.sends⟩,
          hsame ▸ stores.chunk _ _ _ _ hstored hwrite⟩
      · exact Or.inr hfails
    · rw [if_neg hres] at ht
      refine Or.inr ⟨ht ▸ failed_of_returned rfl (by decide), fun smooth => hres ?_⟩
      have hsucc := smooth.chunk k behind _ hstored
      rw [hwrite] at hsucc
      exact hsucc

theorem finish_stage (hphase : d.phase = .chunks) (hstored : Stored k d.store) {t : Download σ}
    (ht : receive P outcome d [payloadTypeFlowEnd] = t) :
    (Answers d t (.returned firmwareDownloaderSucc) [] ∧
        t.store = P.writeCleanup (P.writeFinish d.store).2) ∨
      Fails P outcome file name before Stored t := by
  rw [receive_flowEnd hphase] at ht
  unfold finish callWriteFinish at ht
  rw [put_store] at ht
  cases hwrite : P.writeFinish d.store with
  | mk res s =>
    rw [hwrite] at ht
    simp only at ht
    by_cases hres : res = firmwareSucc
    · subst hres
      rw [if_pos rfl] at ht
      subst ht
      refine Or.inl ⟨⟨rfl, ?_⟩, rfl⟩
      simp only [cleanup, log_trace, put_trace, List.append_assoc, List.drop_left]
      rfl
    · rw [if_neg hres] at ht
      refine Or.inr ⟨ht ▸ failed_of_returned rfl (by decide), fun smooth => hres ?_⟩
      have hsucc := smooth.finish k _ hstored
      rw [hwrite] at hsucc
      exact hsucc

end Device

/-! ## One step -/

section Step
variable {P : FirmwarePlatform σ} {outcome : Nat → Bool} {file name : List UInt8} {before : σ}
  {Stored : Nat → σ → Prop} {d : Download σ} {s : System σ} {stage : Stage}

/-- One event is possible, and it leads to the next stage or to a failure. -/
structure Advances (P : FirmwarePlatform σ) (outcome : Nat → Bool) (file name : List UInt8)
    (before : σ) (Stored : Nat → σ → Prop) (stage : Stage) (s : System σ) (e : Delivery.Event)
    (t : System σ) : Prop where
  possible : step P outcome s e = some (t, ())
  only : ∀ j, j ≠ e → step P outcome s j = none
  leads : At P file name before Stored stage t ∨
    Fails P outcome file name before Stored t.device

/-- The device receives the only packet. -/
theorem device_advances {u : Server} {packet : List UInt8} {answer : List (List UInt8)}
    (hreads : u.reads = []) (hfits : packet.length ≤ bufferSize)
    (hphase : d.phase = .description ∨ d.phase = .chunks)
    (hnext : ∀ t : Download σ, stage.system file name t = ⟨t, some u, [], answer⟩)
    (hdevice : (sent ((receive P outcome d packet).trace.drop d.trace.length) = answer ∧
        stage.Holds P file before Stored (receive P outcome d packet)) ∨
      Fails P outcome file name before Stored (receive P outcome d packet)) :
    ∃ t, Advances P outcome file name before Stored stage ⟨d, some u, [packet], []⟩
      .deviceReceives t := by
  have hunread : unread packet = [] := if_pos hfits
  refine ⟨⟨receive P outcome d packet, some u, [],
    sent ((receive P outcome d packet).trace.drop d.trace.length)⟩, ?_, ?_, ?_⟩
  · simp only [step, if_pos hphase, hunread, List.nil_append]
  · intro j hj
    cases j with
    | deviceReceives => exact absurd rfl hj
    | uploaderReceives => rfl
    | fileRead => simp only [step, hreads]
  · rcases hdevice with ⟨hsends, hholds⟩ | hfails
    · exact Or.inl ⟨by rw [hsends]; exact (hnext _).symm, hholds⟩
    · exact Or.inr hfails

theorem uploader_advances {u v : Server} {packet : List UInt8} {packets : List (List UInt8)}
    (hreads : u.reads = []) (hdata : onData packet u = some (v, packets))
    (hnext : stage.system file name d = ⟨d, some v, packets, []⟩)
    (hholds : stage.Holds P file before Stored d) :
    ∃ t, Advances P outcome file name before Stored stage ⟨d, some u, [], [packet]⟩
      .uploaderReceives t := by
  refine ⟨⟨d, some v, packets, []⟩, ?_, ?_, Or.inl ⟨hnext.symm, hholds⟩⟩
  · simp only [step, hdata, System.uploaderSends, List.nil_append]
  · intro j hj
    cases j with
    | deviceReceives => rfl
    | uploaderReceives => exact absurd rfl hj
    | fileRead => simp only [step, hreads]

theorem read_advances {u v : Server} {r : PendingRead} {rest : List PendingRead}
    {packets : List (List UInt8)} (hreads : u.reads = r :: rest)
    (hdone : readDone r rest u = some (v, packets))
    (hnext : stage.system file name d = ⟨d, some v, packets, []⟩)
    (hholds : stage.Holds P file before Stored d) :
    ∃ t, Advances P outcome file name before Stored stage ⟨d, some u, [], []⟩ .fileRead t := by
  refine ⟨⟨d, some v, packets, []⟩, ?_, ?_, Or.inl ⟨hnext.symm, hholds⟩⟩
  · simp only [step, hreads, hdone, System.uploaderSends, List.nil_append]
  · intro j hj
    cases j with
    | deviceReceives => rfl
    | uploaderReceives => rfl
    | fileRead => exact absurd rfl hj

/-- What the announced count and the name have to meet. -/
structure Announced (P : FirmwarePlatform σ) (file name : List UInt8) : Prop where
  count : chunkCount file.length < 65536
  memory : chunkCount file.length * chunkSize ≤ P.maxMemory
  name : 4 + (name ++ [0]).length ≤ bufferSize

theorem length_chunkMessage_le (file : List UInt8) (k : Nat) :
    (chunkMessage chunkSize file k).length ≤ bufferSize := by
  rw [FileChunks.length_chunkMessage]
  decide

/-- An acknowledged chunk was the last, or the next is read. -/
theorem acked_advances {k : Nat} (hk : k ≤ lastChunk file) (hphase : d.phase = .chunks)
    (hstored : Stored (k + 1) d.store) :
    ∃ t, Advances P outcome file name before Stored (Stage.next (lastChunk file) (.acked k))
      ⟨d, some (asked chunkSize file name k), [], [ackMessage k]⟩ .uploaderReceives t := by
  simp only [Stage.next]
  split
  · next hlt =>
    have hfull : (k + 1) * chunkSize ≤ file.length := mul_le_of_lastChunk hlt
    exact uploader_advances rfl (FileChunks.onData_asked_full hfull) rfl ⟨hlt, hphase, hstored⟩
  · next hge =>
    have hlast : k = lastChunk file := by omega
    subst hlast
    exact uploader_advances rfl (FileChunks.onData_asked_last (by decide) rfl) rfl ⟨hphase, hstored⟩

theorem stage_advances (outcome : Nat → Bool) (announced : Announced P file name)
    (stores : Stores P file name before Stored) (h : At P file name before Stored stage s)
    (hdone : stage ≠ .done) :
    ∃ e t, Advances P outcome file name before Stored (stage.next (lastChunk file)) s e t := by
  rw [h.system]
  have hholds := h.holds
  generalize s.device = d at hholds ⊢
  cases stage with
  | requested =>
    exact ⟨_, uploader_advances rfl (Delivery.onData_request announced.count name) rfl hholds⟩
  | described =>
    obtain ⟨hphase, hstore⟩ := hholds
    refine ⟨_, device_advances rfl ?_ (Or.inl hphase) (fun _ => rfl) ?_⟩
    · rw [length_descriptionPacket]
      exact announced.name
    · rcases describe_stage stores hphase hstore announced.count announced.memory announced.name
        rfl with ⟨hanswers, hstored⟩ | hfails
      · exact Or.inl ⟨hanswers.sends, hanswers.phase, hstored⟩
      · exact Or.inr hfails
  | started =>
    obtain ⟨hphase, hstored⟩ := hholds
    exact ⟨_, uploader_advances rfl (onData_flowStart chunkSize file name) rfl
      ⟨Nat.zero_le _, hphase, hstored⟩⟩
  | asking k =>
    have hid : k < 65536 := Nat.lt_of_le_of_lt hholds.1 (lastChunk_lt announced.count)
    exact ⟨_, read_advances rfl (FileChunks.readDone_asking hid) rfl hholds⟩
  | chunk k =>
    obtain ⟨hk, hphase, hstored⟩ := hholds
    refine ⟨_, device_advances rfl (length_chunkMessage_le file k) (Or.inr hphase)
      (fun _ => rfl) ?_⟩
    rcases chunk_stage stores hphase hk announced.count hstored rfl with ⟨hanswers, hnext⟩ | hfails
    · exact Or.inl ⟨hanswers.sends, hk, hanswers.phase, hnext⟩
    · exact Or.inr hfails
  | acked k =>
    obtain ⟨hk, hphase, hstored⟩ := hholds
    exact ⟨_, acked_advances hk hphase hstored⟩
  | ending =>
    obtain ⟨hphase, hstored⟩ := hholds
    refine ⟨_, device_advances rfl (by decide) (Or.inr hphase) (fun _ => rfl) ?_⟩
    rcases finish_stage hphase hstored rfl with ⟨hanswers, hstore⟩ | hfails
    · exact Or.inl ⟨hanswers.sends, hanswers.phase, _, hstored, hstore⟩
    · exact Or.inr hfails
  | done => exact absurd rfl hdone

end Step

/-! ## The first calls -/

section Start
variable {P : FirmwarePlatform σ} {outcome : Nat → Bool}

theorem sendRequest_stage {d : Download σ} (hphase : d.phase = .description)
    (hsent : sent d.trace = []) :
    ((sendRequest P outcome d).phase = .description ∧
        (sendRequest P outcome d).store = d.store ∧
        sent (sendRequest P outcome d).trace = [request]) ∨
      Failed (sendRequest P outcome d) := by
  unfold sendRequest ask
  cases outcome d.trace.length with
  | true =>
    simp only [if_true]
    rcases sendBuffer_cases P outcome 2 ((d.log (.malloc true)).put request) with heq | heq
    · rw [heq]
      refine Or.inl ⟨hphase, rfl, ?_⟩
      unfold sent at hsent ⊢
      rw [log_trace, put_trace, log_trace, List.append_assoc, List.filterMap_append, hsent]
      rfl
    · rw [heq]
      exact Or.inr (failed_of_returned rfl (by decide))
  | false => exact Or.inr (failed_of_returned rfl (by decide))

/-- The request is sent, or the run is over. -/
theorem start_stage (P : FirmwarePlatform σ) (outcome : Nat → Bool) (port : Port)
    (uri heap : List UInt8) (before : σ) :
    ((start port P outcome uri heap before).phase = .description ∧
        (start port P outcome uri heap before).store = before ∧
        sent (start port P outcome uri heap before).trace = [request]) ∨
      Failed (start port P outcome uri heap before) := by
  rcases start_requests port P outcome uri heap before with
    ⟨ip, connected, hstart⟩ | ⟨hover | ⟨code, hreturned, hcode⟩, _⟩
  · rw [hstart]
    exact sendRequest_stage rfl rfl
  · exact Or.inr ⟨by simp [hover], by simp [hover], by simp [hover]⟩
  · exact Or.inr (failed_of_returned hreturned hcode)

theorem initial_stage (port : Port) (uri heap file name : List UInt8) (before : σ)
    (Stored : Nat → σ → Prop) :
    (∃ stage, At P file name before Stored stage
        (initial port P outcome uri heap before file name)) ∨
      Failed (initial port P outcome uri heap before file name).device := by
  rcases start_stage P outcome port uri heap before with
    ⟨hphase, hstore, hsent⟩ | hfailed
  · refine Or.inl ⟨.requested, ?_, hphase, hstore⟩
    simp only [initial, hsent, Stage.system]
  · exact Or.inr hfailed

theorem initial_requested (hall : ∀ n, outcome n = true) {port : Port} {uri : List UInt8}
    (huri : PackageUri.Accepted (PackageUri.sscanf port uri))
    (hip : (PackageUri.sscanf port uri).ip.length < 20) (heap file name : List UInt8) (before : σ)
    (Stored : Nat → σ → Prop) :
    At P file name before Stored .requested
      (initial port P outcome uri heap before file name) := by
  unfold initial
  rw [start_waits hall huri hip]
  exact ⟨rfl, rfl, rfl⟩

end Start

/-! ## Runs -/

section Run
variable {P : FirmwarePlatform σ} {outcome : Nat → Bool} {file name : List UInt8} {before : σ}
  {Stored : Nat → σ → Prop} {s t : System σ} {stage : Stage}

/-- Nothing that the uploader does changes a device that is over. -/
theorem step_over (hdescription : s.device.phase ≠ .description)
    (hchunks : s.device.phase ≠ .chunks) {e : Delivery.Event} {o : Unit}
    (hstep : step P outcome s e = some (t, o)) : t.device = s.device := by
  have hsends : ∀ (s : System σ) r, (s.uploaderSends r).device = s.device := by
    intro s r
    cases r <;> rfl
  cases e with
  | deviceReceives =>
    simp only [step] at hstep
    split at hstep
    · cases hstep
    · rw [if_neg (not_or.mpr ⟨hdescription, hchunks⟩)] at hstep
      cases hstep
  | uploaderReceives =>
    simp only [step] at hstep
    split at hstep
    · cases hstep
      exact hsends _ _
    · cases hstep
  | fileRead =>
    simp only [step] at hstep
    split at hstep
    · cases hstep
    · split at hstep
      · cases hstep
      · cases hstep
        exact hsends _ _

/-- With nothing to receive and nothing to read nothing is possible. -/
theorem step_done (h : At P file name before Stored .done s) (e : Delivery.Event) :
    step P outcome s e = none := by
  rw [h.system]
  cases e <;> rfl

theorem run_stage (announced : Announced P file name) (stores : Stores P file name before Stored)
    (hstart : (∃ stage, At P file name before Stored stage s) ∨ Failed s.device)
    {events : List Delivery.Event} {outs : List Unit}
    (hrun : Runs.run (step P outcome) s events = some (t, outs)) :
    (∃ stage, At P file name before Stored stage t) ∨ Failed t.device := by
  refine Runs.run_history (P := fun _ _ u =>
    (∃ stage, At P file name before Stored stage u) ∨ Failed u.device) ?_ hstart hrun
  intro _ _ u e v o hu hstep
  rcases hu with ⟨stage, hat⟩ | hfailed
  · by_cases hdone : stage = .done
    · rw [step_done (hdone ▸ hat) e] at hstep
      cases hstep
    · obtain ⟨i, w, hadvances⟩ := stage_advances outcome announced stores hat hdone
      have hi : e = i := by
        apply Classical.byContradiction
        intro hne
        rw [hadvances.only e hne] at hstep
        cases hstep
      rw [hi, hadvances.possible] at hstep
      cases hstep
      rcases hadvances.leads with hnext | hfails
      · exact Or.inl ⟨_, hnext⟩
      · exact Or.inr hfails.failed
  · right
    rw [step_over hfailed.notDescription hfailed.notChunks hstep]
    exact hfailed

/-- When no call fails the run goes on to the end, by induction on the stages that remain. -/
theorem run_completes (announced : Announced P file name)
    (stores : Stores P file name before Stored)
    (smooth : Smooth P outcome file name before Stored)
    (h : At P file name before Stored stage s) :
    ∃ events last outs, Runs.run (step P outcome) s events = some (last, outs) ∧
      At P file name before Stored .done last := by
  induction hn : stage.remaining (lastChunk file) using Nat.strong_induction_on
    generalizing stage s with
  | _ n ih =>
    by_cases hdone : stage = .done
    · exact ⟨[], s, [], rfl, hdone ▸ h⟩
    · obtain ⟨e, m, hadvances⟩ := stage_advances outcome announced stores h hdone
      rcases hadvances.leads with hnext | hfails
      · obtain ⟨events, last, outs, hrun, hlast⟩ :=
          ih _ (hn ▸ remaining_next (lastChunk file) hdone) hnext rfl
        exact ⟨e :: events, last, () :: outs,
          Runs.run_cons_iff.mpr ⟨m, (), outs, hadvances.possible, hrun, rfl⟩, hlast⟩
      · exact absurd smooth hfails.rough

/-- A run in which the downloader returns success has stored all chunks, each of them once. -/
theorem returned_is_stored (announced : Announced P file name)
    (stores : Stores P file name before Stored) {port : Port} {uri heap : List UInt8}
    {events : List Delivery.Event} {outs : List Unit}
    (hrun : Runs.run (step P outcome) (initial port P outcome uri heap before file name) events =
      some (t, outs))
    (hreturned : t.device.phase = .returned firmwareDownloaderSucc) :
    ∃ u, Stored (lastChunk file + 1) u ∧ t.device.store = P.writeCleanup (P.writeFinish u).2 := by
  rcases run_stage announced stores (initial_stage port uri heap file name before Stored) hrun with
    ⟨stage, hat⟩ | hfailed
  · have hholds := hat.holds
    cases stage with
    | done => exact hholds.2
    | requested => exact absurd (hholds.1.symm.trans hreturned) (by simp)
    | described => exact absurd (hholds.1.symm.trans hreturned) (by simp)
    | started => exact absurd (hholds.1.symm.trans hreturned) (by simp)
    | ending => exact absurd (hholds.1.symm.trans hreturned) (by simp)
    | asking k => exact absurd (hholds.2.1.symm.trans hreturned) (by simp)
    | chunk k => exact absurd (hholds.2.1.symm.trans hreturned) (by simp)
    | acked k => exact absurd (hholds.2.1.symm.trans hreturned) (by simp)
  · exact absurd hreturned hfailed.notSucc

/-- There is such a run when no call fails. -/
theorem transfer_returns (announced : Announced P file name)
    (stores : Stores P file name before Stored)
    (smooth : Smooth P outcome file name before Stored) {port : Port} {uri : List UInt8}
    (huri : PackageUri.Accepted (PackageUri.sscanf port uri))
    (hip : (PackageUri.sscanf port uri).ip.length < 20) (heap : List UInt8) :
    ∃ events last outs,
      Runs.run (step P outcome) (initial port P outcome uri heap before file name) events =
        some (last, outs) ∧
      last.device.phase = .returned firmwareDownloaderSucc := by
  obtain ⟨events, last, outs, hrun, hlast⟩ := run_completes announced stores smooth
    (initial_requested smooth.calls huri hip heap file name before Stored)
  exact ⟨events, last, outs, hrun, hlast.holds.1⟩

end Run

end JsEmbeddedPlatform.Transfers
