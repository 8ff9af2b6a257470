import JsEmbeddedPlatform.FileChunks

/-!
# What is sent of a firmware

A sender has a firmware, its name and its code, and puts what it sends of it into packets:
descriptions, chunks in any order, as often as it likes or not at all, and the end. Which of the
chunks the downloader is to write follows from the packets alone.
-/

set_option autoImplicit false

namespace JsEmbeddedPlatform.FirmwareMessages

open Downloader
open FileChunks (chunkBytes length_chunkBytes_le)

/-- The name fits a packet with the NUL behind it. -/
structure Firmware where
  name : List UInt8
  code : List UInt8
  fits : 4 + (name ++ [0]).length ≤ bufferSize

def Firmware.chunk (f : Firmware) (id : UInt16) : List UInt8 :=
  chunkBytes chunkSize f.code id.toNat

/-- What one `recv` returns. Bytes behind the data of a chunk do not count, `other` is for a packet
whose type the downloader does not know, and `lost` for a connection that is closed, or an error. -/
inductive Message where
  | description (chunkNum : UInt16) (nameLen : UInt8)
  | chunk (id : UInt16) (padding : List UInt8)
  | flowEnd
  | other (type : UInt8) (bytes : List UInt8)
  | lost
deriving DecidableEq, Repr

def Message.packet (f : Firmware) : Message → List UInt8
  | .description chunkNum nameLen => descriptionPacket chunkNum.toNat nameLen.toNat (f.name ++ [0])
  | .chunk id padding => chunkPacket id.toNat (f.chunk id).length (f.chunk id ++ padding)
  | .flowEnd => [payloadTypeFlowEnd]
  | .other type bytes => type :: bytes
  | .lost => []

/-- The packet fits the buffer. -/
def Message.Fits (f : Firmware) : Message → Prop
  | .description _ _ => True
  | .chunk id padding => 7 + (f.chunk id ++ padding).length ≤ bufferSize
  | .flowEnd => True
  | .other type _ => type ∉ [payloadTypeDescription, payloadTypeChunk, payloadTypeFlowEnd]
  | .lost => True

instance (f : Firmware) (m : Message) : Decidable (m.Fits f) :=
  match m with
  | .description _ _ => isTrue trivial
  | .chunk id padding =>
    inferInstanceAs (Decidable (7 + (f.chunk id ++ padding).length ≤ bufferSize))
  | .flowEnd => isTrue trivial
  | .other type _ => inferInstanceAs
      (Decidable (type ∉ [payloadTypeDescription, payloadTypeChunk, payloadTypeFlowEnd]))
  | .lost => isTrue trivial

def packets (f : Firmware) (messages : List Message) : List (List UInt8) :=
  messages.map (Message.packet f)

/-- The chunks that come before the end. -/
def chunksBeforeEnd : List Message → List UInt16
  | .chunk id _ :: rest => id :: chunksBeforeEnd rest
  | .flowEnd :: _ => []
  | _ :: rest => chunksBeforeEnd rest
  | [] => []

/-- The chunks between the first description and the end that follows it. -/
def chunksSent : List Message → List UInt16
  | .description _ _ :: rest => chunksBeforeEnd rest
  | _ :: rest => chunksSent rest
  | [] => []

theorem length_chunk_le (f : Firmware) (id : UInt16) : (f.chunk id).length ≤ chunkSize :=
  length_chunkBytes_le chunkSize f.code id.toNat

theorem getD_chunk {f : Firmware} {id : UInt16} {j : Nat} (hj : j < (f.chunk id).length) :
    (f.chunk id).getD j 0 = f.code.getD (id.toNat * chunkSize + j) 0 ∧
      id.toNat * chunkSize + j < f.code.length ∧ j < chunkSize := by
  have hle := length_chunk_le f id
  unfold Firmware.chunk chunkBytes at hj ⊢
  rw [List.length_take, List.length_drop] at hj
  refine ⟨?_, by omega, by omega⟩
  simp only [List.getD_eq_getElem?_getD]
  rw [List.getElem?_take_of_lt (by omega), List.getElem?_drop]

section Storage
variable {σ : Type} (P : FirmwarePlatform σ) (f : Firmware) (before : σ)

/-- While chunks are expected the storage has been started and has got these chunks; behind a text
that is handed over lies the rest of the buffer. -/
inductive Writing : List UInt16 → σ → Prop
  | started (rest : List UInt8) : (P.writeStart (f.name ++ 0 :: rest) before).1 = firmwareSucc →
      Writing [] (P.writeStart (f.name ++ 0 :: rest) before).2
  | wrote {ids : List UInt16} {s : σ} (id : UInt16) (rest : List UInt8) : Writing ids s →
      (P.writeCodeChunk (f.chunk id ++ rest) (id.toNat * chunkSize) (f.chunk id).length s).1 =
        firmwareSucc →
      Writing (ids ++ [id])
        (P.writeCodeChunk (f.chunk id ++ rest) (id.toNat * chunkSize) (f.chunk id).length s).2

/-- What the storage has done at any point of a run in which these are the chunks to be written:
it finishes only with all of them. -/
inductive Stands (ids : List UInt16) : σ → Prop
  | untouched : Stands ids before
  | unstarted (rest : List UInt8) : (P.writeStart (f.name ++ 0 :: rest) before).1 ≠ firmwareSucc →
      Stands ids (P.writeStart (f.name ++ 0 :: rest) before).2
  | writing {done : List UInt16} {s : σ} : Writing P f before done s → done <+: ids → Stands ids s
  | unwritten {done : List UInt16} {s : σ} (id : UInt16) (rest : List UInt8) :
      Writing P f before done s → done ++ [id] <+: ids →
      (P.writeCodeChunk (f.chunk id ++ rest) (id.toNat * chunkSize) (f.chunk id).length s).1 ≠
        firmwareSucc →
      Stands ids
        (P.writeCodeChunk (f.chunk id ++ rest) (id.toNat * chunkSize) (f.chunk id).length s).2
  | finished {s : σ} : Writing P f before ids s → Stands ids (P.writeFinish s).2
  | cleaned {s : σ} : Stands ids s → Stands ids (P.writeCleanup s)

end Storage

section Run
variable {σ : Type} {P : FirmwarePlatform σ} {outcome : Nat → Bool} {f : Firmware} {before : σ}
  {d : Download σ}

theorem receive_lost (hphase : d.phase = .description ∨ d.phase = .chunks) :
    receive P outcome d [] = cleanup P firmwareDownloaderErrConn true d := by
  unfold receive
  rcases hphase with hphase | hphase
  · rw [hphase]
    rfl
  · rw [hphase]
    rfl

/-- A packet that is not waited for only leaves its bytes in the buffer. -/
theorem receive_ignored {type : UInt8} {bytes : List UInt8}
    (h : d.phase = .description ∧ type ≠ payloadTypeDescription ∨
      d.phase = .chunks ∧ type ≠ payloadTypeChunk ∧ type ≠ payloadTypeFlowEnd) :
    receive P outcome d (type :: bytes) = d.put ((type :: bytes).take bufferSize) := by
  have hid : (d.put ((type :: bytes).take bufferSize)).id = type := rfl
  have hsome : (type :: bytes).take bufferSize ≠ [] := by simp [bufferSize]
  unfold receive
  simp only
  rcases h with ⟨hphase, hne⟩ | ⟨hphase, hchunk, hend⟩
  · rw [hphase]
    simp only
    rw [if_neg hsome]
    exact describe_ignores (Or.inr (by rw [hid]; exact hne))
  · rw [hphase]
    simp only
    rw [if_neg hsome]
    unfold receiveChunk
    rw [hid, if_neg hend, if_neg (fun h => hchunk h.2)]

theorem packet_chunk (f : Firmware) (id : UInt16) (padding : List UInt8) :
    (Message.chunk id padding).packet f =
      chunkPacket id.toNat (f.chunk id).length (f.chunk id ++ padding) := rfl

theorem packet_description (f : Firmware) (chunkNum : UInt16) (nameLen : UInt8) :
    (Message.description chunkNum nameLen).packet f =
      descriptionPacket chunkNum.toNat nameLen.toNat (f.name ++ [0]) := rfl

/-- A chunk is written and waited for the next, or the run is over. -/
theorem receive_chunk_stands (outcome : Nat → Bool) {done : List UInt16} {id : UInt16} {padding : List UInt8}
    (hphase : d.phase = .chunks) (hwriting : Writing P f before done d.store)
    (hfits : (Message.chunk id padding).Fits f) :
    let t := receive P outcome d ((Message.chunk id padding).packet f)
    (t.phase = .chunks ∧ Writing P f before (done ++ [id]) t.store) ∨
      (∃ code, t.phase = .returned code) ∧
        ∀ later, Stands P f before (done ++ id :: later) t.store := by
  have hshort : (f.chunk id).length < 4294967296 :=
    Nat.lt_of_le_of_lt (length_chunk_le f id) (by decide)
  have hbegins : ∀ later, done ++ [id] <+: done ++ id :: later :=
    fun later => ⟨later, by simp⟩
  intro t
  have ht : t = writeChunk P outcome id.toNat (f.chunk id).length
      (d.put ((Message.chunk id padding).packet f)) := 
    receive_chunk hphase id.toNat_lt hshort hfits
  have hdata : (d.put ((Message.chunk id padding).packet f)).buff.drop 7 =
      f.chunk id ++ (padding ++ d.buff.drop (7 + (f.chunk id ++ padding).length)) := by
    rw [packet_chunk, put_chunkPacket_data, List.append_assoc]
  generalize padding ++ d.buff.drop (7 + (f.chunk id ++ padding).length) = rest at hdata
  rcases @writeChunk_step σ P outcome (d.put ((Message.chunk id padding).packet f)) _ _ _ _
    (by rw [hdata, put_store]) with ⟨hok, hsame, hs⟩ | ⟨hover, hs⟩
  · rw [← ht] at hsame hs
    exact Or.inl ⟨hsame.trans hphase, hs ▸ .wrote id rest hwriting hok⟩
  · rw [← ht] at hover hs
    refine Or.inr ⟨hover, fun later => ?_⟩
    rw [hs]
    apply Stands.cleaned
    by_cases hok : (P.writeCodeChunk (f.chunk id ++ rest) (id.toNat * chunkSize) (f.chunk id).length
        d.store).1 = firmwareSucc
    · exact .writing (.wrote id rest hwriting hok) (hbegins later)
    · exact .unwritten id rest hwriting (hbegins later) hok

theorem receiveAll_over_stands {ids : List UInt16} {code : UInt8} (h : d.phase = .returned code)
    (hstands : Stands P f before ids d.store) (later : List (List UInt8)) :
    Stands P f before ids (receiveAll P outcome d later).store := by
  rw [receiveAll_returned h]
  exact hstands

/-- From a state on in which chunks are expected. -/
theorem chunks_stand {messages : List Message} (hfits : ∀ m ∈ messages, m.Fits f)
    {done : List UInt16} (hphase : d.phase = .chunks) (hwriting : Writing P f before done d.store) :
    Stands P f before (done ++ chunksBeforeEnd messages)
      (receiveAll P outcome d (packets f messages)).store := by
  induction messages generalizing d done with
  | nil =>
    rw [chunksBeforeEnd, List.append_nil]
    exact .writing hwriting List.prefix_rfl
  | cons m messages ih =>
    have hrest := fun m h => hfits m (List.mem_cons_of_mem _ h)
    have hm := hfits m List.mem_cons_self
    rw [packets, List.map_cons, receiveAll_cons]
    cases m with
    | description chunkNum nameLen =>
      rw [packet_description, descriptionPacket, receive_ignored (Or.inr ⟨hphase, by decide⟩)]
      exact ih hrest hphase hwriting
    | chunk id padding =>
      rcases receive_chunk_stands outcome hphase hwriting hm with
        ⟨hchunks, hwrote⟩ | ⟨⟨code, hover⟩, hstands⟩
      · have := ih hrest hchunks hwrote
        rw [List.append_assoc, List.singleton_append] at this
        exact this
      · exact receiveAll_over_stands hover (hstands _) _
    | flowEnd =>
      obtain ⟨⟨code, hover⟩, hs⟩ := finish_store (P := P) (d.put [payloadTypeFlowEnd])
      rw [show (Message.flowEnd).packet f = [payloadTypeFlowEnd] from rfl, receive_flowEnd hphase]
      apply receiveAll_over_stands hover
      rw [hs, chunksBeforeEnd, List.append_nil]
      exact .cleaned (.finished hwriting)
    | other type bytes =>
      have hne : type ≠ payloadTypeChunk ∧ type ≠ payloadTypeFlowEnd :=
        ⟨fun h => hm (by simp [h]), fun h => hm (by simp [h])⟩
      rw [show (Message.other type bytes).packet f = type :: bytes from rfl,
        receive_ignored (Or.inr ⟨hphase, hne⟩)]
      exact ih hrest hphase hwriting
    | lost =>
      rw [show (Message.lost).packet f = [] from rfl, receive_lost (Or.inr hphase)]
      apply receiveAll_over_stands (cleanup_phase ..)
      exact .cleaned (.writing hwriting (List.prefix_append _ _))

/-- From a state on in which the description is expected. -/
theorem description_stands {messages : List Message} (hfits : ∀ m ∈ messages, m.Fits f)
    (hphase : d.phase = .description) (hstore : d.store = before) :
    Stands P f before (chunksSent messages) (receiveAll P outcome d (packets f messages)).store := by
  have hcleaned : ∀ ids, Stands P f before ids (P.writeCleanup d.store) :=
    fun ids => hstore ▸ .cleaned .untouched
  induction messages generalizing d with
  | nil => exact hstore ▸ .untouched
  | cons m messages ih =>
    have hrest := fun m h => hfits m (List.mem_cons_of_mem _ h)
    have hm := hfits m List.mem_cons_self
    rw [packets, List.map_cons, receiveAll_cons]
    cases m with
    | description chunkNum nameLen =>
      rw [packet_description]
      by_cases hcheck : chunkNum.toNat * chunkSize ≤ P.maxMemory
      · rcases @receive_description_step σ P outcome d hphase _ chunkNum.toNat_lt hcheck
          nameLen.toNat _ f.fits _ _
          (by rw [List.append_assoc, List.singleton_append, hstore]) with
          ⟨hok, hchunks, hsame⟩ | ⟨⟨code, hover⟩, hsame⟩
        · exact chunks_stand hrest hchunks (hsame ▸ Writing.started _ hok)
        · apply receiveAll_over_stands hover
          rw [hsame]
          apply Stands.cleaned
          by_cases hok : (P.writeStart
              (f.name ++ 0 :: d.buff.drop (4 + (f.name ++ [0]).length)) before).1 = firmwareSucc
          · exact .writing (.started _ hok) List.nil_prefix
          · exact .unstarted _ hok
      · rw [receive_description hphase chunkNum.toNat_lt nameLen.toNat f.fits]
        simp only
        rw [if_pos (by omega)]
        refine receiveAll_over_stands (cleanup_phase ..) ?_ _
        exact hcleaned _
    | chunk id padding =>
      rw [packet_chunk, chunkPacket, receive_ignored (Or.inl ⟨hphase, by decide⟩)]
      exact ih hrest hphase hstore hcleaned
    | flowEnd =>
      rw [show (Message.flowEnd).packet f = [payloadTypeFlowEnd] from rfl,
        receive_ignored (Or.inl ⟨hphase, by decide⟩)]
      exact ih hrest hphase hstore hcleaned
    | other type bytes =>
      have hne : type ≠ payloadTypeDescription := fun h => hm (by simp [h])
      rw [show (Message.other type bytes).packet f = type :: bytes from rfl,
        receive_ignored (Or.inl ⟨hphase, hne⟩)]
      exact ih hrest hphase hstore hcleaned
    | lost =>
      rw [show (Message.lost).packet f = [] from rfl, receive_lost (Or.inl hphase)]
      exact receiveAll_over_stands (cleanup_phase ..) (hcleaned _) _

/-- Every run stands somewhere in the storage of what is sent. -/
theorem run_stands (port : Timers.Port) (P : FirmwarePlatform σ) (outcome : Nat → Bool)
    (uri heap : List UInt8) (before : σ) {messages : List Message}
    (hfits : ∀ m ∈ messages, m.Fits f) :
    Stands P f before (chunksSent messages)
      (firmwareDownloaderStart port P outcome uri heap before (packets f messages)).store := by
  unfold firmwareDownloaderStart
  rcases start_cases port P outcome uri heap before with ⟨hphase, _, hstore⟩ | ⟨hover, hstore⟩
  · exact description_stands hfits hphase hstore
  · rw [receiveAll_over hover]
    rcases hstore with hstore | hstore
    · rw [hstore]
      exact .untouched
    · rw [hstore]
      exact .cleaned .untouched

end Run

end JsEmbeddedPlatform.FirmwareMessages
