import Mathlib.Data.List.Forall2
import JsEmbeddedPlatform.FlashStore

/-!
# Where a transfer writes

The size check compares the announced number of chunks with the room for code. What is
programmed follows from the length of the name and from the id and the length of each
chunk, all of them chosen by the server.
-/

set_option autoImplicit false

namespace JsEmbeddedPlatform.FlashBounds

open Timers (Port)
open Downloader FlashStore

/-- A CHUNK packet that fits the buffer; `length` need not be the length of `data`. -/
structure ChunkPacket where
  id : Nat
  length : Nat
  data : List UInt8
  id_lt : id < 65536
  length_lt : length < 4294967296
  data_fits : 7 + data.length ≤ bufferSize

def ChunkPacket.bytes (p : ChunkPacket) : List UInt8 := chunkPacket p.id p.length p.data

/-- What the downloader makes of a packet: behind the data it sees what else is in memory. -/
structure Asks (p : ChunkPacket) (c : Chunk) : Prop where
  id : c.id = p.id
  length : c.length = p.length
  data : p.data <+: c.data

/-- Chunks for packets that are not looked at any more. -/
def ChunkPacket.chunk (p : ChunkPacket) : Chunk := ⟨p.data, p.id, p.length, p.id_lt, p.length_lt⟩

theorem asks_chunks (packets : List ChunkPacket) :
    List.Forall₂ Asks packets (packets.map ChunkPacket.chunk) := by
  rw [List.forall₂_map_right_iff, List.forall₂_same]
  exact fun p _ => ⟨rfl, rfl, List.prefix_rfl⟩

/-- Nothing has failed and the chunks in `done` are written. -/
structure Complete (hal : Nat → Bool) (name : List UInt8) (done : List Chunk)
    (d : Download Store) : Prop where
  phase : d.phase = .chunks
  hal : d.store.hal = hal
  calls : d.store.calls = succeeded (startPlan name ++ codePlan (startMetadata name) done)
  metadata : d.store.writeMetadata = metadataAfter name done

section Steps
variable {outcome hal : Nat → Bool} {name : List UInt8} {done : List Chunk} {d : Download Store}

theorem transferPlan_extends (name : List UInt8) (done more : List Chunk) :
    startPlan name ++ codePlan (startMetadata name) done <+: transferPlan name (done ++ more) := by
  refine ⟨codePlan (startMetadata name) more ++
    (metadataCalls (metadataAfter name (done ++ more)) ++ [.lock]), ?_⟩
  unfold transferPlan codePlan
  rw [List.flatMap_append]
  simp only [List.append_assoc]

theorem writeChunk_complete (outcome : Nat → Bool) (h : Complete hal name done d) (c : Chunk)
    (hdata : d.buff.drop 7 = c.data) :
    Complete hal name (done ++ [c]) (writeChunk platform outcome c.id c.length d) ∨
      (∃ code, (writeChunk platform outcome c.id c.length d).phase = .returned code) ∧
        Tried (startPlan name ++ codePlan (startMetadata name) (done ++ [c]))
          (writeChunk platform outcome c.id c.length d).store.calls := by
  have hcases := writeCodeChunk_cases c.data (c.id * chunkSize) c.length d.store
  have hplan : startPlan name ++ codePlan (startMetadata name) (done ++ [c]) =
      startPlan name ++ codePlan (startMetadata name) done ++
        codeCalls c.data (c.id * chunkSize) c.length (startMetadata name) := by
    rw [codePlan_concat, ← List.append_assoc]
    rfl
  have hafter := metadataAfter_concat name done c
  rw [h.metadata, codeCalls_metadataAfter] at hcases
  generalize codeCalls c.data (c.id * chunkSize) c.length (startMetadata name) = calls
    at hcases hplan
  rw [← hdata] at hcases
  rcases hcases with heq | ⟨res, made, m, hne, htried, heq⟩
  · rcases writeChunk_step (P := platform) heq with ⟨_, hphase, hstore⟩ | ⟨hover, hstore⟩
    · left
      refine ⟨hphase.trans h.phase, ?_, ?_, ?_⟩
      · rw [hstore]
        exact h.hal
      · rw [hstore, hplan, succeeded_append, ← h.calls]
        rfl
      · rw [hstore, hafter]
        rfl
    · right
      refine ⟨hover, ?_⟩
      rw [hstore, hplan]
      simp only [platform_writeCleanup, add_calls]
      rw [h.calls, ← succeeded_append]
      exact (succeeded_tried _ []).extend (by simp)
  · rcases writeChunk_step (P := platform) heq with ⟨hok, _⟩ | ⟨hover, hstore⟩
    · exact absurd hok hne
    · right
      refine ⟨hover, ?_⟩
      rw [hstore, hplan]
      simp only [platform_writeCleanup, add_calls]
      rw [h.calls]
      exact htried.after _

theorem writeChunk_whole (h : Complete hal name done d) (hsend : ∀ n, outcome n = true)
    (hhal : ∀ n, hal n = true) (c : Chunk) (hdata : d.buff.drop 7 = c.data) :
    Complete hal name (done ++ [c]) (writeChunk platform outcome c.id c.length d) := by
  have hwrite := writeCodeChunk_all (s := d.store) (by rw [h.hal]; exact hhal) c.data
    (c.id * chunkSize) c.length
  have hplan := codePlan_concat (startMetadata name) done c
  have hafter := metadataAfter_concat name done c
  rw [h.metadata, codeCalls_metadataAfter, ← hdata] at hwrite
  rw [← hdata] at hplan
  unfold Chunk.offset at hplan
  generalize codeCalls (d.buff.drop 7) (c.id * chunkSize) c.length (startMetadata name) = calls
    at hwrite hplan
  rw [writeChunk_sent (P := platform) hsend hwrite]
  refine ⟨h.phase, h.hal, ?_, ?_⟩
  · simp only [log_store, put_store, add_calls]
    rw [hplan, ← List.append_assoc, succeeded_append, h.calls]
  · rw [hafter]
    rfl

/-- What the packet leaves in the buffer is what the store is handed. -/
theorem receive_packet (outcome : Nat → Bool) (h : Complete hal name done d) (p : ChunkPacket) :
    ∃ c, Asks p c ∧ receive platform outcome d p.bytes =
      writeChunk platform outcome c.id c.length (d.put p.bytes) ∧
        (d.put p.bytes).buff.drop 7 = c.data :=
  ⟨⟨p.data ++ d.buff.drop (7 + p.data.length), p.id, p.length, p.id_lt, p.length_lt⟩,
    ⟨rfl, rfl, List.prefix_append _ _⟩, receive_chunk h.phase p.id_lt p.length_lt p.data_fits,
    put_chunkPacket_data ..⟩

theorem Complete.put (h : Complete hal name done d) (bytes : List UInt8) :
    Complete hal name done (d.put bytes) :=
  ⟨h.phase, h.hal, h.calls, h.metadata⟩

theorem receiveAll_flowEnd (h : d.phase = .chunks) :
    (receiveAll platform outcome d (([] : List ChunkPacket).map ChunkPacket.bytes ++
      [[payloadTypeFlowEnd]])).store = (firmwarePlatformWriteFinish d.store).2 := by
  have hone : receiveAll platform outcome d (([] : List ChunkPacket).map ChunkPacket.bytes ++
      [[payloadTypeFlowEnd]]) = receive platform outcome d [payloadTypeFlowEnd] := rfl
  rw [hone, receive_flowEnd h, (finish_store _).2]
  rfl

/-- Whatever fails, the calls are those of the transfer up to a point. -/
theorem chunks_tried (h : Complete hal name done d) (packets : List ChunkPacket) :
    ∃ chunks, List.Forall₂ Asks packets chunks ∧ Tried (transferPlan name (done ++ chunks))
      (receiveAll platform outcome d (packets.map ChunkPacket.bytes ++
        [[payloadTypeFlowEnd]])).store.calls := by
  induction packets generalizing done d with
  | nil =>
    refine ⟨[], .nil, ?_⟩
    rw [List.append_nil]
    rw [receiveAll_flowEnd h.phase]
    unfold transferPlan
    rw [← List.append_assoc]
    have hcases := writeFinish_cases d.store
    rw [h.metadata] at hcases
    generalize metadataCalls (metadataAfter name done) = calls at hcases ⊢
    rcases hcases with ⟨ok, heq⟩ | ⟨_, made, _, htried, heq⟩
    · rw [heq]
      simp only [add_calls]
      rw [h.calls]
      apply Tried.after
      apply Tried.after
      exact ⟨List.prefix_rfl, by simp⟩
    · rw [heq]
      simp only [add_calls]
      rw [h.calls]
      exact (htried.more _).after _
  | cons p packets ih =>
    obtain ⟨c, hasks, hreceive, hdata⟩ := receive_packet outcome h p
    rw [List.map_cons, List.cons_append, receiveAll_cons, hreceive]
    rcases writeChunk_complete outcome (h.put p.bytes) c hdata
      with hnext | ⟨⟨code, hover⟩, htried⟩
    · obtain ⟨chunks, hall, htried⟩ := ih hnext
      refine ⟨c :: chunks, .cons hasks hall, ?_⟩
      rw [List.append_cons done c]
      exact htried
    · -- the rest of the packets finds the run ended
      rw [receiveAll_returned hover]
      refine ⟨c :: packets.map ChunkPacket.chunk, .cons hasks (asks_chunks packets), ?_⟩
      rw [List.append_cons done c]
      exact htried.extend (transferPlan_extends ..)

/-- Where nothing fails, all of them are made. -/
theorem chunks_whole (h : Complete hal name done d) (hsend : ∀ n, outcome n = true)
    (hhal : ∀ n, hal n = true) (packets : List ChunkPacket) :
    ∃ chunks, List.Forall₂ Asks packets chunks ∧
      (receiveAll platform outcome d (packets.map ChunkPacket.bytes ++
        [[payloadTypeFlowEnd]])).store.calls = succeeded (transferPlan name (done ++ chunks)) := by
  induction packets generalizing done d with
  | nil =>
    refine ⟨[], .nil, ?_⟩
    rw [List.append_nil]
    rw [receiveAll_flowEnd h.phase]
    unfold transferPlan
    rw [← List.append_assoc, succeeded_append, ← h.calls]
    rw [writeFinish_all (by rw [h.hal]; exact hhal), h.metadata]
    rfl
  | cons p packets ih =>
    obtain ⟨c, hasks, hreceive, hdata⟩ := receive_packet outcome h p
    rw [List.map_cons, List.cons_append, receiveAll_cons, hreceive]
    obtain ⟨chunks, hall, hcalls⟩ := ih (writeChunk_whole (h.put p.bytes) hsend hhal c hdata)
    refine ⟨c :: chunks, .cons hasks hall, ?_⟩
    rw [List.append_cons done c chunks]
    exact hcalls

/-- What `firmware_platform_write_start` reads the name from: the packet, and what was in the
buffer behind it. -/
def nameMemory (heap name : List UInt8) : List UInt8 := name ++ heap.drop (4 + name.length)

def packetsOf (chunkNum nameLen : Nat) (name : List UInt8) (packets : List ChunkPacket) :
    List (List UInt8) :=
  descriptionPacket chunkNum nameLen name ::
    (packets.map ChunkPacket.bytes ++ [[payloadTypeFlowEnd]])

section Run
variable {chunkNum : Nat} {text heap : List UInt8}

theorem buff_nameMemory (hbuff : d.buff = overwrite request heap) (text : List UInt8) :
    text ++ d.buff.drop (4 + text.length) = nameMemory heap text := by
  unfold nameMemory
  rw [hbuff, drop_overwrite (by simp [request]; omega)]

theorem run_tried (outcome : Nat → Bool) (hphase : d.phase = .description)
    (hbuff : d.buff = overwrite request heap)
    (hlog : d.store.calls = []) (hnum : chunkNum < 65536)
    (hcheck : chunkNum * chunkSize ≤ platform.maxMemory) (nameLen : Nat)
    (hname : 4 + text.length ≤ bufferSize) (packets : List ChunkPacket) :
    ∃ chunks, List.Forall₂ Asks packets chunks ∧
      Tried (transferPlan (nameMemory heap text) chunks)
        (receiveAll platform outcome d (packetsOf chunkNum nameLen text packets)).store.calls := by
  unfold packetsOf
  rw [receiveAll_cons]
  have hcases := writeStart_cases (nameMemory heap text) d.store
  rw [← buff_nameMemory hbuff] at hcases ⊢
  rcases hcases with heq | ⟨res, made, m, hne, htried, heq⟩
  · rcases receive_description_step (P := platform) hphase hnum hcheck nameLen hname heq
      with ⟨_, hchunks, hstore⟩ | ⟨⟨code, hover⟩, hstore⟩
    · have hcomplete : Complete d.store.hal (text ++ d.buff.drop (4 + text.length)) []
          (receive platform outcome d (descriptionPacket chunkNum nameLen text)) := by
        refine ⟨hchunks, by rw [hstore]; rfl, ?_, by rw [hstore]; rfl⟩
        rw [hstore]
        simp only [Store.add, hlog, List.nil_append, codePlan, List.flatMap_nil, List.append_nil]
      exact chunks_tried hcomplete packets
    · rw [receiveAll_returned hover, hstore]
      refine ⟨packets.map ChunkPacket.chunk, asks_chunks packets, ?_⟩
      simp only [platform_writeCleanup, add_calls]
      rw [hlog, List.nil_append]
      exact succeeded_tried _ _
  · rcases receive_description_step (P := platform) hphase hnum hcheck nameLen hname heq
      with ⟨hok, _⟩ | ⟨⟨code, hover⟩, hstore⟩
    · exact absurd hok hne
    · rw [receiveAll_returned hover, hstore]
      refine ⟨packets.map ChunkPacket.chunk, asks_chunks packets, ?_⟩
      simp only [platform_writeCleanup, add_calls]
      rw [hlog, List.nil_append]
      exact htried.more _

theorem run_whole (outcome : Nat → Bool) (heap : List UInt8) (hphase : d.phase = .description)
    (hbuff : d.buff = overwrite request heap) (hlog : d.store.calls = []) (hnum : chunkNum < 65536)
    (hcheck : chunkNum * chunkSize ≤ platform.maxMemory) (nameLen : Nat)
    (hname : 4 + text.length ≤ bufferSize) (hsend : ∀ n, outcome n = true)
    (hhal : ∀ n, d.store.hal n = true) (packets : List ChunkPacket) :
    ∃ chunks, List.Forall₂ Asks packets chunks ∧
      (receiveAll platform outcome d (packetsOf chunkNum nameLen text packets)).store.calls =
        succeeded (transferPlan (nameMemory heap text) chunks) := by
  have hstart := writeStart_all hhal (nameMemory heap text)
  rw [← buff_nameMemory hbuff] at hstart ⊢
  have hcomplete : Complete d.store.hal (text ++ d.buff.drop (4 + text.length)) []
      (receive platform outcome d (descriptionPacket chunkNum nameLen text)) := by
    rw [receive_description_sent (P := platform) hsend hphase hnum hcheck nameLen hname hstart]
    refine ⟨rfl, rfl, ?_, rfl⟩
    simp only [log_store, put_store, Store.add, hlog, List.nil_append, codePlan,
      List.flatMap_nil, List.append_nil]
  unfold packetsOf
  rw [receiveAll_cons]
  exact chunks_whole hcomplete hsend hhal packets

end Run

end Steps

/-! ## The area -/

def nameLength (name : List UInt8) : Nat := (CString.text name).length

/-- Code begins behind the metadata and the name with its NUL. -/
def codeStart (name : List UInt8) : Nat := namePtr + nameLength name + 1

/-- A byte is programmed inside the sector; a byte of code neither into the metadata nor into the
name, and inside the room for the announced chunks. -/
def InArea (name : List UInt8) (chunkNum : Nat) : HalCall → Prop
  | .program part a _ =>
    (sectorAddr ≤ a ∧ a < sectorAddr + sectorSize) ∧
      (part = .code → ¬ (sectorAddr ≤ a ∧ a < sectorAddr + metadataSize) ∧
        ¬ (namePtr ≤ a ∧ a ≤ namePtr + nameLength name) ∧
        codeStart name ≤ a ∧ a < codeStart name + chunkNum * chunkSize)
  | _ => True

/-- The chunk is not empty, and its end is a 32-bit address. -/
def Written (name : List UInt8) (id length : Nat) : Prop :=
  0 < length ∧ codeStart name + id * chunkSize + length < 4294967296

def Fits (name : List UInt8) (chunkNum : Nat) (packets : List ChunkPacket) : Prop :=
  metadataSize + nameLength name + 1 ≤ sectorSize ∧
    ∀ p ∈ packets, Written name p.id p.length →
      p.id * chunkSize + p.length ≤ chunkNum * chunkSize ∧
        metadataSize + nameLength name + 1 + p.id * chunkSize + p.length ≤ sectorSize

section Area
variable {name : List UInt8} {chunkNum : Nat} (hname : nameLength name ≤ 0x30000)
include hname

theorem nameCalls_inArea_iff :
    (∀ c ∈ nameCalls name (startMetadata name), InArea name chunkNum c) ↔
      metadataSize + nameLength name + 1 ≤ sectorSize := by
  rw [nameCalls_eq (Nat.le_trans hname (by decide))]
  constructor
  · intro h
    have hlast := h _ (mem_burst.mpr ⟨nameLength name, Nat.lt_succ_self _, rfl⟩)
    have := hlast.1.2
    unfold namePtr at this
    omega
  · intro h c hc
    obtain ⟨i, hi, rfl⟩ := mem_burst.mp hc
    refine ⟨?_, nofun⟩
    unfold nameLength at h
    unfold namePtr
    omega

theorem codeCalls_inArea_iff (chunkNum : Nat) (c : Chunk) :
    (∀ x ∈ codeCalls c.data c.offset c.length (startMetadata name), InArea name chunkNum x) ↔
      (Written name c.id c.length → c.offset + c.length ≤ chunkNum * chunkSize ∧
        metadataSize + nameLength name + 1 + c.offset + c.length ≤ sectorSize) := by
  have hptr : (startMetadata name).codePtr = codeStart name := by
    rw [startMetadata_eq (Nat.le_trans hname (by decide))]
    rfl
  have hoffset := c.offset_lt
  have haddress : codeStart name + c.offset < 4294967296 := by
    unfold codeStart namePtr sectorAddr metadataSize
    omega
  rw [codeCalls_eq c.length_lt (by rw [hptr]; exact haddress), hptr]
  constructor
  · intro h hwritten
    have hend : codeStart name + c.offset + c.length < 4294967296 := hwritten.2
    rw [if_pos hend] at h
    have hpos := hwritten.1
    have hlast := h _ (mem_burst.mpr ⟨c.length - 1, by omega, rfl⟩)
    obtain ⟨⟨_, hsector⟩, harea⟩ := hlast
    obtain ⟨_, _, _, hroom⟩ := harea rfl
    unfold codeStart namePtr at hsector
    omega
  · intro h x hx
    obtain ⟨i, hi, rfl⟩ := mem_burst.mp hx
    split at hi
    · next hend =>
      obtain ⟨hroom, hsector⟩ := h ⟨by omega, hend⟩
      refine ⟨?_, fun _ => ?_⟩
      · unfold codeStart namePtr
        omega
      · refine ⟨?_, ?_, by omega, by omega⟩
        · unfold codeStart namePtr
          omega
        · unfold codeStart
          omega
    · omega

omit hname in
theorem metadataCalls_inArea (m : Metadata) :
    ∀ c ∈ metadataCalls m ++ [.lock], InArea name chunkNum c := by
  intro c hc
  rcases List.mem_append.mp hc with hc | hc
  · obtain ⟨i, hi, rfl⟩ := mem_burst.mp hc
    refine ⟨?_, nofun⟩
    unfold metadataSize at hi
    unfold sectorSize
    omega
  · rw [List.mem_singleton.mp hc]
    trivial

theorem transferPlan_inArea_iff {packets : List ChunkPacket} {chunks : List Chunk}
    (hasks : List.Forall₂ Asks packets chunks) :
    (∀ c ∈ transferPlan name chunks, InArea name chunkNum c) ↔ Fits name chunkNum packets := by
  have hcode : (∀ c ∈ codePlan (startMetadata name) chunks, InArea name chunkNum c) ↔
      ∀ p ∈ packets, Written name p.id p.length →
        p.id * chunkSize + p.length ≤ chunkNum * chunkSize ∧
          metadataSize + nameLength name + 1 + p.id * chunkSize + p.length ≤ sectorSize := by
    induction hasks with
    | nil => simp [codePlan]
    | @cons p c packets chunks hpc _ ih =>
      have hfirst := codeCalls_inArea_iff hname chunkNum c
      unfold Chunk.offset at hfirst
      rw [hpc.id, hpc.length] at hfirst
      unfold codePlan at ih ⊢
      rw [List.flatMap_cons, List.forall_mem_append, List.forall_mem_cons, ih]
      exact and_congr_left fun _ => by rw [← hfirst, ← hpc.id, ← hpc.length]; rfl
  unfold transferPlan startPlan Fits
  rw [List.forall_mem_append, List.forall_mem_append, List.forall_mem_append,
    nameCalls_inArea_iff hname, hcode]
  constructor
  · intro h
    exact ⟨h.1.2, h.2.1⟩
  · intro h
    refine ⟨⟨?_, h.1⟩, h.2, metadataCalls_inArea _⟩
    intro c hc
    rcases List.mem_cons.mp hc with rfl | hc
    · trivial
    · rw [List.mem_singleton.mp hc]
      trivial

end Area

theorem nameLength_nameMemory_le {heap name : List UInt8} (hram : heap.length ≤ 0x30000)
    (hname : 4 + name.length ≤ bufferSize) : nameLength (nameMemory heap name) ≤ 0x30000 := by
  have htext := (List.takeWhile_prefix (l := nameMemory heap name) (· ≠ 0)).length_le
  have hmemory : (nameMemory heap name).length ≤ 0x30000 := by
    unfold nameMemory
    rw [List.length_append, List.length_drop]
    unfold bufferSize chunkSize at hname
    omega
  exact Nat.le_trans htext hmemory

/-- Whatever fails and whatever the flash held: all that is programmed lies where it may exactly
when the name fits into the sector and every chunk that is written lies in the room for the
announced number and in the sector. -/
theorem flash_writes_in_area_iff {uri heap : List UInt8} (before : Nat → UInt8) (m : Metadata)
    {chunkNum : Nat} (nameLen : Nat) {name : List UInt8} (packets : List ChunkPacket)
    (huri : PackageUri.Accepted (PackageUri.sscanf .stm32 uri))
    (hip : (PackageUri.sscanf .stm32 uri).ip.length < 20) (hram : heap.length ≤ 0x30000)
    (hnum : chunkNum < 65536) (hcheck : chunkNum * chunkSize ≤ platform.maxMemory)
    (hname : 4 + name.length ≤ bufferSize) :
    (∀ outcome hal, ∀ c ∈ (firmwareDownloaderStart .stm32 platform outcome uri heap
        ⟨before, hal, [], m⟩ (packetsOf chunkNum nameLen name packets)).store.calls,
      InArea (nameMemory heap name) chunkNum c.1) ↔
      Fits (nameMemory heap name) chunkNum packets := by
  have hlength := nameLength_nameMemory_le hram hname
  constructor
  · intro h
    have hall := h (fun _ => true) (fun _ => true)
    unfold firmwareDownloaderStart at hall
    rw [start_waits (fun _ => rfl) huri hip] at hall
    obtain ⟨chunks, hasks, hcalls⟩ := run_whole (fun _ => true) heap
      (d := ⟨.description, overwrite request heap, ⟨before, fun _ => true, [], m⟩,
        connected .stm32 (PackageUri.sscanf .stm32 uri)⟩) rfl rfl rfl hnum hcheck nameLen hname
      (fun _ => rfl) (fun _ => rfl) packets
    rw [hcalls] at hall
    apply (transferPlan_inArea_iff hlength hasks).mp
    intro c hc
    exact hall (c, true) (List.mem_map_of_mem hc)
  · intro hfits outcome hal c hc
    unfold firmwareDownloaderStart at hc
    rcases start_cases .stm32 platform outcome uri heap ⟨before, hal, [], m⟩
      with ⟨hphase, hbuff, hstore⟩ | ⟨hover, hstore⟩
    · obtain ⟨chunks, hasks, htried⟩ := run_tried outcome hphase hbuff (by rw [hstore]) hnum hcheck
        nameLen hname packets
      apply (transferPlan_inArea_iff hlength hasks).mpr hfits
      exact htried.order.subset (List.mem_map_of_mem hc)
    · -- the run ends before storage is used
      rw [receiveAll_over hover] at hc
      rcases hstore with hstore | hstore
      · rw [hstore] at hc
        cases hc
      · rw [hstore] at hc
        cases hc

/-- The last chunk id there is, with one byte. -/
def farChunk : ChunkPacket := ⟨65535, 1, [49], by decide, by decide, by decide⟩

theorem far_chunk_in_area_iff :
    (∀ outcome hal, ∀ c ∈ (firmwareDownloaderStart .stm32 platform outcome firmUri freshHeap
        ⟨fun _ => 0xFF, hal, [], startMetadata []⟩ (packetsOf 1 2 [97, 0] [farChunk])).store.calls,
      InArea (nameMemory freshHeap [97, 0]) 1 c.1) ↔
      Fits (nameMemory freshHeap [97, 0]) 1 [farChunk] :=
  flash_writes_in_area_iff (fun _ => 0xFF) (startMetadata []) 2 [farChunk] (by decide) (by decide)
    (by rw [freshHeap, List.length_replicate]; decide) (by decide) (by decide) (by decide)

/-- One chunk is announced, and a byte is programmed far behind the sector. -/
theorem far_chunk_leaves_sector :
    (HalCall.program .code 169737750 49, true) ∈
      (firmwareDownloaderStart .stm32 platform (fun _ => true) firmUri freshHeap
        ⟨fun _ => 0xFF, fun _ => true, [], startMetadata []⟩
        (packetsOf 1 2 [97, 0] [farChunk])).store.calls ∧
      ¬ 169737750 < sectorAddr + sectorSize := by
  decide +kernel

end JsEmbeddedPlatform.FlashBounds
