import JsEmbeddedPlatform.FlashContents
import JsEmbeddedPlatform.Shared.Ranges

/-!
# Chunks in any order

The functions of `platform/firmware.h` called by hand: a start, chunks whose ranges do not
meet, in whatever order they come, and a finish. On stm32 each chunk is found at its
offset afterwards.
-/

set_option autoImplicit false

namespace JsEmbeddedPlatform.FlashTransfers

open Downloader (FirmwarePlatform firmwareSucc)
open FlashStore
open FlashContents (map_getD_range wrapped_name operations_of_no_calls)
open NorFlash (bytesAt programs addresses)
open Ranges (Range Apart)

/-! ## The calls -/

/-- The arguments of `firmware_platform_write_code_chunk`, whose length is the one of the data. -/
structure CodeChunk where
  offset : Nat
  data : List UInt8
deriving DecidableEq, Repr

def CodeChunk.range (c : CodeChunk) : Range := ⟨c.offset, c.data.length⟩

def CodeChunk.last (c : CodeChunk) : Nat := c.offset + c.data.length

theorem covers_range {c : CodeChunk} {i : Nat} : c.range.Covers i ↔ c.offset ≤ i ∧ i < c.last :=
  Iff.rfl

def ranges (chunks : List CodeChunk) : List Range := chunks.map CodeChunk.range

section Calls
variable {σ : Type} (P : FirmwarePlatform σ)

def writeChunks : List CodeChunk → σ → Option σ
  | [], s => some s
  | c :: rest, s =>
    let (res, s) := P.writeCodeChunk c.data c.offset c.data.length s
    if res = firmwareSucc then writeChunks rest s else none

/-- The state after a finish, when every call has returned `FIRMWARE_SUCC`. -/
def storeFirmware (name : List UInt8) (chunks : List CodeChunk) (s : σ) : Option σ :=
  let (started, s) := P.writeStart name s
  if started = firmwareSucc then do
    let s ← writeChunks P chunks s
    let (finished, s) := P.writeFinish s
    if finished = firmwareSucc then some s else none
  else none

end Calls

/-! ## What is programmed -/

/-- The code begins behind `text`, the bytes that are programmed for the name and its NUL. -/
def codeStart (text : List UInt8) : Nat := namePtr + text.length

def chunkOperations (text : List UInt8) (c : CodeChunk) : List NorFlash.Operation :=
  programs (codeStart text + c.offset) c.data

/-- The largest end of a chunk. -/
def codeLength (chunks : List CodeChunk) : Nat := chunks.foldl (fun n c => max n c.last) 0

/-- The name and some chunks are programmed, the record is not. -/
structure Programmed (memory : Nat → UInt8) (text : List UInt8) (chunks : List CodeChunk)
    (s : Store) : Prop where
  memory : s.before = memory
  hal : ∀ n, s.hal n = true
  operations : s.operations = .erase sectorAddr sectorSize ::
    (programs namePtr text ++ chunks.flatMap (chunkOperations text))
  metadata : s.writeMetadata = ⟨firmwareBinaryPreamble, text.length - 1, codeLength chunks, namePtr,
    codeStart text⟩

/-- The sector has room for the chunk behind the record and the name. -/
def Fits (text : List UInt8) (c : CodeChunk) : Prop :=
  metadataSize + text.length + c.last ≤ sectorSize

/-- An empty chunk needs no room; its offset is a 32-bit number. -/
def Admitted (text : List UInt8) (c : CodeChunk) : Prop :=
  c.last < 4294967296 ∧ (c.data ≠ [] → Fits text c)

/-- What is programmed for the name: the index has one byte. -/
def nameText (name rest : List UInt8) : List UInt8 :=
  (List.range (name.length + 1)).map fun i => (name ++ 0 :: rest).getD (i % 256) 0

section Programming
variable {memory : Nat → UInt8} {name text : List UInt8} {chunks : List CodeChunk} {s : Store}

theorem Fits.admitted {c : CodeChunk} (h : Fits text c) : Admitted text c := by
  refine ⟨?_, fun _ => h⟩
  unfold Fits sectorSize at h
  omega

@[simp] theorem length_nameText (name rest : List UInt8) :
    (nameText name rest).length = name.length + 1 := by
  rw [nameText, List.length_map, List.length_range]

/-- One byte is enough for a name of at most 255. -/
theorem nameText_eq (hlength : name.length < 256) (rest : List UInt8) :
    nameText name rest = name ++ [0] := wrapped_name hlength rest

theorem writeStart_programmed (hhal : ∀ n, s.hal n = true) (hcalls : s.calls = [])
    (hname : 0 ∉ name) (hlength : name.length ≤ 0x10000000) (rest : List UInt8) :
    ∃ t, firmwarePlatformWriteStart (name ++ 0 :: rest) s = (firmwareSucc, t) ∧
      Programmed s.before (nameText name rest) [] t := by
  have htext := CString.text_append_nul hname rest
  refine ⟨_, writeStart_all hhal _, rfl, hhal, ?_, ?_⟩
  · have hbefore := operations_of_no_calls hcalls
    refine (add_operations s _).trans ?_
    unfold startPlan
    rw [hbefore, succeeded_effects, List.filterMap_append,
      nameCalls_eq (by rw [htext]; exact hlength), htext, burst_operations, List.flatMap_nil,
      List.append_nil]
    rfl
  · simp only
    rw [startMetadata_eq (by rw [htext]; exact hlength), htext, length_nameText, codeStart,
      length_nameText]
    rfl

theorem codeLength_concat (chunks : List CodeChunk) (c : CodeChunk) :
    codeLength (chunks ++ [c]) = max (codeLength chunks) c.last := by
  unfold codeLength
  rw [List.foldl_concat]

/-- The calls for a chunk, none when it is empty. -/
theorem codeCalls_operations {m : Metadata} {c : CodeChunk} (hstart : m.codePtr = codeStart text)
    (hadmitted : Admitted text c) :
    (codeCalls c.data c.offset c.data.length m).filterMap HalCall.operation =
      chunkOperations text c := by
  obtain ⟨hlast, hfits⟩ := hadmitted
  by_cases hnil : c.data = []
  · have hwrapped : u32 (u32 (m.codePtr + c.offset) + 0) - u32 (m.codePtr + c.offset) = 0 := by
      unfold u32
      omega
    unfold codeCalls chunkOperations
    rw [hnil, burst_operations]
    simp only [List.length_nil, hwrapped]
    rfl
  · have hroom : codeStart text + c.offset + c.data.length < 4294967296 := by
      have := hfits hnil
      unfold Fits CodeChunk.last sectorSize metadataSize at this
      unfold codeStart namePtr sectorAddr metadataSize
      omega
    rw [codeCalls_eq (by unfold CodeChunk.last at hlast; omega) (by rw [hstart]; omega), hstart,
      burst_operations, if_pos hroom, map_getD_range c.data (Nat.le_refl _), List.take_length]
    rfl

theorem writeCodeChunk_programmed (h : Programmed memory text chunks s) {c : CodeChunk}
    (hadmitted : Admitted text c) :
    ∃ t, firmwarePlatformWriteCodeChunk c.data c.offset c.data.length s = (firmwareSucc, t) ∧
      Programmed memory text (chunks ++ [c]) t := by
  have hstart : s.writeMetadata.codePtr = codeStart text := by rw [h.metadata]
  refine ⟨_, writeCodeChunk_all h.hal _ _ _, h.memory, h.hal, ?_, ?_⟩
  · refine (add_operations s _).trans ?_
    rw [succeeded_effects, h.operations, codeCalls_operations hstart hadmitted,
      List.flatMap_append, List.flatMap_singleton, List.cons_append, List.append_assoc]
  · have hend : u32 (c.offset + c.data.length) = c.last := Nat.mod_eq_of_lt hadmitted.1
    simp only
    rw [growCodeLen_eq, h.metadata, codeLength_concat, hend]

theorem writeChunks_programmed (h : Programmed memory text chunks s) (rest : List CodeChunk)
    (hadmitted : ∀ c ∈ rest, Admitted text c) :
    ∃ t, writeChunks platform rest s = some t ∧ Programmed memory text (chunks ++ rest) t := by
  induction rest generalizing s chunks with
  | nil => exact ⟨s, rfl, by rwa [List.append_nil]⟩
  | cons c rest ih =>
    obtain ⟨u, hwrite, hu⟩ := writeCodeChunk_programmed h (hadmitted c List.mem_cons_self)
    obtain ⟨t, hrest, ht⟩ := ih hu fun d hd => hadmitted d (List.mem_cons_of_mem c hd)
    refine ⟨t, ?_, by rwa [List.append_cons]⟩
    rw [writeChunks, platform_writeCodeChunk, hwrite]
    exact hrest

end Programming

/-! ## Where it is programmed -/

/-- All bytes of a transfer: the name, the chunks and the record. -/
def transferOperations (text : List UInt8) (chunks : List CodeChunk) (m : Metadata) :
    List NorFlash.Operation :=
  programs namePtr text ++ chunks.flatMap (chunkOperations text) ++
    programs sectorAddr m.bytes

section Places
variable {text : List UInt8} {chunks : List CodeChunk}

theorem mem_chunkAddresses {c : CodeChunk} {a : Nat} :
    a ∈ addresses (chunkOperations text c) ↔ ∃ i, c.range.Covers i ∧ a = codeStart text + i := by
  unfold chunkOperations
  simp only [NorFlash.addresses_programs, List.mem_range'_1, covers_range, CodeChunk.last]
  constructor
  · intro ha
    exact ⟨a - codeStart text, by omega, by omega⟩
  · intro ⟨i, hi, ha⟩
    omega

theorem mem_codeAddresses {a : Nat} :
    a ∈ addresses (chunks.flatMap (chunkOperations text)) ↔
      ∃ c ∈ chunks, ∃ i, c.range.Covers i ∧ a = codeStart text + i := by
  rw [NorFlash.addresses_flatMap, List.mem_flatMap]
  simp only [mem_chunkAddresses]

theorem codeAddresses_distinct (hapart : Apart (ranges chunks)) :
    (addresses (chunks.flatMap (chunkOperations text))).Nodup := by
  rw [NorFlash.addresses_flatMap]
  apply List.nodup_flatMap.mpr
  refine ⟨?_, ?_⟩
  · intro c _
    unfold chunkOperations
    rw [NorFlash.addresses_programs]
    exact List.nodup_range'
  · apply (List.pairwise_map.mp hapart).imp
    intro c d hcd a hc hd
    obtain ⟨i, hi, rfl⟩ := mem_chunkAddresses.mp hc
    obtain ⟨k, hk, heq⟩ := mem_chunkAddresses.mp hd
    have hsame : i = k := by omega
    subst hsame
    exact hcd i hi hk

/-- No byte is programmed twice. -/
theorem transfer_distinct (hapart : Apart (ranges chunks)) (m : Metadata) :
    (addresses (transferOperations text chunks m)).Nodup := by
  have hbehind : namePtr = sectorAddr + metadataSize := rfl
  have hcode : codeStart text = namePtr + text.length := rfl
  unfold transferOperations
  rw [NorFlash.addresses_append, NorFlash.addresses_append, NorFlash.addresses_programs,
    NorFlash.addresses_programs, length_metadata_bytes, List.nodup_append, List.nodup_append]
  refine ⟨⟨List.nodup_range', codeAddresses_distinct hapart, ?_⟩, List.nodup_range', ?_⟩
  · intro a ha b hb
    obtain ⟨c, _, i, _, rfl⟩ := mem_codeAddresses.mp hb
    have := List.mem_range'_1.mp ha
    omega
  · intro a ha b hb
    have := List.mem_range'_1.mp hb
    rcases List.mem_append.mp ha with ha | ha
    · have := List.mem_range'_1.mp ha
      omega
    · obtain ⟨c, _, i, _, rfl⟩ := mem_codeAddresses.mp ha
      omega

theorem transfer_programs (m : Metadata) :
    ∀ op ∈ transferOperations text chunks m, ∃ a v, op = .program a v := by
  have single : ∀ (address : Nat) (values : List UInt8), ∀ op ∈ programs address values,
      ∃ a v, op = NorFlash.Operation.program a v := by
    intro address values op hop
    obtain ⟨a, v, rfl, _⟩ := NorFlash.mem_programs hop
    exact ⟨a, v, rfl⟩
  intro op hop
  rcases List.mem_append.mp hop with hop | hop
  · rcases List.mem_append.mp hop with hop | hop
    · exact single _ _ op hop
    · obtain ⟨c, _, hc⟩ := List.mem_flatMap.mp hop
      exact single _ _ op hc
  · exact single _ _ op hop

end Places

/-! ## What is found -/

/-- The record leads to the name and to the code, whose chunks are at their offsets with erased
bytes in between. -/
structure Readable (text : List UInt8) (chunks : List CodeChunk) (t : Store) (p q : Nat) : Prop where
  getName : firmwarePlatformGetName t.flash = some p
  getCode : firmwarePlatformGetCode t.flash = some q
  nameRead : bytesAt t.flash p text.length = text
  chunkRead : ∀ c ∈ chunks, bytesAt t.flash (q + c.offset) c.data.length = c.data
  gapRead : ∀ i, q + i < sectorAddr + sectorSize → (∀ c ∈ chunks, ¬ c.range.Covers i) →
    t.flash (q + i) = 0xFF
  codeLen : word t.flash (sectorAddr + 8) = codeLength chunks

/-- Besides, the three parts are apart, and no byte has been programmed twice. -/
structure Found (text : List UInt8) (chunks : List CodeChunk) (t : Store) (p q : Nat) : Prop extends
    Readable text chunks t p q where
  nameBehindRecord : sectorAddr + metadataSize ≤ p
  codeBehindName : p + text.length ≤ q
  codeInSector : q + codeLength chunks ≤ sectorAddr + sectorSize
  once : (addresses t.operations).Nodup

section Finding
variable {memory : Nat → UInt8} {text : List UInt8} {chunks : List CodeChunk} {s t : Store}

theorem codeLength_le {n : Nat} (h : ∀ c ∈ chunks, c.last ≤ n) : codeLength chunks ≤ n := by
  unfold codeLength
  apply List.foldlRecOn chunks _ (motive := fun m => m ≤ n)
  · exact Nat.zero_le n
  · intro m hm c hc
    exact Nat.max_le.mpr ⟨hm, h c hc⟩

/-- The flash after the finish. -/
theorem finish_flash (h : Programmed memory text chunks s) :
    ∃ t, firmwarePlatformWriteFinish s = (firmwareSucc, t) ∧
      t.operations = .erase sectorAddr sectorSize ::
        transferOperations text chunks s.writeMetadata ∧
      t.flash = NorFlash.replay (NorFlash.apply memory (.erase sectorAddr sectorSize))
        (transferOperations text chunks s.writeMetadata) := by
  have hoperations : (s.add (succeeded (metadataCalls s.writeMetadata ++ [.lock]))).operations =
      .erase sectorAddr sectorSize :: transferOperations text chunks s.writeMetadata := by
    rw [add_operations, succeeded_effects, h.operations, List.filterMap_append,
      metadataCalls_operations]
    simp [HalCall.operation, transferOperations]
  refine ⟨_, writeFinish_all h.hal, hoperations, ?_⟩
  have hbefore : (s.add (succeeded (metadataCalls s.writeMetadata ++ [.lock]))).before = memory :=
    h.memory
  unfold Store.flash
  rw [hoperations, hbefore, NorFlash.replay_cons]

/-- The pieces of a transfer in an erased sector are read back where they have been programmed. -/
theorem piece_read {erased : Nat → UInt8} {m : Metadata} {address : Nat} {values : List UInt8}
    (hapart : Apart (ranges chunks)) (herased : ∀ i < sectorSize, erased (sectorAddr + i) = 0xFF)
    (hlow : sectorAddr ≤ address) (hhigh : address + values.length ≤ sectorAddr + sectorSize)
    (hpiece : ∀ op ∈ programs address values, op ∈ transferOperations text chunks m) :
    bytesAt (NorFlash.replay erased (transferOperations text chunks m)) address values.length =
      values := by
  apply NorFlash.bytesAt_replay_distinct (transfer_programs m) (transfer_distinct hapart m) _ hpiece
  intro i hi
  have := herased (address + i - sectorAddr) (by omega)
  rwa [Nat.add_sub_cancel' (by omega)] at this

theorem readable_after_finish (h : Programmed memory text chunks s) (hapart : Apart (ranges chunks))
    (hroom : metadataSize + text.length ≤ sectorSize)
    (hadmitted : ∀ c ∈ chunks, Admitted text c) :
    ∃ t, firmwarePlatformWriteFinish s = (firmwareSucc, t) ∧
      Readable text chunks t namePtr (codeStart text) ∧ (addresses t.operations).Nodup := by
  obtain ⟨t, hfinish, hoperations, hflash⟩ := finish_flash h
  have honce : (addresses t.operations).Nodup := by
    rw [hoperations]
    exact transfer_distinct hapart _
  refine ⟨t, hfinish, ?_, honce⟩
  have hcodeStart : codeStart text = sectorAddr + metadataSize + text.length := rfl
  have hnamePtr : namePtr = sectorAddr + metadataSize := rfl
  have hsector : sectorAddr + sectorSize < 4294967296 := by
    unfold sectorAddr sectorSize
    omega
  have herased : ∀ i < sectorSize,
      NorFlash.apply memory (.erase sectorAddr sectorSize) (sectorAddr + i) = 0xFF :=
    fun i hi => NorFlash.apply_erase (by omega)
  have hrecord : bytesAt t.flash sectorAddr metadataSize = s.writeMetadata.bytes := by
    rw [hflash, ← length_metadata_bytes s.writeMetadata]
    apply piece_read hapart herased (Nat.le_refl _)
    · rw [length_metadata_bytes]
      omega
    · exact fun op hop => List.mem_append_right _ hop
  obtain ⟨hpreambule, hcodeLen, hname, hstart⟩ := metadata_fields s.writeMetadata
  rw [h.metadata] at hpreambule hcodeLen hname hstart hrecord
  simp only at hpreambule hcodeLen hname hstart
  have hmark : hasFirmware t.flash = true := by
    unfold hasFirmware
    rw [← Nat.add_zero sectorAddr,
      word_of_record hrecord (by decide) hpreambule (by unfold firmwareBinaryPreamble; omega)]
    simp
  constructor
  · unfold firmwarePlatformGetName
    rw [if_pos hmark, word_of_record hrecord (by decide) hname (by omega)]
  · unfold firmwarePlatformGetCode
    rw [if_pos hmark, word_of_record hrecord (by decide) hstart (by omega)]
  · rw [hflash]
    apply piece_read hapart herased (by omega) (by omega)
    intro op hop
    exact List.mem_append_left _ (List.mem_append_left _ hop)
  · intro c hc
    by_cases hnil : c.data = []
    · rw [hnil]
      rfl
    · have := (hadmitted c hc).2 hnil
      unfold Fits CodeChunk.last at this
      rw [hflash]
      apply piece_read hapart herased (by omega) (by omega)
      intro op hop
      apply List.mem_append_left
      apply List.mem_append_right
      exact List.mem_flatMap.mpr ⟨c, hc, hop⟩
  · intro i hi hgap
    rw [hflash, NorFlash.replay_unprogrammed (transfer_programs _)]
    · have := herased (codeStart text + i - sectorAddr) (by omega)
      rwa [Nat.add_sub_cancel' (by omega)] at this
    · unfold transferOperations
      rw [NorFlash.addresses_append, NorFlash.addresses_append, NorFlash.addresses_programs,
        NorFlash.addresses_programs, length_metadata_bytes]
      intro hmem
      rcases List.mem_append.mp hmem with hmem | hmem
      · rcases List.mem_append.mp hmem with hmem | hmem
        · have := List.mem_range'_1.mp hmem
          omega
        · obtain ⟨c, hc, k, hk, heq⟩ := mem_codeAddresses.mp hmem
          have hsame : i = k := by omega
          exact hgap c hc (hsame ▸ hk)
      · have := List.mem_range'_1.mp hmem
        omega
  · have hlast : codeLength chunks ≤ 4294967295 := by
      apply codeLength_le
      intro c hc
      have := (hadmitted c hc).1
      omega
    exact word_of_record hrecord (by decide) hcodeLen (by omega)

/-- A start, chunks and a finish whose calls of the HAL all succeed. -/
theorem storeFirmware_readable (name rest : List UInt8) (chunks : List CodeChunk) (s : Store)
    (hhal : ∀ n, s.hal n = true) (hcalls : s.calls = []) (hname : 0 ∉ name)
    (hroom : metadataSize + name.length + 1 ≤ sectorSize) (hapart : Apart (ranges chunks))
    (hadmitted : ∀ c ∈ chunks, Admitted (nameText name rest) c) :
    ∃ t, storeFirmware platform (name ++ 0 :: rest) chunks s = some t ∧
      Readable (nameText name rest) chunks t namePtr (codeStart (nameText name rest)) ∧
      (addresses t.operations).Nodup := by
  have hlength : name.length ≤ 0x10000000 := by
    unfold sectorSize at hroom
    omega
  obtain ⟨started, hstart, hbegun⟩ := writeStart_programmed hhal hcalls hname hlength rest
  obtain ⟨written, hwritten, hprogrammed⟩ := writeChunks_programmed hbegun chunks hadmitted
  rw [List.nil_append] at hprogrammed
  obtain ⟨t, hfinish, hreadable, honce⟩ :=
    readable_after_finish hprogrammed hapart (by rw [length_nameText]; omega) hadmitted
  refine ⟨t, ?_, hreadable, honce⟩
  rw [storeFirmware, platform_writeStart, hstart]
  simp only [if_true, hwritten, Option.bind_eq_bind, Option.bind_some, platform_writeFinish,
    hfinish]

end Finding

/-- Chunks that do not meet, in whatever order, with every call of the HAL succeeding. -/
theorem flash_store_is_faithful (name rest : List UInt8) (chunks : List CodeChunk) (s : Store)
    (hhal : ∀ n, s.hal n = true) (hcalls : s.calls = []) (hname : 0 ∉ name)
    (hlength : name.length ≤ 254) (hapart : Apart (ranges chunks))
    (hfits : ∀ c ∈ chunks, 21 + name.length + c.offset + c.data.length ≤ sectorSize) :
    ∃ t p q, storeFirmware platform (name ++ 0 :: rest) chunks s = some t ∧
      Found (name ++ [0]) chunks t p q := by
  have htext : nameText name rest = name ++ [0] := nameText_eq (by omega) rest
  have hsize : (name ++ [0]).length = name.length + 1 := by
    rw [List.length_append, List.length_singleton]
  have hmetadata : metadataSize = 20 := rfl
  have hsector : sectorSize = 131072 := rfl
  have hroomy : ∀ c ∈ chunks, Fits (name ++ [0]) c := by
    intro c hc
    have := hfits c hc
    unfold Fits CodeChunk.last
    omega
  obtain ⟨t, hstored, hreadable, honce⟩ := storeFirmware_readable name rest chunks s hhal hcalls
    hname (by omega) hapart fun c hc => (htext ▸ hroomy c hc).admitted
  rw [htext] at hreadable
  have hcodeStart : codeStart (name ++ [0]) = namePtr + (name ++ [0]).length := rfl
  have hnamePtr : namePtr = sectorAddr + metadataSize := rfl
  have hcode : codeLength chunks ≤ sectorSize - (metadataSize + (name ++ [0]).length) := by
    apply codeLength_le
    intro c hc
    have := hroomy c hc
    unfold Fits at this
    omega
  exact ⟨t, namePtr, codeStart (name ++ [0]), hstored, hreadable, by omega, by omega, by omega,
    honce⟩

/-- The second chunk comes first, with a gap between the two. -/
theorem two_chunks_found :
    ∃ t p q, storeFirmware platform (CString.ascii "a" ++ 0 :: [])
        [⟨3, [2, 3]⟩, ⟨0, [1]⟩] ⟨fun _ => 0, fun _ => true, [], startMetadata []⟩ = some t ∧
      Found (CString.ascii "a" ++ [0]) [⟨3, [2, 3]⟩, ⟨0, [1]⟩] t p q := by
  apply flash_store_is_faithful
  · exact fun _ => rfl
  · rfl
  · decide
  · decide
  · refine List.pairwise_cons.mpr ⟨?_, List.pairwise_singleton _ _⟩
    intro d hd i hi hcovers
    rw [List.mem_singleton.mp hd] at hcovers
    simp only [covers_range, CodeChunk.last, List.length_cons, List.length_nil] at hi hcovers
    omega
  · decide

end JsEmbeddedPlatform.FlashTransfers
