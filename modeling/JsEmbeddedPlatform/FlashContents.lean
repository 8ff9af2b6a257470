import JsEmbeddedPlatform.FlashStore

/-!
# What is found in flash

A transfer whose chunks come one behind the other and whose calls all succeed leaves the
record, the name and the code behind each other.
-/

set_option autoImplicit false

namespace JsEmbeddedPlatform.FlashContents

open Downloader (firmwareSucc)
open FlashStore
open NorFlash (replay bytesAt programs)

/-- A name and the code so far are programmed, the record is not. -/
structure Written (memory : Nat → UInt8) (name code : List UInt8) (s : Store) : Prop where
  memory : s.before = memory
  hal : ∀ n, s.hal n = true
  operations : s.operations =
    .erase sectorAddr sectorSize :: programs namePtr (name ++ 0 :: code)
  metadata : s.writeMetadata =
    ⟨firmwareBinaryPreamble, name.length, code.length, namePtr, namePtr + name.length + 1⟩

/-- What is read through the pointers of the record. -/
structure Delivered (memory : Nat → UInt8) (name code : List UInt8) : Prop where
  nameRead : ∃ p, firmwarePlatformGetName memory = some p ∧
    bytesAt memory p (name.length + 1) = name ++ [0]
  codeRead : ∃ p, firmwarePlatformGetCode memory = some p ∧ bytesAt memory p code.length = code
  codeLen : word memory (sectorAddr + 8) = code.length

section Transfer
variable {memory : Nat → UInt8} {name code : List UInt8} {s : Store}

theorem map_getD_range (bytes : List UInt8) {n : Nat} (h : n ≤ bytes.length) :
    (List.range n).map (fun i => bytes.getD i 0) = bytes.take n := by
  apply List.ext_getElem
  · rw [List.length_map, List.length_range, List.length_take]
    omega
  · intro i hi htake
    rw [List.length_map, List.length_range] at hi
    have hbytes : i < bytes.length := by omega
    simp [List.getD_eq_getElem?_getD, List.getElem?_eq_getElem hbytes]

/-- The index of one byte is enough for a name of at most 255. -/
theorem wrapped_name (hlength : name.length < 256) (rest : List UInt8) :
    (List.range (name.length + 1)).map (fun i => (name ++ 0 :: rest).getD (i % 256) 0) =
      name ++ [0] := by
  have hindex : (List.range (name.length + 1)).map
      (fun i => (name ++ 0 :: rest).getD (i % 256) 0) =
      (List.range (name.length + 1)).map (fun i => (name ++ 0 :: rest).getD i 0) := by
    apply List.map_congr_left
    intro i hi
    have := List.mem_range.mp hi
    rw [Nat.mod_eq_of_lt (by omega)]
  rw [hindex, map_getD_range _ (by simp), List.take_length_add_append]
  rfl

theorem nameCalls_operations (hname : 0 ∉ name) (hlength : name.length < 256)
    (rest : List UInt8) :
    (nameCalls (name ++ 0 :: rest) (startMetadata (name ++ 0 :: rest))).filterMap
      HalCall.operation = programs namePtr (name ++ [0]) := by
  have htext := CString.text_append_nul hname rest
  rw [nameCalls_eq (by rw [htext]; omega), htext, burst_operations, wrapped_name hlength]

theorem operations_of_no_calls (h : s.calls = []) : s.operations = [] := by
  unfold Store.operations
  rw [h]
  rfl

theorem writeStart_written (hhal : ∀ n, s.hal n = true) (hcalls : s.calls = [])
    (hname : 0 ∉ name) (hlength : name.length < 256) (rest : List UInt8) :
    ∃ t, firmwarePlatformWriteStart (name ++ 0 :: rest) s = (firmwareSucc, t) ∧
      Written s.before name [] t := by
  refine ⟨_, writeStart_all hhal _, rfl, hhal, ?_, ?_⟩
  · have hbefore := operations_of_no_calls hcalls
    refine (add_operations s _).trans ?_
    unfold startPlan
    rw [hbefore, succeeded_effects, List.filterMap_append, nameCalls_operations hname hlength]
    rfl
  · have htext := CString.text_append_nul hname rest
    simp only
    rw [startMetadata_eq (by rw [htext]; omega), htext]
    rfl

/-- A chunk that begins where the code ends. -/
theorem writeCodeChunk_written (h : Written memory name code s) {data : List UInt8} {n : Nat}
    (hdata : n ≤ data.length)
    (hend : namePtr + name.length + 1 + code.length + n < 4294967296) :
    ∃ t, firmwarePlatformWriteCodeChunk data code.length n s = (firmwareSucc, t) ∧
      Written memory name (code ++ data.take n) t := by
  have hlength : (code ++ data.take n).length = code.length + n := by
    rw [List.length_append, List.length_take]
    omega
  refine ⟨_, writeCodeChunk_all h.hal _ _ _, h.memory, h.hal, ?_, ?_⟩
  · have hbehind : namePtr + name.length + 1 + code.length =
        namePtr + (name ++ 0 :: code).length := by
      rw [List.length_append, List.length_cons]
      omega
    refine (add_operations s _).trans ?_
    rw [succeeded_effects, h.operations, h.metadata,
      codeCalls_eq (by omega) (by simp only; omega), burst_operations]
    simp only
    rw [if_pos hend, map_getD_range data hdata, List.cons_append, hbehind,
      ← NorFlash.programs_append, List.append_assoc, List.cons_append]
  · simp only
    rw [growCodeLen_eq, h.metadata, hlength]
    simp only
    have hgrown : u32 (code.length + n) = code.length + n := Nat.mod_eq_of_lt (by omega)
    rw [hgrown, Nat.max_eq_right (by omega)]

/-- The record, and the bytes behind it. -/
theorem finished_contents (before : Nat → UInt8) (body : List UInt8) {record : List UInt8}
    (hrecord : record.length = metadataSize) (hfits : metadataSize + body.length ≤ sectorSize) :
    let flash := replay before (.erase sectorAddr sectorSize ::
      (programs namePtr body ++ programs sectorAddr record))
    bytesAt flash sectorAddr metadataSize = record ∧ bytesAt flash namePtr body.length = body := by
  intro flash
  have herased : ∀ i < sectorSize,
      NorFlash.apply before (.erase sectorAddr sectorSize) (sectorAddr + i) = 0xFF :=
    fun i hi => NorFlash.apply_erase (by omega)
  have hflash : flash = replay (replay (NorFlash.apply before (.erase sectorAddr sectorSize))
      (programs namePtr body)) (programs sectorAddr record) := by
    rw [← NorFlash.replay_append, ← NorFlash.replay_cons]
  have hbehind : namePtr = sectorAddr + record.length := by rw [hrecord, namePtr]
  constructor
  · rw [hflash, ← hrecord]
    apply NorFlash.bytesAt_replay_programs
    intro i hi
    rw [NorFlash.replay_programs_elsewhere (Or.inl (by omega))]
    exact herased i (by omega)
  · have hbody : bytesAt (replay (NorFlash.apply before (.erase sectorAddr sectorSize))
        (programs namePtr body)) namePtr body.length = body := by
      apply NorFlash.bytesAt_replay_programs
      intro i hi
      rw [hbehind, Nat.add_assoc]
      exact herased _ (by omega)
    conv_rhs => rw [← hbody]
    rw [hflash]
    apply NorFlash.bytesAt_congr
    intro i hi
    exact NorFlash.replay_programs_elsewhere (Or.inr (by omega))

/-- What the record says of them. -/
theorem contents_delivered {flash : Nat → UInt8} {m : Metadata}
    (hmetadata : m =
      ⟨firmwareBinaryPreamble, name.length, code.length, namePtr, namePtr + name.length + 1⟩)
    (hfits : metadataSize + name.length + 1 + code.length ≤ sectorSize)
    (hrecord : bytesAt flash sectorAddr metadataSize = m.bytes)
    (hcontents : bytesAt flash namePtr (name.length + 1 + code.length) = name ++ 0 :: code) :
    Delivered flash name code := by
  obtain ⟨hpreambule, hcodeLen, hnamePtr, hcodePtr⟩ := metadata_fields m
  subst hmetadata
  simp only at hpreambule hcodeLen hnamePtr hcodePtr
  have hsector : namePtr + name.length + 1 + code.length < 4294967296 := by
    unfold sectorSize at hfits
    unfold namePtr sectorAddr metadataSize
    omega
  have hmark : hasFirmware flash = true := by
    unfold hasFirmware
    rw [← Nat.add_zero sectorAddr,
      word_of_record hrecord (by decide) hpreambule (by unfold firmwareBinaryPreamble; omega)]
    simp
  refine ⟨⟨namePtr, ?_, ?_⟩, ⟨namePtr + name.length + 1, ?_, ?_⟩, ?_⟩
  · unfold firmwarePlatformGetName
    rw [if_pos hmark, word_of_record hrecord (by decide) hnamePtr (by omega)]
  · have hpart : 0 + (name.length + 1) ≤ name.length + 1 + code.length := by omega
    rw [← Nat.add_zero namePtr, NorFlash.bytesAt_part hpart, hcontents, List.drop_zero,
      List.take_length_add_append]
    rfl
  · unfold firmwarePlatformGetCode
    rw [if_pos hmark, word_of_record hrecord (by decide) hcodePtr (by omega)]
  · rw [Nat.add_assoc, NorFlash.bytesAt_part (Nat.le_refl _), hcontents,
      List.take_of_length_le (by simp), List.append_cons]
    exact List.drop_left' (by simp)
  · exact word_of_record hrecord (by decide) hcodeLen (by omega)

/-- The record makes all of it visible. -/
theorem writeFinish_delivers (h : Written memory name code s)
    (hfits : metadataSize + name.length + 1 + code.length ≤ sectorSize) :
    ∃ t, firmwarePlatformWriteFinish s = (firmwareSucc, t) ∧ Delivered t.flash name code := by
  refine ⟨_, writeFinish_all h.hal, ?_⟩
  have hbody : (name ++ 0 :: code).length = name.length + 1 + code.length := by
    rw [List.length_append, List.length_cons]
    omega
  obtain ⟨hrecord, hcontents⟩ := finished_contents s.before (name ++ 0 :: code)
    (length_metadata_bytes s.writeMetadata) (by omega)
  have hoperations : (s.add (succeeded (metadataCalls s.writeMetadata ++ [.lock]))).operations =
      .erase sectorAddr sectorSize ::
        (programs namePtr (name ++ 0 :: code) ++ programs sectorAddr s.writeMetadata.bytes) := by
    rw [add_operations, succeeded_effects, h.operations, List.filterMap_append,
      metadataCalls_operations]
    simp [HalCall.operation]
  rw [hbody] at hcontents
  unfold Store.flash
  rw [hoperations]
  exact contents_delivered h.metadata hfits hrecord hcontents

end Transfer

end JsEmbeddedPlatform.FlashContents
