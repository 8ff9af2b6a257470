import JsEmbeddedPlatform.Downloader
import JsEmbeddedPlatform.Shared.NorFlash

/-!
# Firmware in flash

`platform/firmware.c` of stm32. Sector 23 is given to the firmware: a record of 20 bytes,
the name with its NUL, the code. Each function makes calls of the HAL one after the
other and gives up at the first that fails; the flash is what the calls that succeeded
have made of it.
-/

set_option autoImplicit false

namespace JsEmbeddedPlatform.FlashStore

open Downloader (FirmwarePlatform firmwareSucc firmwareEraseErr firmwareWriteErr)

def sectorAddr : Nat := 0x081E0000
def sectorSize : Nat := 128 * 1024
def firmwareBinaryPreamble : Nat := 0xAAAAAAAA

def u32 (n : Nat) : Nat := n % 4294967296

/-- `firmware_metadata_t`, whose fields have four bytes each. -/
structure Metadata where
  preambule : Nat
  nameLen : Nat
  codeLen : Nat
  namePtr : Nat
  codePtr : Nat
deriving DecidableEq, Repr

def Metadata.bytes (m : Metadata) : List UInt8 :=
  LittleEndian.encode 4 m.preambule ++ LittleEndian.encode 4 m.nameLen ++
    LittleEndian.encode 4 m.codeLen ++ LittleEndian.encode 4 m.namePtr ++
    LittleEndian.encode 4 m.codePtr

def metadataSize : Nat := 20

/-- The loop that calls `HAL_FLASH_Program`. -/
inductive Part where
  | name
  | code
  | metadata
deriving DecidableEq, Repr

inductive HalCall where
  | unlock
  | erase
  | program (part : Part) (address : Nat) (value : UInt8)
  | lock
deriving DecidableEq, Repr

def HalCall.operation : HalCall → Option NorFlash.Operation
  | .erase => some (.erase sectorAddr sectorSize)
  | .program _ address value => some (.program address value)
  | .unlock | .lock => none

/-- What a call that may have failed does to the flash. -/
def effect (c : HalCall × Bool) : Option NorFlash.Operation :=
  if c.2 then c.1.operation else none

/-- `before` is the memory when the log begins, `hal n` says whether the call that is logged as
number `n` succeeds. -/
structure Store where
  before : Nat → UInt8
  hal : Nat → Bool
  calls : List (HalCall × Bool)
  writeMetadata : Metadata

def Store.operations (s : Store) : List NorFlash.Operation := s.calls.filterMap effect

def Store.flash (s : Store) : Nat → UInt8 := NorFlash.replay s.before s.operations

def Store.add (s : Store) (made : List (HalCall × Bool)) : Store :=
  { s with calls := s.calls ++ made }

def halCall (c : HalCall) (s : Store) : Bool × Store :=
  (s.hal s.calls.length, s.add [(c, s.hal s.calls.length)])

def attempt : List HalCall → Store → Bool × Store
  | [], s => (true, s)
  | c :: rest, s => if (halCall c s).1 then attempt rest (halCall c s).2 else halCall c s

/-- Bytes at consecutive addresses. -/
def burst (part : Part) (address n : Nat) (byte : Nat → UInt8) : List HalCall :=
  (List.range n).map fun i => .program part (address + i) (byte i)

def namePtr : Nat := sectorAddr + metadataSize

def startMetadata (name : List UInt8) : Metadata :=
  let nameLen := u32 (CString.text name).length
  ⟨firmwareBinaryPreamble, nameLen, 0, namePtr, u32 (namePtr + nameLen + 1)⟩

/-- `while (address <= address_end)`, with an index of one byte. -/
def nameCalls (name : List UInt8) (m : Metadata) : List HalCall :=
  let address := m.namePtr
  let addressEnd := u32 (m.namePtr + m.nameLen)
  burst .name address (addressEnd + 1 - address) fun i => name.getD (i % 256) 0

/-- A loop over calls whose failure is `FIRMWARE_WRITE_ERR`. -/
def writeAll (calls : List HalCall) (s : Store) : UInt8 × Store :=
  let (written, s) := attempt calls s
  (if written then firmwareSucc else firmwareWriteErr, s)

def firmwarePlatformWriteStart (name : List UInt8) (s : Store) : UInt8 × Store :=
  let (erased, s) := attempt [.unlock, .erase] s
  if erased then
    writeAll (nameCalls name (startMetadata name)) { s with writeMetadata := startMetadata name }
  else (firmwareEraseErr, s)

def growCodeLen (offset length : Nat) (m : Metadata) : Metadata :=
  let currCodeLen := u32 (offset + length)
  if m.codeLen < currCodeLen then { m with codeLen := currCodeLen } else m

/-- `while (address + byte_ndx < address_end)`. -/
def codeCalls (data : List UInt8) (offset length : Nat) (m : Metadata) : List HalCall :=
  let address := u32 (m.codePtr + offset)
  let addressEnd := u32 (address + length)
  burst .code address (addressEnd - address) fun i => data.getD i 0

def firmwarePlatformWriteCodeChunk (data : List UInt8) (offset length : Nat) (s : Store) :
    UInt8 × Store :=
  let m := growCodeLen offset length s.writeMetadata
  writeAll (codeCalls data offset length m) { s with writeMetadata := m }

def metadataCalls (m : Metadata) : List HalCall :=
  burst .metadata sectorAddr metadataSize fun i => m.bytes.getD i 0

def firmwarePlatformWriteFinish (s : Store) : UInt8 × Store :=
  let (written, s) := attempt (metadataCalls s.writeMetadata) s
  if written then (firmwareSucc, (halCall .lock s).2) else (firmwareWriteErr, s)

def platform : FirmwarePlatform Store where
  writeStart := firmwarePlatformWriteStart
  writeCodeChunk := firmwarePlatformWriteCodeChunk
  writeFinish := firmwarePlatformWriteFinish
  writeCleanup s := s
  maxMemory := sectorSize - 64

def word (memory : Nat → UInt8) (address : Nat) : Nat :=
  LittleEndian.decode (NorFlash.bytesAt memory address 4)

/-- `flash_metadata.preambule == FIRMWARE_BINARY_PREAMBLE` -/
def hasFirmware (memory : Nat → UInt8) : Bool := word memory sectorAddr = firmwareBinaryPreamble

def firmwarePlatformGetName (memory : Nat → UInt8) : Option Nat :=
  if hasFirmware memory then some (word memory (sectorAddr + 12)) else none

def firmwarePlatformGetCode (memory : Nat → UInt8) : Option Nat :=
  if hasFirmware memory then some (word memory (sectorAddr + 16)) else none

section Platform

theorem platform_writeStart : platform.writeStart = firmwarePlatformWriteStart := rfl
theorem platform_writeCodeChunk : platform.writeCodeChunk = firmwarePlatformWriteCodeChunk := rfl
theorem platform_writeFinish : platform.writeFinish = firmwarePlatformWriteFinish := rfl
theorem platform_writeCleanup (s : Store) : platform.writeCleanup s = s := rfl

end Platform

/-! ## Calls one after the other -/

section Attempts
variable {plan : List HalCall} {s : Store}

@[simp] theorem add_calls (s : Store) (made : List (HalCall × Bool)) :
    (s.add made).calls = s.calls ++ made := rfl

@[simp] theorem add_hal (s : Store) (made : List (HalCall × Bool)) :
    (s.add made).hal = s.hal := rfl

@[simp] theorem add_nil (s : Store) : s.add [] = s := by
  simp [Store.add]

@[simp] theorem add_add (s : Store) (made more : List (HalCall × Bool)) :
    (s.add made).add more = s.add (made ++ more) := by
  simp [Store.add]

theorem add_operations (s : Store) (made : List (HalCall × Bool)) :
    (s.add made).operations = s.operations ++ made.filterMap effect :=
  List.filterMap_append ..

/-- Calls that all succeed. -/
def succeeded (plan : List HalCall) : List (HalCall × Bool) := plan.map fun c => (c, true)

theorem succeeded_effects (plan : List HalCall) :
    (succeeded plan).filterMap effect = plan.filterMap HalCall.operation := by
  unfold succeeded
  rw [List.filterMap_map]
  rfl

theorem succeeded_append (plan rest : List HalCall) :
    succeeded (plan ++ rest) = succeeded plan ++ succeeded rest :=
  List.map_append ..

theorem halCall_cases (c : HalCall) (s : Store) :
    halCall c s = (true, s.add [(c, true)]) ∨ halCall c s = (false, s.add [(c, false)]) := by
  unfold halCall
  cases s.hal s.calls.length with
  | true => exact Or.inl rfl
  | false => exact Or.inr rfl

theorem attempt_cases (plan : List HalCall) (s : Store) :
    attempt plan s = (true, s.add (succeeded plan)) ∨
      ∃ done c rest, plan = done ++ c :: rest ∧
        attempt plan s = (false, s.add (succeeded done ++ [(c, false)])) := by
  induction plan generalizing s with
  | nil => exact Or.inl (by simp [attempt, succeeded])
  | cons c rest ih =>
    unfold attempt
    rcases halCall_cases c s with hcall | hcall
    · rw [hcall, if_pos rfl]
      rcases ih (s.add [(c, true)]) with heq | ⟨done, c', rest', hplan, heq⟩
      · left
        rw [heq, add_add]
        rfl
      · refine Or.inr ⟨c :: done, c', rest', by rw [hplan, List.cons_append], ?_⟩
        rw [heq, add_add]
        rfl
    · rw [hcall]
      exact Or.inr ⟨[], c, rest, rfl, rfl⟩

theorem attempt_all (hall : ∀ n, s.hal n = true) (plan : List HalCall) :
    attempt plan s = (true, s.add (succeeded plan)) := by
  induction plan generalizing s with
  | nil => simp [attempt, succeeded]
  | cons c rest ih =>
    unfold attempt
    have hcall : halCall c s = (true, s.add [(c, true)]) := by simp [halCall, hall]
    rw [hcall, if_pos rfl, ih (s := s.add [(c, true)]) hall, add_add]
    rfl

/-- The calls of a plan in their order, of which only the last may have failed. -/
structure Tried (plan : List HalCall) (calls : List (HalCall × Bool)) : Prop where
  order : calls.map Prod.fst <+: plan
  succeeds : ∀ c ∈ calls.dropLast, c.2 = true

theorem succeeded_tried (plan more : List HalCall) : Tried (plan ++ more) (succeeded plan) := by
  refine ⟨⟨more, by simp [succeeded, Function.comp_def]⟩, ?_⟩
  intro c hc
  obtain ⟨_, _, rfl⟩ := List.mem_map.mp (List.dropLast_subset _ hc)
  rfl

theorem failed_tried (done rest : List HalCall) (c : HalCall) :
    Tried (done ++ c :: rest) (succeeded done ++ [(c, false)]) := by
  refine ⟨⟨rest, by simp [succeeded, Function.comp_def]⟩, ?_⟩
  intro c hc
  rw [List.dropLast_concat] at hc
  obtain ⟨_, _, rfl⟩ := List.mem_map.mp hc
  rfl

theorem attempt_tried (plan : List HalCall) (s : Store) :
    attempt plan s = (true, s.add (succeeded plan)) ∨
      ∃ made, Tried plan made ∧ attempt plan s = (false, s.add made) := by
  rcases attempt_cases plan s with heq | ⟨done, c, rest, hplan, heq⟩
  · exact Or.inl heq
  · right
    refine ⟨succeeded done ++ [(c, false)], ?_, heq⟩
    rw [hplan]
    exact failed_tried done rest c

theorem Tried.extend {longer : List HalCall} {calls : List (HalCall × Bool)}
    (h : Tried plan calls) (hle : plan <+: longer) : Tried longer calls :=
  ⟨h.order.trans hle, h.succeeds⟩

theorem Tried.more {calls : List (HalCall × Bool)} (h : Tried plan calls) (rest : List HalCall) :
    Tried (plan ++ rest) calls :=
  h.extend (List.prefix_append _ _)

theorem Tried.after {calls : List (HalCall × Bool)} (h : Tried plan calls)
    (first : List HalCall) : Tried (first ++ plan) (succeeded first ++ calls) := by
  refine ⟨?_, ?_⟩
  · have horder : (succeeded first).map Prod.fst = first := by
      simp [succeeded, Function.comp_def]
    rw [List.map_append, horder]
    exact (List.prefix_append_right_inj _).mpr h.order
  · intro c hc
    have hfirst : ∀ c ∈ succeeded first, c.2 = true := by
      intro c hc
      obtain ⟨_, _, rfl⟩ := List.mem_map.mp hc
      rfl
    by_cases hnil : calls = []
    · rw [hnil, List.append_nil] at hc
      exact hfirst c (List.dropLast_subset _ hc)
    · rw [List.dropLast_append_of_ne_nil hnil] at hc
      rcases List.mem_append.mp hc with hc | hc
      · exact hfirst c hc
      · exact h.succeeds c hc

/-- What they do is the beginning of what the plan would do. -/
theorem Tried.effects {calls : List (HalCall × Bool)} (h : Tried plan calls) :
    calls.filterMap effect <+: plan.filterMap HalCall.operation := by
  obtain ⟨rest, horder⟩ := h.order
  have same : ∀ l : List (HalCall × Bool), (∀ c ∈ l, c.2 = true) →
      l.filterMap effect = (l.map Prod.fst).filterMap HalCall.operation := by
    intro l hl
    rw [List.filterMap_map]
    apply List.filterMap_congr
    intro c hc
    simp [effect, hl c hc]
  rcases List.eq_nil_or_concat calls with rfl | ⟨l, c, rfl⟩
  · exact List.nil_prefix
  · have hl := h.succeeds
    rw [List.concat_eq_append, List.dropLast_concat] at hl
    rw [← horder, List.concat_eq_append, List.filterMap_append, same l hl, List.map_append,
      List.append_assoc, List.filterMap_append]
    apply (List.prefix_append_right_inj _).mpr
    cases hc : c.2 with
    | true =>
      refine ⟨rest.filterMap HalCall.operation, ?_⟩
      rw [List.filterMap_append]
      simp [effect, hc, List.filterMap_cons]
    | false => simp [effect, hc]

end Attempts

/-! ## A transfer -/

/-- A write that the downloader asks for, in the order of `firmware_platform_write_code_chunk`'s
arguments; the offset is a multiple of the chunk size. -/
structure Chunk where
  data : List UInt8
  id : Nat
  length : Nat
  id_lt : id < 65536
  length_lt : length < 4294967296

def Chunk.offset (c : Chunk) : Nat := c.id * Downloader.chunkSize

def startPlan (name : List UInt8) : List HalCall :=
  [.unlock, .erase] ++ nameCalls name (startMetadata name)

def codePlan (m : Metadata) (chunks : List Chunk) : List HalCall :=
  chunks.flatMap fun c => codeCalls c.data c.offset c.length m

def metadataAfter (name : List UInt8) (chunks : List Chunk) : Metadata :=
  chunks.foldl (fun m c => growCodeLen c.offset c.length m) (startMetadata name)

/-- Everything that a transfer calls when nothing fails. -/
def transferPlan (name : List UInt8) (chunks : List Chunk) : List HalCall :=
  startPlan name ++ (codePlan (startMetadata name) chunks ++
    (metadataCalls (metadataAfter name chunks) ++ [.lock]))

section Transfer
variable {s : Store}

theorem growCodeLen_eq (offset length : Nat) (m : Metadata) :
    growCodeLen offset length m = { m with codeLen := max m.codeLen (u32 (offset + length)) } := by
  unfold growCodeLen
  simp only
  split
  · next h => rw [Nat.max_eq_right (Nat.le_of_lt h)]
  · next h => rw [Nat.max_eq_left (Nat.le_of_not_lt h)]

@[simp] theorem codeCalls_growCodeLen (data : List UInt8) (offset length offset' length' : Nat)
    (m : Metadata) :
    codeCalls data offset length (growCodeLen offset' length' m) =
      codeCalls data offset length m := by
  rw [growCodeLen_eq]
  rfl

/-- The largest end of a chunk, as a 32-bit number. -/
def codeEnd (chunks : List Chunk) (least : Nat) : Nat :=
  chunks.foldl (fun n c => max n (u32 (c.offset + c.length))) least

/-- Chunks change the length of the code and nothing else of the record. -/
theorem metadataAfter_eq (name : List UInt8) (chunks : List Chunk) :
    metadataAfter name chunks = { startMetadata name with codeLen := codeEnd chunks 0 } := by
  have general : ∀ m : Metadata,
      chunks.foldl (fun m c => growCodeLen c.offset c.length m) m =
        { m with codeLen := codeEnd chunks m.codeLen } := by
    unfold codeEnd
    induction chunks with
    | nil => exact fun m => rfl
    | cons c chunks ih =>
      intro m
      rw [List.foldl_cons, List.foldl_cons, ih, growCodeLen_eq]
  exact general (startMetadata name)

theorem metadataAfter_concat (name : List UInt8) (chunks : List Chunk) (c : Chunk) :
    metadataAfter name (chunks ++ [c]) =
      growCodeLen c.offset c.length (metadataAfter name chunks) := by
  unfold metadataAfter
  rw [List.foldl_append]
  rfl

theorem codePlan_concat (m : Metadata) (chunks : List Chunk) (c : Chunk) :
    codePlan m (chunks ++ [c]) = codePlan m chunks ++ codeCalls c.data c.offset c.length m := by
  unfold codePlan
  rw [List.flatMap_append, List.flatMap_singleton]

/-- The calls of a chunk only need the pointer that the start has put into the record. -/
theorem codeCalls_metadataAfter (data : List UInt8) (offset length : Nat) (name : List UInt8)
    (chunks : List Chunk) :
    codeCalls data offset length (metadataAfter name chunks) =
      codeCalls data offset length (startMetadata name) := by
  rw [metadataAfter_eq]
  rfl

theorem writeAll_cases (calls : List HalCall) (s : Store) :
    writeAll calls s = (firmwareSucc, s.add (succeeded calls)) ∨
      ∃ res made, res ≠ firmwareSucc ∧ Tried calls made ∧ writeAll calls s = (res, s.add made) := by
  unfold writeAll
  rcases attempt_tried calls s with heq | ⟨made, htried, heq⟩
  · left
    rw [heq]
    rfl
  · right
    rw [heq]
    exact ⟨firmwareWriteErr, made, by simp [firmwareWriteErr, firmwareSucc], htried, rfl⟩

theorem writeStart_cases (name : List UInt8) (s : Store) :
    firmwarePlatformWriteStart name s =
        (firmwareSucc,
          { s.add (succeeded (startPlan name)) with writeMetadata := startMetadata name }) ∨
      ∃ res made m, res ≠ firmwareSucc ∧ Tried (startPlan name) made ∧
        firmwarePlatformWriteStart name s = (res, { s.add made with writeMetadata := m }) := by
  unfold firmwarePlatformWriteStart startPlan
  generalize nameCalls name (startMetadata name) = calls
  generalize startMetadata name = m
  rcases attempt_tried [.unlock, .erase] s with heq | ⟨made, htried, heq⟩
  · rw [heq]
    simp only [if_true]
    rcases writeAll_cases calls { s.add (succeeded [.unlock, .erase]) with writeMetadata := m }
      with hall | ⟨res, made, hne, htried, hs⟩
    · left
      rw [hall, succeeded_append]
      simp only [Store.add, List.append_assoc]
    · right
      refine ⟨res, succeeded [.unlock, .erase] ++ made, m, hne, htried.after _, ?_⟩
      rw [hs]
      simp only [Store.add, List.append_assoc]
  · right
    rw [heq]
    exact ⟨firmwareEraseErr, made, s.writeMetadata, by simp [firmwareEraseErr, firmwareSucc],
      htried.more calls, rfl⟩

theorem writeCodeChunk_cases (data : List UInt8) (offset length : Nat) (s : Store) :
    firmwarePlatformWriteCodeChunk data offset length s =
        (firmwareSucc,
          { s.add (succeeded (codeCalls data offset length s.writeMetadata)) with
            writeMetadata := growCodeLen offset length s.writeMetadata }) ∨
      ∃ res made m, res ≠ firmwareSucc ∧
        Tried (codeCalls data offset length s.writeMetadata) made ∧
        firmwarePlatformWriteCodeChunk data offset length s =
          (res, { s.add made with writeMetadata := m }) := by
  unfold firmwarePlatformWriteCodeChunk
  simp only [codeCalls_growCodeLen]
  generalize codeCalls data offset length s.writeMetadata = calls
  generalize growCodeLen offset length s.writeMetadata = m
  rcases writeAll_cases calls { s with writeMetadata := m } with hall | ⟨res, made, hne, htried, hs⟩
  · exact Or.inl hall
  · exact Or.inr ⟨res, made, m, hne, htried, hs⟩

theorem writeFinish_cases (s : Store) :
    (∃ ok, firmwarePlatformWriteFinish s =
      (firmwareSucc, s.add (succeeded (metadataCalls s.writeMetadata) ++ [(.lock, ok)]))) ∨
      ∃ res made, res ≠ firmwareSucc ∧ Tried (metadataCalls s.writeMetadata) made ∧
        firmwarePlatformWriteFinish s = (res, s.add made) := by
  unfold firmwarePlatformWriteFinish
  rcases attempt_tried (metadataCalls s.writeMetadata) s with heq | ⟨made, htried, heq⟩
  · left
    rw [heq]
    simp only [if_true, halCall, add_add]
    exact ⟨_, rfl⟩
  · right
    rw [heq]
    exact ⟨firmwareWriteErr, made, by simp [firmwareWriteErr, firmwareSucc], htried, rfl⟩

section AllSucceed
variable (hall : ∀ n, s.hal n = true)
include hall

theorem writeAll_all (calls : List HalCall) :
    writeAll calls s = (firmwareSucc, s.add (succeeded calls)) := by
  unfold writeAll
  rw [attempt_all hall]
  rfl

theorem writeStart_all (name : List UInt8) :
    firmwarePlatformWriteStart name s = (firmwareSucc,
      { s.add (succeeded (startPlan name)) with writeMetadata := startMetadata name }) := by
  unfold firmwarePlatformWriteStart startPlan
  generalize nameCalls name (startMetadata name) = calls
  generalize startMetadata name = m
  rw [attempt_all hall]
  simp only [if_true]
  rw [writeAll_all (by exact hall), succeeded_append]
  simp only [Store.add, List.append_assoc]

theorem writeCodeChunk_all (data : List UInt8) (offset length : Nat) :
    firmwarePlatformWriteCodeChunk data offset length s = (firmwareSucc,
      { s.add (succeeded (codeCalls data offset length s.writeMetadata)) with
        writeMetadata := growCodeLen offset length s.writeMetadata }) := by
  unfold firmwarePlatformWriteCodeChunk
  simp only [codeCalls_growCodeLen]
  generalize codeCalls data offset length s.writeMetadata = calls
  generalize growCodeLen offset length s.writeMetadata = m
  rw [writeAll_all (by exact hall)]
  rfl

theorem writeFinish_all :
    firmwarePlatformWriteFinish s =
      (firmwareSucc, s.add (succeeded (metadataCalls s.writeMetadata ++ [.lock]))) := by
  unfold firmwarePlatformWriteFinish
  rw [attempt_all hall]
  simp only [if_true, halCall, add_add, succeeded_append]
  rw [add_hal, hall]
  rfl

end AllSucceed

end Transfer

/-! ## Addresses -/

section Addresses
variable {name : List UInt8}

theorem mem_burst {part : Part} {address n : Nat} {byte : Nat → UInt8} {c : HalCall} :
    c ∈ burst part address n byte ↔ ∃ i < n, c = .program part (address + i) (byte i) := by
  unfold burst
  rw [List.mem_map]
  constructor
  · intro ⟨i, hi, hc⟩
    exact ⟨i, List.mem_range.mp hi, hc.symm⟩
  · intro ⟨i, hi, hc⟩
    exact ⟨i, List.mem_range.mpr hi, hc.symm⟩

theorem burst_operations (part : Part) (address n : Nat) (byte : Nat → UInt8) :
    (burst part address n byte).filterMap HalCall.operation =
      NorFlash.programs address ((List.range n).map byte) := by
  induction n with
  | zero => rfl
  | succ n ih =>
    unfold burst at ih ⊢
    rw [List.range_succ, List.map_append, List.filterMap_append, ih, List.map_append,
      NorFlash.programs_append, List.length_map, List.length_range]
    rfl

/-- The bound is far above what a RAM of 192 KiB can hold. -/
theorem startMetadata_eq (h : (CString.text name).length ≤ 0x10000000) :
    startMetadata name = ⟨firmwareBinaryPreamble, (CString.text name).length, 0, namePtr,
      namePtr + (CString.text name).length + 1⟩ := by
  unfold startMetadata u32
  simp only [Metadata.mk.injEq, true_and]
  unfold namePtr sectorAddr metadataSize
  omega

theorem nameCalls_eq (h : (CString.text name).length ≤ 0x10000000) :
    nameCalls name (startMetadata name) =
      burst .name namePtr ((CString.text name).length + 1) fun i => name.getD (i % 256) 0 := by
  have hcount : u32 (namePtr + (CString.text name).length) + 1 - namePtr =
      (CString.text name).length + 1 := by
    unfold u32 namePtr sectorAddr metadataSize
    omega
  rw [startMetadata_eq h]
  unfold nameCalls
  simp only
  rw [hcount]

/-- A range that would pass the end of the address space is not programmed at all. -/
theorem codeCalls_eq {m : Metadata} {offset length : Nat} (hlength : length < 4294967296)
    (haddress : m.codePtr + offset < 4294967296) (data : List UInt8) :
    codeCalls data offset length m =
      burst .code (m.codePtr + offset)
        (if m.codePtr + offset + length < 4294967296 then length else 0)
        fun i => data.getD i 0 := by
  have hcount : u32 (m.codePtr + offset + length) - (m.codePtr + offset) =
      if m.codePtr + offset + length < 4294967296 then length else 0 := by
    unfold u32
    split
    · next hend =>
      rw [Nat.mod_eq_of_lt hend]
      omega
    · next hend =>
      rw [Nat.mod_eq_sub_mod (by omega), Nat.mod_eq_of_lt (by omega)]
      omega
  unfold codeCalls
  simp only
  have hfirst : u32 (m.codePtr + offset) = m.codePtr + offset := Nat.mod_eq_of_lt haddress
  rw [hfirst, hcount]

theorem Chunk.offset_lt (c : Chunk) : c.offset < 33554432 := by
  have := c.id_lt
  unfold Chunk.offset Downloader.chunkSize
  omega

end Addresses

/-! ## The record -/

section Record

@[simp] theorem length_metadata_bytes (m : Metadata) : m.bytes.length = metadataSize := by
  simp [Metadata.bytes, metadataSize]

theorem metadataCalls_operations (m : Metadata) :
    (metadataCalls m).filterMap HalCall.operation = NorFlash.programs sectorAddr m.bytes := by
  unfold metadataCalls
  rw [burst_operations]
  rfl

/-- Where the fields of the record are. -/
theorem metadata_fields (m : Metadata) :
    (m.bytes.drop 0).take 4 = LittleEndian.encode 4 m.preambule ∧
      (m.bytes.drop 8).take 4 = LittleEndian.encode 4 m.codeLen ∧
      (m.bytes.drop 12).take 4 = LittleEndian.encode 4 m.namePtr ∧
      (m.bytes.drop 16).take 4 = LittleEndian.encode 4 m.codePtr := by
  unfold Metadata.bytes
  refine ⟨?_, ?_, ?_, ?_⟩
  · simp only [List.drop_zero, List.append_assoc]
    exact List.take_left' (by simp)
  · rw [List.append_assoc, List.append_assoc, List.drop_left' (by simp)]
    exact List.take_left' (by simp)
  · rw [List.append_assoc, List.drop_left' (by simp)]
    exact List.take_left' (by simp)
  · rw [List.drop_left' (by simp), List.take_of_length_le (by simp)]

/-- A field of a record that is in memory as a whole. -/
theorem word_of_record {memory : Nat → UInt8} {m : Metadata} {k n : Nat}
    (h : NorFlash.bytesAt memory sectorAddr metadataSize = m.bytes) (hk : k + 4 ≤ metadataSize)
    (hfield : (m.bytes.drop k).take 4 = LittleEndian.encode 4 n) (hn : n < 4294967296) :
    word memory (sectorAddr + k) = n := by
  unfold word
  rw [NorFlash.bytesAt_part hk, h, hfield, LittleEndian.decode_encode hn]

end Record

end JsEmbeddedPlatform.FlashStore
