import JsEmbeddedPlatform.FirmwareMessages
import JsEmbeddedPlatform.FlashStore
import JsEmbeddedPlatform.UnixStore

/-!
# A transfer that is cut short

What `firmware_platform_get_code` hands out after any number of the operations of a
transfer, be it because a call fails, the connection is lost, the device is reset, or
because another task asks in the meantime. The new code is the one whose chunks are sent.
-/

set_option autoImplicit false

namespace JsEmbeddedPlatform.TornWrites

open Timers (Port)
open Downloader (firmwareDownloaderStart bufferSize chunkSize firmUri freshHeap)
open FirmwareMessages
open FlashStore
open NorFlash (replay bytesAt programs)

/-! ## Flash -/

/-- A program and where it lies. -/
structure Program where
  address : Nat
  code : List UInt8
deriving DecidableEq, Repr

def Program.LiesIn (f : Program) (memory : Nat → UInt8) : Prop :=
  bytesAt memory f.address f.code.length = f.code

/-- The firmware that was stored before, in its sector. -/
def Stored (memory : Nat → UInt8) (old : Option Program) : Prop :=
  firmwarePlatformGetCode memory = old.map Program.address ∧
    ∀ f, old = some f → f.LiesIn memory ∧
      sectorAddr ≤ f.address ∧ f.address < sectorAddr + sectorSize

/-- No code, or the whole of the old or of the new one. -/
def Whole (memory : Nat → UInt8) (old : Option Program) (new : Program) : Prop :=
  firmwarePlatformGetCode memory = none ∨
    ∃ f, (old = some f ∨ f = new) ∧ firmwarePlatformGetCode memory = some f.address ∧
      f.LiesIn memory

def transferOperations (name : List UInt8) (chunks : List Chunk) : List NorFlash.Operation :=
  (transferPlan name chunks).filterMap HalCall.operation

/-- Behind the record come the name, its NUL and then the code. -/
def newProgram (f : Firmware) : Program where
  address := namePtr + (CString.text f.name).length + 1
  code := f.code

/-- What stands there when these chunks have been programmed: the sector is erased before, what
lies behind it is not, and a bit is only ever cleared. -/
def spelled (before : Nat → UInt8) (f : Firmware) (ids : List UInt16) (i : Nat) : UInt8 :=
  let a := (newProgram f).address + i
  let cleared := if a < sectorAddr + sectorSize then 0xFF else before a
  if i < f.code.length ∧ i / chunkSize ∈ ids.map UInt16.toNat then cleared &&& f.code.getD i 0
  else cleared

/-- The chunks spell the whole program. -/
def Spells (before : Nat → UInt8) (f : Firmware) (ids : List UInt16) (p : Program) : Prop :=
  p.address = (newProgram f).address ∧ ∀ i < p.code.length, spelled before f ids i = p.code.getD i 0

def inMetadata : NorFlash.Operation → Bool
  | .program a _ => sectorAddr ≤ a && a < sectorAddr + metadataSize
  | .erase _ _ => false

/-- How many bytes of the record are programmed. -/
def metadataBytes (operations : List NorFlash.Operation) : Nat := operations.countP inMetadata

section Flash
variable {before : Nat → UInt8} {name : List UInt8} {chunks : List Chunk}

/-- What is programmed between the erasure and the record. -/
def body (name : List UInt8) (chunks : List Chunk) : List NorFlash.Operation :=
  (nameCalls name (startMetadata name) ++ codePlan (startMetadata name) chunks).filterMap
    HalCall.operation

theorem transferOperations_eq (name : List UInt8) (chunks : List Chunk) :
    transferOperations name chunks = .erase sectorAddr sectorSize ::
      (body name chunks ++ programs sectorAddr (metadataAfter name chunks).bytes) := by
  unfold transferOperations transferPlan startPlan body
  simp only [List.filterMap_append, metadataCalls_operations, List.append_assoc]
  simp [List.filterMap_cons, HalCall.operation]

/-- A byte of the name, or a byte of a chunk at its place. -/
theorem mem_body (hname : (CString.text name).length ≤ 0x10000000) {op : NorFlash.Operation} :
    op ∈ body name chunks ↔
      (∃ i ≤ (CString.text name).length, op = .program (namePtr + i) (name.getD (i % 256) 0)) ∨
      ∃ c ∈ chunks, ∃ i, (startMetadata name).codePtr + c.offset + c.length < 4294967296 ∧
        i < c.length ∧
        op = .program ((startMetadata name).codePtr + c.offset + i) (c.data.getD i 0) := by
  have hbelow : ∀ c : Chunk, (startMetadata name).codePtr + c.offset < 4294967296 := by
    intro c
    have := c.offset_lt
    rw [startMetadata_eq hname]
    simp only
    unfold namePtr sectorAddr metadataSize
    omega
  unfold body codePlan
  rw [List.mem_filterMap]
  simp only [List.mem_append, List.mem_flatMap, or_and_right, exists_or]
  refine or_congr ?_ ?_
  · rw [nameCalls_eq hname]
    constructor
    · intro ⟨call, hcall, hop⟩
      obtain ⟨i, hi, rfl⟩ := mem_burst.mp hcall
      cases hop
      exact ⟨i, by omega, rfl⟩
    · intro ⟨i, hi, hop⟩
      exact ⟨_, mem_burst.mpr ⟨i, by omega, rfl⟩, congrArg some hop.symm⟩
  · constructor
    · intro ⟨call, ⟨c, hc, hcall⟩, hop⟩
      rw [codeCalls_eq c.length_lt (hbelow c)] at hcall
      obtain ⟨i, hi, rfl⟩ := mem_burst.mp hcall
      cases hop
      split at hi
      · next hend => exact ⟨c, hc, i, hend, hi, rfl⟩
      · cases hi
    · intro ⟨c, hc, i, hend, hi, hop⟩
      refine ⟨.program .code ((startMetadata name).codePtr + c.offset + i) (c.data.getD i 0),
        ⟨c, hc, ?_⟩, congrArg some hop.symm⟩
      rw [codeCalls_eq c.length_lt (hbelow c)]
      exact mem_burst.mpr ⟨i, by rw [if_pos hend]; exact hi, rfl⟩

theorem body_above (hname : (CString.text name).length ≤ 0x10000000) :
    ∀ op ∈ body name chunks, ∃ a v, op = .program a v ∧ sectorAddr + metadataSize ≤ a := by
  intro op hop
  rcases (mem_body hname).mp hop with ⟨i, _, rfl⟩ | ⟨c, _, i, _, _, rfl⟩
  · exact ⟨_, _, rfl, Nat.le_add_right _ _⟩
  · refine ⟨_, _, rfl, ?_⟩
    rw [startMetadata_eq hname]
    simp only
    unfold namePtr
    omega

/-- A point at which it is cut: before the erasure, before the record, or in the record. -/
theorem cut_cases {body : List NorFlash.Operation} {values : List UInt8}
    {cut : List NorFlash.Operation}
    (h : cut <+: .erase sectorAddr sectorSize :: (body ++ programs sectorAddr values)) :
    cut = [] ∨ ∃ done m, done <+: body ∧ m ≤ values.length ∧ (0 < m → done = body) ∧
      cut = .erase sectorAddr sectorSize :: (done ++ programs sectorAddr (values.take m)) := by
  rcases List.prefix_cons_iff.mp h with rfl | ⟨rest, rfl, hrest⟩
  · exact Or.inl rfl
  · right
    obtain ⟨later, hlater⟩ := hrest
    rcases List.append_eq_append_iff.mp hlater with ⟨more, hbody, _⟩ | ⟨more, rfl, hmore⟩
    · exact ⟨rest, 0, ⟨more, hbody.symm⟩, Nat.zero_le _, nofun, by simp [programs]⟩
    · have hmore : more <+: programs sectorAddr values := ⟨later, hmore.symm⟩
      refine ⟨body, more.length, List.prefix_rfl, ?_, fun _ => rfl, ?_⟩
      · rw [← NorFlash.length_programs sectorAddr values]
        exact hmore.length_le
      · rw [← NorFlash.take_programs, ← List.prefix_iff_eq_take.mp hmore]

/-- The record while it is programmed: the bytes behind those that are done are erased. -/
theorem record_at_cut (before : Nat → UInt8) {done : List NorFlash.Operation}
    {values : List UInt8} {m : Nat}
    (hdone : ∀ op ∈ done, ∃ a v, op = .program a v ∧ sectorAddr + metadataSize ≤ a)
    (hm : m ≤ values.length) (hvalues : values.length = metadataSize) {i : Nat}
    (hi : i < metadataSize) :
    replay before (.erase sectorAddr sectorSize :: (done ++ programs sectorAddr (values.take m)))
      (sectorAddr + i) = if i < m then values.getD i 0 else 0xFF := by
  have herased : ∀ i < metadataSize,
      replay (NorFlash.apply before (.erase sectorAddr sectorSize)) done (sectorAddr + i) = 0xFF := by
    intro i hi
    rw [NorFlash.replay_elsewhere]
    · apply NorFlash.apply_erase
      unfold metadataSize at hi
      unfold sectorSize
      omega
    · intro op hop
      obtain ⟨a, v, rfl, ha⟩ := hdone op hop
      exact ⟨a, v, rfl, by omega⟩
  have hlength : (values.take m).length = m := by
    rw [List.length_take]
    omega
  rw [NorFlash.replay_cons, NorFlash.replay_append]
  split
  · next him =>
    rw [NorFlash.replay_programs_at (by intro j hj; exact herased j (by omega)) (by omega)]
    simp [List.getD_eq_getElem?_getD, him]
  · next him =>
    rw [NorFlash.replay_programs_elsewhere (by omega)]
    exact herased i hi

theorem word_eq (memory : Nat → UInt8) (a : Nat) :
    word memory a = (memory a).toNat + 256 * ((memory (a + 1)).toNat +
      256 * ((memory (a + 2)).toNat + 256 * (memory (a + 3)).toNat)) := by
  simp [word, bytesAt, List.range_succ, LittleEndian.decode]

/-- An erased last byte makes a large number. -/
theorem le_word {memory : Nat → UInt8} {a : Nat} (h : memory (a + 3) = 0xFF) :
    0xFF000000 ≤ word memory a := by
  rw [word_eq, h]
  have : (0xFF : UInt8).toNat = 255 := rfl
  omega

/-- A field of the record that is programmed. -/
theorem word_at_cut {memory : Nat → UInt8} {values : List UInt8} {m k n : Nat}
    (hmemory : ∀ i < metadataSize,
      memory (sectorAddr + i) = if i < m then values.getD i 0 else 0xFF)
    (hk : k + 4 ≤ m) (hm : m ≤ metadataSize) (hvalues : values.length = metadataSize)
    (hfield : (values.drop k).take 4 = LittleEndian.encode 4 n) (hn : n < 4294967296) :
    word memory (sectorAddr + k) = n := by
  have hlength : ((values.drop k).take 4).length = 4 := by
    rw [List.length_take, List.length_drop]
    omega
  have hbytes : bytesAt memory (sectorAddr + k) 4 = (values.drop k).take 4 := by
    conv_lhs => rw [← hlength]
    apply NorFlash.bytesAt_eq
    intro i hi
    rw [hlength] at hi
    rw [Nat.add_assoc, hmemory (k + i) (by omega), if_pos (by omega)]
    simp [List.getD_eq_getElem?_getD, hi]
  unfold word
  rw [hbytes, hfield, LittleEndian.decode_encode hn]

theorem metadataBytes_at_cut {done : List NorFlash.Operation} {values : List UInt8} {m : Nat}
    (hdone : ∀ op ∈ done, ∃ a v, op = .program a v ∧ sectorAddr + metadataSize ≤ a)
    (hm : m ≤ values.length) (hvalues : values.length = metadataSize) :
    metadataBytes
      (.erase sectorAddr sectorSize :: (done ++ programs sectorAddr (values.take m))) = m := by
  have hbody : done.countP inMetadata = 0 := by
    rw [List.countP_eq_zero]
    intro op hop
    obtain ⟨a, v, rfl, ha⟩ := hdone op hop
    simp only [inMetadata, Bool.and_eq_true, decide_eq_true_eq]
    omega
  have hrecord : (programs sectorAddr (values.take m)).countP inMetadata = m := by
    rw [List.countP_eq_length.mpr, NorFlash.length_programs, List.length_take]
    · omega
    · intro op hop
      obtain ⟨a, v, rfl, hlo, hhi⟩ := NorFlash.mem_programs hop
      rw [List.length_take] at hhi
      simp only [inMetadata, Bool.and_eq_true, decide_eq_true_eq]
      omega
  unfold metadataBytes
  rw [List.countP_cons_of_neg (by simp [inMetadata]), List.countP_append, hbody, hrecord,
    Nat.zero_add]

/-- Without the first field there is no code. -/
theorem getCode_unmarked {memory : Nat → UInt8} (h : memory (sectorAddr + 3) = 0xFF) :
    firmwarePlatformGetCode memory = none := by
  have hword := le_word h
  unfold firmwarePlatformGetCode hasFirmware firmwareBinaryPreamble
  rw [if_neg]
  intro hmark
  have := of_decide_eq_true hmark
  omega

theorem getCode_marked {memory : Nat → UInt8}
    (h : word memory sectorAddr = firmwareBinaryPreamble) :
    firmwarePlatformGetCode memory = some (word memory (sectorAddr + 16)) := by
  unfold firmwarePlatformGetCode hasFirmware
  rw [h, if_pos (by simp)]

/-- Pointers of programs are below the numbers that an erased byte makes. -/
theorem not_whole {memory : Nat → UInt8} {old : Option Program} {new : Program}
    (hold : ∀ f, old = some f → f.address < 0xFF000000) (hnew : new.address < 0xFF000000)
    (hmark : word memory sectorAddr = firmwareBinaryPreamble)
    (herased : memory (sectorAddr + 16 + 3) = 0xFF) : ¬ Whole memory old new := by
  have hword := le_word herased
  unfold Whole
  rw [getCode_marked hmark]
  intro h
  rcases h with h | ⟨f, hf, h, _⟩
  · cases h
  · have haddress : f.address < 0xFF000000 := by
      rcases hf with hf | rfl
      · exact hold f hf
      · exact hnew
    have := Option.some.inj h
    omega

/-- The chunk as the storage gets it. -/
def chunkOf (f : Firmware) (id : UInt16) : Chunk where
  data := f.chunk id
  id := id.toNat
  length := (f.chunk id).length
  id_lt := id.toNat_lt
  length_lt := Nat.lt_of_le_of_lt (length_chunk_le f id) (by decide)

theorem name_short (f : Firmware) : f.name.length ≤ 0x10000000 ∧
    (CString.text (f.name ++ [0])).length ≤ 0x10000000 := by
  have hfits := f.fits
  have htext := CString.length_text_le (f.name ++ [0])
  simp only [List.length_append, List.length_singleton, bufferSize, chunkSize] at hfits htext
  omega

theorem codePtr_eq (f : Firmware) :
    (startMetadata (f.name ++ [0])).codePtr = (newProgram f).address := by
  rw [startMetadata_eq (name_short f).2, CString.text_append_zero]
  rfl

/-- Of the buffer behind the NUL of the name nothing is read. -/
theorem startPlan_rest (f : Firmware) (rest : List UInt8) :
    startPlan (f.name ++ 0 :: rest) = startPlan (f.name ++ [0]) ∧
      startMetadata (f.name ++ 0 :: rest) = startMetadata (f.name ++ [0]) := by
  have htext : ∀ more, CString.text (f.name ++ 0 :: more) = CString.text f.name :=
    CString.text_append_zero f.name
  have hle := CString.length_text_le f.name
  have hshort := (name_short f).1
  have hsame : startMetadata (f.name ++ 0 :: rest) = startMetadata (f.name ++ [0]) := by
    unfold startMetadata
    rw [htext, htext]
  refine ⟨?_, hsame⟩
  unfold startPlan
  rw [nameCalls_eq (by rw [htext]; omega), nameCalls_eq (by rw [htext]; omega), htext, htext]
  unfold burst
  congr 1
  apply List.map_congr_left
  intro i hi
  have hi : i % 256 ≤ f.name.length := by
    have := List.mem_range.mp hi
    have := Nat.mod_le i 256
    omega
  have hbyte : ∀ more, (f.name ++ 0 :: more).getD (i % 256) 0 = f.name.getD (i % 256) 0 := by
    intro more
    simp only [List.getD_eq_getElem?_getD]
    by_cases hlt : i % 256 < f.name.length
    · rw [List.getElem?_append_left hlt]
    · rw [List.getElem?_append_right (by omega), List.getElem?_eq_none (l := f.name) (by omega),
        show i % 256 - f.name.length = 0 by omega]
      rfl
  simp only [hbyte]

/-- Of the buffer behind the bytes of a chunk nothing is read. -/
theorem codeCalls_rest (data rest : List UInt8) (offset : Nat) (m : Metadata) :
    codeCalls (data ++ rest) offset data.length m = codeCalls data offset data.length m := by
  unfold codeCalls burst
  apply List.map_congr_left
  intro i hi
  have hi : i < data.length := by
    have := List.mem_range.mp hi
    have := Nat.mod_le (u32 (m.codePtr + offset) + data.length) 4294967296
    unfold u32 at *
    omega
  simp only [List.getD_eq_getElem?_getD]
  rw [List.getElem?_append_left hi]

section Store
variable {f : Firmware} {ids : List UInt16} {start s : FlashStore.Store}

theorem writing_calls (hlog : start.calls = []) (h : Writing platform f start ids s) :
    s.before = start.before ∧
      s.calls = succeeded (startPlan (f.name ++ [0]) ++
        codePlan (startMetadata (f.name ++ [0])) (ids.map (chunkOf f))) ∧
      s.writeMetadata = metadataAfter (f.name ++ [0]) (ids.map (chunkOf f)) := by
  induction h with
  | started rest hok =>
    obtain ⟨hplan, hmetadata⟩ := startPlan_rest f rest
    rcases writeStart_cases (f.name ++ 0 :: rest) start with heq | ⟨res, _, _, hne, _, heq⟩
    · rw [platform_writeStart, heq, hplan, hmetadata]
      simp [Store.add, hlog, codePlan, metadataAfter]
    · exact absurd ((congrArg Prod.fst heq).symm.trans hok) hne
  | @wrote ids s id rest _ hok ih =>
    obtain ⟨hmemory, hcalls, hmetadata⟩ := ih
    rcases writeCodeChunk_cases (f.chunk id ++ rest) (id.toNat * chunkSize) (f.chunk id).length s
      with heq | ⟨res, _, _, hne, _, heq⟩
    · rw [platform_writeCodeChunk, heq, List.map_append, List.map_singleton]
      refine ⟨hmemory, ?_, ?_⟩
      · rw [codePlan_concat, ← List.append_assoc, succeeded_append, ← hcalls, hmetadata,
          codeCalls_metadataAfter, codeCalls_rest]
        rfl
      · rw [metadataAfter_concat, ← hmetadata]
        rfl
    · exact absurd ((congrArg Prod.fst heq).symm.trans hok) hne

theorem codePlan_prefix {done : List UInt16} (h : done <+: ids) (m : Metadata) :
    codePlan m (done.map (chunkOf f)) <+: codePlan m (ids.map (chunkOf f)) := by
  obtain ⟨more, rfl⟩ := h
  unfold codePlan
  rw [List.map_append, List.flatMap_append]
  exact List.prefix_append _ _

/-- Whatever a run has done, it is the beginning of a transfer of these chunks. -/
theorem stands_tried (hlog : start.calls = []) (h : Stands platform f start ids s) :
    s.before = start.before ∧
      Tried (transferPlan (f.name ++ [0]) (ids.map (chunkOf f))) s.calls := by
  induction h with
  | untouched =>
    rw [hlog]
    exact ⟨rfl, List.nil_prefix, nofun⟩
  | unstarted rest hfail =>
    rcases writeStart_cases (f.name ++ 0 :: rest) start with heq | ⟨res, made, m, _, htried, heq⟩
    · exact absurd (congrArg Prod.fst heq) hfail
    · rw [platform_writeStart, heq]
      rw [(startPlan_rest f rest).1] at htried
      refine ⟨rfl, ?_⟩
      simp only [Store.add, hlog, List.nil_append]
      exact htried.more _
  | @writing done s hwriting hdone =>
    obtain ⟨hmemory, hcalls, _⟩ := writing_calls hlog hwriting
    obtain ⟨more, hmore⟩ := codePlan_prefix (f := f) hdone (startMetadata (f.name ++ [0]))
    refine ⟨hmemory, ?_⟩
    rw [hcalls, transferPlan, ← hmore, List.append_assoc, ← List.append_assoc (startPlan _)]
    exact succeeded_tried _ _
  | @unwritten done s id rest hwriting hdone hfail =>
    obtain ⟨hmemory, hcalls, hmetadata⟩ := writing_calls hlog hwriting
    rcases writeCodeChunk_cases (f.chunk id ++ rest) (id.toNat * chunkSize) (f.chunk id).length s
      with heq | ⟨res, made, m, _, htried, heq⟩
    · exact absurd (congrArg Prod.fst heq) hfail
    · obtain ⟨more, hmore⟩ := codePlan_prefix (f := f) hdone (startMetadata (f.name ++ [0]))
      rw [platform_writeCodeChunk, heq]
      refine ⟨hmemory, ?_⟩
      rw [hmetadata, codeCalls_metadataAfter, codeCalls_rest] at htried
      rw [transferPlan, ← hmore, List.map_append, List.map_singleton, codePlan_concat]
      simp only [Store.add, hcalls]
      rw [List.append_assoc (codePlan _ _ ++ _), List.append_assoc (codePlan _ _),
        ← List.append_assoc (startPlan _)]
      exact (htried.more _).after _
  | @finished s hwriting =>
    obtain ⟨hmemory, hcalls, hmetadata⟩ := writing_calls hlog hwriting
    rw [platform_writeFinish]
    rcases writeFinish_cases s with ⟨ok, heq⟩ | ⟨_, made, _, htried, heq⟩
    · rw [heq]
      refine ⟨hmemory, ?_⟩
      rw [transferPlan, ← List.append_assoc]
      simp only [Store.add, hcalls, hmetadata]
      apply Tried.after
      apply Tried.after
      exact ⟨List.prefix_rfl, by simp⟩
    · rw [heq]
      refine ⟨hmemory, ?_⟩
      rw [hmetadata] at htried
      rw [transferPlan, ← List.append_assoc]
      simp only [Store.add, hcalls]
      exact (htried.more _).after _
  | cleaned _ ih => exact ih

end Store

/-- Behind the name there is room for the code. -/
theorem lower_address (f : Firmware) (i : Nat) :
    namePtr + (CString.text (f.name ++ [0])).length < (newProgram f).address + i := by
  rw [CString.text_append_zero]
  unfold newProgram
  simp only
  omega

/-- A byte of a chunk is written to the place of that byte of the code. -/
theorem chunk_place {f : Firmware} {id : UInt16} {i j : Nat}
    (h : (startMetadata (f.name ++ [0])).codePtr + (chunkOf f id).offset + j =
      (newProgram f).address + i) :
    i = id.toNat * chunkSize + j := by
  rw [codePtr_eq] at h
  unfold chunkOf Chunk.offset at h
  simp only at h
  omega

/-- What is programmed at a byte of the code is that byte. -/
theorem body_code (f : Firmware) (ids : List UInt16) (i : Nat) :
    ∀ op ∈ body (f.name ++ [0]) (ids.map (chunkOf f)), ∃ b w, op = .program b w ∧
      (b = (newProgram f).address + i → w = f.code.getD i 0) := by
  intro op hop
  have hlower := lower_address f i
  rcases (mem_body (name_short f).2).mp hop with ⟨j, hj, rfl⟩ | ⟨c, hc, j, _, hj, rfl⟩
  · exact ⟨_, _, rfl, fun heq => by omega⟩
  · obtain ⟨id, _, rfl⟩ := List.mem_map.mp hc
    refine ⟨_, _, rfl, fun heq => ?_⟩
    rw [chunk_place heq]
    exact (getD_chunk hj).1

/-- A byte of the code is programmed exactly if its chunk is sent. -/
theorem mem_body_code (f : Firmware) (ids : List UInt16) (i : Nat) :
    NorFlash.Operation.program ((newProgram f).address + i) (f.code.getD i 0) ∈
        body (f.name ++ [0]) (ids.map (chunkOf f)) ↔
      i < f.code.length ∧ i / chunkSize ∈ ids.map UInt16.toNat := by
  have hlower := lower_address f i
  rw [mem_body (name_short f).2]
  constructor
  · rintro (⟨j, hj, heq⟩ | ⟨c, hc, j, _, hj, heq⟩)
    · injection heq with heq _
      omega
    · obtain ⟨id, hid, rfl⟩ := List.mem_map.mp hc
      injection heq with heq _
      obtain ⟨_, hlt, hchunk⟩ := getD_chunk hj
      have hi := chunk_place heq.symm
      refine ⟨by omega, List.mem_map.mpr ⟨id, hid, ?_⟩⟩
      rw [hi, Nat.mul_comm, Nat.mul_add_div (by decide), Nat.div_eq_of_lt hchunk, Nat.add_zero]
  · intro ⟨hi, hmem⟩
    obtain ⟨id, hid, hdiv⟩ := List.mem_map.mp hmem
    have hparts := Nat.div_add_mod i chunkSize
    have hmod : i % chunkSize < chunkSize := Nat.mod_lt _ (by decide)
    rw [← hdiv, Nat.mul_comm] at hparts
    have hj : i % chunkSize < (f.chunk id).length := by
      unfold Firmware.chunk FileChunks.chunkBytes
      rw [List.length_take, List.length_drop]
      omega
    refine Or.inr ⟨chunkOf f id, List.mem_map_of_mem hid, i % chunkSize, ?_, hj, ?_⟩
    · rw [codePtr_eq]
      have hoffset := (chunkOf f id).offset_lt
      have hlength := length_chunk_le f id
      have hshort := (name_short f).1
      have htext := CString.length_text_le f.name
      have hchunk : (chunkOf f id).length = (f.chunk id).length := rfl
      unfold newProgram namePtr sectorAddr metadataSize
      simp only [hchunk]
      unfold chunkSize at hlength
      omega
    · rw [codePtr_eq]
      congr 1
      · unfold chunkOf Chunk.offset
        simp only
        omega
      · rw [show (chunkOf f id).data = f.chunk id from rfl, (getD_chunk hj).1, hparts]

/-- The chunks are found as they are sent. -/
theorem transfer_spells (before : Nat → UInt8) (f : Firmware) (ids : List UInt16) (i : Nat) :
    replay before (transferOperations (f.name ++ [0]) (ids.map (chunkOf f)))
      ((newProgram f).address + i) = spelled before f ids i := by
  have hlower := lower_address f i
  have hrecord : sectorAddr + metadataSize ≤ (newProgram f).address + i := by
    unfold namePtr at hlower
    omega
  rw [transferOperations_eq, NorFlash.replay_cons, NorFlash.replay_append,
    NorFlash.replay_programs_elsewhere (by rw [length_metadata_bytes]; omega),
    NorFlash.replay_same (body_code f ids i)]
  simp only [mem_body_code]
  have hsector : sectorAddr ≤ (newProgram f).address + i := by omega
  unfold spelled NorFlash.apply
  simp only [hsector, true_and]

/-- The record is begun, but not complete, or the chunks that are sent spell neither program. -/
theorem torn_flash_iff {f : Firmware} {ids : List UInt16} {old : Option Program}
    {cut : List NorFlash.Operation} (hold : Stored before old)
    (hcut : cut <+: transferOperations (f.name ++ [0]) (ids.map (chunkOf f))) :
    Whole (replay before cut) old (newProgram f) ↔
      metadataBytes cut < 4 ∨ metadataBytes cut = metadataSize ∧
        ∃ p, (old = some p ∨ p = newProgram f) ∧ Spells before f ids p := by
  have hname := (name_short f).2
  have hspells := transfer_spells before f ids
  have hptr := codePtr_eq f
  rw [transferOperations_eq] at hcut hspells
  have hplaces := @body_above (f.name ++ [0]) (ids.map (chunkOf f)) hname
  generalize body (f.name ++ [0]) (ids.map (chunkOf f)) = body at hcut hspells hplaces
  have hmeta := metadataAfter_eq (f.name ++ [0]) (ids.map (chunkOf f))
  have hstart := startMetadata_eq hname
  have hnew : (newProgram f).address < 0xFF000000 := by
    rw [← hptr, hstart]
    simp only
    unfold namePtr sectorAddr metadataSize
    omega
  have holdPtr : ∀ p, old = some p → p.address < 0xFF000000 := by
    intro p hp
    have := (hold.2 p hp).2.2
    unfold sectorAddr sectorSize at this
    omega
  rcases cut_cases hcut with rfl | ⟨done, m, hdone, hm, hwhole, rfl⟩
  · refine iff_of_true ?_ (Or.inl (by decide))
    cases old with
    | none => exact Or.inl hold.1
    | some p => exact Or.inr ⟨p, Or.inl rfl, hold.1, (hold.2 p rfl).1⟩
  · have hplaces : ∀ op ∈ done, ∃ a v, op = .program a v ∧ sectorAddr + metadataSize ≤ a :=
      fun op hop => hplaces op (hdone.subset hop)
    have hvalues := length_metadata_bytes (metadataAfter (f.name ++ [0]) (ids.map (chunkOf f)))
    obtain ⟨hpreambule, _, _, hcodePtr⟩ :=
      metadata_fields (metadataAfter (f.name ++ [0]) (ids.map (chunkOf f)))
    rw [hmeta] at hpreambule hcodePtr
    rw [metadataBytes_at_cut hplaces hm hvalues]
    have hrecord : ∀ i < metadataSize, _ := fun i hi =>
      record_at_cut before hplaces hm hvalues hi
    rw [hvalues] at hm
    have hmark : 4 ≤ m → word _ sectorAddr = firmwareBinaryPreamble := fun hfour =>
      word_at_cut (k := 0) hrecord (by omega) hm hvalues
        (by rw [hmeta, hpreambule, hstart]) (by decide)
    by_cases hfour : 4 ≤ m
    · by_cases hall : m = metadataSize
      · subst hall
        have hcode := getCode_marked (hmark hfour)
        rw [word_at_cut hrecord (Nat.le_refl _) (Nat.le_refl _) hvalues
          (by rw [hmeta]; exact hcodePtr) (by simp only [hptr]; omega), hptr] at hcode
        rw [hwhole (by decide), ← hvalues, List.take_length] at hcode ⊢
        generalize replay before _ = memory at hcode hspells ⊢
        have hlies : ∀ p : Program, p.address = (newProgram f).address →
            (p.LiesIn memory ↔ Spells before f ids p) := by
          intro p hp
          unfold Program.LiesIn Spells
          rw [hp, eq_self, true_and, NorFlash.bytesAt_eq_iff]
          simp only [hspells]
        unfold Whole
        rw [hcode]
        constructor
        · intro h
          rcases h with h | ⟨p, hp, haddress, hlie⟩
          · cases h
          · exact Or.inr ⟨hvalues, p, hp,
              (hlies p (Option.some.inj haddress).symm).mp hlie⟩
        · intro h
          rcases h with h | ⟨_, p, hp, hspelled⟩
          · rw [hvalues] at h
            exact absurd h (by decide)
          · exact Or.inr ⟨p, hp, congrArg some hspelled.1.symm,
              (hlies p hspelled.1).mpr hspelled⟩
      · refine iff_of_false (not_whole holdPtr hnew (hmark hfour) ?_) (by omega)
        rw [Nat.add_assoc, hrecord 19 (by decide), if_neg]
        unfold metadataSize at hm hall
        omega
    · refine iff_of_true (Or.inl (getCode_unmarked ?_)) (Or.inl (by omega))
      rw [hrecord 3 (by decide), if_neg (by omega)]

end Flash

/-! ## The file -/

section File
open UnixStore (image maxSize image_eq_iff)
variable {before s : UnixStore.Store} {new w : List UInt8}

/-- Whatever the calls that read the file return. -/
def WholeFile (before s : UnixStore.Store) (new : List UInt8) : Prop :=
  ∀ opened ok, UnixStore.firmwarePlatformGetCode opened ok s = none ∨
    (∃ old, before.file = some old ∧
      UnixStore.firmwarePlatformGetCode opened ok s = some (image old)) ∨
    UnixStore.firmwarePlatformGetCode opened ok s = some (image new)

/-- Up to NULs at the end. -/
def SameCode (w code : List UInt8) : Prop := ∀ i < maxSize, w.getD i 0 = code.getD i 0

/-- The data of the chunks in the order in which they are sent. -/
def sentBytes (f : Firmware) (ids : List UInt16) : List UInt8 := ids.flatMap f.chunk

theorem getCode_image (hfile : s.file = some w) (opened ok : Bool) :
    UnixStore.firmwarePlatformGetCode opened ok s = none ∨
      UnixStore.firmwarePlatformGetCode opened ok s = some (image w) := by
  unfold UnixStore.firmwarePlatformGetCode
  rw [hfile]
  simp only
  split
  · exact Or.inr rfl
  · exact Or.inl rfl

theorem untouched_whole (h : s.file = before.file) : WholeFile before s new := by
  intro opened ok
  cases hfile : s.file with
  | none =>
    left
    unfold UnixStore.firmwarePlatformGetCode
    rw [hfile]
  | some old =>
    rcases getCode_image hfile opened ok with hnone | hread
    · exact Or.inl hnone
    · exact Or.inr (Or.inl ⟨old, by rw [← h, hfile], hread⟩)

/-- A file that has been begun is whole when it is read like the new code, or still like the old
one. -/
theorem torn_file_iff (hfile : s.file = some w) :
    WholeFile before s new ↔ s.file = before.file ∨ SameCode w new ∨
      ∃ old, before.file = some old ∧ SameCode w old := by
  constructor
  · intro hwhole
    have hread : UnixStore.firmwarePlatformGetCode true true s = some (image w) := by
      unfold UnixStore.firmwarePlatformGetCode
      rw [hfile]
      rfl
    right
    rcases hwhole true true with h | ⟨old, hold, h⟩ | h
    · cases hread.symm.trans h
    · exact Or.inr ⟨old, hold, (image_eq_iff w old).mp (Option.some.inj (hread.symm.trans h))⟩
    · exact Or.inl ((image_eq_iff w new).mp (Option.some.inj (hread.symm.trans h)))
  · intro hcase
    rcases hcase with h | hcase
    · exact untouched_whole h
    · intro opened ok
      rcases getCode_image hfile opened ok with hnone | hread
      · exact Or.inl hnone
      · right
        rw [hread]
        rcases hcase with hsame | ⟨old, hold, hsame⟩
        · exact Or.inr (by rw [(image_eq_iff w new).mpr hsame])
        · exact Or.inl ⟨old, hold, by rw [(image_eq_iff w old).mpr hsame]⟩

variable {f : Firmware} {ids : List UInt16}

theorem writing_file (h : Writing UnixStore.platform f before ids s) :
    s.file = some (sentBytes f ids) := by
  induction h with
  | started rest hok =>
    rcases UnixStore.writeStart_file (f.name ++ 0 :: rest) before with ⟨_, hfile⟩ | ⟨hne, _⟩
    · exact hfile
    · exact absurd hok hne
  | @wrote ids s id rest _ hok ih =>
    obtain ⟨written, _, hfile, hall⟩ := UnixStore.writeCodeChunk_file (f.chunk id ++ rest)
      (id.toNat * chunkSize) (f.chunk id).length s
    unfold UnixStore.platform sentBytes
    rw [hfile, ih, hall hok, List.take_left, List.flatMap_append, List.flatMap_singleton]
    rfl

theorem sentBytes_begin {done : List UInt16} (h : done <+: ids) :
    sentBytes f done <+: sentBytes f ids := by
  obtain ⟨more, rfl⟩ := h
  unfold sentBytes
  rw [List.flatMap_append]
  exact List.prefix_append _ _

/-- The file is as it was, or it holds the first bytes of what is sent. -/
theorem stands_file (h : Stands UnixStore.platform f before ids s) :
    s.file = before.file ∨ ∃ n, s.file = some ((sentBytes f ids).take n) := by
  have begun : ∀ (t : UnixStore.Store) (w : List UInt8), w <+: sentBytes f ids →
      t.file = some w → ∃ n, t.file = some ((sentBytes f ids).take n) :=
    fun t w hw hfile => ⟨w.length, by rw [hfile, ← List.prefix_iff_eq_take.mp hw]⟩
  induction h with
  | untouched => exact Or.inl rfl
  | unstarted rest hfail =>
    rcases UnixStore.writeStart_file (f.name ++ 0 :: rest) before with ⟨hok, _⟩ | ⟨_, hfile⟩
    · exact absurd hok hfail
    · exact Or.inl hfile
  | writing hwriting hdone =>
    exact Or.inr (begun _ _ (sentBytes_begin hdone) (writing_file hwriting))
  | @unwritten done s id rest hwriting hdone hfail =>
    obtain ⟨written, hwritten, hfile, _⟩ := UnixStore.writeCodeChunk_file (f.chunk id ++ rest)
      (id.toNat * chunkSize) (f.chunk id).length s
    rw [List.take_left] at hwritten
    refine Or.inr (begun _ (sentBytes f done ++ written) ?_ ?_)
    · refine List.IsPrefix.trans ?_ (sentBytes_begin hdone)
      unfold sentBytes
      rw [List.flatMap_append, List.flatMap_singleton]
      exact (List.prefix_append_right_inj _).mpr hwritten
    · unfold UnixStore.platform
      rw [hfile, writing_file hwriting]
      rfl
  | @finished s hwriting =>
    have hfile := writing_file hwriting
    exact Or.inr (begun (UnixStore.firmwarePlatformWriteFinish s).2 _ List.prefix_rfl hfile)
  | cleaned _ ih => exact ih

end File

/-- The firmware `a` of one chunk, `1`. -/
def firmware : Firmware := ⟨[97], [49, 0], by decide⟩

def messages : List Message := [.description 1 2, .chunk 0 [], .flowEnd]

/-- The fifth byte of the record cannot be programmed. -/
def flashBefore : FlashStore.Store where
  before _ := 0xFF
  hal n := n ≠ 10
  calls := []
  writeMetadata := startMetadata []

/-- The connection is lost after the description. -/
def fileBefore : UnixStore.Store := ⟨none, false, some, 0⟩

def flashAfter : FlashStore.Store :=
  (firmwareDownloaderStart .stm32 FlashStore.platform (fun _ => true) firmUri freshHeap flashBefore
    (packets firmware messages)).store

def fileAfter : UnixStore.Store :=
  (firmwareDownloaderStart .unix UnixStore.platform (fun _ => true) firmUri freshHeap fileBefore
    (packets firmware (messages.take 1))).store

theorem nothing_stored : Stored flashBefore.before none := by
  refine ⟨?_, nofun⟩
  decide +kernel

end JsEmbeddedPlatform.TornWrites
