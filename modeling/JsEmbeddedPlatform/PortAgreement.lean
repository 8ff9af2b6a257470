import JsEmbeddedPlatform.FlashTransfers
import JsEmbeddedPlatform.UnixStore

/-!
# One interface, two stores

The same calls on both ports. stm32 puts a chunk where its offset says, unix behind what
has been written before; after chunks whose ranges tile the code the two hand out the
same bytes when the chunks came in ascending order, and for no other order.
-/

set_option autoImplicit false

namespace JsEmbeddedPlatform.PortAgreement

open Downloader (firmwareSucc)
open FlashTransfers (CodeChunk ranges storeFirmware writeChunks Admitted Fits nameText)
open FlashStore (metadataSize sectorSize)
open UnixStore (noFile)
open NorFlash (bytesAt)
open Ranges (Range Tiles Ascending Consecutive total)

/-- Each chunk's data at its offset. -/
def Placed (chunks : List CodeChunk) (bytes : List UInt8) : Prop :=
  ∀ c ∈ chunks, (bytes.drop c.offset).take c.data.length = c.data

/-- Every `open` succeeds, and every `write` writes all that it is given. -/
def Willing (file : UnixStore.Store) : Prop :=
  ∀ k, ∃ m, file.result k = some m ∧ 4294967296 ≤ m

/-- Both ports store the chunks, and the first `n` bytes that they hand out are those of the
chunks, each at its offset. -/
def StoredAlike (name rest : List UInt8) (n : Nat) (flash : FlashStore.Store)
    (file : UnixStore.Store) (chunks : List CodeChunk) : Prop :=
  ∃ bytes t u p code, bytes.length = n ∧ Placed chunks bytes ∧
    storeFirmware FlashStore.platform (name ++ 0 :: rest) chunks flash = some t ∧
    FlashStore.firmwarePlatformGetCode t.flash = some p ∧ bytesAt t.flash p n = bytes ∧
    storeFirmware UnixStore.platform (name ++ 0 :: rest) chunks file = some u ∧
    UnixStore.firmwarePlatformGetCode true true u = some code ∧ code.take n = bytes

/-! ## Placing -/

section Placing
variable {chunks : List CodeChunk} {bytes other : List UInt8} {n : Nat}

theorem Placed.getElem? (h : Placed chunks bytes) {c : CodeChunk} (hc : c ∈ chunks) {i : Nat}
    (hcovers : c.range.Covers i) : bytes[i]? = c.data[i - c.offset]? := by
  obtain ⟨hlow, hhigh⟩ := FlashTransfers.covers_range.mp hcovers
  unfold CodeChunk.last at hhigh
  have hpart : ((bytes.drop c.offset).take c.data.length)[i - c.offset]? =
      c.data[i - c.offset]? := by rw [h c hc]
  rw [List.getElem?_take_of_lt (by omega), List.getElem?_drop, Nat.add_sub_cancel' hlow] at hpart
  exact hpart

/-- Chunks that cover everything leave no choice. -/
theorem Placed.unique (h : Placed chunks bytes) (h' : Placed chunks other)
    (htiles : Tiles 0 n (ranges chunks)) (hbytes : bytes.length = n) (hother : other.length = n) :
    bytes = other := by
  apply List.ext_getElem?
  intro i
  by_cases hi : i < n
  · obtain ⟨r, hr, hcovers⟩ := (htiles.covered i).mp ⟨Nat.zero_le i, hi⟩
    obtain ⟨c, hc, rfl⟩ := List.mem_map.mp hr
    rw [h.getElem? hc hcovers, h'.getElem? hc hcovers]
  · rw [List.getElem?_eq_none (by omega), List.getElem?_eq_none (by omega)]

theorem length_flatten_data (chunks : List CodeChunk) :
    (chunks.map CodeChunk.data).flatten.length = total (ranges chunks) := by
  induction chunks with
  | nil => rfl
  | cons c chunks ih =>
    have htotal : total (ranges (c :: chunks)) = c.data.length + total (ranges chunks) :=
      Ranges.total_cons c.range (ranges chunks)
    rw [List.map_cons, List.flatten_cons, List.length_append, ih, htotal]

/-- Chunks that follow each other are placed by appending them. -/
theorem placed_flatten {pre : List UInt8} (h : Consecutive pre.length (ranges chunks)) :
    Placed chunks (pre ++ (chunks.map CodeChunk.data).flatten) := by
  induction chunks generalizing pre with
  | nil =>
    intro c hc
    cases hc
  | cons d chunks ih =>
    obtain ⟨hfirst, hrest⟩ : (0 < d.data.length → d.offset = pre.length) ∧
        Consecutive (pre.length + d.data.length) (ranges chunks) := h
    intro c hc
    rw [List.map_cons, List.flatten_cons]
    rcases List.mem_cons.mp hc with rfl | hc
    · by_cases hlength : 0 < c.data.length
      · rw [hfirst hlength, List.drop_left, List.take_left]
      · have hnil : c.data = [] := List.eq_nil_of_length_eq_zero (by omega)
        rw [hnil]
        rfl
    · rw [← List.append_assoc]
      apply ih _ c hc
      rw [List.length_append]
      exact hrest

/-- A chunk ends within what is tiled. -/
theorem last_le (htiles : Tiles 0 n (ranges chunks)) {c : CodeChunk} (hc : c ∈ chunks)
    (hne : c.data ≠ []) : c.last ≤ n := by
  have hlength : 0 < c.data.length := List.length_pos_of_ne_nil hne
  have hcovers : c.range.Covers (c.last - 1) := by
    rw [FlashTransfers.covers_range]
    unfold CodeChunk.last
    omega
  have := (htiles.covered (c.last - 1)).mpr ⟨c.range, List.mem_map_of_mem hc, hcovers⟩
  unfold CodeChunk.last at this ⊢
  omega

end Placing

/-! ## The two ports -/

section Ports
variable {name rest : List UInt8} {chunks : List CodeChunk} {n : Nat}
variable {flash : FlashStore.Store} {file : UnixStore.Store}

theorem flash_placed (hhal : ∀ k, flash.hal k = true) (hcalls : flash.calls = [])
    (hname : 0 ∉ name) (hroom : metadataSize + name.length + 1 + n ≤ sectorSize)
    (htiles : Tiles 0 n (ranges chunks)) (hoffset : ∀ c ∈ chunks, c.offset < 4294967296) :
    ∃ t p, storeFirmware FlashStore.platform (name ++ 0 :: rest) chunks flash = some t ∧
      FlashStore.firmwarePlatformGetCode t.flash = some p ∧
      Placed chunks (bytesAt t.flash p n) := by
  have hadmitted : ∀ c ∈ chunks, Admitted (nameText name rest) c := by
    intro c hc
    by_cases hnil : c.data = []
    · refine ⟨?_, fun hne => absurd hnil hne⟩
      have := hoffset c hc
      rw [CodeChunk.last, hnil]
      exact this
    · have := last_le htiles hc hnil
      apply Fits.admitted
      unfold Fits
      rw [FlashTransfers.length_nameText]
      omega
  obtain ⟨t, hstored, hreadable, _⟩ := FlashTransfers.storeFirmware_readable name rest chunks flash
    hhal hcalls hname (by omega) htiles.apart hadmitted
  refine ⟨t, _, hstored, hreadable.getCode, ?_⟩
  intro c hc
  by_cases hnil : c.data = []
  · rw [hnil]
    rfl
  · have hlast := last_le htiles hc hnil
    rw [← NorFlash.bytesAt_part hlast]
    exact hreadable.chunkRead c hc

theorem file_written (hwilling : Willing file) {written : List UInt8} (hopen : file.writeFd = true)
    (hfile : file.file = some written) (hlength : ∀ c ∈ chunks, c.data.length < 4294967296) :
    ∃ u, writeChunks UnixStore.platform chunks file = some u ∧
      u.file = some (written ++ (chunks.map CodeChunk.data).flatten) := by
  induction chunks generalizing file written with
  | nil => exact ⟨file, rfl, by rw [hfile]; simp⟩
  | cons c chunks ih =>
    obtain ⟨m, hresult, hm⟩ := hwilling file.calls
    have hall : (c.data.take c.data.length).take m = c.data := by
      have := hlength c List.mem_cons_self
      rw [List.take_length, List.take_of_length_le (by omega)]
    let next : UnixStore.Store :=
      { file with file := some (written ++ c.data), calls := file.calls + 1 }
    have hnext : Willing next := hwilling
    have hwrite : UnixStore.firmwarePlatformWriteCodeChunk c.data c.offset c.data.length file =
        (firmwareSucc, next) := by
      unfold UnixStore.firmwarePlatformWriteCodeChunk
      rw [if_pos hopen, hresult]
      simp only [hall, if_true, hfile, Option.map_some]
      rfl
    obtain ⟨u, hrest, hu⟩ := ih hnext hopen rfl
      fun d hd => hlength d (List.mem_cons_of_mem c hd)
    refine ⟨u, ?_, ?_⟩
    · have hplatform : UnixStore.platform.writeCodeChunk =
          UnixStore.firmwarePlatformWriteCodeChunk := rfl
      rw [writeChunks, hplatform, hwrite]
      exact hrest
    · rw [hu, List.map_cons, List.flatten_cons, List.append_assoc]

theorem file_stored (hwilling : Willing file) (name : List UInt8)
    (hlength : ∀ c ∈ chunks, c.data.length < 4294967296) :
    ∃ u, storeFirmware UnixStore.platform name chunks file = some u ∧
      UnixStore.firmwarePlatformGetCode true true u =
        some (UnixStore.image (chunks.map CodeChunk.data).flatten) := by
  obtain ⟨m, hresult, _⟩ := hwilling file.calls
  let opened : UnixStore.Store :=
    { file with file := some [], writeFd := true, calls := file.calls + 1 }
  have hstart : UnixStore.platform.writeStart name file = (firmwareSucc, opened) := by
    unfold UnixStore.platform UnixStore.firmwarePlatformWriteStart
    simp only [hresult]
    rfl
  have hopened : Willing opened := hwilling
  obtain ⟨u, hwritten, hu⟩ := file_written hopened rfl rfl hlength
  refine ⟨{ u with writeFd := false }, ?_, ?_⟩
  · rw [storeFirmware, hstart]
    simp only [if_true, hwritten, Option.bind_eq_bind, Option.bind_some]
    rfl
  · unfold UnixStore.firmwarePlatformGetCode
    simp only [hu, List.nil_append]
    rfl

/-- What the file is read as begins with what has been appended. -/
theorem take_image {code : List UInt8} (h : code.length ≤ UnixStore.maxSize) :
    (UnixStore.image code).take code.length = code := by
  unfold UnixStore.image
  rw [List.take_of_length_le h, List.take_left]

theorem stored_in_order (hhal : ∀ k, flash.hal k = true) (hcalls : flash.calls = [])
    (hname : 0 ∉ name) (hroom : metadataSize + name.length + 1 + n ≤ sectorSize)
    (hwilling : Willing file) (htiles : Tiles 0 n (ranges chunks))
    (hoffset : ∀ c ∈ chunks, c.offset < 4294967296) (hasc : Ascending (ranges chunks)) :
    StoredAlike name rest n flash file chunks := by
  obtain ⟨t, p, hflash, hpointer, hplaced⟩ := flash_placed hhal hcalls hname hroom htiles hoffset
  have hsector : sectorSize = 131072 := rfl
  have hlast : ∀ c ∈ chunks, c.data.length < 4294967296 := by
    intro c hc
    by_cases hnil : c.data = []
    · rw [hnil]
      exact Nat.zero_lt_succ _
    · have := last_le htiles hc hnil
      unfold CodeChunk.last at this
      omega
  obtain ⟨u, hfile, hcode⟩ := file_stored hwilling (name ++ 0 :: rest) hlast
  have hconsecutive : Consecutive 0 (ranges chunks) := htiles.consecutive hasc
  have hlength : (chunks.map CodeChunk.data).flatten.length = n := by
    have := htiles.total_eq hconsecutive (Nat.zero_le n)
    rw [length_flatten_data]
    omega
  have hbytes : (bytesAt t.flash p n).length = n := NorFlash.length_bytesAt t.flash p n
  have happended : Placed chunks ([] ++ (chunks.map CodeChunk.data).flatten) :=
    placed_flatten hconsecutive
  have hsame : bytesAt t.flash p n = (chunks.map CodeChunk.data).flatten :=
    hplaced.unique happended htiles hbytes hlength
  refine ⟨_, t, u, p, _, hbytes, hplaced, hflash, hpointer, rfl, hfile, hcode, ?_⟩
  have hfits : (chunks.map CodeChunk.data).flatten.length ≤ UnixStore.maxSize := by
    unfold UnixStore.maxSize
    omega
  have htake := take_image hfits
  rw [hlength] at htake
  rw [htake, hsame]

end Ports

/-! ## One byte that is not 0 -/

/-- Data of the length of the range. -/
def blank (r : Range) : CodeChunk := ⟨r.first, List.replicate r.length 0⟩

def marked (r : Range) : CodeChunk := ⟨r.first, 1 :: List.replicate (r.length - 1) 0⟩

def markedAmong (before : List Range) (r : Range) (after : List Range) : List CodeChunk :=
  before.map blank ++ marked r :: after.map blank

section Marking
variable {before after rs : List Range} {r : Range}

theorem ranges_blank (rs : List Range) : ranges (rs.map blank) = rs := by
  unfold ranges
  rw [List.map_map]
  apply List.map_id''
  intro r
  simp [blank, CodeChunk.range]

theorem ranges_markedAmong (h : 0 < r.length) :
    ranges (markedAmong before r after) = before ++ r :: after := by
  have hmarked : (marked r).range = r := by
    unfold marked CodeChunk.range
    rw [List.length_cons, List.length_replicate, Nat.sub_add_cancel h]
  have hsplit : ranges (markedAmong before r after) =
      ranges (before.map blank) ++ (marked r).range :: ranges (after.map blank) := by
    unfold ranges markedAmong
    rw [List.map_append, List.map_cons]
  rw [hsplit, ranges_blank, ranges_blank, hmarked]

theorem flatten_blank (rs : List Range) :
    ((rs.map blank).map CodeChunk.data).flatten = List.replicate (total rs) 0 := by
  induction rs with
  | nil => rfl
  | cons r rs ih =>
    rw [List.map_cons, List.map_cons, List.flatten_cons, ih, Ranges.total_cons,
      List.replicate_add]
    rfl

/-- Written one after the other, they have the byte behind those that came before. -/
theorem flatten_markedAmong (before : List Range) (r : Range) (after : List Range) :
    ((markedAmong before r after).map CodeChunk.data).flatten =
      List.replicate (total before) 0 ++ 1 :: List.replicate (r.length - 1 + total after) 0 := by
  unfold markedAmong
  rw [List.map_append, List.map_cons, List.flatten_append, List.flatten_cons, flatten_blank,
    flatten_blank, List.replicate_add]
  rfl

theorem mark_unique {a b i : Nat}
    (h : (List.replicate a (0 : UInt8) ++ 1 :: List.replicate b 0).getD i 0 = 1) : i = a := by
  rw [List.getD_eq_getElem?_getD, List.getElem?_append] at h
  split at h
  · simp_all
  · next hge =>
    rw [List.length_replicate] at h hge
    rcases Nat.eq_or_lt_of_le (Nat.le_of_not_lt hge) with heq | hlt
    · exact heq.symm
    · obtain ⟨k, hk⟩ : ∃ k, i - a = k + 1 := ⟨i - a - 1, by omega⟩
      rw [hk, List.getElem?_cons_succ, List.getElem?_replicate] at h
      split at h <;> simp at h

end Marking

/-- After chunks that tile the code both ports have the same in it, whatever the chunks hold, when
those that are not empty came in ascending order, and otherwise not. -/
theorem ports_agree_iff_ascending (name rest : List UInt8) (n : Nat) (rs : List Range)
    (flash : FlashStore.Store) (file : UnixStore.Store) (hhal : ∀ k, flash.hal k = true)
    (hcalls : flash.calls = []) (hwilling : Willing file) (hname : 0 ∉ name)
    (hroom : metadataSize + name.length + 1 + n ≤ sectorSize) (htiles : Tiles 0 n rs)
    (hoffset : ∀ r ∈ rs, r.first < 4294967296) :
    (∀ chunks, ranges chunks = rs → StoredAlike name rest n flash file chunks) ↔
      Ascending rs := by
  constructor
  · intro halike
    rw [htiles.ascending_iff, Ranges.consecutive_iff]
    intro before r after hsplit hlength
    have hranges : ranges (markedAmong before r after) = rs := by
      rw [ranges_markedAmong hlength, hsplit]
    obtain ⟨bytes, t, u, p, code, hbytes, hplaced, _, _, _, hfile, hcode, hsame⟩ :=
      halike _ hranges
    have hmem : marked r ∈ markedAmong before r after := by
      unfold markedAmong
      simp
    have hcovers : (marked r).range.Covers r.first := by
      rw [FlashTransfers.covers_range]
      simp [marked, CodeChunk.last]
    have hmark : bytes[r.first]? = some 1 := by
      rw [hplaced.getElem? hmem hcovers]
      simp [marked]
    have hinside : r.first < n := by
      have := (htiles.covered r.first).mpr
        ⟨r, by rw [hsplit]; simp, Ranges.covers_first hlength⟩
      exact this.2
    have hshort : ∀ c ∈ markedAmong before r after, c.data.length < 4294967296 := by
      intro c hc
      have hrange : c.range ∈ rs := hranges ▸ List.mem_map_of_mem hc
      by_cases hnil : c.data = []
      · rw [hnil]
        exact Nat.zero_lt_succ _
      · have := last_le (hranges.symm ▸ htiles) hc hnil
        unfold CodeChunk.last at this
        unfold sectorSize at hroom
        omega
    obtain ⟨v, hstored, himage⟩ := file_stored hwilling (name ++ 0 :: rest) hshort
    rw [hstored] at hfile
    cases hfile
    rw [himage] at hcode
    cases hcode
    rw [flatten_markedAmong] at hsame
    rw [← hsame, List.getElem?_take_of_lt hinside,
      UnixStore.image_getElem? _ (by unfold UnixStore.maxSize; unfold sectorSize at hroom; omega),
      Option.some.injEq] at hmark
    rw [Nat.zero_add]
    exact mark_unique hmark
  · intro hasc chunks hranges
    subst hranges
    exact stored_in_order hhal hcalls hname hroom hwilling htiles
      (fun c hc => hoffset c.range (List.mem_map_of_mem hc)) hasc

def emptyFlash : FlashStore.Store := ⟨fun _ => 0, fun _ => true, [], FlashStore.startMetadata []⟩

theorem noFile_willing : Willing noFile := fun _ => ⟨_, rfl, Nat.le_refl _⟩

/-- The last byte comes first. -/
def swapped : List CodeChunk := [⟨1, [2]⟩, ⟨0, [1]⟩]

theorem swapped_tiles : Tiles 0 2 (ranges swapped) := by
  constructor
  · refine List.pairwise_cons.mpr ⟨?_, List.pairwise_singleton _ _⟩
    intro d hd i hi hcovers
    rw [List.mem_singleton.mp hd, FlashTransfers.covers_range] at hcovers
    rw [FlashTransfers.covers_range] at hi
    simp only [CodeChunk.last, List.length_cons, List.length_nil] at hi hcovers
    omega
  · intro i
    simp [swapped, ranges, CodeChunk.range, Range.Covers]
    omega

theorem swapped_on_both_ports :
    (∀ chunks, ranges chunks = ranges swapped →
      StoredAlike (CString.ascii "a") [] 2 emptyFlash noFile chunks) ↔
        Ascending (ranges swapped) := by
  apply ports_agree_iff_ascending
  · exact fun _ => rfl
  · rfl
  · exact noFile_willing
  · decide
  · decide
  · exact swapped_tiles
  · decide

/-- Every call succeeds on both ports, and one of them has the bytes the other way round. -/
theorem swapped_chunks_differ :
    Tiles 0 2 (ranges swapped) ∧ Willing noFile ∧
      (∃ t p, storeFirmware FlashStore.platform (CString.ascii "a" ++ [0]) swapped emptyFlash =
          some t ∧
        FlashStore.firmwarePlatformGetCode t.flash = some p ∧ bytesAt t.flash p 2 = [1, 2]) ∧
      (∃ u code, storeFirmware UnixStore.platform (CString.ascii "a" ++ [0]) swapped noFile =
          some u ∧
        UnixStore.firmwarePlatformGetCode true true u = some code ∧ code.take 2 = [2, 1]) ∧
      ¬ StoredAlike (CString.ascii "a") [] 2 emptyFlash noFile swapped := by
  have hflash : ∃ t p,
      storeFirmware FlashStore.platform (CString.ascii "a" ++ [0]) swapped emptyFlash = some t ∧
        FlashStore.firmwarePlatformGetCode t.flash = some p ∧ Placed swapped (bytesAt t.flash p 2) :=
    flash_placed (fun _ => rfl) rfl (by decide) (by decide) swapped_tiles (by decide)
  have honly : ∀ bytes : List UInt8, bytes.length = 2 → Placed swapped bytes → bytes = [1, 2] := by
    intro bytes hlength hplaced
    have hright : Placed swapped [1, 2] := by
      unfold Placed
      decide
    exact hplaced.unique hright swapped_tiles hlength rfl
  have hbyte : ∀ c ∈ swapped, c.data.length < 4294967296 := by decide
  obtain ⟨u, hfile, hcode⟩ := file_stored noFile_willing (CString.ascii "a" ++ [0]) hbyte
  have hshort : ([2, 1] : List UInt8).length ≤ UnixStore.maxSize := by decide
  have hread : (UnixStore.image [2, 1]).take 2 = [2, 1] := take_image hshort
  refine ⟨swapped_tiles, noFile_willing, ?_, ⟨u, _, hfile, hcode, hread⟩, ?_⟩
  · obtain ⟨t, p, hstored, hpointer, hplaced⟩ := hflash
    exact ⟨t, p, hstored, hpointer, honly _ (NorFlash.length_bytesAt t.flash p 2) hplaced⟩
  · intro ⟨bytes, t, v, p, code, hlength, hplaced, _, _, _, hstored, hpointer, hsame⟩
    rw [hfile] at hstored
    cases hstored
    rw [hcode] at hpointer
    cases hpointer
    have hdata : (swapped.map CodeChunk.data).flatten = [2, 1] := rfl
    rw [hdata, hread] at hsame
    have := honly bytes hlength hplaced
    rw [← hsame] at this
    exact absurd this (by decide)

end JsEmbeddedPlatform.PortAgreement
