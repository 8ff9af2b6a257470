import JsEmbeddedPlatform.PortAgreement
import JsEmbeddedPlatform.Transfers

/-!
# Code of unix with its terminator

What `duk_eval_string` gets after a transfer to unix. The check of the size counts chunks and
the file that is written is one byte longer than the file that is served: of the files that
pass the check those of `MAX_SIZE` bytes leave no room for the NUL.
-/

set_option autoImplicit false

namespace JsEmbeddedPlatform.UnixCode

open Downloader (firmwareSucc firmwareDownloaderSucc chunkSize firmUri freshHeap)
open Delivery (chunkCount)
open FileChunks (chunkBytes length_chunkBytes_le)
open Transfers
open PortAgreement (Willing)
open UnixStore (noFile maxSize image firmwarePlatformGetCode)

section Store
variable {file name : List UInt8} {k : Nat}

/-- The file after `k` chunks. -/
def Appended (file : List UInt8) (k : Nat) (s : UnixStore.Store) : Prop :=
  s.file = some ((text file).take (k * chunkSize))

theorem writeCodeChunk_appends {data rest : List UInt8} {offset : Nat} {s t : UnixStore.Store}
    {written : List UInt8} (hfile : s.file = some written)
    (hwrite : UnixStore.platform.writeCodeChunk (data ++ rest) offset data.length s =
      (firmwareSucc, t)) : t.file = some (written ++ data) := by
  obtain ⟨bytes, _, happended, hall⟩ :=
    UnixStore.writeCodeChunk_file (data ++ rest) offset data.length s
  have hplatform : UnixStore.firmwarePlatformWriteCodeChunk (data ++ rest) offset data.length s =
      (firmwareSucc, t) := hwrite
  rw [hplatform] at happended hall
  rw [hall rfl, List.take_left, hfile] at happended
  exact happended

theorem file_stores (file name : List UInt8) (before : UnixStore.Store) :
    Stores UnixStore.platform file name before (Appended file) := by
  constructor
  · intro rest s hstart
    rcases UnixStore.writeStart_file (name ++ 0 :: rest) before with ⟨_, hfile⟩ | ⟨hfails, _⟩
    · have hplatform : UnixStore.firmwarePlatformWriteStart (name ++ 0 :: rest) before =
          (firmwareSucc, s) := hstart
      rw [hplatform] at hfile
      exact hfile
    · exact absurd (congrArg Prod.fst hstart) hfails
  · intro k rest s t hstored hwrite
    have happended := writeCodeChunk_appends hstored hwrite
    rwa [Delivery.take_full] at happended

/-- The file is open, and what is written to it is written as a whole. -/
structure Ready (file : List UInt8) (k : Nat) (s : UnixStore.Store) : Prop where
  appended : Appended file k s
  opened : s.writeFd = true
  willing : Willing s

theorem willing_starts {before : UnixStore.Store} (h : Willing before) (name : List UInt8) :
    ∃ s, UnixStore.platform.writeStart name before = (firmwareSucc, s) ∧ s.writeFd = true ∧
      Willing s := by
  obtain ⟨m, hresult, _⟩ := h before.calls
  refine ⟨{ before with file := some [], writeFd := true, calls := before.calls + 1 }, ?_, rfl, h⟩
  unfold UnixStore.platform UnixStore.firmwarePlatformWriteStart
  simp only [hresult]

theorem willing_writes {s : UnixStore.Store} (hopened : s.writeFd = true) (h : Willing s)
    {data : List UInt8} (hdata : data.length < 4294967296) (rest : List UInt8) (offset : Nat) :
    ∃ t, UnixStore.platform.writeCodeChunk (data ++ rest) offset data.length s =
      (firmwareSucc, t) ∧ t.writeFd = true ∧ Willing t := by
  obtain ⟨m, hresult, hm⟩ := h s.calls
  have hall : ((data ++ rest).take data.length).take m = data := by
    rw [List.take_left, List.take_of_length_le (by omega)]
  refine ⟨{ s with file := s.file.map (· ++ data), calls := s.calls + 1 }, ?_, hopened, h⟩
  unfold UnixStore.platform UnixStore.firmwarePlatformWriteCodeChunk
  simp only [if_pos hopened, hresult, hall, if_true]

theorem length_textChunk_lt (file : List UInt8) (k : Nat) :
    (chunkBytes chunkSize (text file) k).length < 4294967296 :=
  Nat.lt_of_le_of_lt (length_chunkBytes_le chunkSize (text file) k) (by decide)

theorem ready_stores {before : UnixStore.Store} (h : Willing before) (file name : List UInt8) :
    Stores UnixStore.platform file name before (Ready file) := by
  have appends := file_stores file name before
  constructor
  · intro rest s hstart
    obtain ⟨t, ht, hopened, hwilling⟩ := willing_starts h (name ++ 0 :: rest)
    obtain rfl : t = s := congrArg Prod.snd (ht.symm.trans hstart)
    exact ⟨appends.start rest t hstart, hopened, hwilling⟩
  · intro k rest s t hready hwrite
    obtain ⟨u, hu, hopened, hwilling⟩ := willing_writes hready.opened hready.willing
      (length_textChunk_lt file k) rest (k * chunkSize)
    obtain rfl : u = t := congrArg Prod.snd (hu.symm.trans hwrite)
    exact ⟨appends.chunk k rest s u hready.appended hwrite, hopened, hwilling⟩

theorem willing_smooth {outcome : Nat → Bool} (hall : ∀ n, outcome n = true)
    {before : UnixStore.Store} (h : Willing before) (file name : List UInt8) :
    Smooth UnixStore.platform outcome file name before (Ready file) := by
  refine ⟨hall, ?_, ?_, fun _ _ _ => rfl⟩
  · intro rest
    obtain ⟨t, ht, _⟩ := willing_starts h (name ++ 0 :: rest)
    rw [ht]
  · intro k rest s hready
    obtain ⟨t, ht, _⟩ := willing_writes hready.opened hready.willing (length_textChunk_lt file k)
      rest (k * chunkSize)
    rw [ht]

end Store

/-! ## What is read back -/

/-- The code that is handed out has the bytes of the file and a NUL behind them. -/
def Terminated (file : List UInt8) (s : UnixStore.Store) : Prop :=
  ∃ code, firmwarePlatformGetCode true true s = some code ∧ text file <+: code

/-- The array has room for what the file holds, or the NUL is cut off. -/
theorem text_prefix_image_iff (file : List UInt8) :
    text file <+: image (text file) ↔ file.length < maxSize := by
  have hlength : (text file).length = file.length + 1 := by
    unfold text
    rw [List.length_append, List.length_singleton]
  constructor
  · intro h
    have hle := h.length_le
    rw [UnixStore.length_image] at hle
    omega
  · intro h
    have htake : (image (text file)).take (text file).length = text file :=
      PortAgreement.take_image (by omega)
    exact List.prefix_iff_eq_take.mpr htake.symm

/-- Without room for the NUL the array has the bytes of the file and nothing else. -/
theorem image_text_full {file : List UInt8} (h : file.length = maxSize) :
    image (text file) = file := by
  unfold image text
  rw [List.take_left' h, List.length_append, List.length_singleton, h, Nat.sub_eq_zero_of_le
    (Nat.le_succ _), List.replicate_zero, List.append_nil]

/-- The check lets exactly the files through that are not larger than the array. -/
theorem check_iff (fileBytes : Nat) :
    chunkCount fileBytes * chunkSize ≤ maxSize ↔ fileBytes ≤ maxSize := by
  unfold chunkCount Uploader.fileBytesAligned Uploader.ceilDiv chunkSize
    Downloader.chunkMultiplier maxSize
  omega

theorem announced_of_check {file name : List UInt8}
    (hcheck : chunkCount file.length * chunkSize ≤ maxSize)
    (hname : 4 + (name ++ [0]).length ≤ Downloader.bufferSize) :
    Announced UnixStore.platform file name := by
  refine ⟨?_, hcheck, hname⟩
  unfold chunkSize maxSize at hcheck
  omega

section Result
variable {outcome : Nat → Bool} {uri heap file name : List UInt8} {before : UnixStore.Store}
  {events : List Delivery.Event} {last : System UnixStore.Store} {outs : List Unit}

/-- After success the file holds what was served and a NUL. -/
theorem returned_holds_text (hcheck : chunkCount file.length * chunkSize ≤ maxSize)
    (hname : 4 + (name ++ [0]).length ≤ Downloader.bufferSize)
    (hrun : Runs.run (step UnixStore.platform outcome)
      (initial .unix UnixStore.platform outcome uri heap before file name) events =
        some (last, outs))
    (hreturned : last.device.phase = .returned firmwareDownloaderSucc) :
    last.device.store.file = some (text file) := by
  obtain ⟨u, hstored, hstore⟩ := returned_is_stored (announced_of_check hcheck hname)
    (file_stores file name before) hrun hreturned
  have hfile : u.file = some (text file) := by
    rw [← text_complete file]
    exact hstored
  rw [hstore]
  exact hfile

theorem code_terminated_iff (outcome : Nat → Bool) (uri heap file name : List UInt8)
    (before : UnixStore.Store) (events : List Delivery.Event) (last : System UnixStore.Store)
    (outs : List Unit) (hcheck : chunkCount file.length * chunkSize ≤ maxSize)
    (hname : 4 + (name ++ [0]).length ≤ Downloader.bufferSize)
    (hrun : Runs.run (step UnixStore.platform outcome)
      (initial .unix UnixStore.platform outcome uri heap before file name) events =
        some (last, outs))
    (hreturned : last.device.phase = .returned firmwareDownloaderSucc) :
    Terminated file last.device.store ↔ file.length < maxSize := by
  have hfile := returned_holds_text hcheck hname hrun hreturned
  rw [← text_prefix_image_iff]
  unfold Terminated firmwarePlatformGetCode
  rw [hfile]
  constructor
  · rintro ⟨code, hcode, hprefix⟩
    cases hcode
    exact hprefix
  · intro hprefix
    exact ⟨_, rfl, hprefix⟩

/-- Every file that passes the check is transferred when no call fails. -/
theorem transfer_succeeds (file name heap : List UInt8) {before : UnixStore.Store}
    (hcheck : chunkCount file.length * chunkSize ≤ maxSize)
    (hname : 4 + (name ++ [0]).length ≤ Downloader.bufferSize) (hwilling : Willing before) :
    ∃ events last outs, Runs.run (step UnixStore.platform fun _ => true)
        (initial .unix UnixStore.platform (fun _ => true) firmUri heap before file name)
          events = some (last, outs) ∧
      last.device.phase = .returned firmwareDownloaderSucc :=
  transfer_returns (announced_of_check hcheck hname) (ready_stores hwilling file name)
    (willing_smooth (fun _ => rfl) hwilling file name) (by decide) (by decide) heap

end Result

/-- The file `a` holds `1`. -/
theorem one_byte_terminated :
    ∃ events last outs, Runs.run (step UnixStore.platform fun _ => true)
        (initial .unix UnixStore.platform (fun _ => true) firmUri freshHeap
          noFile [49] [97]) events = some (last, outs) ∧
      last.device.phase = .returned firmwareDownloaderSucc ∧
      Terminated [49] last.device.store := by
  obtain ⟨events, last, outs, hrun, hreturned⟩ := transfer_succeeds [49] [97] freshHeap
    (by decide) (by decide) PortAgreement.noFile_willing
  exact ⟨events, last, outs, hrun, hreturned,
    (code_terminated_iff _ _ _ _ _ _ _ _ _ (by decide) (by decide) hrun hreturned).mpr (by decide)⟩

/-- A file as large as the array is transferred with success and leaves no NUL in it. -/
theorem full_file_unterminated :
    ∃ events last outs code, Runs.run (step UnixStore.platform fun _ => true)
        (initial .unix UnixStore.platform (fun _ => true) firmUri freshHeap
          noFile (List.replicate maxSize 49) [97]) events = some (last, outs) ∧
      last.device.phase = .returned firmwareDownloaderSucc ∧
      firmwarePlatformGetCode true true last.device.store = some code ∧
      0 ∉ code ∧ ¬ Terminated (List.replicate maxSize 49) last.device.store := by
  have hlength : (List.replicate maxSize (49 : UInt8)).length = maxSize := List.length_replicate
  have hcheck : chunkCount (List.replicate maxSize (49 : UInt8)).length * chunkSize ≤ maxSize := by
    rw [check_iff, hlength]
  have hname : 4 + ([97] ++ [0] : List UInt8).length ≤ Downloader.bufferSize := by decide
  obtain ⟨events, last, outs, hrun, hreturned⟩ :=
    transfer_succeeds _ [97] freshHeap hcheck hname PortAgreement.noFile_willing
  have hfile := returned_holds_text hcheck hname hrun hreturned
  have hcode : firmwarePlatformGetCode true true last.device.store =
      some (List.replicate maxSize 49) := by
    unfold firmwarePlatformGetCode
    rw [hfile]
    exact congrArg some (image_text_full hlength)
  refine ⟨events, last, outs, _, hrun, hreturned, hcode, ?_, ?_⟩
  · intro hmem
    have hone : (0 : UInt8) = 49 := List.eq_of_mem_replicate hmem
    exact absurd hone (by decide)
  · rintro ⟨code, hsome, hprefix⟩
    rw [hcode] at hsome
    cases hsome
    have hle := hprefix.length_le
    unfold text at hle
    rw [List.length_append, List.length_singleton] at hle
    omega

end JsEmbeddedPlatform.UnixCode
