import JsEmbeddedPlatform.Downloader

/-!
# Firmware in a file

`platform/firmware.c` of unix. The file `firmware` is emptied when a transfer starts and
what is written is appended to it; the offset of a chunk is not looked at. Code is read
into an array of `MAX_SIZE` bytes.
-/

set_option autoImplicit false

namespace JsEmbeddedPlatform.UnixStore

open Downloader (FirmwarePlatform firmwareSucc firmwareWriteErr)

def maxSize : Nat := 1024 * 1024

/-- `file` is what the file holds, if there is one, `writeFd` says that `write_fd` is not -1.
`result n` is what call number `n` of `open` or `write` returns, `none` standing for -1; `write`
has then written that many bytes, or all if there are fewer. -/
structure Store where
  file : Option (List UInt8)
  writeFd : Bool
  result : Nat → Option Nat
  calls : Nat

/-- There is no file yet, and no call fails. -/
def noFile : Store := ⟨none, false, fun _ => some 4294967296, 0⟩

def firmwarePlatformWriteStart (_name : List UInt8) (s : Store) : UInt8 × Store :=
  match s.result s.calls with
  | none => (firmwareWriteErr, { s with writeFd := false, calls := s.calls + 1 })
  | some _ =>
    (firmwareSucc, { s with file := some [], writeFd := true, calls := s.calls + 1 })

def firmwarePlatformWriteCodeChunk (data : List UInt8) (_offset length : Nat) (s : Store) :
    UInt8 × Store :=
  if s.writeFd then
    match s.result s.calls with
    | none => (firmwareWriteErr, { s with writeFd := false, calls := s.calls + 1 })
    | some n =>
      let written := (data.take length).take n
      let s := { s with file := s.file.map (· ++ written), calls := s.calls + 1 }
      if written.length = length then (firmwareSucc, s)
      else (firmwareWriteErr, { s with writeFd := false })
  else (firmwareWriteErr, s)

def firmwarePlatformWriteFinish (s : Store) : UInt8 × Store :=
  (firmwareSucc, { s with writeFd := false })

def platform : FirmwarePlatform Store where
  writeStart := firmwarePlatformWriteStart
  writeCodeChunk := firmwarePlatformWriteCodeChunk
  writeFinish := firmwarePlatformWriteFinish
  writeCleanup s := { s with writeFd := false }
  maxMemory := maxSize

/-- The array `code` after `memset` and `read`. -/
def image (file : List UInt8) : List UInt8 :=
  file.take maxSize ++ List.replicate (maxSize - file.length) 0

/-- The array that the pointer leads to; `opened` and `ok` are the outcomes of `open` and `read`. -/
def firmwarePlatformGetCode (opened ok : Bool) (s : Store) : Option (List UInt8) :=
  match s.file with
  | none => none
  | some file => if opened && ok then some (image file) else none

theorem image_getElem? (file : List UInt8) {i : Nat} (h : i < maxSize) :
    (image file)[i]? = some (file.getD i 0) := by
  unfold image
  rw [List.getD_eq_getElem?_getD]
  by_cases hi : i < file.length
  · rw [List.getElem?_append_left (by rw [List.length_take]; omega), List.getElem?_take_of_lt h]
    simp [hi]
  · rw [List.getElem?_append_right (by rw [List.length_take]; omega),
      List.getElem?_replicate, List.length_take, if_pos (by omega)]
    simp [hi]

@[simp] theorem length_image (file : List UInt8) : (image file).length = maxSize := by
  unfold image
  rw [List.length_append, List.length_take, List.length_replicate]
  omega

/-- Two files that differ in NULs at the end alone, or behind the array, are read alike. -/
theorem image_eq_iff (a b : List UInt8) :
    image a = image b ↔ ∀ i < maxSize, a.getD i 0 = b.getD i 0 := by
  constructor
  · intro h i hi
    have := congrArg (·[i]?) h
    simp only [image_getElem? _ hi, Option.some.injEq] at this
    exact this
  · intro h
    apply List.ext_getElem?
    intro i
    by_cases hi : i < maxSize
    · rw [image_getElem? a hi, image_getElem? b hi, h i hi]
    · rw [List.getElem?_eq_none (by rw [length_image]; omega),
        List.getElem?_eq_none (by rw [length_image]; omega)]

theorem writeStart_file (name : List UInt8) (s : Store) :
    ((firmwarePlatformWriteStart name s).1 = firmwareSucc ∧
        (firmwarePlatformWriteStart name s).2.file = some []) ∨
      ((firmwarePlatformWriteStart name s).1 ≠ firmwareSucc ∧
        (firmwarePlatformWriteStart name s).2.file = s.file) := by
  unfold firmwarePlatformWriteStart
  split
  · exact Or.inr ⟨by simp [firmwareWriteErr, firmwareSucc], rfl⟩
  · exact Or.inl ⟨rfl, rfl⟩

/-- A chunk is appended as a whole when the call succeeds, in part or not at all when it fails. -/
theorem writeCodeChunk_file (data : List UInt8) (offset length : Nat) (s : Store) :
    ∃ written, written <+: data.take length ∧
      (firmwarePlatformWriteCodeChunk data offset length s).2.file =
        s.file.map (· ++ written) ∧
      ((firmwarePlatformWriteCodeChunk data offset length s).1 = firmwareSucc →
        written = data.take length) := by
  have same : ∀ file : Option (List UInt8), file = file.map (· ++ []) := by
    intro file
    cases file <;> simp
  have failed : firmwareWriteErr ≠ firmwareSucc := by decide
  unfold firmwarePlatformWriteCodeChunk
  split
  · split
    · exact ⟨[], List.nil_prefix, same s.file, fun h => absurd h failed⟩
    · next n _ =>
      refine ⟨(data.take length).take n, List.take_prefix _ _, ?_⟩
      simp only
      split
      · next hlength =>
        refine ⟨rfl, fun _ => ?_⟩
        apply (List.take_prefix n _).eq_of_length
        rw [hlength, List.length_take]
        rw [List.length_take, List.length_take] at hlength
        omega
      · exact ⟨rfl, fun h => absurd h failed⟩
  · exact ⟨[], List.nil_prefix, same s.file, fun h => absurd h failed⟩

end JsEmbeddedPlatform.UnixStore
