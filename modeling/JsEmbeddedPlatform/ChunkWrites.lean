import JsEmbeddedPlatform.FlashStore

/-!
# Writing at any offset

`firmware_platform_write_code_chunk` of stm32 takes an offset and a length of 32 bits each. The
end of the code and the end of the loop are computed in `uint32_t`, one after the other: both may
wrap, and a loop whose end has wrapped programs nothing and reports success.
-/

set_option autoImplicit false

namespace JsEmbeddedPlatform.ChunkWrites

open Downloader (firmwareSucc)
open FlashStore

/-- The arguments of a call. -/
structure CodeWrite where
  data : List UInt8
  offset : Nat
  length : Nat
  offset_lt : offset < 4294967296
  length_lt : length < 4294967296

/-- `offset + length`, not wrapped. -/
def CodeWrite.finish (c : CodeWrite) : Nat := c.offset + c.length

def CodeWrite.call (c : CodeWrite) (s : Store) : UInt8 × Store :=
  firmwarePlatformWriteCodeChunk c.data c.offset c.length s

def afterWrites (s : Store) (calls : List CodeWrite) : Store :=
  calls.foldl (fun s c => (c.call s).2) s

/-- What the call adds to the log has each byte at its place. -/
def Programmed (s : Store) (c : CodeWrite) : Prop :=
  ∃ made, (c.call s).2.calls = s.calls ++ made ∧ ∀ i < c.length,
    (HalCall.program .code (s.writeMetadata.codePtr + c.offset + i) (c.data.getD i 0), true) ∈ made

def greatest (least : Nat) (ends : List Nat) : Nat := ends.foldl max least

/-- A call that reports success is complete, wherever it stands in the sequence, and the length of
the code is the greatest end there has been. -/
def CompleteWrites (s : Store) (calls : List CodeWrite) : Prop :=
  (∀ earlier c later, calls = earlier ++ c :: later →
    (c.call (afterWrites s earlier)).1 = firmwareSucc → Programmed (afterWrites s earlier) c) ∧
  (afterWrites s calls).writeMetadata.codeLen =
    greatest s.writeMetadata.codeLen (calls.map CodeWrite.finish)

/-- Neither sum of the call wraps. Without a byte to write there is one sum only. -/
def Unwrapped (m : Metadata) (c : CodeWrite) : Prop :=
  c.finish < 4294967296 ∧ (c.length = 0 ∨ m.codePtr + c.finish < 4294967296)

instance (m : Metadata) (c : CodeWrite) : Decidable (Unwrapped m c) :=
  inferInstanceAs (Decidable (_ ∧ _))

/-! ## The greatest end -/

section Greatest
variable {least : Nat} {ends : List Nat}

theorem least_le_greatest (least : Nat) (ends : List Nat) : least ≤ greatest least ends := by
  unfold greatest
  induction ends generalizing least with
  | nil => exact Nat.le_refl _
  | cons n ends ih => exact Nat.le_trans (Nat.le_max_left _ _) (ih (max least n))

theorem le_greatest {n : Nat} (hn : n ∈ ends) : n ≤ greatest least ends := by
  induction ends generalizing least with
  | nil => cases hn
  | cons k ends ih =>
    rcases List.mem_cons.mp hn with rfl | hn
    · exact Nat.le_trans (Nat.le_max_right _ _) (least_le_greatest (max least n) ends)
    · exact ih hn

theorem greatest_lt {bound : Nat} (hleast : least < bound) (hends : ∀ n ∈ ends, n < bound) :
    greatest least ends < bound := by
  induction ends generalizing least with
  | nil => exact hleast
  | cons n ends ih =>
    apply ih
    · exact Nat.max_lt.mpr ⟨hleast, hends n List.mem_cons_self⟩
    · intro k hk
      exact hends k (List.mem_cons_of_mem _ hk)

/-- A maximum taken of wrapped numbers is the right one only if none of them has wrapped. -/
theorem greatest_wrapped_iff (hleast : least < 4294967296) :
    greatest least (ends.map u32) = greatest least ends ↔ ∀ n ∈ ends, n < 4294967296 := by
  have hwrapped : greatest least (ends.map u32) < 4294967296 := by
    apply greatest_lt hleast
    intro n hn
    obtain ⟨k, _, rfl⟩ := List.mem_map.mp hn
    exact Nat.mod_lt _ (by omega)
  constructor
  · intro heq n hn
    have hle : n ≤ greatest least ends := le_greatest hn
    omega
  · intro hends
    have hsame : ends.map u32 = ends := by
      conv => rhs; rw [← List.map_id ends]
      apply List.map_congr_left
      intro n hn
      exact Nat.mod_eq_of_lt (hends n hn)
    rw [hsame]

end Greatest

/-! ## One call and a sequence -/

section Calls
variable {s : Store} {c : CodeWrite}

theorem writeAll_writeMetadata (calls : List HalCall) (s : Store) :
    (writeAll calls s).2.writeMetadata = s.writeMetadata := by
  rcases writeAll_cases calls s with heq | ⟨_, _, _, _, heq⟩ <;> rw [heq] <;> rfl

theorem writeAll_hal (calls : List HalCall) (s : Store) : (writeAll calls s).2.hal = s.hal := by
  rcases writeAll_cases calls s with heq | ⟨_, _, _, _, heq⟩ <;> rw [heq] <;> rfl

/-- Also a call that fails has raised the length. -/
theorem call_writeMetadata (c : CodeWrite) (s : Store) :
    (c.call s).2.writeMetadata =
      { s.writeMetadata with codeLen := max s.writeMetadata.codeLen (u32 c.finish) } :=
  (writeAll_writeMetadata _ _).trans (growCodeLen_eq _ _ _)

theorem call_hal (c : CodeWrite) (s : Store) : (c.call s).2.hal = s.hal :=
  writeAll_hal _ _

theorem afterWrites_writeMetadata (s : Store) (calls : List CodeWrite) :
    (afterWrites s calls).writeMetadata = { s.writeMetadata with
      codeLen := greatest s.writeMetadata.codeLen ((calls.map CodeWrite.finish).map u32) } := by
  induction calls generalizing s with
  | nil => rfl
  | cons c calls ih =>
    unfold afterWrites at ih ⊢
    rw [List.foldl_cons, ih, call_writeMetadata]
    rfl

theorem afterWrites_codePtr (s : Store) (calls : List CodeWrite) :
    (afterWrites s calls).writeMetadata.codePtr = s.writeMetadata.codePtr := by
  rw [afterWrites_writeMetadata]

theorem afterWrites_hal (s : Store) (calls : List CodeWrite) :
    (afterWrites s calls).hal = s.hal := by
  induction calls generalizing s with
  | nil => rfl
  | cons c calls ih =>
    unfold afterWrites at ih ⊢
    rw [List.foldl_cons, ih, call_hal]

/-- Where no sum wraps, a call that succeeds has programmed the bytes one after the other. -/
theorem programmed_of_unwrapped (h : Unwrapped s.writeMetadata c)
    (hsucc : (c.call s).1 = firmwareSucc) : Programmed s c := by
  rcases writeCodeChunk_cases c.data c.offset c.length s with heq | ⟨res, made, m, hne, _, heq⟩
  · refine ⟨succeeded (codeCalls c.data c.offset c.length s.writeMetadata), ?_, ?_⟩
    · unfold CodeWrite.call
      rw [heq]
      rfl
    · intro i hi
      have hend : s.writeMetadata.codePtr + c.offset + c.length < 4294967296 := by
        have := h.2
        unfold CodeWrite.finish at this
        omega
      rw [codeCalls_eq c.length_lt (by omega), if_pos hend]
      exact List.mem_map.mpr ⟨_, mem_burst.mpr ⟨i, hi, rfl⟩, rfl⟩
  · unfold CodeWrite.call at hsucc
    rw [heq] at hsucc
    exact absurd hsucc hne

/-- The addresses of the loop are addresses of 32 bits. -/
theorem codeCalls_address {data : List UInt8} {offset length address : Nat} {m : Metadata}
    {value : UInt8} (h : HalCall.program .code address value ∈ codeCalls data offset length m) :
    address < u32 (u32 (m.codePtr + offset) + length) := by
  obtain ⟨i, hi, heq⟩ := mem_burst.mp h
  injection heq with _ haddress
  omega

/-- The last byte of a complete call has an address below the end of the loop. -/
theorem fits_of_programmed (hall : ∀ n, s.hal n = true) (hwrote : Programmed s c) :
    c.length = 0 ∨ s.writeMetadata.codePtr + c.finish < 4294967296 := by
  rcases Nat.eq_zero_or_pos c.length with hzero | hpos
  · exact Or.inl hzero
  · right
    obtain ⟨made, hmade, hbytes⟩ := hwrote
    unfold CodeWrite.call at hmade
    rw [writeCodeChunk_all hall] at hmade
    have hsame := List.append_cancel_left hmade
    have hmem := hbytes (c.length - 1) (by omega)
    rw [← hsame] at hmem
    obtain ⟨_, hcall, heq⟩ := List.mem_map.mp hmem
    rw [(Prod.mk.inj heq).1] at hcall
    have hlast := codeCalls_address hcall
    have hlt : u32 (u32 (s.writeMetadata.codePtr + c.offset) + c.length) < 4294967296 :=
      Nat.mod_lt _ (by omega)
    unfold CodeWrite.finish
    unfold u32 at hlast hlt
    omega

end Calls

section Exact
variable {s : Store} {calls : List CodeWrite}

theorem codeLen_exact_iff (hlen : s.writeMetadata.codeLen < 4294967296) :
    (afterWrites s calls).writeMetadata.codeLen =
        greatest s.writeMetadata.codeLen (calls.map CodeWrite.finish) ↔
      ∀ c ∈ calls, c.finish < 4294967296 := by
  rw [afterWrites_writeMetadata, greatest_wrapped_iff hlen]
  exact List.forall_mem_map

/-- For whatever the HAL answers, the calls that report success are complete and the length is the
greatest end, when no sum of any call wraps; and not otherwise. -/
theorem complete_writes_iff_unwrapped (s : Store)
    (hlen : s.writeMetadata.codeLen < 4294967296) (calls : List CodeWrite) :
    (∀ hal, CompleteWrites { s with hal := hal } calls) ↔
      ∀ c ∈ calls, Unwrapped s.writeMetadata c := by
  constructor
  · intro h c hc
    obtain ⟨hwrites, hgreatest⟩ := h fun _ => true
    have hends := (codeLen_exact_iff (s := { s with hal := fun _ => true }) hlen).mp hgreatest
    refine ⟨hends c hc, ?_⟩
    obtain ⟨earlier, later, heq⟩ := List.append_of_mem hc
    have hall : ∀ n, (afterWrites { s with hal := fun _ => true } earlier).hal n = true := by
      intro n
      rw [afterWrites_hal]
    have hsucc : (c.call (afterWrites { s with hal := fun _ => true } earlier)).1 =
        firmwareSucc := by
      unfold CodeWrite.call
      rw [writeCodeChunk_all hall]
    have hfits := fits_of_programmed hall (hwrites earlier c later heq hsucc)
    rwa [afterWrites_codePtr] at hfits
  · intro h hal
    constructor
    · intro earlier c later heq hsucc
      have hc : Unwrapped s.writeMetadata c := h c (by simp [heq])
      apply programmed_of_unwrapped _ hsucc
      unfold Unwrapped
      rw [afterWrites_codePtr]
      exact hc
    · apply (codeLen_exact_iff (s := { s with hal := hal }) hlen).mpr
      intro c hc
      exact (h c hc).1

/-- A record as `firmware_platform_write_start` leaves it for a name of eleven letters. -/
def started : Store :=
  ⟨fun _ => 0xFF, fun _ => true, [],
    ⟨firmwareBinaryPreamble, 11, 0, namePtr, namePtr + 12⟩⟩

/-- The first chunk of a `CHUNK` packet that announces 2^32 - 16 bytes: only the loop's end wraps. -/
def overTheEnd : CodeWrite := ⟨[0x61], 0, 0xFFFFFFF0, by decide, by decide⟩

/-- The second chunk with 2^32 - 256 bytes: the sum of offset and length is 2^32 + 256. -/
def overTheLength : CodeWrite := ⟨[0x61], 512, 0xFFFFFF00, by decide, by decide⟩

theorem complete_writes_inside : CompleteWrites started
    [⟨[0x61, 0x62], 0, 2, by decide, by decide⟩, ⟨[0x63], 512, 1, by decide, by decide⟩] :=
  (complete_writes_iff_unwrapped started (by decide) _).mpr (by decide) started.hal

/-- Nothing is programmed by the one, and by the other the code gets a length of 256. -/
theorem wrapped_writes_incomplete :
    (overTheEnd.call started).1 = firmwareSucc ∧ (overTheEnd.call started).2.calls = [] ∧
      ¬ CompleteWrites started [overTheEnd] ∧
      (overTheLength.call started).2.writeMetadata.codeLen = 256 ∧
      ¬ CompleteWrites started [overTheLength] := by
  have hsucc : (overTheEnd.call started).1 = firmwareSucc := by decide
  have hnone : (overTheEnd.call started).2.calls = [] := by decide
  refine ⟨hsucc, hnone, ?_, ?_, ?_⟩
  · rintro ⟨hwrites, _⟩
    obtain ⟨made, hmade, hbytes⟩ := hwrites [] overTheEnd [] rfl hsucc
    have hempty : made = [] := (List.append_eq_nil_iff.mp (hmade.symm.trans hnone)).2
    rw [hempty] at hbytes
    exact List.not_mem_nil (hbytes 0 (by decide))
  · rw [call_writeMetadata]
    decide
  · rintro ⟨_, hgreatest⟩
    rw [afterWrites_writeMetadata] at hgreatest
    revert hgreatest
    decide

end Exact

end JsEmbeddedPlatform.ChunkWrites
