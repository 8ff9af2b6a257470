import JsEmbeddedPlatform.UnixStore
import JsEmbeddedPlatform.Shared.Runs

/-!
# What a packet holds and what is read of it

The downloader looks into its buffer after each `recv`, which has filled as many bytes as
it has returned; behind them is what was there before. The same function with every read
watched: it stops where a byte is read that has not arrived.
-/

set_option autoImplicit false

namespace JsEmbeddedPlatform.PacketBounds

open Downloader
open Timers (Port)

/-! ## Watched reads -/

section Watched
variable {σ : Type} (P : FirmwarePlatform σ) (outcome : Nat → Bool)

/-- `w` bytes from byte `i` on, of which `recvLen` have arrived. -/
def watched {α : Type} (recvLen i w : Nat) (value : α) : Option α :=
  if i + w ≤ recvLen then some value else none

def watchId (recvLen : Nat) (d : Download σ) : Option UInt8 := watched recvLen 0 1 d.id

def watchField (recvLen i w : Nat) (d : Download σ) : Option Nat :=
  watched recvLen i w (d.field i w)

/-- The text from byte `i` on, with its NUL. -/
def watchText (recvLen i : Nat) (d : Download σ) : Option (List UInt8) :=
  let text := CString.text (d.buff.drop i)
  watched recvLen i (text.length + 1) text

def watchDescribe (recvLen : Nat) (d : Download σ) : Option (Download σ) :=
  if recvLen < 2 then some d
  else do
    let id ← watchId recvLen d
    if id ≠ payloadTypeDescription then some d
    else do
      let chunkNum ← watchField recvLen 1 2 d
      if P.maxMemory < chunkNum * chunkSize then some (cleanup P firmwareDownloaderErrMem true d)
      else do
        let _ ← watchText recvLen 4 d
        let (res, d) := callWriteStart P d
        if res = firmwareSucc then
          some (sendBuffer P outcome 1 { d.put [payloadTypeFlowStart] with phase := .chunks })
        else some (cleanup P firmwareDownloaderErrWrite true d)

def watchChunk (recvLen : Nat) (d : Download σ) : Option (Download σ) := do
  let id ← watchId recvLen d
  if id = payloadTypeFlowEnd then some (finish P d)
  else if 2 < recvLen ∧ id = payloadTypeChunk then do
    let currChunk ← watchField recvLen 1 2 d
    let chunkLen ← watchField recvLen 3 4 d
    let _ ← watched recvLen 7 chunkLen ((d.buff.drop 7).take chunkLen)
    some (writeChunk P outcome currChunk chunkLen d)
  else some d

def watchReceive (d : Download σ) (packet : List UInt8) : Option (Download σ) :=
  let received := packet.take bufferSize
  match d.phase with
  | .description =>
    if received = [] then some (cleanup P firmwareDownloaderErrConn true d)
    else watchDescribe P outcome received.length (d.put received)
  | .chunks =>
    if received = [] then some (cleanup P firmwareDownloaderErrConn true d)
    else watchChunk P outcome received.length (d.put received)
  | _ => some d

def watchReceiveAll (d : Download σ) : List (List UInt8) → Option (Download σ)
  | [] => some d
  | packet :: packets => do
    let d ← watchReceive P outcome d packet
    watchReceiveAll d packets

def watchStart (port : Port) (uri heap : List UInt8) (store : σ) (packets : List (List UInt8)) :
    Option (Download σ) :=
  watchReceiveAll P outcome (start port P outcome uri heap store) packets

end Watched

/-! ## Packets that hold what they announce -/

/-- A field of the packet itself. -/
def header (i w : Nat) (received : List UInt8) : Nat :=
  LittleEndian.decode ((received.drop i).take w)

/-- The number of chunks has arrived and, if the firmware fits, the name with its NUL. -/
def DescriptionHeld (maxMemory : Nat) (received : List UInt8) : Prop :=
  3 ≤ received.length ∧ (header 1 2 received * chunkSize ≤ maxMemory → 0 ∈ received.drop 4)

/-- The header has arrived, and as many bytes as it announces. -/
def ChunkHeld (received : List UInt8) : Prop :=
  7 ≤ received.length ∧ 7 + header 3 4 received ≤ received.length

/-- The condition on a packet, for the loop that receives it. -/
def Held (maxMemory : Nat) : Phase → List UInt8 → Prop
  | .description, received => 2 ≤ received.length → received.head? = some payloadTypeDescription →
      DescriptionHeld maxMemory received
  | .chunks, received => 2 < received.length → received.head? = some payloadTypeChunk →
      ChunkHeld received
  | _, _ => True

def PacketHeld {σ : Type} (P : FirmwarePlatform σ) (d : Download σ) (packet : List UInt8) : Prop :=
  Held P.maxMemory d.phase (packet.take bufferSize)

section Arrivals
variable {σ : Type} {P : FirmwarePlatform σ} {outcome : Nat → Bool} {d : Download σ}
variable {received : List UInt8}

theorem watched_within {α : Type} {recvLen i w : Nat} (h : i + w ≤ recvLen) (value : α) :
    watched recvLen i w value = some value := if_pos h

theorem watched_beyond {α : Type} {recvLen i w : Nat} (h : ¬ i + w ≤ recvLen) (value : α) :
    watched recvLen i w value = none := if_neg h

theorem put_id (h : 0 < received.length) : some (d.put received).id = received.head? := by
  cases received with
  | nil => cases h
  | cons b received => rfl

/-- A field that has arrived is one of the packet. -/
theorem put_field {i w : Nat} (h : i + w ≤ received.length) :
    (d.put received).field i w = header i w received := by
  unfold Download.field header
  rw [put_buff, overwrite, List.drop_append_of_le_length (by omega),
    List.take_append_of_le_length (by rw [List.length_drop]; omega)]

/-- The NUL of the name is among the bytes that have arrived when it is found there. -/
theorem put_text_within {i : Nat} (hle : i ≤ received.length) :
    i + ((CString.text ((d.put received).buff.drop i)).length + 1) ≤ received.length ↔
      0 ∈ received.drop i := by
  rw [put_buff, overwrite, List.drop_append_of_le_length hle]
  constructor
  · intro hwithin
    by_contra hnone
    have hall := CString.text_isPrefix (received.drop i) (d.buff.drop received.length)
    rw [CString.text_eq_self_iff.mpr hnone] at hall
    have := hall.length_le
    rw [List.length_drop] at this
    omega
  · intro hmem
    obtain ⟨before, after, hsplit, hfirst⟩ := List.eq_append_cons_of_mem hmem
    rw [hsplit, List.append_assoc, List.cons_append, CString.text_append_nul hfirst]
    have := congrArg List.length hsplit
    rw [List.length_drop, List.length_append, List.length_cons] at this
    omega

theorem watchId_put (h : 0 < received.length) :
    watchId received.length (d.put received) = received.head? := by
  unfold watchId
  rw [watched_within (by omega), put_id h]

theorem watchField_put {i w : Nat} (h : i + w ≤ received.length) :
    watchField received.length i w (d.put received) = some ((d.put received).field i w) :=
  watched_within h _

theorem watchDescribe_held (h : Held P.maxMemory .description received) :
    watchDescribe P outcome received.length (d.put received) =
      some (describe P outcome received.length (d.put received)) := by
  unfold watchDescribe describe
  by_cases hshort : received.length < 2
  · rw [if_pos hshort, if_pos (Or.inl hshort)]
  · have hid : some (d.put received).id = received.head? := put_id (by omega)
    rw [if_neg hshort, watchId_put (by omega), ← hid]
    simp only [Option.bind_eq_bind, Option.bind_some]
    by_cases hother : (d.put received).id ≠ payloadTypeDescription
    · rw [if_pos hother, if_pos (Or.inr hother)]
    · rw [if_neg hother, if_neg (not_or.mpr ⟨hshort, hother⟩)]
      rw [not_not] at hother
      obtain ⟨hcount, hname⟩ := h (by omega) (by rw [← hid, hother])
      rw [watchField_put hcount, Option.bind_some]
      by_cases hbig : P.maxMemory < (d.put received).field 1 2 * chunkSize
      · rw [if_pos hbig, if_pos hbig]
      · rw [if_neg hbig, if_neg hbig]
        rw [put_field hcount] at hbig
        have hmem := hname (by omega)
        have hfour : 4 ≤ received.length := by
          have := List.length_pos_of_mem hmem
          rw [List.length_drop] at this
          omega
        unfold watchText
        rw [watched_within ((put_text_within hfour).mpr hmem), Option.bind_some]
        split <;> rfl

theorem watchDescribe_lacks (h : ¬ Held P.maxMemory .description received) :
    watchDescribe P outcome received.length (d.put received) = none := by
  obtain ⟨hlength, hrest⟩ := Classical.not_imp.mp h
  obtain ⟨hhead, hlacks⟩ := Classical.not_imp.mp hrest
  have hid : some (d.put received).id = received.head? := put_id (by omega)
  have hdescription : (d.put received).id = payloadTypeDescription := by
    rw [hhead] at hid
    exact Option.some.inj hid
  unfold watchDescribe
  rw [if_neg (by omega), watchId_put (by omega), ← hid]
  simp only [Option.bind_eq_bind, Option.bind_some]
  rw [if_neg (not_not.mpr hdescription)]
  by_cases hcount : 1 + 2 ≤ received.length
  · have hname := fun hheld => hlacks ⟨hcount, hheld⟩
    obtain ⟨hfits, hnone⟩ := Classical.not_imp.mp hname
    rw [watchField_put hcount, Option.bind_some, put_field hcount, if_neg (by omega)]
    have hbeyond : ¬ 4 + ((CString.text ((d.put received).buff.drop 4)).length + 1) ≤
        received.length := by
      intro hwithin
      exact hnone ((put_text_within (by omega)).mp hwithin)
    unfold watchText
    rw [watched_beyond hbeyond, Option.bind_none]
  · unfold watchField
    rw [watched_beyond hcount, Option.bind_none]

theorem watchChunk_held (hsome : received ≠ []) (h : Held P.maxMemory .chunks received) :
    watchChunk P outcome received.length (d.put received) =
      some (receiveChunk P outcome received.length (d.put received)) := by
  have hlength : 0 < received.length := List.length_pos_of_ne_nil hsome
  have hid := put_id (d := d) hlength
  unfold watchChunk receiveChunk
  rw [watchId_put hlength, ← hid]
  simp only [Option.bind_eq_bind, Option.bind_some]
  split
  · rfl
  · split
    · next hchunk =>
      obtain ⟨hheader, hdata⟩ := h hchunk.1 (by rw [← hid, hchunk.2])
      have hfield : (d.put received).field 3 4 = header 3 4 received := put_field hheader
      rw [watchField_put (by omega), watchField_put hheader, Option.bind_some, Option.bind_some,
        watched_within (by omega), Option.bind_some]
    · rfl

theorem watchChunk_lacks (h : ¬ Held P.maxMemory .chunks received) :
    watchChunk P outcome received.length (d.put received) = none := by
  obtain ⟨hlength, hrest⟩ := Classical.not_imp.mp h
  obtain ⟨hhead, hlacks⟩ := Classical.not_imp.mp hrest
  have hid : some (d.put received).id = received.head? := put_id (by omega)
  have hchunk : (d.put received).id = payloadTypeChunk := by
    rw [hhead] at hid
    exact Option.some.inj hid
  unfold watchChunk
  rw [watchId_put (by omega), ← hid]
  simp only [Option.bind_eq_bind, Option.bind_some]
  rw [if_neg (by rw [hchunk]; decide), if_pos ⟨hlength, hchunk⟩, watchField_put (by omega),
    Option.bind_some]
  by_cases hheader : 3 + 4 ≤ received.length
  · have hbeyond : ¬ 7 + (d.put received).field 3 4 ≤ received.length := by
      intro hwithin
      rw [put_field hheader] at hwithin
      exact hlacks ⟨hheader, hwithin⟩
    rw [watchField_put hheader, Option.bind_some, watched_beyond hbeyond, Option.bind_none]
  · unfold watchField
    rw [watched_beyond hheader, Option.bind_none]

/-- A packet that holds what it announces is handled as without the watch. -/
theorem watchReceive_held {packet : List UInt8} (h : PacketHeld P d packet) :
    watchReceive P outcome d packet = some (receive P outcome d packet) := by
  unfold PacketHeld at h
  unfold watchReceive receive
  cases hphase : d.phase with
  | description =>
    rw [hphase] at h
    simp only
    split
    · rfl
    · exact watchDescribe_held h
  | chunks =>
    rw [hphase] at h
    simp only
    split
    · rfl
    · next hsome => exact watchChunk_held hsome h
  | returned res => rfl
  | overrun => rfl

/-- There is always enough of an empty packet. -/
theorem held_nil (maxMemory : Nat) (phase : Phase) : Held maxMemory phase [] := by
  cases phase with
  | description => exact fun hlength => absurd hlength (by decide)
  | chunks => exact fun hlength => absurd hlength (by decide)
  | returned res => trivial
  | overrun => trivial

theorem watchReceive_lacks {packet : List UInt8} (h : ¬ PacketHeld P d packet) :
    watchReceive P outcome d packet = none := by
  unfold PacketHeld at h
  have hsome : packet.take bufferSize ≠ [] := by
    intro hnil
    rw [hnil] at h
    exact h (held_nil _ _)
  unfold watchReceive
  cases hphase : d.phase with
  | description =>
    rw [hphase] at h
    simp only
    rw [if_neg hsome]
    exact watchDescribe_lacks h
  | chunks =>
    rw [hphase] at h
    simp only
    rw [if_neg hsome]
    exact watchChunk_lacks h
  | returned res =>
    rw [hphase] at h
    exact absurd trivial h
  | overrun =>
    rw [hphase] at h
    exact absurd trivial h

/-- The watch ends a run at a packet that does not hold what it announces, and changes nothing
otherwise. -/
theorem watchReceiveAll_cases (P : FirmwarePlatform σ) (outcome : Nat → Bool) (d : Download σ)
    (packets : List (List UInt8)) :
    (Runs.Along (PacketHeld P) (recvStep P outcome) d packets ∧
        watchReceiveAll P outcome d packets = some (receiveAll P outcome d packets)) ∨
      (¬ Runs.Along (PacketHeld P) (recvStep P outcome) d packets ∧
        watchReceiveAll P outcome d packets = none) := by
  induction packets generalizing d with
  | nil => exact Or.inl ⟨trivial, rfl⟩
  | cons packet packets ih =>
    by_cases hheld : PacketHeld P d packet
    · have hwatch : watchReceiveAll P outcome d (packet :: packets) =
          watchReceiveAll P outcome (receive P outcome d packet) packets := by
        rw [watchReceiveAll, watchReceive_held hheld]
        rfl
      rw [hwatch, receiveAll_cons]
      rcases ih (receive P outcome d packet) with ⟨hlater, heq⟩ | ⟨hlater, heq⟩
      · refine Or.inl ⟨⟨hheld, ?_⟩, heq⟩
        intro t o ht
        cases ht
        exact hlater
      · exact Or.inr ⟨fun hmeets => hlater (hmeets.2 _ () rfl), heq⟩
    · right
      refine ⟨fun hmeets => hheld hmeets.1, ?_⟩
      rw [watchReceiveAll, watchReceive_lacks hheld]
      rfl

end Arrivals

/-- Every byte that a run evaluates, passes on as a name or passes on as data has arrived with the
packet, in exactly the runs whose packets hold what they announce. -/
theorem reads_only_received_iff {σ : Type} (port : Port) (P : FirmwarePlatform σ)
    (outcome : Nat → Bool) (uri heap : List UInt8) (store : σ) (packets : List (List UInt8)) :
    watchStart P outcome port uri heap store packets =
        some (firmwareDownloaderStart port P outcome uri heap store packets) ↔
      Runs.Along (PacketHeld P) (recvStep P outcome) (start port P outcome uri heap store)
        packets := by
  unfold watchStart firmwareDownloaderStart
  rcases watchReceiveAll_cases P outcome (start port P outcome uri heap store) packets with
    ⟨hheld, heq⟩ | ⟨hlacks, heq⟩
  · exact ⟨fun _ => hheld, fun _ => heq⟩
  · rw [heq]
    constructor
    · intro h
      cases h
    · intro h
      exact absurd h hlacks

/-- One chunk of 600 bytes is announced, and one byte of it arrives. -/
def overlong : List (List UInt8) :=
  [descriptionPacket 1 1 (CString.ascii "a" ++ [0]), chunkPacket 0 600 [65]]

/-- The allocated block, and what follows it. -/
def memory : List UInt8 := List.replicate 700 1

/-- The chunk is stored all the same: 599 bytes of it have not arrived. -/
theorem overlong_reads_beyond :
    watchStart UnixStore.platform (fun _ => true) .unix firmUri memory
        ⟨none, false, fun _ => some 4294967296, 0⟩ overlong = none ∧
      (firmwareDownloaderStart .unix UnixStore.platform (fun _ => true) firmUri memory
        ⟨none, false, fun _ => some 4294967296, 0⟩ overlong).phase = .chunks ∧
      ((firmwareDownloaderStart .unix UnixStore.platform (fun _ => true) firmUri memory
        ⟨none, false, fun _ => some 4294967296, 0⟩ overlong).store.file.map List.length) =
          some 600 := by
  decide +kernel

end JsEmbeddedPlatform.PacketBounds
