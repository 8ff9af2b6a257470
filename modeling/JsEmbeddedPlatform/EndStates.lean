import JsEmbeddedPlatform.FlashStore
import JsEmbeddedPlatform.UnixStore
import JsEmbeddedPlatform.Shared.Runs

/-!
# How a download ends

What a run of the downloader leaves behind, counted over its calls: the error LED, the
event loops that it has started, the sockets that are open and the blocks that are
allocated. Besides, whether the storage is closed again, which each port says in its own
way.
-/

set_option autoImplicit false

namespace JsEmbeddedPlatform.EndStates

open Downloader
open Timers (Port)
open UnixStore (noFile)

/-! ## The calls of a run -/

structure Ledger where
  errorLed : Bool
  eventloops : Int
  sockets : Int
  blocks : Int
deriving DecidableEq, Repr

def Ledger.enter (l : Ledger) : Event → Ledger
  | .errorLedOff => { l with errorLed := false }
  | .errorLedOn => { l with errorLed := true }
  | .startEventloopThread => { l with eventloops := l.eventloops + 1 }
  | .socket true => { l with sockets := l.sockets + 1 }
  | .close => { l with sockets := l.sockets - 1 }
  | .malloc true => { l with blocks := l.blocks + 1 }
  | .free => { l with blocks := l.blocks - 1 }
  | _ => l

/-- `errorLed` is what the LED was before. -/
def ledger (errorLed : Bool) (trace : List Event) : Ledger :=
  trace.foldl Ledger.enter ⟨errorLed, 0, 0, 0⟩

/-- After a success the event loop has been started once and the LED is off, after a failure it is
the other way round; nothing is left open. -/
def final (res : UInt8) : Ledger := if res = firmwareSucc then ⟨false, 1, 0, 0⟩ else ⟨true, 0, 0, 0⟩

/-- The function has returned, its ledger is in order and the write session is closed. -/
def Orderly {σ : Type} (closed : σ → Bool) (d : Download σ) : Prop :=
  ∃ res, d.phase = .returned res ∧ (∀ errorLed, ledger errorLed d.trace = final res) ∧
    closed d.store = true

def fileClosed (s : UnixStore.Store) : Bool := !s.writeFd

/-- `HAL_FLASH_Lock` always sets the bit. -/
def lockAfter (locked : Bool) : FlashStore.HalCall × Bool → Bool
  | (.unlock, ok) => locked && !ok
  | (.lock, _) => true
  | _ => locked

/-- The flash is locked when the log begins. -/
def flashLocked (s : FlashStore.Store) : Bool := s.calls.foldl lockAfter true

/-! ## The conditions -/

/-- The URI is accepted, its host fits into `ip`, and `socket` and `connect` succeed. -/
def Connects (port : Port) (outcome : Nat → Bool) (uri : List UInt8) : Prop :=
  PackageUri.Accepted (PackageUri.sscanf port uri) ∧
    (PackageUri.sscanf port uri).ip.length < 20 ∧ outcome 2 = true ∧ outcome 3 = true

instance (port : Port) (outcome : Nat → Bool) (uri : List UInt8) :
    Decidable (Connects port outcome uri) :=
  inferInstanceAs (Decidable (_ ∧ _ ∧ _ ∧ _))

/-- The bytes that `recv` has put into the buffer. -/
def arrived {σ : Type} (packet : List UInt8) (d : Download σ) : Download σ :=
  d.put (packet.take bufferSize)

/-- The first loop ends with this packet, and the firmware fits. -/
def Describes {σ : Type} (P : FirmwarePlatform σ) (packet : List UInt8) (d : Download σ) : Prop :=
  2 ≤ (packet.take bufferSize).length ∧ (arrived packet d).id = payloadTypeDescription ∧
    (arrived packet d).field 1 2 * chunkSize ≤ P.maxMemory

instance {σ : Type} (P : FirmwarePlatform σ) (packet : List UInt8) (d : Download σ) :
    Decidable (Describes P packet d) :=
  inferInstanceAs (Decidable (_ ∧ _ ∧ _))

def IsChunk {σ : Type} (packet : List UInt8) (d : Download σ) : Prop :=
  2 < (packet.take bufferSize).length ∧ (arrived packet d).id = payloadTypeChunk

instance {σ : Type} (packet : List UInt8) (d : Download σ) : Decidable (IsChunk packet d) :=
  inferInstanceAs (Decidable (_ ∧ _))

/-- The flash cannot be unlocked, or the start and the answer succeed. -/
def StartKept (outcome : Nat → Bool) (packet : List UInt8) (d : Download FlashStore.Store) : Prop :=
  d.store.hal d.store.calls.length = false ∨
    ((FlashStore.platform.writeStart ((arrived packet d).buff.drop 4) d.store).1 = firmwareSucc ∧
      outcome (d.trace.length + 1) = true)

instance (outcome : Nat → Bool) (packet : List UInt8) (d : Download FlashStore.Store) :
    Decidable (StartKept outcome packet d) :=
  inferInstanceAs (Decidable (_ ∨ (_ ∧ _)))

/-- The connection has not ended, and the chunk or the end of the flow, if it is one, succeeds. -/
def ChunkKept (outcome : Nat → Bool) (packet : List UInt8) (d : Download FlashStore.Store) : Prop :=
  packet ≠ [] ∧
    if (arrived packet d).id = payloadTypeFlowEnd then
      (FlashStore.platform.writeFinish d.store).1 = firmwareSucc
    else IsChunk packet d →
      (FlashStore.platform.writeCodeChunk ((arrived packet d).buff.drop 7)
        ((arrived packet d).field 1 2 * chunkSize) ((arrived packet d).field 3 4) d.store).1 =
          firmwareSucc ∧ outcome (d.trace.length + 1) = true

instance (outcome : Nat → Bool) (packet : List UInt8) (d : Download FlashStore.Store) :
    Decidable (ChunkKept outcome packet d) :=
  inferInstanceAs (Decidable (_ ∧ ite _ _ (_ → _ ∧ _)))

/-- Once the flash is unlocked the connection lasts until the end of the flow, and all calls that are
made succeed. -/
def Kept (outcome : Nat → Bool) (d : Download FlashStore.Store) (packet : List UInt8) : Prop :=
  (d.phase = .description → Describes FlashStore.platform packet d → StartKept outcome packet d) ∧
    (d.phase = .chunks → ChunkKept outcome packet d)

instance (outcome : Nat → Bool) (d : Download FlashStore.Store) (packet : List UInt8) :
    Decidable (Kept outcome d packet) :=
  inferInstanceAs (Decidable (_ ∧ _))

/-! ## The ledger -/

section Ledgers
variable {σ : Type} {P : FirmwarePlatform σ} {outcome : Nat → Bool} {d : Download σ}

theorem ledger_append (errorLed : Bool) (trace more : List Event) :
    ledger errorLed (trace ++ more) = more.foldl Ledger.enter (ledger errorLed trace) :=
  List.foldl_append ..

/-- The socket is open and the buffer allocated. -/
def InHand (d : Download σ) : Prop := ∀ errorLed, ledger errorLed d.trace = ⟨false, 0, 1, 1⟩

/-- The run has gone through the clean-up. -/
structure Settled (P : FirmwarePlatform σ) (d : Download σ) : Prop where
  returned : ∃ res, d.phase = .returned res ∧ ∀ errorLed, ledger errorLed d.trace = final res
  cleaned : ∃ s, d.store = P.writeCleanup s

/-- The run waits in one of the two loops. -/
structure Waiting (d : Download σ) : Prop where
  inHand : InHand d
  loop : d.phase = .description ∨ d.phase = .chunks

theorem InHand.log (h : InHand d) {e : Event} (he : ∀ l, Ledger.enter l e = l) :
    InHand (d.log e) := by
  intro errorLed
  rw [log_trace, ledger_append, h, List.foldl_cons, he]
  rfl

theorem InHand.cleanup (h : InHand d) (res : UInt8) : Settled P (cleanup P res true d) := by
  refine ⟨⟨res, rfl, ?_⟩, ⟨d.store, rfl⟩⟩
  intro errorLed
  unfold Downloader.cleanup final
  simp only [if_true, ledger_append, h errorLed]
  split <;> rfl

theorem InHand.sendBuffer (h : InHand d) (hloop : d.phase = .description ∨ d.phase = .chunks)
    (n : Nat) : Waiting (sendBuffer P outcome n d) ∨ Settled P (sendBuffer P outcome n d) := by
  rcases sendBuffer_cases P outcome n d with heq | heq
  · left
    rw [heq]
    exact ⟨h.log fun _ => rfl, hloop⟩
  · right
    rw [heq]
    exact (h.log fun _ => rfl).cleanup _

theorem describe_ends (h : InHand d) (hphase : d.phase = .description) (recvLen : Nat) :
    Waiting (describe P outcome recvLen d) ∨ Settled P (describe P outcome recvLen d) := by
  unfold describe
  split
  · exact Or.inl ⟨h, Or.inl hphase⟩
  · split
    · exact Or.inr (h.cleanup _)
    · have hstarted : InHand (callWriteStart P d).2 := h.log fun _ => rfl
      simp only
      split
      · apply InHand.sendBuffer
        · exact hstarted
        · exact Or.inr rfl
      · exact Or.inr (hstarted.cleanup _)

theorem receiveChunk_ends (h : InHand d) (hphase : d.phase = .chunks) (recvLen : Nat) :
    Waiting (receiveChunk P outcome recvLen d) ∨ Settled P (receiveChunk P outcome recvLen d) := by
  unfold receiveChunk
  split
  · right
    have hfinished : InHand (callWriteFinish P d).2 := h.log fun _ => rfl
    unfold finish
    simp only
    split
    · exact hfinished.cleanup _
    · exact hfinished.cleanup _
  · split
    · have hwritten : InHand (callWriteCodeChunk P (d.field 1 2 * chunkSize) (d.field 3 4) d).2 :=
        h.log fun _ => rfl
      unfold writeChunk
      simp only
      split
      · apply InHand.sendBuffer
        · exact hwritten
        · exact Or.inr hphase
      · exact Or.inr (hwritten.cleanup _)
    · exact Or.inl ⟨h, Or.inr hphase⟩

/-- A packet keeps the run waiting or settles it. -/
theorem receive_ends (h : Waiting d) (packet : List UInt8) :
    Waiting (receive P outcome d packet) ∨ Settled P (receive P outcome d packet) := by
  unfold receive
  rcases h.loop with hphase | hphase
  · simp only [hphase]
    split
    · exact Or.inr (h.inHand.cleanup _)
    · have harrived : InHand (arrived packet d) := h.inHand
      exact describe_ends harrived hphase _
  · simp only [hphase]
    split
    · exact Or.inr (h.inHand.cleanup _)
    · have harrived : InHand (arrived packet d) := h.inHand
      exact receiveChunk_ends harrived hphase _

theorem receive_closed (h : Waiting d) : Settled P (receive P outcome d []) := by
  unfold receive
  rcases h.loop with hphase | hphase
  · simp only [hphase]
    exact h.inHand.cleanup _
  · simp only [hphase]
    exact h.inHand.cleanup _

theorem Settled.receiveAll (h : Settled P d) (packets : List (List UInt8)) :
    receiveAll P outcome d packets = d := by
  obtain ⟨res, hphase, _⟩ := h.returned
  exact receiveAll_returned hphase packets

/-- When the connection has ended the run is settled. -/
theorem receiveAll_ends (h : Waiting d) (packets : List (List UInt8)) :
    Settled P (receiveAll P outcome d (packets ++ [[]])) := by
  induction packets generalizing d with
  | nil => exact receive_closed h
  | cons packet packets ih =>
    rw [List.cons_append, receiveAll_cons]
    rcases receive_ends h packet with hwaits | hsettled
    · exact ih hwaits
    · rw [hsettled.receiveAll]
      exact hsettled

/-- Up to the first packet: with a connection the run waits, or has been settled for want of memory
or by a failed `send`. -/
theorem start_connected {port : Port} {uri : List UInt8} (h : Connects port outcome uri)
    (heap : List UInt8) (store : σ) :
    (Waiting (start port P outcome uri heap store) ∧
        (start port P outcome uri heap store).phase = .description ∧
        (start port P outcome uri heap store).store = store) ∨
      (Settled P (start port P outcome uri heap store) ∧
        (start port P outcome uri heap store).store = P.writeCleanup store) := by
  obtain ⟨haccepted, hshort, hsocket, hconnect⟩ := h
  rw [start_accepted haccepted hshort]
  generalize PackageUri.sscanf port uri = scanned
  unfold openConnection ask
  simp only [if_true, log_trace, List.length_append, List.length_cons, List.length_nil,
    Nat.zero_add, Nat.reduceAdd, hsocket, hconnect]
  unfold sendRequest ask
  generalize outcome _ = allocated
  cases allocated with
  | true =>
    simp only [if_true]
    have hinHand : InHand (Download.put request (Download.log (.malloc true)
        (Download.log (.connect (InetAddr.inetAddr port scanned.ip) (scanned.port % 65536) true)
          (Download.log (.socket true)
            ⟨.description, heap, store, [.killEventloopThread, .errorLedOff]⟩)))) := fun _ => rfl
    rcases sendBuffer_cases P outcome 2 _ with heq | heq
    · left
      rw [heq]
      exact ⟨⟨hinHand.log fun _ => rfl, Or.inl rfl⟩, rfl, rfl⟩
    · right
      rw [heq]
      exact ⟨(hinHand.log fun _ => rfl).cleanup _, rfl⟩
  | false =>
    right
    refine ⟨⟨⟨_, rfl, ?_⟩, ⟨store, rfl⟩⟩, rfl⟩
    intro errorLed
    rfl

theorem errorLed_socket (l : Ledger) (ok : Bool) :
    (l.enter (.socket ok)).errorLed = l.errorLed := by
  cases ok <;> rfl

/-- Without a connection the run does not return, or it returns an error with the LED off. -/
theorem start_unconnected {port : Port} {uri : List UInt8} (h : ¬ Connects port outcome uri)
    (heap : List UInt8) (store : σ) (packets : List (List UInt8)) (closed : σ → Bool) :
    ¬ Orderly closed (receiveAll P outcome (start port P outcome uri heap store) packets) := by
  have hends : (start port P outcome uri heap store).phase = .overrun ∨
      ∃ res, (start port P outcome uri heap store).phase = .returned res ∧ res ≠ firmwareSucc ∧
        (ledger false (start port P outcome uri heap store).trace).errorLed = false := by
    unfold start openConnection ask
    simp only
    split
    · split
      · exact Or.inl rfl
      · next hshort =>
        split
        · exact Or.inr ⟨_, rfl, by decide, rfl⟩
        · next hopen =>
          have haccepted : PackageUri.Accepted (PackageUri.sscanf port uri) := not_or.mp hopen
          split
          · next hsocket =>
            split
            · next hconnect => exact absurd ⟨haccepted, by omega, hsocket, hconnect⟩ h
            · next hconnect =>
              exact Or.inr ⟨_, rfl, by decide, errorLed_socket ⟨false, 0, 0, 0⟩ _⟩
          · next hsocket =>
            exact Or.inr ⟨_, rfl, by decide, errorLed_socket ⟨false, 0, 0, 0⟩ _⟩
    · exact Or.inr ⟨_, rfl, by decide, rfl⟩
  intro ⟨res, hphase, hledger, _⟩
  rcases hends with hoverrun | ⟨code, hreturned, hne, hled⟩
  · rw [receiveAll_over (by rw [hoverrun]; exact ⟨by simp, by simp⟩), hoverrun] at hphase
    cases hphase
  · rw [receiveAll_returned hreturned] at hphase hledger
    rw [hreturned] at hphase
    cases hphase
    rw [hledger, final, if_neg hne] at hled
    cases hled

end Ledgers

/-! ## The lock of the flash -/

section Locks
variable {outcome : Nat → Bool} {d : Download FlashStore.Store} {s : FlashStore.Store}

open FlashStore (HalCall Store halCall attempt)

theorem locked_add (s : Store) (made : List (HalCall × Bool)) :
    flashLocked (s.add made) = made.foldl lockAfter (flashLocked s) :=
  List.foldl_append ..

/-- A call that has to do with neither. -/
def Neutral (c : HalCall) : Prop := c ≠ .unlock ∧ c ≠ .lock

theorem lockAfter_neutral {c : HalCall} (h : Neutral c) (ok locked : Bool) :
    lockAfter locked (c, ok) = locked := by
  cases c with
  | unlock => exact absurd rfl h.1
  | lock => exact absurd rfl h.2
  | erase => rfl
  | program part address value => rfl

theorem locked_attempt {plan : List HalCall} (h : ∀ c ∈ plan, Neutral c) (s : Store) :
    flashLocked (attempt plan s).2 = flashLocked s := by
  induction plan generalizing s with
  | nil => rfl
  | cons c rest ih =>
    have hone : flashLocked (halCall c s).2 = flashLocked s := by
      unfold halCall
      rw [locked_add, List.foldl_cons, lockAfter_neutral (h c List.mem_cons_self)]
      rfl
    unfold attempt
    split
    · rw [ih fun c' hc' => h c' (List.mem_cons_of_mem c hc'), hone]
    · exact hone

theorem neutral_burst {part : FlashStore.Part} {address n : Nat} {byte : Nat → UInt8} {c : HalCall}
    (hc : c ∈ FlashStore.burst part address n byte) : Neutral c := by
  obtain ⟨i, _, rfl⟩ := List.mem_map.mp hc
  exact ⟨by simp, by simp⟩

theorem locked_writeAll {calls : List HalCall} (h : ∀ c ∈ calls, Neutral c) (s : Store) :
    flashLocked (FlashStore.writeAll calls s).2 = flashLocked s := by
  unfold FlashStore.writeAll
  exact locked_attempt h s

/-- The start unlocks the flash when it can, whatever comes after. -/
theorem locked_writeStart (name : List UInt8) (s : Store) (hlocked : flashLocked s = true) :
    flashLocked (FlashStore.firmwarePlatformWriteStart name s).2 = !s.hal s.calls.length ∧
      ((FlashStore.firmwarePlatformWriteStart name s).1 = firmwareSucc →
        s.hal s.calls.length = true) := by
  have hunlock : flashLocked (halCall .unlock s).2 = !s.hal s.calls.length := by
    unfold halCall
    rw [locked_add, hlocked]
    rfl
  unfold FlashStore.firmwarePlatformWriteStart
  have hsplit : attempt [.unlock, .erase] s =
      if (halCall .unlock s).1 then attempt [.erase] (halCall .unlock s).2
      else halCall .unlock s := rfl
  have hok : (halCall .unlock s).1 = s.hal s.calls.length := rfl
  have herase : ∀ c ∈ [HalCall.erase], Neutral c := by
    intro c hc
    rw [List.mem_singleton.mp hc]
    exact ⟨by simp, by simp⟩
  cases hcall : s.hal s.calls.length with
  | false =>
    rw [hcall] at hok hunlock
    rw [hok, if_neg Bool.false_ne_true] at hsplit
    rw [hsplit]
    simp only [hok, Bool.false_eq_true, if_false]
    exact ⟨hunlock, fun h => absurd h (by decide)⟩
  | true =>
    rw [hcall] at hok hunlock
    rw [hok, if_pos rfl] at hsplit
    have herased : flashLocked (attempt [.erase] (halCall .unlock s).2).2 = false := by
      rw [locked_attempt herase]
      exact hunlock
    refine ⟨?_, fun _ => rfl⟩
    rw [hsplit]
    simp only
    split
    · exact (locked_writeAll (fun c hc => neutral_burst hc) _).trans herased
    · exact herased

theorem locked_writeCodeChunk (data : List UInt8) (offset length : Nat) (s : Store) :
    flashLocked (FlashStore.firmwarePlatformWriteCodeChunk data offset length s).2 =
      flashLocked s := by
  unfold FlashStore.firmwarePlatformWriteCodeChunk
  exact locked_writeAll (fun c hc => neutral_burst hc) _

/-- The end locks the flash when it succeeds. -/
theorem locked_writeFinish (s : Store) (hunlocked : flashLocked s = false) :
    flashLocked (FlashStore.firmwarePlatformWriteFinish s).2 = true ↔
      (FlashStore.firmwarePlatformWriteFinish s).1 = firmwareSucc := by
  have hprogram : flashLocked (attempt (FlashStore.metadataCalls s.writeMetadata) s).2 = false := by
    rw [← hunlocked]
    exact locked_attempt (fun c hc => neutral_burst hc) s
  unfold FlashStore.firmwarePlatformWriteFinish
  simp only
  split
  · refine ⟨fun _ => rfl, fun _ => ?_⟩
    unfold halCall
    rw [locked_add]
    rfl
  · have hfailed : firmwareWriteErr ≠ firmwareSucc := by decide
    rw [hprogram]
    exact ⟨fun h => absurd h Bool.false_ne_true, fun h => absurd h hfailed⟩

/-- The flash is unlocked between the two loops and the end. -/
structure Phased (d : Download Store) : Prop where
  description : d.phase = .description → flashLocked d.store = true
  chunks : d.phase = .chunks → flashLocked d.store = false

/-- A run that is over has locked the flash. -/
def Relocked (d : Download Store) : Prop := ∀ res, d.phase = .returned res → flashLocked d.store = true

theorem relocked_returned {res : UInt8} (hphase : d.phase = .returned res) :
    Relocked d ↔ flashLocked d.store = true :=
  ⟨fun h => h res hphase, fun h _ _ => h⟩

/-- The clean-up leaves the flash as it is; `C` says when it is locked. -/
theorem cleanup_locks {C : Prop} (hC : flashLocked d.store = true ↔ C) (res : UInt8) :
    Phased (cleanup FlashStore.platform res true d) ∧
      (Relocked (cleanup FlashStore.platform res true d) ↔ C) := by
  refine ⟨⟨fun h => ?_, fun h => ?_⟩, Iff.trans (relocked_returned rfl) hC⟩
  · cases h
  · cases h

/-- An answer is sent while the flash is unlocked; `C` says when that succeeds. -/
theorem sendBuffer_locks {C : Prop} (hphase : d.phase = .chunks)
    (hunlocked : flashLocked d.store = false) (hC : outcome d.trace.length = true ↔ C) (n : Nat) :
    Phased (sendBuffer FlashStore.platform outcome n d) ∧
      (Relocked (sendBuffer FlashStore.platform outcome n d) ↔ C) := by
  rw [← hC]
  unfold sendBuffer ask
  cases houtcome : outcome d.trace.length with
  | true =>
    simp only [if_true]
    refine ⟨⟨fun h => ?_, fun _ => hunlocked⟩, fun _ => trivial, fun _ res h => ?_⟩
    · rw [log_phase, hphase] at h
      cases h
    · rw [log_phase, hphase] at h
      cases h
  | false =>
    simp only [Bool.false_eq_true, if_false]
    apply cleanup_locks
    rw [log_store, hunlocked]
    simp

theorem describe_locks (hphase : d.phase = .description) (hlocked : flashLocked d.store = true)
    (recvLen : Nat) : Phased (describe FlashStore.platform outcome recvLen d) ∧
      (Relocked (describe FlashStore.platform outcome recvLen d) ↔
        (2 ≤ recvLen ∧ d.id = payloadTypeDescription ∧
            d.field 1 2 * chunkSize ≤ FlashStore.platform.maxMemory →
          d.store.hal d.store.calls.length = false ∨
            ((FlashStore.platform.writeStart (d.buff.drop 4) d.store).1 = firmwareSucc ∧
              outcome (d.trace.length + 1) = true))) := by
  unfold describe
  split
  · next hother =>
    refine ⟨⟨fun _ => hlocked, fun h => ?_⟩, fun _ h => ?_, fun _ res h => ?_⟩
    · rw [hphase] at h
      cases h
    · rcases hother with hshort | hid
      · omega
      · exact absurd h.2.1 hid
    · rw [hphase] at h
      cases h
  · next hdescribes =>
    obtain ⟨hlength, hid⟩ := not_or.mp hdescribes
    rw [not_not] at hid
    split
    · next hbig =>
      apply cleanup_locks
      refine ⟨fun _ h => ?_, fun _ => hlocked⟩
      omega
    · next hfits =>
      obtain ⟨hlock, hcould⟩ := locked_writeStart (d.buff.drop 4) d.store hlocked
      have hcond : 2 ≤ recvLen ∧ d.id = payloadTypeDescription ∧
          d.field 1 2 * chunkSize ≤ FlashStore.platform.maxMemory := ⟨by omega, hid, by omega⟩
      have hstart : FlashStore.platform.writeStart = FlashStore.firmwarePlatformWriteStart := rfl
      rw [forall_prop_of_true hcond]
      unfold callWriteStart
      simp only [hstart]
      split
      · next hok =>
        have hhal := hcould hok
        rw [hhal] at hlock
        apply sendBuffer_locks
        · rfl
        · exact hlock
        · simp [hhal, hok]
      · next hfail =>
        apply cleanup_locks
        rw [log_store, hlock]
        simp [hfail]

theorem receiveChunk_locks (hphase : d.phase = .chunks) (hunlocked : flashLocked d.store = false)
    (recvLen : Nat) : Phased (receiveChunk FlashStore.platform outcome recvLen d) ∧
      (Relocked (receiveChunk FlashStore.platform outcome recvLen d) ↔
        if d.id = payloadTypeFlowEnd then
          (FlashStore.platform.writeFinish d.store).1 = firmwareSucc
        else 2 < recvLen ∧ d.id = payloadTypeChunk →
          (FlashStore.platform.writeCodeChunk (d.buff.drop 7) (d.field 1 2 * chunkSize)
            (d.field 3 4) d.store).1 = firmwareSucc ∧ outcome (d.trace.length + 1) = true) := by
  unfold receiveChunk
  split
  · have hfinish := locked_writeFinish d.store hunlocked
    have hended : FlashStore.platform.writeFinish = FlashStore.firmwarePlatformWriteFinish := rfl
    unfold finish callWriteFinish
    simp only [hended]
    split
    · exact cleanup_locks hfinish firmwareDownloaderSucc
    · exact cleanup_locks hfinish firmwareWriteErr
  · split
    · next hchunk =>
      rw [forall_prop_of_true hchunk]
      generalize d.field 1 2 = id, d.field 3 4 = length
      have hlock := locked_writeCodeChunk (d.buff.drop 7) (id * chunkSize) length d.store
      rw [hunlocked] at hlock
      have hwrite : FlashStore.platform.writeCodeChunk =
          FlashStore.firmwarePlatformWriteCodeChunk := rfl
      unfold writeChunk callWriteCodeChunk
      simp only [hwrite]
      split
      · next hok =>
        apply sendBuffer_locks
        · exact hphase
        · exact hlock
        · simp [hok]
      · next hfail =>
        apply cleanup_locks
        rw [log_store, hlock]
        simp [hfail]
    · next hother =>
      refine ⟨⟨fun h => ?_, fun _ => hunlocked⟩, fun _ h => absurd h hother, fun _ res h => ?_⟩
      · rw [hphase] at h
        cases h
      · rw [hphase] at h
        cases h

/-- A packet leaves the flash unlocked for good when its condition is not met, and only then. -/
theorem receive_locks (h : Phased d) (hrelocked : Relocked d) (packet : List UInt8) :
    Phased (receive FlashStore.platform outcome d packet) ∧
      (Relocked (receive FlashStore.platform outcome d packet) ↔ Kept outcome d packet) := by
  have hover : d.phase ≠ .description → d.phase ≠ .chunks →
      Phased (receive FlashStore.platform outcome d packet) ∧
        (Relocked (receive FlashStore.platform outcome d packet) ↔ Kept outcome d packet) := by
    intro hd hc
    rw [receive_over ⟨hd, hc⟩ packet]
    exact ⟨h, fun _ => ⟨fun heq => absurd heq hd, fun heq => absurd heq hc⟩, fun _ => hrelocked⟩
  cases hphase : d.phase with
  | description =>
    have hlocked := h.description hphase
    have hkept : Kept outcome d packet ↔
        (Describes FlashStore.platform packet d → StartKept outcome packet d) := by
      unfold Kept
      simp [hphase]
    rw [hkept]
    unfold receive
    simp only [hphase]
    split
    · next hempty =>
      apply cleanup_locks
      refine ⟨fun _ hdescribes => ?_, fun _ => hlocked⟩
      have := hdescribes.1
      rw [hempty] at this
      exact absurd this (by decide)
    · exact describe_locks (d := arrived packet d) hphase hlocked _
  | chunks =>
    have hunlocked := h.chunks hphase
    have hkept : Kept outcome d packet ↔ ChunkKept outcome packet d := by
      unfold Kept
      simp [hphase]
    rw [hkept]
    unfold receive
    simp only [hphase]
    split
    · next hempty =>
      apply cleanup_locks
      refine ⟨fun hlocked => ?_, fun hkept => ?_⟩
      · rw [hunlocked] at hlocked
        cases hlocked
      · rcases List.take_eq_nil_iff.mp hempty with hzero | hnil
        · cases hzero
        · exact absurd hnil hkept.1
    · next hsome =>
      have hne : packet ≠ [] := by
        rintro rfl
        exact hsome rfl
      have hloop : (arrived packet d).phase = .chunks := hphase
      have hstore : flashLocked (arrived packet d).store = false := hunlocked
      obtain ⟨hphased, hiff⟩ : Phased (receiveChunk FlashStore.platform outcome
          (packet.take bufferSize).length (arrived packet d)) ∧ _ := receiveChunk_locks hloop hstore _
      exact ⟨hphased, hiff.trans ⟨fun hend => ⟨hne, hend⟩, fun hkept => hkept.2⟩⟩
  | returned res => exact hover (by simp [hphase]) (by simp [hphase])
  | overrun => exact hover (by simp [hphase]) (by simp [hphase])

/-- A run that ends with the flash unlocked does so at a packet whose condition is not met. -/
theorem receiveAll_locks (h : Phased d) (hrelocked : Relocked d) (packets : List (List UInt8)) :
    Relocked (receiveAll FlashStore.platform outcome d packets) ↔
      Runs.Along (Kept outcome) (recvStep FlashStore.platform outcome) d packets := by
  induction packets generalizing d with
  | nil => exact ⟨fun _ => trivial, fun _ => hrelocked⟩
  | cons packet packets ih =>
    obtain ⟨hphased, hiff⟩ : Phased (receive FlashStore.platform outcome d packet) ∧ _ :=
      receive_locks h hrelocked packet
    rw [receiveAll_cons]
    have honly : ∀ t o, recvStep FlashStore.platform outcome d packet = some (t, o) →
        t = receive FlashStore.platform outcome d packet := by
      intro t o ht
      cases ht
      rfl
    by_cases hnext : Relocked (receive FlashStore.platform outcome d packet)
    · rw [ih hphased hnext]
      constructor
      · intro hlater
        refine ⟨hiff.mp hnext, ?_⟩
        intro t o ht
        rw [honly t o ht]
        exact hlater
      · intro hmeets
        exact hmeets.2 _ () rfl
    · -- the run is over, and nothing locks the flash any more
      have hover : ∃ res, (receive FlashStore.platform outcome d packet).phase = .returned res := by
        by_contra hwaits
        exact hnext fun res hphase => absurd ⟨res, hphase⟩ hwaits
      obtain ⟨res, hreturned⟩ := hover
      rw [receiveAll_returned hreturned]
      exact ⟨fun hlater => absurd hlater hnext, fun hmeets => absurd (hiff.mpr hmeets.1) hnext⟩

end Locks

/-! ## The two ports -/

section Ports
variable {outcome : Nat → Bool} {uri : List UInt8}

/-- The clean-up of the run with a connection. -/
theorem start_settles {σ : Type} {P : FirmwarePlatform σ} {port : Port}
    (h : Connects port outcome uri) (heap : List UInt8) (store : σ) (packets : List (List UInt8)) :
    Settled P (firmwareDownloaderStart port P outcome uri heap store (packets ++ [[]])) := by
  unfold firmwareDownloaderStart
  rcases start_connected (P := P) h heap store with ⟨hwaits, _⟩ | ⟨hsettled, _⟩
  · exact receiveAll_ends hwaits packets
  · rw [hsettled.receiveAll]
    exact hsettled

theorem unix_end (heap : List UInt8) (file : UnixStore.Store) (packets : List (List UInt8)) :
    Orderly fileClosed (firmwareDownloaderStart .unix UnixStore.platform outcome uri heap file
      (packets ++ [[]])) ↔ Connects .unix outcome uri := by
  constructor
  · intro horderly
    by_contra hunconnected
    exact start_unconnected hunconnected heap file (packets ++ [[]]) fileClosed horderly
  · intro hconnects
    obtain ⟨⟨res, hphase, hledger⟩, s, hstore⟩ := start_settles (P := UnixStore.platform) hconnects
      heap file packets
    refine ⟨res, hphase, hledger, ?_⟩
    rw [hstore]
    rfl

theorem stm32_end (heap : List UInt8) (flash : FlashStore.Store) (hlocked : flashLocked flash = true)
    (packets : List (List UInt8)) :
    Orderly flashLocked (firmwareDownloaderStart .stm32 FlashStore.platform outcome uri heap flash
      (packets ++ [[]])) ↔
        Connects .stm32 outcome uri ∧
          Runs.Along (Kept outcome) (recvStep FlashStore.platform outcome)
            (start .stm32 FlashStore.platform outcome uri heap flash) (packets ++ [[]]) := by
  by_cases hconnects : Connects .stm32 outcome uri
  · obtain ⟨⟨res, hphase, hledger⟩, _⟩ := start_settles (P := FlashStore.platform) hconnects
      heap flash packets
    have hstart : Phased (start .stm32 FlashStore.platform outcome uri heap flash) ∧
        Relocked (start .stm32 FlashStore.platform outcome uri heap flash) := by
      rcases start_connected (P := FlashStore.platform) hconnects heap flash with
        ⟨_, hwaits, hstore⟩ | ⟨⟨⟨code, hreturned, _⟩, _⟩, hstore⟩
      · refine ⟨⟨fun _ => by rw [hstore]; exact hlocked, fun h => ?_⟩, fun code h => ?_⟩
        · rw [hwaits] at h
          cases h
        · rw [hwaits] at h
          cases h
      · refine ⟨⟨fun h => ?_, fun h => ?_⟩, fun _ _ => by rw [hstore]; exact hlocked⟩
        · rw [hreturned] at h
          cases h
        · rw [hreturned] at h
          cases h
    rw [and_iff_right hconnects, ← receiveAll_locks hstart.1 hstart.2]
    constructor
    · intro ⟨code, hcode, _, hclosed⟩ _ _
      exact hclosed
    · intro hrelocked
      exact ⟨res, hphase, hledger, hrelocked res hphase⟩
  · constructor
    · intro horderly
      exact absurd horderly
        (start_unconnected hconnects heap flash (packets ++ [[]]) flashLocked)
    · intro hboth
      exact absurd hboth.1 hconnects

end Ports

/-- A run ends in one of the two states exactly when it gets a connection and, on stm32, nothing
fails between the unlocking of the flash and the end of the flow. -/
theorem end_state_iff (outcome : Nat → Bool) (uri heap : List UInt8) (packets : List (List UInt8))
    (file : UnixStore.Store) (flash : FlashStore.Store) (hlocked : flashLocked flash = true) :
    (Orderly fileClosed (firmwareDownloaderStart .unix UnixStore.platform outcome uri heap file
        (packets ++ [[]])) ↔ Connects .unix outcome uri) ∧
      (Orderly flashLocked (firmwareDownloaderStart .stm32 FlashStore.platform outcome uri heap flash
        (packets ++ [[]])) ↔
          Connects .stm32 outcome uri ∧
            Runs.Along (Kept outcome) (recvStep FlashStore.platform outcome)
              (start .stm32 FlashStore.platform outcome uri heap flash) (packets ++ [[]])) :=
  ⟨unix_end heap file packets, stm32_end heap flash hlocked packets⟩

def lockedFlash : FlashStore.Store := ⟨fun _ => 0xFF, fun _ => true, [], FlashStore.startMetadata []⟩

/-- A chunk of one byte. -/
def shortDownload : List (List UInt8) :=
  [descriptionPacket 1 1 (CString.ascii "a" ++ [0]), chunkPacket 0 1 [0], [payloadTypeFlowEnd]]

theorem short_download_ends :
    Orderly fileClosed (firmwareDownloaderStart .unix UnixStore.platform (fun _ => true) firmUri
        freshHeap noFile (shortDownload ++ [[]])) ∧
      Orderly flashLocked (firmwareDownloaderStart .stm32 FlashStore.platform (fun _ => true) firmUri
        freshHeap lockedFlash (shortDownload ++ [[]])) := by
  obtain ⟨hunix, hstm32⟩ := end_state_iff (fun _ => true) firmUri freshHeap shortDownload noFile
    lockedFlash rfl
  exact ⟨hunix.mpr (by decide +kernel), hstm32.mpr (by decide +kernel)⟩

/-- The server cannot be reached: the LED is off and the socket stays open. On stm32 a connection
that ends after the description leaves the flash unlocked. -/
theorem download_ends_badly :
    (∃ d, d = firmwareDownloaderStart .unix UnixStore.platform (fun n => n != 3) firmUri freshHeap
        noFile [[]] ∧
      d.phase = .returned firmwareDownloaderErrConn ∧
      ledger false d.trace = ⟨false, 0, 1, 0⟩ ∧ ¬ Orderly fileClosed d) ∧
      ∃ d, d = firmwareDownloaderStart .stm32 FlashStore.platform (fun _ => true) firmUri freshHeap
          lockedFlash [descriptionPacket 1 1 (CString.ascii "a" ++ [0]), []] ∧
        d.phase = .returned firmwareDownloaderErrConn ∧ flashLocked d.store = false ∧
        ¬ Orderly flashLocked d := by
  have hreached : ¬ Connects .unix (fun n => n != 3) firmUri := by decide +kernel
  refine ⟨⟨_, rfl, by decide +kernel, by decide +kernel, ?_⟩, ⟨_, rfl, by decide +kernel, ?_⟩⟩
  · exact start_unconnected hreached freshHeap noFile [[]] fileClosed
  · have hunlocked : flashLocked (firmwareDownloaderStart .stm32 FlashStore.platform (fun _ => true)
        firmUri freshHeap lockedFlash
          [descriptionPacket 1 1 (CString.ascii "a" ++ [0]), []]).store = false := by decide +kernel
    refine ⟨hunlocked, ?_⟩
    intro ⟨_, _, _, hclosed⟩
    rw [hunlocked] at hclosed
    cases hclosed

end JsEmbeddedPlatform.EndStates
