import JsEmbeddedPlatform.Downloader

/-!
# One stream, cut in different ways

TCP hands the bytes of the server over in pieces of its own choice, and the downloader
takes each piece for a message. Two runs over one stream are compared by everything
they log and by what they return.
-/

set_option autoImplicit false

namespace JsEmbeddedPlatform.Segmentation

open Timers (Port)
open Downloader

inductive Message where
  | description (chunkNum : Nat) (name : List UInt8)
  | chunk (chunkId : Nat) (data : List UInt8)
  | flowEnd
deriving DecidableEq, Repr

def Message.bytes : Message → List UInt8
  | .description chunkNum name => descriptionPacket chunkNum (name.length + 1) (name ++ [0])
  | .chunk chunkId data => chunkPacket chunkId data.length data
  | .flowEnd => [payloadTypeFlowEnd]

/-- What successive calls of `recv` can return of a stream. -/
structure Segments (stream : List UInt8) (pieces : List (List UInt8)) : Prop where
  joined : pieces.flatten = stream
  received : ∀ p ∈ pieces, p ≠ [] ∧ p.length ≤ bufferSize

section Runs
variable {σ : Type} {P : FirmwarePlatform σ} {outcome : Nat → Bool} {d : Download σ}

/-- The storage calls, the packets sent, and the code returned; the server closes after the last
piece. -/
def observed (P : FirmwarePlatform σ) (outcome : Nat → Bool) (d : Download σ)
    (pieces : List (List UInt8)) : List Event × Phase :=
  ((receiveAll P outcome d (pieces ++ [[]])).trace, (receiveAll P outcome d (pieces ++ [[]])).phase)

theorem receive_waits (hphase : d.phase = .description) {p : List UInt8}
    (hp : p ≠ [] ∧ p.length ≤ bufferSize)
    (h : p.length < 2 ∨ p.head? ≠ some payloadTypeDescription) :
    receive P outcome d p = d.put p := by
  unfold receive
  rw [List.take_of_length_le hp.2, hphase]
  simp only [hp.1, if_false]
  apply describe_ignores
  rcases h with hshort | hhead
  · exact Or.inl hshort
  · right
    intro hid
    cases p with
    | nil => exact hp.1 rfl
    | cons b p =>
      apply hhead
      rw [List.head?_cons, ← hid]
      rfl

theorem receiveAll_waits (P : FirmwarePlatform σ) (outcome : Nat → Bool)
    {d : Download σ} (hphase : d.phase = .description) {pieces : List (List UInt8)}
    (hpieces : ∀ p ∈ pieces, (p ≠ [] ∧ p.length ≤ bufferSize) ∧
      (p.length < 2 ∨ p.head? ≠ some payloadTypeDescription)) :
    (receiveAll P outcome d pieces).phase = .description ∧
      (receiveAll P outcome d pieces).trace = d.trace := by
  induction pieces generalizing d with
  | nil => exact ⟨hphase, rfl⟩
  | cons p pieces ih =>
    have hp := hpieces p List.mem_cons_self
    unfold receiveAll at ih ⊢
    rw [List.foldl_cons, receive_waits hphase hp.1 hp.2]
    exact ih (d := d.put p) hphase fun q hq => hpieces q (List.mem_cons_of_mem _ hq)

theorem observed_waits (hphase : d.phase = .description) {pieces : List (List UInt8)}
    (hpieces : ∀ p ∈ pieces, (p ≠ [] ∧ p.length ≤ bufferSize) ∧
      (p.length < 2 ∨ p.head? ≠ some payloadTypeDescription)) :
    observed P outcome d pieces =
      (d.trace ++ [.close, .writeCleanup, .free, .errorLedOn],
        .returned firmwareDownloaderErrConn) := by
  obtain ⟨hwait, htrace⟩ := receiveAll_waits P outcome hphase hpieces
  have hclosed : receiveAll P outcome d (pieces ++ [[]]) =
      cleanup P firmwareDownloaderErrConn true (receiveAll P outcome d pieces) := by
    rw [receiveAll_append]
    show receive P outcome _ [] = _
    unfold receive
    rw [hwait]
    rfl
  unfold observed
  simp only [hclosed, cleanup_phase]
  unfold cleanup
  simp [htrace, firmwareDownloaderErrConn, firmwareSucc]

/-- Two bytes that begin like a description are taken for one. -/
theorem describe_accepts (P : FirmwarePlatform σ) (outcome : Nat → Bool) {d : Download σ}
    (x : UInt8) (hphase : d.phase = .description) :
    (receive P outcome d [payloadTypeDescription, x]).phase = .returned firmwareDownloaderErrMem ∨
      ∃ name res, d.trace ++ [.writeStart name res] <+:
        (receive P outcome d [payloadTypeDescription, x]).trace := by
  have heq : receive P outcome d [payloadTypeDescription, x] =
      describe P outcome 2 (d.put [payloadTypeDescription, x]) := by
    unfold receive
    rw [hphase]
    rfl
  rw [heq]
  unfold describe
  rw [if_neg (by
    intro h
    rcases h with h | h
    · exact absurd h (by decide)
    · exact h rfl)]
  split
  · exact Or.inl rfl
  · right
    simp only
    refine ⟨CString.text ((d.put [payloadTypeDescription, x]).buff.drop 4),
      (callWriteStart P (d.put [payloadTypeDescription, x])).1, ?_⟩
    split
    · refine List.IsPrefix.trans ?_ (sendBuffer_grows ..)
      exact List.prefix_rfl
    · refine List.IsPrefix.trans ?_ (cleanup_trace_grows ..)
      exact List.prefix_rfl

theorem singles_segments (stream : List UInt8) : Segments stream (stream.map fun b => [b]) := by
  refine ⟨?_, ?_⟩
  · induction stream with
    | nil => rfl
    | cons b stream ih => rw [List.map_cons, List.flatten_cons, ih, List.singleton_append]
  · intro p hp
    obtain ⟨b, _, rfl⟩ := List.mem_map.mp hp
    exact ⟨nofun, by simp [bufferSize]⟩

theorem singles_wait (stream : List UInt8) :
    ∀ p ∈ stream.map fun b => [b], (p ≠ [] ∧ p.length ≤ bufferSize) ∧
      (p.length < 2 ∨ p.head? ≠ some payloadTypeDescription) := by
  intro p hp
  refine ⟨(singles_segments stream).received p hp, Or.inl ?_⟩
  obtain ⟨b, _, rfl⟩ := List.mem_map.mp hp
  exact Nat.lt_succ_self 1

/-- No piece of such a stream passes for a description. -/
theorem segments_wait {stream : List UInt8} (hfree : payloadTypeDescription ∉ stream.dropLast)
    {pieces : List (List UInt8)} (h : Segments stream pieces) :
    ∀ p ∈ pieces, (p ≠ [] ∧ p.length ≤ bufferSize) ∧
      (p.length < 2 ∨ p.head? ≠ some payloadTypeDescription) := by
  intro p hp
  refine ⟨h.received p hp, ?_⟩
  by_contra hbad
  obtain ⟨hlong, hhead⟩ := not_or.mp hbad
  apply hfree
  obtain ⟨before, after, rfl⟩ := List.append_of_mem hp
  match p, hlong, not_not.mp hhead with
  | b :: x :: p, _, hhead =>
    cases hhead
    -- the byte stands before the byte that follows it in its piece
    rw [← h.joined, List.flatten_append, List.flatten_cons, List.dropLast_append_of_ne_nil (by simp)]
    apply List.mem_append_right
    rw [List.cons_append, List.cons_append, List.dropLast_cons_of_ne_nil (by simp)]
    exact List.mem_cons_self

theorem observed_differs {stream : List UInt8} (hphase : d.phase = .description)
    (hmem : payloadTypeDescription ∈ stream.dropLast) :
    ∃ a b, Segments stream a ∧ Segments stream b ∧
      observed P outcome d a ≠ observed P outcome d b := by
  obtain ⟨before, rest, hsplit⟩ := List.append_of_mem hmem
  have hne : stream ≠ [] := by
    intro hnil
    simp [hnil] at hmem
  obtain ⟨x, after, hstream⟩ : ∃ x after,
      stream = before ++ payloadTypeDescription :: x :: after := by
    rw [← List.dropLast_append_getLast hne, hsplit]
    cases rest with
    | nil => exact ⟨stream.getLast hne, [], by simp⟩
    | cons x rest => exact ⟨x, rest ++ [stream.getLast hne], by simp⟩
  refine ⟨stream.map fun b => [b],
    (before.map fun b => [b]) ++ [payloadTypeDescription, x] :: after.map fun b => [b],
    singles_segments stream, ⟨?_, ?_⟩, ?_⟩
  · rw [List.flatten_append, List.flatten_cons, (singles_segments before).joined,
      (singles_segments after).joined, hstream]
    rfl
  · intro p hp
    rcases List.mem_append.mp hp with hp | hp
    · exact (singles_segments before).received p hp
    · rcases List.mem_cons.mp hp with rfl | hp
      · exact ⟨nofun, by simp [bufferSize, chunkSize]⟩
      · exact (singles_segments after).received p hp
  · intro heq
    rw [observed_waits hphase (singles_wait stream)] at heq
    obtain ⟨hwait, htrace⟩ := receiveAll_waits P outcome hphase (singles_wait before)
    unfold observed at heq
    rw [List.append_assoc, List.cons_append, receiveAll_append] at heq
    generalize receiveAll P outcome d (before.map fun b => [b]) = m at hwait htrace heq
    rw [receiveAll_cons] at heq
    rcases describe_accepts P outcome x hwait with hfull | ⟨name, res, hstarted⟩
    · rw [receiveAll_returned hfull] at heq
      have := congrArg Prod.snd heq
      simp only [hfull] at this
      exact absurd this (by decide)
    · have hgrows : _ <+: (receiveAll P outcome (receive P outcome m [payloadTypeDescription, x])
          ((after.map fun b => [b]) ++ [[]])).trace := receiveAll_grows ..
      have hlogged := hstarted.trans hgrows
      have := congrArg Prod.fst heq
      simp only at this
      rw [← this, htrace, List.prefix_append_right_inj] at hlogged
      simp [List.prefix_cons_iff] at hlogged

end Runs

/-- Once the request is sent: how the stream is cut makes no difference exactly when no byte of
it but the last can begin a description. -/
theorem segmentation_irrelevant_iff {σ : Type} (P : FirmwarePlatform σ) (outcome : Nat → Bool)
    (port : Port) (uri heap : List UInt8) (store : σ) (messages : List Message)
    (hstart : (start port P outcome uri heap store).phase = .description) :
    (∀ a b, Segments (messages.flatMap Message.bytes) a →
      Segments (messages.flatMap Message.bytes) b →
        observed P outcome (start port P outcome uri heap store) a =
          observed P outcome (start port P outcome uri heap store) b) ↔
      payloadTypeDescription ∉ (messages.flatMap Message.bytes).dropLast := by
  constructor
  · intro hsame hmem
    obtain ⟨a, b, ha, hb, hne⟩ := observed_differs hstart hmem
    exact hne (hsame a b ha hb)
  · intro hfree a b ha hb
    rw [observed_waits hstart (segments_wait hfree ha),
      observed_waits hstart (segments_wait hfree hb)]

/-- No stream with a description is cut harmlessly. -/
theorem description_is_cut (chunkNum : Nat) (name : List UInt8) (before after : List Message) :
    payloadTypeDescription ∈
      ((before ++ .description chunkNum name :: after).flatMap Message.bytes).dropLast := by
  obtain ⟨rest, hbytes, hrest⟩ : ∃ rest, (Message.description chunkNum name).bytes =
      payloadTypeDescription :: rest ∧ rest ≠ [] := ⟨_, rfl, by simp⟩
  rw [List.flatMap_append, List.flatMap_cons, hbytes,
    List.dropLast_append_of_ne_nil (by simp), List.cons_append,
    List.dropLast_cons_of_ne_nil (by simp [hrest])]
  exact List.mem_append_right _ List.mem_cons_self

/-- Storage that accepts everything and keeps nothing. -/
def sink : FirmwarePlatform Unit where
  writeStart _ s := (firmwareSucc, s)
  writeCodeChunk _ _ _ s := (firmwareSucc, s)
  writeFinish s := (firmwareSucc, s)
  writeCleanup s := s
  maxMemory := 131008

theorem end_alone_is_cut_harmlessly :
    (∀ a b, Segments (([.flowEnd] : List Message).flatMap Message.bytes) a →
      Segments (([.flowEnd] : List Message).flatMap Message.bytes) b →
        observed sink (fun _ => true) (start .stm32 sink (fun _ => true) firmUri freshHeap ()) a =
          observed sink (fun _ => true) (start .stm32 sink (fun _ => true) firmUri freshHeap ()) b) ↔
      payloadTypeDescription ∉ (([.flowEnd] : List Message).flatMap Message.bytes).dropLast :=
  segmentation_irrelevant_iff sink (fun _ => true) .stm32 firmUri freshHeap () [.flowEnd] (by decide)

/-- The firmware `a` of one chunk `1`. -/
def transfer : List Message := [.description 1 [97], .chunk 0 [49, 0], .flowEnd]

/-- One message with each `recv`, and the same bytes one by one. -/
theorem transfer_is_cut :
    Segments (transfer.flatMap Message.bytes) (transfer.map Message.bytes) ∧
    Segments (transfer.flatMap Message.bytes) ((transfer.flatMap Message.bytes).map fun b => [b]) ∧
    (observed sink (fun _ => true) (start .stm32 sink (fun _ => true) firmUri freshHeap ())
      (transfer.map Message.bytes)).2 = .returned firmwareDownloaderSucc ∧
    (observed sink (fun _ => true) (start .stm32 sink (fun _ => true) firmUri freshHeap ())
      ((transfer.flatMap Message.bytes).map fun b => [b])).2 = .returned firmwareDownloaderErrConn :=
  ⟨⟨by decide, by decide⟩, ⟨by decide, by decide⟩, by decide, by decide⟩

end JsEmbeddedPlatform.Segmentation
