import JsEmbeddedPlatform.Shared.BoundedFifo

/-!
# The event queue of the unix port

`platform/unix/src/platform/queue.c`: one block of memory holds the slots, two
pointers walk through it and wrap at `pcTail` independently of each other, and
`pcReadFrom` trails one slot behind the next item. A call takes effect under the
queue mutex; a caller that finds the queue full (or empty) is waiting on the
condition variable and has not taken effect yet.
-/

set_option autoImplicit false

namespace JsEmbeddedPlatform.EventQueue

open BoundedFifo

/-- Memory as the bytes found at addresses. -/
abbrev Memory := Nat → UInt8

def memcpy (memory : Memory) (dest : Nat) (src : Memory) (size : Nat) : Memory :=
  fun a => if dest ≤ a ∧ a < dest + size then src (a - dest) else memory a

def bytesAt (memory : Memory) (start size : Nat) : List UInt8 :=
  (List.range size).map fun i => memory (start + i)

structure Queue where
  pcHead : Nat
  pcTail : Nat
  pcWriteTo : Nat
  pcReadFrom : Nat
  uxMessagesWaiting : Nat
  uxLength : Nat
  uxItemSize : Nat
  locked : Bool
  memory : Memory

def prvCopyDataToQueue (pxQueue : Queue) (pvItemToQueue : Memory) : Queue :=
  let memory := memcpy pxQueue.memory pxQueue.pcWriteTo pvItemToQueue pxQueue.uxItemSize
  let pcWriteTo := pxQueue.pcWriteTo + pxQueue.uxItemSize
  { pxQueue with
    memory := memory
    pcWriteTo := if pcWriteTo ≥ pxQueue.pcTail then pxQueue.pcHead else pcWriteTo
    uxMessagesWaiting := pxQueue.uxMessagesWaiting + 1 }

/-- Moves the read pointer first and copies afterwards. -/
def prvCopyDataFromQueue (pxQueue : Queue) : Queue × List UInt8 :=
  if pxQueue.uxItemSize ≠ 0 then
    let pcReadFrom := pxQueue.pcReadFrom + pxQueue.uxItemSize
    let pcReadFrom := if pcReadFrom ≥ pxQueue.pcTail then pxQueue.pcHead else pcReadFrom
    ({ pxQueue with pcReadFrom := pcReadFrom },
      bytesAt pxQueue.memory pcReadFrom pxQueue.uxItemSize)
  else (pxQueue, [])

/-- The integer types of a target: `unsigned long` and `size_t` count modulo `wordModulus`. -/
structure Target where
  wordModulus : Nat
  sizeofQueue : Nat

def prvInitialiseNewQueue (target : Target) (uxQueueLength uxItemSize : Nat)
    (pucQueueStorage : Nat) (memory : Memory) : Queue where
  pcHead := pucQueueStorage
  pcTail := pucQueueStorage + uxQueueLength * uxItemSize % target.wordModulus
  pcWriteTo := pucQueueStorage
  pcReadFrom := pucQueueStorage + (uxQueueLength - 1) * uxItemSize % target.wordModulus
  uxMessagesWaiting := 0
  uxLength := uxQueueLength
  uxItemSize := uxItemSize
  locked := false
  memory := memory

/-- `malloc size` is the address of a block of `size` bytes, if one is granted. -/
def xQueueCreate (target : Target) (malloc : Nat → Option Nat) (memory : Memory)
    (uxQueueLength uxItemSize : Nat) : Option Queue :=
  if uxQueueLength ≤ 0 then none
  else
    let xQueueSizeInBytes :=
      if uxItemSize = 0 then 0 else uxQueueLength * uxItemSize % target.wordModulus
    match malloc ((target.sizeofQueue + xQueueSizeInBytes) % target.wordModulus) with
    | none => none
    | some pxNewQueue =>
      some (prvInitialiseNewQueue target uxQueueLength uxItemSize
        (pxNewQueue + target.sizeofQueue) memory)

inductive Outcome (α : Type) where
  | pdPASS (result : α)
  | pdFAIL
  | waits

def xQueueSend (xQueue : Option Queue) (pvItemToQueue : Option Memory) : Outcome Queue :=
  match xQueue with
  | none => .pdFAIL
  | some pxQueue =>
    if pvItemToQueue.isNone ∧ pxQueue.uxItemSize ≠ 0 then .pdFAIL
    else if pxQueue.locked then .pdFAIL
    else if pxQueue.uxMessagesWaiting ≥ pxQueue.uxLength then .waits
    else .pdPASS (prvCopyDataToQueue pxQueue (pvItemToQueue.getD fun _ => 0))

def xQueueReceive (xQueue : Option Queue) (pvBuffer : Bool) (xJustPeeking : Bool) :
    Outcome (Queue × List UInt8) :=
  match xQueue with
  | none => .pdFAIL
  | some pxQueue =>
    if pvBuffer = false ∧ pxQueue.uxItemSize ≠ 0 then .pdFAIL
    else if pxQueue.locked then .pdFAIL
    else if pxQueue.uxMessagesWaiting ≤ 0 then .waits
    else
      let pcOriginalReadPosition := pxQueue.pcReadFrom
      let (taken, item) := prvCopyDataFromQueue pxQueue
      if xJustPeeking then .pdPASS ({ taken with pcReadFrom := pcOriginalReadPosition }, item)
      else .pdPASS ({ taken with uxMessagesWaiting := taken.uxMessagesWaiting - 1 }, item)

/-- One call by some thread on the shared queue; a wait is no step. -/
def call (q : Queue) : Nat × Call Memory → Option (Queue × Reply (List UInt8))
  | (_, .send item) =>
    match xQueueSend (some q) (some item) with
    | .pdPASS q' => some (q', .accepted)
    | .pdFAIL => some (q, .refused)
    | .waits => none
  | (_, .receive) =>
    match xQueueReceive (some q) true false with
    | .pdPASS (q', item) => some (q', .handed item)
    | .pdFAIL => some (q, .refused)
    | .waits => none
  | (_, .peek) =>
    match xQueueReceive (some q) true true with
    | .pdPASS (q', item) => some (q', .handed item)
    | .pdFAIL => some (q, .refused)
    | .waits => none

/-! ## Bytes of a slot -/

theorem bytesAt_memcpy_same (memory src : Memory) (dest size : Nat) :
    bytesAt (memcpy memory dest src size) dest size = bytesAt src 0 size := by
  apply List.map_congr_left
  intro i hi
  have hi' : i < size := List.mem_range.mp hi
  have inside : dest ≤ dest + i ∧ dest + i < dest + size := by omega
  simp only [memcpy, inside, and_self, if_true]
  congr 1
  omega

theorem bytesAt_memcpy_apart (memory src : Memory) {dest start size : Nat}
    (h : start + size ≤ dest ∨ dest + size ≤ start) :
    bytesAt (memcpy memory dest src size) start size = bytesAt memory start size := by
  apply List.map_congr_left
  intro i hi
  have hi' : i < size := List.mem_range.mp hi
  have outside : ¬ (dest ≤ start + i ∧ start + i < dest + size) := by omega
  simp only [memcpy, if_neg outside]

theorem slots_apart {k l : Nat} (size : Nat) (h : k ≠ l) :
    k * size + size ≤ l * size ∨ l * size + size ≤ k * size := by
  rcases Nat.lt_or_gt_of_ne h with hlt | hgt
  · left
    calc k * size + size = (k + 1) * size := by rw [Nat.add_mul, Nat.one_mul]
      _ ≤ l * size := Nat.mul_le_mul_right size hlt
  · right
    calc l * size + size = (l + 1) * size := by rw [Nat.add_mul, Nat.one_mul]
      _ ≤ k * size := Nat.mul_le_mul_right size hgt

/-- The wrap test of the code compares byte pointers; in slots it is a test of the index. -/
theorem wrap_pointer {length size k head : Nat} (hs : 0 < size) (hk : k < length) :
    (if head + k * size + size ≥ head + length * size then head else head + k * size + size) =
      head + (k + 1) % length * size := by
  have next : head + k * size + size = head + (k + 1) * size := by
    rw [Nat.add_mul, Nat.one_mul, Nat.add_assoc]
  rw [slot_wrap hk, next]
  by_cases hwrap : length ≤ k + 1
  · have : length * size ≤ (k + 1) * size := Nat.mul_le_mul_right size hwrap
    rw [if_pos (by omega), if_pos hwrap, Nat.zero_mul, Nat.add_zero]
  · have : (k + 1) * size < length * size := Nat.mul_lt_mul_of_pos_right (by omega) hs
    rw [if_neg (by omega), if_neg hwrap]

/-! ## The ring behind the pointers -/

/-- The representation: `read` is the slot the last item was read from. -/
structure Ring (q : Queue) (read : Nat) : Prop where
  itemSize : 0 < q.uxItemSize
  unlocked : q.locked = false
  tail : q.pcTail = q.pcHead + q.uxLength * q.uxItemSize
  count : q.uxMessagesWaiting ≤ q.uxLength
  readSlot : read < q.uxLength
  readFrom : q.pcReadFrom = q.pcHead + read * q.uxItemSize
  writeTo : q.pcWriteTo =
    q.pcHead + slot q.uxLength read q.uxMessagesWaiting * q.uxItemSize

def slotBytes (q : Queue) (k : Nat) : List UInt8 :=
  bytesAt q.memory (q.pcHead + k * q.uxItemSize) q.uxItemSize

/-- The waiting items, next one first. -/
def waiting (q : Queue) (read : Nat) : List (List UInt8) :=
  (List.range q.uxMessagesWaiting).map fun i => slotBytes q (slot q.uxLength read i)

@[simp] theorem waiting_length (q : Queue) (read : Nat) :
    (waiting q read).length = q.uxMessagesWaiting := by simp [waiting]

theorem waiting_cons {q : Queue} {read n : Nat} (h : q.uxMessagesWaiting = n + 1) :
    waiting q read = slotBytes q (slot q.uxLength read 0) ::
      (List.range n).map fun i => slotBytes q (slot q.uxLength read (i + 1)) := by
  unfold waiting
  rw [h, List.range_succ_eq_map, List.map_cons, List.map_map]
  rfl

theorem create_ring {target : Target} {length size storage : Nat} (memory : Memory)
    (hl : 1 ≤ length) (hs : 1 ≤ size) (fits : length * size < target.wordModulus) :
    Ring (prvInitialiseNewQueue target length size storage memory) (length - 1) := by
  have below : (length - 1) * size < target.wordModulus :=
    Nat.lt_of_le_of_lt (Nat.mul_le_mul_right size (Nat.sub_le length 1)) fits
  refine ⟨hs, rfl, ?_, Nat.zero_le _, Nat.sub_lt hl Nat.one_pos, ?_, ?_⟩
  · simp only [prvInitialiseNewQueue, Nat.mod_eq_of_lt fits]
  · simp only [prvInitialiseNewQueue, Nat.mod_eq_of_lt below]
  · have first : slot length (length - 1) 0 = 0 := by
      rw [slot_zero, Nat.sub_add_cancel hl, Nat.mod_self]
    simp only [prvInitialiseNewQueue, first, Nat.zero_mul, Nat.add_zero]

theorem send_ring {q : Queue} {read : Nat} (h : Ring q read)
    (room : q.uxMessagesWaiting < q.uxLength) (item : Memory) :
    Ring (prvCopyDataToQueue q item) read := by
  refine ⟨h.itemSize, h.unlocked, h.tail, room, h.readSlot, h.readFrom, ?_⟩
  have hpos : 0 < q.uxLength := Nat.lt_of_le_of_lt (Nat.zero_le _) room
  simp only [prvCopyDataToQueue]
  rw [h.writeTo, h.tail, wrap_pointer h.itemSize (slot_lt hpos _ _), slot_succ]

theorem send_waiting {q : Queue} {read : Nat} (h : Ring q read)
    (room : q.uxMessagesWaiting < q.uxLength) (item : Memory) :
    waiting (prvCopyDataToQueue q item) read =
      waiting q read ++ [bytesAt item 0 q.uxItemSize] := by
  have kept : ∀ i < q.uxMessagesWaiting,
      slotBytes (prvCopyDataToQueue q item) (slot q.uxLength read i) =
        slotBytes q (slot q.uxLength read i) := by
    intro i hi
    have hne : slot q.uxLength read i ≠ slot q.uxLength read q.uxMessagesWaiting := by
      intro same
      have := slot_injective (by omega) room same
      omega
    simp only [slotBytes, prvCopyDataToQueue, h.writeTo]
    apply bytesAt_memcpy_apart
    have := slots_apart q.uxItemSize hne
    omega
  have added : slotBytes (prvCopyDataToQueue q item)
      (slot q.uxLength read q.uxMessagesWaiting) = bytesAt item 0 q.uxItemSize := by
    simp only [slotBytes, prvCopyDataToQueue, h.writeTo]
    exact bytesAt_memcpy_same _ _ _ _
  change (List.range (q.uxMessagesWaiting + 1)).map
    (fun i => slotBytes (prvCopyDataToQueue q item) (slot q.uxLength read i)) = _
  rw [List.range_succ, List.map_append, List.map_singleton, added]
  congr 1
  exact List.map_congr_left fun i hi => kept i (List.mem_range.mp hi)

/-- Reading moves the pointer onto the next item and hands that item out. -/
theorem copyFrom_eq {q : Queue} {read : Nat} (h : Ring q read) :
    prvCopyDataFromQueue q =
      ({ q with pcReadFrom := q.pcHead + slot q.uxLength read 0 * q.uxItemSize },
        slotBytes q (slot q.uxLength read 0)) := by
  have hne : q.uxItemSize ≠ 0 := Nat.pos_iff_ne_zero.mp h.itemSize
  simp only [prvCopyDataFromQueue, if_pos hne]
  rw [h.readFrom, h.tail, wrap_pointer h.itemSize h.readSlot]
  rfl

theorem receive_ring {q : Queue} {read n : Nat} (h : Ring q read)
    (hn : q.uxMessagesWaiting = n + 1) :
    Ring { q with
      pcReadFrom := q.pcHead + slot q.uxLength read 0 * q.uxItemSize
      uxMessagesWaiting := n } (slot q.uxLength read 0) := by
  have hpos : 0 < q.uxLength := Nat.lt_of_le_of_lt (Nat.zero_le _) h.readSlot
  have hle : n ≤ q.uxLength := by
    have := h.count
    omega
  refine ⟨h.itemSize, h.unlocked, h.tail, hle, slot_lt hpos _ _, rfl, ?_⟩
  simp only [slot_advance]
  rw [h.writeTo, hn]

theorem receive_waiting {q : Queue} {read n : Nat} (hn : q.uxMessagesWaiting = n + 1) :
    waiting q read = slotBytes q (slot q.uxLength read 0) ::
      waiting { q with
        pcReadFrom := q.pcHead + slot q.uxLength read 0 * q.uxItemSize
        uxMessagesWaiting := n } (slot q.uxLength read 0) := by
  rw [waiting_cons hn]
  simp only [waiting, slot_advance]
  rfl

theorem send_eq {q : Queue} {read : Nat} (h : Ring q read) (item : Memory) :
    xQueueSend (some q) (some item) =
      if q.uxMessagesWaiting < q.uxLength then .pdPASS (prvCopyDataToQueue q item)
      else .waits := by
  simp only [xQueueSend, h.unlocked, Option.isNone_some, Bool.false_eq_true, false_and,
    if_false, Option.getD_some]
  by_cases room : q.uxMessagesWaiting < q.uxLength
  · rw [if_neg (by omega), if_pos room]
  · rw [if_pos (by omega), if_neg room]

theorem receive_eq {q : Queue} {read : Nat} (h : Ring q read) (peek : Bool) :
    xQueueReceive (some q) true peek =
      match waiting q read with
      | [] => .waits
      | item :: _ =>
        if peek then .pdPASS (q, item)
        else .pdPASS ({ q with
          pcReadFrom := q.pcHead + slot q.uxLength read 0 * q.uxItemSize
          uxMessagesWaiting := q.uxMessagesWaiting - 1 }, item) := by
  have unlocked : ¬ q.locked = true := by simp [h.unlocked]
  simp only [xQueueReceive, Bool.true_eq_false, false_and, if_false, if_neg unlocked,
    copyFrom_eq h]
  by_cases empty : q.uxMessagesWaiting ≤ 0
  · have none : waiting q read = [] := by simp [waiting, Nat.le_zero.mp empty]
    rw [if_pos empty, none]
  · obtain ⟨n, hn⟩ := Nat.exists_eq_succ_of_ne_zero (fun hz => empty (Nat.le_of_eq hz))
    rw [if_neg empty, waiting_cons hn]

/-! ## Refinement of the bounded queue -/

/-- The call as the specification sees it: an item is the bytes the queue copies. -/
def specCall (size : Nat) (c : Nat × Call Memory) : Call (List UInt8) :=
  c.2.map fun item => bytesAt item 0 size

structure Refines (storage length size : Nat) (q : Queue) (items : List (List UInt8)) :
    Prop where
  head_eq : q.pcHead = storage
  length_eq : q.uxLength = length
  size_eq : q.uxItemSize = size
  ring : ∃ read, Ring q read ∧ items = waiting q read

theorem call_simulates (storage length size : Nat) :
    Runs.Simulates (Refines storage length size) call
      (fun items c => step length items (specCall size c)) := by
  rintro q items ⟨thread, c⟩ ⟨rfl, rfl, rfl, read, h, rfl⟩
  cases c with
  | send item =>
    by_cases room : q.uxMessagesWaiting < q.uxLength
    · right
      refine ⟨prvCopyDataToQueue q item, waiting q read ++ [bytesAt item 0 q.uxItemSize],
        .accepted, ?_, ?_, rfl, rfl, rfl, read, send_ring h room item, (send_waiting h room item).symm⟩
      · simp only [call, send_eq h, if_pos room]
      · simp only [step, specCall, Call.map, waiting_length, if_pos room]
    · left
      constructor
      · simp only [call, send_eq h, if_neg room]
      · simp only [step, specCall, Call.map, waiting_length, if_neg room]
  | receive =>
    cases hn : q.uxMessagesWaiting with
    | zero =>
      left
      have empty : waiting q read = [] := by simp [waiting, hn]
      simp only [call, receive_eq h, empty, step, specCall, Call.map, and_self]
    | succ n =>
      right
      let taken : Queue := { q with
        pcReadFrom := q.pcHead + slot q.uxLength read 0 * q.uxItemSize
        uxMessagesWaiting := n }
      refine ⟨taken, waiting taken (slot q.uxLength read 0),
        .handed (slotBytes q (slot q.uxLength read 0)), ?_, ?_, rfl, rfl, rfl, _,
        receive_ring h hn, rfl⟩
      · simp [call, receive_eq h, waiting_cons hn, hn, taken]
      · simp only [step, specCall, Call.map, receive_waiting hn, taken]
  | peek =>
    cases hn : q.uxMessagesWaiting with
    | zero =>
      left
      have empty : waiting q read = [] := by simp [waiting, hn]
      simp only [call, receive_eq h, empty, step, specCall, Call.map, and_self]
    | succ n =>
      right
      refine ⟨q, waiting q read, .handed (slotBytes q (slot q.uxLength read 0)), ?_, ?_,
        rfl, rfl, rfl, read, h, rfl⟩
      · simp [call, receive_eq h, waiting_cons hn]
      · simp only [step, specCall, Call.map, waiting_cons hn]

theorem xQueueCreate_refines {target : Target} {malloc : Nat → Option Nat} {memory : Memory}
    {length size : Nat} {q : Queue} (hl : 1 ≤ length) (hs : 1 ≤ size)
    (fits : target.sizeofQueue + length * size < target.wordModulus)
    (h : xQueueCreate target malloc memory length size = some q) :
    ∃ block, malloc (target.sizeofQueue + length * size) = some block ∧
      Refines (block + target.sizeofQueue) length size q [] := by
  have hprod : length * size < target.wordModulus := by omega
  simp only [xQueueCreate, if_neg (by omega : ¬ length ≤ 0), if_neg (by omega : ¬ size = 0),
    Nat.mod_eq_of_lt hprod, Nat.mod_eq_of_lt fits] at h
  cases hm : malloc (target.sizeofQueue + length * size) with
  | none => simp [hm] at h
  | some block =>
    simp only [hm, Option.some.injEq] at h
    subst h
    exact ⟨block, rfl, rfl, rfl, rfl, length - 1, create_ring memory hl hs hprod, rfl⟩

/-- What holds of the queue after a history of calls and their replies. -/
structure Served (storage length size : Nat) (calls : List (Call (List UInt8)))
    (replies : List (Reply (List UInt8))) (q : Queue) : Prop where
  /-- Received in send order, nothing lost or altered; the next peek sees the next item. -/
  fifo : ∃ items, sent calls = received calls replies ++ items ∧
    items.length = q.uxMessagesWaiting ∧
    xQueueReceive (some q) true true =
      match items with
      | [] => .waits
      | item :: _ => .pdPASS (q, item)
  count : (sent calls).length = (received calls replies).length + q.uxMessagesWaiting
  within : q.uxMessagesWaiting ≤ length
  writeTo : ∃ k < length, q.pcWriteTo = storage + k * size
  readFrom : ∃ k < length, q.pcReadFrom = storage + k * size
  area : q.pcHead = storage ∧ q.pcTail = storage + length * size

/-- Any history of calls, by any threads, is answered as the bounded FIFO answers it. -/
theorem queue_refines_bounded_fifo (target : Target) (malloc : Nat → Option Nat)
    (memory : Memory) (uxQueueLength uxItemSize : Nat) (hl : 1 ≤ uxQueueLength)
    (hs : 1 ≤ uxItemSize)
    (fits : target.sizeofQueue + uxQueueLength * uxItemSize < target.wordModulus)
    (q0 : Queue)
    (created : xQueueCreate target malloc memory uxQueueLength uxItemSize = some q0) :
    ∃ block, malloc (target.sizeofQueue + uxQueueLength * uxItemSize) = some block ∧
    ∀ calls : List (Nat × Call Memory),
      (Runs.run call q0 calls).map Prod.snd =
        (Runs.run (step uxQueueLength) [] (calls.map (specCall uxItemSize))).map Prod.snd ∧
      ∀ q replies, Runs.run call q0 calls = some (q, replies) →
        Served (block + target.sizeofQueue) uxQueueLength uxItemSize
          (calls.map (specCall uxItemSize)) replies q := by
  obtain ⟨block, granted, start⟩ := xQueueCreate_refines hl hs fits created
  refine ⟨block, granted, fun calls => ?_⟩
  have sim := (call_simulates (block + target.sizeofQueue) uxQueueLength uxItemSize).run start calls
  have spec : Runs.run (fun items c => step uxQueueLength items (specCall uxItemSize c)) [] calls =
      Runs.run (step uxQueueLength) [] (calls.map (specCall uxItemSize)) := Runs.run_map _ _ _
  rw [spec] at sim
  rcases sim with ⟨hc, ha⟩ | ⟨q, items, replies, hc, ha, hR⟩
  · refine ⟨by rw [hc, ha]; rfl, fun q replies h => ?_⟩
    rw [hc] at h
    cases h
  · refine ⟨by rw [hc, ha]; rfl, fun q' replies' h => ?_⟩
    rw [hc] at h
    cases h
    obtain ⟨hhead, rfl, rfl, read, ring, rfl⟩ := hR
    have conserved := run_conserves ha
    rw [List.nil_append] at conserved
    have hpos : 0 < q.uxLength := hl
    refine ⟨⟨waiting q read, conserved, waiting_length q read, ?_⟩, ?_, ring.count,
      ⟨slot q.uxLength read q.uxMessagesWaiting, slot_lt hpos _ _, ?_⟩,
      ⟨read, ring.readSlot, ?_⟩, hhead, ?_⟩
    · rw [receive_eq ring]
      cases waiting q read <;> rfl
    · rw [conserved, List.length_append, waiting_length]
    · rw [ring.writeTo, hhead]
    · rw [ring.readFrom, hhead]
    · rw [ring.tail, hhead]

/-- The queue of the event loop: sixteen records of 48 bytes. -/
theorem eventloop_queue_refines :
    let target : Target := ⟨2 ^ 64, 144⟩
    ∃ q0, xQueueCreate target (fun _ => some 4096) (fun _ => 0) 16 48 = some q0 ∧
      ∃ block, some 4096 = some block ∧ ∀ calls : List (Nat × Call Memory),
        (Runs.run call q0 calls).map Prod.snd =
          (Runs.run (step 16) [] (calls.map (specCall 48))).map Prod.snd ∧
        ∀ q replies, Runs.run call q0 calls = some (q, replies) →
          Served (block + target.sizeofQueue) 16 48 (calls.map (specCall 48)) replies q :=
  ⟨_, rfl, queue_refines_bounded_fifo ⟨2 ^ 64, 144⟩ (fun _ => some 4096) (fun _ => 0) 16 48
    (by decide) (by decide) (by decide) _ rfl⟩

/-- With 2^63 slots of two bytes the 64-bit product is 0: the queue gets no storage at all,
both pointers lie outside it and the second send overwrites the first item. -/
theorem size_overflow_breaks_fifo :
    ∃ q0, xQueueCreate ⟨2 ^ 64, 144⟩ (fun _ => some 4096) (fun _ => 0) (2 ^ 63) 2 = some q0 ∧
      ¬ q0.pcWriteTo < q0.pcTail ∧
      (Runs.run call q0 [(0, .send fun _ => 1), (1, .send fun _ => 2), (2, .receive)]).map
          Prod.snd = some [.accepted, .accepted, .handed [2, 2]] ∧
      (Runs.run (step (2 ^ 63)) []
        ([(0, .send fun _ => 1), (1, .send fun _ => 2), (2, .receive)].map (specCall 2))).map
          Prod.snd = some [.accepted, .accepted, .handed [1, 1]] :=
  ⟨_, rfl, by decide, by decide, by decide⟩

end JsEmbeddedPlatform.EventQueue
