import JsEmbeddedPlatform.Sessions

/-!
# Sessions that keep apart

What holds of the uploader and its clients as long as the sessions do not touch what another
one needs. There is then at most one connection that has read anything of the file.
-/

set_option autoImplicit false

namespace JsEmbeddedPlatform.Serving

open Downloader (payloadTypeRequest payloadTypeDescription payloadTypeFlowStart payloadTypeFlowEnd
  payloadTypeChunk payloadTypeChunkAck chunkPacket length_chunkPacket)
open Uploader (writeAt alloc padded chunkLength requestedSize descBuff fillChunk)
open FileChunks (ackMessage)
open Sessions

/-! ## The invariant -/

/-- What a client has received, given the end flag and, of its connection, `currChunk` and the
bytes that were read. -/
def Stands (file : List UInt8) (endFlag : Bool) (currChunk taken : Nat) (k : Client) : Prop :=
  match k.stage with
  | .connected => k.ids = [] ∧ k.data = [] ∧ taken = 0 ∧ currChunk = 0
  | .requested => k.ids = [] ∧ k.data = [] ∧ taken = 0 ∧ currChunk = 0
  | .described => k.ids = [] ∧ k.data = [] ∧ taken = 0 ∧ currChunk = 0
  | .reading => k.ids = List.range currChunk
  | .chunk => k.ids = List.range currChunk ∧ 0 < currChunk ∧
      if endFlag then k.data = file ++ [0] else 0 < taken ∧ k.data = file.take taken
  | .ended => k.ids = List.range k.ids.length ∧ k.data = file ++ [0]
  | .strayed => True

/-- A read that is done and has not called back, `n` bytes of the `taken` of its connection. -/
structure Filled (file : List UInt8) (p : Process) (taken n : Nat) : Prop where
  position : p.position = taken
  bytes : ∃ bytes, bytes.length = n ∧ n ≤ p.chunkSize ∧
    p.chunkBuffer = some (writeAt 7 bytes (alloc (p.chunkSize + 7))) ∧
    file.take (taken - n) ++ bytes = file.take taken
  short : n < p.chunkSize → p.position = file.length
  flagged : p.endFlag = true → n < p.chunkSize

structure Pending (file : List UInt8) (p : Process) (k : Client) (taken : Nat) (r : Read) :
    Prop where
  current : r.current = true
  length : r.length = p.chunkSize
  stage : k.stage = .reading ∨ k.stage = .strayed
  data : k.stage = .reading → k.data = file.take (taken - r.bytesRead.getD 0)
  cleared : r.bytesRead = none → p.chunkBuffer = some (alloc (p.chunkSize + 7))
  filled : ∀ n, r.bytesRead = some n → Filled file p taken n

structure Invariant (file : List UInt8) (p : Process) (clients : Nat → Client) (taken : Nat → Nat) :
    Prop where
  served : p.file = file
  reader : ∃ c, p.position = taken c ∧ ∀ d, d ≠ c → taken d = 0
  within : p.position ≤ file.length
  flag : p.endFlag = true → p.position = file.length
  buffer : ∀ b, p.chunkBuffer = some b →
    0 < p.chunkSize ∧ p.chunkSize ≤ 2040 ∧ b.length = p.chunkSize + 7
  fresh : ∀ c, p.connections ≤ c → (clients c).stage = .connected
  reads : p.reads = [] ∨
    ∃ r, p.reads = [r] ∧ Pending file p (clients r.connection) (taken r.connection) r
  awaited : ∀ c, (clients c).stage = .reading → ∃ r ∈ p.reads, r.connection = c
  clients : ∀ c, Stands file p.endFlag (p.currChunk c) (taken c) (clients c)

section Clients
variable {file : List UInt8} {f g : Bool} {currChunk taken : Nat} {k : Client}

/-- The end flag is of no importance but to a client that has a chunk. -/
theorem Stands.withFlag (h : Stands file f currChunk taken k) (hf : k.stage = .chunk → f = g) :
    Stands file g currChunk taken k := by
  unfold Stands at h ⊢
  cases hk : k.stage with
  | chunk =>
    rw [hk] at h
    rw [← hf hk]
    exact h
  | _ =>
    rw [hk] at h
    exact h

theorem stands_of_strayed (h : k.stage = .strayed) : Stands file f currChunk taken k := by
  unfold Stands
  rw [h]
  trivial

/-- While a client waits for a chunk its reads go on. -/
theorem Stands.whileReading {n : Nat} (h : Stands file f currChunk taken k)
    (hk : k.stage = .reading ∨ k.stage = .strayed) : Stands file f currChunk n k := by
  unfold Stands at h ⊢
  rcases hk with hk | hk
  · rw [hk] at h ⊢
    exact h
  · rw [hk]
    trivial

theorem send_served {buff : List UInt8} (h : k.stage ≠ .strayed → k.Served file)
    (hsend : (k.send buff).stage ≠ .strayed) : (k.send buff).Served file := by
  unfold Client.send at hsend ⊢
  split
  · next hdue =>
    have hk := h (by
      intro hstrayed
      unfold Client.due at hdue
      rw [hstrayed] at hdue
      cases hdue)
    refine ⟨hk.ids, hk.data, ?_⟩
    intro hended
    simp only at hended
    split at hended <;> cases hended
  · next hdue =>
    rw [if_neg hdue] at hsend
    exact absurd rfl hsend

/-- A packet of a client that follows the protocol. -/
theorem due_cases {buff : List UInt8} (h : k.due buff = true) :
    (k.stage = .connected ∧ buff.getD 0 0 = payloadTypeRequest) ∨
      (k.stage = .described ∧ buff.getD 0 0 = payloadTypeFlowStart) ∨
      (k.stage = .chunk ∧ buff.getD 0 0 = payloadTypeChunkAck) := by
  unfold Client.due at h
  split at h
  · next hk =>
    simp only [Bool.and_eq_true, decide_eq_true_eq] at h
    exact Or.inl ⟨hk, h.2⟩
  · next hk =>
    rw [decide_eq_true_eq] at h
    exact Or.inr (Or.inl ⟨hk, by rw [h]; rfl⟩)
  · next hk =>
    rw [decide_eq_true_eq] at h
    exact Or.inr (Or.inr ⟨hk, by rw [h]; rfl⟩)
  · cases h

end Clients

section State
variable {file : List UInt8} {p : Process} {clients : Nat → Client} {taken : Nat → Nat}

/-- The clients have what they are to have so far. -/
theorem Invariant.clients_served (h : Invariant file p clients taken) (c : Nat)
    (hc : (clients c).stage ≠ .strayed) : (clients c).Served file := by
  have hstands := h.clients c
  have hprefix : ∀ n, file.take n <+: file ++ [0] :=
    fun n => (List.take_prefix n file).trans (List.prefix_append file [0])
  unfold Stands at hstands
  cases hk : (clients c).stage with
  | strayed => exact absurd hk hc
  | reading =>
    rw [hk] at hstands
    obtain ⟨r, hr, rfl⟩ := h.awaited c hk
    have hdata : ∃ n, (clients r.connection).data = file.take n := by
      rcases h.reads with hnone | ⟨q, hone, hpending⟩
      · rw [hnone] at hr
        cases hr
      · rw [hone, List.mem_singleton] at hr
        subst hr
        exact ⟨_, hpending.data hk⟩
    obtain ⟨n, hn⟩ := hdata
    refine ⟨by rw [hstands, List.length_range], hn ▸ hprefix n, fun h => ?_⟩
    rw [hk] at h
    cases h
  | chunk =>
    rw [hk] at hstands
    obtain ⟨hids, _, hdata⟩ := hstands
    refine ⟨by rw [hids, List.length_range], ?_, fun h => ?_⟩
    · split at hdata
      · exact hdata ▸ List.prefix_rfl
      · exact hdata.2 ▸ hprefix _
    · rw [hk] at h
      cases h
  | ended =>
    rw [hk] at hstands
    exact ⟨hstands.1, hstands.2 ▸ List.prefix_rfl, fun _ => hstands.2⟩
  | connected | requested | described =>
    rw [hk] at hstands
    refine ⟨by rw [hstands.1]; rfl, by rw [hstands.2.1]; exact List.nil_prefix, fun h => ?_⟩
    rw [hk] at h
    cases h

theorem initial_invariant (file programName : List UInt8) :
    Invariant file (listening file programName) (fun _ => ⟨.connected, [], []⟩) (fun _ => 0) where
  served := rfl
  reader := ⟨0, rfl, fun _ _ => rfl⟩
  within := Nat.zero_le _
  flag := by simp [listening]
  buffer := by simp [listening]
  fresh := fun _ _ => rfl
  reads := Or.inl rfl
  awaited := by simp
  clients := fun _ => ⟨rfl, rfl, rfl, rfl⟩

/-! ## What a connection does to the others -/

/-- When bytes were read for `c` nothing was read for the others, and the position is `c`'s. -/
theorem Invariant.alone (h : Invariant file p clients taken) {c : Nat} (hc : 0 < taken c) :
    p.position = taken c ∧ ∀ d, d ≠ c → taken d = 0 := by
  obtain ⟨e, hposition, hothers⟩ := h.reader
  by_cases hce : c = e
  · subst hce
    exact ⟨hposition, hothers⟩
  · have := hothers c hce
    omega

/-- Where the position is that of `c`, nothing was read for the others. -/
theorem Invariant.others_zero (h : Invariant file p clients taken) {c : Nat}
    (hc : p.position = taken c) {d : Nat} (hd : d ≠ c) : taken d = 0 := by
  by_cases hzero : taken d = 0
  · exact hzero
  · obtain ⟨hposition, hothers⟩ := h.alone (Nat.pos_of_ne_zero hzero)
    have := hothers c (Ne.symm hd)
    omega

theorem Invariant.known (h : Invariant file p clients taken) {c : Nat}
    (hc : (clients c).stage ≠ .connected) : c < p.connections := by
  apply Classical.byContradiction
  intro hge
  exact hc (h.fresh c (by omega))

theorem connect_keeps (h : Invariant file p clients taken)
    (hseparate : p.endFlag = true → ∀ c < p.connections, (clients c).stage ≠ .chunk) :
    Invariant file (connect p) clients taken where
  served := h.served
  reader := h.reader
  within := h.within
  flag := by simp [connect]
  buffer := h.buffer
  fresh := fun c hc => h.fresh c (Nat.le_of_succ_le hc)
  reads := by
    rcases h.reads with hnone | ⟨r, hone, hpending⟩
    · exact Or.inl hnone
    · refine Or.inr ⟨r, hone, ⟨hpending.current, hpending.length, hpending.stage, hpending.data,
        hpending.cleared, fun n hn => ?_⟩⟩
      have hfilled := hpending.filled n hn
      exact ⟨hfilled.position, hfilled.bytes, hfilled.short, by simp [connect]⟩
  awaited := h.awaited
  clients := by
    intro c
    have hstands := h.clients c
    by_cases hc : c = p.connections
    · subst hc
      unfold Stands at hstands ⊢
      rw [h.fresh _ (Nat.le_refl _)] at hstands ⊢
      refine ⟨hstands.1, hstands.2.1, hstands.2.2.1, ?_⟩
      unfold connect
      exact Function.update_self ..
    · have hcurr : (connect p).currChunk c = p.currChunk c := Function.update_of_ne hc ..
      rw [hcurr]
      apply hstands.withFlag
      intro hchunk
      have hknown := h.known (c := c) (by rw [hchunk]; simp)
      cases hflag : p.endFlag with
      | false => rfl
      | true => exact absurd hchunk (hseparate hflag c hknown)

/-- The process stays as it is, and a client that was not waiting does not wait afterwards. -/
theorem client_keeps (h : Invariant file p clients taken) {c : Nat} (hc : c < p.connections)
    {k : Client} (hk : Stands file p.endFlag (p.currChunk c) (taken c) k)
    (hstage : k.stage ≠ .reading) (hbefore : (clients c).stage = .chunk ∨ k.stage = .strayed) :
    Invariant file p (Function.update clients c k) taken where
  served := h.served
  reader := h.reader
  within := h.within
  flag := h.flag
  buffer := h.buffer
  fresh := by
    apply (Function.forall_update_iff clients fun d k =>
      p.connections ≤ d → k.stage = .connected).mpr
    exact ⟨fun hd => absurd hc (Nat.not_lt.mpr hd), fun d _ => h.fresh d⟩
  reads := by
    rcases h.reads with hnone | ⟨r, hone, hpending⟩
    · exact Or.inl hnone
    · refine Or.inr ⟨r, hone, ?_⟩
      by_cases hr : r.connection = c
      · subst hr
        rw [Function.update_self]
        rcases hbefore with hchunk | hstrayed
        · rcases hpending.stage with hreading | hstrayed
          · exact absurd (hchunk.symm.trans hreading) (by simp)
          · exact absurd (hchunk.symm.trans hstrayed) (by simp)
        · exact ⟨hpending.current, hpending.length, Or.inr hstrayed,
            fun hreading => absurd hreading hstage, hpending.cleared, hpending.filled⟩
      · rw [Function.update_of_ne hr]
        exact hpending
  awaited := by
    apply (Function.forall_update_iff clients fun d k =>
      k.stage = .reading → ∃ r ∈ p.reads, r.connection = d).mpr
    exact ⟨fun hreading => absurd hreading hstage, fun d _ => h.awaited d⟩
  clients := by
    apply (Function.forall_update_iff clients fun d k =>
      Stands file p.endFlag (p.currChunk d) (taken d) k).mpr
    exact ⟨hk, fun d _ => h.clients d⟩

/-- Without a read that is pending the buffer is replaced or cleared; it may be for a new read. -/
theorem clear_keeps (h : Invariant file p clients taken) (hnone : p.reads = []) {c : Nat}
    (hc : c < p.connections) {size : Nat} (hsize : 0 < size ∧ size ≤ 2040) {reads : List Read}
    {k : Client} (hk : Stands file p.endFlag (p.currChunk c) (taken c) k)
    (hreads : (reads = [] ∧ k.stage ≠ .reading) ∨ ∃ r, reads = [r] ∧ r.connection = c ∧
      Pending file { p with
        chunkSize := size
        chunkBuffer := some (alloc (size + 7))
        reads := reads } k (taken c) r) :
    Invariant file { p with
      chunkSize := size
      chunkBuffer := some (alloc (size + 7))
      reads := reads } (Function.update clients c k) taken where
  served := h.served
  reader := h.reader
  within := h.within
  flag := h.flag
  buffer := by
    intro b hb
    cases hb
    exact ⟨hsize.1, hsize.2, Uploader.length_alloc _⟩
  fresh := by
    apply (Function.forall_update_iff clients fun d k =>
      p.connections ≤ d → k.stage = .connected).mpr
    exact ⟨fun hd => absurd hc (Nat.not_lt.mpr hd), fun d _ => h.fresh d⟩
  reads := by
    rcases hreads with ⟨hempty, _⟩ | ⟨r, hone, rfl, hpending⟩
    · exact Or.inl hempty
    · refine Or.inr ⟨r, hone, ?_⟩
      rw [Function.update_self]
      exact hpending
  awaited := by
    apply (Function.forall_update_iff clients fun d k =>
      k.stage = .reading → ∃ r ∈ reads, r.connection = d).mpr
    constructor
    · intro hreading
      rcases hreads with ⟨_, hstage⟩ | ⟨r, hone, hr, _⟩
      · exact absurd hreading hstage
      · exact ⟨r, by rw [hone]; exact List.mem_singleton_self r, hr⟩
    · intro d _ hreading
      obtain ⟨r, hr, _⟩ := h.awaited d hreading
      rw [hnone] at hr
      cases hr
  clients := by
    apply (Function.forall_update_iff clients fun d k =>
      Stands file p.endFlag (p.currChunk d) (taken d) k).mpr
    exact ⟨hk, fun d _ => h.clients d⟩

/-! ## Data from a client -/

theorem requestedSize_bounds (buff : List UInt8) :
    0 < requestedSize buff ∧ requestedSize buff ≤ 2040 := by
  have hbyte := (buff.getD 1 0).toNat_lt
  unfold requestedSize Downloader.chunkMultiplier
  split
  · decide
  · omega

theorem request_keeps (h : Invariant file p clients taken) {c : Nat} (hc : c < p.connections)
    {buff : List UInt8} (hrequest : buff.getD 0 0 = payloadTypeRequest) (hnone : p.reads = [])
    {q : Process} {packets : List (List UInt8)} (hdata : describe buff p = some (q, packets)) :
    Invariant file q
      (Function.update clients c (packets.foldl Client.receive ((clients c).send buff))) taken := by
  unfold describe at hdata
  simp only at hdata
  split at hdata
  · cases hdata
    rw [hnone, List.map_nil, Uploader.descBuff_eq, List.foldl_cons, List.foldl_nil]
    have hstands := h.clients c
    generalize clients c = k at hstands
    unfold Client.send
    by_cases hdue : k.due buff = true
    · rcases due_cases hdue with ⟨hk, _⟩ | ⟨_, hother⟩ | ⟨_, hother⟩
      · rw [if_pos hdue, if_pos hk]
        unfold Stands at hstands
        rw [hk] at hstands
        apply clear_keeps h hnone hc (requestedSize_bounds buff)
        · exact hstands
        · exact Or.inl ⟨rfl, nofun⟩
      · exact absurd (hrequest.symm.trans hother) (by decide)
      · exact absurd (hrequest.symm.trans hother) (by decide)
    · rw [if_neg hdue]
      apply clear_keeps h hnone hc (requestedSize_bounds buff)
      · exact stands_of_strayed rfl
      · exact Or.inl ⟨rfl, nofun⟩
  · cases hdata

theorem ask_keeps (h : Invariant file p clients taken) {c : Nat} (hc : c < p.connections)
    {buff : List UInt8} (hnone : p.reads = [])
    (hbuff : buff.getD 0 0 = payloadTypeFlowStart ∨
      (buff.getD 0 0 = payloadTypeChunkAck ∧ p.endFlag = false))
    {q : Process} {packets : List (List UInt8)} (hdata : sendChunk c p = some (q, packets)) :
    Invariant file q
      (Function.update clients c (packets.foldl Client.receive ((clients c).send buff))) taken := by
  unfold sendChunk at hdata
  cases hbuffer : p.chunkBuffer with
  | none =>
    rw [hbuffer] at hdata
    cases hdata
  | some buffer =>
    rw [hbuffer] at hdata
    cases hdata
    obtain ⟨hpos, hmax, hlength⟩ := h.buffer buffer hbuffer
    rw [hlength, hnone, List.foldl_nil, List.nil_append]
    have hstands := h.clients c
    generalize clients c = k at hstands
    have hpending : ∀ m : Client, m.stage = .reading ∨ m.stage = .strayed →
        (m.stage = .reading → m.data = file.take (taken c)) →
        Pending file { p with
          chunkBuffer := some (alloc (p.chunkSize + 7))
          reads := [⟨c, p.chunkSize, true, none⟩] } m (taken c) ⟨c, p.chunkSize, true, none⟩ := by
      intro m hm hdata
      exact ⟨rfl, rfl, hm, hdata, fun _ => rfl, nofun⟩
    unfold Client.send
    by_cases hdue : k.due buff = true
    · rw [if_pos hdue]
      rcases due_cases hdue with ⟨_, hother⟩ | ⟨hk, _⟩ | ⟨hk, hack⟩
      · rcases hbuff with hbuff | ⟨hbuff, _⟩
        · exact absurd (hbuff.symm.trans hother) (by decide)
        · exact absurd (hbuff.symm.trans hother) (by decide)
      · unfold Stands at hstands
        rw [hk] at hstands
        obtain ⟨hids, hempty, htaken, hcurr⟩ := hstands
        rw [hk, if_neg (by simp)]
        apply clear_keeps h hnone hc ⟨hpos, hmax⟩
        · simp only [Stands, hids, hcurr, List.range_zero]
        · refine Or.inr ⟨_, rfl, rfl, hpending _ (Or.inl rfl) fun _ => ?_⟩
          rw [htaken]
          exact hempty
      · have hflag : p.endFlag = false := by
          rcases hbuff with hbuff | ⟨_, hflag⟩
          · exact absurd (hbuff.symm.trans hack) (by decide)
          · exact hflag
        unfold Stands at hstands
        rw [hk, hflag] at hstands
        obtain ⟨hids, _, _, htake⟩ := hstands
        rw [hk, if_neg (by simp)]
        apply clear_keeps h hnone hc ⟨hpos, hmax⟩
        · exact hids
        · exact Or.inr ⟨_, rfl, rfl, hpending _ (Or.inl rfl) fun _ => htake⟩
    · rw [if_neg hdue]
      apply clear_keeps h hnone hc ⟨hpos, hmax⟩
      · exact stands_of_strayed rfl
      · exact Or.inr ⟨_, rfl, rfl, hpending _ (Or.inr rfl) nofun⟩

/-- The last acknowledgement is answered with the end of the flow. -/
theorem end_keeps (h : Invariant file p clients taken) {c : Nat} (hc : c < p.connections)
    {buff : List UInt8} (hack : buff.getD 0 0 = payloadTypeChunkAck) (hflag : p.endFlag = true) :
    Invariant file p (Function.update clients c
      (([[payloadTypeFlowEnd]] : List (List UInt8)).foldl Client.receive
        ((clients c).send buff))) taken := by
  rw [List.foldl_cons, List.foldl_nil]
  have hstands := h.clients c
  unfold Client.send
  by_cases hdue : (clients c).due buff = true
  · rw [if_pos hdue]
    rcases due_cases hdue with ⟨_, hother⟩ | ⟨_, hother⟩ | ⟨hk, _⟩
    · exact absurd (hack.symm.trans hother) (by decide)
    · exact absurd (hack.symm.trans hother) (by decide)
    · unfold Stands at hstands
      rw [hk, hflag] at hstands
      obtain ⟨hids, _, hdata⟩ := hstands
      rw [if_neg (by rw [hk]; simp)]
      have hcount : (clients c).ids = List.range (clients c).ids.length := by
        rw [hids, List.length_range]
      apply client_keeps h hc
      · exact ⟨hcount, hdata⟩
      · exact nofun
      · exact Or.inl hk
  · rw [if_neg hdue]
    exact client_keeps h hc (stands_of_strayed rfl) nofun (Or.inr rfl)

/-- A packet of no known type. -/
theorem ignored_keeps (h : Invariant file p clients taken) {c : Nat} (hc : c < p.connections)
    {buff : List UInt8} (hrequest : buff.getD 0 0 ≠ payloadTypeRequest)
    (hstart : buff.getD 0 0 ≠ payloadTypeFlowStart) (hack : buff.getD 0 0 ≠ payloadTypeChunkAck) :
    Invariant file p (Function.update clients c ((clients c).send buff)) taken := by
  have hdue : ¬ (clients c).due buff = true := by
    intro hdue
    rcases due_cases hdue with ⟨_, hother⟩ | ⟨_, hother⟩ | ⟨_, hother⟩
    · exact hrequest hother
    · exact hstart hother
    · exact hack hother
  unfold Client.send
  rw [if_neg hdue]
  exact client_keeps h hc (stands_of_strayed rfl) nofun (Or.inr rfl)

theorem data_keeps (h : Invariant file p clients taken) {c : Nat} (hc : c < p.connections)
    {buff : List UInt8} (hseparate : Clears buff p → p.reads = []) {q : Process}
    {packets : List (List UInt8)} (hdata : onData c buff p = some (q, packets)) :
    Invariant file q
      (Function.update clients c (packets.foldl Client.receive ((clients c).send buff))) taken := by
  unfold onData at hdata
  split at hdata
  · next hrequest => exact request_keeps h hc hrequest (hseparate (Or.inl hrequest)) hdata
  · next hrequest =>
    split at hdata
    · next hstart =>
      exact ask_keeps h hc (hseparate (Or.inr (Or.inl hstart))) (Or.inl hstart) hdata
    · next hstart =>
      split at hdata
      · next hack =>
        split at hdata
        · cases hdata
        · cases hflag : p.endFlag with
          | true =>
            rw [hflag] at hdata
            cases hdata
            exact end_keeps h hc hack hflag
          | false =>
            rw [hflag] at hdata
            exact ask_keeps h hc (hseparate (Or.inr (Or.inr ⟨hack, hflag⟩)))
              (Or.inr ⟨hack, hflag⟩) hdata
      · next hack =>
        cases hdata
        exact ignored_keeps h hc hrequest hstart hack

/-! ## A read -/

theorem Invariant.pending_of_get (h : Invariant file p clients taken) {i : Nat} {r : Read}
    (hr : p.reads[i]? = some r) :
    i = 0 ∧ p.reads = [r] ∧ Pending file p (clients r.connection) (taken r.connection) r := by
  rcases h.reads with hnone | ⟨q, hone, hpending⟩
  · rw [hnone] at hr
    cases hr
  · rw [hone] at hr
    obtain ⟨hi, hq⟩ := List.getElem?_eq_some_iff.mp hr
    rw [List.length_singleton] at hi
    obtain rfl : i = 0 := by omega
    rw [List.getElem_cons_zero] at hq
    subst hq
    exact ⟨rfl, hone, hpending⟩

theorem length_writeAt {i : Nat} {bytes buffer : List UInt8} (h : i + bytes.length ≤ buffer.length) :
    (writeAt i bytes buffer).length = buffer.length := by
  unfold writeAt
  rw [List.length_append, List.length_append, List.length_take, List.length_drop]
  omega

theorem perform_position (i : Nat) (r : Read) (p : Process) :
    (perform i r p).position = p.position + (readBytes r p).length := rfl

theorem perform_chunkSize (i : Nat) (r : Read) (p : Process) :
    (perform i r p).chunkSize = p.chunkSize := rfl

theorem length_readBytes (r : Read) (p : Process) :
    (readBytes r p).length = min r.length (p.file.length - p.position) := by
  unfold readBytes
  rw [List.length_take, List.length_drop]

/-- The bytes continue those before the position. -/
theorem take_readBytes (r : Read) (p : Process) :
    p.file.take p.position ++ readBytes r p =
      p.file.take (p.position + (readBytes r p).length) := by
  have hbytes : (p.file.drop p.position).take (readBytes r p).length = readBytes r p := by
    unfold readBytes
    rw [List.length_take, ← List.take_eq_take_min]
  rw [List.take_add, hbytes]

theorem perform_fills (h : Invariant file p clients taken) {r : Read} {k : Client}
    (hpending : Pending file p k (taken r.connection) r) (hnotDone : r.bytesRead = none)
    (hposition : p.position = taken r.connection) :
    Filled file (perform 0 r p) (taken r.connection + (readBytes r p).length)
      (readBytes r p).length := by
  have hlength := length_readBytes r p
  have htake := take_readBytes r p
  rw [hpending.length, h.served] at hlength
  rw [h.served, hposition] at htake
  refine ⟨?_, ⟨readBytes r p, rfl, ?_, ?_, ?_⟩, ?_, ?_⟩
  · rw [perform_position, hposition]
  · rw [perform_chunkSize]
    omega
  · unfold perform
    simp only [hpending.current, hpending.cleared hnotDone, if_true, Option.map_some]
  · rw [Nat.add_sub_cancel]
    exact htake
  · intro hshort
    have hwithin := h.within
    rw [perform_chunkSize] at hshort
    rw [perform_position]
    omega
  · intro hflag
    have hend := h.flag hflag
    obtain ⟨hpos, _⟩ := h.buffer _ (hpending.cleared hnotDone)
    rw [perform_chunkSize]
    omega

theorem perform_keeps (h : Invariant file p clients taken) {i : Nat} {r : Read}
    (hr : p.reads[i]? = some r) (hnotDone : r.bytesRead = none)
    (hposition : p.position = taken r.connection) :
    Invariant file (perform i r p) clients
      (Function.update taken r.connection
        (taken r.connection + (readBytes r p).length)) := by
  obtain ⟨rfl, hone, hpending⟩ := h.pending_of_get hr
  have hfilled := perform_fills h hpending hnotDone hposition
  have hreads : (perform 0 r p).reads = [{ r with bytesRead := some (readBytes r p).length }] := by
    unfold perform
    rw [hone]
    rfl
  have hlength := length_readBytes r p
  have hwithin := h.within
  rw [h.served] at hlength
  constructor
  · exact h.served
  · refine ⟨r.connection, ?_, ?_⟩
    · rw [Function.update_self]
      exact hfilled.position
    · intro d hd
      rw [Function.update_of_ne hd]
      exact h.others_zero hposition hd
  · rw [perform_position]
    omega
  · intro hflag
    have hend := h.flag hflag
    rw [perform_position]
    omega
  · intro b hb
    obtain ⟨bytes, _, hbytes, hbuffer, _⟩ := hfilled.bytes
    obtain ⟨hpos, hmax, _⟩ := h.buffer _ (hpending.cleared hnotDone)
    rw [hbuffer] at hb
    cases hb
    refine ⟨hpos, hmax, ?_⟩
    rw [length_writeAt, Uploader.length_alloc]
    rw [Uploader.length_alloc]
    omega
  · exact h.fresh
  · refine Or.inr ⟨_, hreads, hpending.current, hpending.length, hpending.stage, ?_, nofun, ?_⟩
    · intro hreading
      have hdata := hpending.data hreading
      rw [hnotDone] at hdata
      rw [Function.update_self, Option.getD_some, Nat.add_sub_cancel]
      exact hdata
    · intro n hn
      cases hn
      rw [Function.update_self]
      exact hfilled
  · intro c hc
    obtain ⟨q, hq, hqc⟩ := h.awaited c hc
    rw [hone, List.mem_singleton] at hq
    subst hq
    refine ⟨{ q with bytesRead := some (readBytes q p).length }, ?_, hqc⟩
    rw [hreads]
    exact List.mem_singleton_self _
  · intro c
    have hstands := h.clients c
    by_cases hc : c = r.connection
    · subst hc
      exact hstands.whileReading hpending.stage
    · rw [Function.update_of_ne hc]
      exact hstands

/-- What a client that waits makes of a chunk. -/
theorem receive_chunk {k : Client} (hk : k.stage = .reading) {id : Nat} (hid : id < 65536)
    {bytes : List UInt8} {size : Nat} (hbytes : bytes.length ≤ size) (hsize : size ≤ 2040) :
    k.receive (chunkPacket id (chunkLength size bytes) (padded size bytes)) =
      ⟨.chunk, k.ids ++ [id],
        k.data ++ if bytes.length < size then bytes ++ [0] else bytes⟩ := by
  have hannounced := Delivery.chunkLength_le hbytes
  have htake := Delivery.take_padded size bytes []
  rw [List.append_nil] at htake
  have hhead : ∀ length data, (chunkPacket id length data).getD 0 0 = payloadTypeChunk :=
    fun _ _ => rfl
  have hids : LittleEndian.decode (((chunkPacket id (chunkLength size bytes)
      (padded size bytes)).drop 1).take 2) = id := LittleEndian.decode_take_encode hid _
  have hlength : LittleEndian.decode (((chunkPacket id (chunkLength size bytes)
      (padded size bytes)).drop 3).take 4) = chunkLength size bytes :=
    LittleEndian.decode_take_encode (Nat.lt_of_le_of_lt (Nat.le_trans hannounced hsize)
      (by decide)) _
  have hdata : (chunkPacket id (chunkLength size bytes) (padded size bytes)).drop 7 =
      padded size bytes := rfl
  unfold Client.receive
  rw [if_neg (by rw [hk]; simp), hhead, if_neg (by decide), if_pos rfl, hids, hlength, hdata, htake]

theorem receive_strayed {k : Client} (hk : k.stage = .strayed) (packet : List UInt8) :
    k.receive packet = k := by
  unfold Client.receive
  rw [if_pos hk]

/-- The chunk of a read that is done, as its client has it. -/
theorem callback_stands (h : Invariant file p clients taken) {c n : Nat}
    (hk : (clients c).stage = .reading) (hfilled : Filled file p (taken c) n)
    (hdata : (clients c).data = file.take (taken c - n)) (hid : p.currChunk c < 65536)
    {buffer : List UInt8} (hbuffer : p.chunkBuffer = some buffer) :
    Stands file (p.endFlag || decide (n < p.chunkSize)) (p.currChunk c + 1) (taken c)
      ((clients c).receive (fillChunk (p.currChunk c) p.chunkSize n buffer)) := by
  obtain ⟨bytes, rfl, hle, hfill, htake⟩ := hfilled.bytes
  obtain ⟨hpos, hmax, _⟩ := h.buffer _ hbuffer
  rw [hfill] at hbuffer
  cases hbuffer
  have hstands := h.clients c
  unfold Stands at hstands
  rw [hk] at hstands
  rw [Uploader.fillChunk_eq _ hle, receive_chunk hk hid hle hmax]
  refine ⟨?_, Nat.succ_pos _, ?_⟩
  · rw [hstands, List.range_succ]
  · by_cases hshort : bytes.length < p.chunkSize
    · have hend : taken c = file.length := hfilled.position.symm.trans (hfilled.short hshort)
      simp only [hshort, decide_true, Bool.or_true, if_true]
      rw [hdata, ← List.append_assoc, htake, hend, List.take_length]
    · have hflag : p.endFlag = false := by
        cases hflag : p.endFlag with
        | false => rfl
        | true => exact absurd (hfilled.flagged hflag) hshort
      simp only [hflag, hshort, decide_false, Bool.or_false, Bool.false_eq_true, if_false]
      have hlengths := congrArg List.length htake
      have hwithin := h.within
      rw [List.length_append, List.length_take, List.length_take] at hlengths
      have hposition := hfilled.position
      refine ⟨by omega, ?_⟩
      rw [hdata, htake]

/-- The end flag that a short read sets is of no other client that has a chunk. -/
theorem callback_flag (h : Invariant file p clients taken) {c n : Nat}
    (hfilled : Filled file p (taken c) n) {d : Nat} (hd : d ≠ c)
    (hchunk : (clients d).stage = .chunk) :
    p.endFlag = (p.endFlag || decide (n < p.chunkSize)) := by
  cases hflag : p.endFlag with
  | true => rfl
  | false =>
    have hstands := h.clients d
    unfold Stands at hstands
    rw [hchunk, hflag] at hstands
    have htaken : 0 < taken d := hstands.2.2.1
    have hzero := h.others_zero hfilled.position hd
    omega

theorem length_fillChunk {n m : Nat} (hfilled : Filled file p m n) (id : Nat) {buffer : List UInt8}
    (hbuffer : p.chunkBuffer = some buffer) :
    (fillChunk id p.chunkSize n buffer).length = p.chunkSize + 7 := by
  obtain ⟨bytes, rfl, hle, hfill, _⟩ := hfilled.bytes
  rw [hfill] at hbuffer
  cases hbuffer
  rw [Uploader.fillChunk_eq _ hle, length_chunkPacket, Uploader.length_padded hle, Nat.add_comm]

/-- The client of a read does not wait when it has called back. -/
theorem receive_notReading (h : Invariant file p clients taken) {c n : Nat}
    (hstage : (clients c).stage = .reading ∨ (clients c).stage = .strayed)
    (hfilled : Filled file p (taken c) n) (hid : p.currChunk c < 65536) {buffer : List UInt8}
    (hbuffer : p.chunkBuffer = some buffer) :
    ((clients c).receive (fillChunk (p.currChunk c) p.chunkSize n buffer)).stage ≠ .reading := by
  obtain ⟨bytes, rfl, hle, hfill, _⟩ := hfilled.bytes
  obtain ⟨_, hmax, _⟩ := h.buffer _ hbuffer
  rw [hfill] at hbuffer
  cases hbuffer
  rcases hstage with hk | hk
  · rw [Uploader.fillChunk_eq _ hle, receive_chunk hk hid hle hmax]
    exact nofun
  · rw [receive_strayed hk, hk]
    exact nofun

theorem callback_keeps (h : Invariant file p clients taken) {i : Nat} {r : Read} {n : Nat}
    (hr : p.reads[i]? = some r) (hdone : r.bytesRead = some n) {q : Process}
    {packets : List (List UInt8)}
    (hcallback : callback r.connection n (p.reads.eraseIdx i) p = some (q, packets)) :
    Invariant file q (Function.update clients r.connection
      (packets.foldl Client.receive (clients r.connection))) taken := by
  obtain ⟨rfl, hone, hpending⟩ := h.pending_of_get hr
  have hfilled := hpending.filled n hdone
  unfold callback at hcallback
  cases hbuffer : p.chunkBuffer with
  | none =>
    rw [hbuffer] at hcallback
    cases hcallback
  | some buffer =>
    rw [hbuffer] at hcallback
    simp only at hcallback
    split at hcallback
    · next hid =>
      cases hcallback
      rw [hone, List.eraseIdx_cons_zero, List.foldl_cons, List.foldl_nil]
      constructor
      · exact h.served
      · exact h.reader
      · exact h.within
      · intro hflag
        simp only [Bool.or_eq_true, decide_eq_true_eq] at hflag
        rcases hflag with hflag | hshort
        · exact h.flag hflag
        · exact hfilled.short hshort
      · intro b hb
        obtain ⟨hpos, hmax, _⟩ := h.buffer _ hbuffer
        cases hb
        exact ⟨hpos, hmax, length_fillChunk hfilled _ hbuffer⟩
      · have hknown : r.connection < p.connections := by
          apply h.known
          rcases hpending.stage with hk | hk
          · simp [hk]
          · simp [hk]
        apply (Function.forall_update_iff clients fun d k =>
          p.connections ≤ d → k.stage = .connected).mpr
        exact ⟨fun hd => absurd hknown (Nat.not_lt.mpr hd), fun d _ => h.fresh d⟩
      · exact Or.inl rfl
      · apply (Function.forall_update_iff clients fun d k =>
          k.stage = .reading → ∃ q ∈ ([] : List Read), q.connection = d).mpr
        constructor
        · intro hreading
          exact absurd hreading (receive_notReading h hpending.stage hfilled hid hbuffer)
        · intro d hd hreading
          obtain ⟨q, hq, rfl⟩ := h.awaited d hreading
          rw [hone, List.mem_singleton] at hq
          exact absurd (congrArg Read.connection hq) hd
      · intro c
        by_cases hrc : c = r.connection
        · subst hrc
          simp only [Function.update_self]
          rcases hpending.stage with hk | hk
          · have hdata := hpending.data hk
            rw [hdone, Option.getD_some] at hdata
            exact callback_stands h hk hfilled hdata hid hbuffer
          · rw [receive_strayed hk]
            exact stands_of_strayed hk
        · simp only [Function.update_of_ne hrc]
          exact (h.clients c).withFlag (callback_flag h hfilled hrc)
    · cases hcallback

end State

/-! ## Runs -/

/-- The invariant, and what the clients have even when the process has thrown. -/
structure Apart (file : List UInt8) (s : System) : Prop where
  served : Served file s
  invariant : ∀ p, s.process = some p → Invariant file p s.clients s.taken

theorem apart_of_invariant {file : List UInt8} {p : Process} {clients : Nat → Client}
    {taken : Nat → Nat} (h : Invariant file p clients taken) :
    Apart file ⟨some p, clients, taken⟩ := by
  refine ⟨h.clients_served, ?_⟩
  intro q hq
  cases hq
  exact h

theorem step_apart {file : List UInt8} {s t : System} {e : Event}
    {sends : List (Nat × List UInt8)} (h : Apart file s) (hseparate : Separate s e)
    (hstep : step s e = some (t, sends)) : Apart file t := by
  cases hp : s.process with
  | none =>
    simp only [step, hp] at hstep
    cases hstep
  | some p =>
    have hinv := h.invariant p hp
    simp only [step, hp] at hstep
    simp only [Separate, hp] at hseparate
    cases e with
    | connect =>
      cases hstep
      exact apart_of_invariant (connect_keeps hinv hseparate)
    | data c buff =>
      simp only at hstep
      split at hstep
      · next hc =>
        cases hdata : onData c buff p with
        | none =>
          rw [hdata] at hstep
          cases hstep
          refine ⟨?_, nofun⟩
          intro d
          by_cases hdc : d = c
          · subst hdc
            simp only [Function.update_self]
            exact send_served (h.served d)
          · simp only [Function.update_of_ne hdc]
            exact h.served d
        | some result =>
          obtain ⟨q, packets⟩ := result
          rw [hdata] at hstep
          cases hstep
          simp only [Function.update_self, Function.update_idem]
          exact apart_of_invariant (data_keeps hinv hc hseparate hdata)
      · cases hstep
    | perform i =>
      simp only at hstep
      split at hstep
      · cases hstep
      · next r hr =>
        split at hstep
        · next hnotDone =>
          cases hstep
          exact apart_of_invariant (perform_keeps hinv hr hnotDone (hseparate r hr))
        · cases hstep
    | callback i =>
      simp only at hstep
      split at hstep
      · cases hstep
      · next r hr =>
        split at hstep
        · cases hstep
        · next n hdone =>
          cases hcallback : callback r.connection n (p.reads.eraseIdx i) p with
          | none =>
            rw [hcallback] at hstep
            cases hstep
            exact ⟨h.served, nofun⟩
          | some result =>
            obtain ⟨q, packets⟩ := result
            rw [hcallback] at hstep
            cases hstep
            exact apart_of_invariant (callback_keeps hinv hr hdone hcallback)

/-- As long as the sessions keep apart every client that follows the protocol gets the file. -/
theorem served_while_separate (file programName : List UInt8) (events : List Event)
    (h : Runs.Along Separate step (initial file programName) events) :
    Runs.Always (Served file) step (initial file programName) events := by
  have hall : Runs.Always (Apart file) step (initial file programName) events :=
    Runs.always_of_along (fun _ _ _ _ hs hC hstep => step_apart hs hC hstep)
      (apart_of_invariant (initial_invariant file programName)) h
  exact hall.mono fun _ hs => hs.served

/-- All of a session of which the file needs one chunk. -/
def session (c : Nat) : List Event :=
  [.connect, .data c [payloadTypeRequest, 64], .data c [payloadTypeFlowStart], .perform 0,
    .callback 0, .data c (ackMessage 0)]

/-- A second client connects and requests while the first is being served. -/
def meanwhile : List Event :=
  [.connect, .data 0 [payloadTypeRequest, 64], .data 0 [payloadTypeFlowStart], .connect,
    .perform 0, .callback 0, .data 1 [payloadTypeRequest, 1], .data 0 (ackMessage 0)]

/-- The file `a` holds `1`. -/
theorem one_client_served :
    ∃ last outs, Runs.run step (initial [49] [97]) meanwhile = some (last, outs) ∧
      (last.clients 0).stage = .ended ∧
      Runs.Always (Served [49]) step (initial [49] [97]) meanwhile := by
  obtain ⟨last, outs, hrun, hended⟩ : ∃ last outs,
      Runs.run step (initial [49] [97]) meanwhile = some (last, outs) ∧
        decide ((last.clients 0).stage = .ended) = true := Runs.run_evaluated (by decide +kernel)
  exact ⟨last, outs, hrun, of_decide_eq_true hended,
    served_while_separate [49] [97] meanwhile (by decide +kernel)⟩

/-- One session after the other: the second client gets nothing but the NUL. -/
theorem second_session_gets_nul :
    ∃ last outs, Runs.run step (initial [49] [97]) (session 0 ++ session 1) = some (last, outs) ∧
      (last.clients 0).data = [49, 0] ∧ (last.clients 1) = ⟨.ended, [0], [0]⟩ ∧
      ¬ Served [49] last := by
  obtain ⟨last, outs, hrun, hclients⟩ : ∃ last outs,
      Runs.run step (initial [49] [97]) (session 0 ++ session 1) = some (last, outs) ∧
        decide ((last.clients 0).data = [49, 0] ∧ last.clients 1 = ⟨.ended, [0], [0]⟩) = true :=
    Runs.run_evaluated (by decide +kernel)
  obtain ⟨hfirst, hsecond⟩ := of_decide_eq_true hclients
  refine ⟨last, outs, hrun, hfirst, hsecond, ?_⟩
  intro hserved
  have hcomplete := (hserved 1 (by rw [hsecond]; simp)).complete (by rw [hsecond])
  rw [hsecond] at hcomplete
  exact absurd hcomplete (by decide)

end JsEmbeddedPlatform.Serving
