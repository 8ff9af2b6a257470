import JsEmbeddedPlatform.Retransmission

/-!
# The life of a transaction

Each transaction is sent at most five times, at its times and with the same bytes, and is ended
once: by what its peer has sent for it or when its time is over.
-/

set_option autoImplicit false

namespace JsEmbeddedPlatform.Transactions

open Runs (run run_cons_iff run_history)
open Coap (Packet MessageType coapSerializeMessage coapSerializeGetSize coapOptionToken)
open Lwm2mData (Fault)
open Lwm2mList (Sorted)

section Life
variable {Peer Callback : Type}

/-- The times at which a transaction was sent: five at most, each after twice the time, always the
same bytes to the same peer. -/
structure Sends (first : Transaction Peer Callback) (start : Int)
    (log : List (Int × Event Peer Callback)) : Prop where
  same : ∀ entry ∈ log, entry.2 = .send first.mID first.peerH (bytesOf first)
  atMost : log.length ≤ coapMaxRetransmit + 1
  schedule : ∀ n, ∀ entry ∈ log[n]?, start + 2 * (2 ^ n - 1) ≤ entry.1

theorem Sends.once (first : Transaction Peer Callback) (start : Int) :
    Sends first start [(start, .send first.mID first.peerH (bytesOf first))] := by
  refine ⟨?_, ?_, ?_⟩
  · intro entry hentry
    rw [List.mem_singleton.mp hentry]
  · exact Nat.le_add_left 1 coapMaxRetransmit
  · intro n entry hentry
    cases n with
    | zero =>
      cases hentry
      simp
    | succ n => cases hentry

theorem Sends.again {first : Transaction Peer Callback} {start time : Int}
    {log : List (Int × Event Peer Callback)} (h : Sends first start log)
    (hmore : log.length ≤ coapMaxRetransmit) (htime : start + 2 * (2 ^ log.length - 1) ≤ time) :
    Sends first start (log ++ [(time, .send first.mID first.peerH (bytesOf first))]) := by
  refine ⟨?_, ?_, ?_⟩
  · intro entry hentry
    rcases List.mem_append.mp hentry with hentry | hentry
    · exact h.same entry hentry
    · rw [List.mem_singleton.mp hentry]
  · rw [List.length_append, List.length_singleton]
    omega
  · intro n entry hentry
    rw [List.getElem?_append] at hentry
    split at hentry
    · exact h.schedule n entry hentry
    · next hn =>
      cases hsub : n - log.length with
      | zero =>
        rw [hsub] at hentry
        cases hentry
        have hlen : n = log.length := by omega
        rw [hlen]
        exact htime
      | succ k =>
        rw [hsub] at hentry
        cases hentry

/-- The peer has acknowledged the transaction in one of the inputs. -/
def Acknowledged (first : Transaction Peer Callback) (past : List (Input Peer Callback)) : Prop :=
  ∃ time message response, ⟨time, .response first.peerH message response⟩ ∈ past ∧
    message.type = .ack ∧ first.mID = message.mid

/-- A transaction that waits for its answer; `log` is what it has done so far. -/
structure Alive (first : Transaction Peer Callback) (start : Int)
    (past : List (Input Peer Callback)) (log : List (Int × Event Peer Callback)) (now : Int)
    (t : Transaction Peer Callback) : Prop where
  mID : t.mID = first.mID
  peerH : t.peerH = first.peerH
  callback : t.callback = first.callback
  message : t.message = (coapSerializeMessage first.message).2
  responseTimeout : t.responseTimeout = 0
  buffer : t.buffer = some (bytesOf first)
  sends : Sends first start log
  counter : t.retransCounter = log.length + 1
  sent : 0 < log.length
  started : 0 ≤ start
  last : start + 2 * (2 ^ (log.length - 1) - 1) ≤ now
  due : t.ackReceived = false → start + 2 * (2 ^ log.length - 1) ≤ t.retransTime
  acked : t.ackReceived = true → Acknowledged first past ∧ WithToken t ∧
    (log.length ≤ 2 → start + 2 * (2 ^ log.length - 1) ≤ t.retransTime + 2)

def timed (time : Int) (events : List (Event Peer Callback)) : List (Int × Event Peer Callback) :=
  events.map (time, ·)

/-- A transaction that is not in the list any more. -/
inductive Ended (malloc : Bool) (first : Transaction Peer Callback) (start : Int)
    (past : List (Input Peer Callback)) : List (Int × Event Peer Callback) → Prop where
  | noBuffer : malloc = false ∨ coapSerializeGetSize first.message % 2 ^ 16 = 0 →
      Ended malloc first start past []
  | noClock : start < 0 → Ended malloc first start past
      ((start, .send first.mID first.peerH (bytesOf first)) ::
        timed start (runCallback first none))
  | failed (sends : List (Int × Event Peer Callback)) (time : Int) : Sends first start sends →
      (sends.length = coapMaxRetransmit + 1 ∧ start + 62 ≤ time) ∨ Acknowledged first past →
      Ended malloc first start past (sends ++ timed time (runCallback first none))
  | answered (sends : List (Int × Event Peer Callback)) (time : Int) (message : Packet)
      (response : Bool) : Sends first start sends →
      ⟨time, .response first.peerH message response⟩ ∈ past →
      AckOf first message ∨ TokenOf first message →
      Ended malloc first start past (sends ++ timed time (runCallback first (some message)))

theorem Acknowledged.mono {first : Transaction Peer Callback}
    {past more : List (Input Peer Callback)} (h : Acknowledged first past) (hsub : past ⊆ more) : Acknowledged first more := by
  obtain ⟨time, message, response, hmem, hack⟩ := h
  exact ⟨time, message, response, hsub hmem, hack⟩

theorem Ended.mono {malloc : Bool} {first : Transaction Peer Callback} {start : Int}
    {past more : List (Input Peer Callback)} {log : List (Int × Event Peer Callback)}
    (h : Ended malloc first start past log) (hsub : past ⊆ more) :
    Ended malloc first start more log := by
  cases h with
  | noBuffer hwhy => exact .noBuffer hwhy
  | noClock hclock => exact .noClock hclock
  | failed sends time hsends hwhy =>
    exact .failed sends time hsends (hwhy.imp_right fun hack => hack.mono hsub)
  | answered sends time message response hsends hmem hmatch =>
    exact .answered sends time message response hsends (hsub hmem) hmatch

/-- A transaction waits or is ended. -/
def Life (malloc : Bool) (first : Transaction Peer Callback) (start : Int)
    (past : List (Input Peer Callback)) (log : List (Int × Event Peer Callback)) (now : Int)
    (o : Option (Transaction Peer Callback)) : Prop :=
  (∃ t, o = some t ∧ Alive first start past log now t) ∨
    o = none ∧ Ended malloc first start past log

section Alive
variable {malloc : Bool} {first t : Transaction Peer Callback} {start now : Int}
variable {past : List (Input Peer Callback)} {log : List (Int × Event Peer Callback)}

theorem Alive.mono (h : Alive first start past log now t) {more : List (Input Peer Callback)}
    (hsub : past ⊆ more) {later : Int} (hlater : now ≤ later) :
    Alive first start more log later t :=
  { h with
    last := Int.le_trans h.last hlater
    acked := fun hack => ⟨(h.acked hack).1.mono hsub, (h.acked hack).2⟩ }

theorem Alive.runCallback (h : Alive first start past log now t) (message : Option Packet) :
    runCallback t message = Transactions.runCallback first message := by
  unfold Transactions.runCallback
  rw [h.mID, h.callback]

theorem Alive.options (h : Alive first start past log now t) :
    t.message.options = first.message.options := by
  rw [h.message]
  rfl

theorem Alive.tokenOf (h : Alive first start past log now t) (message : Packet) :
    TokenOf t message ↔ TokenOf first message := by
  unfold TokenOf
  rw [h.options, h.message]
  rfl

theorem Alive.sentAgain (h : Alive first start past log now t) {i : Input Peer Callback}
    (hdue : t.retransTime ≤ i.time)
    {o : Option (Transaction Peer Callback)} {events : List (Event Peer Callback)}
    (hcase : SentAgain t o events) :
    Life malloc first start (past ++ [i]) (log ++ timed i.time events) i.time o := by
  have hsub : past ⊆ past ++ [i] := List.subset_append_left _ _
  cases hcase with
  | resend hack hcounter =>
    have hdueFrom := h.due hack
    have hlen : log.length ≤ coapMaxRetransmit := by
      have := h.counter
      omega
    have hsend : timed i.time
        [(.send t.mID t.peerH (t.buffer.getD []) : Event Peer Callback)] =
          [(i.time, .send first.mID first.peerH (bytesOf first))] := by
      rw [h.mID, h.peerH, h.buffer]
      rfl
    rw [hsend]
    refine .inl ⟨_, rfl, { h with
      sends := h.sends.again hlen (Int.le_trans hdueFrom hdue)
      counter := ?_
      sent := ?_
      last := ?_
      due := ?_
      acked := ?_ }⟩
    · rw [List.length_append, List.length_singleton, h.counter]
    · rw [List.length_append, List.length_singleton]
      omega
    · rw [List.length_append, List.length_singleton, Nat.add_sub_cancel]
      exact Int.le_trans hdueFrom hdue
    · intro _
      have hpow : (2 : Int) ^ (log.length + 1) = 2 ^ log.length * 2 := Int.pow_succ _ _
      have hcount : t.retransCounter - 1 = log.length := by
        rw [h.counter, Nat.add_sub_cancel]
      rw [List.length_append, List.length_singleton, hpow]
      dsimp only
      rw [hcount]
      unfold coapResponseTimeout
      omega
    · intro hacked
      rw [hack] at hacked
      cases hacked
  | expired hend =>
    rw [h.runCallback]
    refine .inr ⟨rfl, .failed log i.time h.sends ?_⟩
    cases hack : t.ackReceived with
    | true => exact .inr ((h.acked hack).1.mono hsub)
    | false =>
      have hmax : coapMaxRetransmit + 1 < t.retransCounter := by
        rw [hack] at hend
        exact hend.resolve_left Bool.false_ne_true
      have hatMost := h.sends.atMost
      have hlen : log.length = coapMaxRetransmit + 1 := by
        have := h.counter
        omega
      refine .inl ⟨hlen, ?_⟩
      have hdueFrom := h.due hack
      rw [hlen] at hdueFrom
      exact Int.le_trans hdueFrom hdue

theorem Alive.answered (h : Alive first start past log now t) {i : Input Peer Callback}
    (hnow : now ≤ i.time) {message : Packet} {response : Bool}
    (haction : i.action = .response t.peerH message response)
    {o : Option (Transaction Peer Callback)} {events : List (Event Peer Callback)}
    (hcase : Answered i.time message t o events) :
    Life malloc first start (past ++ [i]) (log ++ timed i.time (eventsOf first.mID events))
      i.time o := by
  have hsub : past ⊆ past ++ [i] := List.subset_append_left _ _
  have hmem : (⟨i.time, .response first.peerH message response⟩ : Input Peer Callback) ∈
      past ++ [i] := by
    rw [← h.peerH, ← haction]
    exact List.mem_append_right _ List.mem_cons_self
  have hkept := h.mono hsub hnow
  cases hcase with
  | ended acks hacks hmatch =>
    have hcallback := runCallback_isOf first (some message) first.mID
    rw [if_pos rfl] at hcallback
    rw [h.runCallback, eventsOf, List.filter_append, ← eventsOf, ← eventsOf, hacks, hcallback,
      List.nil_append]
    refine .inr ⟨rfl, .answered log i.time message response h.sends hmem ?_⟩
    rcases hmatch with hack | htoken | ⟨hack, hwith⟩
    · refine .inl ⟨hack.1, ?_⟩
      rw [← h.mID]
      exact hack.2
    · exact .inr ((h.tokenOf message).mp htoken)
    · exact absurd (h.acked hack).2.1 hwith
  | denied acks hacks hcode hcounter =>
    rw [hacks, timed, List.map_nil, List.append_nil]
    refine .inl ⟨_, rfl, { hkept with
      due := ?_
      acked := fun hacked => absurd hacked Bool.false_ne_true }⟩
    intro _
    dsimp only
    unfold coapResponseTimeout
    cases hack : t.ackReceived with
    | true =>
      have hlen : log.length ≤ 2 := by
        have := h.counter
        unfold coapMaxRetransmit at hcounter
        omega
      have := (h.acked hack).2.2 hlen
      omega
    | false =>
      have := h.due hack
      omega
  | acked t' hack hackOf htype hwith ht' =>
    rw [timed, eventsOf, List.filter_nil, List.map_nil, List.append_nil]
    refine .inl ⟨t', rfl, ?_⟩
    subst ht'
    refine { hkept with
      due := fun hacked => absurd hacked.symm Bool.false_ne_true
      acked := fun _ => ⟨⟨i.time, message, response, hmem, htype, ?_⟩, hwith, ?_⟩ }
    · rw [← h.mID]
      exact hackOf.2
    · intro hlen
      have hstarted := h.started
      have hsent := h.sent
      have hlast := h.last
      have hcounter := h.counter
      have hclock : 0 ≤ i.time := by
        have : (0 : Int) < 2 ^ (log.length - 1) := Int.pow_pos (by decide)
        omega
      dsimp only
      rw [if_pos hclock, h.responseTimeout, if_neg (not_not.mpr rfl), hcounter]
      unfold coapResponseTimeout
      have hcases : log.length = 1 ∨ log.length = 2 := by omega
      rcases hcases with hone | htwo
      · rw [hone] at hlast ⊢
        omega
      · rw [htwo] at hlast ⊢
        omega

/-- What an input does with a transaction that waits. -/
theorem Alive.step (h : Alive first start past log now t) {i : Input Peer Callback}
    (hnow : now ≤ i.time) {o : Option (Transaction Peer Callback)}
    {events : List (Event Peer Callback)} (hlived : Lived i first.mID (some t) o events) :
    Life malloc first start (past ++ [i]) (log ++ timed i.time events) i.time o := by
  cases hlived with
  | untouched _ hother =>
    rw [timed, List.map_nil, List.append_nil]
    exact .inl ⟨t, rfl, h.mono (List.subset_append_left _ _) hnow⟩
  | stepped _ _ hdue hcase => exact h.sentAgain hdue hcase
  | answered _ message response haction _ hcase => exact h.answered hnow haction hcase

end Alive

theorem SentFirst.life {malloc : Bool} {first : Transaction Peer Callback} {start : Int}
    {o : Option (Transaction Peer Callback)} {events : List (Event Peer Callback)}
    (hunsent : Unsent first) (h : SentFirst malloc start first o events) :
    Life malloc first start [] (timed start events) start o := by
  cases h with
  | noBuffer hwhy => exact .inr ⟨rfl, .noBuffer hwhy⟩
  | noClock hclock => exact .inr ⟨rfl, .noClock hclock⟩
  | sent hclock =>
    refine .inl ⟨_, rfl, ?_⟩
    exact {
      mID := rfl
      peerH := rfl
      callback := rfl
      message := rfl
      responseTimeout := hunsent.2.1
      buffer := rfl
      sends := .once first start
      counter := rfl
      sent := Nat.zero_lt_one
      started := hclock
      last := by simp [timed]
      due := fun _ => by simp [timed, coapResponseTimeout]
      acked := fun hack => by
        rw [hunsent.1] at hack
        cases hack }

theorem Lived.wasSent {i : Input Peer Callback} {mID : UInt16}
    {o o' : Option (Transaction Peer Callback)} {events : List (Event Peer Callback)}
    (h : Lived i mID o o' events) (ho : ∀ t, o = some t → WasSent t) :
    ∀ t, o' = some t → WasSent t := by
  intro u hu
  cases h with
  | untouched _ hother => exact ho u hu
  | started malloc t haction hmID hunsent hcase =>
    cases hcase with
    | noBuffer hwhy => cases hu
    | noClock hclock => cases hu
    | sent hclock =>
      cases hu
      exact ⟨Nat.zero_lt_two, rfl⟩
  | stepped t hmID hdue hcase =>
    have hsent := ho t rfl
    cases hcase with
    | resend hack hcounter =>
      cases hu
      exact ⟨Nat.succ_pos _, hsent.2⟩
    | expired hend => cases hu
  | answered t message response haction hmID hcase =>
    have hsent := ho t rfl
    cases hcase with
    | ended acks hacks hmatch => cases hu
    | denied acks hacks hcode hcounter =>
      cases hu
      exact hsent
    | acked t' hack hackOf htype hwith ht' =>
      cases hu
      subst ht'
      exact hsent

/-! ## Runs -/

section InRuns
variable [DecidableEq Peer]

theorem listed_step {c c' : Context Peer Callback} {i : Input Peer Callback}
    {events : List (Event Peer Callback)} (hc : Listed c.transactionList)
    (hstep : contextStep c i = some (c', events)) : Listed c'.transactionList := by
  obtain ⟨_, _, hs', hlived⟩ := context_step hc hstep
  refine ⟨hs', ?_⟩
  intro t ht
  refine (hlived t.mID).wasSent ?_ t (current_of_mem hs' ht)
  intro u hu
  exact hc.2 u (current_some hu).1

theorem listed_run {now : Int} {inputs : List (Input Peer Callback)} {c : Context Peer Callback}
    {outs : List (List (Event Peer Callback))}
    (h : run contextStep ⟨now, []⟩ inputs = some (c, outs)) : Listed c.transactionList := by
  refine run_history (P := fun _ _ c => Listed c.transactionList) ?_ ?_ h
  · intro past seen c i events c' hc hstep
    exact listed_step hc hstep
  · exact ⟨.nil, fun _ ht => nomatch ht⟩

/-- What a run does with the transaction of a message id, each time with the clock. -/
def logOf (mID : UInt16) : List (Input Peer Callback) → List (List (Event Peer Callback)) →
    List (Int × Event Peer Callback)
  | i :: inputs, events :: outs => timed i.time (eventsOf mID events) ++ logOf mID inputs outs
  | _, _ => []

/-- The message id is not taken for a transaction of its own in these inputs. -/
def Kept (mID : UInt16) (inputs : List (Input Peer Callback)) : Prop :=
  ∀ i ∈ inputs, ∀ malloc t, i.action = .start malloc t → t.mID ≠ mID

theorem life_run {malloc : Bool} {first : Transaction Peer Callback} {start : Int}
    {inputs past : List (Input Peer Callback)} {log : List (Int × Event Peer Callback)}
    {c c' : Context Peer Callback} {outs : List (List (Event Peer Callback))}
    (hc : Listed c.transactionList) (hkept : Kept first.mID inputs)
    (hlife : Life malloc first start past log c.now (current c.transactionList first.mID))
    (hrun : run contextStep c inputs = some (c', outs)) :
    Life malloc first start (past ++ inputs) (log ++ logOf first.mID inputs outs) c'.now
      (current c'.transactionList first.mID) := by
  induction inputs generalizing past log c outs with
  | nil =>
    cases hrun
    have hnone : logOf first.mID ([] : List (Input Peer Callback)) [] = [] := rfl
    rw [hnone, List.append_nil, List.append_nil]
    exact hlife
  | cons i inputs ih =>
    obtain ⟨d, events, outs, hstep, hrest, rfl⟩ := run_cons_iff.mp hrun
    obtain ⟨hnow, hnow', _, hlived⟩ := context_step hc hstep
    have hkept' : Kept first.mID inputs := fun j hj => hkept j (List.mem_cons_of_mem _ hj)
    have hlater : Life malloc first start (past ++ [i])
        (log ++ timed i.time (eventsOf first.mID events)) d.now (current d.transactionList first.mID) := by
      have hone := hlived first.mID
      rw [hnow']
      rcases hlife with ⟨t, ht, halive⟩ | ⟨hnone, hended⟩
      · rw [ht] at hone
        exact halive.step hnow hone
      · rw [hnone] at hone
        generalize heq : current d.transactionList first.mID = o' at hone
        generalize hev : eventsOf first.mID events = evs at hone
        cases hone with
        | untouched _ hother =>
          rw [timed, List.map_nil, List.append_nil]
          exact .inr ⟨rfl, hended.mono (List.subset_append_left _ _)⟩
        | started malloc t haction hmID hunsent hcase =>
          exact absurd hmID (hkept i List.mem_cons_self malloc t haction)
    have h := ih (listed_step hc hstep) hkept' hlater hrest
    rw [List.append_assoc, List.append_assoc, List.singleton_append] at h
    exact h

theorem start_fresh {c d : Context Peer Callback} {start : Int} {malloc : Bool}
    {first : Transaction Peer Callback} {events : List (Event Peer Callback)}
    (h : contextStep c ⟨start, .start malloc first⟩ = some (d, events)) :
    Unsent first ∧ current c.transactionList first.mID = none := by
  unfold contextStep at h
  split at h
  · cases h
  · dsimp only at h
    split at h
    · next hfresh => exact hfresh
    · cases h

/-- The life of a transaction: at any time after it was sent first it waits, having been sent at
most five times at its times, or it is gone, and its callback was called once, with what ended
it. -/
theorem transaction_life {now : Int} {before later : List (Input Peer Callback)}
    {c c' : Context Peer Callback} {seen outs : List (List (Event Peer Callback))}
    {start : Int} {malloc : Bool} {first : Transaction Peer Callback}
    (hbefore : run contextStep ⟨now, []⟩ before = some (c, seen))
    (hkept : Kept first.mID later)
    (hrun : run contextStep c (⟨start, .start malloc first⟩ :: later) = some (c', outs)) :
    Life malloc first start later
      (logOf first.mID (⟨start, .start malloc first⟩ :: later) outs) c'.now (current c'.transactionList first.mID) := by
  have hc := listed_run hbefore
  obtain ⟨d, events, outs, hstep, hrest, rfl⟩ := run_cons_iff.mp hrun
  obtain ⟨_, hnow', _, hlived⟩ := context_step hc hstep
  have hone := hlived first.mID
  have hlife : Life malloc first start [] (timed start (eventsOf first.mID events)) d.now
      (current d.transactionList first.mID) := by
    rw [hnow']
    rw [(start_fresh hstep).2] at hone
    generalize heq : current d.transactionList first.mID = o' at hone
    generalize hev : eventsOf first.mID events = evs at hone
    cases hone with
    | untouched _ hother => exact absurd rfl (hother malloc first rfl)
    | started malloc t haction hmID hunsent hcase =>
      cases haction
      exact hcase.life hunsent
  exact life_run (listed_step hc hstep) hkept hlife hrest

end InRuns

/-- A registration without its path. -/
def registration : Transaction Nat Nat :=
  { mID := 7
    peerH := 1
    message := Coap.coapSetHeaderToken (Coap.coapInitMessage .con 2 7) [7, 0, 1, 0]
    callback := some 3 }

def created : Packet := Coap.coapSetHeaderToken (Coap.coapInitMessage .ack 0x41 7) [7, 0, 1, 0]

def registrationStart : Input Nat Nat := ⟨1, .start true registration⟩

def registrationAnswered : List (Input Nat Nat) :=
  [⟨3, .step true 60⟩, ⟨4, .response 1 created true⟩]

theorem transaction_life_registration : ∃ c outs,
    run contextStep ⟨0, []⟩ (registrationStart :: registrationAnswered) = some (c, outs) ∧
      (logOf 7 (registrationStart :: registrationAnswered) outs).map Prod.fst = [1, 3, 4] ∧
      Life true registration 1 registrationAnswered
        (logOf 7 (registrationStart :: registrationAnswered) outs) c.now
        (current c.transactionList 7) := by
  obtain ⟨c, outs, hrun, htimes⟩ : ∃ c outs,
      run contextStep ⟨0, []⟩ (registrationStart :: registrationAnswered) = some (c, outs) ∧
        decide ((logOf 7 (registrationStart :: registrationAnswered) outs).map Prod.fst =
          [1, 3, 4]) = true := Runs.run_evaluated (by decide)
  have hkept : Kept registration.mID registrationAnswered := by
    intro i hi malloc t hstart
    unfold registrationAnswered at hi
    simp only [List.mem_cons, List.not_mem_nil, or_false] at hi
    rcases hi with rfl | rfl
    · cases hstart
    · cases hstart
  have hbefore : run contextStep (⟨0, []⟩ : Context Nat Nat) [] = some (⟨0, []⟩, []) := rfl
  exact ⟨c, outs, hrun, of_decide_eq_true htimes, transaction_life hbefore hkept hrun⟩

/-! ## A client that hears nothing -/

/-- `transaction_step` on a list of a run. -/
theorem transactionStep_cases (malloc : Bool) (currentTime tvSec timeout : Int)
    {list : List (Transaction Peer Callback)} (hlist : Listed list) :
    ∃ list' timeout' events,
      transactionStep malloc currentTime tvSec list timeout = .ok (list', timeout', events) ∧
        Listed list' ∧
        (∀ t ∈ list, Stepped currentTime t (current list' t.mID) (eventsOf t.mID events) ∧
          Awaits currentTime timeout' (current list' t.mID)) ∧
        timeout' ≤ max timeout 1 ∧ (1 ≤ timeout → 1 ≤ timeout') ∧
        ∀ mID, current list mID = none → current list' mID = none ∧ eventsOf mID events = [] := by
  obtain ⟨list', timeout', events, hrun, hs', hdone, hle, hge, hsame⟩ :=
    stepFrom_cases malloc currentTime tvSec hlist hlist.1
      (fun t ht => current_of_mem hlist.1 ht) timeout
  have habsent : ∀ mID, current list mID = none →
      current list' mID = none ∧ eventsOf mID events = [] := by
    intro mID hnone
    obtain ⟨hlast, hevents⟩ := hsame mID fun t ht heq => by
      rw [← heq, current_of_mem hlist.1 ht] at hnone
      cases hnone
    rw [hlast]
    exact ⟨hnone, hevents⟩
  refine ⟨list', timeout', events, hrun, ⟨hs', ?_⟩, hdone, hle, hge, habsent⟩
  intro u hu
  have hcurrent := current_of_mem hs' hu
  cases hfind : current list u.mID with
  | none =>
    rw [(habsent u.mID hfind).1] at hcurrent
    cases hcurrent
  | some t =>
    obtain ⟨ht, hmID⟩ := current_some hfind
    have hstepped := (hdone t ht).1
    rw [hmID, hcurrent] at hstepped
    have hlived : Lived ⟨currentTime, .step malloc timeout⟩ t.mID (some t) (some u)
        (eventsOf u.mID events) := hstepped.lived rfl
    refine hlived.wasSent ?_ u rfl
    intro v hv
    cases hv
    exact hlist.2 t ht

/-- `transaction_step` does for each transaction what its time asks for and nothing else, though it
takes nodes out of the list it goes over, and it lets nobody sleep past the next one. -/
theorem step_in_time [DecidableEq Peer] {now : Int} {inputs : List (Input Peer Callback)}
    {c : Context Peer Callback} {outs : List (List (Event Peer Callback))}
    (hrun : run contextStep ⟨now, []⟩ inputs = some (c, outs)) (malloc : Bool)
    (currentTime tvSec timeout : Int) :
    ∃ list' timeout' events,
      transactionStep malloc currentTime tvSec c.transactionList timeout =
          .ok (list', timeout', events) ∧
        (∀ t ∈ c.transactionList,
          Stepped currentTime t (current list' t.mID) (eventsOf t.mID events) ∧
          Awaits currentTime timeout' (current list' t.mID)) ∧
        (∀ u ∈ list', ∃ t ∈ c.transactionList, t.mID = u.mID) ∧
        timeout' ≤ max timeout 1 ∧ (1 ≤ timeout → 1 ≤ timeout') ∧
        ∀ mID, current c.transactionList mID = none → eventsOf mID events = [] := by
  obtain ⟨list', timeout', events, hstep, hlist', hdone, hle, hge, habsent⟩ :=
    transactionStep_cases malloc currentTime tvSec timeout (listed_run hrun)
  refine ⟨list', timeout', events, hstep, hdone, ?_, hle, hge, fun mID hnone =>
    (habsent mID hnone).2⟩
  intro u hu
  cases hfind : current c.transactionList u.mID with
  | none =>
    have hnone := (habsent u.mID hfind).1
    rw [current_of_mem hlist'.1 hu] at hnone
    cases hnone
  | some t => exact ⟨t, current_some hfind⟩

theorem step_in_time_registration : ∃ c outs list' timeout' events,
    run contextStep ⟨0, []⟩ [registrationStart] = some (c, outs) ∧
      transactionStep true 2 2 c.transactionList 60 = .ok (list', timeout', events) ∧
      (∀ t ∈ c.transactionList, Stepped 2 t (current list' t.mID) (eventsOf t.mID events) ∧
        Awaits 2 timeout' (current list' t.mID)) := by
  obtain ⟨c, outs, hrun, _⟩ : ∃ c outs,
      run contextStep ⟨0, []⟩ [registrationStart] = some (c, outs) ∧ decide True = true :=
    Runs.run_evaluated (by decide)
  obtain ⟨list', timeout', events, hstep, hdone, _⟩ := step_in_time hrun true 2 2 60
  exact ⟨c, outs, list', timeout', events, hrun, hstep, hdone⟩

/-- A client that gets no message: it steps, sleeps as long as the step says, steps again. -/
def rounds (timeout : Int) : Nat → Int → List (Transaction Peer Callback) →
    Except Fault (List (Int × Event Peer Callback))
  | 0, _, _ => .ok []
  | n + 1, now, list =>
    match transactionStep true now now list timeout with
    | .error fault => .error fault
    | .ok (list', timeout', events) =>
      match rounds timeout n (now + timeout') list' with
      | .error fault => .error fault
      | .ok log => .ok (timed now events ++ log)

/-- What a log has of one transaction. -/
def logFor (mID : UInt16) (log : List (Int × Event Peer Callback)) :
    List (Int × Event Peer Callback) :=
  log.filter fun entry => entry.2.isOf mID

theorem logFor_timed (mID : UInt16) (time : Int) (events : List (Event Peer Callback))
    (log : List (Int × Event Peer Callback)) :
    logFor mID (timed time events ++ log) = timed time (eventsOf mID events) ++ logFor mID log := by
  unfold logFor timed eventsOf
  rw [List.filter_append, List.filter_map]
  rfl

theorem rounds_absent {mID : UInt16} {timeout : Int} (n : Nat) (now : Int)
    {list : List (Transaction Peer Callback)} (hlist : Listed list)
    (hnone : current list mID = none) :
    ∃ log, rounds timeout n now list = .ok log ∧ logFor mID log = [] := by
  induction n generalizing now list with
  | zero => exact ⟨[], rfl, rfl⟩
  | succ n ih =>
    obtain ⟨list', timeout', events, hstep, hlist', _, _, _, habsent⟩ :=
      transactionStep_cases true now now timeout hlist
    obtain ⟨hnone', hevents⟩ := habsent mID hnone
    obtain ⟨log, hlog, hrest⟩ := ih (now + timeout') hlist' hnone'
    refine ⟨timed now events ++ log, ?_, ?_⟩
    · simp only [rounds, hstep, hlog]
    · rw [logFor_timed, hevents, hrest]
      rfl

/-- A transaction that was sent `k` times and is not due before `now`. -/
structure OnTime (first : Transaction Peer Callback) (start : Int) (k : Nat) (now : Int)
    (t : Transaction Peer Callback) : Prop where
  mID : t.mID = first.mID
  peerH : t.peerH = first.peerH
  callback : t.callback = first.callback
  buffer : t.buffer = some (bytesOf first)
  waits : t.ackReceived = false
  counter : t.retransCounter = k + 1
  sent : 0 < k
  atMost : k ≤ coapMaxRetransmit + 1
  due : t.retransTime = start + 2 * (2 ^ k - 1)
  early : now ≤ t.retransTime

/-- What is to come of a transaction that was sent `k` times when nobody answers. -/
def remaining (first : Transaction Peer Callback) (start : Int) (k : Nat) :
    List (Int × Event Peer Callback) :=
  (List.range' k (coapMaxRetransmit + 1 - k)).map
      (fun n => (start + 2 * (2 ^ n - 1), .send first.mID first.peerH (bytesOf first))) ++
    timed (start + 62) (runCallback first none)

theorem remaining_last (first : Transaction Peer Callback) (start : Int) :
    remaining first start (coapMaxRetransmit + 1) =
      timed (start + 62) (runCallback first none) := rfl

theorem remaining_more (first : Transaction Peer Callback) (start : Int) {k : Nat}
    (hk : k ≤ coapMaxRetransmit) :
    remaining first start k =
      (start + 2 * (2 ^ k - 1), .send first.mID first.peerH (bytesOf first)) ::
        remaining first start (k + 1) := by
  unfold remaining
  have hcount : coapMaxRetransmit + 1 - k = coapMaxRetransmit + 1 - (k + 1) + 1 := by omega
  rw [hcount, List.range'_succ]
  rfl

theorem OnTime.deadline {first t : Transaction Peer Callback} {start now : Int} {k : Nat}
    (h : OnTime first start k now t) : now ≤ start + 62 := by
  have hpow : (2 : Int) ^ k ≤ 2 ^ 5 := by
    exact_mod_cast Nat.pow_le_pow_right Nat.zero_lt_two h.atMost
  have hearly := h.early
  rw [h.due] at hearly
  omega

theorem rounds_onTime {first : Transaction Peer Callback} {start timeout : Int}
    (htimeout : 1 ≤ timeout) (n : Nat) {k : Nat} {now : Int}
    {list : List (Transaction Peer Callback)} (hlist : Listed list)
    {t : Transaction Peer Callback} (ht : current list first.mID = some t)
    (h : OnTime first start k now t) (hn : start + 62 < now + n) :
    ∃ log, rounds timeout n now list = .ok log ∧
      logFor first.mID log = remaining first start k := by
  induction n generalizing k now list t with
  | zero =>
    have := h.deadline
    omega
  | succ n ih =>
    obtain ⟨list', timeout', events, hstep, hlist', hdone, _, hge, _⟩ :=
      transactionStep_cases true now now timeout hlist
    have hpos := hge htimeout
    obtain ⟨hstepped, hawaits⟩ := hdone t (current_some ht).1
    rw [h.mID] at hstepped hawaits
    generalize hcurrent : current list' first.mID = o at hstepped hawaits
    generalize hevents : eventsOf first.mID events = evs at hstepped
    have hlog : ∀ log, rounds timeout n (now + timeout') list' = .ok log →
        rounds timeout (n + 1) now list = .ok (timed now events ++ log) ∧
          logFor first.mID (timed now events ++ log) = timed now evs ++ logFor first.mID log := by
      intro log hlog
      refine ⟨by simp only [rounds, hstep, hlog], ?_⟩
      rw [logFor_timed, hevents]
    have hearly := h.early
    cases hstepped with
    | early hlt =>
      have hnext : now + timeout' ≤ t.retransTime := by
        have := hawaits t rfl
        unfold interval at this
        rw [if_pos hlt] at this
        omega
      obtain ⟨log, hrest, hfor⟩ := ih hlist' hcurrent { h with early := hnext } (by omega)
      obtain ⟨hall, hfirst⟩ := hlog log hrest
      exact ⟨_, hall, hfirst.trans hfor⟩
    | due hdue hcase =>
      have hnow : now = start + 2 * (2 ^ k - 1) := by
        rw [← h.due]
        omega
      cases hcase with
      | resend hack hcounter =>
        have hk : k ≤ coapMaxRetransmit := by
          have := h.counter
          omega
        have hpow : (2 : Int) ^ (k + 1) = 2 ^ k * 2 := Int.pow_succ _ _
        have hpos' : (0 : Int) < 2 ^ k := Int.pow_pos (by decide)
        have hlater : t.retransTime + coapResponseTimeout * 2 ^ (t.retransCounter - 1) =
            start + 2 * (2 ^ (k + 1) - 1) := by
          rw [h.due, h.counter, Nat.add_sub_cancel, hpow]
          unfold coapResponseTimeout
          omega
        have hnext : now + timeout' ≤
            t.retransTime + coapResponseTimeout * 2 ^ (t.retransCounter - 1) := by
          have := hawaits _ rfl
          unfold interval at this
          dsimp only at this
          split at this <;> omega
        obtain ⟨log, hrest, hfor⟩ := ih hlist' hcurrent { h with
          counter := congrArg (· + 1) h.counter
          sent := Nat.succ_pos k
          atMost := Nat.succ_le_succ hk
          due := hlater
          early := hnext } (by omega)
        obtain ⟨hall, hfirst⟩ := hlog log hrest
        refine ⟨_, hall, ?_⟩
        rw [hfirst, hfor, remaining_more first start hk, ← hnow, h.mID, h.peerH, h.buffer]
        rfl
      | expired hend =>
        have hk : k = coapMaxRetransmit + 1 := by
          have hmax : coapMaxRetransmit + 1 < t.retransCounter := by
            rw [h.waits] at hend
            exact hend.resolve_left Bool.false_ne_true
          have := h.counter
          have := h.atMost
          omega
        obtain ⟨log, hrest, hfor⟩ := rounds_absent n (now + timeout') hlist' hcurrent
        obtain ⟨hall, hfirst⟩ := hlog log hrest
        have hcallback : runCallback t none = runCallback first none := by
          unfold runCallback
          rw [h.mID, h.callback]
        have hend : now = start + 62 := by
          rw [hnow, hk]
          rfl
        refine ⟨_, hall, ?_⟩
        rw [hfirst, hfor, List.append_nil, hk, remaining_last, hcallback, hend]

/-- A client that steps and sleeps as the steps say, and hears nothing, sends its request after 2,
6, 14 and 30 seconds once more and ends it after 62, whatever else is in the list. -/
theorem unanswered_schedule [DecidableEq Peer] {now : Int} {before : List (Input Peer Callback)}
    {c d : Context Peer Callback} {seen : List (List (Event Peer Callback))}
    {events : List (Event Peer Callback)} {start timeout : Int} {malloc : Bool}
    {first : Transaction Peer Callback}
    (hbefore : run contextStep ⟨now, []⟩ before = some (c, seen))
    (hstart : contextStep c ⟨start, .start malloc first⟩ = some (d, events))
    (hlisted : current d.transactionList first.mID ≠ none) (htimeout : 1 ≤ timeout) {n : Nat}
    (hn : 62 < n) :
    ∃ log, rounds timeout n start d.transactionList = .ok log ∧
      logFor first.mID log =
        [(start + 2, .send first.mID first.peerH (bytesOf first)),
          (start + 6, .send first.mID first.peerH (bytesOf first)),
          (start + 14, .send first.mID first.peerH (bytesOf first)),
          (start + 30, .send first.mID first.peerH (bytesOf first))] ++
        timed (start + 62) (runCallback first none) := by
  have hc := listed_run hbefore
  obtain ⟨t, ht⟩ := Option.ne_none_iff_exists'.mp hlisted
  obtain ⟨_, _, _, hlived⟩ := context_step hc hstart
  have hone := hlived first.mID
  rw [ht, (start_fresh hstart).2] at hone
  generalize hev : eventsOf first.mID events = evs at hone
  have honTime : OnTime first start 1 start t := by
    cases hone with
    | started malloc' u haction hmID hunsent hcase =>
      cases haction
      cases hcase with
      | sent hclock =>
        exact {
          mID := rfl
          peerH := rfl
          callback := rfl
          buffer := rfl
          waits := hunsent.1
          counter := rfl
          sent := Nat.zero_lt_one
          atMost := Nat.le_add_left 1 coapMaxRetransmit
          due := rfl
          early := by
            dsimp only
            unfold coapResponseTimeout
            omega }
  exact rounds_onTime htimeout n (listed_step hc hstart) ht honTime (by omega)

theorem unanswered_schedule_registration : ∃ d events log,
    contextStep ⟨0, []⟩ registrationStart = some (d, events) ∧
      rounds 60 63 1 d.transactionList = .ok log ∧
      logFor 7 log =
        [(3, .send 7 1 (bytesOf registration)), (7, .send 7 1 (bytesOf registration)),
          (15, .send 7 1 (bytesOf registration)), (31, .send 7 1 (bytesOf registration))] ++
        timed 63 (runCallback registration none) := by
  obtain ⟨⟨d, events⟩, hstart, hlisted⟩ : ∃ next : Context Nat Nat × List (Event Nat Nat),
      contextStep ⟨0, []⟩ registrationStart = some next ∧
        decide (current next.1.transactionList 7 ≠ none) = true :=
    (Option.any_eq_true _ _).mp (by decide)
  have hbefore : run contextStep (⟨0, []⟩ : Context Nat Nat) [] = some (⟨0, []⟩, []) := rfl
  obtain ⟨log, hlog, hfor⟩ := unanswered_schedule hbefore hstart (of_decide_eq_true hlisted)
    (by decide : (1 : Int) ≤ 60) (by decide : 62 < 63)
  exact ⟨d, events, log, hstart, hlog, hfor⟩

end Life

end JsEmbeddedPlatform.Transactions
