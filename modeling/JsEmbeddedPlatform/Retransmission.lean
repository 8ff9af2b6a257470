import JsEmbeddedPlatform.Transactions

/-!
# One transaction at a time

The list of transactions is a map from message ids to transactions that do not touch each
other: what a call does is told by cases, for each transaction apart.
-/

set_option autoImplicit false

namespace JsEmbeddedPlatform.Transactions

open Coap (Packet MessageType coapSerializeMessage coapSerializeGetSize coapOptionToken)
open Lwm2mData (Fault)
open Lwm2mList (lwm2mListAdd lwm2mListFind lwm2mListRemove replaceFound Sorted sorted_cons_iff
  find_of_mem find_eq_some find_add find_remove find_replaceFound sorted_add sorted_remove
  sorted_replaceFound)

section Map
variable {Peer Callback : Type}

/-- The transaction with a message id. -/
def current (list : List (Transaction Peer Callback)) (mID : UInt16) :
    Option (Transaction Peer Callback) :=
  lwm2mListFind key mID.toNat list

theorem toNat_eq_key {mID : UInt16} {t : Transaction Peer Callback} :
    mID.toNat = key t ↔ mID = t.mID :=
  UInt16.toNat_inj

/-- The list when the transaction was changed, or removed for none. -/
def put (list : List (Transaction Peer Callback)) (t : Transaction Peer Callback)
    (o : Option (Transaction Peer Callback)) : List (Transaction Peer Callback) :=
  match o with
  | none => transactionRemove list t
  | some t' => replaceFound key (key t) t' list

theorem current_put {list : List (Transaction Peer Callback)} {t : Transaction Peer Callback}
    {o : Option (Transaction Peer Callback)} (hs : Sorted key list)
    (ht : current list t.mID = some t) (ho : ∀ t', o = some t' → t'.mID = t.mID)
    (mID : UInt16) : current (put list t o) mID = if mID = t.mID then o else current list mID := by
  cases o with
  | none =>
    unfold put current transactionRemove
    dsimp only
    rw [find_remove (key t) hs]
    simp only [toNat_eq_key]
  | some t' =>
    have hkey : key t' = key t := congrArg UInt16.toNat (ho t' rfl)
    have hfound : lwm2mListFind key (key t) list = some t := ht
    unfold put current
    dsimp only
    rw [find_replaceFound hfound hkey]
    simp only [toNat_eq_key]

theorem sorted_put {list : List (Transaction Peer Callback)} {t : Transaction Peer Callback}
    {o : Option (Transaction Peer Callback)} (hs : Sorted key list)
    (ho : ∀ t', o = some t' → t'.mID = t.mID) : Sorted key (put list t o) := by
  cases o with
  | none => exact sorted_remove hs
  | some t' => exact sorted_replaceFound hs (congrArg UInt16.toNat (ho t' rfl))

end Map

/-! ## What a call does with one transaction -/

section Cases
variable {Peer Callback : Type}

/-- The events of a transaction. -/
def Event.isOf (mID : UInt16) : Event Peer Callback → Bool
  | .send m _ _ => m = mID
  | .callback m _ _ => m = mID
  | .ack _ _ => false

def eventsOf (mID : UInt16) (events : List (Event Peer Callback)) : List (Event Peer Callback) :=
  events.filter (Event.isOf mID)

/-- `transaction_send` of a transaction that was sent before: once more, or the end. -/
inductive SentAgain (t : Transaction Peer Callback) :
    Option (Transaction Peer Callback) → List (Event Peer Callback) → Prop where
  | resend : t.ackReceived = false → t.retransCounter ≤ coapMaxRetransmit + 1 →
      SentAgain t (some { t with
        retransTime := t.retransTime + coapResponseTimeout * 2 ^ (t.retransCounter - 1)
        retransCounter := t.retransCounter + 1 }) [.send t.mID t.peerH (t.buffer.getD [])]
  | expired : t.ackReceived = true ∨ coapMaxRetransmit + 1 < t.retransCounter →
      SentAgain t none (runCallback t none)

theorem SentAgain.mID {t : Transaction Peer Callback} {o : Option (Transaction Peer Callback)}
    {events : List (Event Peer Callback)} (h : SentAgain t o events) :
    ∀ t', o = some t' → t'.mID = t.mID := by
  intro t' ht'
  cases h with
  | resend hack hcounter =>
    cases ht'
    rfl
  | expired hend => cases ht'

theorem runCallback_isOf (t : Transaction Peer Callback) (message : Option Packet) (mID : UInt16) :
    eventsOf mID (runCallback t message) = if t.mID = mID then runCallback t message else [] := by
  unfold eventsOf runCallback
  cases t.callback with
  | none => simp
  | some callback => simp [Event.isOf, List.filter_cons]

theorem SentAgain.events {t : Transaction Peer Callback} {o : Option (Transaction Peer Callback)}
    {events : List (Event Peer Callback)} (h : SentAgain t o events) (mID : UInt16) :
    eventsOf mID events = if t.mID = mID then events else [] := by
  cases h with
  | resend hack hcounter => simp [eventsOf, Event.isOf, List.filter_cons]
  | expired hend => exact runCallback_isOf t none mID

/-- A transaction that is in the list was sent before. -/
def WasSent (t : Transaction Peer Callback) : Prop := 0 < t.retransCounter ∧ t.buffer.isSome = true

theorem transmit_acked (tvSec : Int) {t : Transaction Peer Callback}
    (hack : t.ackReceived = true) : transmit tvSec t = (t, false, []) := if_pos hack

theorem transmit_again (tvSec : Int) {t : Transaction Peer Callback}
    (hack : t.ackReceived = false) (hpos : 0 < t.retransCounter)
    (hcounter : t.retransCounter ≤ coapMaxRetransmit + 1) :
    transmit tvSec t = ({ t with
      retransTime := t.retransTime + coapResponseTimeout * 2 ^ (t.retransCounter - 1)
      retransCounter := t.retransCounter + 1 }, false,
      [.send t.mID t.peerH (t.buffer.getD [])]) := by
  have hzero : t.retransCounter ≠ 0 := by omega
  simp only [transmit, hack, hzero, hcounter, false_and, if_true, if_false, Bool.false_eq_true,
    decide_false]

theorem transmit_over (tvSec : Int) {t : Transaction Peer Callback}
    (hack : t.ackReceived = false) (hcounter : coapMaxRetransmit + 1 < t.retransCounter) :
    transmit tvSec t = (t, true, []) := by
  have hzero : t.retransCounter ≠ 0 := by omega
  have hmax : ¬ t.retransCounter ≤ coapMaxRetransmit + 1 := by omega
  simp only [transmit, hack, hzero, hmax, false_and, if_false, Bool.false_eq_true]

theorem transmit_first {tvSec : Int} {t : Transaction Peer Callback}
    (hack : t.ackReceived = false) (hcounter : t.retransCounter = 0) (hclock : 0 ≤ tvSec) :
    transmit tvSec t = ({ t with
      retransTime := tvSec + coapResponseTimeout
      retransCounter := 2 }, false, [.send t.mID t.peerH (t.buffer.getD [])]) := by
  have hlt : ¬ tvSec < 0 := by omega
  have hmax : 1 ≤ coapMaxRetransmit + 1 := by decide
  simp only [transmit, hack, hcounter, hclock, hlt, hmax, and_self, and_false, if_true,
    Bool.false_eq_true, if_false, decide_false, Int.add_zero]

theorem transmit_noClock {tvSec : Int} {t : Transaction Peer Callback}
    (hack : t.ackReceived = false) (hcounter : t.retransCounter = 0) (hclock : tvSec < 0) :
    ∃ t', transmit tvSec t = (t', true, [.send t.mID t.peerH (t.buffer.getD [])]) ∧
      t'.mID = t.mID ∧ t'.callback = t.callback := by
  have hle : ¬ 0 ≤ tvSec := by omega
  refine ⟨{ t with retransCounter := 1 }, ?_, rfl, rfl⟩
  simp [transmit, hack, hcounter, hclock, hle]

theorem send_ended {malloc : Bool} {tvSec : Int} {t filled t' : Transaction Peer Callback}
    {failed : Bool} {events : List (Event Peer Callback)}
    (hfill : fillBuffer malloc t = .ok (some filled))
    (htransmit : transmit tvSec filled = (t', failed, events))
    (hend : t'.ackReceived = true ∨ failed = true) (list : List (Transaction Peer Callback)) :
    transactionSend malloc tvSec list t =
      .ok ⟨-1, transactionRemove list t', t', events ++ runCallback t' none⟩ := by
  unfold transactionSend
  simp only [hfill, htransmit]
  exact if_pos hend

theorem send_kept {malloc : Bool} {tvSec : Int} {t filled t' : Transaction Peer Callback}
    {events : List (Event Peer Callback)} (hfill : fillBuffer malloc t = .ok (some filled))
    (htransmit : transmit tvSec filled = (t', false, events)) (hack : t'.ackReceived = false)
    (list : List (Transaction Peer Callback)) :
    transactionSend malloc tvSec list t =
      .ok ⟨0, replaceFound key (key t') t' list, t', events⟩ := by
  unfold transactionSend
  simp only [hfill, htransmit]
  exact if_neg (by simp [hack])

theorem send_cases (malloc : Bool) (tvSec : Int) (list : List (Transaction Peer Callback))
    {t : Transaction Peer Callback} (h : WasSent t) :
    ∃ sent o, transactionSend malloc tvSec list t = .ok sent ∧ SentAgain t o sent.events ∧
      sent.list = put list t o ∧ ∀ t', o = some t' → sent.result = 0 ∧ sent.transaction = t' := by
  obtain ⟨hcounter, hbuffer⟩ := h
  obtain ⟨buffer, hbuffer⟩ := Option.isSome_iff_exists.mp hbuffer
  have hfill : fillBuffer malloc t = .ok (some t) := by rw [fillBuffer, hbuffer]
  cases hack : t.ackReceived with
  | true =>
    have hsend := send_ended hfill (transmit_acked tvSec hack) (.inl hack) list
    exact ⟨_, none, hsend, .expired (.inl hack), rfl, by simp⟩
  | false =>
    by_cases hmax : t.retransCounter ≤ coapMaxRetransmit + 1
    · have hsend := send_kept hfill (transmit_again tvSec hack hcounter hmax) hack list
      exact ⟨_, _, hsend, .resend hack hmax, rfl, by simp⟩
    · have hover : coapMaxRetransmit + 1 < t.retransCounter := by omega
      have hsend := send_ended hfill (transmit_over tvSec hack hover) (.inr rfl) list
      exact ⟨_, none, hsend, .expired (.inr hover), rfl, by simp⟩

/-- The bytes of a transaction, the same each time it is sent. -/
def bytesOf (t : Transaction Peer Callback) : List UInt8 := (coapSerializeMessage t.message).1

/-- `transaction_send` of a transaction that was not sent before. -/
inductive SentFirst (malloc : Bool) (tvSec : Int) (t : Transaction Peer Callback) :
    Option (Transaction Peer Callback) → List (Event Peer Callback) → Prop where
  | noBuffer : malloc = false ∨ coapSerializeGetSize t.message % 2 ^ 16 = 0 →
      SentFirst malloc tvSec t none []
  | noClock : tvSec < 0 →
      SentFirst malloc tvSec t none (.send t.mID t.peerH (bytesOf t) :: runCallback t none)
  | sent : 0 ≤ tvSec → SentFirst malloc tvSec t (some { t with
      buffer := some (bytesOf t)
      message := (coapSerializeMessage t.message).2
      retransTime := tvSec + coapResponseTimeout
      retransCounter := 2 }) [.send t.mID t.peerH (bytesOf t)]

theorem SentFirst.mID {malloc : Bool} {tvSec : Int} {t : Transaction Peer Callback}
    {o : Option (Transaction Peer Callback)} {events : List (Event Peer Callback)}
    (h : SentFirst malloc tvSec t o events) : ∀ t', o = some t' → t'.mID = t.mID := by
  intro t' ht'
  cases h with
  | noBuffer hwhy => cases ht'
  | noClock hclock => cases ht'
  | sent hclock =>
    cases ht'
    rfl

theorem SentFirst.events {malloc : Bool} {tvSec : Int} {t : Transaction Peer Callback}
    {o : Option (Transaction Peer Callback)} {events : List (Event Peer Callback)}
    (h : SentFirst malloc tvSec t o events) (mID : UInt16) :
    eventsOf mID events = if t.mID = mID then events else [] := by
  cases h with
  | noBuffer hwhy => simp [eventsOf]
  | noClock hclock =>
    rw [← List.singleton_append]
    unfold eventsOf
    rw [List.filter_append]
    have hcallback := runCallback_isOf t none mID
    unfold eventsOf at hcallback
    rw [hcallback]
    by_cases heq : t.mID = mID <;> simp [Event.isOf, heq]
  | sent hclock => simp [eventsOf, Event.isOf, List.filter_cons]

theorem first_cases {malloc : Bool} {tvSec : Int} {list : List (Transaction Peer Callback)}
    {t : Transaction Peer Callback} {sent : Sent Peer Callback} (h : Unsent t)
    (hsend : transactionSend malloc tvSec list t = .ok sent) :
    ∃ o, SentFirst malloc tvSec t o sent.events ∧ sent.list = put list t o := by
  obtain ⟨hack, htimeout, hcounter, hbuffer⟩ := h
  cases hfill : fillBuffer malloc t with
  | error fault =>
    simp only [transactionSend, hfill] at hsend
    cases hsend
  | ok filled =>
    cases filled with
    | none =>
      simp only [transactionSend, hfill] at hsend
      cases hsend
      refine ⟨none, .noBuffer ?_, rfl⟩
      simp only [fillBuffer, hbuffer] at hfill
      split at hfill
      · next hsize => exact .inr hsize
      · split at hfill
        · split at hfill
          · cases hfill
          · cases hfill
        · next hmalloc => exact .inl (Bool.eq_false_of_not_eq_true hmalloc)
    | some filled =>
      have hfilled : filled = { t with
          buffer := some (bytesOf t)
          message := (coapSerializeMessage t.message).2 } := by
        simp only [fillBuffer, hbuffer] at hfill
        split at hfill
        · cases hfill
        · split at hfill
          · split at hfill
            · cases hfill
            · cases hfill
              rfl
          · cases hfill
      subst hfilled
      by_cases hclock : 0 ≤ tvSec
      · rw [send_kept hfill (transmit_first hack hcounter hclock) hack list] at hsend
        cases hsend
        exact ⟨_, .sent hclock, rfl⟩
      · have hneg : tvSec < 0 := by omega
        obtain ⟨t', htransmit, hmID, hcallback⟩ := transmit_noClock (t := { t with
          buffer := some (bytesOf t)
          message := (coapSerializeMessage t.message).2 }) hack hcounter hneg
        rw [send_ended hfill htransmit (.inr rfl) list] at hsend
        cases hsend
        refine ⟨none, ?_, ?_⟩
        · have hrun : runCallback t' none = runCallback t none := by
            unfold runCallback
            rw [hmID, hcallback]
          rw [hrun]
          exact .noClock hneg
        · unfold put transactionRemove key
          rw [hmID]

/-! ## All transactions at once -/

/-- What is asked of a transaction that is in the list. -/
def Listed (list : List (Transaction Peer Callback)) : Prop :=
  Sorted key list ∧ ∀ t ∈ list, WasSent t

theorem current_some {list : List (Transaction Peer Callback)} {mID : UInt16}
    {t : Transaction Peer Callback} (h : current list mID = some t) : t ∈ list ∧ t.mID = mID :=
  ⟨(find_eq_some h).1, UInt16.toNat_inj.mp (find_eq_some h).2⟩

theorem current_of_mem {list : List (Transaction Peer Callback)} (hs : Sorted key list)
    {t : Transaction Peer Callback} (ht : t ∈ list) : current list t.mID = some t :=
  find_of_mem hs ht

/-- `transaction_step` does with each transaction what its time asks for. -/
inductive Stepped (currentTime : Int) (t : Transaction Peer Callback) :
    Option (Transaction Peer Callback) → List (Event Peer Callback) → Prop where
  | early : currentTime < t.retransTime → Stepped currentTime t (some t) []
  | due {o : Option (Transaction Peer Callback)} {events : List (Event Peer Callback)} :
      t.retransTime ≤ currentTime → SentAgain t o events → Stepped currentTime t o events

/-- The step sleeps no longer than until a transaction is due, a second at least. -/
def Awaits (currentTime timeout : Int) (o : Option (Transaction Peer Callback)) : Prop :=
  ∀ t, o = some t → timeout ≤ interval currentTime t

theorem one_le_interval (currentTime : Int) (t : Transaction Peer Callback) :
    1 ≤ interval currentTime t := by
  unfold interval
  split <;> omega

theorem stepFrom_cases (malloc : Bool) (currentTime tvSec : Int)
    {pending : List (Transaction Peer Callback)} (hpending : Listed pending)
    {list : List (Transaction Peer Callback)} (hlist : Sorted key list)
    (hcurrent : ∀ t ∈ pending, current list t.mID = some t) (timeout : Int) :
    ∃ list' timeout' events,
      stepFrom malloc currentTime tvSec pending list timeout = .ok (list', timeout', events) ∧
        Sorted key list' ∧
        (∀ t ∈ pending, Stepped currentTime t (current list' t.mID) (eventsOf t.mID events) ∧
          Awaits currentTime timeout' (current list' t.mID)) ∧
        timeout' ≤ max timeout 1 ∧ (1 ≤ timeout → 1 ≤ timeout') ∧
        ∀ mID, (∀ t ∈ pending, t.mID ≠ mID) →
          current list' mID = current list mID ∧ eventsOf mID events = [] := by
  induction pending generalizing list timeout with
  | nil =>
    refine ⟨list, timeout, [], rfl, hlist, (fun _ ht => nomatch ht), Int.le_max_left _ _,
      fun htimeout => htimeout, fun _ _ => ⟨rfl, rfl⟩⟩
  | cons t pending ih =>
    obtain ⟨hsorted, hsent⟩ := hpending
    obtain ⟨hlt, hrest⟩ := sorted_cons_iff.mp hsorted
    have hpending' : Listed pending := ⟨hrest, fun u hu => hsent u (List.mem_cons_of_mem _ hu)⟩
    have hother : ∀ u ∈ pending, u.mID ≠ t.mID := by
      intro u hu heq
      have := hlt u hu
      unfold key at this
      rw [heq] at this
      exact Nat.lt_irrefl _ this
    by_cases hdue : t.retransTime ≤ currentTime
    · obtain ⟨sent, o, hsend, hcase, hput, hresult⟩ := send_cases malloc tvSec list
        (hsent t List.mem_cons_self)
      have ht := hcurrent t List.mem_cons_self
      have hsorted' : Sorted key sent.list := by
        rw [hput]
        exact sorted_put hlist hcase.mID
      have hcurrent' : ∀ mID, current sent.list mID =
          if mID = t.mID then o else current list mID := by
        rw [hput]
        exact current_put hlist ht hcase.mID
      have hpending'' : ∀ u ∈ pending, current sent.list u.mID = some u := by
        intro u hu
        rw [hcurrent', if_neg (hother u hu)]
        exact hcurrent u (List.mem_cons_of_mem _ hu)
      obtain ⟨list', timeout', events, hrun, hs', hdone, hle, hge, hsame⟩ :=
        ih hpending' hsorted' hpending''
          (if sent.result = 0 then
            if interval currentTime sent.transaction < timeout then
              interval currentTime sent.transaction
            else timeout
          else 1)
      have hinterval := one_le_interval currentTime sent.transaction
      refine ⟨list', timeout', sent.events ++ events, ?_, hs', ?_, ?_, ?_, ?_⟩
      · simp only [stepFrom, hdue, if_true, hsend, hrun]
      · intro u hu
        have hevents := hcase.events u.mID
        rcases List.mem_cons.mp hu with rfl | hu
        · obtain ⟨hlast, hnone⟩ := hsame u.mID hother
          rw [if_pos rfl] at hevents
          rw [hlast, hcurrent', if_pos rfl, eventsOf, List.filter_append, ← eventsOf, ← eventsOf,
            hevents, hnone, List.append_nil]
          refine ⟨.due hdue hcase, ?_⟩
          intro t' ht'
          obtain ⟨hzero, rfl⟩ := hresult t' ht'
          rw [if_pos hzero] at hle
          split at hle <;> omega
        · rw [if_neg (hother u hu).symm] at hevents
          rw [eventsOf, List.filter_append, ← eventsOf, ← eventsOf, hevents, List.nil_append]
          exact hdone u hu
      · split at hle
        · split at hle <;> omega
        · omega
      · intro htimeout
        apply hge
        split
        · split <;> omega
        · exact Int.le_refl 1
      · intro mID hmID
        have hne : t.mID ≠ mID := hmID t List.mem_cons_self
        obtain ⟨hlast, hnone⟩ := hsame mID fun u hu => hmID u (List.mem_cons_of_mem _ hu)
        have hevents := hcase.events mID
        rw [if_neg hne] at hevents
        rw [hlast, hcurrent', if_neg hne.symm, eventsOf, List.filter_append, ← eventsOf,
          ← eventsOf, hevents, hnone]
        exact ⟨rfl, rfl⟩
    · obtain ⟨list', timeout', events, hrun, hs', hdone, hle, hge, hsame⟩ := ih hpending' hlist
        (fun u hu => hcurrent u (List.mem_cons_of_mem _ hu))
        (if interval currentTime t < timeout then interval currentTime t else timeout)
      have hinterval := one_le_interval currentTime t
      refine ⟨list', timeout', events, ?_, hs', ?_, ?_, ?_, ?_⟩
      · simp only [stepFrom, hdue, if_false]
        exact hrun
      · intro u hu
        rcases List.mem_cons.mp hu with rfl | hu
        · obtain ⟨hlast, hnone⟩ := hsame u.mID hother
          rw [hlast, hnone, hcurrent u List.mem_cons_self]
          refine ⟨.early (by omega), ?_⟩
          intro t' ht'
          cases ht'
          split at hle <;> omega
        · exact hdone u hu
      · split at hle <;> omega
      · intro htimeout
        apply hge
        split <;> omega
      · intro mID hmID
        exact hsame mID fun u hu => hmID u (List.mem_cons_of_mem _ hu)

/-- A message acknowledges or resets a transaction. -/
def AckOf (t : Transaction Peer Callback) (message : Packet) : Prop :=
  (message.type = .ack ∨ message.type = .rst) ∧ t.mID = message.mid

/-- A message carries the token of a transaction. -/
def TokenOf (t : Transaction Peer Callback) (message : Packet) : Prop :=
  coapOptionToken ∈ t.message.options ∧ t.message.token = coapGetHeaderToken message

/-- A response of its own can come after the acknowledgement. -/
def WithToken (t : Transaction Peer Callback) : Prop :=
  ¬ coapDelete < t.message.code ∧ coapOptionToken ∈ t.message.options

/-- A transaction is answered by a message of its peer: it is ended, it has to wait because its
peer does not know it yet, or it waits for a response of its own. -/
inductive Answered (tvSec : Int) (message : Packet) (t : Transaction Peer Callback) :
    Option (Transaction Peer Callback) → List (Event Peer Callback) → Prop where
  | ended (acks : List (Event Peer Callback)) : (∀ mID, eventsOf mID acks = []) →
      AckOf t message ∨ TokenOf t message ∨ t.ackReceived = true ∧ ¬ WithToken t →
      Answered tvSec message t none (acks ++ runCallback t (some message))
  | denied (acks : List (Event Peer Callback)) : (∀ mID, eventsOf mID acks = []) →
      message.code = unauthorized401 → t.retransCounter < coapMaxRetransmit →
      Answered tvSec message t (some { t with
        ackReceived := false
        retransTime := t.retransTime + coapResponseTimeout }) acks
  | acked (t' : Transaction Peer Callback) : t.ackReceived = false → AckOf t message →
      message.type = .ack → WithToken t →
      t' = { t with
        ackReceived := true
        retransTime := (if 0 ≤ tvSec then tvSec else t.retransTime) +
          (if t.responseTimeout ≠ 0 then t.responseTimeout
            else coapResponseTimeout * t.retransCounter) } →
      Answered tvSec message t (some t') []

theorem acks_isOf (t : Transaction Peer Callback) (mid : UInt16) (c : Prop) [Decidable c]
    (mID : UInt16) :
    eventsOf mID (if c then [Event.ack t.peerH mid] else ([] : List (Event Peer Callback))) =
      [] := by
  unfold eventsOf
  split <;> simp [Event.isOf]

theorem respond_cases {tvSec : Int} {message : Packet} {response : Bool}
    {t : Transaction Peer Callback} {o : Option (Transaction Peer Callback)}
    {events : List (Event Peer Callback)}
    (h : respond tvSec message response t = some (o, events)) :
    Answered tvSec message t o events := by
  have hcheck : prvCheckFinished t message = true →
      TokenOf t message ∨ t.ackReceived = true ∧ ¬ WithToken t := by
    intro hfinished
    unfold prvCheckFinished at hfinished
    split at hfinished
    · next hcode => exact .inr ⟨hfinished, fun h => h.1 hcode⟩
    · split at hfinished
      · next htoken => exact .inr ⟨hfinished, fun h => htoken h.2⟩
      · next htoken => exact .inl ⟨not_not.mp htoken, of_decide_eq_true hfinished⟩
  unfold respond at h
  by_cases hfound : (!t.ackReceived && (decide (message.type = .ack) ||
      decide (message.type = .rst)) && decide (t.mID = message.mid)) = true
  · have hack : t.ackReceived = false ∧ AckOf t message := by
      simpa [AckOf, and_assoc] using hfound
    obtain ⟨hack, hackOf⟩ := hack
    rw [hfound] at h
    dsimp only at h
    rw [if_pos rfl, Bool.true_and] at h
    split at h
    · next hfinished =>
      split at h
      · next hdenied =>
        cases h
        simp only [Bool.and_eq_true, decide_eq_true_eq] at hdenied
        exact .denied _ (acks_isOf t _ _) hdenied.1.2 hdenied.2
      · cases h
        exact .ended _ (acks_isOf t _ _) (.inl hackOf)
    · next hfinished =>
      simp only [Bool.or_eq_true, decide_eq_true_eq, not_or] at hfinished
      rw [if_pos rfl] at h
      cases h
      refine .acked _ hack hackOf (hackOf.1.resolve_right hfinished.1) ?_ rfl
      by_contra hwith
      apply hfinished.2
      unfold prvCheckFinished
      dsimp only
      split
      · rfl
      · next hcode => exact if_pos fun htoken => hwith ⟨hcode, htoken⟩
  · rw [Bool.not_eq_true] at hfound
    rw [hfound] at h
    dsimp only at h
    rw [if_neg Bool.false_ne_true, Bool.false_and] at h
    split at h
    · next hfinished =>
      rw [Bool.false_or] at hfinished
      split at h
      · next hdenied =>
        cases h
        simp only [Bool.and_eq_true, decide_eq_true_eq] at hdenied
        exact .denied _ (acks_isOf t _ _) hdenied.1.2 hdenied.2
      · cases h
        exact .ended _ (acks_isOf t _ _) (.inr (hcheck hfinished))
    · rw [if_neg Bool.false_ne_true] at h
      cases h

theorem Answered.mID {tvSec : Int} {message : Packet} {t : Transaction Peer Callback}
    {o : Option (Transaction Peer Callback)} {events : List (Event Peer Callback)}
    (h : Answered tvSec message t o events) : ∀ t', o = some t' → t'.mID = t.mID := by
  intro u hu
  cases h with
  | ended acks hacks hmatch => cases hu
  | denied acks hacks hcode hcounter =>
    cases hu
    rfl
  | acked t' hack hackOf htype htoken ht' =>
    cases hu
    rw [ht']

theorem Answered.events {tvSec : Int} {message : Packet} {t : Transaction Peer Callback}
    {o : Option (Transaction Peer Callback)} {events : List (Event Peer Callback)}
    (h : Answered tvSec message t o events) {mID : UInt16} (hne : t.mID ≠ mID) :
    eventsOf mID events = [] := by
  cases h with
  | ended acks hacks hmatch =>
    have hcallback := runCallback_isOf t (some message) mID
    rw [if_neg hne] at hcallback
    rw [eventsOf, List.filter_append, ← eventsOf, ← eventsOf, hacks, hcallback, List.append_nil]
  | denied acks hacks hcode hcounter => exact hacks mID
  | acked t' hack hackOf htype htoken ht' => rfl

section Answer
variable [DecidableEq Peer]

/-- A message answers one transaction of its peer, or none. -/
theorem handleFrom_cases (tvSec : Int) (fromSessionH : Peer) (message : Packet) (response : Bool)
    (list pending list' : List (Transaction Peer Callback)) (done : Bool)
    (events : List (Event Peer Callback))
    (h : handleFrom tvSec fromSessionH message response list pending = (list', done, events)) :
    list' = list ∧ events = [] ∨
      ∃ t ∈ pending, t.peerH = fromSessionH ∧ ∃ o, Answered tvSec message t o events ∧
        list' = put list t o := by
  induction pending with
  | nil =>
    cases h
    exact .inl ⟨rfl, rfl⟩
  | cons t pending ih =>
    have hlater : handleFrom tvSec fromSessionH message response list pending =
        (list', done, events) → list' = list ∧ events = [] ∨
          ∃ u ∈ t :: pending, u.peerH = fromSessionH ∧ ∃ o, Answered tvSec message u o events ∧
            list' = put list u o := by
      intro hrest
      rcases ih hrest with hnone | ⟨u, hu, hcase⟩
      · exact .inl hnone
      · exact .inr ⟨u, List.mem_cons_of_mem _ hu, hcase⟩
    rw [handleFrom] at h
    split at h
    · next hpeer =>
      split at h
      · next t' evs hrespond =>
        cases h
        exact .inr ⟨t, List.mem_cons_self, hpeer.symm, _, respond_cases hrespond, rfl⟩
      · next evs hrespond =>
        cases h
        exact .inr ⟨t, List.mem_cons_self, hpeer.symm, _, respond_cases hrespond, rfl⟩
      · exact hlater h
    · exact hlater h

/-- What an input does with the transaction of a message id. -/
inductive Lived (i : Input Peer Callback) (mID : UInt16) : Option (Transaction Peer Callback) →
    Option (Transaction Peer Callback) → List (Event Peer Callback) → Prop where
  | untouched (o : Option (Transaction Peer Callback)) :
      (∀ malloc t, i.action = .start malloc t → t.mID ≠ mID) → Lived i mID o o []
  | started (malloc : Bool) (t : Transaction Peer Callback)
      {o : Option (Transaction Peer Callback)} {events : List (Event Peer Callback)} :
      i.action = .start malloc t → t.mID = mID → Unsent t → SentFirst malloc i.time t o events →
      Lived i mID none o events
  | stepped (t : Transaction Peer Callback) {o : Option (Transaction Peer Callback)}
      {events : List (Event Peer Callback)} : t.mID = mID → t.retransTime ≤ i.time →
      SentAgain t o events → Lived i mID (some t) o events
  | answered (t : Transaction Peer Callback) (message : Packet) (response : Bool)
      {o : Option (Transaction Peer Callback)} {events : List (Event Peer Callback)} :
      i.action = .response t.peerH message response → t.mID = mID →
      Answered i.time message t o events → Lived i mID (some t) o (eventsOf mID events)

omit [DecidableEq Peer] in
theorem Stepped.lived {i : Input Peer Callback} {malloc : Bool} {timeout : Int}
    (haction : i.action = .step malloc timeout) {t : Transaction Peer Callback}
    {o : Option (Transaction Peer Callback)} {events : List (Event Peer Callback)}
    (h : Stepped i.time t o events) : Lived i t.mID (some t) o events := by
  cases h with
  | early hearly =>
    refine .untouched (some t) ?_
    intro malloc' u hstart
    rw [haction] at hstart
    cases hstart
  | due hdue hcase => exact .stepped t rfl hdue hcase

/-- The transactions of different message ids live apart. -/
theorem context_step {c c' : Context Peer Callback} {i : Input Peer Callback}
    {events : List (Event Peer Callback)} (hc : Listed c.transactionList)
    (hstep : contextStep c i = some (c', events)) :
    c.now ≤ i.time ∧ c'.now = i.time ∧ Sorted key c'.transactionList ∧
      ∀ mID, Lived i mID (current c.transactionList mID) (current c'.transactionList mID)
        (eventsOf mID events) := by
  obtain ⟨hs, hsent⟩ := hc
  unfold contextStep at hstep
  split at hstep
  · cases hstep
  next hclock =>
  refine ⟨by omega, ?_⟩
  split at hstep
  · next malloc t haction =>
    split at hstep
    · next hfresh =>
      obtain ⟨hunsent, hfresh⟩ := hfresh
      split at hstep
      · cases hstep
      · next sent hsend =>
        cases hstep
        obtain ⟨o, hcase, hput⟩ := first_cases hunsent hsend
        have hadd : ∀ mID, current (lwm2mListAdd key t c.transactionList) mID =
            if mID = t.mID then some t else current c.transactionList mID := by
          intro mID
          unfold current
          rw [find_add t hfresh]
          simp only [toNat_eq_key]
        have hsorted := sorted_add t hs hfresh
        refine ⟨rfl, ?_, ?_⟩
        · dsimp only
          rw [hput]
          exact sorted_put hsorted hcase.mID
        · intro mID
          have hevents := hcase.events mID
          dsimp only
          rw [hput, current_put hsorted (by rw [hadd, if_pos rfl]) hcase.mID, hadd, hevents]
          by_cases heq : mID = t.mID
          · subst heq
            have hnone : current c.transactionList t.mID = none := hfresh
            rw [if_pos rfl, if_pos rfl, hnone]
            exact .started malloc t haction rfl hunsent hcase
          · rw [if_neg heq, if_neg heq, if_neg (Ne.symm heq)]
            refine .untouched _ ?_
            intro malloc' u hstart
            rw [haction] at hstart
            cases hstart
            exact Ne.symm heq
    · cases hstep
  · next malloc timeout haction =>
    obtain ⟨list', timeout', evs, hrun, hs', hdone, hle, hge, hsame⟩ := stepFrom_cases malloc i.time
      i.time ⟨hs, hsent⟩ hs (fun t ht => current_of_mem hs ht) timeout
    unfold transactionStep at hstep
    rw [hrun] at hstep
    cases hstep
    have hother : ∀ malloc' u, i.action ≠ .start malloc' u := by
      intro malloc' u hstart
      rw [haction] at hstart
      cases hstart
    refine ⟨rfl, hs', ?_⟩
    intro mID
    cases hfind : current c.transactionList mID with
    | none =>
      obtain ⟨hlast, hnone⟩ := hsame mID fun t ht heq => by
        rw [← heq, current_of_mem hs ht] at hfind
        cases hfind
      dsimp only
      rw [hlast, hnone, hfind]
      exact .untouched none fun malloc' u hstart => absurd hstart (hother malloc' u)
    | some t =>
      obtain ⟨ht, rfl⟩ := current_some hfind
      exact (hdone t ht).1.lived haction
  · next fromSessionH message response haction =>
    have hother : ∀ malloc' u, i.action ≠ .start malloc' u := by
      intro malloc' u hstart
      rw [haction] at hstart
      cases hstart
    cases hhandled : handleFrom i.time fromSessionH message response c.transactionList
      c.transactionList with
    | mk list' rest =>
      obtain ⟨done, evs⟩ := rest
      simp only [transactionHandleResponse, hhandled] at hstep
      cases hstep
      rcases handleFrom_cases i.time fromSessionH message response c.transactionList
        c.transactionList _ _ _ hhandled with ⟨rfl, rfl⟩ | ⟨t, ht, rfl, o, hcase, rfl⟩
      · refine ⟨rfl, hs, ?_⟩
        intro mID
        exact .untouched _ fun malloc' u hstart => absurd hstart (hother malloc' u)
      · have hcurrent := current_of_mem hs ht
        refine ⟨rfl, sorted_put hs hcase.mID, ?_⟩
        intro mID
        dsimp only
        rw [current_put hs hcurrent hcase.mID]
        by_cases heq : mID = t.mID
        · subst heq
          rw [if_pos rfl, hcurrent]
          exact .answered t message response haction rfl hcase
        · rw [if_neg heq, hcase.events (Ne.symm heq)]
          exact .untouched _ fun malloc' u hstart => absurd hstart (hother malloc' u)

end Answer

end Cases

end JsEmbeddedPlatform.Transactions
