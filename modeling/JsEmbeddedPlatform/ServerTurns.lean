import JsEmbeddedPlatform.RegistrationClient
import JsEmbeddedPlatform.TransactionLife

/-!
# One server at a time

The loops of a client change its servers one after the other, the replies all that they are for.
What a call can do with one server is one of three turns; what the turns and the transactions
keep, every call of the client keeps.
-/

set_option autoImplicit false

namespace JsEmbeddedPlatform.Registration

open Coap (Packet)
open Lwm2mList (lwm2mListAdd)
open Transactions (Transaction current key Listed Unsent Lived eventsOf transactionSend)

section Waiting
variable {Peer : Type}

/-- The handler whose call ends a state. -/
def Status.handler? : Status → Option Handler
  | .regPending => some .registrationReply
  | .regUpdatePending => some .registrationUpdateReply
  | .deregPending => some .deregistrationReply
  | _ => none

/-- The states of a client that the server knows. -/
def Status.isRegistered : Status → Bool
  | .registered | .regUpdatePending | .regUpdateNeeded | .regFullUpdateNeeded => true
  | .deregPending => true
  | _ => false

/-- A server that is neither deregistered nor given up has a session. -/
def Connected (server : Server Peer) : Prop :=
  server.status = .deregistered ∨ server.status = .regFailed ∨ server.sessionH ≠ none

/-! ## Replies -/

theorem handleReply_other {tvSec : Int} {malloc : Bool} {server : Server Peer}
    {packet : Option Packet} {handler : Handler} (h : server.status.handler? ≠ some handler) :
    handleReply tvSec malloc server packet handler = server := by
  cases handler with
  | registrationReply =>
    refine if_neg fun hpending => h ?_
    rw [hpending]
    rfl
  | registrationUpdateReply =>
    refine if_neg fun hpending => h ?_
    rw [hpending]
    rfl
  | deregistrationReply =>
    refine if_neg fun hpending => h ?_
    rw [hpending]
    rfl

theorem setRegistration_frame (server : Server Peer) (tvSec : Int) :
    (server.setRegistration tvSec).secObjInstID = server.secObjInstID ∧
      (server.setRegistration tvSec).sessionH = server.sessionH := by
  unfold Server.setRegistration
  split
  · exact ⟨rfl, rfl⟩
  · exact ⟨rfl, rfl⟩

theorem handleReply_frame (tvSec : Int) (malloc : Bool) (server : Server Peer)
    (packet : Option Packet) (handler : Handler) :
    (handleReply tvSec malloc server packet handler).secObjInstID = server.secObjInstID ∧
      (handleReply tvSec malloc server packet handler).sessionH = server.sessionH := by
  have hset := setRegistration_frame server tvSec
  cases handler with
  | registrationReply =>
    unfold handleReply prvHandleRegistrationReply
    dsimp only
    split
    · split
      · split
        · exact hset
        · exact hset
      · exact hset
    · exact ⟨rfl, rfl⟩
  | registrationUpdateReply =>
    unfold handleReply prvHandleRegistrationUpdateReply
    dsimp only
    split
    · split
      · split
        · exact hset
        · exact hset
      · exact hset
    · exact ⟨rfl, rfl⟩
  | deregistrationReply =>
    unfold handleReply prvHandleDeregistrationReply
    dsimp only
    split
    · exact ⟨rfl, rfl⟩
    · exact ⟨rfl, rfl⟩

theorem handleReply_ends {tvSec : Int} {malloc : Bool} {server : Server Peer}
    {packet : Option Packet} {handler : Handler} (h : server.status.handler? = some handler) :
    (handleReply tvSec malloc server packet handler).status.handler? = none := by
  cases handler with
  | registrationReply =>
    unfold handleReply prvHandleRegistrationReply
    dsimp only
    split
    · split
      · split
        · rfl
        · rfl
      · rfl
    · next hother => cases hstatus : server.status <;> simp_all [Status.handler?]
  | registrationUpdateReply =>
    unfold handleReply prvHandleRegistrationUpdateReply
    dsimp only
    split
    · split
      · split
        · rfl
        · rfl
      · rfl
    · next hother => cases hstatus : server.status <;> simp_all [Status.handler?]
  | deregistrationReply =>
    unfold handleReply prvHandleDeregistrationReply
    dsimp only
    split
    · rfl
    · next hother => cases hstatus : server.status <;> simp_all [Status.handler?]

theorem replies_frame (tvSec : Int) (malloc : Bool) (events : List (Event Peer))
    (server : Server Peer) :
    (replies tvSec malloc events server).secObjInstID = server.secObjInstID ∧
      (replies tvSec malloc events server).sessionH = server.sessionH := by
  induction events generalizing server with
  | nil => exact ⟨rfl, rfl⟩
  | cons e events ih =>
    cases e with
    | send mID peerH buffer => exact ih server
    | ack peerH mid => exact ih server
    | callback mID callback packet =>
      unfold replies
      split
      · obtain ⟨hid, hsession⟩ := handleReply_frame tvSec malloc server packet callback.handler
        obtain ⟨hid', hsession'⟩ := ih (handleReply tvSec malloc server packet callback.handler)
        exact ⟨hid'.trans hid, hsession'.trans hsession⟩
      · exact ih server

/-- A call of the handler that a server waits for. -/
def Replied (server : Server Peer) (events : List (Event Peer)) : Prop :=
  ∃ mID handler packet, .callback mID ⟨handler, server.secObjInstID⟩ packet ∈ events ∧
    server.status.handler? = some handler

theorem replies_other (tvSec : Int) (malloc : Bool) {events : List (Event Peer)}
    {server : Server Peer} (h : ¬ Replied server events) :
    replies tvSec malloc events server = server := by
  induction events with
  | nil => rfl
  | cons e events ih =>
    have hlater : ¬ Replied server events := by
      rintro ⟨mID, handler, packet, hmem, hhandler⟩
      exact h ⟨mID, handler, packet, List.mem_cons_of_mem _ hmem, hhandler⟩
    cases e with
    | send mID peerH buffer => exact ih hlater
    | ack peerH mid => exact ih hlater
    | callback mID callback packet =>
      unfold replies
      split
      · next hid =>
        rw [handleReply_other, ih hlater]
        intro hhandler
        refine h ⟨mID, callback.handler, packet, ?_, hhandler⟩
        rw [← hid]
        exact List.mem_cons_self
      · exact ih hlater

theorem replies_idle (tvSec : Int) (malloc : Bool) (events : List (Event Peer))
    {server : Server Peer} (h : server.status.handler? = none) :
    replies tvSec malloc events server = server := by
  apply replies_other
  rintro ⟨mID, handler, packet, _, hhandler⟩
  rw [h] at hhandler
  cases hhandler

theorem replies_ends (tvSec : Int) (malloc : Bool) {events : List (Event Peer)}
    {server : Server Peer} (h : Replied server events) :
    (replies tvSec malloc events server).status.handler? = none := by
  induction events with
  | nil =>
    obtain ⟨_, _, _, hmem, _⟩ := h
    cases hmem
  | cons e events ih =>
    obtain ⟨mID, handler, packet, hmem, hhandler⟩ := h
    rcases List.mem_cons.mp hmem with rfl | hlater
    · unfold replies
      have hended : (handleReply tvSec malloc server packet handler).status.handler? = none :=
        handleReply_ends hhandler
      rw [if_pos rfl, replies_idle tvSec malloc events hended]
      exact hended
    · have hreplied : Replied server events := ⟨mID, handler, packet, hlater, hhandler⟩
      cases e with
      | send mID peerH buffer => exact ih hreplied
      | ack peerH mid => exact ih hreplied
      | callback mID callback packet =>
        unfold replies
        split
        · by_cases hown : server.status.handler? = some callback.handler
          · rw [replies_idle tvSec malloc events (handleReply_ends hown)]
            exact handleReply_ends hown
          · rw [handleReply_other hown]
            exact ih hreplied
        · exact ih hreplied

theorem handleReply_registered {tvSec : Int} {malloc : Bool} {s : Server Peer}
    {packet : Option Packet} {handler : Handler}
    (h : (handleReply tvSec malloc s packet handler).status.isRegistered = true) :
    s.status.isRegistered = true ∨
      handler = .registrationReply ∧ ∃ p, packet = some p ∧ p.code = created201 := by
  by_cases hown : s.status.handler? = some handler
  · cases handler with
    | registrationReply =>
      unfold handleReply prvHandleRegistrationReply at h
      dsimp only at h
      split at h
      · split at h
        · next p =>
          split at h
          · next hcode => exact .inr ⟨rfl, p, rfl, hcode⟩
          · cases h
        · cases h
      · exact .inl h
    | registrationUpdateReply =>
      refine .inl ?_
      cases hstatus : s.status <;> simp_all [Status.handler?, Status.isRegistered]
    | deregistrationReply =>
      refine .inl ?_
      cases hstatus : s.status <;> simp_all [Status.handler?, Status.isRegistered]
  · rw [handleReply_other hown] at h
    exact .inl h

/-- A server is registered by a reply that says so. -/
theorem replies_registered {tvSec : Int} {malloc : Bool} {events : List (Event Peer)}
    {s : Server Peer} (h : (replies tvSec malloc events s).status.isRegistered = true) :
    s.status.isRegistered = true ∨ ∃ mID packet,
      .callback mID ⟨.registrationReply, s.secObjInstID⟩ (some packet) ∈ events ∧
        packet.code = created201 := by
  induction events generalizing s with
  | nil => exact .inl h
  | cons e events ih =>
    have hlater : ∀ u : Server Peer, u.secObjInstID = s.secObjInstID →
        (replies tvSec malloc events u).status.isRegistered = true →
        u.status.isRegistered = true ∨ ∃ mID packet,
          .callback mID ⟨.registrationReply, s.secObjInstID⟩ (some packet) ∈ e :: events ∧
            packet.code = created201 := by
      intro u hid hu
      rcases ih hu with hregistered | ⟨mID, packet, hmem, hcode⟩
      · exact .inl hregistered
      · rw [hid] at hmem
        exact .inr ⟨mID, packet, List.mem_cons_of_mem _ hmem, hcode⟩
    cases e with
    | send mID peerH buffer => exact hlater s rfl h
    | ack peerH mid => exact hlater s rfl h
    | callback mID callback packet =>
      unfold replies at h
      split at h
      · next hid =>
        obtain ⟨hframe, _⟩ := handleReply_frame tvSec malloc s packet callback.handler
        rcases hlater _ hframe h with hregistered | hthere
        · rcases handleReply_registered hregistered with hbefore | ⟨hhandler, p, rfl, hcode⟩
          · exact .inl hbefore
          · refine .inr ⟨mID, p, ?_, hcode⟩
            rw [← hid, ← hhandler]
            exact List.mem_cons_self
        · exact .inr hthere
      · exact hlater s rfl h

/-! ## Transactions -/

/-- What a step or a response makes of a transaction: it stays, or its callback is called. -/
inductive Fate (t : Transaction Peer Callback) : Option (Transaction Peer Callback) →
    List (Event Peer) → Prop where
  | stays (t' : Transaction Peer Callback) (events : List (Event Peer)) :
      t'.callback = t.callback → t'.peerH = t.peerH →
      (∀ mID callback packet, .callback mID callback packet ∉ events) → Fate t (some t') events
  | ends (events : List (Event Peer)) :
      (∀ callback, t.callback = some callback →
        ∃ packet, .callback t.mID callback packet ∈ events) →
      (∀ mID callback packet, .callback mID callback packet ∈ events →
        t.callback = some callback) → Fate t none events

theorem mem_runCallback {t : Transaction Peer Callback} {message : Option Packet} :
    (∀ callback, t.callback = some callback →
        ∃ packet, .callback t.mID callback packet ∈ Transactions.runCallback t message) ∧
      ∀ mID callback packet, .callback mID callback packet ∈ Transactions.runCallback t message →
        t.callback = some callback := by
  unfold Transactions.runCallback
  cases hcallback : t.callback with
  | none => exact ⟨fun _ h => (nomatch h), fun _ _ _ h => (nomatch h)⟩
  | some callback =>
    refine ⟨?_, ?_⟩
    · rintro _ ⟨⟩
      exact ⟨message, List.mem_singleton_self _⟩
    · intro mID other packet hmem
      cases List.mem_singleton.mp hmem
      rfl

theorem mem_eventsOf {mID : UInt16} {callback : Callback} {packet : Option Packet}
    {events : List (Event Peer)} (h : .callback mID callback packet ∈ events) :
    .callback mID callback packet ∈ eventsOf mID events :=
  List.mem_filter.mpr ⟨h, decide_eq_true rfl⟩

theorem of_mem_eventsOf {mID : UInt16} {e : Event Peer} {events : List (Event Peer)}
    (h : e ∈ eventsOf mID events) : e ∈ events :=
  (List.mem_filter.mp h).1

/-- The events of a transaction that is ended by an answer are the call of its callback. -/
theorem ended_events {t : Transaction Peer Callback} {mID : UInt16} {acks : List (Event Peer)}
    {message : Option Packet} (hmID : t.mID = mID) (hacks : ∀ mID, eventsOf mID acks = []) :
    eventsOf mID (acks ++ Transactions.runCallback t message) =
      Transactions.runCallback t message := by
  rw [eventsOf, List.filter_append, ← eventsOf, ← eventsOf, hacks, Transactions.runCallback_isOf,
    if_pos hmID, List.nil_append]

theorem lived_fate {i : Transactions.Input Peer Callback} {mID : UInt16}
    {o o' : Option (Transaction Peer Callback)} {events : List (Event Peer)}
    (haction : ∀ malloc t, i.action ≠ .start malloc t) (h : Lived i mID o o' events) :
    (∀ t, o = some t → t.mID = mID → Fate t o' events) ∧ (o = none → o' = none ∧ events = []) := by
  cases h with
  | untouched _ hother =>
    refine ⟨?_, fun hnone => ⟨hnone, rfl⟩⟩
    rintro t rfl _
    exact .stays t [] rfl rfl fun _ _ _ => List.not_mem_nil
  | started malloc t hstart hmID hunsent hcase => exact absurd hstart (haction malloc t)
  | stepped t hmID hdue hcase =>
    refine ⟨?_, fun hnone => absurd hnone (Option.some_ne_none _)⟩
    rintro _ ⟨⟩ _
    cases hcase with
    | resend hack hcounter =>
      refine .stays _ _ rfl rfl ?_
      intro mID callback packet hmem
      cases List.mem_singleton.mp hmem
    | expired hend => exact .ends _ mem_runCallback.1 mem_runCallback.2
  | @answered t message response o' evs haction' hmID hcase =>
    refine ⟨?_, fun hnone => absurd hnone (Option.some_ne_none _)⟩
    rintro _ ⟨⟩ _
    cases hcase with
    | ended acks hacks hmatch =>
      rw [ended_events hmID hacks]
      exact .ends _ mem_runCallback.1 mem_runCallback.2
    | denied acks hacks hcode hcounter =>
      rw [hacks]
      exact .stays _ [] rfl rfl fun _ _ _ => List.not_mem_nil
    | acked t' hack hackOf htype hwith ht' =>
      refine .stays _ _ ?_ ?_ fun _ _ _ => List.not_mem_nil
      · rw [ht']
      · rw [ht']

/-- A transaction that was acknowledged waits for a message with its token. -/
theorem lived_acknowledged {i : Transactions.Input Peer Callback} {mID : UInt16}
    {o o' : Option (Transaction Peer Callback)} {events : List (Event Peer)}
    (haction : ∀ malloc t, i.action ≠ .start malloc t) (h : Lived i mID o o' events)
    (ho : ∀ t, o = some t → t.ackReceived = true → Transactions.WithToken t) :
    ∀ t, o' = some t → t.ackReceived = true → Transactions.WithToken t := by
  cases h with
  | untouched _ hother => exact ho
  | started malloc t hstart hmID hunsent hcase => exact absurd hstart (haction malloc t)
  | stepped t hmID hdue hcase =>
    cases hcase with
    | resend hack hcounter =>
      rintro _ ⟨⟩ hreceived
      cases hack.symm.trans hreceived
    | expired hend => exact nofun
  | @answered t message response o' evs haction' hmID hcase =>
    cases hcase with
    | ended acks hacks hmatch => exact nofun
    | denied acks hacks hcode hcounter => rintro _ ⟨⟩ ⟨⟩
    | acked t' hack hackOf htype hwith ht' =>
      rintro _ ⟨⟩ _
      rw [ht']
      exact hwith

/-- A handler is called with a message that answers the transaction. -/
theorem lived_packet {i : Transactions.Input Peer Callback} {mID mID' : UInt16}
    {o o' : Option (Transaction Peer Callback)} {events : List (Event Peer)} {packet : Packet}
    {callback : Callback} (haction : ∀ malloc t, i.action ≠ .start malloc t)
    (h : Lived i mID o o' events) (hmem : .callback mID' callback (some packet) ∈ events) :
    ∃ t response, o = some t ∧ t.callback = some callback ∧
      i.action = .response t.peerH packet response ∧
      (Transactions.AckOf t packet ∨ Transactions.TokenOf t packet ∨
        t.ackReceived = true ∧ ¬ Transactions.WithToken t) := by
  cases h with
  | untouched _ hother => cases hmem
  | started malloc t hstart hmID hunsent hcase => exact absurd hstart (haction malloc t)
  | stepped t hmID hdue hcase =>
    cases hcase with
    | resend hack hcounter => cases List.mem_singleton.mp hmem
    | expired hend =>
      unfold Transactions.runCallback at hmem
      split at hmem
      · cases hmem
      · cases List.mem_singleton.mp hmem
  | @answered t message response o' evs haction' hmID hcase =>
    cases hcase with
    | ended acks hacks hmatch =>
      rw [ended_events hmID hacks] at hmem
      have hcallback := mem_runCallback.2 _ _ _ hmem
      unfold Transactions.runCallback at hmem
      rw [hcallback] at hmem
      cases List.mem_singleton.mp hmem
      exact ⟨t, response, rfl, hcallback, haction', hmatch⟩
    | denied acks hacks hcode hcounter =>
      rw [hacks] at hmem
      cases hmem
    | acked t' hack hackOf htype hwith ht' => cases hmem

theorem fillBuffer_frame {malloc : Bool} {t filled : Transaction Peer Callback}
    (h : Transactions.fillBuffer malloc t = .ok (some filled)) :
    filled.ackReceived = t.ackReceived ∧ filled.retransCounter = t.retransCounter := by
  cases hbuffer : t.buffer with
  | some buffer =>
    simp only [Transactions.fillBuffer, hbuffer] at h
    cases h
    exact ⟨rfl, rfl⟩
  | none =>
    simp only [Transactions.fillBuffer, hbuffer] at h
    split at h
    · cases h
    · split at h
      · split at h
        · cases h
        · cases h
          exact ⟨rfl, rfl⟩
      · cases h

theorem first_isSome {malloc : Bool} {tvSec : Int} {t : Transaction Peer Callback}
    {o : Option (Transaction Peer Callback)} {events : List (Event Peer)}
    (h : Transactions.SentFirst malloc tvSec t o events) (hsent : events ≠ []) :
    o.isSome = decide (0 ≤ tvSec) := by
  cases h with
  | noBuffer hwhy => exact absurd rfl hsent
  | noClock hneg => exact (decide_eq_false (by omega)).symm
  | sent hle => exact (decide_eq_true hle).symm

theorem first_frame {malloc : Bool} {tvSec : Int} {t : Transaction Peer Callback}
    {o : Option (Transaction Peer Callback)} {events : List (Event Peer)}
    (h : Transactions.SentFirst malloc tvSec t o events) :
    (∀ mID callback packet, .callback mID callback packet ∈ events →
        t.callback = some callback) ∧
      ∀ t', o = some t' → t'.callback = t.callback ∧ t'.peerH = t.peerH := by
  cases h with
  | noBuffer hwhy => exact ⟨fun _ _ _ hmem => (nomatch hmem), fun _ h => (nomatch h)⟩
  | noClock hneg =>
    refine ⟨?_, fun _ h => nomatch h⟩
    intro mID callback packet hmem
    rcases List.mem_cons.mp hmem with hsend | hcall
    · cases hsend
    · exact mem_runCallback.2 _ _ _ hcall
  | sent hle =>
    refine ⟨?_, ?_⟩
    · intro mID callback packet hmem
      cases List.mem_singleton.mp hmem
    · rintro _ ⟨⟩
      exact ⟨rfl, rfl⟩

/-- A transaction that was sent for the first time is in the list where `transaction_send`
returned 0, else it is not. -/
theorem first_result {malloc : Bool} {tvSec : Int} {list : List (Transaction Peer Callback)}
    {t : Transaction Peer Callback} {sent : Transactions.Sent Peer Callback} (h : Unsent t)
    (hsend : transactionSend malloc tvSec list t = .ok sent) :
    ∃ o, Transactions.SentFirst malloc tvSec t o sent.events ∧
      sent.list = Transactions.put list t o ∧ o.isSome = decide (sent.result = 0) := by
  obtain ⟨o, hcase, hput⟩ := Transactions.first_cases h hsend
  obtain ⟨hack, _, hcounter, _⟩ := h
  refine ⟨o, hcase, hput, ?_⟩
  cases hfill : Transactions.fillBuffer malloc t with
  | error fault =>
    simp only [transactionSend, hfill] at hsend
    cases hsend
  | ok filled =>
    cases filled with
    | none =>
      simp only [transactionSend, hfill] at hsend
      cases hsend
      cases hcase with
      | noBuffer hwhy => rfl
    | some filled =>
      obtain ⟨hack', hcounter'⟩ := fillBuffer_frame hfill
      by_cases hclock : 0 ≤ tvSec
      · rw [Transactions.send_kept hfill (Transactions.transmit_first (hack'.trans hack)
          (hcounter'.trans hcounter) hclock) (hack'.trans hack) list] at hsend
        cases hsend
        rw [first_isSome hcase (List.cons_ne_nil _ _), decide_eq_true hclock]
        rfl
      · obtain ⟨t', htransmit, _, _⟩ := Transactions.transmit_noClock (hack'.trans hack)
          (hcounter'.trans hcounter) (by omega : tvSec < 0)
        rw [Transactions.send_ended hfill htransmit (.inr rfl) list] at hsend
        cases hsend
        rw [first_isSome hcase (List.cons_ne_nil _ _), decide_eq_false hclock]
        rfl

/-- The transactions of two lists are the same. -/
def Same (l l' : Link Peer) : Prop :=
  ∀ mID, current l'.context.transactionList mID = current l.context.transactionList mID

/-- A request is among the transactions that was not there. -/
def Asked (l l' : Link Peer) (t : Transaction Peer Callback) : Prop :=
  current l.context.transactionList t.mID = none ∧
    (∀ mID, current l'.context.transactionList mID =
      if mID = t.mID then some t else current l.context.transactionList mID) ∧
    t.ackReceived = false

theorem addAndSend_cases {tvSec : Int} {a : Attempt Peer} {l l' : Link Peer}
    {t : Transaction Peer Callback} {sent : Bool} {events : List (Event Peer)}
    (hl : Listed l.context.transactionList) (ht : Unsent t)
    (h : addAndSend tvSec a l t = some (l', sent, events)) :
    Listed l'.context.transactionList ∧
      (∀ mID callback packet, .callback mID callback packet ∈ events →
        t.callback = some callback) ∧
      (sent = true ∧ (∃ t', Asked l l' t' ∧ t'.callback = t.callback ∧ t'.peerH = t.peerH) ∨
        sent = false ∧ Same l l') := by
  unfold addAndSend at h
  split at h
  · cases h
  next hguard =>
  rw [not_or, not_not] at hguard
  obtain ⟨hclock, hfresh⟩ := hguard
  split at h
  · cases h
  next result hsend =>
  cases h
  obtain ⟨hs, hwas⟩ := hl
  obtain ⟨o, hcase, hput, hresult⟩ := first_result ht hsend
  have hadd : ∀ mID, current (lwm2mListAdd key t l.context.transactionList) mID =
      if mID = t.mID then some t else current l.context.transactionList mID := by
    intro mID
    unfold current
    rw [Lwm2mList.find_add t hfresh]
    simp only [Transactions.toNat_eq_key]
  have hnone : current l.context.transactionList t.mID = none := hfresh
  have hsorted := Lwm2mList.sorted_add t hs hfresh
  have hafter : ∀ mID, current result.list mID =
      if mID = t.mID then o else current l.context.transactionList mID := by
    intro mID
    rw [hput, Transactions.current_put hsorted (by rw [hadd, if_pos rfl]) hcase.mID, hadd]
    split
    · rfl
    · rfl
  have hsorted' : Lwm2mList.Sorted key result.list := by
    rw [hput]
    exact Transactions.sorted_put hsorted hcase.mID
  refine ⟨⟨hsorted', ?_⟩, ?_, ?_⟩
  · intro u hu
    have hu' := Transactions.current_of_mem hsorted' hu
    rw [hafter] at hu'
    split at hu'
    · have hlived : Lived ⟨tvSec, .start a.buffer t⟩ t.mID none o result.events :=
        .started a.buffer t rfl rfl ht hcase
      exact hlived.wasSent (fun _ h => nomatch h) u hu'
    · exact hwas u (Transactions.current_some hu').1
  · exact (first_frame hcase).1
  · cases o with
    | none =>
      refine .inr ⟨hresult.symm, ?_⟩
      intro mID
      dsimp only
      rw [hafter]
      split
      · next heq => rw [heq, hnone]
      · rfl
    | some t' =>
      have hmID := hcase.mID t' rfl
      refine .inl ⟨hresult.symm, t', ⟨?_, ?_, ?_⟩, (first_frame hcase).2 t' rfl⟩
      · rw [hmID]
        exact hnone
      · rw [hmID]
        exact hafter
      · generalize result.events = sends at hcase
        cases hcase with
        | sent hle => exact ht.1

/-! ## What is done with one server -/

/-- What a loop does with one server. `Meant` are those that an update or a deregistration is asked
for, which may happen while an update is pending. -/
inductive Turn (Meant : Server Peer → Prop) (l : Link Peer) (s : Server Peer) (l' : Link Peer)
    (s' : Server Peer) : Prop where
  | rests : Same l l' → s'.secObjInstID = s.secObjInstID → s'.status = s.status →
      (s'.sessionH = s.sessionH ∨ s.sessionH = none) → Turn Meant l s l' s'
  | moves : Same l l' → s'.secObjInstID = s.secObjInstID →
      (s.status.handler? = none ∨ Meant s ∧ s.status = .regUpdatePending) →
      s'.status.handler? = none → (Connected s → Connected s') →
      (s'.status.isRegistered = true → s.status.isRegistered = true) → Turn Meant l s l' s'
  | asks (t : Transaction Peer Callback) (handler : Handler) : Asked l l' t →
      t.callback = some ⟨handler, s.secObjInstID⟩ → s'.secObjInstID = s.secObjInstID →
      (s.status.handler? = none ∨ Meant s ∧ s.status = .regUpdatePending) →
      s'.status.handler? = some handler → s'.sessionH = some t.peerH →
      (s'.status.isRegistered = true → s.status.isRegistered = true) → Turn Meant l s l' s'

theorem Same.refl (l : Link Peer) : Same l l := fun _ => rfl

/-- A request whose reply the server does not wait for yet. -/
theorem request_turn (Meant : Server Peer → Prop) {tvSec : Int} {malloc : Bool}
    {a : Attempt Peer} {l l' : Link Peer} {s s' : Server Peer} {t : Transaction Peer Callback}
    {message : Packet} {handler : Handler} {pending : Status} {sent : Bool}
    (h : request tvSec malloc a l s t message handler pending = some (l', s', sent))
    (hl : Listed l.context.transactionList) (ht : Unsent t) (hsession : s.sessionH = some t.peerH)
    (hpending : pending.handler? = some handler)
    (hbefore : s.status.handler? = none ∨ Meant s ∧ s.status = .regUpdatePending)
    (hother : s.status.handler? ≠ some handler)
    (hregistered : pending.isRegistered = true → s.status.isRegistered = true) :
    Listed l'.context.transactionList ∧ Turn Meant l s l' s' := by
  unfold request at h
  split at h
  · cases h
  next l'' sent' events hadd =>
  cases h
  obtain ⟨hlisted, hcalls, hcase⟩ := addAndSend_cases hl (by exact ht) hadd
  have hsame : replies tvSec malloc events s = s := by
    apply replies_other
    rintro ⟨mID, handler', packet, hmem, hhandler⟩
    cases hcalls mID _ packet hmem
    exact hother hhandler
  refine ⟨hlisted, ?_⟩
  rw [hsame]
  rcases hcase with ⟨rfl, t', hasked, hcallback, hpeer⟩ | ⟨rfl, hsame'⟩
  · refine .asks t' handler hasked hcallback rfl hbefore hpending ?_ hregistered
    rw [hpeer]
    exact hsession
  · exact .rests hsame' rfl rfl (.inl rfl)

/-- A server that was given a session before, and a link that has used a message id. -/
theorem Turn.before {Meant : Server Peer → Prop} {l l₁ l' : Link Peer} {s s₁ s' : Server Peer}
    (h : Turn Meant l₁ s₁ l' s') (hlink : l₁.context = l.context) (hid : s₁.secObjInstID = s.secObjInstID)
    (hstatus : s₁.status = s.status) (hsession : s₁.sessionH = s.sessionH ∨ s.sessionH = none)
    (hmeant : Meant s₁ → Meant s) : Turn Meant l s l' s' := by
  have hbefore : s₁.status.handler? = none ∨ Meant s₁ ∧ s₁.status = .regUpdatePending →
      s.status.handler? = none ∨ Meant s ∧ s.status = .regUpdatePending := by
    rw [hstatus]
    exact Or.imp_right (And.imp_left hmeant)
  cases h with
  | rests hsame hid' hstatus' hsession' =>
    refine .rests ?_ (hid'.trans hid) (hstatus'.trans hstatus) ?_
    · intro mID
      rw [hsame mID, hlink]
    · rcases hsession with heq | hnone
      · rw [← heq]
        exact hsession'
      · exact .inr hnone
  | moves hsame hid' hpending hidle hconnected hregistered =>
    refine .moves ?_ (hid'.trans hid) (hbefore hpending) hidle ?_
      (by rw [← hstatus]; exact hregistered)
    · intro mID
      rw [hsame mID, hlink]
    · intro hs
      apply hconnected
      unfold Connected at hs ⊢
      rw [hstatus]
      rcases hsession with heq | hnone
      · rw [heq]
        exact hs
      · rcases hs with h | h | h
        · exact .inl h
        · exact .inr (.inl h)
        · exact absurd hnone h
  | asks t handler hasked hcallback hid' hpending hhandler hpeer hregistered =>
    refine .asks t handler ?_ ?_ (hid'.trans hid) (hbefore hpending) hhandler hpeer
      (by rw [← hstatus]; exact hregistered)
    · unfold Asked at hasked ⊢
      rw [← hlink]
      exact hasked
    · rw [hcallback, hid]

theorem newTransaction_some {tvSec : Int} {a : Attempt Peer} {sessionH : Option Peer}
    {method : UInt8} {mID : UInt16} {t : Transaction Peer Callback}
    (h : newTransaction tvSec a sessionH method mID = some t) :
    Unsent t ∧ sessionH = some t.peerH := by
  unfold newTransaction at h
  split at h
  · cases sessionH with
    | none => cases h
    | some peerH =>
      cases h
      exact ⟨⟨rfl, rfl, rfl, rfl⟩, rfl⟩
  · cases h

theorem updateStatus_idle (withObjects : Bool) : (updateStatus withObjects).handler? = none := by
  cases withObjects with
  | false => rfl
  | true => rfl

section Bodies
variable {tvSec : Int} {malloc : Bool} {c : Registrant} {a : Attempt Peer} {l l' : Link Peer}
variable {s s' : Server Peer}

theorem prvRegister_turn {result : UInt8} (hl : Listed l.context.transactionList)
    (hstatus : s.status.handler? = none)
    (h : prvRegister tvSec malloc c a l s = some (l', s', result)) :
    Listed l'.context.transactionList ∧ Turn (fun _ => False) l s l' s' := by
  have hsession : (s.sessionH <|> a.connect) = s.sessionH ∨ s.sessionH = none := by
    cases s.sessionH with
    | none => exact .inr rfl
    | some peerH => exact .inl rfl
  unfold prvRegister at h
  split at h
  · cases h
    exact ⟨hl, .rests (Same.refl l) rfl rfl (.inl rfl)⟩
  split at h
  · cases h
    exact ⟨hl, .rests (Same.refl l) rfl rfl (.inl rfl)⟩
  dsimp only at h
  split at h
  · cases h
    exact ⟨hl, .rests (Same.refl l) rfl rfl hsession⟩
  split at h
  · cases h
    exact ⟨hl, .rests (Same.refl l) rfl rfl hsession⟩
  next t hnew =>
  obtain ⟨ht, hpeer⟩ := newTransaction_some hnew
  split at h
  · cases h
  next l'' s'' sent hrequest =>
  cases h
  obtain ⟨hlisted, hturn⟩ := request_turn (fun _ => False) hrequest hl ht hpeer rfl
    (.inl hstatus) (fun hsome => nomatch hstatus.symm.trans hsome)
    (fun hnever => absurd hnever Bool.false_ne_true)
  exact ⟨hlisted, hturn.before rfl rfl rfl hsession id⟩

theorem prvUpdateRegistration_turn {withObjects : Bool} (hl : Listed l.context.transactionList)
    (hstatus : s.status.handler? = none) (hregistered : s.status.isRegistered = true)
    (h : prvUpdateRegistration tvSec malloc c a withObjects l s = some (l', s')) :
    Listed l'.context.transactionList ∧ Turn (fun _ => False) l s l' s' := by
  unfold prvUpdateRegistration at h
  dsimp only at h
  split at h
  · cases h
    exact ⟨hl, .rests (Same.refl l) rfl rfl (.inl rfl)⟩
  next t hnew =>
  obtain ⟨ht, hpeer⟩ := newTransaction_some hnew
  split at h
  · cases h
  split at h
  · cases h
    exact ⟨hl, .rests (Same.refl l) rfl rfl (.inl rfl)⟩
  split at h
  · cases h
  next l'' s'' sent hrequest =>
  cases h
  obtain ⟨hlisted, hturn⟩ := request_turn (fun _ => False) hrequest hl ht hpeer rfl
    (.inl hstatus) (fun hsome => nomatch hstatus.symm.trans hsome) (fun _ => hregistered)
  exact ⟨hlisted, hturn.before rfl rfl rfl (.inl rfl) id⟩

theorem registrationDeregister_turn (hl : Listed l.context.transactionList)
    (h : registrationDeregister tvSec malloc a l s = some (l', s')) :
    Listed l'.context.transactionList ∧ Turn (fun _ => True) l s l' s' := by
  unfold registrationDeregister at h
  split at h
  · cases h
    exact ⟨hl, .rests (Same.refl l) rfl rfl (.inl rfl)⟩
  next hregistered =>
  have hpending : s.status.handler? = none ∨ True ∧ s.status = .regUpdatePending := by
    cases hstatus : s.status <;> simp_all [Status.handler?]
  have hother : s.status.handler? ≠ some .deregistrationReply := by
    cases hstatus : s.status <;> simp_all [Status.handler?]
  have hregistered : s.status.isRegistered = true := by
    cases hstatus : s.status <;> simp_all [Status.isRegistered]
  split at h
  · cases h
    exact ⟨hl, .rests (Same.refl l) rfl rfl (.inl rfl)⟩
  dsimp only at h
  split at h
  · cases h
    exact ⟨hl, .rests (Same.refl l) rfl rfl (.inl rfl)⟩
  next t hnew =>
  obtain ⟨ht, hpeer⟩ := newTransaction_some hnew
  split at h
  · cases h
  next l'' s'' sent hrequest =>
  cases h
  obtain ⟨hlisted, hturn⟩ := request_turn (fun _ => True) hrequest hl ht hpeer rfl
    hpending hother (fun _ => hregistered)
  exact ⟨hlisted, hturn.before rfl rfl rfl (.inl rfl) id⟩

theorem startBody_turn {attempts : UInt16 → Attempt Peer} {code : Option UInt8}
    (hl : Listed l.context.transactionList)
    (h : startBody tvSec malloc c attempts l s = some (l', s', code)) :
    Listed l'.context.transactionList ∧ Turn (fun _ => False) l s l' s' := by
  unfold startBody at h
  split at h
  · next hstatus =>
    split at h
    · cases h
    · next hregister =>
      cases h
      refine prvRegister_turn hl ?_ hregister
      rcases hstatus with hstatus | hstatus
      · rw [hstatus]
        rfl
      · rw [hstatus]
        rfl
  · cases h
    exact ⟨hl, .rests (Same.refl l) rfl rfl (.inl rfl)⟩

theorem deregisterBody_turn {attempts : UInt16 → Attempt Peer} {code : Option UInt8}
    (hl : Listed l.context.transactionList)
    (h : deregisterBody tvSec malloc attempts l s = some (l', s', code)) :
    Listed l'.context.transactionList ∧ Turn (fun _ => True) l s l' s' := by
  unfold deregisterBody at h
  split at h
  · cases h
  · next hderegister =>
    cases h
    exact registrationDeregister_turn hl hderegister

theorem stepBody_turn {attempts : UInt16 → Attempt Peer} {timeout timeout' : Int}
    {code : Option UInt8} (hl : Listed l.context.transactionList)
    (h : stepBody tvSec malloc c attempts (l, timeout) s = some ((l', timeout'), s', code)) :
    Listed l'.context.transactionList ∧ Turn (fun _ => False) l s l' s' := by
  have hrests : Turn (fun _ => False) l s l s := .rests (Same.refl l) rfl rfl (.inl rfl)
  unfold stepBody at h
  dsimp only at h
  split at h
  · next hstatus =>
    split at h
    · split at h
      · cases h
      · next hupdate =>
        cases h
        exact prvUpdateRegistration_turn hl (by rw [hstatus]; rfl) (by rw [hstatus]; rfl) hupdate
    · cases h
      exact ⟨hl, hrests⟩
  · next hstatus =>
    split at h
    · cases h
    · next hupdate =>
      cases h
      exact prvUpdateRegistration_turn hl (by rw [hstatus]; rfl) (by rw [hstatus]; rfl) hupdate
  · next hstatus =>
    split at h
    · cases h
    · next hupdate =>
      cases h
      exact prvUpdateRegistration_turn hl (by rw [hstatus]; rfl) (by rw [hstatus]; rfl) hupdate
  · next hstatus =>
    cases h
    have hidle : s.status.handler? = none := by
      rw [hstatus]
      rfl
    exact ⟨hl, .moves (Same.refl l) rfl (.inl hidle) hidle (fun _ => .inr (.inl hstatus)) id⟩
  · cases h
    exact ⟨hl, hrests⟩

theorem updateBody_turn {shortServerID : UInt16} {withObjects : Bool} {u u' : Unit}
    {code : Option UInt8} (l : Link Peer)
    (h : updateBody shortServerID withObjects u s = some (u', s', code)) :
    Turn (fun s => shortServerID = 0 ∨ s.shortID = shortServerID) l s l s' := by
  have hrests : Turn (fun s => shortServerID = 0 ∨ s.shortID = shortServerID) l s l s :=
    .rests (Same.refl l) rfl rfl (.inl rfl)
  have hmoves : ∀ status : Status, s.status.isRegistered = true →
      (s.status.handler? = none ∨
        (shortServerID = 0 ∨ s.shortID = shortServerID) ∧ s.status = .regUpdatePending) →
      status.handler? = none →
      Turn (fun s => shortServerID = 0 ∨ s.shortID = shortServerID) l s l
        { s with status := status } := by
    intro status hregistered hbefore hidle
    refine .moves (Same.refl l) rfl hbefore hidle ?_ (fun _ => hregistered)
    rintro (h | h | h)
    · rw [h] at hregistered
      cases hregistered
    · rw [h] at hregistered
      cases hregistered
    · exact .inr (.inr h)
  unfold updateBody at h
  split at h
  · split at h
    · next hmeant =>
      split at h
      · next hstatus =>
        cases h
        exact hmoves _ (by rw [hstatus]; rfl) (.inl (by rw [hstatus]; rfl))
          (updateStatus_idle withObjects)
      · next hstatus =>
        cases h
        exact hmoves _ (by rw [hstatus]; rfl) (.inr ⟨.inr hmeant, hstatus⟩)
          (updateStatus_idle withObjects)
      · next hstatus =>
        cases h
        split
        · exact hmoves _ (by rw [hstatus]; rfl) (.inl (by rw [hstatus]; rfl)) rfl
        · exact hrests
      · next hstatus =>
        cases h
        split
        · exact hmoves _ (by rw [hstatus]; rfl) (.inl (by rw [hstatus]; rfl)) rfl
        · exact hrests
      · cases h
        exact hrests
    · cases h
      exact hrests
  · next hall =>
    have hzero : shortServerID = 0 := not_not.mp hall
    split at h
    · next hstatus =>
      cases h
      exact hmoves _ (by rw [hstatus]; rfl) (.inl (by rw [hstatus]; rfl))
        (updateStatus_idle withObjects)
    · next hstatus =>
      cases h
      exact hmoves _ (by rw [hstatus]; rfl) (.inr ⟨.inl hzero, hstatus⟩)
        (updateStatus_idle withObjects)
    · cases h
      exact hrests

end Bodies

/-- What one server's turn keeps of the servers and what goes with them, a loop keeps. -/
theorem walk_run {Acc : Type} {body : Acc → Server Peer → Option (Acc × Server Peer × Option UInt8)}
    {P : Acc → List (Server Peer) → Prop} {all : List (Server Peer)}
    (hbody : ∀ acc acc' s s' code front rest, s ∈ all → P acc (front ++ s :: rest) →
      body acc s = some (acc', s', code) → P acc' (front ++ s' :: rest))
    {servers servers' : List (Server Peer)} {acc acc' : Acc} {code : Option UInt8}
    (hall : ∀ s ∈ servers, s ∈ all) (h : walk body acc servers = some (acc', servers', code))
    (front : List (Server Peer)) (hP : P acc (front ++ servers)) :
    P acc' (front ++ servers') := by
  induction servers generalizing acc front servers' code with
  | nil =>
    cases h
    exact hP
  | cons s rest ih =>
    rw [walk] at h
    split at h
    · cases h
    · next acc₁ s₁ stop hs =>
      cases h
      exact hbody _ _ _ _ _ _ _ (hall s List.mem_cons_self) hP hs
    · next acc₁ s₁ hs =>
      split at h
      · cases h
      next acc₂ rest₂ code₂ hrest =>
      cases h
      have hnext := hbody _ _ _ _ _ _ _ (hall s List.mem_cons_self) hP hs
      rw [List.append_cons] at hnext ⊢
      exact ih (fun u hu => hall u (List.mem_cons_of_mem _ hu)) hrest _ hnext

/-- The servers that an update or a deregistration is asked for. -/
def Action.Meant : Action Peer → Server Peer → Prop
  | .update shortServerID _, s => shortServerID = 0 ∨ s.shortID = shortServerID
  | .deregister _, _ => True
  | _, _ => False

instance (action : Action Peer) (s : Server Peer) : Decidable (action.Meant s) :=
  match action with
  | .update shortServerID _ =>
    inferInstanceAs (Decidable (shortServerID = 0 ∨ s.shortID = shortServerID))
  | .deregister _ => isTrue trivial
  | .start _ _ => isFalse id
  | .registrationStep _ _ _ => isFalse id
  | .transactionStep _ _ => isFalse id
  | .response _ _ _ => isFalse id

/-- What the turns of the servers keep, and the steps of the transactions, the client keeps. -/
theorem clientStep_keeps [DecidableEq Peer] {P : Link Peer → List (Server Peer) → Prop}
    {c c' : Client Peer} {i : Input Peer}
    (hlisted : ∀ l servers, P l servers → Listed l.context.transactionList)
    (hturn : ∀ l l' s s' front rest, s ∈ c.serverList → P l (front ++ s :: rest) →
      Listed l'.context.transactionList → Turn i.action.Meant l s l' s' →
      P l' (front ++ s' :: rest))
    (htransactions : ∀ action d, (∀ malloc t, action ≠ .start malloc t) →
      (∀ peerH message response, action = .response peerH message response →
        i.action = .response peerH message response) → transactionsStep c i action = some d → P d.link d.serverList)
    (hP : P c.link c.serverList) (h : clientStep c i = some (c', ())) :
    P c'.link c'.serverList := by
  have hall : ∀ s ∈ c.serverList, s ∈ c.serverList := fun _ hs => hs
  unfold clientStep at h
  cases haction : i.action with
  | start registrant attempts =>
    rw [haction] at h hturn
    obtain ⟨⟨l, servers, code⟩, hwalk, heq⟩ := Option.map_eq_some_iff.mp h
    cases heq
    refine walk_run (P := P) ?_ hall hwalk [] hP
    intro l l' s s' code front rest hs hl hbody
    obtain ⟨hl', ht⟩ := startBody_turn (hlisted _ _ hl) hbody
    exact hturn _ _ _ _ _ _ hs hl hl' ht
  | update shortServerID withObjects =>
    rw [haction] at h hturn
    obtain ⟨⟨servers, code⟩, hupdate, heq⟩ := Option.map_eq_some_iff.mp h
    cases heq
    unfold lwm2mUpdateRegistration at hupdate
    split at hupdate
    · cases hupdate
    split at hupdate
    · cases hupdate
    next hwalk =>
    cases hupdate
    refine walk_run (P := fun _ servers => P c.link servers) ?_ hall hwalk [] hP
    intro _ _ s s' code front rest hs hl hbody
    exact hturn _ _ _ _ _ _ hs hl (hlisted _ _ hl) (updateBody_turn c.link hbody)
  | deregister attempts =>
    rw [haction] at h hturn
    obtain ⟨⟨l, servers, code⟩, hwalk, heq⟩ := Option.map_eq_some_iff.mp h
    cases heq
    refine walk_run (P := P) ?_ hall hwalk [] hP
    intro l l' s s' code front rest hs hl hbody
    obtain ⟨hl', ht⟩ := deregisterBody_turn (hlisted _ _ hl) hbody
    exact hturn _ _ _ _ _ _ hs hl hl' ht
  | registrationStep registrant attempts timeout =>
    rw [haction] at h hturn
    obtain ⟨⟨⟨l, timeout'⟩, servers, code⟩, hwalk, heq⟩ := Option.map_eq_some_iff.mp h
    cases heq
    refine walk_run (P := fun acc servers => P acc.1 servers) ?_ hall hwalk [] hP
    rintro ⟨l, _⟩ ⟨l', _⟩ s s' code front rest hs hl hbody
    obtain ⟨hl', ht⟩ := stepBody_turn (hlisted _ _ hl) hbody
    exact hturn _ _ _ _ _ _ hs hl hl' ht
  | transactionStep malloc timeout =>
    rw [haction] at h
    obtain ⟨d, hstep, heq⟩ := Option.map_eq_some_iff.mp h
    cases heq
    refine htransactions _ _ ?_ ?_ hstep
    · intro malloc t hstart
      cases hstart
    · intro peerH message response hresponse
      cases hresponse
  | response fromSessionH message response =>
    rw [haction] at h
    obtain ⟨d, hstep, heq⟩ := Option.map_eq_some_iff.mp h
    cases heq
    refine htransactions _ _ ?_ ?_ hstep
    · intro malloc t hstart
      cases hstart
    · intro peerH message' response' hresponse
      cases hresponse
      exact haction

end Waiting

end JsEmbeddedPlatform.Registration
