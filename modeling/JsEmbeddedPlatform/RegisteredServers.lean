import JsEmbeddedPlatform.PendingServers

/-!
# A registered server has confirmed it

No server counts as registered without a reply of its own to a registration that was sent to it.
-/

set_option autoImplicit false

namespace JsEmbeddedPlatform.Registration

open Coap (Packet)
open Transactions (current Listed AckOf TokenOf WithToken context_step listed_step)
open Runs (run run_append run_history)

section Confirmation
variable {Peer : Type} [DecidableEq Peer]

/-- A registration of the server was among the transactions when a 2.01 came from its peer, with
its message id or its token. -/
def Confirmed (start : Client Peer) (past : List (Input Peer)) (id : UInt16) : Prop :=
  ∃ before i later c outs t message response, past = before ++ i :: later ∧
    run clientStep start before = some (c, outs) ∧ t ∈ c.link.context.transactionList ∧
    t.callback = some ⟨.registrationReply, id⟩ ∧
    i.action = .response t.peerH message response ∧ message.code = created201 ∧
    (AckOf t message ∨ TokenOf t message)

variable {start c c' : Client Peer} {past : List (Input Peer)} {outs : List Unit} {i : Input Peer}

theorem Confirmed.mono {id : UInt16} (h : Confirmed start past id) (i : Input Peer) :
    Confirmed start (past ++ [i]) id := by
  obtain ⟨before, j, later, c, outs, t, message, response, rfl, hrest⟩ := h
  refine ⟨before, j, later ++ [i], c, outs, t, message, response, ?_, hrest⟩
  rw [List.append_assoc, List.cons_append]

structure RegistrationsConfirmed (start : Client Peer) (past : List (Input Peer)) (l : Link Peer)
    (servers : List (Server Peer)) : Prop where
  listed : Listed l.context.transactionList
  tokens : ∀ mID t, current l.context.transactionList mID = some t → t.ackReceived = true →
    WithToken t
  confirmed : ∀ s ∈ servers, s.status.isRegistered = true →
    Confirmed start past s.secObjInstID

omit [DecidableEq Peer] in
theorem Turn.registered {Meant : Server Peer → Prop} {l l' : Link Peer} {s s' : Server Peer}
    (h : Turn Meant l s l' s') :
    s'.secObjInstID = s.secObjInstID ∧
      (s'.status.isRegistered = true → s.status.isRegistered = true) := by
  cases h with
  | rests hsame hid hstatus hsession =>
    rw [hstatus]
    exact ⟨hid, id⟩
  | moves hsame hid hbefore hidle hconnected hregistered => exact ⟨hid, hregistered⟩
  | asks t handler hasked hcallback hid hbefore hpending hpeer hregistered =>
    exact ⟨hid, hregistered⟩

omit [DecidableEq Peer] in
theorem Turn.tokens {Meant : Server Peer → Prop} {l l' : Link Peer} {s s' : Server Peer}
    (h : Turn Meant l s l' s')
    (htokens : ∀ mID t, current l.context.transactionList mID = some t → t.ackReceived = true →
      WithToken t) :
    ∀ mID t, current l'.context.transactionList mID = some t → t.ackReceived = true →
      WithToken t := by
  intro mID t ht
  cases h with
  | rests hsame hid hstatus hsession => exact htokens mID t ((hsame mID).symm.trans ht)
  | moves hsame hid hbefore hidle hconnected hregistered =>
    exact htokens mID t ((hsame mID).symm.trans ht)
  | asks u handler hasked =>
    rw [hasked.2.1 mID] at ht
    split at ht
    · cases ht
      intro hreceived
      cases hasked.2.2.symm.trans hreceived
    · exact htokens mID t ht

theorem Turn.confirmed {Meant : Server Peer → Prop} {l l' : Link Peer} {s s' : Server Peer}
    {front rest : List (Server Peer)} (h : Turn Meant l s l' s')
    (hl' : Listed l'.context.transactionList)
    (hR : RegistrationsConfirmed start past l (front ++ s :: rest)) :
    RegistrationsConfirmed start past l' (front ++ s' :: rest) := by
  refine ⟨hl', h.tokens hR.tokens, ?_⟩
  intro u hu hregistered
  rcases mem_around s hu with rfl | hu'
  · obtain ⟨hid, hbefore⟩ := h.registered
    rw [hid]
    exact hR.confirmed s (List.mem_append_right _ List.mem_cons_self) (hbefore hregistered)
  · exact hR.confirmed u hu' hregistered

theorem transactionsStep_confirmed {action : Transactions.Action Peer Callback}
    (haction : ∀ malloc t, action ≠ .start malloc t)
    (hresponse : ∀ peerH message response, action = .response peerH message response →
      i.action = .response peerH message response)
    (hrun : run clientStep start past = some (c, outs))
    (hR : RegistrationsConfirmed start (past ++ [i]) c.link c.serverList)
    (h : transactionsStep c i action = some c') :
    RegistrationsConfirmed start (past ++ [i]) c'.link c'.serverList := by
  unfold transactionsStep at h
  split at h
  · cases h
  next context events hstep =>
  cases h
  obtain ⟨_, _, _, hlived⟩ := context_step hR.listed hstep
  refine ⟨listed_step hR.listed hstep, ?_, ?_⟩
  · intro mID
    exact lived_acknowledged haction (hlived mID) (hR.tokens mID)
  intro s' hs' hregistered
  obtain ⟨s, hs, rfl⟩ := List.mem_map.mp hs'
  rw [(replies_frame i.time i.malloc events s).1]
  rcases replies_registered hregistered with hbefore | ⟨mID, packet, hmem, hcode⟩
  · exact hR.confirmed s hs hbefore
  · obtain ⟨t, response, ht, hcallback, hpacket, hmatch⟩ :=
      lived_packet haction (hlived mID) (mem_eventsOf hmem)
    refine ⟨past, i, [], c, outs, t, packet, response, rfl, hrun,
      (Transactions.current_some ht).1, hcallback, hresponse _ _ _ hpacket, hcode, ?_⟩
    rcases hmatch with hack | htoken | ⟨hreceived, hwithout⟩
    · exact Or.inl hack
    · exact Or.inr htoken
    · exact absurd (hR.tokens mID t ht hreceived) hwithout

theorem clientStep_confirmed (hrun : run clientStep start past = some (c, outs))
    (hR : RegistrationsConfirmed start past c.link c.serverList)
    (h : clientStep c i = some (c', ())) :
    RegistrationsConfirmed start (past ++ [i]) c'.link c'.serverList := by
  have hR' : RegistrationsConfirmed start (past ++ [i]) c.link c.serverList :=
    ⟨hR.listed, hR.tokens, fun s hs hregistered => (hR.confirmed s hs hregistered).mono i⟩
  refine clientStep_keeps (P := RegistrationsConfirmed start (past ++ [i]))
    (fun _ _ hR => hR.listed) ?_ ?_ hR' h
  · intro l l' s s' front rest _ hR hl' hturn
    exact hturn.confirmed hl' hR
  · intro action d haction hresponse hstep
    exact transactionsStep_confirmed haction hresponse hrun hR' hstep

/-- In every run, a server counts as registered (also while an update or a deregistration of it is
asked for or pending) only after a 2.01 that answered a registration of it. -/
theorem registered_servers_confirmed {now : Int} {nextMID : UInt16}
    {servers : List (Server Peer)} (hservers : ∀ s ∈ servers, s.status = .deregistered)
    {inputs : List (Input Peer)}
    (h : run clientStep (Client.initial now nextMID servers) inputs = some (c, outs)) :
    ∀ s ∈ c.serverList, s.status.isRegistered = true →
      Confirmed (Client.initial now nextMID servers) inputs s.secObjInstID := by
  have hall : run clientStep (Client.initial now nextMID servers) inputs = some (c, outs) ∧
      RegistrationsConfirmed (Client.initial now nextMID servers) inputs c.link c.serverList := by
    refine run_history (P := fun past seen c =>
      run clientStep (Client.initial now nextMID servers) past = some (c, seen) ∧
        RegistrationsConfirmed (Client.initial now nextMID servers) past c.link c.serverList)
      ?_ ⟨rfl, ⟨.nil, fun _ ht => nomatch ht⟩, ?_, ?_⟩ h
    · rintro past seen c i ⟨⟩ c' ⟨hrun, hR⟩ hstep
      refine ⟨run_append hrun ?_, clientStep_confirmed hrun hR hstep⟩
      rw [run, hstep]
      rfl
    · intro mID t ht
      cases ht
    · intro s hs hregistered
      rw [hservers s hs] at hregistered
      cases hregistered
  exact hall.2.confirmed

theorem registered_servers_confirmed_update : ∃ c outs,
    run clientStep (Client.initial 0 1 [sensorServer]) updateSentAgain = some (c, outs) ∧
      c.serverList.map (fun s => (s.secObjInstID, s.status)) = [(0, .regUpdatePending)] ∧
      ∀ s ∈ c.serverList, s.status.isRegistered = true →
        Confirmed (Client.initial 0 1 [sensorServer]) updateSentAgain s.secObjInstID := by
  obtain ⟨c, outs, hrun, htest⟩ : ∃ c outs,
      run clientStep (Client.initial 0 1 [sensorServer]) updateSentAgain = some (c, outs) ∧
        decide (c.serverList.map (fun s => (s.secObjInstID, s.status)) =
          [(0, .regUpdatePending)]) = true :=
    Runs.run_evaluated (by decide)
  exact ⟨c, outs, hrun, of_decide_eq_true htest,
    registered_servers_confirmed (by decide) hrun⟩

end Confirmation

end JsEmbeddedPlatform.Registration
