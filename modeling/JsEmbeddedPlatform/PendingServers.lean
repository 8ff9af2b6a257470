import JsEmbeddedPlatform.ServerTurns

/-!
# What a pending server waits for

A server whose state is pending has a request among the transactions whose reply ends that state,
and a session. Where no update and no deregistration is asked for while an update is pending,
every transaction is the one request of its server, over the session that the server has.
-/

set_option autoImplicit false

namespace JsEmbeddedPlatform.Registration

open CString (ascii)
open Coap (Packet)
open Transactions (Transaction current Listed contextStep context_step listed_step)
open Runs (run run_history)

section Waiting
variable {Peer : Type}

/-! ## Every pending server is answered -/

def Awaited (l : Link Peer) (s : Server Peer) : Prop :=
  ∀ handler, s.status.handler? = some handler →
    ∃ mID t, current l.context.transactionList mID = some t ∧
      t.callback = some ⟨handler, s.secObjInstID⟩

structure Answerable (l : Link Peer) (servers : List (Server Peer)) : Prop where
  listed : Listed l.context.transactionList
  awaited : ∀ s ∈ servers, Awaited l s
  connected : ∀ s ∈ servers, Connected s

theorem Turn.persists {Meant : Server Peer → Prop} {l l' : Link Peer} {s s' : Server Peer}
    (h : Turn Meant l s l' s') {mID : UInt16} {t : Transaction Peer Callback}
    (ht : current l.context.transactionList mID = some t) :
    current l'.context.transactionList mID = some t := by
  cases h with
  | rests hsame => exact (hsame mID).trans ht
  | moves hsame => exact (hsame mID).trans ht
  | asks u handler hasked =>
    rw [hasked.2.1 mID, if_neg, ht]
    rintro rfl
    rw [hasked.1] at ht
    cases ht

theorem Turn.awaited {Meant : Server Peer → Prop} {l l' : Link Peer} {s s' : Server Peer}
    (h : Turn Meant l s l' s') (hs : Awaited l s) : Awaited l' s' := by
  intro handler hhandler
  cases h with
  | rests hsame hid hstatus hsession =>
    rw [hstatus] at hhandler
    obtain ⟨mID, t, ht, hcallback⟩ := hs handler hhandler
    exact ⟨mID, t, (hsame mID).trans ht, by rw [hid]; exact hcallback⟩
  | moves hsame hid hbefore hidle hconnected =>
    rw [hidle] at hhandler
    cases hhandler
  | asks t own hasked hcallback hid hbefore hpending hpeer =>
    cases hpending.symm.trans hhandler
    refine ⟨t.mID, t, ?_, by rw [hid]; exact hcallback⟩
    rw [hasked.2.1 t.mID, if_pos rfl]

theorem Turn.connected {Meant : Server Peer → Prop} {l l' : Link Peer} {s s' : Server Peer}
    (h : Turn Meant l s l' s') (hs : Connected s) : Connected s' := by
  cases h with
  | rests hsame hid hstatus hsession =>
    unfold Connected at hs ⊢
    rw [hstatus]
    rcases hsession with heq | hnone
    · rw [heq]
      exact hs
    · rcases hs with h | h | h
      · exact .inl h
      · exact .inr (.inl h)
      · exact absurd hnone h
  | moves hsame hid hbefore hidle hconnected => exact hconnected hs
  | asks t own hasked hcallback hid hbefore hpending hpeer =>
    refine .inr (.inr ?_)
    rw [hpeer]
    exact Option.some_ne_none _

theorem mem_around (s' : Server Peer) {front rest : List (Server Peer)} {s u : Server Peer}
    (hu : u ∈ front ++ s :: rest) : u = s ∨ u ∈ front ++ s' :: rest := by
  rcases List.mem_append.mp hu with hu | hu
  · exact .inr (List.mem_append_left _ hu)
  · rcases List.mem_cons.mp hu with hu | hu
    · exact .inl hu
    · exact .inr (List.mem_append_right _ (List.mem_cons_of_mem _ hu))

theorem Turn.answerable {Meant : Server Peer → Prop} {l l' : Link Peer} {s s' : Server Peer}
    {front rest : List (Server Peer)} (h : Turn Meant l s l' s')
    (hl' : Listed l'.context.transactionList) (hA : Answerable l (front ++ s :: rest)) :
    Answerable l' (front ++ s' :: rest) := by
  have hself : s ∈ front ++ s :: rest := List.mem_append_right _ List.mem_cons_self
  refine ⟨hl', ?_, ?_⟩
  · intro u hu
    rcases mem_around s hu with rfl | hu
    · exact h.awaited (hA.awaited s hself)
    · intro handler hhandler
      obtain ⟨mID, t, ht, hcallback⟩ := hA.awaited u hu handler hhandler
      exact ⟨mID, t, h.persists ht, hcallback⟩
  · intro u hu
    rcases mem_around s hu with rfl | hu
    · exact h.connected (hA.connected s hself)
    · exact hA.connected u hu

section Steps
variable [DecidableEq Peer] {c c' : Client Peer} {i : Input Peer}

theorem transactionsStep_answerable {action : Transactions.Action Peer Callback}
    (haction : ∀ malloc t, action ≠ .start malloc t) (hA : Answerable c.link c.serverList)
    (h : transactionsStep c i action = some c') : Answerable c'.link c'.serverList := by
  unfold transactionsStep at h
  split at h
  · cases h
  next context events hstep =>
  cases h
  obtain ⟨_, _, _, hlived⟩ := context_step hA.listed hstep
  refine ⟨listed_step hA.listed hstep, ?_, ?_⟩
  · intro s' hs'
    obtain ⟨s, hs, rfl⟩ := List.mem_map.mp hs'
    intro handler hhandler
    by_cases hreplied : Replied s events
    · rw [replies_ends i.time i.malloc hreplied] at hhandler
      cases hhandler
    · rw [replies_other i.time i.malloc hreplied] at hhandler ⊢
      obtain ⟨mID, t, ht, hcallback⟩ := hA.awaited s hs handler hhandler
      have hfate := (lived_fate haction (hlived mID)).1 t ht (Transactions.current_some ht).2
      dsimp only
      cases hafter : current context.transactionList mID with
      | none =>
        rw [hafter] at hfate
        cases hfate with
        | ends _ hcalls honly =>
          obtain ⟨packet, hmem⟩ := hcalls _ hcallback
          exact absurd ⟨_, handler, packet, of_mem_eventsOf hmem, hhandler⟩ hreplied
      | some t' =>
        rw [hafter] at hfate
        cases hfate with
        | stays _ _ hcallback' hpeer hno =>
          exact ⟨mID, t', hafter, hcallback'.trans hcallback⟩
  · intro s' hs'
    obtain ⟨s, hs, rfl⟩ := List.mem_map.mp hs'
    by_cases hreplied : Replied s events
    · have hconnected := hA.connected s hs
      obtain ⟨_, handler, _, _, hhandler⟩ := hreplied
      rcases hconnected with h | h | h
      · rw [h] at hhandler
        cases hhandler
      · rw [h] at hhandler
        cases hhandler
      · refine .inr (.inr ?_)
        rw [(replies_frame i.time i.malloc events s).2]
        exact h
    · rw [replies_other i.time i.malloc hreplied]
      exact hA.connected s hs

theorem clientStep_answerable (hA : Answerable c.link c.serverList)
    (h : clientStep c i = some (c', ())) : Answerable c'.link c'.serverList := by
  refine clientStep_keeps (fun _ _ hA => hA.listed) ?_ ?_ hA h
  · intro l l' s s' front rest _ hA hl' hturn
    exact hturn.answerable hl' hA
  · intro action d haction _ hstep
    exact transactionsStep_answerable haction hA hstep

/-- A client with its servers, before anything was sent. -/
def Client.initial (now : Int) (nextMID : UInt16) (servers : List (Server Peer)) : Client Peer :=
  ⟨⟨⟨now, []⟩, nextMID⟩, servers⟩

omit [DecidableEq Peer] in
theorem initial_answerable (now : Int) (nextMID : UInt16) {servers : List (Server Peer)}
    (hservers : ∀ s ∈ servers, s.status = .deregistered) :
    Answerable (Client.initial now nextMID servers).link servers := by
  refine ⟨⟨.nil, fun _ ht => nomatch ht⟩, ?_, ?_⟩
  · intro s hs handler hhandler
    rw [hservers s hs] at hhandler
    cases hhandler
  · intro s hs
    exact .inl (hservers s hs)

theorem answerable_run {now : Int} {nextMID : UInt16} {servers : List (Server Peer)}
    (hservers : ∀ s ∈ servers, s.status = .deregistered) {inputs : List (Input Peer)}
    {outs : List Unit} (h : run clientStep (Client.initial now nextMID servers) inputs =
      some (c, outs)) : Answerable c.link c.serverList := by
  refine run_history (P := fun _ _ c => Answerable c.link c.serverList) ?_ ?_ h
  · intro past seen c i out c' hA hstep
    exact clientStep_answerable hA hstep
  · exact initial_answerable now nextMID hservers

/-- No server waits in vain: in every run, a server whose registration, update or deregistration
is pending has a request among the transactions whose reply ends that state, and a server that is
neither deregistered nor given up has a session. -/
theorem pending_servers_answered {now : Int} {nextMID : UInt16} {servers : List (Server Peer)}
    (hservers : ∀ s ∈ servers, s.status = .deregistered) {inputs : List (Input Peer)}
    {outs : List Unit} (h : run clientStep (Client.initial now nextMID servers) inputs =
      some (c, outs)) :
    ∀ s ∈ c.serverList,
      (∀ handler, s.status.handler? = some handler →
        ∃ t ∈ c.link.context.transactionList, t.callback = some ⟨handler, s.secObjInstID⟩) ∧
      (s.status = .deregistered ∨ s.status = .regFailed ∨ s.sessionH ≠ none) := by
  have hA := answerable_run hservers h
  intro s hs
  refine ⟨?_, hA.connected s hs⟩
  intro handler hhandler
  obtain ⟨mID, t, ht, hcallback⟩ := hA.awaited s hs handler hhandler
  exact ⟨t, (Transactions.current_some ht).1, hcallback⟩

end Steps

def sensorNode : Registrant := ⟨ascii "node", none, none, [⟨3, [0]⟩]⟩

def sensorServer : Server Nat := ⟨0, 1, 300, 0, .u, none, .deregistered, none⟩

def everything : UInt16 → Attempt Nat := fun _ => ⟨true, true, some 7, true, true, (0, 0)⟩

def created : Packet :=
  Coap.coapSetHeaderLocationPath
    (Coap.coapSetHeaderToken (Coap.coapInitMessage .ack created201 1) [1, 0, 100, 0])
    (ascii "/rd/5")

/-- A registration that is answered, an update when it is due, which is sent once more. -/
def updateSentAgain : List (Input Nat) :=
  [⟨100, true, .start sensorNode everything⟩, ⟨101, true, .response 7 created false⟩,
    ⟨200, true, .registrationStep sensorNode everything 60⟩,
    ⟨308, true, .registrationStep sensorNode everything 60⟩, ⟨310, true, .transactionStep true 60⟩]

theorem pending_servers_answered_update : ∃ c outs,
    run clientStep (Client.initial 0 1 [sensorServer]) updateSentAgain = some (c, outs) ∧
      c.serverList.map Server.status = [.regUpdatePending] ∧
      ∀ s ∈ c.serverList,
        (∀ handler, s.status.handler? = some handler →
          ∃ t ∈ c.link.context.transactionList, t.callback = some ⟨handler, s.secObjInstID⟩) ∧
        (s.status = .deregistered ∨ s.status = .regFailed ∨ s.sessionH ≠ none) := by
  obtain ⟨c, outs, hrun, htest⟩ : ∃ c outs,
      run clientStep (Client.initial 0 1 [sensorServer]) updateSentAgain = some (c, outs) ∧
        decide (c.serverList.map Server.status = [.regUpdatePending]) = true :=
    Runs.run_evaluated (by decide)
  exact ⟨c, outs, hrun, of_decide_eq_true htest,
    pending_servers_answered (by decide) hrun⟩

/-! ## Nobody answers -/

/-- Every transaction is due when the client steps. -/
def Due (c : Client Peer) (i : Input Peer) : Prop :=
  c.link.context.now ≤ i.time ∧
    ∀ t ∈ c.link.context.transactionList, t.retransTime ≤ i.time

instance (c : Client Peer) (i : Input Peer) : Decidable (Due c i) :=
  inferInstanceAs (Decidable (c.link.context.now ≤ i.time ∧
    ∀ t ∈ c.link.context.transactionList, t.retransTime ≤ i.time))

section Silence
variable [DecidableEq Peer] {c : Client Peer} {i : Input Peer} {n : Nat}

theorem silent_step (hA : Answerable c.link c.serverList)
    (hsilent : ∃ malloc timeout, i.action = .transactionStep malloc timeout) (hdue : Due c i)
    (hcount : ∀ t ∈ c.link.context.transactionList, n < t.retransCounter) :
    ∃ c', clientStep c i = some (c', ()) ∧ Answerable c'.link c'.serverList ∧
      ∀ t ∈ c'.link.context.transactionList, n + 1 < t.retransCounter ∧ t.retransCounter ≤ 6 := by
  obtain ⟨malloc, timeout, haction⟩ := hsilent
  obtain ⟨hclock, hdue⟩ := hdue
  obtain ⟨list', timeout', events, hstep, hlist', hdone, _, _, habsent⟩ :=
    Transactions.transactionStep_cases malloc i.time i.time timeout hA.listed
  have hcontext : contextStep c.link.context ⟨i.time, .step malloc timeout⟩ =
      some (⟨i.time, list'⟩, events) := by
    unfold contextStep
    rw [if_neg (by dsimp only; omega)]
    dsimp only
    rw [hstep]
  have hclient : clientStep c i = some
      (⟨{ c.link with context := ⟨i.time, list'⟩ },
        c.serverList.map (replies i.time i.malloc events)⟩, ()) := by
    unfold clientStep transactionsStep
    rw [haction]
    dsimp only
    rw [hcontext]
    rfl
  refine ⟨_, hclient, clientStep_answerable hA hclient, ?_⟩
  intro u hu
  have hu' := Transactions.current_of_mem hlist'.1 hu
  cases hbefore : current c.link.context.transactionList u.mID with
  | none =>
    rw [(habsent u.mID hbefore).1] at hu'
    cases hu'
  | some t =>
    obtain ⟨ht, hmID⟩ := Transactions.current_some hbefore
    have hstepped := (hdone t ht).1
    rw [hmID, hu'] at hstepped
    have hn := hcount t ht
    have htime := hdue t ht
    generalize Transactions.eventsOf u.mID events = own at hstepped
    cases hstepped with
    | early hearly => omega
    | due _ hagain =>
      cases hagain with
      | resend hack hcounter =>
        unfold Transactions.coapMaxRetransmit at hcounter
        exact ⟨Nat.succ_lt_succ hn, Nat.succ_le_succ hcounter⟩

theorem silent_run {later : List (Input Peer)} (hA : Answerable c.link c.serverList)
    (hsilent : ∀ i ∈ later, ∃ malloc timeout, i.action = .transactionStep malloc timeout)
    (hdue : Runs.Along Due clientStep c later)
    (hcount : ∀ t ∈ c.link.context.transactionList, n < t.retransCounter) :
    ∃ d outs, run clientStep c later = some (d, outs) ∧ Answerable d.link d.serverList ∧
      (∀ t ∈ d.link.context.transactionList, n + later.length < t.retransCounter) ∧
      (later ≠ [] → ∀ t ∈ d.link.context.transactionList, t.retransCounter ≤ 6) := by
  induction later generalizing c n with
  | nil => exact ⟨c, [], rfl, hA, hcount, fun hne => absurd rfl hne⟩
  | cons i later ih =>
    obtain ⟨hnow, hlater⟩ := hdue
    obtain ⟨c', hstep, hA', hcount'⟩ :=
      silent_step hA (hsilent i List.mem_cons_self) hnow hcount
    obtain ⟨d, outs, hrun, hAd, hmore, hbound⟩ :=
      ih hA' (fun j hj => hsilent j (List.mem_cons_of_mem _ hj)) (hlater c' () hstep)
        (fun t ht => (hcount' t ht).1)
    refine ⟨d, () :: outs, Runs.run_cons_iff.mpr ⟨c', (), outs, hstep, hrun, rfl⟩, hAd, ?_, ?_⟩
    · intro t ht
      have h := hmore t ht
      rw [List.length_cons]
      omega
    · intro _
      by_cases hne : later = []
      · subst hne
        cases hrun
        exact fun t ht => (hcount' t ht).2
      · exact hbound hne

/-- A client that hears nothing gives up: from every state that a run reaches, after six steps of
the transactions, each when all are due, none is left, and no server is pending. -/
theorem silence_ends_pending {now : Int} {nextMID : UInt16} {servers : List (Server Peer)}
    (hservers : ∀ s ∈ servers, s.status = .deregistered) {inputs : List (Input Peer)}
    {outs : List Unit} (h : run clientStep (Client.initial now nextMID servers) inputs =
      some (c, outs)) {later : List (Input Peer)} (hlater : 6 ≤ later.length)
    (hsilent : ∀ i ∈ later, ∃ malloc timeout, i.action = .transactionStep malloc timeout)
    (hdue : Runs.Along Due clientStep c later) :
    ∃ d more, run clientStep c later = some (d, more) ∧
      d.link.context.transactionList = [] ∧ ∀ s ∈ d.serverList, s.status.handler? = none := by
  have hA := answerable_run hservers h
  obtain ⟨d, more, hrun, hAd, hcount, hbound⟩ := silent_run hA hsilent hdue
    (fun t ht => (hA.listed.2 t ht).1)
  have hne : later ≠ [] := by
    rintro rfl
    rw [List.length_nil] at hlater
    omega
  have hempty : d.link.context.transactionList = [] := by
    refine List.eq_nil_iff_forall_not_mem.mpr ?_
    intro t ht
    have hlow := hcount t ht
    have hhigh := hbound hne t ht
    omega
  refine ⟨d, more, hrun, hempty, ?_⟩
  intro s hs
  cases hhandler : s.status.handler? with
  | none => rfl
  | some handler =>
    obtain ⟨mID, t, ht, _⟩ := hAd.awaited s hs handler hhandler
    rw [hempty] at ht
    cases ht

end Silence

def silentSteps : List (Input Nat) :=
  [400, 500, 600, 700, 800, 900].map fun time => ⟨time, true, .transactionStep true 60⟩

theorem silence_ends_pending_update : ∃ c outs d more,
    run clientStep (Client.initial 0 1 [sensorServer]) updateSentAgain = some (c, outs) ∧
      c.serverList.map Server.status = [.regUpdatePending] ∧
      run clientStep c silentSteps = some (d, more) ∧
      d.link.context.transactionList = [] ∧ ∀ s ∈ d.serverList, s.status.handler? = none := by
  obtain ⟨c, outs, hrun, htest⟩ : ∃ c outs,
      run clientStep (Client.initial 0 1 [sensorServer]) updateSentAgain = some (c, outs) ∧
        decide (c.serverList.map Server.status = [.regUpdatePending] ∧
          Runs.Along Due clientStep c silentSteps) = true :=
    Runs.run_evaluated (by decide)
  obtain ⟨hpending, hdue⟩ := of_decide_eq_true htest
  have hsilent : ∀ i ∈ silentSteps, ∃ malloc timeout, i.action = .transactionStep malloc timeout := by
    intro i hi
    obtain ⟨time, _, rfl⟩ := List.mem_map.mp hi
    exact ⟨true, 60, rfl⟩
  obtain ⟨d, more, hlast, hempty, hidle⟩ :=
    silence_ends_pending (by decide) hrun (by decide) hsilent hdue
  exact ⟨c, outs, d, more, hrun, hpending, hlast, hempty, hidle⟩

/-! ## Every transaction is its server's own -/

/-- The servers have ids of their own; a transaction is the one request of a server that waits for
its reply, over the session of that server. -/
structure Owned (l : Link Peer) (servers : List (Server Peer)) : Prop where
  listed : Listed l.context.transactionList
  once : (servers.map Server.secObjInstID).Nodup
  owner : ∀ mID t, current l.context.transactionList mID = some t →
    ∃ s ∈ servers, ∃ handler, t.callback = some ⟨handler, s.secObjInstID⟩ ∧
      s.status.handler? = some handler ∧ s.sessionH = some t.peerH
  single : ∀ mID t mID' t' handler handler' id,
    current l.context.transactionList mID = some t →
    current l.context.transactionList mID' = some t' → t.callback = some ⟨handler, id⟩ →
    t'.callback = some ⟨handler', id⟩ → mID = mID'

theorem Turn.owned {Meant : Server Peer → Prop} {l l' : Link Peer} {s s' : Server Peer}
    {front rest : List (Server Peer)} (h : Turn Meant l s l' s')
    (horderly : Meant s → s.status ≠ .regUpdatePending)
    (hl' : Listed l'.context.transactionList) (hO : Owned l (front ++ s :: rest)) :
    Owned l' (front ++ s' :: rest) := by
  have hself : s ∈ front ++ s :: rest := List.mem_append_right _ List.mem_cons_self
  have hself' : s' ∈ front ++ s' :: rest := List.mem_append_right _ List.mem_cons_self
  have honce : ∀ s' : Server Peer, s'.secObjInstID = s.secObjInstID →
      ((front ++ s' :: rest).map Server.secObjInstID).Nodup := by
    intro s' hid
    have h := hO.once
    rw [List.map_append, List.map_cons] at h ⊢
    rw [hid]
    exact h
  have hidle : s.status.handler? = none ∨ Meant s ∧ s.status = .regUpdatePending →
      s.status.handler? = none := by
    rintro (hnone | ⟨hmeant, hpending⟩)
    · exact hnone
    · exact absurd hpending (horderly hmeant)
  cases h with
  | rests hsame hid hstatus hsession =>
    refine ⟨hl', honce s' hid, ?_, ?_⟩
    · intro mID t ht
      rw [hsame mID] at ht
      obtain ⟨u, hu, handler, hcallback, hhandler, hpeer⟩ := hO.owner mID t ht
      rcases mem_around s' hu with rfl | hu'
      · refine ⟨s', hself', handler, by rw [hid]; exact hcallback, by rw [hstatus]; exact hhandler,
          ?_⟩
        rcases hsession with heq | hnone
        · rw [heq]
          exact hpeer
        · rw [hnone] at hpeer
          cases hpeer
      · exact ⟨u, hu', handler, hcallback, hhandler, hpeer⟩
    · intro mID t mID' t' handler handler' id ht ht'
      rw [hsame] at ht ht'
      exact hO.single mID t mID' t' handler handler' id ht ht'
  | moves hsame hid hbefore hpending hconnected =>
    refine ⟨hl', honce s' hid, ?_, ?_⟩
    · intro mID t ht
      rw [hsame mID] at ht
      obtain ⟨u, hu, handler, hcallback, hhandler, hpeer⟩ := hO.owner mID t ht
      rcases mem_around s' hu with rfl | hu'
      · rw [hidle hbefore] at hhandler
        cases hhandler
      · exact ⟨u, hu', handler, hcallback, hhandler, hpeer⟩
    · intro mID t mID' t' handler handler' id ht ht'
      rw [hsame] at ht ht'
      exact hO.single mID t mID' t' handler handler' id ht ht'
  | asks own handler hasked hcallback hid hbefore hpending hpeer =>
    have hnone : ∀ mID t handler, current l.context.transactionList mID = some t →
        t.callback ≠ some ⟨handler, s.secObjInstID⟩ := by
      intro mID t handler ht hcall
      obtain ⟨u, hu, handler', hcall', hhandler, _⟩ := hO.owner mID t ht
      rw [hcall] at hcall'
      cases (Callback.mk.inj (Option.some.inj hcall')).1
      have hus := List.inj_on_of_nodup_map hO.once hu hself
        (Callback.mk.inj (Option.some.inj hcall')).2.symm
      rw [hus, hidle hbefore] at hhandler
      cases hhandler
    refine ⟨hl', honce s' hid, ?_, ?_⟩
    · intro mID t ht
      rw [hasked.2.1 mID] at ht
      split at ht
      · cases ht
        exact ⟨s', hself', handler, by rw [hid]; exact hcallback, hpending, hpeer⟩
      · obtain ⟨u, hu, handler', hcall', hhandler, hpeer'⟩ := hO.owner mID t ht
        rcases mem_around s' hu with rfl | hu'
        · exact absurd hcall' (hnone mID t handler' ht)
        · exact ⟨u, hu', handler', hcall', hhandler, hpeer'⟩
    · intro mID t mID' t' handler₁ handler₂ id ht ht' hcall hcall'
      rw [hasked.2.1] at ht ht'
      split at ht
      · next heq =>
        split at ht'
        · next heq' => rw [heq, heq']
        · cases ht
          rw [hcallback] at hcall
          cases hcall
          exact absurd hcall' (hnone _ _ _ ht')
      · split at ht'
        · cases ht'
          rw [hcallback] at hcall'
          cases hcall'
          exact absurd hcall (hnone _ _ _ ht)
        · exact hO.single mID t mID' t' handler₁ handler₂ id ht ht' hcall hcall'

section OwnSteps
variable [DecidableEq Peer] {c c' : Client Peer} {i : Input Peer}

theorem transactionsStep_owned {action : Transactions.Action Peer Callback}
    (haction : ∀ malloc t, action ≠ .start malloc t) (hO : Owned c.link c.serverList)
    (h : transactionsStep c i action = some c') : Owned c'.link c'.serverList := by
  unfold transactionsStep at h
  split at h
  · cases h
  next context events hstep =>
  cases h
  obtain ⟨_, _, _, hlived⟩ := context_step hO.listed hstep
  -- a transaction that is there was there before, and none of its calls is among the events
  have hstayed : ∀ mID t', current context.transactionList mID = some t' →
      ∃ t, current c.link.context.transactionList mID = some t ∧ t'.callback = t.callback ∧
        t'.peerH = t.peerH := by
    intro mID t' ht'
    have hfate := lived_fate haction (hlived mID)
    cases hbefore : current c.link.context.transactionList mID with
    | none =>
      rw [(hfate.2 hbefore).1] at ht'
      cases ht'
    | some t =>
      have hfate' := hfate.1 t hbefore (Transactions.current_some hbefore).2
      rw [ht'] at hfate'
      cases hfate' with
      | stays _ _ hcallback hpeer hno => exact ⟨t, rfl, hcallback, hpeer⟩
  have hcalled : ∀ mID callback packet, .callback mID callback packet ∈ events →
      ∃ t, current c.link.context.transactionList mID = some t ∧ t.callback = some callback ∧
        current context.transactionList mID = none := by
    intro mID callback packet hmem
    have hfate := lived_fate haction (hlived mID)
    have hmem' := mem_eventsOf hmem
    cases hbefore : current c.link.context.transactionList mID with
    | none =>
      rw [(hfate.2 hbefore).2] at hmem'
      cases hmem'
    | some t =>
      have hfate' := hfate.1 t hbefore (Transactions.current_some hbefore).2
      cases hafter : current context.transactionList mID with
      | none =>
        rw [hafter] at hfate'
        cases hfate' with
        | ends _ hcalls honly => exact ⟨t, rfl, honly _ _ _ hmem', rfl⟩
      | some t' =>
        rw [hafter] at hfate'
        cases hfate' with
        | stays _ _ hcallback hpeer hno => exact absurd hmem' (hno _ _ _)
  refine ⟨listed_step hO.listed hstep, ?_, ?_, ?_⟩
  · dsimp only
    rw [List.map_map]
    have hids : Server.secObjInstID ∘ replies i.time i.malloc events =
        (Server.secObjInstID : Server Peer → UInt16) :=
      funext fun s => (replies_frame i.time i.malloc events s).1
    rw [hids]
    exact hO.once
  · intro mID t' ht'
    obtain ⟨t, ht, hcallback, hpeer⟩ := hstayed mID t' ht'
    obtain ⟨s, hs, handler, hcall, hhandler, hsession⟩ := hO.owner mID t ht
    have hquiet : ¬ Replied s events := by
      rintro ⟨mID', handler', packet, hmem, _⟩
      obtain ⟨u, hu, hcall', hgone⟩ := hcalled mID' _ packet hmem
      cases hO.single mID t mID' u handler handler' s.secObjInstID ht hu hcall hcall'
      rw [ht'] at hgone
      cases hgone
    refine ⟨s, List.mem_map.mpr ⟨s, hs, replies_other i.time i.malloc hquiet⟩, handler, ?_,
      hhandler, ?_⟩
    · rw [hcallback]
      exact hcall
    · rw [hpeer]
      exact hsession
  · intro mID t₁ mID' t₂ handler handler' id ht₁ ht₂ hcall hcall'
    obtain ⟨u₁, hu₁, hcallback₁, _⟩ := hstayed mID t₁ ht₁
    obtain ⟨u₂, hu₂, hcallback₂, _⟩ := hstayed mID' t₂ ht₂
    exact hO.single mID u₁ mID' u₂ handler handler' id hu₁ hu₂ (hcallback₁.symm.trans hcall)
      (hcallback₂.symm.trans hcall')

/-- No update and no deregistration is asked for while an update is pending. -/
def Orderly (c : Client Peer) (i : Input Peer) : Prop :=
  ∀ s ∈ c.serverList, i.action.Meant s → s.status ≠ .regUpdatePending

omit [DecidableEq Peer] in
instance (c : Client Peer) (i : Input Peer) : Decidable (Orderly c i) :=
  inferInstanceAs (Decidable (∀ s ∈ c.serverList, i.action.Meant s →
    s.status ≠ .regUpdatePending))

theorem clientStep_owned (horderly : Orderly c i) (hO : Owned c.link c.serverList)
    (h : clientStep c i = some (c', ())) : Owned c'.link c'.serverList := by
  refine clientStep_keeps (fun _ _ hO => hO.listed) ?_ ?_ hO h
  · intro l l' s s' front rest hs hO hl' hturn
    exact hturn.owned (horderly s hs) hl' hO
  · intro action d haction _ hstep
    exact transactionsStep_owned haction hO hstep

/-- In a run where no update and no deregistration is asked for while an update is pending, every
transaction is the one request of its server, which waits for the reply of it, and goes over the
session that the server has: no session that was closed is used again. -/
theorem transactions_owned {now : Int} {nextMID : UInt16} {servers : List (Server Peer)}
    (honce : (servers.map Server.secObjInstID).Nodup) {inputs : List (Input Peer)}
    (horderly : Runs.Along Orderly clientStep (Client.initial now nextMID servers) inputs)
    {outs : List Unit} (h : run clientStep (Client.initial now nextMID servers) inputs =
      some (c, outs)) :
    (∀ t ∈ c.link.context.transactionList, ∃ s ∈ c.serverList, ∃ handler,
      t.callback = some ⟨handler, s.secObjInstID⟩ ∧ s.status.handler? = some handler ∧
        s.sessionH = some t.peerH) ∧
    ∀ t ∈ c.link.context.transactionList, ∀ t' ∈ c.link.context.transactionList,
      t.callback.map Callback.server = t'.callback.map Callback.server → t = t' := by
  have hO : Owned c.link c.serverList := by
    refine Runs.run_along (P := fun _ _ c => Owned c.link c.serverList) ?_ ?_ horderly h
    · intro past seen c i out c' hO hi hstep
      exact clientStep_owned hi hO hstep
    · exact ⟨⟨.nil, fun _ ht => nomatch ht⟩, honce, fun _ _ ht => (nomatch ht),
        fun _ _ _ _ _ _ _ ht => (nomatch ht)⟩
  obtain ⟨hsorted, _⟩ := hO.listed
  refine ⟨?_, ?_⟩
  · intro t ht
    exact hO.owner t.mID t (Transactions.current_of_mem hsorted ht)
  · intro t ht t' ht' hserver
    have hc := Transactions.current_of_mem hsorted ht
    have hc' := Transactions.current_of_mem hsorted ht'
    obtain ⟨s, _, handler, hcall, _⟩ := hO.owner t.mID t hc
    obtain ⟨s', _, handler', hcall', _⟩ := hO.owner t'.mID t' hc'
    rw [hcall, hcall'] at hserver
    have hids : s.secObjInstID = s'.secObjInstID := Option.some.inj hserver
    rw [← hids] at hcall'
    have hmID := hO.single _ _ _ _ _ _ _ hc hc' hcall hcall'
    rw [hmID, hc'] at hc
    exact (Option.some.inj hc).symm

end OwnSteps

theorem transactions_owned_update : ∃ c outs,
    run clientStep (Client.initial 0 1 [sensorServer]) updateSentAgain = some (c, outs) ∧
      c.link.context.transactionList.length = 1 ∧
      (∀ t ∈ c.link.context.transactionList, ∃ s ∈ c.serverList, ∃ handler,
        t.callback = some ⟨handler, s.secObjInstID⟩ ∧ s.status.handler? = some handler ∧
          s.sessionH = some t.peerH) ∧
      ∀ t ∈ c.link.context.transactionList, ∀ t' ∈ c.link.context.transactionList,
        t.callback.map Callback.server = t'.callback.map Callback.server → t = t' := by
  obtain ⟨c, outs, hrun, htest⟩ : ∃ c outs,
      run clientStep (Client.initial 0 1 [sensorServer]) updateSentAgain = some (c, outs) ∧
        decide (c.link.context.transactionList.length = 1) = true :=
    Runs.run_evaluated (by decide)
  exact ⟨c, outs, hrun, of_decide_eq_true htest,
    transactions_owned (by decide) (by decide) hrun⟩

/-- A second update while one is pending; it is refused, and the session is closed. -/
def updatedTwice : List (Input Nat) :=
  [⟨100, true, .start sensorNode everything⟩, ⟨101, true, .response 7 created false⟩,
    ⟨308, true, .registrationStep sensorNode everything 60⟩, ⟨309, true, .update 0 false⟩,
    ⟨309, true, .registrationStep sensorNode everything 60⟩,
    ⟨309, true, .response 7 (Coap.coapInitMessage .rst 0 3) false⟩,
    ⟨310, true, .registrationStep sensorNode everything 60⟩]

/-- Without the condition the first update is still sent over the session that was closed. -/
theorem closed_session_used : ∃ c outs,
    run clientStep (Client.initial 0 1 [sensorServer]) updatedTwice = some (c, outs) ∧
      c.link.context.transactionList.map Transaction.peerH = [7] ∧
      c.serverList.map Server.sessionH = [none] := by
  obtain ⟨c, outs, hrun, htest⟩ : ∃ c outs,
      run clientStep (Client.initial 0 1 [sensorServer]) updatedTwice = some (c, outs) ∧
        decide (c.link.context.transactionList.map Transaction.peerH = [7] ∧
          c.serverList.map Server.sessionH = [none]) = true :=
    Runs.run_evaluated (by decide)
  exact ⟨c, outs, hrun, of_decide_eq_true htest⟩

end Waiting

end JsEmbeddedPlatform.Registration
