import JsEmbeddedPlatform.ClearEventloop

/-!
# Timers that cannot be started or deleted

`setTimeout` and `setInterval` register in four places before the last step that can fail, and
none of them is undone. On stm32 stopping and deleting a timer are two commands to the timer task,
and only the answer to the first is looked at.
-/

set_option autoImplicit false

namespace JsEmbeddedPlatform.Timers

open Registry

variable {Fn : Type}

/-! ## A start that fails -/

/-- The callback list, the stash object, the timer list and the platform timers are the same. -/
structure SameRegistries (r r' : Registry Fn) : Prop where
  callbackListFirst : r'.callbackListFirst = r.callbackListFirst
  callbacks : r'.callbacks = r.callbacks
  stash : r'.stash = r.stash
  timerFirst : r'.timerFirst = r.timerFirst
  timerLast : r'.timerLast = r.timerLast
  timers : r'.timers = r.timers
  platformTimers : r'.platformTimers = r.platformTimers

theorem SameRegistries.refl (r : Registry Fn) : SameRegistries r r :=
  ⟨rfl, rfl, rfl, rfl, rfl, rfl, rfl⟩

/-- Where the native function throws nothing has changed, and it does not get to a NULL pointer. -/
def Traceless (repeats : Bool) (port : Port) (call : SetCall Fn) (r : Registry Fn) : Prop :=
  eventloopNativeSet repeats port call r ≠ .error .nullPointer ∧
  ∀ r', eventloopNativeSet repeats port call r = .ok (.throws, r') → SameRegistries r r'

/-- What `eventloop_platform_timer_start` asks the system for first. -/
def StartOutcome.first (o : StartOutcome) : Port → Option Nat
  | .unix => o.item
  | .stm32 => o.timer

/-- The arguments are refused, or all is granted, or the callback of an interval is not and the
next request fails too. -/
def SetCall.Decided (repeats : Bool) (port : Port) (call : SetCall Fn) : Prop :=
  call.timeout = none ∨ call.fn = none ∨ (call.block ≠ none ∧ call.outcome.succeeds port) ∨
    (call.block = none ∧ repeats = true ∧ call.outcome.first port = none)

section Start
variable {r : Registry Fn} {call : SetCall Fn} {port : Port} {repeats : Bool}

theorem traceless_of_eq {ret : JsResult} {r' : Registry Fn}
    (heq : eventloopNativeSet repeats port call r = .ok (ret, r'))
    (h : ret = .throws → SameRegistries r r') : Traceless repeats port call r := by
  unfold Traceless
  rw [heq]
  refine ⟨nofun, ?_⟩
  intro r'' hr
  cases hr
  exact h rfl

theorem same_of_traceless (h : Traceless repeats port call r) {r' : Registry Fn}
    (heq : eventloopNativeSet repeats port call r = .ok (.throws, r')) : SameRegistries r r' :=
  h.2 r' heq

theorem refused_traceless (h : call.timeout = none ∨ call.fn = none) :
    Traceless repeats port call r := by
  have heq : eventloopNativeSet repeats port call r = .ok (.throws, r) := by
    unfold eventloopNativeSet
    rcases h with ht | hf
    · rw [ht]
    · rw [hf]
      cases call.timeout <;> rfl
  exact traceless_of_eq heq fun _ => SameRegistries.refl r

/-- Without a record the timer is started on a NULL pointer. -/
theorem native_null (repeats : Bool) (port : Port) (r : Registry Fn) {timeout : Nat} {fn : Fn}
    (ht : call.timeout = some timeout) (hf : call.fn = some fn) (hb : call.block = none) :
    eventloopNativeSet repeats port call r =
      (eventloopPlatformTimerStart port call.outcome none (castLong port timeout) repeats r >>=
        fun p => if p.1 ≠ .succ then pure (.throws, p.2) else pure (.returns none, p.2)) := by
  simp only [eventloopNativeSet, ht, hf, hb, eventloopCallbackCreateFromContext, bind_ok]

theorem null_traceless_iff (h : Linked r) (fresh : call.outcome.Fresh r) {timeout : Nat} {fn : Fn}
    (ht : call.timeout = some timeout) (hf : call.fn = some fn) (hb : call.block = none) :
    Traceless repeats port call r ↔ repeats = true ∧ call.outcome.first port = none := by
  have heq := native_null repeats port r ht hf hb
  rw [start_null_eq h fresh] at heq
  cases repeats with
  | false =>
    refine ⟨fun hclean => absurd heq hclean.1, ?_⟩
    rintro ⟨hrepeats, _⟩
    cases hrepeats
  | true =>
    cases port with
    | unix =>
      cases hi : call.outcome.item with
      | none =>
        rw [hi] at heq
        exact ⟨fun _ => ⟨rfl, hi⟩, fun _ => traceless_of_eq heq fun _ => SameRegistries.refl r⟩
      | some item =>
        rw [hi] at heq
        refine ⟨fun hclean => absurd heq hclean.1, ?_⟩
        rintro ⟨_, hfirst⟩
        exact absurd (hi.symm.trans hfirst) (by simp)
    | stm32 =>
      cases hp : call.outcome.timer with
      | none =>
        rw [hp] at heq
        have heq : eventloopNativeSet true .stm32 call r = .ok (.throws, r) := by
          rw [heq]
          cases call.outcome.item <;> rfl
        exact ⟨fun _ => ⟨rfl, hp⟩, fun _ => traceless_of_eq heq fun _ => SameRegistries.refl r⟩
      | some timer =>
        constructor
        · intro hclean
          exfalso
          cases hi : call.outcome.item with
          | none =>
            rw [hp, hi] at heq
            -- the timer that was created is among the platform timers now
            have hsame := (same_of_traceless hclean heq).platformTimers
            have hlive := Heap.live_alloc (fresh.timer timer hp)
              ⟨none, true, castLong .stm32 timeout, false⟩
            exact absurd ((congrArg Heap.live hsame).symm.trans hlive) (List.cons_ne_self _ _).symm
          | some item =>
            rw [hp, hi] at heq
            exact hclean.1 heq
        · rintro ⟨_, hfirst⟩
          exact absurd (hp.symm.trans hfirst) (by simp)

/-- With a record everything depends on the timer: the record is never taken back. -/
theorem created_traceless_iff (h : Linked r) (grant : call.Grantable r) {timeout : Nat} {fn : Fn}
    {p : Nat} (ht : call.timeout = some timeout) (hf : call.fn = some fn)
    (hb : call.block = some p) :
    Traceless repeats port call r ↔ call.outcome.succeeds port := by
  rcases set_spec h grant port repeats with ⟨hnone, _⟩ | ⟨res, r', heq, eff⟩
  · simp [SetCall.creates, ht, hf, hb] at hnone
  · cases eff with
    | refused hnone => simp [SetCall.creates, ht, hf, hb] at hnone
    | @created fn' p' _ _ _ _ _ block fresh eff result =>
      rcases result with ⟨hres, hsucc⟩ | ⟨hres, hfail⟩
      · refine ⟨fun _ => hsucc, fun _ => traceless_of_eq heq ?_⟩
        intro hthrows
        rw [hres] at hthrows
        cases hthrows
      · refine ⟨fun hclean => ?_, fun hsucc => absurd hsucc hfail⟩
        exfalso
        rw [hres] at heq
        have hids : r'.ids = r.ids :=
          congrArg (Heap.view Callback.id) (same_of_traceless hclean heq).callbacks
        rw [eff.ids, ids_afterCreate block] at hids
        exact List.cons_ne_self _ _ hids

/-- A call that throws has left no trace if its arguments were refused, or if it is an interval
for which neither the callback nor the first request of the timer was granted. -/
theorem set_traceless_iff (h : Linked r) (grant : call.Grantable r) :
    Traceless repeats port call r ↔ call.Decided repeats port := by
  unfold SetCall.Decided
  cases ht : call.timeout with
  | none =>
    exact ⟨fun _ => Or.inl rfl, fun _ => refused_traceless (Or.inl ht)⟩
  | some timeout =>
    cases hf : call.fn with
    | none => exact ⟨fun _ => Or.inr (Or.inl rfl), fun _ => refused_traceless (Or.inr hf)⟩
    | some fn =>
      cases hb : call.block with
      | none =>
        rw [null_traceless_iff h ⟨grant.2.1, grant.2.2⟩ ht hf hb]
        simp
      | some p =>
        rw [created_traceless_iff h grant ht hf hb]
        simp

/-- A timeout that is granted everything; then the queue of the timer task is full. -/
def fullTimerQueue : SetCall Unit := ⟨some (), some 100, some 16, ⟨some 8, some 1, false⟩⟩

/-- No memory for the callback record. -/
def noRecord : SetCall Unit := ⟨some (), some 100, none, ⟨some 8, some 1, true⟩⟩

theorem bad_arguments_traceless :
    Traceless true .unix ⟨none, some 100, none, ⟨none, none, false⟩⟩
      (Registry.initial : Registry Unit) :=
  (set_traceless_iff initial_consistent.toPaired.linked
    ⟨by decide, by decide, by decide⟩).mpr (Or.inr (Or.inl rfl))

/-- The callback and the timer item stay; without a record the NULL pointer is written through. -/
theorem failed_start_leaves_traces :
    (∃ r', eventloopNativeSetTimeout .stm32 fullTimerQueue Registry.initial = .ok (.throws, r') ∧
      r'.callbacks.live = [16] ∧ r'.timers.live = [8] ∧ r'.platformTimers.live = [1]) ∧
    ¬ Traceless false .stm32 fullTimerQueue Registry.initial ∧
    eventloopNativeSetTimeout .unix noRecord Registry.initial = .error .nullPointer ∧
    ¬ Traceless false .unix noRecord Registry.initial := by
  have hthrows : ∃ r', eventloopNativeSetTimeout .stm32 fullTimerQueue Registry.initial =
      .ok (.throws, r') ∧ r'.callbacks.live = [16] ∧ r'.timers.live = [8] ∧
        r'.platformTimers.live = [1] := ⟨_, rfl, rfl, rfl, rfl⟩
  have hnull : eventloopNativeSetTimeout .unix noRecord Registry.initial =
      .error .nullPointer := rfl
  refine ⟨hthrows, ?_, hnull, fun h => h.1 hnull⟩
  intro h
  obtain ⟨r', heq, hlive, _⟩ := hthrows
  rw [(same_of_traceless h heq).callbacks] at hlive
  cases hlive

end Start

/-! ## Whatever happens, the lists stay in order -/

section Reachable
variable {l l' : Loop Fn} {port : Port}

theorem send_registry (l : Loop Fn) (s : Sender) : (l.send s).1.registry = l.registry := by
  unfold Loop.send
  split
  · split <;> rfl
  · rfl

theorem trigger_registry (l : Loop Fn) (handle : Nat) (p : PlatformTimer) :
    (l.trigger handle p).1.registry = l.registry := by
  unfold Loop.trigger
  split
  · rfl
  · split
    · rfl
    · exact send_registry _ _

theorem receive_registry (l : Loop Fn) (copy : Callback) :
    (l.receive copy).1.registry = l.registry := by
  unfold Loop.receive
  split <;> rfl

theorem ClearEffect.wired {o : StopOutcome} {handle : Nat} {d : CallbackData}
    {r r' : Registry Fn} (h : Wired r) (hd : r.callback? handle = some d)
    (eff : ClearEffect port o handle d r r') : Wired r' := by
  cases eff with
  | idle => exact h
  | refused => exact h
  | stopped _ _ timer => exact h.stopPlatformTimer timer
  | cleaned hdt ht hec eff => exact h.cleaned ht hec hd hdt eff

theorem CompleteEffect.wired {copy : Callback} {r r' : Registry Fn} (h : Wired r)
    (eff : CompleteEffect copy r r') : Wired r' := by
  cases eff with
  | kept => exact h
  | cleaned _ ht _ hec hc hdt eff => exact h.cleaned ht hec hc hdt eff

theorem Loop.set_wired (h : Wired l.registry) {repeats : Bool} {call : SetCall Fn}
    (grant : call.Grantable l.registry) : Wired (l.set port repeats call).1.registry := by
  rcases set_spec h.linked grant port repeats with ⟨_, herr⟩ | ⟨res, r, hr, eff⟩
  · unfold Loop.set
    rw [herr]
    exact h
  · rcases set_cases hr with ⟨handle, fn, _, _, heq⟩ | ⟨_, heq⟩
    · rw [heq]
      exact eff.wired h
    · rw [heq]
      exact eff.wired h

theorem Loop.clear_wired (h : Wired l.registry) (handle : Nat) (o : StopOutcome) :
    Wired (l.clear port handle o).1.registry := by
  unfold Loop.clear
  rcases clear_spec h.toPaired port o handle with ⟨_, herr⟩ | ⟨d, r, hd, hok, eff⟩
  · rw [herr]
    exact h
  · rw [hok]
    simp only [settle_registry]
    exact eff.wired h hd

theorem Loop.complete_wired (h : Wired l.registry) (o : StopOutcome) (copy : Callback) :
    Wired (l.complete port o copy).1.registry := by
  unfold Loop.complete
  split
  · exact h
  · rcases complete_spec h.toPaired port o copy with ⟨_, _, _, herr⟩ | ⟨r, hok, eff⟩
    · rw [herr]
      exact h
    · rw [hok]
      simp only [settle_registry]
      exact eff.wired h

/-- Every step, also one that fails or stops the loop, leaves the registry wired. -/
theorem loopStep_wired {action : Action Fn} {event : Event Fn} (h : Wired l.registry)
    (step : loopStep port l action = some (l', event)) : Wired l'.registry := by
  have fine : ∀ {x : Loop Fn × Event Fn}, x = (l', event) → Wired x.1.registry →
      Wired l'.registry := by
    rintro _ rfl wired
    exact wired
  cases loopStep_cases step with
  | set _ grant becomes => exact fine becomes (Loop.set_wired h grant)
  | clear _ _ becomes => exact fine becomes (Loop.clear_wired h _ _)
  | @expire handle _ _ _ _ _ becomes =>
    apply fine becomes
    rw [trigger_registry]
    exact h.setActive handle PlatformTimer.repeats
  | expireLate _ _ _ becomes =>
    apply fine becomes
    rw [trigger_registry]
    exact h
  | resume _ _ _ becomes =>
    apply fine becomes
    rw [send_registry]
    exact h
  | receive _ _ becomes =>
    apply fine becomes
    rw [receive_registry]
    exact h
  | complete _ becomes => exact fine becomes (Loop.complete_wired h _ _)
  | inherit _ becomes => exact fine becomes h
  | drain _ _ becomes => exact fine becomes h
  | scriptEnds _ becomes => exact fine becomes h
  | callbackReturns _ becomes => exact fine becomes h

theorem run_wired {actions : List (Action Fn)} {events : List (Event Fn)} (h : Wired l.registry)
    (hrun : Runs.run (loopStep port) l actions = some (l', events)) : Wired l'.registry :=
  Runs.run_history (P := fun _ _ l => Wired l.registry)
    (fun _ _ _ _ _ _ wired step => loopStep_wired wired step) h hrun

theorem reachable_wired {actions : List (Action Fn)} {events : List (Event Fn)}
    (hrun : Runs.run (loopStep port) Loop.initial actions = some (l, events)) :
    Wired l.registry :=
  run_wired initial_wired hrun

end Reachable

/-! ## Stopping and completing on stm32 -/

/-- The item is unlinked and freed, the callback destroyed and the timer of the system deleted. -/
structure Removed (r r' : Registry Fn) (t c : Nat) : Prop where
  linked : Linked r'
  item : t ∉ r'.timers.live
  callback : c ∉ r'.callbacks.live
  stash : ∀ d, r.callback? c = some d → r'.stash (uint64ToDouble d.id) = none
  timer : ∀ e p, r.timer? t = some e → e.timer = some p → p ∉ r'.platformTimers.live

def StopAllOrNothing (o : StopOutcome) (t c : Nat) (r : Registry Fn) : Prop :=
  ∃ ret r', eventloopPlatformTimerStop .stm32 o (some c) r = .ok (ret, r') ∧
    (ret = .succ → Removed r r' t c) ∧ (ret ≠ .succ → r' = r)

/-- After the completion of `copy`, and after whatever the loop does then, all items that are left
are found and released by `eventloop_platform_timers_cleanup`. -/
def NothingLost (l : Loop Fn) : Prop :=
  ∀ o copy r, timerCallbackCompletion .stm32 o copy l.registry = .ok r →
    ∀ actions last events,
      Runs.run (loopStep .stm32) { l with registry := r } actions = some (last, events) →
      ∀ deletes, ∃ cleared,
        eventloopPlatformTimersCleanup .stm32 deletes last.registry = .ok cleared ∧
        cleared.timers.live = []

section Stop
variable {r r' : Registry Fn} {t c : Nat} {d : CallbackData} {e : TimerData} {o : StopOutcome}

theorem CleanupEffect.removed (ht : r.timer? t = some e) (hc : r.callback? c = some d)
    (eff : CleanupEffect r r' t c d e) : Removed r r' t c := by
  refine ⟨eff.linked, ?_, ?_, ?_, ?_⟩
  · rw [eff.timerLive]
    simp
  · intro hlive
    obtain ⟨cb, hcb⟩ := (r'.callbacks.mem_live_iff c).mp hlive
    have hnone := eff.callback c
    rw [if_pos rfl] at hnone
    simp [callback?, hcb] at hnone
  · intro d' hd'
    rw [hc] at hd'
    cases hd'
    rw [eff.stash, Function.update_self]
  · intro e' p he' hp hlive
    rw [ht] at he'
    cases he'
    obtain ⟨pt, hpt⟩ := (r'.platformTimers.mem_live_iff p).mp hlive
    rw [eff.platform, if_pos hp] at hpt
    cases hpt

/-- The answer to the second command decides when the first has got through. -/
theorem stop_all_or_nothing (h : Paired r) (hc : r.callback? c = some d)
    (hdt : d.userData = some t) :
    StopAllOrNothing o t c r ↔ (o.stopped = true → o.deleted = true) := by
  obtain ⟨e, ht, hec⟩ := h.ofCallback c d t hc hdt
  unfold StopAllOrNothing
  rcases stop_spec h.linked ht hec hc hdt .stm32 o with
    ⟨_, ⟨hstop, heq⟩ | ⟨hstop, hdelete, heq⟩⟩ | ⟨hboth, r', heq, eff⟩
  · constructor
    · intro _ hstopped
      rw [hstop] at hstopped
      cases hstopped
    · intro _
      exact ⟨_, _, heq, nofun, fun _ => rfl⟩
  · constructor
    · rintro ⟨ret, r', heq', hremoved, _⟩
      exfalso
      rw [heq] at heq'
      cases heq'
      -- the list of the items is as it was
      exact (hremoved rfl).item (live_of_timer? ht)
    · intro hdeleted
      rw [hdelete] at hdeleted
      cases hdeleted hstop
  · constructor
    · intro _ _
      exact (hboth rfl).2
    · intro _
      exact ⟨_, _, heq, fun _ => eff.removed ht hc, fun hne => absurd rfl hne⟩

theorem completion_removes_iff (h : Paired r) (ht : r.timer? t = some e)
    (once : e.repeats = false) (hec : e.callback = some c) {copy : Callback}
    (hcopy : copy.userData = some t) :
    (∃ r', timerCallbackCompletion .stm32 o copy r = .ok r' ∧ Removed r r' t c) ↔
      o.deleted = true := by
  obtain ⟨c', d, hec', hc, _⟩ := h.ofTimer t e ht
  rw [hec] at hec'
  cases hec'
  rcases completion_spec h.linked ht hec hc .stm32 o hcopy with
    ⟨hkept, heq⟩ | ⟨_, hdelete, r', heq, eff⟩
  · have hdeleted : o.deleted = false := by
      rcases hkept with hrepeats | ⟨_, hdeleted⟩
      · rw [once] at hrepeats
        cases hrepeats
      · exact hdeleted
    constructor
    · rintro ⟨r', heq', hremoved⟩
      rw [heq] at heq'
      cases heq'
      exact absurd (live_of_timer? ht) hremoved.item
    · intro hd
      rw [hdeleted] at hd
      cases hd
  · exact ⟨fun _ => hdelete rfl, fun _ => ⟨r', heq, eff.removed ht hc⟩⟩

theorem nothing_lost {l : Loop Fn} (h : Wired l.registry) : NothingLost l := by
  intro o copy r hr actions last events hrun deletes
  have wired : Wired r := by
    rcases complete_spec h.toPaired .stm32 o copy with ⟨_, _, _, herr⟩ | ⟨r', hok, eff⟩
    · rw [herr] at hr
      cases hr
    · rw [hok] at hr
      cases hr
      exact eff.wired h
  obtain ⟨timers, platformTimers, heq, hempty⟩ :=
    timersCleanup_spec (run_wired wired hrun).linked.lists_timers .stm32 deletes
  exact ⟨_, heq, hempty⟩

/-- In every state that is reached, a stop is all or nothing unless the timer is stopped and then
not deleted, and no completion leaves an item that is lost; a completion releases the item of its
one-shot itself if the timer is deleted, else the item waits for the clean-up. -/
theorem stop_all_or_nothing_iff {l : Loop Fn} {actions : List (Action Fn)}
    {events : List (Event Fn)}
    (hrun : Runs.run (loopStep .stm32) Loop.initial actions = some (l, events))
    {c t : Nat} {d : CallbackData} (hc : l.registry.callback? c = some d)
    (hdt : d.userData = some t) (o : StopOutcome) :
    (StopAllOrNothing o t c l.registry ∧ NothingLost l ↔
      (o.stopped = true → o.deleted = true)) ∧
    ∀ e copy, l.registry.timer? t = some e → e.repeats = false → copy.userData = some t →
      ((∃ r', timerCallbackCompletion .stm32 o copy l.registry = .ok r' ∧
        Removed l.registry r' t c) ↔ o.deleted = true) := by
  have wired := reachable_wired hrun
  constructor
  · rw [stop_all_or_nothing wired.toPaired hc hdt]
    exact ⟨And.left, fun h => ⟨h, nothing_lost wired⟩⟩
  · intro e copy ht once hcopy
    obtain ⟨e', ht', hec⟩ := wired.ofCallback c d t hc hdt
    rw [ht] at ht'
    cases ht'
    exact completion_removes_iff wired.toPaired ht once hec hcopy

def intervalStarted : List (Action Unit) :=
  [.set true ⟨some (), some 100, some 16, ⟨some 8, some 1, true⟩⟩, .scriptEnds]

/-- The record of that interval, whose item is at 8. -/
def intervalRecord : CallbackData := ⟨0, none, none, some 8⟩

theorem interval_started : ∃ (l : Loop Unit) (events : List (Event Unit)),
    Runs.run (loopStep .stm32) Loop.initial intervalStarted = some (l, events) ∧
    decide (l.registry.callback? 16 = some intervalRecord) = true :=
  Runs.run_evaluated (by decide)

theorem interval_stop_all_or_nothing : ∃ (l : Loop Unit) (events : List (Event Unit)),
    Runs.run (loopStep .stm32) Loop.initial intervalStarted = some (l, events) ∧
    StopAllOrNothing ⟨true, true⟩ 8 16 l.registry ∧ NothingLost l := by
  obtain ⟨l, events, hrun, hc⟩ := interval_started
  exact ⟨l, events, hrun,
    (stop_all_or_nothing_iff hrun (of_decide_eq_true hc) rfl ⟨true, true⟩).1.mpr fun _ => rfl⟩

/-- The timer is stopped and the queue of its task then full: success is reported, and the item,
the callback and the timer are still there. -/
theorem half_stop_reports_success : ∃ (l : Loop Unit) (events : List (Event Unit)),
    Runs.run (loopStep .stm32) Loop.initial intervalStarted = some (l, events) ∧
    (∃ r', eventloopPlatformTimerStop .stm32 ⟨true, false⟩ (some 16) l.registry =
      .ok (.succ, r') ∧ r'.timers.live = [8] ∧ r'.callbacks.live = [16] ∧
        (r'.platformTimers.get? 1).map PlatformTimer.active = some false) ∧
    ¬ StopAllOrNothing ⟨true, false⟩ 8 16 l.registry := by
  obtain ⟨l, events, hrun, hc⟩ := interval_started
  refine ⟨l, events, hrun, ?_, ?_⟩
  · cases hrun
    exact ⟨_, rfl, rfl, rfl, rfl⟩
  · intro h
    have hdeleted := (stop_all_or_nothing (reachable_wired hrun).toPaired
      (of_decide_eq_true hc) rfl).mp h rfl
    cases hdeleted

end Stop

end JsEmbeddedPlatform.Timers
