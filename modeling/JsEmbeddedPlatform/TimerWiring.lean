import JsEmbeddedPlatform.EventLoop

/-!
# What the native calls do to timers

A platform timer, its item and its callback name each other, and a one-shot is
marked by the completion handler of its record. From such a registry every native
call either stops at a record that is gone or has one of a few effects.
-/

set_option autoImplicit false

namespace JsEmbeddedPlatform.Timers

open Registry

variable {Fn : Type}

structure Wired (r : Registry Fn) : Prop extends Paired r where
  handler : ∀ c d t e, r.callback? c = some d → d.userData = some t → r.timer? t = some e →
    (d.completionHandler = none ↔ e.repeats = true)
  platform : ∀ p pt t, r.platformTimers.get? p = some pt → pt.item = some t →
    ∃ e, r.timer? t = some e ∧ e.timer = some p ∧ e.repeats = pt.repeats

theorem initial_wired : Wired (Registry.initial : Registry Fn) :=
  ⟨initial_consistent.toPaired, nofun, nofun⟩

section Start
variable {r r' : Registry Fn} {c : Nat} {d : CallbackData} {port : Port} {o : StartOutcome}
variable {timeout : Int} {repeats : Bool}

theorem StartOutcome.linked_of_granted {p : Nat} (h : o.granted port = some p) :
    o.linked port = o.item ∧ o.timer = some p := by
  cases port with
  | unix =>
    change (if o.item = none then none else o.timer) = some p at h
    split at h
    · cases h
    · exact ⟨rfl, h⟩
  | stm32 =>
    have ht : o.timer = some p := h
    refine ⟨?_, ht⟩
    simp [StartOutcome.linked, ht]

/-- A platform timer after a start: the new one, which names the new item, or an old one. -/
theorem StartEffect.platform_cases (eff : StartEffect port o c timeout repeats d r r') {p : Nat}
    {pt : PlatformTimer} (hp : r'.platformTimers.get? p = some pt) :
    (o.granted port = some p ∧ pt = ⟨o.linked port, repeats, timeout, decide (o.succeeds port)⟩) ∨
      r.platformTimers.get? p = some pt := by
  rw [eff.platform] at hp
  split at hp
  · next hg =>
    cases hp
    rw [(StartOutcome.linked_of_granted hg).1]
    exact Or.inl ⟨hg, rfl⟩
  · exact Or.inr hp

theorem Wired.create (h : Wired r) {p : Nat} (fresh : p ∉ r.callbacks.live) (fn : Fn) :
    Wired (afterCreate r p fn) := by
  refine ⟨h.toPaired.create fresh fn, ?_, h.platform⟩
  intro c d t e hc hd ht
  rw [callback?_afterCreate fresh] at hc
  split at hc
  · cases hc
    cases hd
  · exact h.handler c d t e hc hd ht

theorem Wired.started (h : Wired r) (hc : r.callback? c = some d) (free : d.userData = none)
    (plain : d.completionHandler = none) (fresh : o.Fresh r)
    (eff : StartEffect port o c timeout repeats d r r') : Wired r' := by
  refine ⟨h.toPaired.started hc free fresh eff, ?_, ?_⟩
  · intro q x t e hq hx ht
    rw [eff.callback] at hq
    split at hq
    · cases hq
      rw [free, Option.or_none] at hx
      rw [eff.timer, if_pos hx] at ht
      cases ht
      cases repeats <;> simp [plain]
    · obtain ⟨e', he', _⟩ := h.ofCallback q x t hq hx
      have := timer?_kept fresh eff he'
      rw [ht] at this
      cases this
      exact h.handler q x t e hq hx he'
  · intro p pt t hp hitem
    rcases eff.platform_cases hp with ⟨hg, rfl⟩ | hp
    · obtain ⟨_, htimer⟩ := StartOutcome.linked_of_granted hg
      exact ⟨_, (eff.timer t).trans (if_pos hitem), htimer, rfl⟩
    · obtain ⟨e, he, hrest⟩ := h.platform p pt t hp hitem
      exact ⟨e, timer?_kept fresh eff he, hrest⟩

end Start

theorem Wired.cleaned {r r' : Registry Fn} {t c : Nat} {d : CallbackData} {e : TimerData}
    (h : Wired r) (ht : r.timer? t = some e) (hec : e.callback = some c)
    (hc : r.callback? c = some d) (hdt : d.userData = some t)
    (eff : CleanupEffect r r' t c d e) : Wired r' := by
  refine ⟨h.toPaired.cleaned ht hec hc hdt eff, ?_, ?_⟩
  · intro q x s y hq hx hs
    exact h.handler q x s y (eff.callback_of hq).2 hx (eff.timer_of hs).2
  · intro p pt s hp hitem
    rw [eff.platform] at hp
    split at hp
    · cases hp
    · next hne =>
      obtain ⟨y, hy, hyp, hrep⟩ := h.platform p pt s hp hitem
      refine ⟨y, ?_, hyp, hrep⟩
      rw [eff.timer, if_neg]
      · exact hy
      · rintro rfl
        rw [ht] at hy
        cases hy
        exact hne hyp

/-- A change of platform timers that keeps what they belong to. -/
theorem Wired.withPlatform {r : Registry Fn} (h : Wired r) {P : Heap PlatformTimer}
    (same : ∀ p pt t, P.get? p = some pt → pt.item = some t →
      ∃ old, r.platformTimers.get? p = some old ∧ old.item = some t ∧ old.repeats = pt.repeats) :
    Wired { r with platformTimers := P } := by
  refine ⟨⟨⟨h.linked.callbacks, h.linked.timers⟩, h.ofCallback, h.ofTimer⟩, h.handler, ?_⟩
  intro p pt t hp ht
  obtain ⟨old, hold, hitem, hrep⟩ := same p pt t hp ht
  obtain ⟨e, he, hep, her⟩ := h.platform p old t hold hitem
  exact ⟨e, he, hep, her.trans hrep⟩

theorem modify_platform {h : Heap PlatformTimer} {p q : Nat} {pt : PlatformTimer}
    {f : PlatformTimer → PlatformTimer} (hq : (h.modify p f).get? q = some pt) :
    (q ≠ p ∧ h.get? q = some pt) ∨ q = p ∧ ∃ old, h.get? q = some old ∧ pt = f old := by
  rw [Heap.get?_modify] at hq
  split at hq
  · next e =>
    obtain ⟨old, hold, rfl⟩ := Option.map_eq_some_iff.mp hq
    exact Or.inr ⟨e, old, hold, rfl⟩
  · next hne => exact Or.inl ⟨hne, hq⟩

theorem Wired.setActive {r : Registry Fn} (h : Wired r) (p : Nat) (f : PlatformTimer → Bool) :
    Wired { r with platformTimers :=
      r.platformTimers.modify p fun t => { t with active := f t } } := by
  apply h.withPlatform
  intro q pt t hq ht
  rcases modify_platform hq with ⟨_, hq⟩ | ⟨_, old, hold, rfl⟩
  · exact ⟨pt, hq, ht, rfl⟩
  · exact ⟨old, hold, ht, rfl⟩

theorem Wired.stopPlatformTimer {r : Registry Fn} (h : Wired r) (handle : Option Nat) :
    Wired (stopPlatformTimer handle r) := by
  cases handle with
  | none => exact h
  | some p => exact h.setActive p fun _ => false

/-! ## The native calls -/

/-- The function of the callback a call creates. -/
def SetCall.creates (call : SetCall Fn) : Option Fn :=
  if call.timeout.isSome ∧ call.block.isSome then call.fn else none

inductive SetEffect (port : Port) (repeats : Bool) (call : SetCall Fn) (r : Registry Fn) :
    JsResult → Registry Fn → Prop
  | refused {P : Heap PlatformTimer} (none_created : call.creates = none)
      (inert : ∀ q pt, P.get? q = some pt →
        r.platformTimers.get? q = some pt ∨ pt.item = none ∧ pt.active = false) :
      SetEffect port repeats call r .throws { r with platformTimers := P }
  | created {fn : Fn} {p : Nat} {timeout : Int} {res : JsResult} {r' : Registry Fn}
      (creates : call.creates = some fn) (hfn : call.fn = some fn)
      (block : p ∉ r.callbacks.live) (fresh : call.outcome.Fresh r)
      (eff : StartEffect port call.outcome p timeout repeats
        ⟨r.callbackSequenceId, none, none, none⟩ (afterCreate r p fn) r')
      (result : res = .returns (some p) ∧ call.outcome.succeeds port ∨
        res = .throws ∧ ¬ call.outcome.succeeds port) :
      SetEffect port repeats call r res r'

theorem writeCallback_null (r : Registry Fn) (f : Callback → Callback) :
    r.writeCallback none f = .error .nullPointer := rfl

/-- Starting a timer for a record that `malloc` did not grant: what fails before the record is
written is reported, and a platform timer that was created by then stays. -/
theorem start_null_eq {r : Registry Fn} (h : Linked r) {o : StartOutcome} (fresh : o.Fresh r)
    (port : Port) (timeout : Int) (repeats : Bool) :
    eventloopPlatformTimerStart port o none timeout repeats r =
      match repeats, port, o.item, o.timer with
      | true, .unix, none, _ => .ok (.mem, r)
      | true, .stm32, _, none => .ok (.mem, r)
      | true, .stm32, none, some timer => .ok (.mem, { r with
          platformTimers := r.platformTimers.alloc timer ⟨none, true, timeout, false⟩ })
      | _, _, _, _ => .error .nullPointer := by
  cases repeats with
  | false =>
    cases port <;> rfl
  | true =>
    cases port with
    | unix =>
      cases hi : o.item with
      | none => simp [eventloopPlatformTimerStart, timerStartUnix, destroyAfterFirstTrigger, hi]
      | some item =>
        have append := timerAppend_eq h (fresh.item item hi) ⟨none, none, true, none, none⟩ ⟨rfl, rfl⟩
        simp only [eventloopPlatformTimerStart, timerStartUnix, destroyAfterFirstTrigger,
          Bool.true_eq_false, if_false, bind_ok, hi, append, writeCallback_null]
        rfl
    | stm32 =>
      cases ht : o.timer with
      | none => simp [eventloopPlatformTimerStart, timerStartStm32, destroyAfterFirstTrigger, ht]
      | some timer =>
        cases hi : o.item with
        | none =>
          simp [eventloopPlatformTimerStart, timerStartStm32, destroyAfterFirstTrigger, ht, hi]
        | some item =>
          have h2 : Linked { r with
              platformTimers := r.platformTimers.alloc timer ⟨none, true, timeout, false⟩ } :=
            ⟨h.callbacks, h.timers⟩
          have append := timerAppend_eq h2 (fresh.item item hi) ⟨none, some timer, true, none, none⟩
            ⟨rfl, rfl⟩
          simp only [eventloopPlatformTimerStart, timerStartStm32, destroyAfterFirstTrigger,
            Bool.true_eq_false, if_false, bind_ok, ht, hi, append, writeCallback_null]
          rfl

theorem start_null {r : Registry Fn} (h : Linked r) {o : StartOutcome} (fresh : o.Fresh r)
    (port : Port) (timeout : Int) (repeats : Bool) :
    eventloopPlatformTimerStart port o none timeout repeats r = .error .nullPointer ∨
      ∃ P : Heap PlatformTimer, (∀ q pt, P.get? q = some pt →
          r.platformTimers.get? q = some pt ∨ pt.item = none ∧ pt.active = false) ∧
        eventloopPlatformTimerStart port o none timeout repeats r =
          .ok (.mem, { r with platformTimers := P }) := by
  rw [start_null_eq h fresh]
  split
  · exact Or.inr ⟨r.platformTimers, fun q pt hq => Or.inl hq, rfl⟩
  · exact Or.inr ⟨r.platformTimers, fun q pt hq => Or.inl hq, rfl⟩
  · next timer hi ht =>
    refine Or.inr ⟨_, ?_, rfl⟩
    intro q pt hq
    rw [Heap.get?_alloc (fresh.timer timer ht)] at hq
    split at hq
    · cases hq
      exact Or.inr ⟨rfl, rfl⟩
    · exact Or.inl hq
  · exact Or.inl rfl

theorem set_spec {r : Registry Fn} (h : Linked r) {call : SetCall Fn} (grant : call.Grantable r)
    (port : Port) (repeats : Bool) :
    (call.creates = none ∧ eventloopNativeSet repeats port call r = .error .nullPointer) ∨
      ∃ res r', eventloopNativeSet repeats port call r = .ok (res, r') ∧
        SetEffect port repeats call r res r' := by
  obtain ⟨hblock, hitem, htimer⟩ := grant
  have fresh : call.outcome.Fresh r := ⟨hitem, htimer⟩
  have same : ∀ q pt, r.platformTimers.get? q = some pt →
      r.platformTimers.get? q = some pt ∨ pt.item = none ∧ pt.active = false :=
    fun q pt hq => Or.inl hq
  cases ht : call.timeout with
  | none =>
    right
    refine ⟨.throws, r, by simp [eventloopNativeSet, ht], ?_⟩
    exact .refused (P := r.platformTimers) (by simp [SetCall.creates, ht]) same
  | some timeout =>
    cases hf : call.fn with
    | none =>
      right
      refine ⟨.throws, r, by simp [eventloopNativeSet, ht, hf], ?_⟩
      exact .refused (P := r.platformTimers) (by simp [SetCall.creates, hf]) same
    | some fn =>
      cases hb : call.block with
      | none =>
        rcases start_null h fresh port (castLong port timeout) repeats with hr | ⟨P, inert, hr⟩
        · left
          refine ⟨by simp [SetCall.creates, hb], ?_⟩
          simp only [eventloopNativeSet, ht, hf, hb, eventloopCallbackCreateFromContext, bind_ok, hr]
          rfl
        · right
          refine ⟨.throws, { r with platformTimers := P }, ?_, ?_⟩
          · simp [eventloopNativeSet, ht, hf, hb, eventloopCallbackCreateFromContext, hr]
          · exact .refused (by simp [SetCall.creates, hb]) inert
      | some p =>
        right
        have hp := hblock p hb
        have seen := callback?_afterCreate hp fn p
        rw [if_pos rfl] at seen
        have granted : call.outcome.Fresh (afterCreate r p fn) := ⟨fresh.item, fresh.timer⟩
        obtain ⟨ret, r', hr, hret, eff⟩ := start_spec (linked_afterCreate hp fn h) seen granted port
          (castLong port timeout) repeats
        have creates : call.creates = some fn := by simp [SetCall.creates, ht, hb, hf]
        simp only [eventloopNativeSet, ht, hf, hb, create_eq h hp, bind_ok, hr, pure_eq_ok]
        by_cases hs : ret = .succ
        · refine ⟨.returns (some p), r', by simp [hs], ?_⟩
          exact .created creates hf hp fresh eff (Or.inl ⟨rfl, hret.mp hs⟩)
        · refine ⟨.throws, r', by simp [hs], ?_⟩
          exact .created creates hf hp fresh eff (Or.inr ⟨rfl, fun hk => hs (hret.mpr hk)⟩)

inductive ClearEffect (port : Port) (o : StopOutcome) (handle : Nat) (d : CallbackData)
    (r : Registry Fn) : Registry Fn → Prop
  | idle (free : d.userData = none) : ClearEffect port o handle d r r
  | refused (hp : port = .stm32) (ho : o.stopped = false) : ClearEffect port o handle d r r
  | stopped (hp : port = .stm32) (ho : o.deleted = false) (timer : Option Nat) :
      ClearEffect port o handle d r (stopPlatformTimer timer r)
  | cleaned {t : Nat} {e : TimerData} {r' : Registry Fn} (hdt : d.userData = some t)
      (ht : r.timer? t = some e) (hec : e.callback = some handle)
      (eff : CleanupEffect r r' t handle d e) : ClearEffect port o handle d r r'

theorem clear_spec {r : Registry Fn} (h : Paired r) (port : Port) (o : StopOutcome)
    (handle : Nat) :
    (r.callback? handle = none ∧ eventloopNativeClearTimer port o (some handle) r =
      .error (.releasedCallback handle)) ∨
    ∃ d r', r.callback? handle = some d ∧
      eventloopNativeClearTimer port o (some handle) r = .ok r' ∧
        ClearEffect port o handle d r r' := by
  cases hd : r.callback? handle with
  | none =>
    left
    have hget : r.callbacks.get? handle = none := by simpa [callback?] using hd
    refine ⟨rfl, ?_⟩
    simp only [eventloopNativeClearTimer, eventloopPlatformTimerStop, readCallback, deref, hget]
    rfl
  | some d =>
    right
    cases hdt : d.userData with
    | none =>
      obtain ⟨cb, hcb, rfl⟩ := get?_of_callback? hd
      have link : cb.userData = none := hdt
      refine ⟨cb.data, r, rfl, ?_, .idle hdt⟩
      simp [eventloopNativeClearTimer, eventloopPlatformTimerStop, readCallback, deref, hcb, link]
    | some t =>
      obtain ⟨e, ht, hec⟩ := h.ofCallback handle d t hd hdt
      rcases stop_spec h.linked ht hec hd hdt port o with
        ⟨hp, ⟨refused, hr⟩ | ⟨_, kept, hr⟩⟩ | ⟨_, r', hr, eff⟩
      · exact ⟨d, r, rfl, by simp only [eventloopNativeClearTimer, hr, bind_ok, pure_eq_ok],
          .refused hp refused⟩
      · exact ⟨d, stopPlatformTimer e.timer r, rfl,
          by simp only [eventloopNativeClearTimer, hr, bind_ok, pure_eq_ok], .stopped hp kept e.timer⟩
      · exact ⟨d, r', rfl, by simp only [eventloopNativeClearTimer, hr, bind_ok, pure_eq_ok],
          .cleaned hdt ht hec eff⟩

inductive CompleteEffect (copy : Callback) (r : Registry Fn) : Registry Fn → Prop
  | kept : CompleteEffect copy r r
  | cleaned {t c : Nat} {d : CallbackData} {e : TimerData} {r' : Registry Fn}
      (hcopy : copy.userData = some t) (ht : r.timer? t = some e) (once : e.repeats = false)
      (hec : e.callback = some c) (hc : r.callback? c = some d) (hdt : d.userData = some t)
      (eff : CleanupEffect r r' t c d e) : CompleteEffect copy r r'

theorem complete_spec {r : Registry Fn} (h : Paired r) (port : Port) (o : StopOutcome)
    (copy : Callback) :
    (∃ t, copy.userData = some t ∧ r.timer? t = none ∧
      timerCallbackCompletion port o copy r = .error (.releasedTimer t)) ∨
    ∃ r', timerCallbackCompletion port o copy r = .ok r' ∧ CompleteEffect copy r r' := by
  cases hcopy : copy.userData with
  | none =>
    right
    exact ⟨r, by simp [timerCallbackCompletion, hcopy], .kept⟩
  | some t =>
    cases ht : r.timer? t with
    | none =>
      left
      have hget : r.timers.get? t = none := by simpa [timer?] using ht
      refine ⟨t, rfl, ht, ?_⟩
      simp only [timerCallbackCompletion, hcopy, readTimer, deref, hget]
      rfl
    | some e =>
      right
      obtain ⟨c, d, hec, hc, hdt⟩ := h.ofTimer t e ht
      rcases completion_spec h.linked ht hec hc port o hcopy with ⟨_, hr⟩ | ⟨once, _, r', hr, eff⟩
      · exact ⟨r, hr, .kept⟩
      · exact ⟨r', hr, .cleaned hcopy ht once hec hc hdt eff⟩

theorem trigger_spec {r : Registry Fn} (h : Paired r) (item : Nat) :
    (r.timer? item = none ∧ timerTrigger r item = .error (.releasedTimer item)) ∨
    ∃ e c d, r.timer? item = some e ∧ e.callback = some c ∧ r.callback? c = some d ∧
      d.userData = some item ∧ timerTrigger r item = .ok (some c) := by
  cases ht : r.timer? item with
  | none =>
    left
    have hget : r.timers.get? item = none := by simpa [timer?] using ht
    refine ⟨rfl, ?_⟩
    simp only [timerTrigger, readTimer, deref, hget]
    rfl
  | some e =>
    right
    obtain ⟨c, d, hec, hc, hdt⟩ := h.ofTimer item e ht
    obtain ⟨record, hrecord, rfl⟩ := get?_of_timer? ht
    have target : record.callback = some c := hec
    refine ⟨_, c, d, rfl, hec, hc, hdt, ?_⟩
    simp only [timerTrigger, readTimer, deref, hrecord, bind_ok, target, pure_eq_ok]

/-- An expiring timer finds its item and the callback of it. -/
theorem Wired.triggered {r : Registry Fn} (h : Wired r) {handle item : Nat} {p : PlatformTimer}
    (hp : r.platformTimers.get? handle = some p) (hitem : p.item = some item) :
    ∃ e c d, r.timer? item = some e ∧ e.timer = some handle ∧ e.repeats = p.repeats ∧
      e.callback = some c ∧ r.callback? c = some d ∧ timerTrigger r item = .ok (some c) := by
  obtain ⟨e, he, hep, hrep⟩ := h.platform handle p item hp hitem
  rcases trigger_spec h.toPaired item with ⟨hn, _⟩ | ⟨e', c, d, he', hec, hc, _, hr⟩
  · rw [he] at hn
    cases hn
  · rw [he] at he'
    cases he'
    exact ⟨e, c, d, he, hep, hrep, hec, hc, hr⟩

theorem SetEffect.wired {port : Port} {repeats : Bool} {call : SetCall Fn} {r r' : Registry Fn}
    {res : JsResult} (h : Wired r) (eff : SetEffect port repeats call r res r') : Wired r' := by
  cases eff with
  | refused _ inert =>
    apply h.withPlatform
    intro p pt t hp ht
    rcases inert p pt hp with hp | ⟨hn, _⟩
    · exact ⟨pt, hp, ht, rfl⟩
    · rw [hn] at ht
      cases ht
  | @created fn p timeout _ _ creates hfn block fresh eff result =>
    have seen := callback?_afterCreate block fn p
    rw [if_pos rfl] at seen
    have granted : call.outcome.Fresh (afterCreate r p fn) := ⟨fresh.item, fresh.timer⟩
    exact (h.create block fn).started seen rfl rfl granted eff

/-- A pointer comes back with an id, or an error is thrown. -/
theorem set_cases {l : Loop Fn} {port : Port} {repeats : Bool} {call : SetCall Fn} {res : JsResult}
    {r : Registry Fn} (hr : eventloopNativeSet repeats port call l.registry = .ok (res, r)) :
    (∃ handle fn, res = .returns (some handle) ∧ call.fn = some fn ∧ l.set port repeats call =
      ({ l with registry := r, handles := handle :: l.handles },
        .registered handle l.registry.callbackSequenceId fn repeats)) ∨
    ((∀ handle fn, call.fn = some fn → res ≠ .returns (some handle)) ∧
      l.set port repeats call = ({ l with registry := r }, .threw)) := by
  unfold Loop.set
  rw [hr]
  cases hf : call.fn with
  | none =>
    refine Or.inr ⟨nofun, ?_⟩
    cases res with
    | throws => rfl
    | returns p => cases p <;> rfl
  | some fn =>
    cases res with
    | throws => exact Or.inr ⟨by simp, rfl⟩
    | returns p =>
      cases p with
      | none => exact Or.inr ⟨by simp, rfl⟩
      | some handle => exact Or.inl ⟨handle, fn, rfl, rfl, rfl⟩

/-! ## Senders -/

/-- The item a sender holds is live and leads back to its timer and its callback. -/
def Attached (r : Registry Fn) (s : Sender) : Prop :=
  ∃ e, r.timer? s.item = some e ∧ e.callback = s.callback ∧ e.timer = some s.handle ∧
    e.repeats = s.repeats

theorem Attached.keep {r r' : Registry Fn} {s : Sender} (h : Attached r s)
    (timers : ∀ e, r.timer? s.item = some e → r'.timer? s.item = some e) : Attached r' s := by
  obtain ⟨e, he, hrest⟩ := h
  exact ⟨e, timers e he, hrest⟩

/-- The record a sender would copy. -/
theorem Attached.record {r : Registry Fn} (h : Wired r) {s : Sender} (att : Attached r s) :
    ∃ c cb e, r.readCallback s.callback = .ok cb ∧ r.callback? c = some cb.data ∧
      r.timer? s.item = some e ∧ e.callback = some c ∧ cb.userData = some s.item ∧
        (cb.completionHandler = none ↔ s.repeats = true) := by
  obtain ⟨e, he, hec, _, hrep⟩ := att
  obtain ⟨c, d, hcall, hc, hdt⟩ := h.ofTimer s.item e he
  obtain ⟨cb, hcb, rfl⟩ := get?_of_callback? hc
  have mark := h.handler c cb.data s.item e hc hdt he
  refine ⟨c, cb, e, ?_, hc, he, hcall, hdt, mark.trans (by rw [hrep])⟩
  rw [← hec, hcall]
  simp only [readCallback, deref, hcb]

section Native
variable {r : Registry Fn} {call : SetCall Fn}

/-- A call that is granted its callback record and its timer leaves a timer with this delay. -/
theorem native_timer (h : Linked r) (grant : call.Grantable r) {ms : Nat} {fn : Fn}
    {p timer : Nat} (ht : call.timeout = some ms) (hf : call.fn = some fn)
    (hb : call.block = some p) {port : Port} (hgranted : call.outcome.granted port = some timer)
    (repeats : Bool) :
    ∃ res r' pt, eventloopNativeSet repeats port call r = .ok (res, r') ∧
      r'.platformTimers.get? timer = some pt ∧ pt.repeats = repeats ∧
      pt.timeout = castLong port ms := by
  obtain ⟨hblock, hitem, htimer⟩ := grant
  have hp := hblock p hb
  have seen := callback?_afterCreate hp fn p
  rw [if_pos rfl] at seen
  have granted : call.outcome.Fresh (afterCreate r p fn) := ⟨hitem, htimer⟩
  obtain ⟨ret, r', hr, _, eff⟩ := start_spec (linked_afterCreate hp fn h) seen granted port
    (castLong port ms) repeats
  have hplatform := eff.platform timer
  rw [if_pos hgranted] at hplatform
  by_cases hs : ret = .succ
  · refine ⟨.returns (some p), r', _, ?_, hplatform, rfl, rfl⟩
    simp [eventloopNativeSet, ht, hf, hb, create_eq h hp, hr, hs]
  · refine ⟨.throws, r', _, ?_, hplatform, rfl, rfl⟩
    simp [eventloopNativeSet, ht, hf, hb, create_eq h hp, hr, hs]

end Native

end JsEmbeddedPlatform.Timers
