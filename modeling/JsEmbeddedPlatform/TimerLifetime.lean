import JsEmbeddedPlatform.TimerWiring

/-!
# Lifetime of timers and callbacks

`clearTimeout` takes any pointer that JavaScript was ever given, and the copy of a
one-shot in the queue still names its timer. The records outlive their users only
while a clear gets the handle of a live callback whose event is not on its way.
-/

set_option autoImplicit false

namespace JsEmbeddedPlatform.Timers

open Registry

variable {Fn : Type}

/-- The timer that completing this copy will release. -/
def Callback.oneShotTimer (c : Callback) : Option Nat :=
  if c.completionHandler = none then none else c.userData

def Fault.isRelease : Fault → Bool
  | .nullPointer | .notCallable => false
  | _ => true

namespace Loop

/-- The copies queued and the one being dispatched. -/
def copies (l : Loop Fn) : List Callback := l.phase.copy?.toList ++ l.queue

/-- The one-shots whose event is on its way. -/
def inFlight (l : Loop Fn) : List Nat :=
  l.copies.filterMap Callback.oneShotTimer ++
    (l.blocked.filter fun s => s.repeats = false).map Sender.item

/-- A clear names a live callback; when that is a one-shot, no copy of its record is queued or
being dispatched; and nothing waits for room with an event of its timer. On unix a thread
cancelled in that wait takes the robust mutex of the queue with it, on stm32 the timer task
keeps the pointers. No timer expires between its stop and the timer task's answer to it. -/
def Orderly (l : Loop Fn) : Action Fn → Prop
  | .clear handle _ => ∃ d ∈ l.registry.callback? handle, ∀ t ∈ d.userData,
      t ∉ l.copies.filterMap Callback.oneShotTimer ∧ ∀ s ∈ l.blocked, s.item ≠ t
  | .expireLate _ => False
  | _ => True

instance (l : Loop Fn) (action : Action Fn) : Decidable (l.Orderly action) :=
  match action with
  | .clear handle _ => inferInstanceAs (Decidable (∃ d ∈ l.registry.callback? handle, _))
  | .expireLate _ => isFalse id
  | .set _ _ | .inherit _ _ | .expire _ | .drain | .resume _ | .scriptEnds | .receive
  | .callbackReturns | .complete _ => isTrue trivial

end Loop

/-- A one-shot that expired and was not released. -/
def Settled (r : Registry Fn) (t : Nat) : Prop :=
  ∃ e, r.timer? t = some e ∧ e.repeats = false ∧
    ∀ p pt, r.platformTimers.get? p = some pt → pt.item = some t → pt.active = false

structure Sound (l : Loop Fn) : Prop where
  wired : Wired l.registry
  attached : ∀ s ∈ l.blocked, Attached l.registry s
  flight : ∀ t ∈ l.inFlight, Settled l.registry t
  once : l.inFlight.Nodup

theorem initial_sound : Sound (Loop.initial : Loop Fn) :=
  ⟨initial_wired, nofun, nofun, List.nodup_nil⟩

section Registry
variable {r r' : Registry Fn}

theorem Settled.keep {t : Nat} (h : Settled r t)
    (timers : ∀ e, r.timer? t = some e → r'.timer? t = some e)
    (platform : ∀ p pt, r'.platformTimers.get? p = some pt → pt.item = some t →
      ∃ old, r.platformTimers.get? p = some old ∧ old.item = some t ∧
        (old.active = false → pt.active = false)) : Settled r' t := by
  obtain ⟨e, he, hrep, hidle⟩ := h
  refine ⟨e, timers e he, hrep, ?_⟩
  intro p pt hp ht
  obtain ⟨old, hold, hitem, hactive⟩ := platform p pt hp ht
  exact hactive (hidle p old hold hitem)

end Registry

section Loop
variable {l : Loop Fn}

/-- Losing copies and senders, and a registry that keeps what the others need. -/
theorem Sound.shrink (h : Sound l) {l' : Loop Fn} (wired : Wired l'.registry)
    (blocked : l'.blocked.Sublist l.blocked)
    (copies : l'.copies.Sublist l.copies)
    (attached : ∀ s ∈ l'.blocked, Attached l.registry s → Attached l'.registry s)
    (flight : ∀ t ∈ l'.inFlight, Settled l.registry t → Settled l'.registry t) : Sound l' := by
  have sub : l'.inFlight.Sublist l.inFlight :=
    (copies.filterMap _).append ((blocked.filter _).map _)
  refine ⟨wired, ?_, ?_, h.once.sublist sub⟩
  · intro s hs
    exact attached s hs (h.attached s (blocked.subset hs))
  · intro t ht
    exact flight t ht (h.flight t (sub.subset ht))

theorem Attached.oneShotTimer (h : Wired l.registry) {s : Sender}
    (att : Attached l.registry s) :
    ∃ cb, l.registry.readCallback s.callback = .ok cb ∧
      cb.oneShotTimer = if s.repeats then none else some s.item := by
  obtain ⟨_, cb, _, hread, _, _, _, link, mark⟩ := att.record h
  refine ⟨cb, hread, ?_⟩
  cases hs : s.repeats with
  | true => simp [Callback.oneShotTimer, mark.mpr hs]
  | false =>
    have : cb.completionHandler ≠ none := fun hn => by simp [hs] at mark; exact mark hn
    simp [Callback.oneShotTimer, this, link]

/-- A sender puts its copy in the queue or waits; its one-shot is then on its way. -/
theorem Sound.send (h : Sound l) {s : Sender} (att : Attached l.registry s)
    (new : s.repeats = false → s.item ∉ l.inFlight ∧ Settled l.registry s.item) :
    Sound (l.send s).1 ∧ ∀ f, (l.send s).2 ≠ .fault f := by
  obtain ⟨cb, hread, hcb⟩ := att.oneShotTimer h.wired
  let added : List Nat := if s.repeats then [] else [s.item]
  have goal : ∀ l' : Loop Fn, l'.registry = l.registry →
      (∀ x ∈ l'.blocked, x ∈ l.blocked ∨ x = s) → l'.inFlight.Perm (added ++ l.inFlight) →
      Sound l' := by
    intro l' hreg hblk hperm
    refine ⟨hreg ▸ h.wired, ?_, ?_, hperm.nodup_iff.mpr ?_⟩
    · intro x hx
      rw [hreg]
      rcases hblk x hx with hx | rfl
      · exact h.attached x hx
      · exact att
    · intro t ht
      rw [hreg]
      rcases List.mem_append.mp (hperm.mem_iff.mp ht) with ht | ht
      · cases hs : s.repeats with
        | true => simp [added, hs] at ht
        | false =>
          have : t = s.item := by simpa [added, hs] using ht
          rw [this]
          exact (new hs).2
      · exact h.flight t ht
    · cases hs : s.repeats with
      | true => simpa [added, hs] using h.once
      | false =>
        simp only [added, hs, Bool.false_eq_true, if_false, List.singleton_append]
        exact List.nodup_cons.mpr ⟨(new hs).1, h.once⟩
  unfold Loop.send
  split
  · rw [hread]
    refine ⟨goal _ rfl (fun x hx => Or.inl hx) ?_, fun f => by simp⟩
    have shape : ({ l with queue := l.queue ++ [cb] } : Loop Fn).inFlight =
        l.copies.filterMap Callback.oneShotTimer ++ (added ++
          (l.blocked.filter fun s => s.repeats = false).map Sender.item) := by
      have hone : [cb].filterMap Callback.oneShotTimer = added := by
        cases hs : s.repeats <;> simp [added, hcb, hs]
      simp only [Loop.inFlight, Loop.copies, ← List.append_assoc]
      rw [List.filterMap_append, hone]
    rw [shape]
    exact List.perm_append_comm_assoc _ _ _
  · refine ⟨goal _ rfl ?_ ?_, fun f => by simp⟩
    · intro x hx
      rcases List.mem_append.mp hx with hx | hx
      · exact Or.inl hx
      · exact Or.inr (List.mem_singleton.mp hx)
    · have shape : ({ l with blocked := l.blocked ++ [s] } : Loop Fn).inFlight =
          l.inFlight ++ added := by
        have hone : ([s].filter fun s => s.repeats = false).map Sender.item = added := by
          cases hs : s.repeats <;> simp [added, hs]
        simp only [Loop.inFlight, Loop.copies, List.filter_append, List.map_append, hone,
          List.append_assoc]
      rw [shape]
      exact List.perm_append_comm

theorem Sound.expired (h : Sound l) {handle : Nat} {p : PlatformTimer}
    (hp : l.registry.platformTimers.get? handle = some p) (active : p.active = true) :
    Sound (l.expired handle) := by
  refine ⟨h.wired.setActive handle _, h.attached, ?_, h.once⟩
  intro t ht
  have timers : ∀ e, l.registry.timer? t = some e → (l.expired handle).registry.timer? t = some e :=
    fun _ he => he
  apply (h.flight t ht).keep timers
  intro q pt hq hitem
  rcases modify_platform hq with ⟨_, hq⟩ | ⟨rfl, old, hold, rfl⟩
  · exact ⟨pt, hq, hitem, fun ha => ha⟩
  · obtain ⟨_, _, _, hidle⟩ := h.flight t ht
    rw [hp] at hold
    cases hold
    have := hidle q p hp hitem
    rw [active] at this
    cases this

theorem Sound.trigger (h : Sound l) {handle : Nat} {p : PlatformTimer}
    (hp : l.registry.platformTimers.get? handle = some p) (active : p.active = true) :
    Sound ((l.expired handle).trigger handle p).1 ∧
      ∀ f, ((l.expired handle).trigger handle p).2 ≠ .fault f := by
  have hl := h.expired hp active
  unfold Loop.trigger
  cases hitem : p.item with
  | none => exact ⟨hl, fun f => by simp⟩
  | some item =>
    obtain ⟨e, c, _, he, hep, hrep, hec, _, hr⟩ := h.wired.triggered hp hitem
    have hr : timerTrigger (l.expired handle).registry item = .ok (some c) := hr
    simp only [hr]
    have att : Attached (l.expired handle).registry ⟨handle, item, some c, p.repeats⟩ :=
      ⟨e, he, hec, hep, hrep⟩
    apply hl.send att
    intro once
    have once' : p.repeats = false := once
    refine ⟨?_, e, he, hrep.trans once', ?_⟩
    · intro hflight
      obtain ⟨_, _, _, hidle⟩ := h.flight item hflight
      have := hidle handle p hp hitem
      rw [active] at this
      cases this
    · intro q pt hq hqi
      rcases modify_platform hq with ⟨hne, hq⟩ | ⟨rfl, old, hold, rfl⟩
      · obtain ⟨e', he', hep', _⟩ := h.wired.platform q pt item hq hqi
        rw [he] at he'
        cases he'
        rw [hep] at hep'
        exact absurd (Option.some.inj hep').symm hne
      · rw [hp] at hold
        cases hold
        exact once'

theorem Sound.resume (h : Sound l) {s : Sender} (hs : s ∈ l.blocked) :
    Sound ({ l with blocked := l.blocked.erase s }.send s).1 ∧
      ∀ f, ({ l with blocked := l.blocked.erase s }.send s).2 ≠ .fault f := by
  have waiting : Sound { l with blocked := l.blocked.erase s } :=
    h.shrink h.wired List.erase_sublist (List.Sublist.refl _) (fun _ _ ha => ha)
      fun _ _ ha => ha
  apply waiting.send (h.attached s hs)
  intro once
  have split : (l.blocked.filter fun s => s.repeats = false).Perm
      (s :: (l.blocked.erase s).filter fun s => s.repeats = false) := by
    have := (List.perm_cons_erase hs).filter fun s => s.repeats = false
    rwa [List.filter_cons_of_pos (by simpa using once)] at this
  have whole : l.inFlight.Perm
      (s.item :: ({ l with blocked := l.blocked.erase s } : Loop Fn).inFlight) := by
    have := (split.map Sender.item).append_left (l.copies.filterMap Callback.oneShotTimer)
    exact this.trans List.perm_middle
  have nodup := whole.nodup_iff.mp h.once
  exact ⟨(List.nodup_cons.mp nodup).1, h.flight s.item (whole.mem_iff.mpr List.mem_cons_self)⟩

/-- A move of the loop thread that touches no registry. -/
theorem Sound.move (h : Sound l) (queue : List Callback) (phase : Phase)
    (copies : (phase.copy?.toList ++ queue).Sublist l.copies) :
    Sound { l with queue := queue, phase := phase } :=
  h.shrink h.wired (List.Sublist.refl _) copies (fun _ _ ha => ha) fun _ _ ha => ha

theorem settle_phase (port : Port) (r : Registry Fn) (phase : Phase) :
    ({ l.settle port r with phase := phase } : Loop Fn) =
      ({ l with phase := phase } : Loop Fn).settle port r := by
  cases port <;> rfl

theorem settle_copies (port : Port) (r : Registry Fn) : (l.settle port r).copies = l.copies := by
  cases port <;> rfl

/-- A native call that removed no timer. -/
theorem Sound.settleKept (h : Sound l) (port : Port) {r : Registry Fn} (wired : Wired r)
    (timers : ∀ t, r.timer? t = l.registry.timer? t)
    (platform : ∀ p pt, r.platformTimers.get? p = some pt →
      ∃ old, l.registry.platformTimers.get? p = some old ∧ old.item = pt.item ∧
        (old.active = false → pt.active = false)) :
    Sound (l.settle port r) := by
  have keepTimer : ∀ t e, l.registry.timer? t = some e → r.timer? t = some e := by
    intro t e he
    rw [timers, he]
  have keepSettled : ∀ t, Settled l.registry t → Settled r t := by
    intro t ht
    apply ht.keep (keepTimer t)
    intro p pt hp hitem
    obtain ⟨old, hold, same, idle⟩ := platform p pt hp
    exact ⟨old, hold, same.trans hitem, idle⟩
  refine h.shrink ?_ (settle_blocked port l r) ?_ ?_ ?_
  · rw [settle_registry]
    exact wired
  · rw [settle_copies]
  · intro s _ ha
    rw [settle_registry]
    exact ha.keep (keepTimer s.item)
  · intro t _ ht
    rw [settle_registry]
    exact keepSettled t ht

/-- A native call that released timer `t`, which no queued copy and no waiting send names. -/
theorem Sound.settleCleaned (h : Sound l) (port : Port) {r : Registry Fn} {t c : Nat}
    {d : CallbackData} {e : TimerData} (ht : l.registry.timer? t = some e)
    (hec : e.callback = some c) (hc : l.registry.callback? c = some d) (hdt : d.userData = some t)
    (eff : CleanupEffect l.registry r t c d e)
    (copies : t ∉ l.copies.filterMap Callback.oneShotTimer)
    (waiting : ∀ s ∈ l.blocked, s.item ≠ t) :
    Sound (l.settle port r) := by
  have wired : Wired r := h.wired.cleaned ht hec hc hdt eff
  have keepTimer : ∀ q, q ≠ t → ∀ x, l.registry.timer? q = some x → r.timer? q = some x := by
    intro q hq x hx
    rw [eff.timer, if_neg hq, hx]
  have keepSettled : ∀ q, q ≠ t → Settled l.registry q → Settled r q := by
    intro q hq hs
    apply hs.keep (keepTimer q hq)
    intro p pt hp hitem
    rw [eff.platform] at hp
    split at hp
    · cases hp
    · exact ⟨pt, hp, hitem, fun ha => ha⟩
  have blocked : (l.settle port r).blocked.Sublist l.blocked := settle_blocked port l r
  have sub : (l.settle port r).inFlight.Sublist l.inFlight := by
    simp only [Loop.inFlight, settle_copies]
    exact ((blocked.filter _).map _).append_left _
  refine h.shrink ?_ blocked ?_ ?_ ?_
  · rw [settle_registry]
    exact wired
  · rw [settle_copies]
  · intro s hs ha
    rw [settle_registry]
    exact ha.keep (keepTimer s.item (waiting s (blocked.subset hs)))
  · intro q hq hs
    rw [settle_registry]
    refine keepSettled q ?_ hs
    rintro rfl
    rcases List.mem_append.mp (sub.subset hq) with hq | hq
    · exact copies hq
    · obtain ⟨s, hs, hsq⟩ := List.mem_map.mp hq
      exact waiting s (List.mem_filter.mp hs).1 hsq

theorem Sound.complete (h : Sound l) (port : Port) (o : StopOutcome) {copy : Callback}
    (hphase : l.phase = .completing copy) :
    Sound (l.complete port o copy).1 ∧ ∀ f, (l.complete port o copy).2 ≠ .fault f := by
  have hcopies : l.copies = copy :: l.queue := by simp [Loop.copies, hphase, Phase.copy?]
  have moved : Sound { l with phase := .waiting } := by
    apply h.move l.queue .waiting
    rw [hcopies]
    exact List.sublist_cons_self copy l.queue
  unfold Loop.complete
  cases hhandler : copy.completionHandler with
  | none => exact ⟨moved, fun f => by simp⟩
  | some handler =>
    cases handler
    have flight : ∀ t, copy.userData = some t → l.inFlight =
        t :: ({ l with phase := .waiting } : Loop Fn).inFlight := by
      intro t ht
      have : copy.oneShotTimer = some t := by simp [Callback.oneShotTimer, hhandler, ht]
      simp only [Loop.inFlight, hcopies, List.filterMap_cons_some this, List.cons_append]
      rfl
    rcases complete_spec h.wired.toPaired port o copy with ⟨t, ht, hgone, _⟩ | ⟨r, hr, eff⟩
    · obtain ⟨e, he, _⟩ := h.flight t (by rw [flight t ht]; exact List.mem_cons_self)
      rw [hgone] at he
      cases he
    · simp only [hr]
      refine ⟨?_, fun f => by simp⟩
      rw [settle_phase]
      cases eff with
      | kept =>
        exact moved.settleKept port h.wired (fun _ => rfl) fun p pt hp => ⟨pt, hp, rfl, id⟩
      | cleaned hcopy ht once hec hc hdt eff =>
        have whole := flight _ hcopy
        have nodup := h.once
        rw [whole] at nodup
        have fresh := (List.nodup_cons.mp nodup).1
        apply moved.settleCleaned port ht hec hc hdt eff
        · intro hm
          exact fresh (List.mem_append_left _ hm)
        · intro s hs hst
          obtain ⟨e', he', hrep, _⟩ := h.flight _ (whole ▸ List.mem_cons_self)
          obtain ⟨x, hx, _, _, hxr⟩ := h.attached s hs
          rw [hst, he'] at hx
          cases hx
          apply fresh
          refine List.mem_append_right _ (List.mem_map.mpr ⟨s, List.mem_filter.mpr ⟨hs, ?_⟩, hst⟩)
          simp [← hxr, hrep]

theorem Sound.clear (h : Sound l) (port : Port) (o : StopOutcome) {handle : Nat}
    (orderly : l.Orderly (.clear handle o : Action Fn)) :
    Sound (l.clear port handle o).1 ∧ ∀ f, (l.clear port handle o).2 ≠ .fault f := by
  obtain ⟨d, hd, free⟩ := orderly
  rcases clear_spec h.wired.toPaired port o handle with ⟨hnone, _⟩ | ⟨d', r, hd', hr, eff⟩
  · rw [hd] at hnone
    cases hnone
  · rw [hd] at hd'
    cases hd'
    simp only [Loop.clear, hr]
    refine ⟨?_, fun f => by simp⟩
    cases eff with
    | idle =>
      exact h.settleKept port h.wired (fun _ => rfl) fun p pt hp => ⟨pt, hp, rfl, id⟩
    | refused =>
      exact h.settleKept port h.wired (fun _ => rfl) fun p pt hp => ⟨pt, hp, rfl, id⟩
    | stopped _ _ timer =>
      apply h.settleKept port (h.wired.stopPlatformTimer timer) (fun _ => rfl)
      intro p pt hp
      cases timer with
      | none => exact ⟨pt, hp, rfl, id⟩
      | some q =>
        rcases modify_platform hp with ⟨_, hp⟩ | ⟨rfl, old, hold, rfl⟩
        · exact ⟨pt, hp, rfl, id⟩
        · exact ⟨old, hold, rfl, fun _ => rfl⟩
    | cleaned hdt ht hec eff =>
      obtain ⟨copies, waiting⟩ := free _ hdt
      exact h.settleCleaned port ht hec hd hdt eff copies waiting

theorem Sound.withRegistry (h : Sound l) {r : Registry Fn} (wired : Wired r)
    (timers : ∀ t e, l.registry.timer? t = some e → r.timer? t = some e)
    (platform : ∀ p pt t, r.platformTimers.get? p = some pt → pt.item = some t →
      l.registry.timer? t ≠ none → l.registry.platformTimers.get? p = some pt)
    (handles : List Nat) : Sound { l with registry := r, handles := handles } := by
  refine h.shrink wired (List.Sublist.refl _) (List.Sublist.refl _)
    (fun s _ ha => ha.keep (timers s.item)) ?_
  intro t _ hs
  have hlive : l.registry.timer? t ≠ none := by
    obtain ⟨e, he, _⟩ := hs
    simp [he]
  apply hs.keep (timers t)
  intro p pt hp hitem
  exact ⟨pt, platform p pt t hp hitem hlive, hitem, id⟩

theorem Sound.set (h : Sound l) (port : Port) (repeats : Bool) {call : SetCall Fn}
    (grant : call.Grantable l.registry) :
    (Sound (l.set port repeats call).1 ∧ ∀ f, (l.set port repeats call).2 ≠ .fault f) ∨
      l.set port repeats call = l.crash .nullPointer := by
  rcases set_spec h.wired.linked grant port repeats with ⟨_, hr⟩ | ⟨res, r, hr, eff⟩
  · right
    simp only [Loop.set, hr]
  · left
    have timers : ∀ t e, l.registry.timer? t = some e → r.timer? t = some e := by
      intro t e ht
      cases eff with
      | refused => exact ht
      | @created fn p _ _ _ creates hfn block fresh eff result =>
        have granted : call.outcome.Fresh (afterCreate l.registry p fn) := ⟨fresh.item, fresh.timer⟩
        exact timer?_kept granted eff ht
    have platform : ∀ p pt t, r.platformTimers.get? p = some pt → pt.item = some t →
        l.registry.timer? t ≠ none → l.registry.platformTimers.get? p = some pt := by
      intro p pt t hp ht hlive
      cases eff with
      | refused _ inert =>
        rcases inert p pt hp with hp | ⟨hn, _⟩
        · exact hp
        · rw [hn] at ht
          cases ht
      | created creates hfn block fresh eff result =>
        rcases eff.platform_cases hp with ⟨_, rfl⟩ | hp
        · exact absurd (timer?_unlinked fresh ht) hlive
        · exact hp
    have sound : ∀ handles, Sound { l with registry := r, handles := handles } :=
      h.withRegistry (eff.wired h.wired) timers platform
    rcases set_cases hr with ⟨handle, fn, _, _, hset⟩ | ⟨_, hset⟩
    · rw [hset]
      exact ⟨sound _, fun f => by simp⟩
    · rw [hset]
      exact ⟨sound l.handles, fun f => by simp⟩

end Loop

/-! ## Runs -/

/-- One step that meets the condition: nothing released is touched, and the loop stays
sound unless it stops at a null pointer. -/
theorem loopStep_sound {port : Port} {l l' : Loop Fn} {action : Action Fn} {event : Event Fn}
    (h : Sound l) (orderly : l.Orderly action)
    (step : loopStep port l action = some (l', event)) :
    (Sound l' ∨ l'.phase = .crashed) ∧ ∀ f, event = .fault f → f.isRelease = false := by
  have fine : ∀ {x : Loop Fn × Event Fn}, x = (l', event) →
      (Sound x.1 ∧ ∀ f, x.2 ≠ .fault f) →
      (Sound l' ∨ l'.phase = .crashed) ∧ ∀ f, event = .fault f → f.isRelease = false := by
    rintro _ rfl ⟨sound, quiet⟩
    exact ⟨Or.inl sound, fun f hf => absurd hf (quiet f)⟩
  cases loopStep_cases step with
  | @set repeats _ _ grant becomes =>
    rcases h.set port repeats grant with hs | hs
    · exact fine becomes hs
    · rw [hs] at becomes
      cases becomes
      exact ⟨Or.inr rfl, fun f hf => by cases hf; rfl⟩
  | @clear _ o _ _ becomes => exact fine becomes (h.clear port o orderly)
  | expire timer _ active _ becomes => exact fine becomes (h.trigger timer active)
  | expireLate _ _ _ _ => exact absurd orderly id
  | drain _ _ becomes =>
    refine fine becomes ⟨?_, fun f => by simp⟩
    exact h.shrink h.wired (List.Sublist.refl _) (List.Sublist.refl _) (fun _ _ ha => ha)
      fun _ _ ha => ha
  | resume _ waits _ becomes => exact fine becomes (h.resume waits)
  | scriptEnds _ becomes =>
    refine fine becomes ⟨?_, fun f => by simp⟩
    exact h.move _ _ (List.sublist_append_right _ _)
  | inherit _ becomes =>
    refine fine becomes ⟨?_, fun f => by simp⟩
    exact h.shrink h.wired (List.Sublist.refl _) (List.Sublist.refl _) (fun _ _ ha => ha)
      fun _ _ ha => ha
  | @receive copy rest waiting queue becomes =>
    have hcopies : l.copies = copy :: rest := by
      simp [Loop.copies, waiting, queue, Phase.copy?]
    unfold Loop.receive at becomes
    split at becomes
    · refine fine becomes ⟨h.move _ _ ?_, fun f => by simp⟩
      rw [hcopies]
      exact List.Sublist.refl _
    · cases becomes
      exact ⟨Or.inr rfl, fun f hf => by cases hf; rfl⟩
    · refine fine becomes ⟨h.move _ _ ?_, fun f => by simp⟩
      rw [hcopies]
      exact List.Sublist.refl _
  | callbackReturns dispatching becomes =>
    refine fine becomes ⟨h.move _ _ ?_, fun f => by simp⟩
    simp [Loop.copies, dispatching, Phase.copy?]
  | @complete o _ completing becomes => exact fine becomes (h.complete port o completing)

theorem crashed_stops {port : Port} {l : Loop Fn} (h : l.phase = .crashed) (action : Action Fn) :
    loopStep port l action = none := by
  cases action with
  | expire handle =>
    simp only [loopStep]
    split <;> simp [h]
  | expireLate handle =>
    simp only [loopStep]
    split <;> simp [h]
  | _ => simp [loopStep, h, Phase.runsScript]

def grant (block item timer : Nat) : SetCall Unit :=
  ⟨some (), some 100, some block, ⟨some item, some timer, true⟩⟩

/-- A timeout fires and stops an interval that has an event in the queue. -/
def timeoutStopsInterval : List (Action Unit) :=
  [.set false (grant 16 8 1), .set true (grant 32 24 2), .scriptEnds, .expire 1, .expire 2,
    .receive, .clear 32 ⟨true, true⟩, .callbackReturns, .complete ⟨true, true⟩, .receive]

/-- The handle of a timeout that already fired: the interval clears it. -/
def clearAfterFiring : List (Action Unit) :=
  [.set false (grant 16 8 1), .set true (grant 32 24 2), .scriptEnds, .expire 1, .receive,
    .callbackReturns, .complete ⟨true, true⟩, .expire 2, .receive, .clear 16 ⟨true, true⟩]

/-- A timeout that clears its own handle. -/
def clearOwnTimeout : List (Action Unit) :=
  [.set false (grant 16 8 1), .scriptEnds, .expire 1, .receive, .clear 16 ⟨true, true⟩,
    .callbackReturns, .complete ⟨true, true⟩]

def faults (port : Port) (actions : List (Action Unit)) : Option (List Fault) :=
  (Runs.run (loopStep port) Loop.initial actions).map fun result =>
    result.2.filterMap fun
      | .fault f => some f
      | _ => none

end JsEmbeddedPlatform.Timers
