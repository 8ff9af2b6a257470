import JsEmbeddedPlatform.LoopGenerations

/-!
# No event crosses a restart

What a receive hands out comes from the heap it is dispatched in. A kill joins every
thread that can send while the queue is locked, before it deletes the queue; the next
thread has no heap, and so no timers, until it has a queue of its own. A record that no
receive has renewed may be older than the heap.
-/

set_option autoImplicit false

namespace JsEmbeddedPlatform.LoopGenerations

open Timers RestartCycles

variable {Fn : Type}

/-- An item that a receive handed out was pushed under the present heap, by a timer that was
started in the present generation; what selects a function is not of an earlier one. -/
structure Local (round : Iteration) : Prop where
  removed : round.removed = true → ∃ origin, round.record.origin = some origin ∧
    round.heap ≠ none ∧ origin.heap = round.heap ∧ origin.startedIn = round.generation
  selects : round.selects = true → ∀ origin ∈ round.record.origin,
    origin.heap = round.heap ∧ origin.startedIn = round.generation

/-- The record of the last receive is of the present heap, if it is of any. -/
def Recent (s : State Fn) : Prop :=
  ∀ origin ∈ s.received.origin,
    origin.heap = s.world.context ∧ origin.startedIn = s.generation

instance (s : State Fn) : Decidable (Recent s) :=
  inferInstanceAs (Decidable (∀ origin ∈ s.received.origin, _ ∧ _))

/-- A receive that fails leaves a recent record, and the finalizers of a heap call no natives. -/
def Renewed (s : State Fn) : Action Fn → Prop
  | .receives ok => ok = true ∧ inService s = true ∨ Recent s
  | .killEnds f => s.world.context = none ∨ f.Silent
  | _ => True

instance (s : State Fn) : (a : Action Fn) → Decidable (Renewed s a)
  | .receives _ => inferInstanceAs (Decidable (_ ∧ _ ∨ _))
  | .killEnds _ => inferInstanceAs (Decidable (_ ∨ _))
  | .start _ => isTrue trivial
  | .killBegins => isTrue trivial
  | .loopJoined => isTrue trivial
  | .timerJoined => isTrue trivial
  | .entersTask _ => isTrue trivial
  | .clears => isTrue trivial
  | .createsHeap => isTrue trivial
  | .calls _ => isTrue trivial
  | .scriptEnds => isTrue trivial
  | .wakes _ => isTrue trivial
  | .sends _ _ => isTrue trivial
  | .callbackReturns => isTrue trivial
  | .completes _ => isTrue trivial

/-! ## Threads of timers and their items -/

/-- A thread that is not joined keeps its item; only what is granted is new. -/
structure TimersKept (granted : Option Nat) (r r' : Registry Fn) : Prop where
  attached : ∀ p pt t, r'.platformTimers.get? p = some pt → pt.item = some t →
    ∃ e, r'.timer? t = some e ∧ e.timer = some p
  origin : ∀ p pt t, r'.platformTimers.get? p = some pt → pt.item = some t →
    granted = some p ∨ ∃ old, r.platformTimers.get? p = some old ∧ old.item = some t
  timer : ∀ t e p, r.timer? t = some e → e.timer = some p →
    r'.timer? t = some e ∨ r'.platformTimers.get? p = none

section Calls
variable {r r' : Registry Fn} {w w' : World Fn}

theorem attached_of_wired (h : Wired r) {p t : Nat} {pt : PlatformTimer}
    (hp : r.platformTimers.get? p = some pt) (ht : pt.item = some t) :
    ∃ e, r.timer? t = some e ∧ e.timer = some p := by
  obtain ⟨e, he, hep, _⟩ := h.platform p pt t hp ht
  exact ⟨e, he, hep⟩

theorem TimersKept.refl (h : Wired r) (granted : Option Nat) : TimersKept granted r r := by
  refine ⟨fun _ _ _ hp ht => attached_of_wired h hp ht, ?_, ?_⟩
  · intro p pt t hp ht
    exact Or.inr ⟨pt, hp, ht⟩
  · intro t e p he _
    exact Or.inl he

theorem set_kept {repeats : Bool} {call : SetCall Fn} {res : JsResult} (h : Wired r)
    (eff : SetEffect .unix repeats call r res r') :
    Wired r' ∧ TimersKept call.outcome.timer r r' := by
  have wired := eff.wired h
  refine ⟨wired, fun _ _ _ hp ht => attached_of_wired wired hp ht, ?_, ?_⟩
  · intro p pt t hp ht
    cases eff with
    | refused _ inert =>
      rcases inert p pt hp with hp | ⟨hnone, _⟩
      · exact Or.inr ⟨pt, hp, ht⟩
      · rw [hnone] at ht
        cases ht
    | created _ _ _ _ eff _ =>
      rcases eff.platform_cases hp with ⟨hgranted, _⟩ | hp
      · exact Or.inl (StartOutcome.linked_of_granted hgranted).2
      · exact Or.inr ⟨pt, hp, ht⟩
  · intro t e p he _
    cases eff with
    | refused _ _ => exact Or.inl he
    | @created fn c _ _ _ _ _ _ fresh eff _ =>
      exact Or.inl (timer?_kept (r := afterCreate r c fn) ⟨fresh.item, fresh.timer⟩ eff he)

theorem cleaned_kept {t c : Nat} {d : CallbackData} {e : TimerData} (h : Wired r)
    (ht : r.timer? t = some e) (hec : e.callback = some c) (hc : r.callback? c = some d)
    (hdt : d.userData = some t) (eff : CleanupEffect r r' t c d e) :
    Wired r' ∧ TimersKept none r r' := by
  have wired := h.cleaned ht hec hc hdt eff
  refine ⟨wired, fun _ _ _ hp ht => attached_of_wired wired hp ht, ?_, ?_⟩
  · intro p pt s hp hs
    rw [eff.platform] at hp
    split at hp
    · cases hp
    · exact Or.inr ⟨pt, hp, hs⟩
  · intro s x p hx hxp
    by_cases hst : s = t
    · subst hst
      rw [ht] at hx
      cases hx
      exact Or.inr ((eff.platform p).trans (if_pos hxp))
    · exact Or.inl ((eff.timer s).trans ((if_neg hst).trans hx))

theorem loopCall_kept {c : LoopCall Fn} (h : Wired w.registry)
    (hw : loopCall .unix w c = some w') :
    Wired w'.registry ∧ TimersKept (grants c) w.registry w'.registry ∧ w'.context = w.context := by
  cases c with
  | set repeats call =>
    simp only [loopCall] at hw
    split at hw
    · next grant =>
      obtain ⟨r, hr, rfl⟩ := withRegistry_eq_some hw
      rcases set_spec h.linked grant .unix repeats with ⟨_, herr⟩ | ⟨res, r', hok, eff⟩
      · rw [herr] at hr
        cases hr
      · rw [hok] at hr
        cases hr
        obtain ⟨wired, kept⟩ := set_kept h eff
        exact ⟨wired, kept, rfl⟩
    · cases hw
  | clear handle o =>
    obtain ⟨r, hr, rfl⟩ := withRegistry_eq_some hw
    rcases clear_spec h.toPaired .unix o handle with ⟨_, herr⟩ | ⟨d, r', hd, hok, eff⟩
    · rw [herr] at hr
      cases hr
    · rw [hok] at hr
      cases hr
      cases eff with
      | idle _ => exact ⟨h, TimersKept.refl h none, rfl⟩
      | refused hp => cases hp
      | stopped hp _ => cases hp
      | cleaned hdt ht hec eff =>
        obtain ⟨wired, kept⟩ := cleaned_kept h ht hec hd hdt eff
        exact ⟨wired, kept, rfl⟩
  | complete o copy =>
    obtain ⟨r, hr, rfl⟩ := withRegistry_eq_some hw
    rcases complete_spec h.toPaired .unix o copy with ⟨t, _, _, herr⟩ | ⟨r', hok, eff⟩
    · rw [herr] at hr
      cases hr
    · rw [hok] at hr
      cases hr
      cases eff with
      | kept => exact ⟨h, TimersKept.refl h none, rfl⟩
      | cleaned _ ht _ hec hc hdt eff =>
        obtain ⟨wired, kept⟩ := cleaned_kept h ht hec hc hdt eff
        exact ⟨wired, kept, rfl⟩
  | registerModule module block =>
    simp only [loopCall] at hw
    split at hw
    · cases block with
      | none => cases hw
      | some entry =>
        cases hw
        exact ⟨h, TimersKept.refl h none, rfl⟩
    · cases hw
  | loadModule module initialised block =>
    simp only [loopCall] at hw
    split at hw
    · rcases loadModule_cases hw with rfl | ⟨entry, p, _, rfl⟩
      · exact ⟨h, TimersKept.refl h none, rfl⟩
      · exact ⟨h, TimersKept.refl h none, rfl⟩
    · cases hw

/-- One round of `eventloop_platform_timers_cleanup`. -/
theorem releaseTimer_kept {p : Nat} {next : Option Nat} {timers : Heap TimerItem}
    {platformTimers : Heap PlatformTimer}
    (attached : ∀ q pt t, r.platformTimers.get? q = some pt → pt.item = some t →
      ∃ e, r.timer? t = some e ∧ e.timer = some q)
    (hr : releaseTimer .unix (fun _ => true) p (r.timers, r.platformTimers) =
      .ok (next, timers, platformTimers)) :
    TimersKept none r { r with timers := timers, platformTimers := platformTimers } := by
  unfold releaseTimer at hr
  split at hr
  · cases hr
  · next item hitem =>
    cases hr
    have timer : ∀ t, ({ r with timers := r.timers.free p } : Registry Fn).timer? t =
        if t = p then none else r.timer? t := by
      intro t
      unfold Registry.timer?
      rw [Heap.get?_free]
      split <;> rfl
    have platform : ∀ q, (deleteTimer .unix (fun _ => true) item.timer r.platformTimers).get? q =
        if item.timer = some q then none else r.platformTimers.get? q := by
      intro q
      cases hhandle : item.timer with
      | none => rfl
      | some handle =>
        change (r.platformTimers.free handle).get? q = _
        rw [Heap.get?_free]
        by_cases hq : q = handle
        · simp [hq]
        · simp [hq, Ne.symm hq]
    have hp : r.timer? p = some item.data := by
      unfold Registry.timer?
      rw [hitem]
      rfl
    have away : ∀ q pt t, (deleteTimer .unix (fun _ => true) item.timer r.platformTimers).get? q =
        some pt → pt.item = some t → r.platformTimers.get? q = some pt ∧
          ∃ e, r.timer? t = some e ∧ e.timer = some q ∧ t ≠ p := by
      intro q pt t hq ht
      rw [platform] at hq
      split at hq
      · cases hq
      · next hne =>
        obtain ⟨e, he, heq⟩ := attached q pt t hq ht
        refine ⟨hq, e, he, heq, ?_⟩
        rintro rfl
        rw [hp] at he
        cases he
        exact hne heq
    refine ⟨?_, ?_, ?_⟩
    · intro q pt t hq ht
      obtain ⟨_, e, he, heq, hne⟩ := away q pt t hq ht
      exact ⟨e, (timer t).trans ((if_neg hne).trans he), heq⟩
    · intro q pt t hq ht
      exact Or.inr ⟨pt, (away q pt t hq ht).1, ht⟩
    · intro t e q he heq
      by_cases hne : t = p
      · subst hne
        rw [hp] at he
        cases he
        exact Or.inr ((platform q).trans (if_pos heq))
      · exact Or.inl ((timer t).trans ((if_neg hne).trans he))

end Calls

/-! ## Where the events and the threads are from -/

/-- Threads of timers belong to this generation and their items, queued events to this heap. -/
structure Attributed (s : State Fn) : Prop where
  platform : ∀ p pt t, s.world.registry.platformTimers.get? p = some pt → pt.item = some t →
    s.startedIn p = s.generation ∧ ∃ e, s.world.registry.timer? t = some e ∧ e.timer = some p
  woken : ∀ u ∈ s.woken, s.startedIn u.handle = s.generation ∧
    ∃ e, s.world.registry.timer? u.item = some e ∧ e.timer = some u.handle
  queue : ∀ q, s.queue = some q → ∀ item ∈ q.items,
    item.origin.heap = s.world.context ∧ item.origin.startedIn = s.generation

/-- The thread and the kill, and what they keep of the world. -/
inductive Stage (s : State Fn) : Prop
  | idle (thread : s.thread = none) (kill : s.kill = .idle) (queue : s.queue = none)
      (world : Cleared s.world)
  | created (thread : s.thread = some .created) (kill : s.kill = .idle) (queue : s.queue = none)
      (called : s.started = true ∧ s.err = false) (world : Cleared s.world)
  | entered (thread : s.thread = some .entered ∨ s.thread = some .cleared)
      (kill : ∀ ptr, s.kill ≠ .cleaning ptr) (called : s.started = true ∧ s.err = false)
      (queue : ∀ q, s.queue = some q → q.items = []) (world : Cleared s.world)
      (first : s.world.registry.timerFirst = none) (last : s.world.registry.timerLast = none)
  | running {pc : Pc} (thread : s.thread = some pc) (heap : pc.hasHeap = true)
      (kill : ∀ ptr, s.kill ≠ .cleaning ptr) (called : s.started = true ∧ s.err = false)
      (context : s.world.context ≠ none) (wired : Wired s.world.registry)
      (modules : ListsModules s.world)
  | cleaning {ptr : Option Nat} (thread : s.thread = none) (kill : s.kill = .cleaning ptr)
      (called : s.started = true ∧ s.err = false)
      (timers : Lists TimerItem.next s.world.registry.timers ptr)
      (callbacks : Lists Callback.next s.world.registry.callbacks
        s.world.registry.callbackListFirst)
      (modules : ListsModules s.world)

structure Sound (s : State Fn) : Prop where
  stage : Stage s
  attributed : Attributed s

theorem initial_sound : Sound (initial : State Fn) :=
  ⟨.idle rfl rfl rfl ⟨rfl, rfl, rfl, rfl, rfl, rfl, rfl⟩, nofun, nofun, nofun⟩

section Steps
variable {s t : State Fn} {o : Output} {w : World Fn}

theorem no_timers {r : Registry Fn} (h : r.timers.live = []) (t : Nat) : r.timer? t = none := by
  unfold Registry.timer?
  rw [Chain.get?_of_live]
  · rfl
  · rw [h]
    exact List.not_mem_nil

/-- Where no item is left, no thread of a timer is left. -/
theorem Attributed.without_timers (h : Attributed s)
    (timers : s.world.registry.timers.live = [])
    (platform : t.world.registry.platformTimers = s.world.registry.platformTimers)
    (woken : t.woken ⊆ s.woken) (queue : ∀ q, t.queue = some q → q.items = []) :
    Attributed t := by
  refine ⟨?_, ?_, ?_⟩
  · intro p pt x hp hx
    rw [platform] at hp
    obtain ⟨_, e, he, _⟩ := h.platform p pt x hp hx
    rw [no_timers timers] at he
    cases he
  · intro u hu
    obtain ⟨_, e, he, _⟩ := h.woken u (woken hu)
    rw [no_timers timers] at he
    cases he
  · intro q hq item hitem
    rw [queue q hq] at hitem
    cases hitem

theorem Attributed.withWorld {granted : Option Nat} (h : Attributed s)
    (kept : TimersKept granted s.world.registry w.registry)
    (context : w.context = s.world.context) {startedIn : Nat → Nat}
    (started : ∀ p, startedIn p = s.generation ∨ granted ≠ some p ∧ startedIn p = s.startedIn p) :
    Attributed (withWorld { s with startedIn := startedIn } w) := by
  have current : ∀ p, s.startedIn p = s.generation → startedIn p = s.generation := by
    intro p hp
    rcases started p with hnow | ⟨_, hold⟩
    · exact hnow
    · exact hold.trans hp
  refine ⟨?_, ?_, ?_⟩
  · intro p pt x hp hx
    refine ⟨?_, kept.attached p pt x hp hx⟩
    rcases kept.origin p pt x hp hx with hgranted | ⟨old, hold, hitem⟩
    · rcases started p with hnow | ⟨hnot, _⟩
      · exact hnow
      · exact absurd hgranted hnot
    · exact current p (h.platform p old x hold hitem).1
  · intro u hu
    obtain ⟨hu, hlive⟩ := List.mem_filter.mp hu
    obtain ⟨hnow, e, he, hhandle⟩ := h.woken u hu
    refine ⟨current u.handle hnow, e, ?_, hhandle⟩
    rcases kept.timer u.item e u.handle he hhandle with hkept | hgone
    · exact hkept
    · rw [hgone] at hlive
      cases hlive
  · intro q hq item hitem
    obtain ⟨hheap, hnow⟩ := h.queue q hq item hitem
    exact ⟨hheap.trans context.symm, hnow⟩

/-! ## Steps of the two calls -/

theorem start_sound {ok : Bool} (h : Sound s) (hstep : start ok s = some (t, o)) : Sound t := by
  simp only [start, Option.ite_none_left_eq_some] at hstep
  obtain ⟨hstarted, hstep⟩ := hstep
  cases hstep
  cases h.stage with
  | idle thread kill queue world =>
    refine ⟨?_, h.attributed.without_timers world.timers rfl (List.Subset.refl _) ?_⟩
    · cases ok with
      | false => exact .idle thread kill queue world
      | true => exact .created rfl kill queue ⟨rfl, rfl⟩ world
    · intro q hq
      rw [queue] at hq
      cases hq
  | created _ _ _ called _ => exact absurd called.1 hstarted
  | entered _ _ called _ _ _ _ => exact absurd called.1 hstarted
  | running _ _ _ called _ _ _ => exact absurd called.1 hstarted
  | cleaning _ _ called _ _ _ => exact absurd called.1 hstarted

theorem killBegins_sound (h : Sound s) (hstep : killBegins s = some (t, o)) : Sound t := by
  simp only [killBegins, Option.ite_none_right_eq_some] at hstep
  obtain ⟨⟨_, hidle⟩, hstep⟩ := hstep
  split at hstep
  · next herr =>
    cases hstep
    cases h.stage with
    | idle thread kill _ world =>
      exact ⟨.idle thread kill rfl world,
        h.attributed.without_timers world.timers rfl (List.Subset.refl _) (by rintro _ ⟨⟩)⟩
    | created _ _ _ called _ => cases herr.symm.trans called.2
    | entered _ _ called _ _ _ _ => cases herr.symm.trans called.2
    | running _ _ _ called _ _ _ => cases herr.symm.trans called.2
    | cleaning _ _ called _ _ _ => cases herr.symm.trans called.2
  · split at hstep
    · cases hstep
    · next q hq =>
      cases hstep
      have attributed : Attributed { s with
          queue := some { q with locked := true }, kill := .locked } := by
        refine ⟨h.attributed.platform, h.attributed.woken, ?_⟩
        rintro _ ⟨⟩
        exact h.attributed.queue q hq
      cases h.stage with
      | idle _ _ queue _ => cases queue.symm.trans hq
      | created _ _ queue _ _ => cases queue.symm.trans hq
      | entered thread _ called queue world first last =>
        refine ⟨.entered thread (by simp) called ?_ world first last, attributed⟩
        rintro _ ⟨⟩
        exact queue q hq
      | running thread heap _ called context wired modules =>
        exact ⟨.running thread heap (by simp) called context wired modules, attributed⟩
      | cleaning _ kill _ _ _ _ => cases hidle.symm.trans kill

theorem loopJoined_sound (h : Sound s) (hstep : loopJoined s = some (t, o)) : Sound t := by
  simp only [loopJoined, Option.ite_none_right_eq_some] at hstep
  obtain ⟨hlocked, hstep⟩ := hstep
  cases hstep
  refine ⟨?_, h.attributed.platform, h.attributed.woken, h.attributed.queue⟩
  cases h.stage with
  | idle _ kill _ _ => cases hlocked.symm.trans kill
  | created _ kill _ _ _ => cases hlocked.symm.trans kill
  | entered _ _ called _ world first _ =>
    have releasable := world.releasable first
    exact .cleaning rfl rfl called releasable.timers releasable.callbacks releasable.modules
  | running _ _ _ called _ wired modules =>
    exact .cleaning rfl rfl called wired.linked.lists_timers wired.linked.lists_callbacks modules
  | cleaning _ kill _ _ _ _ => cases hlocked.symm.trans kill

theorem timerJoined_sound (h : Sound s) (hstep : timerJoined s = some (t, o)) : Sound t := by
  unfold timerJoined at hstep
  split at hstep
  · next p hkill =>
    split at hstep
    · cases hstep
    · next next timers platformTimers hrelease =>
      cases hstep
      have kept := releaseTimer_kept (fun q pt x hq hx => (h.attributed.platform q pt x hq hx).2)
        hrelease
      have attributed := h.attributed.withWorld (w := { s.world with registry := { s.world.registry
        with timers := timers, platformTimers := platformTimers } }) kept rfl
        fun q => Or.inr ⟨nofun, rfl⟩
      refine ⟨?_, attributed.platform, attributed.woken, attributed.queue⟩
      cases h.stage with
      | idle _ kill _ _ => cases hkill.symm.trans kill
      | created _ kill _ _ _ => cases hkill.symm.trans kill
      | entered _ kill _ _ _ _ _ => exact absurd hkill (kill _)
      | running _ _ kill _ _ _ _ => exact absurd hkill (kill _)
      | cleaning thread kill called lists callbacks modules =>
        obtain rfl : some p = _ := Kill.cleaning.inj (hkill.symm.trans kill)
        refine .cleaning thread rfl called ?_ callbacks modules
        obtain ⟨xs, hleads, hnodup, hall⟩ := lists
        cases xs with
        | nil => cases hleads
        | cons x xs =>
          obtain ⟨⟨⟩, item, hitem, hrest⟩ := hleads
          obtain ⟨hx, hnodup⟩ := List.nodup_cons.mp hnodup
          unfold releaseTimer at hrelease
          rw [hitem] at hrelease
          cases hrelease
          refine ⟨xs, hrest.free hx, hnodup, fun y hy => ?_⟩
          rw [withWorld, Heap.live_free] at hy
          obtain ⟨hy, hne⟩ := List.mem_filter.mp hy
          rcases List.mem_cons.mp (hall y hy) with rfl | hy
          · simp at hne
          · exact hy
  · cases hstep

theorem killEnds_sound {f : Finalizers Fn} (h : Sound s)
    (quiet : s.world.context = none ∨ f.Silent) (hstep : killEnds f s = some (t, o)) :
    Sound t := by
  unfold killEnds at hstep
  split at hstep
  · next hkill =>
    split at hstep
    · cases hstep
    · next w hw =>
      cases hstep
      cases h.stage with
      | idle _ kill _ _ => cases hkill.symm.trans kill
      | created _ kill _ _ _ => cases hkill.symm.trans kill
      | entered _ kill _ _ _ _ _ => exact absurd hkill (kill _)
      | running _ _ kill _ _ _ _ => exact absurd hkill (kill _)
      | cleaning thread kill called lists callbacks modules =>
        obtain rfl : none = _ := Kill.cleaning.inj (hkill.symm.trans kill)
        have timers : s.world.registry.timers.live = [] := by
          obtain ⟨xs, hleads, _, hall⟩ := lists
          cases xs with
          | nil => exact List.eq_nil_iff_forall_not_mem.mpr fun x hx => nomatch hall x hx
          | cons x xs => cases hleads.1
        obtain ⟨w', hw', cleared, _, _, platform⟩ := clearRest_spec .unix quiet timers callbacks
          modules
        cases hw.symm.trans hw'
        exact ⟨.idle thread rfl rfl cleared,
          h.attributed.without_timers timers platform (fun u hu => (List.mem_filter.mp hu).1)
            nofun⟩
  · cases hstep

/-! ## Steps of the loop thread -/

theorem entersTask_sound {allocated : Bool} (h : Sound s)
    (hstep : entersTask allocated s = some (t, o)) : Sound t := by
  simp only [entersTask, Option.ite_none_right_eq_some] at hstep
  obtain ⟨⟨hthread, hidle⟩, hstep⟩ := hstep
  cases hstep
  cases h.stage with
  | idle thread _ _ _ => cases hthread.symm.trans thread
  | created _ _ _ called world =>
    have empty : ∀ q, (if allocated = true then some (⟨[], false⟩ : Queue) else none) = some q →
        q.items = [] := by
      intro q hq
      cases allocated with
      | false => cases hq
      | true =>
        cases hq
        rfl
    refine ⟨.entered (Or.inl rfl) ?_ called empty ⟨world.timers, world.callbacks, world.modules,
      world.callbackListFirst, world.loadedModules, world.registeredModules, world.context⟩
      rfl rfl, ?_⟩
    · intro ptr hptr
      cases hidle.symm.trans hptr
    · exact h.attributed.without_timers world.timers rfl (List.Subset.refl _) empty
  | entered thread _ _ _ _ _ _ => rcases thread with thread | thread <;> cases hthread.symm.trans thread
  | running thread heap _ _ _ _ _ =>
    cases hthread.symm.trans thread
    cases heap
  | cleaning thread _ _ _ _ _ => cases hthread.symm.trans thread

theorem Stage.of_entered (h : Stage s) (hthread : s.thread = some .entered ∨ s.thread = some .cleared) :
    (∀ ptr, s.kill ≠ .cleaning ptr) ∧ (s.started = true ∧ s.err = false) ∧
      (∀ q, s.queue = some q → q.items = []) ∧ Cleared s.world ∧
      s.world.registry.timerFirst = none ∧ s.world.registry.timerLast = none := by
  cases h with
  | idle thread _ _ _ => rcases hthread with h | h <;> cases h.symm.trans thread
  | created thread _ _ _ _ => rcases hthread with h | h <;> cases h.symm.trans thread
  | entered _ kill called queue world first last => exact ⟨kill, called, queue, world, first, last⟩
  | running thread heap _ _ _ _ _ =>
    rcases hthread with h | h
    · cases h.symm.trans thread
      cases heap
    · cases h.symm.trans thread
      cases heap
  | cleaning thread _ _ _ _ _ => rcases hthread with h | h <;> cases h.symm.trans thread

theorem Stage.of_heap {pc : Pc} (h : Stage s) (hthread : s.thread = some pc)
    (hheap : pc.hasHeap = true) :
    (∀ ptr, s.kill ≠ .cleaning ptr) ∧ (s.started = true ∧ s.err = false) ∧
      s.world.context ≠ none ∧ Wired s.world.registry ∧ ListsModules s.world := by
  cases h with
  | idle thread _ _ _ => cases hthread.symm.trans thread
  | created thread _ _ _ _ =>
    cases hthread.symm.trans thread
    cases hheap
  | entered thread _ _ _ _ _ _ =>
    rcases thread with thread | thread
    · cases hthread.symm.trans thread
      cases hheap
    · cases hthread.symm.trans thread
      cases hheap
  | running _ _ kill called context wired modules => exact ⟨kill, called, context, wired, modules⟩
  | cleaning thread _ _ _ _ _ => cases hthread.symm.trans thread

theorem clears_sound (h : Sound s) (hstep : clears s = some (t, o)) : Sound t := by
  simp only [clears, Option.ite_none_right_eq_some] at hstep
  obtain ⟨hthread, hstep⟩ := hstep
  obtain ⟨kill, called, queue, world, first, last⟩ := h.stage.of_entered (Or.inl hthread)
  have releasable := world.releasable first
  obtain ⟨w, hw, cleared, hfirst, hlast, platform⟩ :=
    clearRest_spec .unix (Or.inl world.context) world.timers releasable.callbacks
      releasable.modules
  -- the list of timers is empty, so that nothing is joined
  have hclear : clearEventloop .unix (fun _ => true) .none s.world = .ok w := by
    unfold clearEventloop
    rw [timersCleanup_none first]
    exact hw
  rw [hclear] at hstep
  cases hstep
  exact ⟨.entered (Or.inr rfl) kill called queue cleared (hfirst.trans first) (hlast.trans last),
    h.attributed.without_timers world.timers platform
      (fun u hu => (List.mem_filter.mp hu).1) queue⟩

theorem wired_of_cleared (world : Cleared w) (first : w.registry.timerFirst = none)
    (last : w.registry.timerLast = none)
    (attached : ∀ p pt x, w.registry.platformTimers.get? p = some pt → pt.item = some x →
      ∃ e, w.registry.timer? x = some e) : Wired w.registry := by
  refine ⟨(ready_of_cleared world first last).paired, ?_, ?_⟩
  · intro c d x e _ _ hx
    rw [no_timers world.timers] at hx
    cases hx
  · intro p pt x hp hx
    obtain ⟨e, he⟩ := attached p pt x hp hx
    rw [no_timers world.timers] at he
    cases he

theorem createsHeap_sound (h : Sound s) (hstep : createsHeap s = some (t, o)) : Sound t := by
  simp only [createsHeap, Option.ite_none_right_eq_some] at hstep
  obtain ⟨hthread, hstep⟩ := hstep
  cases hstep
  obtain ⟨kill, called, queue, world, first, last⟩ := h.stage.of_entered (Or.inr hthread)
  have wired := wired_of_cleared world first last fun p pt x hp hx => by
    obtain ⟨_, e, he, _⟩ := h.attributed.platform p pt x hp hx
    exact ⟨e, he⟩
  exact ⟨.running rfl rfl kill called (by rintro ⟨⟩) wired (world.releasable first).modules,
    h.attributed.without_timers world.timers rfl (List.Subset.refl _) queue⟩

theorem started_by (c : LoopCall Fn) (s : State Fn) (p : Nat) :
    startedBy c s p = s.generation ∨ grants c ≠ some p ∧ startedBy c s p = s.startedIn p := by
  unfold startedBy
  cases grants c with
  | none => exact Or.inr ⟨nofun, rfl⟩
  | some q =>
    by_cases hq : p = q
    · subst hq
      exact Or.inl (Function.update_self _ _ _)
    · refine Or.inr ⟨?_, Function.update_of_ne hq _ _⟩
      rintro ⟨⟩
      exact hq rfl

/-- A native call, or a completion, and the thread goes on to `next`. -/
theorem performs_sound {c : LoopCall Fn} {pc next : Pc} (h : Sound s)
    (hthread : s.thread = some pc) (hheap : pc.hasHeap = true) (hnext : next.hasHeap = true)
    (hp : performs s c = some t) : Sound { t with thread := some next } := by
  obtain ⟨w, hw, rfl⟩ := performs_cases hp
  obtain ⟨kill, called, context, wired, modules⟩ := h.stage.of_heap hthread hheap
  obtain ⟨wired', kept, hcontext⟩ := loopCall_kept wired hw
  have ready := Ready.loopCall ⟨wired.toPaired, modules⟩ hw
  have attributed := h.attributed.withWorld kept hcontext (started_by c s)
  refine ⟨.running rfl hnext kill called ?_ wired' ready.modules,
    attributed.platform, attributed.woken, attributed.queue⟩
  rw [withWorld, hcontext]
  exact context

theorem calls_sound {c : LoopCall Fn} (h : Sound s) (hstep : calls c s = some (t, o)) :
    Sound t := by
  simp only [calls, Option.ite_none_right_eq_some] at hstep
  obtain ⟨⟨hthread, _⟩, hstep⟩ := hstep
  obtain ⟨u, hu, heq⟩ := Option.map_eq_some_iff.mp hstep
  cases heq
  have same : ∀ pc, s.thread = some pc → { t with thread := some pc } = t := by
    intro pc hpc
    obtain ⟨w, _, rfl⟩ := performs_cases hu
    rw [← hpc]
    rfl
  rcases hthread with hthread | hthread
  · rw [← same _ hthread]
    exact performs_sound h hthread rfl rfl hu
  · rw [← same _ hthread]
    exact performs_sound h hthread rfl rfl hu

theorem Sound.moves {pc next : Pc} (h : Sound s) (hthread : s.thread = some pc)
    (hheap : pc.hasHeap = true) (hnext : next.hasHeap = true) :
    Sound { s with thread := some next } := by
  obtain ⟨kill, called, context, wired, modules⟩ := h.stage.of_heap hthread hheap
  exact ⟨.running rfl hnext kill called context wired modules, h.attributed.platform,
    h.attributed.woken, h.attributed.queue⟩

theorem completes_sound {stop : StopOutcome} (h : Sound s)
    (hstep : completes stop s = some (t, o)) : Sound t := by
  simp only [completes, Option.ite_none_right_eq_some] at hstep
  obtain ⟨hthread, hstep⟩ := hstep
  split at hstep
  · cases hstep
    exact h.moves hthread rfl rfl
  · obtain ⟨u, hu, heq⟩ := Option.map_eq_some_iff.mp hstep
    cases heq
    exact performs_sound h hthread rfl rfl hu

theorem dispatch_local (answer : Option Item) {context : Option Nat} (hcontext : context ≠ none)
    (same : s.world.context = context)
    (removed : ∀ item ∈ answer, s.received.origin = some item.origin ∧
      item.origin.heap = context ∧ item.origin.startedIn = s.generation)
    (recent : answer = none → Recent s) :
    ∀ round, (dispatch answer s).2 = .iterates round → Local round := by
  rintro _ ⟨⟩
  rw [same]
  cases answer with
  | none =>
    have hrecent := recent rfl
    unfold Recent at hrecent
    rw [same] at hrecent
    exact ⟨nofun, fun _ => hrecent⟩
  | some item =>
    obtain ⟨horigin, hheap, hnow⟩ := removed item rfl
    refine ⟨fun _ => ⟨item.origin, horigin, hcontext, hheap, hnow⟩, fun _ origin hmem => ?_⟩
    rw [horigin] at hmem
    cases hmem
    exact ⟨hheap, hnow⟩

theorem receives_sound {ok : Bool} (h : Sound s) (hstep : receives ok s = some (t, o)) :
    Sound t ∧ (Renewed s (.receives ok) → ∀ round, o = .iterates round → Local round) := by
  simp only [receives, Option.ite_none_right_eq_some] at hstep
  obtain ⟨hthread, hstep⟩ := hstep
  obtain ⟨kill, called, context, wired, modules⟩ := h.stage.of_heap hthread rfl
  obtain ⟨⟨answer, u⟩, hanswer, heq⟩ := Option.map_eq_some_iff.mp hstep
  obtain rfl : (dispatch answer u).1 = t := congrArg Prod.fst heq
  obtain rfl : (dispatch answer u).2 = o := congrArg Prod.snd heq
  have next : ∀ v : State Fn,
      (if selects v then Pc.dispatching else Pc.completing).hasHeap = true := by
    intro v
    split <;> rfl
  rcases queueReceive_cases hanswer with ⟨rfl, rfl, hfails⟩ | ⟨item, rest, hq, rfl, rfl⟩
  · refine ⟨h.moves hthread rfl (next u), fun hrenewed => ?_⟩
    apply dispatch_local none context rfl nofun
    intro _
    rcases hrenewed with ⟨hok, hservice⟩ | hrecent
    · rcases hfails with hfails | hfails
      · cases hok.symm.trans hfails
      · cases hservice.symm.trans hfails
    · exact hrecent
  · have hitem := h.attributed.queue _ hq item List.mem_cons_self
    refine ⟨⟨.running rfl (next _) kill called context wired modules, h.attributed.platform,
      h.attributed.woken, ?_⟩, fun _ => ?_⟩
    · rintro _ ⟨⟩ x hx
      exact h.attributed.queue _ hq x (List.mem_cons_of_mem _ hx)
    · refine dispatch_local (some item) context ?_ ?_ nofun
      · rfl
      · rintro _ ⟨⟩
        exact ⟨rfl, hitem⟩

/-! ## Steps of the timer threads -/

/-- Where an item is left, a program runs or a kill is under way. -/
theorem Stage.of_timer {x : Nat} {e : TimerData} (h : Stage s)
    (hx : s.world.registry.timer? x = some e) :
    (∃ pc, s.thread = some pc ∧ pc.hasHeap = true ∧ (∀ ptr, s.kill ≠ .cleaning ptr) ∧
      (s.started = true ∧ s.err = false) ∧ s.world.context ≠ none ∧ Wired s.world.registry ∧
        ListsModules s.world) ∨
    ∃ ptr, s.thread = none ∧ s.kill = .cleaning ptr ∧ (s.started = true ∧ s.err = false) ∧
      Lists TimerItem.next s.world.registry.timers ptr ∧
      Lists Callback.next s.world.registry.callbacks s.world.registry.callbackListFirst ∧
        ListsModules s.world := by
  have none_left : s.world.registry.timers.live ≠ [] := by
    intro hnone
    rw [no_timers hnone] at hx
    cases hx
  cases h with
  | idle _ _ _ world => exact absurd world.timers none_left
  | created _ _ _ _ world => exact absurd world.timers none_left
  | entered _ _ _ _ world _ _ => exact absurd world.timers none_left
  | running thread heap kill called context wired modules =>
    exact Or.inl ⟨_, thread, heap, kill, called, context, wired, modules⟩
  | cleaning thread kill called timers callbacks modules =>
    exact Or.inr ⟨_, thread, kill, called, timers, callbacks, modules⟩

theorem wakes_sound {handle : Nat} (h : Sound s) (hstep : wakes handle s = some (t, o)) :
    Sound t := by
  unfold wakes at hstep
  split at hstep
  · next item repeats timeout hp =>
    simp only [Option.ite_none_right_eq_some] at hstep
    obtain ⟨_, hstep⟩ := hstep
    obtain ⟨hnow, e, he, hhandle⟩ := h.attributed.platform handle _ item hp rfl
    split at hstep
    · cases hstep
    · cases hstep
      refine ⟨?_, ?_, ?_, h.attributed.queue⟩
      · rcases h.stage.of_timer he with ⟨pc, thread, heap, kill, called, context, wired, modules⟩ |
          ⟨ptr, thread, kill, called, timers, callbacks, modules⟩
        · exact .running thread heap kill called context
            (wired.setActive handle PlatformTimer.repeats) modules
        · exact .cleaning thread kill called timers callbacks modules
      · intro p pt x hq hx
        rcases modify_platform hq with ⟨_, hq⟩ | ⟨_, old, hold, rfl⟩
        · exact h.attributed.platform p pt x hq hx
        · exact h.attributed.platform p old x hold hx
      · intro u hu
        rcases List.mem_cons.mp hu with rfl | hu
        · exact ⟨hnow, e, he, hhandle⟩
        · exact h.attributed.woken u hu
  · cases hstep

theorem sends_sound {u : Sender} {ok : Bool} (h : Sound s)
    (hstep : sends u ok s = some (t, o)) : Sound t := by
  simp only [sends, Option.ite_none_right_eq_some] at hstep
  obtain ⟨hwoken, hstep⟩ := hstep
  obtain ⟨hnow, e, he, _⟩ := h.attributed.woken u hwoken
  have rest : ∀ v ∈ s.woken.erase u, v ∈ s.woken := fun v hv => List.mem_of_mem_erase hv
  have woken := fun v hv => h.attributed.woken v (rest v hv)
  rcases queueSend_cases hstep with ⟨rfl, _⟩ | ⟨items, copy, hq, _, rfl⟩
  · refine ⟨?_, h.attributed.platform, woken, h.attributed.queue⟩
    rcases h.stage.of_timer he with ⟨pc, thread, heap, kill, called, context, wired, modules⟩ |
      ⟨ptr, thread, kill, called, timers, callbacks, modules⟩
    · exact .running thread heap kill called context wired modules
    · exact .cleaning thread kill called timers callbacks modules
  · refine ⟨?_, h.attributed.platform, woken, ?_⟩
    · rcases h.stage.of_timer he with ⟨pc, thread, heap, kill, called, context, wired, modules⟩ |
        ⟨ptr, thread, kill, called, timers, callbacks, modules⟩
      · exact .running thread heap kill called context wired modules
      · exact .cleaning thread kill called timers callbacks modules
    · rintro _ ⟨⟩ item hitem
      rcases List.mem_append.mp hitem with hold | hnew
      · exact h.attributed.queue _ hq item hold
      · rw [List.mem_singleton.mp hnew]
        exact ⟨rfl, hnow⟩

/-- Only a receive ends in a round of the loop. -/
theorem iterates_of_receives {a : Action Fn} {round : Iteration}
    (hstep : step s a = some (t, .iterates round)) : ∃ ok, a = .receives ok := by
  cases a with
  | receives ok => exact ⟨ok, rfl⟩
  | start ok => simp [step, start] at hstep
  | killBegins =>
    simp only [step, killBegins] at hstep
    split at hstep
    · split at hstep
      · cases hstep
      · split at hstep <;> cases hstep
    · cases hstep
  | loopJoined => simp [step, loopJoined] at hstep
  | timerJoined =>
    simp only [step, timerJoined] at hstep
    split at hstep
    · split at hstep <;> cases hstep
    · cases hstep
  | killEnds f =>
    simp only [step, killEnds] at hstep
    split at hstep
    · split at hstep <;> cases hstep
    · cases hstep
  | entersTask allocated => simp [step, entersTask] at hstep
  | clears =>
    simp only [step, clears] at hstep
    split at hstep
    · split at hstep <;> cases hstep
    · cases hstep
  | createsHeap => simp [step, createsHeap] at hstep
  | calls c => simp [step, calls] at hstep
  | scriptEnds => simp [step, scriptEnds] at hstep
  | wakes handle =>
    simp only [step, wakes] at hstep
    split at hstep
    · split at hstep
      · split at hstep <;> cases hstep
      · cases hstep
    · cases hstep
  | sends u ok =>
    simp only [step, sends, Option.ite_none_right_eq_some] at hstep
    rcases queueSend_cases hstep.2 with ⟨_, ho⟩ | ⟨_, _, _, ho, _⟩ <;> cases ho
  | callbackReturns => simp [step, callbackReturns] at hstep
  | completes o =>
    simp only [step, completes] at hstep
    split at hstep
    · split at hstep
      · cases hstep
      · simp at hstep
    · cases hstep

theorem step_sound {a : Action Fn} (h : Sound s) (hrenewed : Renewed s a)
    (hstep : step s a = some (t, o)) : Sound t := by
  cases a with
  | start ok => exact start_sound h hstep
  | killBegins => exact killBegins_sound h hstep
  | loopJoined => exact loopJoined_sound h hstep
  | timerJoined => exact timerJoined_sound h hstep
  | killEnds f => exact killEnds_sound h hrenewed hstep
  | entersTask allocated => exact entersTask_sound h hstep
  | clears => exact clears_sound h hstep
  | createsHeap => exact createsHeap_sound h hstep
  | calls c => exact calls_sound h hstep
  | scriptEnds =>
    simp only [step, scriptEnds, Option.ite_none_right_eq_some] at hstep
    obtain ⟨hthread, hstep⟩ := hstep
    cases hstep
    exact h.moves hthread rfl rfl
  | wakes handle => exact wakes_sound h hstep
  | sends u ok => exact sends_sound h hstep
  | receives ok => exact (receives_sound h hstep).1
  | callbackReturns =>
    simp only [step, callbackReturns, Option.ite_none_right_eq_some] at hstep
    obtain ⟨hthread, hstep⟩ := hstep
    cases hstep
    exact h.moves hthread rfl rfl
  | completes o => exact completes_sound h hstep

theorem step_local {a : Action Fn} {round : Iteration} (h : Sound s) (hrenewed : Renewed s a)
    (hstep : step s a = some (t, .iterates round)) : Local round := by
  obtain ⟨ok, rfl⟩ := iterates_of_receives hstep
  exact (receives_sound h hstep).2 hrenewed round rfl

end Steps

/-- What is received was pushed under the present heap; and as long as no receive fails on an old
record, no id of an earlier generation selects a function. -/
theorem no_event_crosses_restart (actions : List (Action Fn)) {s : State Fn} {outs : List Output}
    (hrenewed : Runs.Along Renewed step initial actions)
    (hrun : Runs.run step initial actions = some (s, outs)) :
    ∀ round, .iterates round ∈ outs → Local round := by
  have whole : Sound s ∧ ∀ round, .iterates round ∈ outs → Local round := by
    apply Runs.run_along (P := fun _ seen s => Sound s ∧ ∀ round, .iterates round ∈ seen →
      Local round) ?_ ⟨initial_sound, by simp⟩ hrenewed hrun
    intro _ seen s a t o hpast hthis hstep
    refine ⟨step_sound hpast.1 hthis hstep, fun round hround => ?_⟩
    rcases List.mem_append.mp hround with hold | hnew
    · exact hpast.2 round hold
    · obtain rfl := List.mem_singleton.mp hnew
      exact step_local hpast.1 hthis hstep
  exact whole.2

def killing : List (Action Nat) := [.killBegins, .loopJoined, .timerJoined, .killEnds .none]

theorem two_generations : ∃ s outs,
    Runs.run step initial
      (intervalProgram 7 ++ (expiry ++ (killing ++ (intervalProgram 8 ++ expiry)))) =
        some (s, outs) ∧ ∀ round, .iterates round ∈ outs → Local round := by
  have hrenewed : Runs.Along Renewed step (initial : State Nat)
      (intervalProgram 7 ++ (expiry ++ (killing ++ (intervalProgram 8 ++ expiry)))) := by
    decide +kernel
  exact ⟨_, _, rfl, no_event_crosses_restart _ hrenewed rfl⟩

/-- A finalizer of the first heap starts an interval when the heap is destroyed, whose thread sends
before the second program clears. -/
def finalizerRun : List (Action Nat) :=
  [.start true, .entersTask true, .clears, .createsHeap, .scriptEnds, .killBegins, .loopJoined,
    .killEnds ⟨[], [.set true ⟨some 7, some 10, some 1, ⟨some 2, some 3, true⟩⟩]⟩, .start true,
    .entersTask true, .wakes 3, .sends ⟨3, 2, some 1, true⟩ true, .clears, .createsHeap,
    .scriptEnds, .receives true]

/-- The id of the first program selects the function of the second, of which no timer has
expired; and a successful receive hands out what a timer of the first generation pushed. -/
theorem old_id_selects :
    (∃ s outs origin, Runs.run step initial
        (intervalProgram 7 ++ (expiry ++ (killing ++ (intervalProgram 8 ++
          [.killBegins, .receives true])))) = some (s, outs) ∧
      .iterates ⟨⟨⟨0, none, none, none, none, some 2⟩, some origin⟩, false, true, some 1, 2⟩ ∈ outs ∧
        ¬ ∀ round, .iterates round ∈ outs → Local round) ∧
    ∃ s outs, Runs.run step initial finalizerRun = some (s, outs) ∧
      ¬ ∀ round, .iterates round ∈ outs → Local round := by
  constructor
  · refine ⟨_, _, ⟨0, some 0, 1⟩, rfl, by decide, ?_⟩
    intro hlocal
    have hround := hlocal ⟨⟨⟨0, none, none, none, none, some 2⟩, some ⟨0, some 0, 1⟩⟩, false, true,
      some 1, 2⟩ (by decide)
    exact absurd (hround.selects rfl _ rfl).2 (by decide)
  · refine ⟨_, _, rfl, ?_⟩
    intro hlocal
    have hround := hlocal ⟨⟨⟨0, none, none, none, none, some 2⟩, some ⟨0, none, 1⟩⟩, true, false,
      some 1, 2⟩ (by decide)
    obtain ⟨origin, horigin, _, _, hnow⟩ := hround.removed rfl
    cases horigin
    cases hnow

end JsEmbeddedPlatform.LoopGenerations
