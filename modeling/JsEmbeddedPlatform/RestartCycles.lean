import JsEmbeddedPlatform.ClearEventloop
import JsEmbeddedPlatform.EventThread

/-!
# Cycles of starting and killing

A kill clears what the killed thread has allocated, and the thread that is started next
clears once more before it creates its heap. The heads of the timer list are set to NULL
by that thread and by nothing else: on unix with the creation of the queue, in one critical
section, on stm32 in a statement of their own.
-/

set_option autoImplicit false

namespace JsEmbeddedPlatform.RestartCycles

open Timers EventThread

variable {Fn : Type}

/-! ## Threads -/

/-- How far a loop thread is: it has not run, has created its queue, has reset the heads of the
timer list, has cleared, or has its heap. -/
inductive Pc where
  | created
  | queueCreated
  | headsReset
  | cleared
  | running
deriving DecidableEq, Repr

/-- `inside` is the thread that is in a native call. -/
structure State (Fn : Type) where
  threads : Threads
  pc : Nat → Pc
  world : World Fn
  inside : Option Nat
  crashed : Bool

/-- `deletes` answers the calls of `xTimerDelete` in a clean-up. A thread `enters` a native call and
later `calls` it, which is the whole of it. -/
inductive Action (Fn : Type) where
  | start (ok : Bool)
  | kill (deletes : Nat → Bool) (f : Finalizers Fn)
  | entersTask (t : Nat)
  | resetsHeads (t : Nat)
  | clears (t : Nat) (deletes : Nat → Bool) (f : Finalizers Fn)
  | createsHeap (t : Nat)
  | enters (t : Nat)
  | calls (t : Nat) (c : LoopCall Fn)

/-- `cleared` is one `clear_eventloop` with what it has left allocated, `released` one that comes
to a record that is released already, `interrupted` one after a native call that was left between
two of its statements, where a record may be allocated and not linked, or linked and released. -/
inductive Output where
  | quiet
  | cleared (timers callbacks modules : List Nat)
  | released (r : Released)
  | interrupted
deriving DecidableEq, Repr

def resetHeads (w : World Fn) : World Fn :=
  { w with registry := { w.registry with timerFirst := none, timerLast := none } }

def clear (port : Port) (deletes : Nat → Bool) (f : Finalizers Fn) (s : State Fn) :
    State Fn × Output :=
  match clearEventloop port deletes f s.world with
  | .error r => ({ s with crashed := true }, .released r)
  | .ok w => ({ s with world := w },
      .cleared w.registry.timers.live w.registry.callbacks.live w.modules.live)

def State.advance (t : Nat) (pc : Pc) (s : State Fn) : State Fn :=
  { s with pc := Function.update s.pc t pc }

/-- A thread that is deleted inside a native call is not followed further. -/
def kill (port : Port) (deletes : Nat → Bool) (f : Finalizers Fn) (s : State Fn) :
    Option (State Fn × Output) :=
  match killEventloopThread port s.threads with
  | none => none
  | some threads =>
    match killTarget port s.threads with
    | none => some ({ s with threads := threads }, .quiet)
    | some t =>
      if s.inside = some t then some ({ s with threads := threads, crashed := true }, .interrupted)
      else some (clear port deletes f { s with threads := threads })

def entersTask (port : Port) (t : Nat) (s : State Fn) : Option (State Fn × Output) :=
  match eventloopTask t s.threads with
  | none => none
  | some threads =>
    match port with
    | .unix => some (State.advance t .headsReset
        { s with threads := threads, world := resetHeads s.world }, .quiet)
    | .stm32 => some (State.advance t .queueCreated { s with threads := threads }, .quiet)

def State.At (s : State Fn) (t : Nat) (pc : Pc) : Prop := t ∈ s.threads.live ∧ s.pc t = pc

instance (s : State Fn) (t : Nat) (pc : Pc) : Decidable (s.At t pc) :=
  inferInstanceAs (Decidable (_ ∧ _))

def threadStep (port : Port) (s : State Fn) : Action Fn → Option (State Fn × Output)
  | .start ok => some ({ s with
      threads := startEventloopThread port ok s.threads
      pc := if ok then Function.update s.pc s.threads.nextThread .created else s.pc }, .quiet)
  | .kill deletes f => kill port deletes f s
  | .entersTask t => entersTask port t s
  | .resetsHeads t =>
    if s.At t .queueCreated then
      some (State.advance t .headsReset { s with world := resetHeads s.world }, .quiet)
    else none
  | .clears t deletes f =>
    if s.At t .headsReset then some (clear port deletes f (s.advance t .cleared)) else none
  | .createsHeap t =>
    if s.At t .cleared then
      some (State.advance t .running { s with world := { s.world with context := some t } }, .quiet)
    else none
  | .enters t =>
    if s.At t .running ∧ s.inside = none then some ({ s with inside := some t }, .quiet) else none
  | .calls t c =>
    if s.At t .running ∧ s.inside = some t then
      (loopCall port s.world c).map fun w => ({ s with world := w, inside := none }, .quiet)
    else none

def step (port : Port) (s : State Fn) (a : Action Fn) : Option (State Fn × Output) :=
  if s.crashed then none else threadStep port s a

def initial : State Fn :=
  { threads := EventThread.initial
    pc := fun _ => .created
    world := ⟨Registry.initial, none, Heap.empty, none, none⟩
    inside := none
    crashed := false }

/-- Everything that was allocated has been released, and nothing that was released before. -/
def ReleasesOnce : Output → Prop
  | .quiet => True
  | .cleared timers callbacks modules => timers = [] ∧ callbacks = [] ∧ modules = []
  | .released _ => False
  | .interrupted => False

/-- A thread is started when none lives. It is not killed inside a native call, and the finalizers
of its heap make none. On stm32 it is not killed before it has reset the heads of the timer list,
but while they are NULL. -/
def Orderly (port : Port) (s : State Fn) : Action Fn → Prop
  | .start ok => s.threads.live = [] ∨ port = .stm32 ∧ ok = false
  | .kill _ f => (s.world.context = none ∨ f.Silent) ∧
      ∀ t ∈ killTarget port s.threads, s.inside ≠ some t ∧
        (port = .stm32 → s.world.registry.timerFirst ≠ none →
          s.pc t ≠ .created ∧ s.pc t ≠ .queueCreated)
  | _ => True

instance (port : Port) (s : State Fn) : (a : Action Fn) → Decidable (Orderly port s a)
  | .start _ => inferInstanceAs (Decidable (_ ∨ _ ∧ _))
  | .kill _ _ => inferInstanceAs (Decidable (_ ∧ ∀ t ∈ killTarget port s.threads, _ ∧ _))
  | .entersTask _ => isTrue trivial
  | .resetsHeads _ => isTrue trivial
  | .clears .. => isTrue trivial
  | .createsHeap _ => isTrue trivial
  | .enters _ => isTrue trivial
  | .calls .. => isTrue trivial

/-! ## The world under a running thread -/

/-- What a thread keeps from the creation of its heap on. -/
structure Ready (w : World Fn) : Prop where
  paired : Paired w.registry
  modules : ListsModules w

section World
variable {w w' : World Fn} {port : Port}

theorem Ready.releasable (h : Ready w) : Releasable w :=
  ⟨h.paired.linked.lists_timers, h.paired.linked.lists_callbacks, h.modules⟩

theorem paired_withPlatform {r : Registry Fn} (h : Paired r) (P : Heap PlatformTimer) :
    Paired { r with platformTimers := P } :=
  ⟨⟨h.linked.callbacks, h.linked.timers⟩, h.ofCallback, h.ofTimer⟩

theorem paired_set {r r' : Registry Fn} {repeats : Bool} {call : SetCall Fn} {res : JsResult}
    (h : Paired r) (eff : SetEffect port repeats call r res r') : Paired r' := by
  cases eff with
  | refused _ _ => exact paired_withPlatform h _
  | @created fn p timeout _ _ creates hfn block fresh eff result =>
    have seen := callback?_afterCreate block fn p
    rw [if_pos rfl] at seen
    have granted : call.outcome.Fresh (afterCreate r p fn) := ⟨fresh.item, fresh.timer⟩
    exact (h.create block fn).started seen rfl granted eff

theorem paired_clear {o : StopOutcome} {r r' : Registry Fn} {handle : Nat} {d : CallbackData}
    (h : Paired r) (hd : r.callback? handle = some d) (eff : ClearEffect port o handle d r r') :
    Paired r' := by
  cases eff with
  | idle _ => exact h
  | refused _ _ => exact h
  | stopped _ _ timer => exact paired_withPlatform h _
  | cleaned hdt ht hec eff => exact h.cleaned ht hec hd hdt eff

theorem paired_complete {r r' : Registry Fn} {copy : Callback} (h : Paired r)
    (eff : CompleteEffect copy r r') : Paired r' := by
  cases eff with
  | kept => exact h
  | cleaned _ ht _ hec hc hdt eff => exact h.cleaned ht hec hc hdt eff

theorem Ready.withRegistry {r : Registry Fn} (h : Ready w) (hr : Paired r) :
    Ready { w with registry := r } :=
  ⟨hr, h.modules⟩

theorem ready_of_cleared (h : Cleared w) (hfirst : w.registry.timerFirst = none)
    (hlast : w.registry.timerLast = none) : Ready w := by
  have hcallbacks : w.registry.callbacks = Heap.empty := Chain.eq_empty_of_live h.callbacks
  have htimers : w.registry.timers = Heap.empty := Chain.eq_empty_of_live h.timers
  refine ⟨⟨⟨⟨none, ?_⟩, ?_⟩, ?_, ?_⟩, (h.releasable hfirst).modules⟩
  · unfold Registry.callbackList
    rw [hcallbacks, h.callbackListFirst]
    exact IntrusiveList.Represents.empty
  · unfold Registry.timerList
    rw [htimers, hfirst, hlast]
    exact IntrusiveList.Represents.empty
  · intro c d t hc
    unfold Registry.callback? at hc
    rw [hcallbacks] at hc
    cases hc
  · intro t e ht
    unfold Registry.timer? at ht
    rw [htimers] at ht
    cases ht

theorem Ready.registerModule {module : Nat} {block : Option Nat} (h : Ready w)
    (unused : Unused block w) (hw : eventloopRegisterModule module block w = some w') :
    Ready w' := by
  cases block with
  | none => cases hw
  | some entry =>
    cases hw
    have fresh := unused entry rfl
    obtain ⟨loaded, registered, hloaded, hregistered, hnodup, hall⟩ := h.modules
    have hnew : entry ∉ loaded ++ registered := fun hmem => by
      rcases List.mem_append.mp hmem with hmem | hmem
      · exact fresh (hloaded.live entry hmem)
      · exact fresh (hregistered.live entry hmem)
    refine ⟨h.paired, loaded, entry :: registered, hloaded.alloc fresh _,
      hregistered.push fresh rfl, ?_, ?_⟩
    · exact List.nodup_middle.mpr (List.nodup_cons.mpr ⟨hnew, hnodup⟩)
    · intro x hx
      rw [Heap.live_alloc fresh] at hx
      rcases List.mem_cons.mp hx with rfl | hx
      · exact List.mem_append_right _ List.mem_cons_self
      · rcases List.mem_append.mp (hall x hx) with hmem | hmem
        · exact List.mem_append_left _ hmem
        · exact List.mem_append_right _ (List.mem_cons_of_mem _ hmem)

theorem loadModule_cases {module : Nat} {initialised : Bool} {block : Option Nat}
    (hw : eventloopNativeLoadModule module initialised block w = some w') :
    w' = w ∨ ∃ entry p, block = some entry ∧ w' = { w with
      modules := (w.modules.alloc entry ⟨module, true, w.loadedModules⟩).modify p
        fun e => { e with isLoaded := true }
      loadedModules := some entry } := by
  unfold eventloopNativeLoadModule at hw
  split at hw
  · cases hw
    exact Or.inl rfl
  · split at hw
    · cases hw
      exact Or.inl rfl
    · cases hw
    · cases hw
      exact Or.inl rfl
    · cases hw
    · cases hw
      exact Or.inr ⟨_, _, rfl, rfl⟩

theorem Ready.loadModule {module : Nat} {initialised : Bool} {block : Option Nat} (h : Ready w)
    (unused : Unused block w)
    (hw : eventloopNativeLoadModule module initialised block w = some w') : Ready w' := by
  rcases loadModule_cases hw with rfl | ⟨entry, p, hblock, rfl⟩
  · exact h
  · have fresh := unused entry hblock
    obtain ⟨loaded, registered, hloaded, hregistered, hnodup, hall⟩ := h.modules
    have hnew : entry ∉ loaded ++ registered := fun hmem => by
      rcases List.mem_append.mp hmem with hmem | hmem
      · exact fresh (hloaded.live entry hmem)
      · exact fresh (hregistered.live entry hmem)
    have hmark : ∀ e : ModuleEntry, ({ e with isLoaded := true } : ModuleEntry).next = e.next :=
      fun _ => rfl
    refine ⟨h.paired, entry :: loaded, registered, (hloaded.push fresh rfl).modify p hmark,
      (hregistered.alloc fresh _).modify p hmark, List.nodup_cons.mpr ⟨hnew, hnodup⟩, ?_⟩
    intro x hx
    rw [Heap.live_modify, Heap.live_alloc fresh] at hx
    rcases List.mem_cons.mp hx with rfl | hx
    · exact List.mem_cons_self
    · exact List.mem_cons_of_mem _ (hall x hx)

theorem withRegistry_eq_some {e : Except Fault (Registry Fn)} (h : withRegistry w e = some w') :
    ∃ r, e = .ok r ∧ w' = { w with registry := r } := by
  cases e with
  | error f => cases h
  | ok r =>
    cases h
    exact ⟨r, rfl, rfl⟩

theorem Ready.loopCall {c : LoopCall Fn} (h : Ready w) (hw : loopCall port w c = some w') :
    Ready w' := by
  cases c with
  | set repeats call =>
    simp only [Timers.loopCall] at hw
    split at hw
    · next grant =>
      obtain ⟨r, hr, rfl⟩ := withRegistry_eq_some hw
      rcases set_spec h.paired.linked grant port repeats with ⟨_, herr⟩ | ⟨res, r', hok, eff⟩
      · rw [herr] at hr
        cases hr
      · rw [hok] at hr
        cases hr
        exact h.withRegistry (paired_set h.paired eff)
    · cases hw
  | clear handle o =>
    obtain ⟨r, hr, rfl⟩ := withRegistry_eq_some hw
    rcases clear_spec h.paired port o handle with ⟨_, herr⟩ | ⟨d, r', hd, hok, eff⟩
    · rw [herr] at hr
      cases hr
    · rw [hok] at hr
      cases hr
      exact h.withRegistry (paired_clear h.paired hd eff)
  | complete o copy =>
    obtain ⟨r, hr, rfl⟩ := withRegistry_eq_some hw
    rcases complete_spec h.paired port o copy with ⟨t, _, _, herr⟩ | ⟨r', hok, eff⟩
    · rw [herr] at hr
      cases hr
    · rw [hok] at hr
      cases hr
      exact h.withRegistry (paired_complete h.paired eff)
  | registerModule module block =>
    simp only [Timers.loopCall] at hw
    split at hw
    · next unused => exact h.registerModule unused hw
    · cases hw
  | loadModule module initialised block =>
    simp only [Timers.loopCall] at hw
    split at hw
    · next unused => exact h.loadModule unused hw
    · cases hw

end World

/-! ## Orderly cycles -/

/-- What the one thread that lives has done, and what it finds or keeps. -/
inductive Stage (port : Port) (s : State Fn) (t : Nat) : Prop
  | created (hpc : s.pc t = .created) (starting : s.threads.starting = [t])
      (queue : port = .unix → s.threads.queue = none) (world : Cleared s.world)
  | queueCreated (hport : port = .stm32) (hpc : s.pc t = .queueCreated)
      (starting : s.threads.starting = []) (world : Cleared s.world)
  | headsReset (hpc : s.pc t = .headsReset ∨ s.pc t = .cleared)
      (starting : s.threads.starting = []) (world : Cleared s.world)
      (first : s.world.registry.timerFirst = none) (last : s.world.registry.timerLast = none)
  | running (hpc : s.pc t = .running) (starting : s.threads.starting = [])
      (world : Ready s.world)

inductive Tidy (port : Port) (s : State Fn) : Prop
  | idle (threads : InStep port false s.threads) (starting : s.threads.starting = [])
      (queue : port = .unix → s.threads.queue = none) (world : Cleared s.world)
  | one (t : Nat) (threads : InStep port true s.threads) (live : s.threads.live = [t])
      (stage : Stage port s t)

theorem initial_tidy (port : Port) : Tidy port (initial : State Fn) :=
  .idle (initial_inStep port) rfl (fun _ => rfl) ⟨rfl, rfl, rfl, rfl, rfl, rfl, rfl⟩

section Steps
variable {port : Port} {s s' : State Fn} {o : Output}

theorem Stage.mem_starting {t u : Nat} (h : Stage port s t) (hu : u ∈ s.threads.starting) :
    u = t ∧ s.pc t = .created ∧ s.threads.starting = [t] ∧ Cleared s.world := by
  cases h with
  | created hpc starting _ world =>
    rw [starting] at hu
    exact ⟨List.mem_singleton.mp hu, hpc, starting, world⟩
  | queueCreated _ _ starting _ =>
    rw [starting] at hu
    cases hu
  | headsReset _ starting _ _ _ =>
    rw [starting] at hu
    cases hu
  | running _ starting _ =>
    rw [starting] at hu
    cases hu

theorem Stage.at_queueCreated {t : Nat} (h : Stage port s t) (hpc : s.pc t = .queueCreated) :
    s.threads.starting = [] ∧ Cleared s.world := by
  cases h with
  | created hpc' _ _ _ => cases hpc.symm.trans hpc'
  | queueCreated _ _ starting world => exact ⟨starting, world⟩
  | headsReset hpc' _ _ _ _ => rcases hpc' with hpc' | hpc' <;> cases hpc.symm.trans hpc'
  | running hpc' _ _ => cases hpc.symm.trans hpc'

theorem Stage.at_headsReset {t : Nat} (h : Stage port s t)
    (hpc : s.pc t = .headsReset ∨ s.pc t = .cleared) :
    s.threads.starting = [] ∧ Cleared s.world ∧ s.world.registry.timerFirst = none ∧
      s.world.registry.timerLast = none := by
  cases h with
  | created hpc' _ _ _ => rcases hpc with hpc | hpc <;> cases hpc.symm.trans hpc'
  | queueCreated _ hpc' _ _ => rcases hpc with hpc | hpc <;> cases hpc.symm.trans hpc'
  | headsReset _ starting world first last => exact ⟨starting, world, first, last⟩
  | running hpc' _ _ => rcases hpc with hpc | hpc <;> cases hpc.symm.trans hpc'

theorem Stage.at_running {t : Nat} (h : Stage port s t) (hpc : s.pc t = .running) :
    s.threads.starting = [] ∧ Ready s.world := by
  cases h with
  | created hpc' _ _ _ => cases hpc.symm.trans hpc'
  | queueCreated _ hpc' _ _ => cases hpc.symm.trans hpc'
  | headsReset hpc' _ _ _ _ => rcases hpc' with hpc' | hpc' <;> cases hpc.symm.trans hpc'
  | running _ starting world => exact ⟨starting, world⟩

theorem Stage.releasable {t : Nat} {deletes : Nat → Bool} {f : Finalizers Fn}
    (h : Stage port s t) (horderly : Orderly port s (.kill deletes f)) (htarget : killTarget port s.threads = some t)
    (hunix : port = .unix → s.threads.queue = none → killTarget port s.threads = none) :
    Releasable s.world := by
  cases h with
  | created hpc _ queue world =>
    apply world.releasable
    cases port with
    | unix =>
      rw [hunix rfl (queue rfl)] at htarget
      cases htarget
    | stm32 =>
      by_contra hfirst
      exact ((horderly.2 t htarget).2 rfl hfirst).1 hpc
  | queueCreated hport hpc _ world =>
    apply world.releasable
    by_contra hfirst
    exact ((horderly.2 t htarget).2 hport hfirst).2 hpc
  | headsReset _ _ world first _ => exact world.releasable first
  | running _ _ world => exact world.releasable

theorem clear_of_releasable (port : Port) (deletes : Nat → Bool) {f : Finalizers Fn}
    (quiet : s.world.context = none ∨ f.Silent) (h : Releasable s.world) :
    ∃ w, clear port deletes f s = ({ s with world := w }, .cleared [] [] []) ∧ Cleared w ∧
      w.registry.timerFirst = s.world.registry.timerFirst ∧
      w.registry.timerLast = s.world.registry.timerLast := by
  obtain ⟨w, hw, hcleared, hheads⟩ := clearEventloop_spec h port deletes quiet
  refine ⟨w, ?_, hcleared, hheads⟩
  unfold clear
  rw [hw]
  simp only [hcleared.timers, hcleared.callbacks, hcleared.modules]

theorem kill_threads {th th' : Threads} (hk : killEventloopThread port th = some th') :
    (port = .unix → th'.queue = none ∧ (th.queue = none → killTarget port th = none)) ∧
      ∀ u ∈ th'.starting, u ∈ th.starting ∧ killTarget port th ≠ some u := by
  cases port with
  | unix =>
    unfold killEventloopThread at hk
    simp only at hk
    split at hk
    · next herr =>
      cases hk
      have hnone : killTarget .unix th = none := by simp [killTarget, herr]
      refine ⟨fun _ => ⟨rfl, fun _ => hnone⟩, fun u hu => ⟨hu, ?_⟩⟩
      rw [hnone]
      rintro ⟨⟩
    · next herr =>
      split at hk
      · cases hk
      · next q hq =>
        cases hk
        refine ⟨fun _ => ⟨rfl, fun hnone => ?_⟩, fun u hu => ?_⟩
        · rw [hq] at hnone
          cases hnone
        · obtain ⟨hmem, hne⟩ := List.mem_filter.mp hu
          refine ⟨hmem, ?_⟩
          have hother : some u ≠ th.handle := by simpa using hne
          simpa [killTarget, herr] using hother.symm
  | stm32 =>
    refine ⟨by rintro ⟨⟩, ?_⟩
    unfold killEventloopThread at hk
    simp only at hk
    split at hk
    · next hnone =>
      cases hk
      intro u hu
      refine ⟨hu, ?_⟩
      rw [killTarget, hnone]
      rintro ⟨⟩
    · cases hk
      intro u hu
      obtain ⟨hmem, hne⟩ := List.mem_filter.mp hu
      have hother : some u ≠ th.handle := by simpa using hne
      exact ⟨hmem, hother.symm⟩

theorem start_tidy {ok : Bool} (h : Tidy port s) (horderly : Orderly port s (.start ok))
    (hstep : threadStep port s (.start ok) = some (s', o)) : Tidy port s' ∧ ReleasesOnce o := by
  cases hstep
  refine ⟨?_, trivial⟩
  cases h with
  | idle threads starting queue world =>
    have hnext : InStep port (false || ok) (startEventloopThread port ok s.threads) :=
      start_inStep threads nofun
    cases ok with
    | true =>
      have hlive := (threads.idle rfl).1
      refine .one s.threads.nextThread hnext ?_ (.created ?_ ?_ ?_ world)
      · cases port <;> exact congrArg (s.threads.nextThread :: ·) hlive
      · exact Function.update_self _ _ _
      · cases port <;> exact congrArg (s.threads.nextThread :: ·) starting
      · rintro rfl
        exact queue rfl
    | false =>
      refine .idle hnext ?_ ?_ world
      · cases port <;> exact starting
      · rintro rfl
        exact queue rfl
  | one t threads live stage =>
    rcases horderly with hnone | ⟨rfl, rfl⟩
    · rw [live] at hnone
      cases hnone
    · exact .one t threads live stage

theorem kill_tidy {deletes : Nat → Bool} {f : Finalizers Fn} (h : Tidy port s)
    (horderly : Orderly port s (.kill deletes f))
    (hstep : kill port deletes f s = some (s', o)) : Tidy port s' ∧ ReleasesOnce o := by
  unfold kill at hstep
  split at hstep
  · cases hstep
  · next threads' hk =>
    obtain ⟨hunix, hstarting⟩ := kill_threads hk
    cases h with
    | idle threads starting queue world =>
      rw [(threads.idle rfl).2] at hstep
      cases hstep
      refine ⟨.idle (kill_inStep threads hk) ?_ (fun hp => (hunix hp).1) world, trivial⟩
      apply List.eq_nil_iff_forall_not_mem.mpr
      intro u hu
      have := (hstarting u hu).1
      rw [starting] at this
      cases this
    | one t threads live stage =>
      obtain ⟨t', hlive, htarget⟩ := threads.one rfl
      rw [live] at hlive
      cases hlive
      simp only [htarget, if_neg (horderly.2 t htarget).1] at hstep
      obtain ⟨w, hclear, hcleared, _⟩ := clear_of_releasable (s := { s with threads := threads' })
        port deletes horderly.1 (stage.releasable horderly htarget fun hp => (hunix hp).2)
      cases hstep.symm.trans (congrArg some hclear)
      refine ⟨.idle (kill_inStep threads hk) ?_ (fun hp => (hunix hp).1) hcleared, rfl, rfl, rfl⟩
      apply List.eq_nil_iff_forall_not_mem.mpr
      intro u hu
      obtain ⟨hmem, hne⟩ := hstarting u hu
      rw [(stage.mem_starting hmem).1] at hne
      exact hne htarget

theorem entersTask_tidy {t : Nat} (h : Tidy port s) (hstep : entersTask port t s = some (s', o)) :
    Tidy port s' ∧ ReleasesOnce o := by
  unfold entersTask at hstep
  cases ht : eventloopTask t s.threads with
  | none =>
    rw [ht] at hstep
    cases hstep
  | some threads' =>
    rw [ht] at hstep
    have hmem : t ∈ s.threads.starting := by
      by_contra hnot
      unfold eventloopTask at ht
      rw [if_neg hnot] at ht
      cases ht
    have hthreads : threads' = { s.threads with
        starting := s.threads.starting.erase t, queue := some t } := by
      unfold eventloopTask at ht
      rw [if_pos hmem] at ht
      exact (Option.some.inj ht).symm
    cases h with
    | idle _ starting _ _ =>
      rw [starting] at hmem
      cases hmem
    | one u threads live stage =>
      obtain ⟨rfl, _, starting, world⟩ := stage.mem_starting hmem
      have hdone : threads'.starting = [] := by
        rw [hthreads, starting]
        simp
      have hlive : threads'.live = [t] := by rw [hthreads, live]
      have hnext := eventloopTask_inStep threads ht
      cases port with
      | unix =>
        cases hstep
        exact ⟨.one t hnext hlive (.headsReset (Or.inl (Function.update_self _ _ _)) hdone
          ⟨world.timers, world.callbacks, world.modules, world.callbackListFirst,
            world.loadedModules, world.registeredModules, world.context⟩ rfl rfl), trivial⟩
      | stm32 =>
        cases hstep
        exact ⟨.one t hnext hlive (.queueCreated rfl (Function.update_self _ _ _) hdone world),
          trivial⟩

/-- Where a live thread stands. -/
theorem Tidy.at {t : Nat} {pc : Pc} (h : Tidy port s) (hat : s.At t pc) :
    InStep port true s.threads ∧ s.threads.live = [t] ∧ Stage port s t := by
  cases h with
  | idle threads _ _ _ =>
    have := hat.1
    rw [(threads.idle rfl).1] at this
    cases this
  | one u threads live stage =>
    have hmem := hat.1
    rw [live] at hmem
    obtain rfl := List.mem_singleton.mp hmem
    exact ⟨threads, live, stage⟩

theorem threadStep_tidy {a : Action Fn} (h : Tidy port s) (horderly : Orderly port s a)
    (hstep : threadStep port s a = some (s', o)) : Tidy port s' ∧ ReleasesOnce o := by
  cases a with
  | start ok => exact start_tidy h horderly hstep
  | kill deletes f => exact kill_tidy h horderly hstep
  | entersTask t => exact entersTask_tidy h hstep
  | resetsHeads t =>
    simp only [threadStep] at hstep
    split at hstep
    · next hat =>
      cases hstep
      obtain ⟨threads, live, stage⟩ := h.at hat
      obtain ⟨starting, world⟩ := stage.at_queueCreated hat.2
      exact ⟨.one t threads live (.headsReset (Or.inl (Function.update_self _ _ _)) starting
        ⟨world.timers, world.callbacks, world.modules, world.callbackListFirst,
          world.loadedModules, world.registeredModules, world.context⟩ rfl rfl), trivial⟩
    · cases hstep
  | clears t deletes f =>
    simp only [threadStep] at hstep
    split at hstep
    · next hat =>
      obtain ⟨threads, live, stage⟩ := h.at hat
      obtain ⟨starting, world, first, last⟩ := stage.at_headsReset (Or.inl hat.2)
      obtain ⟨w, hclear, hcleared, hheads⟩ := clear_of_releasable
        (s := s.advance t .cleared) port deletes (Or.inl world.context) (world.releasable first)
      cases hstep.symm.trans (congrArg some hclear)
      exact ⟨.one t threads live (.headsReset (Or.inr (Function.update_self _ _ _)) starting
        hcleared (hheads.1.trans first) (hheads.2.trans last)), rfl, rfl, rfl⟩
    · cases hstep
  | createsHeap t =>
    simp only [threadStep] at hstep
    split at hstep
    · next hat =>
      cases hstep
      obtain ⟨threads, live, stage⟩ := h.at hat
      obtain ⟨starting, world, first, last⟩ := stage.at_headsReset (Or.inr hat.2)
      have hready := ready_of_cleared world first last
      exact ⟨.one t threads live (.running (Function.update_self _ _ _) starting
        ⟨hready.paired, hready.modules⟩), trivial⟩
    · cases hstep
  | enters t =>
    simp only [threadStep] at hstep
    split at hstep
    · next hat =>
      cases hstep
      obtain ⟨threads, live, stage⟩ := h.at hat.1
      obtain ⟨starting, world⟩ := stage.at_running hat.1.2
      exact ⟨.one t threads live (.running hat.1.2 starting world), trivial⟩
    · cases hstep
  | calls t c =>
    simp only [threadStep] at hstep
    split at hstep
    · next hat =>
      obtain ⟨w, hw, heq⟩ := Option.map_eq_some_iff.mp hstep
      cases heq
      obtain ⟨threads, live, stage⟩ := h.at hat.1
      obtain ⟨starting, world⟩ := stage.at_running hat.1.2
      exact ⟨.one t threads live (.running hat.1.2 starting (world.loopCall hw)), trivial⟩
    · cases hstep

theorem step_tidy {a : Action Fn} (h : Tidy port s) (horderly : Orderly port s a)
    (hstep : step port s a = some (s', o)) : Tidy port s' ∧ ReleasesOnce o := by
  unfold step at hstep
  split at hstep
  · cases hstep
  · exact threadStep_tidy h horderly hstep

end Steps

/-- In orderly cycles every `clear_eventloop` releases all that is allocated, and nothing that an
earlier one released. -/
theorem cycles_release_once (port : Port) (actions : List (Action Fn)) {s : State Fn}
    {outs : List Output} (horderly : Runs.Along (Orderly port) (step port) initial actions)
    (hrun : Runs.run (step port) initial actions = some (s, outs)) :
    ∀ o ∈ outs, ReleasesOnce o := by
  have whole := Runs.run_along
    (P := fun _ seen s => Tidy port s ∧ ∀ o ∈ seen, ReleasesOnce o) ?_
    ⟨initial_tidy port, nofun⟩ horderly hrun
  · exact whole.2
  · intro _ seen s a t o hpast hthis hstep
    obtain ⟨htidy, honce⟩ := step_tidy hpast.1 hthis hstep
    refine ⟨htidy, ?_⟩
    intro o' ho'
    rcases List.mem_append.mp ho' with hold | hnew
    · exact hpast.2 o' hold
    · rw [List.mem_singleton.mp hnew]
      exact honce

/-- From the start of a thread to the end of a program that starts one interval. -/
def intervalProgram : List (Action Nat) :=
  [.start true, .entersTask 0, .resetsHeads 0, .clears 0 (fun _ => true) .none, .createsHeap 0,
    .enters 0, .calls 0 (.set true ⟨some 7, some 250, some 1, ⟨some 2, some 3, true⟩⟩)]

def killing : Action Nat := .kill (fun _ => true) .none

theorem restarted_program : ∃ s outs,
    Runs.run (step .stm32) initial (intervalProgram ++ [killing, .start true]) = some (s, outs) ∧
      ∀ o ∈ outs, ReleasesOnce o := by
  have horderly : Runs.Along (Orderly .stm32) (step .stm32) (initial : State Nat)
      (intervalProgram ++ [killing, .start true]) := by decide +kernel
  exact ⟨_, _, rfl, cycles_release_once .stm32 _ horderly rfl⟩

/-- A thread that is killed before its first statement leaves the head of the list of an earlier
program: its timer is released once more. -/
theorem timer_released_again : ∃ s outs, Runs.run (step .stm32) initial
    (intervalProgram ++ [killing, .start true, killing]) = some (s, outs) ∧
      ¬ ∀ o ∈ outs, ReleasesOnce o := by
  refine ⟨_, _, rfl, ?_⟩
  intro honce
  exact honce (.released (.timer 2)) (by decide)

end JsEmbeddedPlatform.RestartCycles
