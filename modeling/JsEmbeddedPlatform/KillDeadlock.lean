import JsEmbeddedPlatform.LoopGenerations

/-!
# The critical section of a kill

`_enter_critical_section` disables the cancellation of its thread and then locks a mutex;
it is entered by the thread that starts and kills, by `eventloop_task` and by
`_timer_cleanup`. A kill keeps the mutex while it joins the loop thread, and a thread
that waits for the mutex with its cancellation disabled is not cancelled.
-/

set_option autoImplicit false

namespace JsEmbeddedPlatform.KillDeadlock

open Timers RestartCycles LoopGenerations

variable {Fn : Type}

inductive Call where
  | start
  | kill
deriving DecidableEq, Repr

/-- The thread that calls `start_eventloop_thread` and `kill_eventloop_thread`; `again` is the
`goto retry`. -/
inductive ControlPc where
  | idle
  | retrying
  | disabled (c : Call)
  | inside (c : Call)
  | queueLocked
  | joining
  | joined
  | leaving (again : Bool)
  | unlocked (again : Bool)
deriving DecidableEq, Repr

/-- The critical sections of the loop thread: that of `eventloop_task`, and that of
`_timer_cleanup` in a native call or a completion. -/
inductive Section (Fn : Type) where
  | boot
  | cleanup (c : LoopCall Fn)

/-- `disabled` waits for the mutex, `inside` has it. -/
inductive LoopPc (Fn : Type) where
  | created
  | entered
  | outside
  | disabled (sec : Section Fn)
  | inside (sec : Section Fn)
  | leaving (sec : Section Fn)
  | unlocked (sec : Section Fn)

structure LoopThread (Fn : Type) where
  pc : LoopPc Fn
  cancelDisabled : Bool
  cancelPending : Bool

inductive Party where
  | control
  | loop
deriving DecidableEq, Repr

/-- `queue` is NULL or has its flag `locked`. -/
structure State (Fn : Type) where
  world : World Fn
  queue : Option Bool
  err : Bool
  mutex : Option Party
  control : ControlPc
  loop : Option (LoopThread Fn)

inductive Action (Fn : Type) where
  | begins (c : Call)
  | acquires
  | creates (ok : Bool)
  | locksQueue
  | cancels
  | joins
  | cleans
  | releases
  | enables
  | loopDisables (sec : Section Fn)
  | loopAcquires
  | loopWorks (allocated : Bool)
  | loopReleases
  | loopEnables
  | prepares (heap : Nat)
  | calls (c : LoopCall Fn)
  | ends

def initial : State Fn where
  world := ⟨Registry.initial, none, Heap.empty, none, none⟩
  queue := none
  err := true
  mutex := none
  control := .idle
  loop := none

/-! ## The thread that starts and kills -/

/-- A start is called when there is no loop thread. -/
def begins (c : Call) (s : State Fn) : Option (State Fn) :=
  match s.control, c with
  | .idle, .start => if s.err = true then some { s with control := .disabled .start } else none
  | .idle, .kill => some { s with control := .disabled .kill }
  | .retrying, .kill => some { s with control := .disabled .kill }
  | _, _ => none

def acquires (s : State Fn) : Option (State Fn) :=
  match s.control, s.mutex with
  | .disabled c, none => some { s with control := .inside c, mutex := some .control }
  | _, _ => none

def creates (ok : Bool) (s : State Fn) : Option (State Fn) :=
  match s.control with
  | .inside .start => some { s with
      control := .leaving false
      err := !ok
      loop := if ok then some ⟨.created, false, false⟩ else s.loop }
  | _ => none

def locksQueue (s : State Fn) : Option (State Fn) :=
  match s.control, s.err, s.queue with
  | .inside .kill, true, _ => some { s with control := .leaving false, queue := none }
  | .inside .kill, false, none => some { s with control := .leaving true }
  | .inside .kill, false, some _ => some { s with control := .queueLocked, queue := some true }
  | _, _, _ => none

/-- `pthread_cancel`: the request is pending until the thread has its cancellation enabled. -/
def cancels (s : State Fn) : Option (State Fn) :=
  match s.control with
  | .queueLocked => some { s with
      control := .joining, loop := s.loop.map fun l => { l with cancelPending := true } }
  | _ => none

def joins (s : State Fn) : Option (State Fn) :=
  match s.control, s.loop with
  | .joining, none => some { s with control := .joined }
  | _, _ => none

def cleans (s : State Fn) : Option (State Fn) :=
  match s.control with
  | .joined =>
    match clearEventloop .unix (fun _ => true) .none s.world with
    | .error _ => none
    | .ok w => some { s with control := .leaving false, world := w, queue := none, err := true }
  | _ => none

def releases (s : State Fn) : Option (State Fn) :=
  match s.control with
  | .leaving again => some { s with control := .unlocked again, mutex := none }
  | _ => none

def enables (s : State Fn) : Option (State Fn) :=
  match s.control with
  | .unlocked again => some { s with control := if again then .retrying else .idle }
  | _ => none

/-! ## The loop thread -/

/-- The first statement of a critical section. -/
def loopDisables (sec : Section Fn) (s : State Fn) : Option (State Fn) :=
  match s.loop, sec with
  | some ⟨.created, _, pending⟩, .boot =>
    some { s with loop := some ⟨.disabled .boot, true, pending⟩ }
  | some ⟨.outside, _, pending⟩, .cleanup c =>
    if takesCriticalSection s.world c = true then
      some { s with loop := some ⟨.disabled (.cleanup c), true, pending⟩ }
    else none
  | _, _ => none

def loopAcquires (s : State Fn) : Option (State Fn) :=
  match s.loop, s.mutex with
  | some ⟨.disabled sec, cancel, pending⟩, none =>
    some { s with loop := some ⟨.inside sec, cancel, pending⟩, mutex := some .loop }
  | _, _ => none

/-- The body of a critical section. The timer threads that `_timer_cleanup` joins never enter
one. -/
def loopWorks (allocated : Bool) (s : State Fn) : Option (State Fn) :=
  match s.loop with
  | some ⟨.inside .boot, cancel, pending⟩ => some { s with
      loop := some ⟨.leaving .boot, cancel, pending⟩
      queue := if allocated then some false else none
      world := resetHeads s.world }
  | some ⟨.inside (.cleanup c), cancel, pending⟩ =>
    (loopCall .unix s.world c).map fun w => { s with
      loop := some ⟨.leaving (.cleanup c), cancel, pending⟩, world := w }
  | _ => none

def loopReleases (s : State Fn) : Option (State Fn) :=
  match s.loop with
  | some ⟨.leaving sec, cancel, pending⟩ =>
    some { s with loop := some ⟨.unlocked sec, cancel, pending⟩, mutex := none }
  | _ => none

def Section.next : Section Fn → LoopPc Fn
  | .boot => .entered
  | .cleanup _ => .outside

/-- A pending cancellation takes effect as soon as it is enabled. -/
def loopEnables (s : State Fn) : Option (State Fn) :=
  match s.loop with
  | some ⟨.unlocked _, _, true⟩ => some { s with loop := none }
  | some ⟨.unlocked sec, _, false⟩ => some { s with loop := some ⟨sec.next, false, false⟩ }
  | _ => none

def prepares (heap : Nat) (s : State Fn) : Option (State Fn) :=
  match s.loop with
  | some ⟨.entered, cancel, pending⟩ =>
    match clearEventloop .unix (fun _ => true) .none s.world with
    | .error _ => none
    | .ok w => some { s with
        loop := some ⟨.outside, cancel, pending⟩, world := { w with context := some heap } }
  | _ => none

/-- A call of a native function that does not come to `_timer_cleanup`. -/
def calls (c : LoopCall Fn) (s : State Fn) : Option (State Fn) :=
  match s.loop with
  | some ⟨.outside, _, _⟩ =>
    if takesCriticalSection s.world c = true then none
    else (loopCall .unix s.world c).map fun w => { s with world := w }
  | _ => none

def ends (s : State Fn) : Option (State Fn) :=
  match s.loop with
  | some ⟨_, false, true⟩ => some { s with loop := none }
  | _ => none

def step (s : State Fn) (a : Action Fn) : Option (State Fn × Unit) :=
  (match a with
  | .begins c => begins c s
  | .acquires => acquires s
  | .creates ok => creates ok s
  | .locksQueue => locksQueue s
  | .cancels => cancels s
  | .joins => joins s
  | .cleans => cleans s
  | .releases => releases s
  | .enables => enables s
  | .loopDisables sec => loopDisables sec s
  | .loopAcquires => loopAcquires s
  | .loopWorks allocated => loopWorks allocated s
  | .loopReleases => loopReleases s
  | .loopEnables => loopEnables s
  | .prepares heap => prepares heap s
  | .calls c => calls c s
  | .ends => ends s).map fun t => (t, ())

/-- The loop thread waits for the mutex with its cancellation disabled. -/
def blocked (s : State Fn) : Bool :=
  match s.loop with
  | some ⟨.disabled _, true, _⟩ => true
  | _ => false

/-- The killer joins the loop thread, which waits for the killer's mutex and cannot be cancelled. -/
def Deadlocked (s : State Fn) : Prop :=
  s.control = .joining ∧ s.mutex = some .control ∧ blocked s = true

instance (s : State Fn) : Decidable (Deadlocked s) :=
  inferInstanceAs (Decidable (_ ∧ _ ∧ _))

def ControlPc.kills : ControlPc → Bool
  | .inside .kill => true
  | .queueLocked => true
  | .joining => true
  | _ => false

def LoopPc.waits : LoopPc Fn → Bool
  | .disabled (.cleanup _) => true
  | _ => false

/-- The thread that kills will join the loop thread, or does so. -/
def killing (s : State Fn) : Bool :=
  match s.queue with
  | none => false
  | some _ => s.control.kills

/-- The loop thread waits for the mutex in `_timer_cleanup`. -/
def waits (s : State Fn) : Bool :=
  match s.loop with
  | none => false
  | some l => l.pc.waits

/-- A kill gets the mutex while the loop thread does not wait for it, and the loop thread does not
come to `_timer_cleanup` while a kill has it. -/
def Apart (s : State Fn) : Action Fn → Prop
  | .acquires => s.control = .disabled .kill → s.queue ≠ none → waits s = false
  | .loopDisables (.cleanup _) => killing s = false
  | _ => True

instance (s : State Fn) : (a : Action Fn) → Decidable (Apart s a)
  | .begins _ => isTrue trivial
  | .acquires => inferInstanceAs (Decidable (_ → _ → _))
  | .creates _ => isTrue trivial
  | .locksQueue => isTrue trivial
  | .cancels => isTrue trivial
  | .joins => isTrue trivial
  | .cleans => isTrue trivial
  | .releases => isTrue trivial
  | .enables => isTrue trivial
  | .loopDisables .boot => isTrue trivial
  | .loopDisables (.cleanup _) => inferInstanceAs (Decidable (_ = _))
  | .loopAcquires => isTrue trivial
  | .loopWorks _ => isTrue trivial
  | .loopReleases => isTrue trivial
  | .loopEnables => isTrue trivial
  | .prepares _ => isTrue trivial
  | .calls _ => isTrue trivial
  | .ends => isTrue trivial

/-! ## Who has the mutex -/

def ControlPc.holds : ControlPc → Bool
  | .inside _ => true
  | .queueLocked => true
  | .joining => true
  | .joined => true
  | .leaving _ => true
  | _ => false

def ControlPc.starts : ControlPc → Bool
  | .disabled .start => true
  | .inside .start => true
  | _ => false

def LoopPc.holds : LoopPc Fn → Bool
  | .inside _ => true
  | .leaving _ => true
  | _ => false

/-- The thread has not created its queue. -/
def LoopPc.boots : LoopPc Fn → Bool
  | .created => true
  | .disabled .boot => true
  | .inside .boot => true
  | _ => false

structure Guarded (s : State Fn) : Prop where
  owner : s.control.holds = true → s.mutex = some .control
  loopOwner : ∀ l, s.loop = some l → l.pc.holds = true → s.mutex = some .loop
  boots : ∀ l, s.loop = some l → l.pc.boots = true → s.queue = none
  alive : ∀ l, s.loop = some l → s.err = false
  failed : s.err = true → s.queue = none
  starting : s.control.starts = true → s.err = true
  joined : s.control = .joined → s.loop = none
  locked : s.control = .queueLocked ∨ s.control = .joining → s.queue ≠ none
  apart : killing s = true → waits s = false

theorem initial_guarded : Guarded (initial : State Fn) := by
  refine ⟨nofun, ?_, ?_, ?_, fun _ => rfl, nofun, nofun, by simp [initial], nofun⟩
  · intro l hl
    cases hl
  · intro l hl
    cases hl
  · intro l hl
    cases hl

section Steps
variable {s t : State Fn}

theorem not_killing (h : s.control.kills = false) : killing s = false := by
  unfold killing
  split
  · rfl
  · exact h

/-- The loop thread goes on inside or outside of a critical section. -/
theorem Guarded.moves {l : LoopThread Fn} (h : Guarded s) (l' : LoopThread Fn)
    (hl : s.loop = some l)
    (holds : l'.pc.holds = true → s.mutex = some .loop)
    (boots : l'.pc.boots = true → s.queue = none)
    (apart : killing s = true → l'.pc.waits = false) :
    Guarded { s with loop := some l' } := by
  refine ⟨h.owner, ?_, ?_, ?_, h.failed, h.starting, ?_, h.locked, ?_⟩
  · rintro _ ⟨⟩
    exact holds
  · rintro _ ⟨⟩
    exact boots
  · intro _ _
    exact h.alive l hl
  · intro hjoined
    rw [h.joined hjoined] at hl
    cases hl
  · exact apart

theorem Guarded.gone (h : Guarded s) : Guarded { s with loop := none } := by
  refine ⟨h.owner, ?_, ?_, ?_, h.failed, h.starting, fun _ => rfl, h.locked, fun _ => rfl⟩
  · intro l hl
    cases hl
  · intro l hl
    cases hl
  · intro l hl
    cases hl

theorem Guarded.world (h : Guarded s) (w : World Fn) : Guarded { s with world := w } :=
  ⟨h.owner, h.loopOwner, h.boots, h.alive, h.failed, h.starting, h.joined, h.locked, h.apart⟩

/-- The control thread goes on and is not about to join. -/
theorem Guarded.control (h : Guarded s) (pc : ControlPc)
    (holds : pc.holds = true → s.mutex = some .control) (starts : pc.starts = true → s.err = true)
    (joined : pc = .joined → s.loop = none) (locked : pc = .queueLocked ∨ pc = .joining → s.queue ≠ none)
    (apart : killing { s with control := pc } = true → waits s = false) :
    Guarded { s with control := pc } :=
  ⟨holds, h.loopOwner, h.boots, h.alive, h.failed, starts, joined, locked, apart⟩

theorem begins_guarded {c : Call} (h : Guarded s) (hstep : begins c s = some t) : Guarded t := by
  unfold begins at hstep
  split at hstep
  · split at hstep
    · next herr =>
      cases hstep
      refine h.control _ nofun (fun _ => herr) nofun (by simp) fun hkilling => ?_
      cases hkilling.symm.trans (not_killing rfl)
    · cases hstep
  · cases hstep
    refine h.control _ nofun nofun nofun (by simp) fun hkilling => ?_
    cases hkilling.symm.trans (not_killing rfl)
  · cases hstep
    refine h.control _ nofun nofun nofun (by simp) fun hkilling => ?_
    cases hkilling.symm.trans (not_killing rfl)
  · cases hstep

theorem acquires_guarded (h : Guarded s) (hapart : Apart s .acquires)
    (hstep : acquires s = some t) : Guarded t := by
  unfold acquires at hstep
  split at hstep
  · next c hc hm =>
    cases hstep
    refine ⟨fun _ => rfl, ?_, h.boots, h.alive, h.failed, ?_, nofun, by simp, ?_⟩
    · intro l hl hholds
      rw [h.loopOwner l hl hholds] at hm
      cases hm
    · intro hstarts
      apply h.starting
      rw [hc]
      cases c with
      | start => rfl
      | kill => cases hstarts
    · intro hkilling
      cases c with
      | start => cases hkilling.symm.trans (not_killing rfl)
      | kill =>
        apply hapart hc
        intro hq
        unfold killing at hkilling
        rw [hq] at hkilling
        cases hkilling
  · cases hstep

theorem creates_guarded {ok : Bool} (h : Guarded s) (hstep : creates ok s = some t) :
    Guarded t := by
  unfold creates at hstep
  split at hstep
  · next hc =>
    cases hstep
    have herr : s.err = true := h.starting (by rw [hc]; rfl)
    have hqueue := h.failed herr
    have hnone : s.loop = none := by
      cases hl : s.loop with
      | none => rfl
      | some l => cases herr.symm.trans (h.alive l hl)
    have hmutex := h.owner (by rw [hc]; rfl)
    have notKilling : ∀ u : State Fn, u.control = .leaving false → killing u = false := by
      intro u hu
      apply not_killing
      rw [hu]
      rfl
    cases ok with
    | true =>
      refine ⟨fun _ => hmutex, ?_, fun _ _ _ => hqueue, fun _ _ => rfl, nofun, nofun, nofun,
        by simp, fun hkilling => ?_⟩
      · rintro _ ⟨⟩
        nofun
      · cases hkilling.symm.trans (notKilling _ rfl)
    | false =>
      rw [if_neg Bool.false_ne_true, hnone]
      refine ⟨fun _ => hmutex, ?_, ?_, ?_, fun _ => hqueue, nofun, nofun, by simp,
        fun hkilling => ?_⟩
      · intro l hl
        cases hl
      · intro l hl
        cases hl
      · intro l hl
        cases hl
      · cases hkilling.symm.trans (notKilling _ rfl)
  · cases hstep

theorem locksQueue_guarded (h : Guarded s) (hstep : locksQueue s = some t) : Guarded t := by
  unfold locksQueue at hstep
  split at hstep
  · next _ hc _ =>
    cases hstep
    exact ⟨fun _ => h.owner (by rw [hc]; rfl), h.loopOwner, fun _ _ _ => rfl, h.alive,
      fun _ => rfl, nofun, nofun, by simp, nofun⟩
  · next hc _ _ =>
    cases hstep
    refine h.control _ (fun _ => h.owner (by rw [hc]; rfl)) nofun nofun (by simp) fun hkilling => ?_
    cases hkilling.symm.trans (not_killing rfl)
  · next q hc herr hq =>
    cases hstep
    refine ⟨fun _ => h.owner (by rw [hc]; rfl), h.loopOwner, ?_, h.alive, ?_, nofun, nofun, nofun,
      fun _ => ?_⟩
    · intro l hl hboots
      cases hq.symm.trans (h.boots l hl hboots)
    · intro hfailed
      cases herr.symm.trans hfailed
    · apply h.apart
      unfold killing
      rw [hq, hc]
      rfl
  · cases hstep

theorem cancels_guarded (h : Guarded s) (hstep : cancels s = some t) : Guarded t := by
  unfold cancels at hstep
  split at hstep
  · next hc =>
    cases hstep
    have hqueue := h.locked (Or.inl hc)
    have hkills : killing s = true := by
      unfold killing
      split
      · next hq => exact absurd hq hqueue
      · rw [hc]
        rfl
    have hwaits := h.apart hkills
    have joining := h.control .joining (fun _ => h.owner (by rw [hc]; rfl)) nofun nofun
      (fun _ => hqueue) fun _ => hwaits
    cases hl : s.loop with
    | none => exact joining.gone
    | some l =>
      unfold waits at hwaits
      rw [hl] at hwaits
      exact joining.moves _ hl (h.loopOwner l hl) (h.boots l hl) fun _ => hwaits
  · cases hstep

theorem joins_guarded (h : Guarded s) (hstep : joins s = some t) : Guarded t := by
  unfold joins at hstep
  split at hstep
  · next hc hl =>
    cases hstep
    refine h.control _ (fun _ => h.owner (by rw [hc]; rfl)) nofun (fun _ => hl) (by simp)
      fun hkilling => ?_
    cases hkilling.symm.trans (not_killing rfl)
  · cases hstep

theorem cleans_guarded (h : Guarded s) (hstep : cleans s = some t) : Guarded t := by
  unfold cleans at hstep
  split at hstep
  · next hc =>
    split at hstep
    · cases hstep
    · cases hstep
      have hnone := h.joined hc
      refine ⟨fun _ => h.owner (by rw [hc]; rfl), h.loopOwner, fun _ _ _ => rfl, ?_, fun _ => rfl,
        nofun, nofun, by simp, nofun⟩
      intro l hl
      cases hnone.symm.trans hl
  · cases hstep

theorem releases_guarded (h : Guarded s) (hstep : releases s = some t) : Guarded t := by
  unfold releases at hstep
  split at hstep
  · next again hc =>
    cases hstep
    have hmutex := h.owner (by rw [hc]; rfl)
    refine ⟨nofun, ?_, h.boots, h.alive, h.failed, nofun, nofun, by simp, fun hkilling => ?_⟩
    · intro l hl hholds
      cases hmutex.symm.trans (h.loopOwner l hl hholds)
    · cases hkilling.symm.trans (not_killing rfl)
  · cases hstep

theorem enables_guarded (h : Guarded s) (hstep : enables s = some t) : Guarded t := by
  unfold enables at hstep
  split at hstep
  · next again hc =>
    cases hstep
    cases again with
    | true =>
      refine h.control _ nofun nofun nofun (by simp) fun hkilling => ?_
      cases hkilling.symm.trans (not_killing rfl)
    | false =>
      refine h.control _ nofun nofun nofun (by simp) fun hkilling => ?_
      cases hkilling.symm.trans (not_killing rfl)
  · cases hstep

/-! ### Of the loop thread -/

theorem loopDisables_guarded {sec : Section Fn} (h : Guarded s)
    (hapart : Apart s (.loopDisables sec)) (hstep : loopDisables sec s = some t) : Guarded t := by
  unfold loopDisables at hstep
  split at hstep
  · next hl =>
    cases hstep
    exact h.moves _ hl nofun (fun _ => h.boots _ hl rfl) fun _ => rfl
  · next hl =>
    split at hstep
    · cases hstep
      refine h.moves _ hl nofun nofun fun hkilling => ?_
      cases hkilling.symm.trans hapart
    · cases hstep
  · cases hstep

theorem loopAcquires_guarded (h : Guarded s) (hstep : loopAcquires s = some t) : Guarded t := by
  unfold loopAcquires at hstep
  split at hstep
  · next sec cancel pending hl hm =>
    cases hstep
    have free : s.control.holds = false := by
      cases hholds : s.control.holds with
      | false => rfl
      | true => cases hm.symm.trans (h.owner hholds)
    refine ⟨fun hholds => ?_, fun _ _ _ => rfl, ?_, fun _ _ => h.alive _ hl, h.failed, h.starting,
      ?_, h.locked, fun _ => rfl⟩
    · cases hholds.symm.trans free
    · rintro _ ⟨⟩ hboots
      cases sec with
      | boot => exact h.boots _ hl rfl
      | cleanup c => cases hboots
    · intro hjoined
      cases (h.joined hjoined).symm.trans hl
  · cases hstep

theorem loopWorks_guarded {allocated : Bool} (h : Guarded s)
    (hstep : loopWorks allocated s = some t) : Guarded t := by
  unfold loopWorks at hstep
  split at hstep
  · next cancel pending hl =>
    cases hstep
    have hmutex := h.loopOwner _ hl rfl
    have free : s.control.holds = false := by
      cases hholds : s.control.holds with
      | false => rfl
      | true => cases hmutex.symm.trans (h.owner hholds)
    have moved := (h.moves ⟨.leaving .boot, cancel, pending⟩ hl (fun _ => hmutex) nofun
      fun _ => rfl).world (resetHeads s.world)
    refine ⟨moved.owner, moved.loopOwner, ?_, moved.alive, ?_, moved.starting, moved.joined, ?_,
      fun _ => rfl⟩
    · rintro _ ⟨⟩
      nofun
    · intro hfailed
      cases (h.alive _ hl).symm.trans hfailed
    · rintro (hc | hc)
      · rw [hc] at free
        cases free
      · rw [hc] at free
        cases free
  · next hl =>
    obtain ⟨w, _, rfl⟩ := Option.map_eq_some_iff.mp hstep
    exact (h.moves ⟨.leaving _, _, _⟩ hl (fun _ => h.loopOwner _ hl rfl) nofun fun _ => rfl).world w
  · cases hstep

theorem loopReleases_guarded (h : Guarded s) (hstep : loopReleases s = some t) : Guarded t := by
  unfold loopReleases at hstep
  split at hstep
  · next sec cancel pending hl =>
    cases hstep
    have hmutex := h.loopOwner _ hl rfl
    have moved := h.moves ⟨.unlocked sec, cancel, pending⟩ hl nofun nofun fun _ => rfl
    refine ⟨fun hholds => ?_, ?_, moved.boots, moved.alive, moved.failed, moved.starting,
      moved.joined, moved.locked, moved.apart⟩
    · cases hmutex.symm.trans (h.owner hholds)
    · rintro _ ⟨⟩
      nofun
  · cases hstep

theorem loopEnables_guarded (h : Guarded s) (hstep : loopEnables s = some t) : Guarded t := by
  unfold loopEnables at hstep
  split at hstep
  · cases hstep
    exact h.gone
  · next sec _ hl =>
    cases hstep
    cases sec with
    | boot => exact h.moves _ hl nofun nofun fun _ => rfl
    | cleanup c => exact h.moves _ hl nofun nofun fun _ => rfl
  · cases hstep

theorem prepares_guarded {heap : Nat} (h : Guarded s) (hstep : prepares heap s = some t) :
    Guarded t := by
  unfold prepares at hstep
  split at hstep
  · next hl =>
    split at hstep
    · cases hstep
    · cases hstep
      exact (h.moves ⟨.outside, _, _⟩ hl nofun nofun fun _ => rfl).world _
  · cases hstep

theorem calls_guarded {c : LoopCall Fn} (h : Guarded s) (hstep : calls c s = some t) :
    Guarded t := by
  unfold calls at hstep
  split at hstep
  · split at hstep
    · cases hstep
    · obtain ⟨w, _, rfl⟩ := Option.map_eq_some_iff.mp hstep
      exact h.world w
  · cases hstep

theorem ends_guarded (h : Guarded s) (hstep : ends s = some t) : Guarded t := by
  unfold ends at hstep
  split at hstep
  · cases hstep
    exact h.gone
  · cases hstep

theorem step_guarded {a : Action Fn} {o : Unit} (h : Guarded s) (hapart : Apart s a)
    (hstep : step s a = some (t, o)) : Guarded t := by
  obtain ⟨u, hu, heq⟩ := Option.map_eq_some_iff.mp hstep
  cases heq
  cases a with
  | begins c => exact begins_guarded h hu
  | acquires => exact acquires_guarded h hapart hu
  | creates ok => exact creates_guarded h hu
  | locksQueue => exact locksQueue_guarded h hu
  | cancels => exact cancels_guarded h hu
  | joins => exact joins_guarded h hu
  | cleans => exact cleans_guarded h hu
  | releases => exact releases_guarded h hu
  | enables => exact enables_guarded h hu
  | loopDisables sec => exact loopDisables_guarded h hapart hu
  | loopAcquires => exact loopAcquires_guarded h hu
  | loopWorks allocated => exact loopWorks_guarded h hu
  | loopReleases => exact loopReleases_guarded h hu
  | loopEnables => exact loopEnables_guarded h hu
  | prepares heap => exact prepares_guarded h hu
  | calls c => exact calls_guarded h hu
  | ends => exact ends_guarded h hu

theorem loop_of_blocked (h : blocked s = true) :
    ∃ sec pending, s.loop = some ⟨.disabled sec, true, pending⟩ := by
  unfold blocked at h
  split at h
  · next sec pending hl => exact ⟨sec, pending, hl⟩
  · cases h

theorem Guarded.not_deadlocked (h : Guarded s) : ¬ Deadlocked s := by
  rintro ⟨hc, _, hblocked⟩
  obtain ⟨sec, pending, hl⟩ := loop_of_blocked hblocked
  have hqueue := h.locked (Or.inr hc)
  cases sec with
  | boot => exact hqueue (h.boots _ hl rfl)
  | cleanup c =>
    have hkilling : killing s = true := by
      unfold killing
      split
      · next hq => exact absurd hq hqueue
      · rw [hc]
        rfl
    have hwaits := h.apart hkilling
    unfold waits at hwaits
    rw [hl] at hwaits
    cases hwaits

/-- Neither of the two threads can go on. -/
theorem deadlocked_stuck (h : Deadlocked s) (a : Action Fn) : step s a = none := by
  obtain ⟨hc, hm, hblocked⟩ := h
  obtain ⟨sec, pending, hl⟩ := loop_of_blocked hblocked
  unfold step
  cases a <;> simp [begins, acquires, creates, locksQueue, cancels, joins, cleans, releases,
    enables, loopDisables, loopAcquires, loopWorks, loopReleases, loopEnables, prepares, calls,
    ends, hc, hm, hl]

end Steps

/-- While a kill and `_timer_cleanup` keep apart, there is no deadlock. -/
theorem kill_joins (actions : List (Action Fn)) {s : State Fn} {outs : List Unit}
    (hapart : Runs.Along Apart step initial actions)
    (hrun : Runs.run step initial actions = some (s, outs)) : ¬ Deadlocked s := by
  have whole : Guarded s := by
    apply Runs.run_along (P := fun _ _ s => Guarded s) ?_ initial_guarded hapart hrun
    intro _ _ s a t o hpast hthis hstep
    exact step_guarded hpast hthis hstep
  exact whole.not_deadlocked

/-- The program starts a timer and comes to the clearing of it. -/
def clearingProgram : List (Action Nat) :=
  [.begins .start, .acquires, .creates true, .releases, .enables, .loopDisables .boot,
    .loopAcquires, .loopWorks true, .loopReleases, .loopEnables, .prepares 0,
    .calls (.set false ⟨some 7, some 250, some 1, ⟨some 2, some 3, true⟩⟩),
    .loopDisables (.cleanup (.clear 1 ⟨true, true⟩))]

def clearing : List (Action Nat) := [.loopAcquires, .loopWorks true, .loopReleases, .loopEnables]

def killedAfter : List (Action Nat) :=
  clearingProgram ++ (clearing ++
    [.begins .kill, .acquires, .locksQueue, .cancels, .ends, .joins, .cleans])

theorem cleared_then_killed : ∃ s outs, Runs.run step initial killedAfter = some (s, outs) ∧
    ¬ Deadlocked s := by
  have hapart : Runs.Along Apart step initial killedAfter := by decide +kernel
  obtain ⟨s, outs, hrun, _⟩ : ∃ s outs, Runs.run step initial killedAfter = some (s, outs) ∧
      true = true := Runs.run_evaluated (by decide +kernel)
  exact ⟨s, outs, hrun, kill_joins _ hapart hrun⟩

/-- The kill takes the mutex after `_timer_cleanup` has disabled the cancellation and before it
has locked. -/
theorem kill_deadlocks : ∃ s outs, Runs.run step initial
    (clearingProgram ++ [.begins .kill, .acquires, .locksQueue, .cancels]) = some (s, outs) ∧
      Deadlocked s := by
  obtain ⟨s, outs, hrun, hdead⟩ : ∃ s outs, Runs.run step initial
      (clearingProgram ++ [.begins .kill, .acquires, .locksQueue, .cancels]) = some (s, outs) ∧
        decide (Deadlocked s) = true := Runs.run_evaluated (by decide +kernel)
  exact ⟨s, outs, hrun, of_decide_eq_true hdead⟩

end JsEmbeddedPlatform.KillDeadlock
