import JsEmbeddedPlatform.RestartCycles
import JsEmbeddedPlatform.Shared.BoundedFifo

/-!
# Events across restarts on unix

Every event carries where it comes from: a serial number of its own, the heap it was
pushed under and the generation, that is the number of loop threads started, in which
its timer was started. A kill holds the critical section from its first step to its
last, while the loop thread and the timer threads run on until each is joined.
-/

set_option autoImplicit false

namespace JsEmbeddedPlatform.LoopGenerations

open Timers RestartCycles

variable {Fn : Type}

structure Origin where
  serial : Nat
  heap : Option Nat
  startedIn : Nat
deriving DecidableEq, Repr

structure Item where
  copy : Callback
  origin : Origin
deriving DecidableEq, Repr

structure Queue where
  items : List Item
  locked : Bool
deriving DecidableEq, Repr

/-- `_received_callback`: all zero until something is received. -/
structure Received where
  copy : Callback
  origin : Option Origin
deriving DecidableEq, Repr

/-- How far the loop thread is; its heap exists from `script` on. -/
inductive Pc where
  | created
  | entered
  | cleared
  | script
  | waiting
  | dispatching
  | completing
deriving DecidableEq, Repr

def Pc.hasHeap : Pc → Bool
  | .created => false
  | .entered => false
  | .cleared => false
  | _ => true

/-- A kill that has locked the queue, or is at `ptr` in the list of timers. -/
inductive Kill where
  | idle
  | locked
  | cleaning (ptr : Option Nat)
deriving DecidableEq, Repr

/-- `err` is that of `pthread_create`, `started` says that the last of the two calls was
`start_eventloop_thread`. `woken` are the timer threads from the end of their sleep to the end of
their `xQueueSend`. -/
structure State (Fn : Type) where
  world : World Fn
  queue : Option Queue
  err : Bool
  started : Bool
  thread : Option Pc
  kill : Kill
  woken : List Sender
  received : Received
  generation : Nat
  heaps : Nat
  pushes : Nat
  startedIn : Nat → Nat

/-- `ok` says that the pthread calls of a queue operation answer 0, `allocated` that `xQueueCreate`
finds room. -/
inductive Action (Fn : Type) where
  | start (ok : Bool)
  | killBegins
  | loopJoined
  | timerJoined
  | killEnds (f : Finalizers Fn)
  | entersTask (allocated : Bool)
  | clears
  | createsHeap
  | calls (c : LoopCall Fn)
  | scriptEnds
  | wakes (handle : Nat)
  | sends (sender : Sender) (ok : Bool)
  | receives (ok : Bool)
  | callbackReturns
  | completes (o : StopOutcome)

/-- One round of the loop up to the call of the function: the record, whether it was removed from
the queue for this round, whether its id selects a function, under which heap and in which
generation. -/
structure Iteration where
  record : Received
  removed : Bool
  selects : Bool
  heap : Option Nat
  generation : Nat
deriving DecidableEq, Repr

inductive Output where
  | quiet
  | pushed (item : Item)
  | iterates (round : Iteration)
  | completed (record : Received)
deriving DecidableEq, Repr

def initial : State Fn where
  world := ⟨Registry.initial, none, Heap.empty, none, none⟩
  queue := none
  err := true
  started := false
  thread := none
  kill := .idle
  woken := []
  received := ⟨newCallback 0, none⟩
  generation := 0
  heaps := 0
  pushes := 0
  startedIn := fun _ => 0

/-- The threads of timers that are gone have been joined. -/
def withWorld (s : State Fn) (w : World Fn) : State Fn :=
  { s with
    world := w
    woken := s.woken.filter fun u => (w.registry.platformTimers.get? u.handle).isSome }

/-! ## The two calls -/

def start (ok : Bool) (s : State Fn) : Option (State Fn × Output) :=
  if s.started = true then none
  else some ({ s with
    started := true
    err := !ok
    thread := if ok then some .created else s.thread
    generation := if ok then s.generation + 1 else s.generation }, .quiet)

/-- While the queue is NULL, a kill of a thread that was created tries again. -/
def killBegins (s : State Fn) : Option (State Fn × Output) :=
  if s.started = true ∧ s.kill = .idle then
    if s.err = true then some ({ s with started := false, queue := none }, .quiet)
    else
      match s.queue with
      | none => none
      | some q => some ({ s with queue := some { q with locked := true }, kill := .locked }, .quiet)
  else none

def loopJoined (s : State Fn) : Option (State Fn × Output) :=
  if s.kill = .locked then
    some ({ s with thread := none, kill := .cleaning s.world.registry.timerFirst }, .quiet)
  else none

/-- One round of `eventloop_platform_timers_cleanup`. -/
def timerJoined (s : State Fn) : Option (State Fn × Output) :=
  match s.kill with
  | .cleaning (some p) =>
    match releaseTimer .unix (fun _ => true) p
        (s.world.registry.timers, s.world.registry.platformTimers) with
    | .error _ => none
    | .ok (next, timers, platformTimers) =>
      some (withWorld { s with kill := .cleaning next } { s.world with
        registry := { s.world.registry with
          timers := timers, platformTimers := platformTimers } }, .quiet)
  | _ => none


/-- The platform timer that a call may create. -/
def grants : LoopCall Fn → Option Nat
  | .set _ call => call.outcome.timer
  | _ => none

def startedBy (c : LoopCall Fn) (s : State Fn) : Nat → Nat :=
  match grants c with
  | none => s.startedIn
  | some p => Function.update s.startedIn p s.generation

/-- The timers that finalizers start are of this generation like the others. -/
def startedByFinalizers (f : Finalizers Fn) (s : State Fn) : Nat → Nat :=
  if s.world.context.isNone then s.startedIn
  else (f.collected ++ f.destroyed).foldl (fun ids c => startedBy c { s with startedIn := ids })
    s.startedIn

def killEnds (f : Finalizers Fn) (s : State Fn) : Option (State Fn × Output) :=
  match s.kill with
  | .cleaning none =>
    match clearRest .unix f s.world with
    | .error _ => none
    | .ok w => some (withWorld { s with
        queue := none, err := true, started := false, kill := .idle
        startedIn := startedByFinalizers f s } w, .quiet)
  | _ => none

/-! ## The loop thread -/

def entersTask (allocated : Bool) (s : State Fn) : Option (State Fn × Output) :=
  if s.thread = some .created ∧ s.kill = .idle then
    some ({ s with
      thread := some .entered
      queue := if allocated then some ⟨[], false⟩ else none
      world := resetHeads s.world }, .quiet)
  else none

/-- There is no heap yet, and so no finalizer. -/
def clears (s : State Fn) : Option (State Fn × Output) :=
  if s.thread = some .entered then
    match clearEventloop .unix (fun _ => true) .none s.world with
    | .error _ => none
    | .ok w => some (withWorld { s with thread := some .cleared } w, .quiet)
  else none

def createsHeap (s : State Fn) : Option (State Fn × Output) :=
  if s.thread = some .cleared then
    some ({ s with
      thread := some .script
      world := { s.world with context := some s.heaps }
      heaps := s.heaps + 1 }, .quiet)
  else none

/-- `_timer_cleanup` runs inside the critical section. -/
def takesCriticalSection (w : World Fn) : LoopCall Fn → Bool
  | .clear handle _ => ((w.registry.callback? handle).bind CallbackData.userData).isSome
  | .complete _ copy =>
    match copy.userData.bind w.registry.timer? with
    | none => false
    | some e => !e.repeats
  | _ => false

def performs (s : State Fn) (c : LoopCall Fn) : Option (State Fn) :=
  if takesCriticalSection s.world c = true ∧ s.kill ≠ .idle then none
  else
    (loopCall .unix s.world c).map fun w =>
      withWorld { s with startedIn := startedBy c s } w

def isComplete : LoopCall Fn → Bool
  | .complete _ _ => true
  | _ => false

def calls (c : LoopCall Fn) (s : State Fn) : Option (State Fn × Output) :=
  if (s.thread = some .script ∨ s.thread = some .dispatching) ∧ isComplete c = false then
    (performs s c).map fun t => (t, .quiet)
  else none

def scriptEnds (s : State Fn) : Option (State Fn × Output) :=
  if s.thread = some .script then some ({ s with thread := some .waiting }, .quiet) else none

/-- `eventloop_platform_queue_receive`: `none` while it waits. Its caller cannot see whether the
record is a new one. -/
def queueReceive (ok : Bool) (s : State Fn) : Option (Option Item × State Fn) :=
  match ok, s.queue with
  | false, _ => some (none, s)
  | true, none => some (none, s)
  | true, some ⟨_, true⟩ => some (none, s)
  | true, some ⟨items, false⟩ =>
    match BoundedFifo.step eventloopPlatformQueueLength items .receive with
    | some (rest, .handed item) => some (some item, { s with
        queue := some ⟨rest, false⟩, received := ⟨item.copy, some item.origin⟩ })
    | _ => none

def selects (s : State Fn) : Bool :=
  (s.world.registry.stash (uint64ToDouble s.received.copy.id)).isSome

def dispatch (item : Option Item) (s : State Fn) : State Fn × Output :=
  ({ s with thread := some (if selects s then .dispatching else .completing) },
    .iterates ⟨s.received, item.isSome, selects s, s.world.context, s.generation⟩)

def receives (ok : Bool) (s : State Fn) : Option (State Fn × Output) :=
  if s.thread = some .waiting then
    (queueReceive ok s).map fun answer => dispatch answer.1 answer.2
  else none

def callbackReturns (s : State Fn) : Option (State Fn × Output) :=
  if s.thread = some .dispatching then some ({ s with thread := some .completing }, .quiet)
  else none

def completes (o : StopOutcome) (s : State Fn) : Option (State Fn × Output) :=
  if s.thread = some .completing then
    match s.received.copy.completionHandler with
    | none => some ({ s with thread := some .waiting }, .quiet)
    | some .timerCallbackCompletion =>
      (performs s (.complete o s.received.copy)).map fun t =>
        ({ t with thread := some .waiting }, .completed s.received)
  else none

/-! ## The timer threads -/

/-- The end of a sleep. A thread sleeps again after its send, unless its timer is a one-shot. -/
def wakes (handle : Nat) (s : State Fn) : Option (State Fn × Output) :=
  match s.world.registry.platformTimers.get? handle with
  | some ⟨some item, repeats, _, true⟩ =>
    if ∀ u ∈ s.woken, u.handle ≠ handle then
      match timerTrigger s.world.registry item with
      | .error _ => none
      | .ok callback => some ({ s with
          world := { s.world with registry := { s.world.registry with
            platformTimers := s.world.registry.platformTimers.modify handle fun t =>
              { t with active := t.repeats } } }
          woken := ⟨handle, item, callback, repeats⟩ :: s.woken }, .quiet)
    else none
  | _ => none

/-- `xQueueSend`: `none` while it waits for room. -/
def queueSend (u : Sender) (ok : Bool) (s : State Fn) : Option (State Fn × Output) :=
  match ok, s.queue with
  | false, _ => some (s, .quiet)
  | true, none => some (s, .quiet)
  | true, some ⟨_, true⟩ => some (s, .quiet)
  | true, some ⟨items, false⟩ =>
    match s.world.registry.readCallback u.callback with
    | .error _ => none
    | .ok copy =>
      let item : Item := ⟨copy, s.pushes, s.world.context, s.startedIn u.handle⟩
      match BoundedFifo.step eventloopPlatformQueueLength items (.send item) with
      | some (items, _) => some ({ s with
          queue := some ⟨items, false⟩, pushes := s.pushes + 1 }, .pushed item)
      | none => none

def sends (u : Sender) (ok : Bool) (s : State Fn) : Option (State Fn × Output) :=
  if u ∈ s.woken then queueSend u ok { s with woken := s.woken.erase u } else none

def step (s : State Fn) : Action Fn → Option (State Fn × Output)
  | .start ok => start ok s
  | .killBegins => killBegins s
  | .loopJoined => loopJoined s
  | .timerJoined => timerJoined s
  | .killEnds f => killEnds f s
  | .entersTask allocated => entersTask allocated s
  | .clears => clears s
  | .createsHeap => createsHeap s
  | .calls c => calls c s
  | .scriptEnds => scriptEnds s
  | .wakes handle => wakes handle s
  | .sends sender ok => sends sender ok s
  | .receives ok => receives ok s
  | .callbackReturns => callbackReturns s
  | .completes o => completes o s

/-! ## Events are counted -/

namespace Output

def pushedSerial : Output → Option Nat
  | .pushed item => some item.origin.serial
  | _ => none

def dispatchedSerial : Output → Option Nat
  | .iterates round => round.record.origin.map Origin.serial
  | _ => none

def completedSerial : Output → Option Nat
  | .completed record => record.origin.map Origin.serial
  | _ => none

end Output

/-- Every round handles an item it has removed; an event is pushed once, and neither dispatched nor
completed more often. -/
structure ConsumesOnce (outs : List Output) : Prop where
  removed : ∀ round, .iterates round ∈ outs → round.removed = true
  pushed : (outs.filterMap Output.pushedSerial).Nodup
  dispatched : ∀ k, (outs.filterMap Output.dispatchedSerial).count k ≤
    (outs.filterMap Output.pushedSerial).count k
  completed : ∀ k, (outs.filterMap Output.completedSerial).count k ≤
    (outs.filterMap Output.pushedSerial).count k

def inService (s : State Fn) : Bool :=
  match s.queue with
  | some ⟨_, false⟩ => true
  | _ => false

/-- A receive finds a queue that is not locked, and its pthread calls answer 0. -/
def Served (s : State Fn) : Action Fn → Prop
  | .receives ok => ok = true ∧ inService s = true
  | _ => True

instance (s : State Fn) : (a : Action Fn) → Decidable (Served s a)
  | .receives _ => inferInstanceAs (Decidable (_ ∧ _))
  | .start _ => isTrue trivial
  | .killBegins => isTrue trivial
  | .loopJoined => isTrue trivial
  | .timerJoined => isTrue trivial
  | .killEnds _ => isTrue trivial
  | .entersTask _ => isTrue trivial
  | .clears => isTrue trivial
  | .createsHeap => isTrue trivial
  | .calls _ => isTrue trivial
  | .scriptEnds => isTrue trivial
  | .wakes _ => isTrue trivial
  | .sends _ _ => isTrue trivial
  | .callbackReturns => isTrue trivial
  | .completes _ => isTrue trivial

def queued : Option Queue → List Nat
  | none => []
  | some q => q.items.map fun item => item.origin.serial

/-- The event between its dispatch and its completion. -/
def inHand (thread : Option Pc) (received : Received) : List Nat :=
  match thread with
  | some .dispatching => (received.origin.map Origin.serial).toList
  | some .completing => (received.origin.map Origin.serial).toList
  | _ => []

/-- What one step does to the events: they go from the pushes to the queue, from there to the hand
of the loop, and from there to their completion. -/
structure Counts (s : State Fn) (o : Output) (t : State Fn) : Prop where
  removed : ∀ round, o = .iterates round → round.removed = true
  serial : o.pushedSerial = none ∧ t.pushes = s.pushes ∨
    o.pushedSerial = some s.pushes ∧ t.pushes = s.pushes + 1
  queue : ∀ k, o.dispatchedSerial.toList.count k + (queued t.queue).count k ≤
    (queued s.queue).count k + o.pushedSerial.toList.count k
  hand : ∀ k, o.completedSerial.toList.count k + (inHand t.thread t.received).count k ≤
    (inHand s.thread s.received).count k + o.dispatchedSerial.toList.count k

section Counting
variable {s t : State Fn} {o : Output}

theorem Counts.quiet (pushes : t.pushes = s.pushes)
    (queue : (queued t.queue).Sublist (queued s.queue))
    (hand : (inHand t.thread t.received).Sublist (inHand s.thread s.received)) :
    Counts s .quiet t := by
  refine ⟨by simp, Or.inl ⟨rfl, pushes⟩, fun k => ?_, fun k => ?_⟩
  · simpa [Output.dispatchedSerial, Output.pushedSerial] using queue.count_le k
  · simpa [Output.dispatchedSerial, Output.completedSerial] using hand.count_le k

/-- Only what a kill or a native call does to the world and the threads of timers. -/
theorem Counts.same (pushes : t.pushes = s.pushes) (queue : t.queue = s.queue)
    (thread : t.thread = s.thread) (received : t.received = s.received) : Counts s .quiet t := by
  apply Counts.quiet pushes
  · rw [queue]
  · rw [thread, received]

theorem performs_cases {c : LoopCall Fn} (h : performs s c = some t) :
    ∃ w, loopCall .unix s.world c = some w ∧
      t = withWorld { s with startedIn := startedBy c s } w := by
  unfold performs at h
  split at h
  · cases h
  · obtain ⟨w, hw, rfl⟩ := Option.map_eq_some_iff.mp h
    exact ⟨w, hw, rfl⟩

theorem queueReceive_cases {ok : Bool} {answer : Option Item} (h : queueReceive ok s = some (answer, t)) :
    (answer = none ∧ t = s ∧ (ok = false ∨ inService s = false)) ∨
      ∃ item rest, s.queue = some ⟨item :: rest, false⟩ ∧ answer = some item ∧ t = { s with
        queue := some ⟨rest, false⟩, received := ⟨item.copy, some item.origin⟩ } := by
  unfold queueReceive at h
  split at h
  · cases h
    exact Or.inl ⟨rfl, rfl, Or.inl rfl⟩
  · next hq =>
    cases h
    exact Or.inl ⟨rfl, rfl, Or.inr (by simp [inService, hq])⟩
  · next hq =>
    cases h
    exact Or.inl ⟨rfl, rfl, Or.inr (by simp [inService, hq])⟩
  · next items hq =>
    cases items with
    | nil => cases h
    | cons item rest =>
      cases h
      exact Or.inr ⟨item, rest, hq, rfl, rfl⟩

theorem queueSend_cases {u : Sender} {ok : Bool} (h : queueSend u ok s = some (t, o)) :
    (t = s ∧ o = .quiet) ∨
      ∃ items copy, s.queue = some ⟨items, false⟩ ∧
        o = .pushed ⟨copy, s.pushes, s.world.context, s.startedIn u.handle⟩ ∧
        t = { s with
          queue := some ⟨items ++ [⟨copy, s.pushes, s.world.context, s.startedIn u.handle⟩], false⟩
          pushes := s.pushes + 1 } := by
  unfold queueSend at h
  split at h
  · cases h
    exact Or.inl ⟨rfl, rfl⟩
  · cases h
    exact Or.inl ⟨rfl, rfl⟩
  · cases h
    exact Or.inl ⟨rfl, rfl⟩
  · next items hq =>
    split at h
    · cases h
    · next copy _ =>
      simp only [BoundedFifo.step] at h
      by_cases hroom : items.length < eventloopPlatformQueueLength
      · rw [if_pos hroom] at h
        cases h
        exact Or.inr ⟨items, copy, hq, rfl, rfl⟩
      · rw [if_neg hroom] at h
        cases h

theorem sends_counts {u : Sender} {ok : Bool} (h : sends u ok s = some (t, o)) : Counts s o t := by
  unfold sends at h
  split at h
  · rcases queueSend_cases h with ⟨rfl, rfl⟩ | ⟨items, copy, hq, rfl, rfl⟩
    · exact Counts.same rfl rfl rfl rfl
    · have hqueue : s.queue = some ⟨items, false⟩ := hq
      refine ⟨by simp, Or.inr ⟨rfl, rfl⟩, fun k => ?_, fun k => ?_⟩
      · simp [queued, hqueue, Output.dispatchedSerial, Output.pushedSerial]
      · simp [Output.dispatchedSerial, Output.completedSerial]
  · cases h

theorem hand_dispatch (answer : Option Item) (s : State Fn) :
    inHand (dispatch answer s).1.thread (dispatch answer s).1.received =
      (s.received.origin.map Origin.serial).toList := by
  unfold dispatch
  cases selects s <;> rfl

theorem receives_counts {ok : Bool} (hserved : Served s (.receives ok))
    (h : receives ok s = some (t, o)) : Counts s o t := by
  unfold receives at h
  split at h
  · next hthread =>
    obtain ⟨⟨answer, u⟩, hanswer, heq⟩ := Option.map_eq_some_iff.mp h
    obtain rfl : (dispatch answer u).1 = t := congrArg Prod.fst heq
    obtain rfl : (dispatch answer u).2 = o := congrArg Prod.snd heq
    rcases queueReceive_cases hanswer with ⟨_, _, hfails⟩ | ⟨item, rest, hq, rfl, rfl⟩
    · rcases hfails with hfails | hfails
      · rw [hserved.1] at hfails
        cases hfails
      · rw [hserved.2] at hfails
        cases hfails
    · refine ⟨?_, Or.inl ⟨rfl, rfl⟩, fun k => ?_, fun k => ?_⟩
      · rintro round ⟨⟩
        rfl
      · simp only [dispatch, queued, hq, Output.dispatchedSerial, Output.pushedSerial,
          Option.map_some, Option.toList_some, Option.toList_none, List.map_cons, List.count_cons,
          List.count_nil]
        omega
      · rw [hand_dispatch, hthread]
        simp [inHand, dispatch, Output.dispatchedSerial, Output.completedSerial]
  · cases h

theorem completes_counts {stop : StopOutcome} (h : completes stop s = some (t, o)) :
    Counts s o t := by
  unfold completes at h
  split at h
  · next hthread =>
    split at h
    · cases h
      exact Counts.quiet rfl (List.Sublist.refl _) (List.nil_sublist _)
    · obtain ⟨u, hu, heq⟩ := Option.map_eq_some_iff.mp h
      cases heq
      obtain ⟨w, _, rfl⟩ := performs_cases hu
      refine ⟨by simp, Or.inl ⟨rfl, rfl⟩, fun k => ?_, fun k => ?_⟩
      · simp [withWorld, Output.dispatchedSerial, Output.pushedSerial]
      · simp [inHand, hthread, Output.dispatchedSerial, Output.completedSerial]
  · cases h

theorem step_counts {a : Action Fn} (hserved : Served s a) (h : step s a = some (t, o)) :
    Counts s o t := by
  cases a with
  | start ok =>
    simp only [step, start, Option.ite_none_left_eq_some] at h
    obtain ⟨_, h⟩ := h
    cases h
    cases ok with
    | false => exact Counts.same rfl rfl rfl rfl
    | true => exact Counts.quiet rfl (List.Sublist.refl _) (List.nil_sublist _)
  | killBegins =>
    simp only [step, killBegins, Option.ite_none_right_eq_some] at h
    obtain ⟨_, h⟩ := h
    split at h
    · cases h
      exact Counts.quiet rfl (List.nil_sublist _) (List.Sublist.refl _)
    · split at h
      · cases h
      · next q hq =>
        cases h
        refine Counts.quiet rfl ?_ (List.Sublist.refl _)
        rw [hq]
        exact List.Sublist.refl _
  | loopJoined =>
    simp only [step, loopJoined, Option.ite_none_right_eq_some] at h
    obtain ⟨_, h⟩ := h
    cases h
    exact Counts.quiet rfl (List.Sublist.refl _) (List.nil_sublist _)
  | timerJoined =>
    simp only [step, timerJoined] at h
    split at h
    · split at h
      · cases h
      · cases h
        exact Counts.same rfl rfl rfl rfl
    · cases h
  | killEnds =>
    simp only [step, killEnds] at h
    split at h
    · split at h
      · cases h
      · cases h
        exact Counts.quiet rfl (List.nil_sublist _) (List.Sublist.refl _)
    · cases h
  | entersTask allocated =>
    simp only [step, entersTask, Option.ite_none_right_eq_some] at h
    obtain ⟨_, h⟩ := h
    cases h
    cases allocated <;> exact Counts.quiet rfl (List.nil_sublist _) (List.nil_sublist _)
  | clears =>
    simp only [step, clears, Option.ite_none_right_eq_some] at h
    obtain ⟨_, h⟩ := h
    split at h
    · cases h
    · cases h
      exact Counts.quiet rfl (List.Sublist.refl _) (List.nil_sublist _)
  | createsHeap =>
    simp only [step, createsHeap, Option.ite_none_right_eq_some] at h
    obtain ⟨_, h⟩ := h
    cases h
    exact Counts.quiet rfl (List.Sublist.refl _) (List.nil_sublist _)
  | calls c =>
    simp only [step, calls, Option.ite_none_right_eq_some] at h
    obtain ⟨u, hu, heq⟩ := Option.map_eq_some_iff.mp h.2
    cases heq
    obtain ⟨w, _, rfl⟩ := performs_cases hu
    exact Counts.same rfl rfl rfl rfl
  | scriptEnds =>
    simp only [step, scriptEnds, Option.ite_none_right_eq_some] at h
    obtain ⟨_, h⟩ := h
    cases h
    exact Counts.quiet rfl (List.Sublist.refl _) (List.nil_sublist _)
  | wakes handle =>
    simp only [step, wakes] at h
    split at h
    · simp only [Option.ite_none_right_eq_some] at h
      obtain ⟨_, h⟩ := h
      split at h
      · cases h
      · cases h
        exact Counts.same rfl rfl rfl rfl
    · cases h
  | sends u ok => exact sends_counts h
  | receives ok => exact receives_counts hserved h
  | callbackReturns =>
    simp only [step, callbackReturns, Option.ite_none_right_eq_some] at h
    obtain ⟨hthread, h⟩ := h
    cases h
    refine Counts.quiet rfl (List.Sublist.refl _) ?_
    rw [hthread]
    exact List.Sublist.refl _
  | completes o => exact completes_counts h

/-- The events so far, where `Counts` leaves them. -/
structure Counted (outs : List Output) (s : State Fn) : Prop where
  removed : ∀ round, .iterates round ∈ outs → round.removed = true
  pushed : (outs.filterMap Output.pushedSerial).Nodup
  serials : ∀ k ∈ outs.filterMap Output.pushedSerial, k < s.pushes
  queue : ∀ k, (outs.filterMap Output.dispatchedSerial).count k + (queued s.queue).count k ≤
    (outs.filterMap Output.pushedSerial).count k
  hand : ∀ k, (outs.filterMap Output.completedSerial).count k +
    (inHand s.thread s.received).count k ≤ (outs.filterMap Output.dispatchedSerial).count k

theorem initial_counted : Counted [] (initial : State Fn) :=
  ⟨by simp, List.nodup_nil, by simp, fun _ => Nat.le_refl 0, fun _ => Nat.le_refl 0⟩

theorem filterMap_concat {β : Type} (f : Output → Option β) (outs : List Output) (o : Output) :
    (outs ++ [o]).filterMap f = outs.filterMap f ++ (f o).toList := by
  rw [List.filterMap_append]
  cases hf : f o with
  | none => rw [List.filterMap_cons_none hf]; rfl
  | some b => rw [List.filterMap_cons_some hf]; rfl

theorem Counted.step {outs : List Output} (h : Counted outs s) (hs : Counts s o t) :
    Counted (outs ++ [o]) t := by
  refine ⟨?_, ?_, ?_, fun k => ?_, fun k => ?_⟩
  · intro round hround
    rcases List.mem_append.mp hround with hold | hnew
    · exact h.removed round hold
    · exact hs.removed round (List.mem_singleton.mp hnew).symm
  · rw [filterMap_concat]
    rcases hs.serial with ⟨hnone, _⟩ | ⟨hsome, _⟩
    · rw [hnone, Option.toList_none, List.append_nil]
      exact h.pushed
    · rw [hsome, Option.toList_some]
      apply List.nodup_append.mpr
      refine ⟨h.pushed, List.nodup_singleton _, ?_⟩
      intro a ha b hb hab
      rw [List.mem_singleton.mp hb] at hab
      exact Nat.lt_irrefl _ (hab ▸ h.serials a ha)
  · intro k hk
    rw [filterMap_concat] at hk
    rcases hs.serial with ⟨hnone, hpushes⟩ | ⟨hsome, hpushes⟩
    · rw [hnone, Option.toList_none, List.append_nil] at hk
      rw [hpushes]
      exact h.serials k hk
    · rw [hsome, Option.toList_some] at hk
      rw [hpushes]
      rcases List.mem_append.mp hk with hold | hnew
      · exact Nat.lt_succ_of_lt (h.serials k hold)
      · rw [List.mem_singleton.mp hnew]
        exact Nat.lt_succ_self _
  · have hold := h.queue k
    have hnew := hs.queue k
    rw [filterMap_concat, filterMap_concat, List.count_append, List.count_append]
    omega
  · have hold := h.hand k
    have hnew := hs.hand k
    rw [filterMap_concat, filterMap_concat, List.count_append, List.count_append]
    omega

end Counting

/-- While no receive fails, each round handles an event of its own. -/
theorem rounds_consume_events (actions : List (Action Fn)) {s : State Fn} {outs : List Output}
    (hserved : Runs.Along Served step initial actions)
    (hrun : Runs.run step initial actions = some (s, outs)) : ConsumesOnce outs := by
  have whole : Counted outs s := by
    apply Runs.run_along (P := fun _ seen s => Counted seen s) ?_ initial_counted hserved hrun
    intro _ seen s a t o hpast hthis hstep
    exact hpast.step (step_counts hthis hstep)
  refine ⟨whole.removed, whole.pushed, fun k => ?_, fun k => ?_⟩
  · have hqueue := whole.queue k
    omega
  · have hqueue := whole.queue k
    have hhand := whole.hand k
    omega

/-- A loop thread up to the end of a program that starts one interval. -/
def intervalProgram (fn : Nat) : List (Action Nat) :=
  [.start true, .entersTask true, .clears, .createsHeap,
    .calls (.set true ⟨some fn, some 250, some 1, ⟨some 2, some 3, true⟩⟩), .scriptEnds]

/-- The interval expires and its function runs. -/
def expiry : List (Action Nat) :=
  [.wakes 3, .sends ⟨3, 2, some 1, true⟩ true, .receives true, .callbackReturns,
    .completes ⟨true, true⟩]

theorem two_expiries : ∃ s outs,
    Runs.run step initial (intervalProgram 7 ++ (expiry ++ expiry)) = some (s, outs) ∧
      ConsumesOnce outs := by
  have hserved : Runs.Along Served step (initial : State Nat)
      (intervalProgram 7 ++ (expiry ++ expiry)) := by decide +kernel
  exact ⟨_, _, rfl, rounds_consume_events _ hserved rfl⟩

/-- The queue is locked before the thread is cancelled: the event of the last round is dispatched
once more. -/
theorem event_dispatched_again : ∃ s outs, Runs.run step initial
    (intervalProgram 7 ++ (expiry ++ [.killBegins, .receives true])) = some (s, outs) ∧
      ¬ ConsumesOnce outs := by
  refine ⟨_, _, rfl, ?_⟩
  intro honce
  exact absurd (honce.dispatched 0) (by decide)

end JsEmbeddedPlatform.LoopGenerations
