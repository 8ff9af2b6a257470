import JsEmbeddedPlatform.Shared.Runs
import JsEmbeddedPlatform.RegistryConsistency

/-!
# The event loop in one heap generation

The loop thread runs JavaScript, receives copies of callback records and completes
them; timers expire at any moment and send such copies. A step is one native call,
one expiry, one send that waited, or one move of the loop itself. Loaded modules
send no events here.
-/

set_option autoImplicit false

namespace JsEmbeddedPlatform.Timers

open Registry

variable {Fn : Type}

def eventloopPlatformQueueLength : Nat := 16

/-- A timer whose `xQueueSend` waits for room, with the pointers it holds. -/
structure Sender where
  handle : Nat
  item : Nat
  callback : Option Nat
  repeats : Bool
deriving DecidableEq, Repr

/-- Where the loop thread is; `dispatching` runs the function of a copy, `completing` its
completion handler. -/
inductive Phase where
  | script
  | waiting
  | dispatching (copy : Callback)
  | completing (copy : Callback)
  | crashed
deriving DecidableEq, Repr

namespace Phase

/-- Native functions are called from the program text and from dispatched functions. -/
def runsScript : Phase → Bool
  | .script => true
  | .dispatching _ => true
  | _ => false

/-- `_received_callback` as long as it is used. -/
def copy? : Phase → Option Callback
  | .dispatching copy => some copy
  | .completing copy => some copy
  | _ => none

end Phase

/-- What a property of a JavaScript object holds. -/
inductive JsValue (Fn : Type) where
  | function (fn : Fn)
  | other
deriving DecidableEq

/-- `handles` are the pointers JavaScript got so far. `undrained` are timers of stm32 whose
stop and delete commands wait for the timer task, which waits for room in the event queue.
`inherited` are the numeric properties found on the prototypes of the callbacks object, none
of them with a getter. -/
structure Loop (Fn : Type) where
  registry : Registry Fn
  queue : List Callback
  blocked : List Sender
  undrained : List (Nat × PlatformTimer)
  handles : List Nat
  phase : Phase
  inherited : Nat → Option (JsValue Fn)

inductive Action (Fn : Type) where
  | set (repeats : Bool) (call : SetCall Fn)
  | clear (handle : Nat) (o : StopOutcome)
  | inherit (key : Nat) (value : Option (JsValue Fn))
  | expire (handle : Nat)
  | expireLate (handle : Nat)
  | drain
  | resume (sender : Sender)
  | scriptEnds
  | receive
  | callbackReturns
  | complete (o : StopOutcome)

inductive Event (Fn : Type) where
  | registered (handle id : Nat) (fn : Fn) (repeats : Bool)
  | threw
  | cleared (handle : Nat)
  | queued (id : Nat)
  | invoked (id : Nat) (fn : Fn)
  | skipped (id : Nat)
  | quiet
  | fault (f : Fault)
deriving DecidableEq

/-- What the allocators and `xTimerCreate` hand out is not in use. -/
def SetCall.Grantable (call : SetCall Fn) (r : Registry Fn) : Prop :=
  (∀ p ∈ call.block, p ∉ r.callbacks.live) ∧ (∀ i ∈ call.outcome.item, i ∉ r.timers.live) ∧
    ∀ p ∈ call.outcome.timer, p ∉ r.platformTimers.live

instance (call : SetCall Fn) (r : Registry Fn) : Decidable (call.Grantable r) :=
  inferInstanceAs (Decidable (_ ∧ _ ∧ _))

namespace Loop

def initial : Loop Fn := ⟨Registry.initial, [], [], [], [], .script, fun _ => none⟩

def crash (l : Loop Fn) (f : Fault) : Loop Fn × Event Fn :=
  ({ l with phase := .crashed }, .fault f)

/-- After a clear or a completion. On unix the joined thread of a deleted timer no longer
waits; it takes the robust mutex of the queue with it if it did, and the loop is not
followed further than that clear. On stm32 the commands wait while the timer task does. -/
def settle (port : Port) (l : Loop Fn) (r : Registry Fn) : Loop Fn :=
  match port with
  | .unix => { l with
      registry := r
      blocked := l.blocked.filter fun s => (r.platformTimers.get? s.handle).isSome }
  | .stm32 => { l with
      registry := r
      undrained := l.undrained ++
        if l.blocked = [] then []
        else l.registry.platformTimers.blocks.filter fun b =>
          b.2.active && (r.platformTimers.get? b.1).isNone }

/-- `xQueueSend`: the record is copied when there is room. -/
def send (l : Loop Fn) (s : Sender) : Loop Fn × Event Fn :=
  if l.queue.length < eventloopPlatformQueueLength then
    match l.registry.readCallback s.callback with
    | .error f => l.crash f
    | .ok copy => ({ l with queue := l.queue ++ [copy] }, .queued copy.id)
  else ({ l with blocked := l.blocked ++ [s] }, .quiet)

/-- One expiry; a timer that does not repeat expires once. -/
def trigger (l : Loop Fn) (handle : Nat) (p : PlatformTimer) : Loop Fn × Event Fn :=
  match p.item with
  | none => (l, .quiet)
  | some item =>
    match timerTrigger l.registry item with
    | .error f => l.crash f
    | .ok callback => l.send ⟨handle, item, callback, p.repeats⟩

def expired (l : Loop Fn) (handle : Nat) : Loop Fn :=
  { l with registry := { l.registry with
      platformTimers := l.registry.platformTimers.modify handle fun t =>
        { t with active := t.repeats } } }

/-- The timer task of stm32 serves one timer at a time; on unix each timer has a thread. -/
def CanExpire (port : Port) (l : Loop Fn) (handle : Nat) : Prop :=
  match port with
  | .unix => ∀ s ∈ l.blocked, s.handle ≠ handle
  | .stm32 => l.blocked = []

instance (port : Port) (l : Loop Fn) (handle : Nat) : Decidable (l.CanExpire port handle) :=
  match port with
  | .unix => inferInstanceAs (Decidable (∀ s ∈ l.blocked, _))
  | .stm32 => inferInstanceAs (Decidable (_ = _))

/-- `duk_get_prop` on the callbacks object. -/
def lookup (l : Loop Fn) (key : Nat) : Option (JsValue Fn) :=
  ((l.registry.stash key).map .function).or (l.inherited key)

/-- Nothing catches what `duk_require_function` throws here. -/
def receive (l : Loop Fn) (copy : Callback) : Loop Fn × Event Fn :=
  match l.lookup (uint64ToDouble copy.id) with
  | some (.function fn) => ({ l with phase := .dispatching copy }, .invoked copy.id fn)
  | some .other => l.crash .notCallable
  | none => ({ l with phase := .completing copy }, .skipped copy.id)

def complete (port : Port) (l : Loop Fn) (o : StopOutcome) (copy : Callback) :
    Loop Fn × Event Fn :=
  match copy.completionHandler with
  | none => ({ l with phase := .waiting }, .quiet)
  | some .timerCallbackCompletion =>
    match timerCallbackCompletion port o copy l.registry with
    | .error f => l.crash f
    | .ok r => ({ l.settle port r with phase := .waiting }, .quiet)

def set (port : Port) (l : Loop Fn) (repeats : Bool) (call : SetCall Fn) : Loop Fn × Event Fn :=
  match eventloopNativeSet repeats port call l.registry, call.fn with
  | .error f, _ => l.crash f
  | .ok (.returns (some handle), r), some fn =>
    ({ l with registry := r, handles := handle :: l.handles },
      .registered handle l.registry.callbackSequenceId fn repeats)
  | .ok (_, r), _ => ({ l with registry := r }, .threw)

def clear (port : Port) (l : Loop Fn) (handle : Nat) (o : StopOutcome) : Loop Fn × Event Fn :=
  match eventloopNativeClearTimer port o (some handle) l.registry with
  | .error f => l.crash f
  | .ok r => (l.settle port r, .cleared handle)

end Loop

def loopStep (port : Port) (l : Loop Fn) : Action Fn → Option (Loop Fn × Event Fn)
  | .set repeats call =>
    if l.phase.runsScript = true ∧ call.Grantable l.registry then some (l.set port repeats call)
    else none
  | .clear handle o =>
    if l.phase.runsScript = true ∧ handle ∈ l.handles then some (l.clear port handle o) else none
  | .inherit key value =>
    if l.phase.runsScript = true then
      some ({ l with inherited := Function.update l.inherited key value }, .quiet)
    else none
  | .expire handle =>
    match l.registry.platformTimers.get? handle with
    | some p =>
      if l.phase ≠ .crashed ∧ p.active = true ∧ l.CanExpire port handle then
        some ((l.expired handle).trigger handle p)
      else none
    | none => none
  | .expireLate handle =>
    match l.undrained.lookup handle with
    | some p =>
      if l.phase ≠ .crashed ∧ l.blocked = [] then
        some ({ l with undrained := l.undrained.filter fun b => b.1 ≠ handle ∨ b.2.repeats }.trigger
          handle p)
      else none
    | none => none
  | .drain =>
    if l.phase ≠ .crashed ∧ l.blocked = [] then some ({ l with undrained := [] }, .quiet) else none
  | .resume sender =>
    if l.phase ≠ .crashed ∧ sender ∈ l.blocked ∧ l.queue.length < eventloopPlatformQueueLength then
      some ({ l with blocked := l.blocked.erase sender }.send sender)
    else none
  | .scriptEnds =>
    if l.phase = .script then some ({ l with phase := .waiting }, .quiet) else none
  | .receive =>
    match l.phase, l.queue with
    | .waiting, copy :: rest => some ({ l with queue := rest }.receive copy)
    | _, _ => none
  | .callbackReturns =>
    match l.phase with
    | .dispatching copy => some ({ l with phase := .completing copy }, .quiet)
    | _ => none
  | .complete o =>
    match l.phase with
    | .completing copy => some (l.complete port o copy)
    | _ => none

theorem settle_registry (port : Port) (l : Loop Fn) (r : Registry Fn) :
    (l.settle port r).registry = r := by
  cases port <;> rfl

theorem settle_blocked (port : Port) (l : Loop Fn) (r : Registry Fn) :
    (l.settle port r).blocked.Sublist l.blocked := by
  cases port with
  | unix => exact List.filter_sublist
  | stm32 => exact List.Sublist.refl _

/-- What an action comes to, and what allows it. -/
inductive Stepped (port : Port) (l l' : Loop Fn) (event : Event Fn) : Action Fn → Prop
  | set {repeats : Bool} {call : SetCall Fn} (script : l.phase.runsScript = true)
      (grant : call.Grantable l.registry) (becomes : l.set port repeats call = (l', event)) :
      Stepped port l l' event (.set repeats call)
  | clear {handle : Nat} {o : StopOutcome} (script : l.phase.runsScript = true)
      (known : handle ∈ l.handles) (becomes : l.clear port handle o = (l', event)) :
      Stepped port l l' event (.clear handle o)
  | inherit {key : Nat} {value : Option (JsValue Fn)} (script : l.phase.runsScript = true)
      (becomes : ({ l with inherited := Function.update l.inherited key value }, Event.quiet) =
        (l', event)) :
      Stepped port l l' event (.inherit key value)
  | expire {handle : Nat} {p : PlatformTimer} (timer : l.registry.platformTimers.get? handle = some p)
      (running : l.phase ≠ .crashed) (active : p.active = true) (can : l.CanExpire port handle)
      (becomes : (l.expired handle).trigger handle p = (l', event)) :
      Stepped port l l' event (.expire handle)
  | expireLate {handle : Nat} {p : PlatformTimer} (late : l.undrained.lookup handle = some p)
      (running : l.phase ≠ .crashed) (free : l.blocked = [])
      (becomes : { l with
          undrained := l.undrained.filter fun b => b.1 ≠ handle ∨ b.2.repeats }.trigger handle p =
        (l', event)) :
      Stepped port l l' event (.expireLate handle)
  | drain (running : l.phase ≠ .crashed) (free : l.blocked = [])
      (becomes : ({ l with undrained := [] }, Event.quiet) = (l', event)) :
      Stepped port l l' event .drain
  | resume {sender : Sender} (running : l.phase ≠ .crashed) (waits : sender ∈ l.blocked)
      (room : l.queue.length < eventloopPlatformQueueLength)
      (becomes : { l with blocked := l.blocked.erase sender }.send sender = (l', event)) :
      Stepped port l l' event (.resume sender)
  | scriptEnds (script : l.phase = .script)
      (becomes : ({ l with phase := .waiting }, Event.quiet) = (l', event)) :
      Stepped port l l' event .scriptEnds
  | receive {copy : Callback} {rest : List Callback} (waiting : l.phase = .waiting)
      (queue : l.queue = copy :: rest)
      (becomes : { l with queue := rest }.receive copy = (l', event)) :
      Stepped port l l' event .receive
  | callbackReturns {copy : Callback} (dispatching : l.phase = .dispatching copy)
      (becomes : ({ l with phase := .completing copy }, Event.quiet) = (l', event)) :
      Stepped port l l' event .callbackReturns
  | complete {o : StopOutcome} {copy : Callback} (completing : l.phase = .completing copy)
      (becomes : l.complete port o copy = (l', event)) :
      Stepped port l l' event (.complete o)

theorem loopStep_cases {port : Port} {l l' : Loop Fn} {action : Action Fn} {event : Event Fn}
    (step : loopStep port l action = some (l', event)) : Stepped port l l' event action := by
  cases action with
  | set repeats call =>
    obtain ⟨hcan, becomes⟩ := Option.ite_none_right_eq_some.mp step
    exact .set hcan.1 hcan.2 (Option.some.inj becomes)
  | clear handle o =>
    obtain ⟨hcan, becomes⟩ := Option.ite_none_right_eq_some.mp step
    exact .clear hcan.1 hcan.2 (Option.some.inj becomes)
  | inherit key value =>
    obtain ⟨script, becomes⟩ := Option.ite_none_right_eq_some.mp step
    exact .inherit script (Option.some.inj becomes)
  | expire handle =>
    simp only [loopStep] at step
    split at step
    · next p timer =>
      obtain ⟨hcan, becomes⟩ := Option.ite_none_right_eq_some.mp step
      exact .expire timer hcan.1 hcan.2.1 hcan.2.2 (Option.some.inj becomes)
    · cases step
  | expireLate handle =>
    simp only [loopStep] at step
    split at step
    · next p late =>
      obtain ⟨hcan, becomes⟩ := Option.ite_none_right_eq_some.mp step
      exact .expireLate late hcan.1 hcan.2 (Option.some.inj becomes)
    · cases step
  | drain =>
    obtain ⟨hcan, becomes⟩ := Option.ite_none_right_eq_some.mp step
    exact .drain hcan.1 hcan.2 (Option.some.inj becomes)
  | resume sender =>
    obtain ⟨hcan, becomes⟩ := Option.ite_none_right_eq_some.mp step
    exact .resume hcan.1 hcan.2.1 hcan.2.2 (Option.some.inj becomes)
  | scriptEnds =>
    obtain ⟨hcan, becomes⟩ := Option.ite_none_right_eq_some.mp step
    exact .scriptEnds hcan (Option.some.inj becomes)
  | receive =>
    simp only [loopStep] at step
    split at step
    · next copy rest waiting queue => exact .receive waiting queue (Option.some.inj step)
    · cases step
  | callbackReturns =>
    simp only [loopStep] at step
    split at step
    · next copy dispatching => exact .callbackReturns dispatching (Option.some.inj step)
    · cases step
  | complete o =>
    simp only [loopStep] at step
    split at step
    · next copy completing => exact .complete completing (Option.some.inj step)
    · cases step

end JsEmbeddedPlatform.Timers
