import Mathlib.Data.Nat.ModEq
import JsEmbeddedPlatform.Shared.IntrusiveList

/-!
# Callback and timer registries

`src/eventloop.c` keeps a list of callback records and an object `_callbacks` in
the Duktape stash; each `platform/eventloop.c` keeps a list of timer items and
the timers of its own system. All of it is pointers: a read or a write through
an address that is not a live block is a `Fault`, and so is a second release.
-/

set_option autoImplicit false

namespace JsEmbeddedPlatform.Timers

inductive Port where
  | unix
  | stm32
deriving DecidableEq, Repr

inductive ModuleRet where
  | succ
  | mem
  | timeout
deriving DecidableEq, Repr

inductive CompletionHandler where
  | timerCallbackCompletion
deriving DecidableEq, Repr

/-- Nothing in the platform installs an argument handler. -/
inductive ArgHandler where
deriving DecidableEq, Repr

structure Callback where
  id : Nat
  next : Option Nat
  prev : Option Nat
  argHandler : Option ArgHandler
  completionHandler : Option CompletionHandler
  userData : Option Nat
deriving DecidableEq, Repr

/-- `timer` is the handle of the platform timer, not yet set while it is `none`. -/
structure TimerItem where
  callback : Option Nat
  timer : Option Nat
  repeats : Bool
  next : Option Nat
  prev : Option Nat
deriving DecidableEq, Repr

/-- The thread of a timer on unix, a software timer of FreeRTOS on stm32. An
`active` one will still expire; `item` is the pointer it was given. -/
structure PlatformTimer where
  item : Option Nat
  repeats : Bool
  timeout : Int
  active : Bool
deriving DecidableEq, Repr

inductive Fault where
  | nullPointer
  | releasedCallback (p : Nat)
  | releasedTimer (p : Nat)
  | releasedPlatformTimer (p : Nat)
  | notCallable
deriving DecidableEq, Repr

/-- The variables of both files; `Fn` is the type of JavaScript functions. -/
structure Registry (Fn : Type) where
  callbackSequenceId : Nat
  callbackListFirst : Option Nat
  callbacks : Heap Callback
  stash : Nat → Option Fn
  timerFirst : Option Nat
  timerLast : Option Nat
  timers : Heap TimerItem
  platformTimers : Heap PlatformTimer

def deref {α : Type} (h : Heap α) (stale : Nat → Fault) : Option Nat → Except Fault α
  | none => .error .nullPointer
  | some p =>
    match h.get? p with
    | none => .error (stale p)
    | some a => .ok a

def store {α : Type} (h : Heap α) (stale : Nat → Fault) (p : Option Nat) (f : α → α) :
    Except Fault (Heap α) :=
  match p with
  | none => .error .nullPointer
  | some a =>
    match h.get? a with
    | none => .error (stale a)
    | some _ => .ok (h.modify a f)

def release {α : Type} (h : Heap α) (stale : Nat → Fault) (p : Option Nat) :
    Except Fault (Heap α) :=
  match p with
  | none => .error .nullPointer
  | some a =>
    match h.get? a with
    | none => .error (stale a)
    | some _ => .ok (h.free a)

/-- The double nearest to a 64-bit unsigned integer, ties to even; below 2^53 the integer. -/
def uint64ToDouble (n : Nat) : Nat :=
  if n < 2 ^ 53 then n
  else
    let unit := 2 ^ (n.log2 - 52)
    let q := n / unit
    let r := n % unit
    if 2 * r < unit ∨ (2 * r = unit ∧ q % 2 = 0) then q * unit else (q + 1) * unit

theorem uint64ToDouble_small {n : Nat} (h : n < 2 ^ 53) : uint64ToDouble n = n := by
  simp only [uint64ToDouble, if_pos h]

section Operations
variable {Fn : Type}

namespace Registry

def readCallback (r : Registry Fn) (p : Option Nat) : Except Fault Callback :=
  deref r.callbacks .releasedCallback p

def writeCallback (r : Registry Fn) (p : Option Nat) (f : Callback → Callback) :
    Except Fault (Registry Fn) := do
  let callbacks ← store r.callbacks .releasedCallback p f
  pure { r with callbacks := callbacks }

def readTimer (r : Registry Fn) (p : Option Nat) : Except Fault TimerItem :=
  deref r.timers .releasedTimer p

def writeTimer (r : Registry Fn) (p : Option Nat) (f : TimerItem → TimerItem) :
    Except Fault (Registry Fn) := do
  let timers ← store r.timers .releasedTimer p f
  pure { r with timers := timers }

end Registry

open Registry

/-- `block` is what `malloc` returned. -/
def eventloopCallbackCreateFromContext (fn : Fn) (block : Option Nat) (r : Registry Fn) :
    Except Fault (Option Nat × Registry Fn) :=
  match block with
  | none => .ok (none, r)
  | some callback => do
    let id := r.callbackSequenceId
    let record : Callback :=
      { id := id
        argHandler := none
        userData := none
        completionHandler := none
        prev := none
        next := r.callbackListFirst }
    let r1 := { r with
      callbackSequenceId := (id + 1) % 2 ^ 64
      callbacks := r.callbacks.alloc callback record }
    let r2 ← match r.callbackListFirst with
      | some first => r1.writeCallback (some first) fun c => { c with prev := some callback }
      | none => pure r1
    pure (some callback, { r2 with
      callbackListFirst := some callback
      stash := Function.update r2.stash (uint64ToDouble id) (some fn) })

def eventloopCallbackDestroy (callback : Option Nat) (r : Registry Fn) :
    Except Fault (Registry Fn) := do
  let c ← r.readCallback callback
  let r1 := { r with stash := Function.update r.stash (uint64ToDouble c.id) none }
  let r2 ← match c.prev with
    | some prev => r1.writeCallback (some prev) fun x => { x with next := c.next }
    | none => pure { r1 with callbackListFirst := c.next }
  let r3 ← match c.next with
    | some next => r2.writeCallback (some next) fun x => { x with prev := c.prev }
    | none => pure r2
  let callbacks ← release r3.callbacks .releasedCallback callback
  pure { r3 with callbacks := callbacks }

/-- The second half of `_timer_cleanup`, the same on both ports. -/
def timerUnlink (timer : Option Nat) (r : Registry Fn) : Except Fault (Registry Fn) := do
  let t ← r.readTimer timer
  let r1 ← match t.prev with
    | some prev => r.writeTimer (some prev) fun x => { x with next := t.next }
    | none => pure { r with timerFirst := t.next }
  let r2 ← match t.next with
    | some next => r1.writeTimer (some next) fun x => { x with prev := t.prev }
    | none => pure { r1 with timerLast := t.prev }
  let timers ← release r2.timers .releasedTimer timer
  pure { r2 with timers := timers }

/-- What `xTimerStop` and `xTimerDelete` answer; unix has no such calls that can fail. -/
structure StopOutcome where
  stopped : Bool
  deleted : Bool
deriving DecidableEq, Repr

/-- `pthread_cancel` and `pthread_join`, or `xTimerDelete`. -/
def deletePlatformTimer (handle : Option Nat) (r : Registry Fn) : Registry Fn :=
  { r with platformTimers :=
      match handle with
      | some p => r.platformTimers.free p
      | none => r.platformTimers }

/-- `xTimerStop`: the timer stays, and will not expire. -/
def stopPlatformTimer (handle : Option Nat) (r : Registry Fn) : Registry Fn :=
  { r with platformTimers :=
      match handle with
      | some p => r.platformTimers.modify p fun t => { t with active := false }
      | none => r.platformTimers }

def timerCleanup (port : Port) (o : StopOutcome) (timer : Option Nat) (r : Registry Fn) :
    Except Fault (ModuleRet × Registry Fn) := do
  let t ← r.readTimer timer
  if port = .stm32 ∧ o.deleted = false then pure (.timeout, r)
  else
    let r1 ← eventloopCallbackDestroy t.callback (deletePlatformTimer t.timer r)
    let r2 ← timerUnlink timer r1
    pure (.succ, r2)

/-- Called with the record the loop received: a copy, not the record in the heap. -/
def timerCallbackCompletion (port : Port) (o : StopOutcome) (copy : Callback)
    (r : Registry Fn) : Except Fault (Registry Fn) :=
  match copy.userData with
  | none => .ok r
  | some timer => do
    let t ← r.readTimer (some timer)
    if t.repeats = false then
      let (_, r1) ← timerCleanup port o (some timer) r
      pure r1
    else pure r

/-- unix: `malloc` and `pthread_create`; stm32: `pvPortMalloc`, `xTimerCreate`, `xTimerStart`. -/
structure StartOutcome where
  item : Option Nat
  timer : Option Nat
  started : Bool
deriving DecidableEq, Repr

def timerAppend (item : Nat) (r : Registry Fn) : Except Fault (Registry Fn) :=
  match r.timerFirst with
  | none => .ok { r with timerFirst := some item, timerLast := some item }
  | some _ => do
    let r1 ← r.writeTimer r.timerLast fun t => { t with next := some item }
    let r2 ← r1.writeTimer (some item) fun t => { t with prev := r1.timerLast }
    pure { r2 with timerLast := some item }

/-- The first statement of both `eventloop_platform_timer_start`. -/
def destroyAfterFirstTrigger (callback : Option Nat) (repeats : Bool) (r : Registry Fn) :
    Except Fault (Registry Fn) :=
  if repeats = false then
    r.writeCallback callback fun c =>
      { c with completionHandler := some .timerCallbackCompletion }
  else .ok r

def timerStartUnix (o : StartOutcome) (callback : Option Nat) (timeout : Int) (repeats : Bool)
    (r : Registry Fn) : Except Fault (ModuleRet × Registry Fn) := do
  let r1 ← destroyAfterFirstTrigger callback repeats r
  match o.item with
  | none => pure (.mem, r1)
  | some item =>
    let record : TimerItem :=
      { callback := callback, timer := none, repeats := repeats, next := none, prev := none }
    let r2 ← timerAppend item { r1 with timers := r1.timers.alloc item record }
    let r3 ← r2.writeCallback callback fun c => { c with userData := some item }
    match o.timer with
    | none => pure (.timeout, r3)
    | some thread =>
      let started : PlatformTimer :=
        { item := some item, repeats := repeats, timeout := timeout, active := true }
      let r4 ← r3.writeTimer (some item) fun t => { t with timer := some thread }
      pure (.succ, { r4 with platformTimers := r4.platformTimers.alloc thread started })

def timerStartStm32 (o : StartOutcome) (callback : Option Nat) (timeout : Int) (repeats : Bool)
    (r : Registry Fn) : Except Fault (ModuleRet × Registry Fn) := do
  let r1 ← destroyAfterFirstTrigger callback repeats r
  match o.timer with
  | none => pure (.mem, r1)
  | some timer =>
    let created : PlatformTimer :=
      { item := none, repeats := repeats, timeout := timeout, active := false }
    let r2 := { r1 with platformTimers := r1.platformTimers.alloc timer created }
    match o.item with
    | none => pure (.mem, r2)
    | some item =>
      let record : TimerItem :=
        { callback := callback, timer := some timer, repeats := repeats, next := none, prev := none }
      let r3 ← timerAppend item { r2 with timers := r2.timers.alloc item record }
      let r4 := { r3 with
        platformTimers := r3.platformTimers.modify timer fun t => { t with item := some item } }
      let r5 ← r4.writeCallback callback fun c => { c with userData := some item }
      if o.started = false then pure (.timeout, r5)
      else pure (.succ, { r5 with
        platformTimers := r5.platformTimers.modify timer fun t => { t with active := true } })

def eventloopPlatformTimerStart (port : Port) (o : StartOutcome) (callback : Option Nat)
    (timeout : Int) (repeats : Bool) (r : Registry Fn) :
    Except Fault (ModuleRet × Registry Fn) :=
  match port with
  | .unix => timerStartUnix o callback timeout repeats r
  | .stm32 => timerStartStm32 o callback timeout repeats r

def eventloopPlatformTimerStop (port : Port) (o : StopOutcome) (callback : Option Nat)
    (r : Registry Fn) : Except Fault (ModuleRet × Registry Fn) := do
  let c ← r.readCallback callback
  match c.userData with
  | none => pure (.mem, r)
  | some timer =>
    match port with
    | .unix =>
      let (_, r1) ← timerCleanup .unix o (some timer) r
      pure (.succ, r1)
    | .stm32 =>
      let t ← r.readTimer (some timer)
      if o.stopped = false then pure (.timeout, r)
      else
        -- the result of the cleanup is not looked at
        let (_, r1) ← timerCleanup .stm32 o (some timer) (stopPlatformTimer t.timer r)
        pure (.succ, r1)

/-- `(long) timeout` of a value that fits 32 bits: `long` has 64 bits on unix and 32 on stm32. -/
def castLong (port : Port) (timeout : Nat) : Int :=
  match port with
  | .unix => timeout
  | .stm32 => if timeout % 2 ^ 32 < 2 ^ 31 then (timeout % 2 ^ 32 : Nat)
      else (timeout % 2 ^ 32 : Nat) - 2 ^ 32

inductive JsResult where
  | returns (handle : Option Nat)
  | throws
deriving DecidableEq, Repr

/-- What one call of `setTimeout` or `setInterval` meets: its arguments as the Duktape
checks see them and the blocks and handles the system grants. -/
structure SetCall (Fn : Type) where
  fn : Option Fn
  timeout : Option Nat
  block : Option Nat
  outcome : StartOutcome

/-- The body shared by `eventloop_native_set_timeout` and `eventloop_native_set_interval`. -/
def eventloopNativeSet (repeats : Bool) (port : Port) (call : SetCall Fn) (r : Registry Fn) :
    Except Fault (JsResult × Registry Fn) :=
  match call.timeout, call.fn with
  | some timeout, some fn => do
    let (callback, r1) ← eventloopCallbackCreateFromContext fn call.block r
    let (ret, r2) ← eventloopPlatformTimerStart port call.outcome callback (castLong port timeout)
      repeats r1
    if ret ≠ .succ then pure (.throws, r2) else pure (.returns callback, r2)
  | _, _ => .ok (.throws, r)

def eventloopNativeSetTimeout (port : Port) (call : SetCall Fn) (r : Registry Fn) :
    Except Fault (JsResult × Registry Fn) := eventloopNativeSet false port call r

def eventloopNativeSetInterval (port : Port) (call : SetCall Fn) (r : Registry Fn) :
    Except Fault (JsResult × Registry Fn) := eventloopNativeSet true port call r

/-- `clearTimeout` and `clearInterval`: the error code of the stop is dropped. -/
def eventloopNativeClearTimer (port : Port) (o : StopOutcome) (callback : Option Nat)
    (r : Registry Fn) : Except Fault (Registry Fn) :=
  match callback with
  | none => .ok r
  | some _ => do
    let (_, r1) ← eventloopPlatformTimerStop port o callback r
    pure r1

/-- What an expiring timer reads before it sends: the callback of its item. -/
def timerTrigger (r : Registry Fn) (item : Nat) : Except Fault (Option Nat) := do
  let t ← r.readTimer (some item)
  pure t.callback

end Operations

end JsEmbeddedPlatform.Timers
