import JsEmbeddedPlatform.Shared.Chain
import JsEmbeddedPlatform.TimerWiring

/-!
# Clearing the event loop

`clear_eventloop` walks four lists and releases what they hold: the timer items, the
callbacks, the loaded and the registered modules. Only the last three have their heads
set to NULL afterwards. Between the timers and the modules the heap is collected and
destroyed, and the finalizers of JavaScript may call the natives once more.
-/

set_option autoImplicit false

namespace JsEmbeddedPlatform.Timers

variable {Fn : Type}

/-- `module` is the `module_t` that the entry points to. -/
structure ModuleEntry where
  module : Nat
  isLoaded : Bool
  next : Option Nat
deriving DecidableEq, Repr

/-- The variables of `src/eventloop.c` and of `platform/eventloop.c`. `context` is the heap that
`ctx` points to, one number for each that is created. -/
structure World (Fn : Type) where
  registry : Registry Fn
  context : Option Nat
  modules : Heap ModuleEntry
  registeredModules : Option Nat
  loadedModules : Option Nat

/-! ## What a loop thread does -/

/-- `eventloop_register_module`; nothing checks that `malloc` found room. -/
def eventloopRegisterModule (module : Nat) (block : Option Nat) (w : World Fn) :
    Option (World Fn) :=
  match block with
  | none => none
  | some entry => some { w with
      modules := w.modules.alloc entry ⟨module, false, w.registeredModules⟩
      registeredModules := some entry }

/-- The search through the registered modules, at most as long as there are entries. -/
def findModule (modules : Heap ModuleEntry) (module : Nat) : Nat → Option Nat → Option Nat
  | _, none => none
  | 0, some _ => none
  | rounds + 1, some p =>
    match modules.get? p with
    | none => none
    | some entry => if entry.module = module then some p else findModule modules module rounds entry.next

/-- `require`: without an entry, or when `init_func` fails, an error is thrown. -/
def eventloopNativeLoadModule (module : Nat) (initialised : Bool) (block : Option Nat)
    (w : World Fn) : Option (World Fn) :=
  match findModule w.modules module w.modules.live.length w.registeredModules with
  | none => some w
  | some p =>
    match initialised, w.modules.get? p, block with
    | false, _, _ => some w
    | true, none, _ => none
    | true, some ⟨_, true, _⟩, _ => some w
    | true, some ⟨_, false, _⟩, none => none
    | true, some ⟨_, false, _⟩, some entry => some { w with
        modules := (w.modules.alloc entry ⟨module, true, w.loadedModules⟩).modify p
          fun e => { e with isLoaded := true }
        loadedModules := some entry }

/-- The native calls that a program makes, the completion of what it receives, and
`platform_register_modules`. -/
inductive LoopCall (Fn : Type) where
  | set (repeats : Bool) (call : SetCall Fn)
  | clear (handle : Nat) (o : StopOutcome)
  | complete (o : StopOutcome) (copy : Callback)
  | registerModule (module : Nat) (block : Option Nat)
  | loadModule (module : Nat) (initialised : Bool) (block : Option Nat)

/-- What `malloc` hands out for an entry is not in use. -/
def Unused (block : Option Nat) (w : World Fn) : Prop := ∀ p ∈ block, p ∉ w.modules.live

instance (block : Option Nat) (w : World Fn) : Decidable (Unused block w) :=
  inferInstanceAs (Decidable (∀ p ∈ block, _))

def withRegistry (w : World Fn) : Except Fault (Registry Fn) → Option (World Fn)
  | .error _ => none
  | .ok r => some { w with registry := r }

/-- A call that reads a record after its release is undefined: no run goes on from there. -/
def loopCall (port : Port) (w : World Fn) : LoopCall Fn → Option (World Fn)
  | .set repeats call =>
    if call.Grantable w.registry then
      withRegistry w (Prod.snd <$> eventloopNativeSet repeats port call w.registry)
    else none
  | .clear handle o =>
    withRegistry w (eventloopNativeClearTimer port o (some handle) w.registry)
  | .complete o copy => withRegistry w (timerCallbackCompletion port o copy w.registry)
  | .registerModule module block =>
    if Unused block w then eventloopRegisterModule module block w else none
  | .loadModule module initialised block =>
    if Unused block w then eventloopNativeLoadModule module initialised block w else none

/-! ## The clear -/

/-- A list that is walked holds a record that is no longer allocated, or a finalizer has one. -/
inductive Released where
  | timer (p : Nat)
  | callback (p : Nat)
  | module (p : Nat)
  | finalizer
deriving DecidableEq, Repr

/-- The native calls of the finalizers that `duk_gc` and `duk_destroy_heap` run. -/
structure Finalizers (Fn : Type) where
  collected : List (LoopCall Fn)
  destroyed : List (LoopCall Fn)

namespace Finalizers

def none : Finalizers Fn := ⟨[], []⟩

def Silent (f : Finalizers Fn) : Prop := f.collected.isEmpty = true ∧ f.destroyed.isEmpty = true

instance (f : Finalizers Fn) : Decidable f.Silent := inferInstanceAs (Decidable (_ ∧ _))

theorem Silent.eq_none {f : Finalizers Fn} (h : f.Silent) : f = none := by
  obtain ⟨collected, destroyed⟩ := f
  obtain ⟨hcollected, hdestroyed⟩ := h
  rw [List.isEmpty_iff] at hcollected hdestroyed
  obtain rfl : collected = [] := hcollected
  obtain rfl : destroyed = [] := hdestroyed
  rfl

end Finalizers

/-- Without a heap there is nothing to finalize. -/
def runFinalizers (port : Port) (calls : List (LoopCall Fn)) (w : World Fn) :
    Except Released (World Fn) :=
  if w.context.isNone then .ok w
  else calls.foldlM (fun w c => (loopCall port w c).elim (.error .finalizer) .ok) w

/-- `deletes` says whether `xTimerDelete` gets its command through; on unix the thread is cancelled
and joined. -/
def deleteTimer (port : Port) (deletes : Nat → Bool) (timer : Option Nat) (h : Heap PlatformTimer) :
    Heap PlatformTimer :=
  match timer with
  | none => h
  | some handle => if port = .stm32 ∧ deletes handle = false then h else h.free handle

/-- One round of `eventloop_platform_timers_cleanup`. -/
def releaseTimer (port : Port) (deletes : Nat → Bool) (p : Nat)
    (s : Heap TimerItem × Heap PlatformTimer) :
    Except Released (Option Nat × Heap TimerItem × Heap PlatformTimer) :=
  match s.1.get? p with
  | none => .error (.timer p)
  | some item => .ok (item.next, s.1.free p, deleteTimer port deletes item.timer s.2)

def eventloopPlatformTimersCleanup (port : Port) (deletes : Nat → Bool) (r : Registry Fn) :
    Except Released (Registry Fn) := do
  let (timers, platformTimers) ← Chain.walk (releaseTimer port deletes) r.timers.live.length
    r.timerFirst (r.timers, r.platformTimers)
  pure { r with timers := timers, platformTimers := platformTimers }

def releaseCallbacks (r : Registry Fn) : Except Released (Registry Fn) := do
  let callbacks ← Chain.walk (Chain.release Released.callback Callback.next) r.callbacks.live.length
    r.callbackListFirst r.callbacks
  pure { r with callbacks := callbacks, callbackListFirst := none }

/-- `duk_destroy_heap`, and the ids start from 0 again. -/
def destroyHeap (w : World Fn) : World Fn :=
  match w.context with
  | none => w
  | some _ => { w with
      context := none
      registry := { w.registry with callbackSequenceId := 0, stash := fun _ => none } }

def releaseModules (first : Option Nat) (modules : Heap ModuleEntry) :
    Except Released (Heap ModuleEntry) :=
  Chain.walk (Chain.release Released.module ModuleEntry.next) modules.live.length first modules

/-- What follows the timers in `clear_eventloop`. The entries of loaded modules have their
`cleanup_func` called before, which is code of the module. -/
def clearRest (port : Port) (f : Finalizers Fn) (w : World Fn) : Except Released (World Fn) := do
  let collected ← runFinalizers port f.collected w
  let registry ← releaseCallbacks collected.registry
  let finalized ← runFinalizers port f.destroyed { collected with registry := registry }
  let destroyed := destroyHeap finalized
  let unloaded ← releaseModules destroyed.loadedModules destroyed.modules
  let unregistered ← releaseModules destroyed.registeredModules unloaded
  pure { destroyed with modules := unregistered, loadedModules := none, registeredModules := none }

def clearEventloop (port : Port) (deletes : Nat → Bool) (f : Finalizers Fn) (w : World Fn) :
    Except Released (World Fn) := do
  let registry ← eventloopPlatformTimersCleanup port deletes w.registry
  clearRest port f { w with registry := registry }

/-! ## What is released -/

/-- A list that holds every record of its kind, once. -/
def Lists {α : Type} (next : α → Option Nat) (h : Heap α) (first : Option Nat) : Prop :=
  ∃ xs, Chain.Leads next h first xs ∧ xs.Nodup ∧ ∀ x ∈ h.live, x ∈ xs

/-- The same of the two lists of modules. -/
def ListsModules (w : World Fn) : Prop :=
  ∃ loaded registered, Chain.Leads ModuleEntry.next w.modules w.loadedModules loaded ∧
    Chain.Leads ModuleEntry.next w.modules w.registeredModules registered ∧
    (loaded ++ registered).Nodup ∧ ∀ x ∈ w.modules.live, x ∈ loaded ++ registered

structure Releasable (w : World Fn) : Prop where
  timers : Lists TimerItem.next w.registry.timers w.registry.timerFirst
  callbacks : Lists Callback.next w.registry.callbacks w.registry.callbackListFirst
  modules : ListsModules w

/-- Nothing is allocated and no list but that of the timers has a head. -/
structure Cleared (w : World Fn) : Prop where
  timers : w.registry.timers.live = []
  callbacks : w.registry.callbacks.live = []
  modules : w.modules.live = []
  callbackListFirst : w.registry.callbackListFirst = none
  loadedModules : w.loadedModules = none
  registeredModules : w.registeredModules = none
  context : w.context = none

theorem lists_empty {α : Type} {next : α → Option Nat} {h : Heap α} {first : Option Nat}
    (hlive : h.live = []) (hfirst : first = none) : Lists next h first := by
  refine ⟨[], hfirst, List.nodup_nil, ?_⟩
  rw [hlive]
  exact fun x hx => hx

theorem Cleared.releasable {w : World Fn} (h : Cleared w) (hfirst : w.registry.timerFirst = none) :
    Releasable w := by
  refine ⟨lists_empty h.timers hfirst, lists_empty h.callbacks h.callbackListFirst,
    [], [], h.loadedModules, h.registeredModules, List.nodup_nil, ?_⟩
  rw [h.modules]
  exact fun x hx => hx

theorem Linked.lists_timers {r : Registry Fn} (h : Linked r) :
    Lists TimerItem.next r.timers r.timerFirst :=
  ⟨r.timers.live.reverse,
    Chain.leads_of_represents h.timers fun _ hx => List.mem_reverse.mp hx,
    h.timers.nodup, fun _ hx => List.mem_reverse.mpr hx⟩

theorem Linked.lists_callbacks {r : Registry Fn} (h : Linked r) :
    Lists Callback.next r.callbacks r.callbackListFirst := by
  obtain ⟨last, hlist⟩ := h.callbacks
  exact ⟨r.callbacks.live, Chain.leads_of_represents hlist fun _ hx => hx, hlist.nodup,
    fun _ hx => hx⟩

theorem Lists.release {α : Type} {next : α → Option Nat} {h : Heap α} {first : Option Nat}
    (hl : Lists next h first) (stale : Nat → Released) :
    ∃ k, Chain.walk (Chain.release stale next) h.live.length first h = .ok k ∧ k.live = [] := by
  obtain ⟨xs, hleads, hnodup, hall⟩ := hl
  obtain ⟨k, hk, hrest⟩ := Chain.walk_release stale hleads hnodup
  refine ⟨k, hk, Chain.live_eq_nil fun q => ?_⟩
  rw [hrest q]
  by_cases hq : q ∈ xs
  · rw [if_pos hq]
  · rw [if_neg hq]
    exact Chain.get?_of_live fun hlive => hq (hall q hlive)

theorem releaseModules_spec {w : World Fn} (h : ListsModules w) :
    ∃ unloaded unregistered, releaseModules w.loadedModules w.modules = .ok unloaded ∧
      releaseModules w.registeredModules unloaded = .ok unregistered ∧ unregistered.live = [] := by
  obtain ⟨loaded, registered, hloaded, hregistered, hnodup, hall⟩ := h
  obtain ⟨hl, hr, hapart⟩ := List.nodup_append.mp hnodup
  obtain ⟨k, hk, hrest⟩ := Chain.walk_release Released.module hloaded hl
  have hleft : Lists ModuleEntry.next k w.registeredModules := by
    refine ⟨registered, hregistered.congr ?_, hr, ?_⟩
    · intro x hx
      rw [hrest x, if_neg fun hx' => hapart x hx' x hx rfl]
    · intro x hx
      obtain ⟨a, ha⟩ := (k.mem_live_iff x).mp hx
      rw [hrest x] at ha
      split at ha
      · cases ha
      · next hx' =>
        rcases List.mem_append.mp (hall x (Heap.mem_live_of_get? ha)) with hmem | hmem
        · exact absurd hmem hx'
        · exact hmem
  obtain ⟨m, hm, hempty⟩ := hleft.release Released.module
  exact ⟨k, m, hk, hm, hempty⟩

theorem timersCleanup_spec {r : Registry Fn} (h : Lists TimerItem.next r.timers r.timerFirst)
    (port : Port) (deletes : Nat → Bool) :
    ∃ timers platformTimers, eventloopPlatformTimersCleanup port deletes r =
      .ok { r with timers := timers, platformTimers := platformTimers } ∧ timers.live = [] := by
  obtain ⟨xs, hleads, hnodup, hall⟩ := h
  have hlength : xs.length ≤ r.timers.live.length :=
    List.Nodup.length_le_of_subset hnodup hleads.live
  obtain ⟨s, hs, hend⟩ := Chain.walk_spec (releaseTimer port deletes)
    (I := fun rest s => Chain.Left TimerItem.next r.timers xs rest s.1)
    (fun x rest s hleft => by
      obtain ⟨item, hitem, hnext, hleft⟩ := hleft.step
      refine ⟨(s.1.free x, deleteTimer port deletes item.timer s.2), ?_, hleft⟩
      simp only [releaseTimer, hitem, hnext])
    hlength (s := (r.timers, r.platformTimers)) (Chain.Left.begin hleads hnodup)
  rw [← hleads.head] at hs
  refine ⟨s.1, s.2, ?_, Chain.live_eq_nil fun q => ?_⟩
  · unfold eventloopPlatformTimersCleanup
    rw [hs]
    rfl
  · have hq := hend.rest q
    rw [if_neg List.not_mem_nil] at hq
    rw [hq]
    by_cases hmem : q ∈ xs
    · rw [if_pos hmem]
    · rw [if_neg hmem]
      exact Chain.get?_of_live fun hlive => hmem (hall q hlive)

theorem timersCleanup_none {r : Registry Fn} (h : r.timerFirst = none) (port : Port)
    (deletes : Nat → Bool) : eventloopPlatformTimersCleanup port deletes r = .ok r := by
  obtain ⟨sequence, callbacks, heap, stash, first, last, timers, platformTimers⟩ := r
  obtain rfl : first = none := h
  unfold eventloopPlatformTimersCleanup Chain.walk
  rfl

theorem runFinalizers_eq (port : Port) {calls : List (LoopCall Fn)} {w : World Fn}
    (h : calls = [] ∨ w.context = none) : runFinalizers port calls w = .ok w := by
  unfold runFinalizers
  rcases h with rfl | h
  · split <;> rfl
  · rw [h]
    rfl

theorem clearRest_spec {w : World Fn} (port : Port) {f : Finalizers Fn}
    (quiet : w.context = none ∨ f.Silent) (htimers : w.registry.timers.live = [])
    (hcallbacks : Lists Callback.next w.registry.callbacks w.registry.callbackListFirst)
    (hmodules : ListsModules w) :
    ∃ w', clearRest port f w = .ok w' ∧ Cleared w' ∧ w'.registry.timerFirst = w.registry.timerFirst ∧
      w'.registry.timerLast = w.registry.timerLast ∧
      w'.registry.platformTimers = w.registry.platformTimers := by
  obtain ⟨callbacks, hwalk, hempty⟩ := hcallbacks.release Released.callback
  obtain ⟨unloaded, unregistered, hunload, hunregister, hmodules⟩ := releaseModules_spec hmodules
  have collected : runFinalizers port f.collected w = .ok w := by
    apply runFinalizers_eq
    rcases quiet with quiet | quiet
    · exact Or.inr quiet
    · exact Or.inl (congrArg Finalizers.collected quiet.eq_none)
  have finalized : runFinalizers port f.destroyed { w with
      registry := { w.registry with callbacks := callbacks, callbackListFirst := none } } =
      .ok { w with
        registry := { w.registry with callbacks := callbacks, callbackListFirst := none } } := by
    apply runFinalizers_eq
    rcases quiet with quiet | quiet
    · exact Or.inr quiet
    · exact Or.inl (congrArg Finalizers.destroyed quiet.eq_none)
  have hrun : clearRest port f w = .ok { destroyHeap { w with
        registry := { w.registry with callbacks := callbacks, callbackListFirst := none } } with
      modules := unregistered, loadedModules := none, registeredModules := none } := by
    have lists : (destroyHeap { w with registry := { w.registry with
        callbacks := callbacks, callbackListFirst := none } }).loadedModules = w.loadedModules ∧
        (destroyHeap { w with registry := { w.registry with
          callbacks := callbacks, callbackListFirst := none } }).registeredModules =
          w.registeredModules ∧
        (destroyHeap { w with registry := { w.registry with
          callbacks := callbacks, callbackListFirst := none } }).modules = w.modules := by
      unfold destroyHeap
      cases w.context <;> exact ⟨rfl, rfl, rfl⟩
    unfold clearRest releaseCallbacks
    simp only [bind, Except.bind, pure, Except.pure, collected, hwalk, finalized, lists.1,
      lists.2.1, lists.2.2, hunload, hunregister]
  refine ⟨_, hrun, ?_⟩
  unfold destroyHeap
  cases w.context with
  | none => exact ⟨⟨htimers, hempty, hmodules, rfl, rfl, rfl, rfl⟩, rfl, rfl, rfl⟩
  | some heap => exact ⟨⟨htimers, hempty, hmodules, rfl, rfl, rfl, rfl⟩, rfl, rfl, rfl⟩

/-- From lists that hold all there is, everything is released and no released record is met. -/
theorem clearEventloop_spec {w : World Fn} (h : Releasable w) (port : Port)
    (deletes : Nat → Bool) {f : Finalizers Fn} (quiet : w.context = none ∨ f.Silent) :
    ∃ w', clearEventloop port deletes f w = .ok w' ∧ Cleared w' ∧
      w'.registry.timerFirst = w.registry.timerFirst ∧
      w'.registry.timerLast = w.registry.timerLast := by
  obtain ⟨timers, platformTimers, htimers, hempty⟩ := timersCleanup_spec h.timers port deletes
  obtain ⟨w', hw, hcleared, hfirst, hlast, _⟩ := clearRest_spec
    (w := { w with registry := { w.registry with
      timers := timers, platformTimers := platformTimers } }) port quiet hempty h.callbacks
    h.modules
  refine ⟨w', ?_, hcleared, hfirst, hlast⟩
  unfold clearEventloop
  rw [htimers]
  exact hw

end JsEmbeddedPlatform.Timers
