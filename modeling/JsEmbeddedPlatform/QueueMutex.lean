import JsEmbeddedPlatform.EventQueue
import JsEmbeddedPlatform.Shared.RobustMutex

/-!
# The mutex of the unix queue

Timer threads send and the loop receives; a timer thread can be cancelled at any point.
What a call does to the queue is that of `EventQueue`; here are the lock before it, the
wait on the condition variable and the unlock after it, each a step of its own. A kill,
which locks the queue for good, is not among the steps.
-/

set_option autoImplicit false

namespace JsEmbeddedPlatform.QueueMutex

open EventQueue BoundedFifo

inductive Tid where
  | loop
  | timer (n : Nat)
deriving DecidableEq, Repr

/-- `waiting` and `relocking` are inside `pthread_cond_wait`, before and after it is woken; a
`dying` thread was cancelled there and takes the mutex once more. -/
inductive Pc where
  | away
  | locking (call : Call Memory)
  | inside (call : Call Memory)
  | waiting (call : Call Memory)
  | relocking (call : Call Memory)
  | leaving (passed : Bool)
  | dying
  | dead

structure State where
  queue : Queue
  mutex : RobustMutex Tid
  pc : Tid → Pc

inductive Action where
  | enters (t : Tid) (call : Call Memory)
  | locks (t : Tid)
  | works (t : Tid)
  | unlocks (t : Tid)
  | wakes (t : Tid)
  | relocks (t : Tid)
  | exits (n : Nat)
  | cancels (n : Nat)
  | dies (n : Nat)

/-- A call that returns, and whether its thread holds the mutex then. -/
inductive Output where
  | quiet
  | returned (t : Tid) (passed : Bool) (holds : Bool)
deriving DecidableEq, Repr

def initial (q : Queue) : State := ⟨q, .free, fun _ => .away⟩

def advance (t : Tid) (pc : Pc) (s : State) : State := { s with pc := Function.update s.pc t pc }

def returns (t : Tid) (passed : Bool) (s : State) : State × Output :=
  (advance t .away s, .returned t passed (decide (s.mutex.owner = some t)))

/-- `pthread_cond_broadcast`. -/
def woken : Pc → Pc
  | .waiting call => .relocking call
  | pc => pc

def broadcast (s : State) : State := { s with pc := fun t => woken (s.pc t) }

/-- The loop receives, the threads of timers send. -/
def CallOf : Tid → Call Memory → Prop
  | .loop, .receive => True
  | .timer _, .send _ => True
  | _, _ => False

instance : (t : Tid) → (c : Call Memory) → Decidable (CallOf t c)
  | .loop, .receive => isTrue trivial
  | .loop, .send _ => isFalse id
  | .loop, .peek => isFalse id
  | .timer _, .send _ => isTrue trivial
  | .timer _, .receive => isFalse id
  | .timer _, .peek => isFalse id

def enters (t : Tid) (call : Call Memory) (s : State) : Option (State × Output) :=
  match s.pc t with
  | .away => if CallOf t call then some (advance t (.locking call) s, .quiet) else none
  | _ => none

/-- Whatever `pthread_mutex_lock` answers but 0 is taken for a failure. -/
def locks (t : Tid) (s : State) : Option (State × Output) :=
  match s.pc t with
  | .locking call =>
    match s.mutex.lock t with
    | none => none
    | some (.acquired, m) => some (advance t (.inside call) { s with mutex := m }, .quiet)
    | some (_, m) => some (returns t false { s with mutex := m })
  | _ => none

/-- The checks and the copy of `xQueueSend` and `xQueueReceive`, and the broadcast after them; or
the beginning of `pthread_cond_wait`. -/
def works (t : Tid) (s : State) : Option (State × Output) :=
  match s.pc t with
  | .inside call =>
    match EventQueue.call s.queue (0, call) with
    | none => some (advance t (.waiting call) { s with mutex := s.mutex.unlock t }, .quiet)
    | some (q, .refused) => some (advance t (.leaving false) (broadcast { s with queue := q }), .quiet)
    | some (q, _) => some (advance t (.leaving true) (broadcast { s with queue := q }), .quiet)
  | _ => none

def unlocks (t : Tid) (s : State) : Option (State × Output) :=
  match s.pc t with
  | .leaving passed => some (returns t passed { s with mutex := s.mutex.unlock t })
  | _ => none

/-- A wait may end without a broadcast. -/
def wakes (t : Tid) (s : State) : Option (State × Output) :=
  match s.pc t with
  | .waiting call => some (advance t (.relocking call) s, .quiet)
  | _ => none

/-- The end of `pthread_cond_wait`; its answer is looked at like that of a lock. -/
def relocks (t : Tid) (s : State) : Option (State × Output) :=
  match s.pc t with
  | .relocking call =>
    match s.mutex.lock t with
    | none => none
    | some (.acquired, m) => some (advance t (.inside call) { s with mutex := m }, .quiet)
    | some (_, m) => some (returns t false { s with mutex := m })
  | _ => none

/-- `_timer_task` ends after its send when the timer does not repeat. -/
def exits (n : Nat) (s : State) : Option (State × Output) :=
  match s.pc (.timer n) with
  | .away =>
    some (advance (.timer n) .dead { s with mutex := s.mutex.die (.timer n) }, .quiet)
  | _ => none

/-- `pthread_cancel` of a timer thread, whose cancellation is asynchronous. -/
def cancels (n : Nat) (s : State) : Option (State × Output) :=
  match s.pc (.timer n) with
  | .waiting _ => some (advance (.timer n) .dying s, .quiet)
  | .relocking _ => some (advance (.timer n) .dying s, .quiet)
  | .dying => none
  | .dead => none
  | _ => some (advance (.timer n) .dead { s with mutex := s.mutex.die (.timer n) }, .quiet)

def dies (n : Nat) (s : State) : Option (State × Output) :=
  match s.pc (.timer n) with
  | .dying =>
    match s.mutex.lock (.timer n) with
    | none => none
    | some (_, m) => some (advance (.timer n) .dead { s with mutex := m.die (.timer n) }, .quiet)
  | _ => none

def step (s : State) : Action → Option (State × Output)
  | .enters t call => enters t call s
  | .locks t => locks t s
  | .works t => works t s
  | .unlocks t => unlocks t s
  | .wakes t => wakes t s
  | .relocks t => relocks t s
  | .exits n => exits n s
  | .cancels n => cancels n s
  | .dies n => dies n s

/-- On no return path does the calling thread hold the mutex. -/
def Releases (outs : List Output) : Prop :=
  ∀ t passed holds, .returned t passed holds ∈ outs → holds = false

/-- Some later call succeeds, if the threads are scheduled for it. -/
def Usable (s : State) : Prop :=
  ∃ actions s' outs t holds, Runs.run step s actions = some (s', outs) ∧
    .returned t true holds ∈ outs

/-- The thread has the mutex, or will have it before it ends. -/
def Pc.exposed : Pc → Bool
  | .inside _ => true
  | .leaving _ => true
  | .waiting _ => true
  | .relocking _ => true
  | _ => false

/-- A timer thread is not cancelled between the lock and the unlock of its send. -/
def Spares (s : State) : Action → Prop
  | .cancels n => (s.pc (.timer n)).exposed = false
  | _ => True

instance (s : State) : (a : Action) → Decidable (Spares s a)
  | .cancels _ => inferInstanceAs (Decidable (_ = _))
  | .enters _ _ => isTrue trivial
  | .locks _ => isTrue trivial
  | .works _ => isTrue trivial
  | .unlocks _ => isTrue trivial
  | .wakes _ => isTrue trivial
  | .relocks _ => isTrue trivial
  | .exits _ => isTrue trivial
  | .dies _ => isTrue trivial

/-! ## What a call finds -/

section Calls
variable {q q' : Queue}

theorem call_send (hopen : q.locked = false) (hroom : q.uxMessagesWaiting < q.uxLength)
    (item : Memory) :
    EventQueue.call q (0, .send item) = some (prvCopyDataToQueue q item, .accepted) := by
  unfold EventQueue.call xQueueSend
  simp [hopen, Nat.not_le.mpr hroom]

theorem call_receive (hopen : q.locked = false) :
    (q.uxMessagesWaiting = 0 ∧ EventQueue.call q (0, .receive) = none) ∨
      ∃ q' item, EventQueue.call q (0, .receive) = some (q', .handed item) := by
  unfold EventQueue.call xQueueReceive
  by_cases hcount : q.uxMessagesWaiting ≤ 0
  · left
    exact ⟨Nat.le_zero.mp hcount, by simp [hopen, hcount]⟩
  · right
    simp [hopen, hcount]

theorem copyFrom_fields (q : Queue) : (prvCopyDataFromQueue q).1.locked = q.locked ∧
    (prvCopyDataFromQueue q).1.uxLength = q.uxLength := by
  unfold prvCopyDataFromQueue
  split
  · exact ⟨rfl, rfl⟩
  · exact ⟨rfl, rfl⟩

theorem call_frame {t : Tid} {call : Call Memory} {r : Reply (List UInt8)} (ht : CallOf t call)
    (hopen : q.locked = false) (h : EventQueue.call q (0, call) = some (q', r)) :
    r ≠ .refused ∧ q'.locked = false ∧ q'.uxLength = q.uxLength := by
  cases call with
  | send item =>
    by_cases hroom : q.uxMessagesWaiting < q.uxLength
    · rw [call_send hopen hroom] at h
      cases h
      exact ⟨nofun, hopen, rfl⟩
    · unfold EventQueue.call xQueueSend at h
      simp [hopen, Nat.not_lt.mp hroom] at h
  | receive =>
    unfold EventQueue.call xQueueReceive at h
    by_cases hcount : q.uxMessagesWaiting ≤ 0
    · simp [hopen, hcount] at h
    · obtain ⟨hlocked, hlength⟩ := copyFrom_fields q
      simp only [Bool.true_eq_false, false_and, if_false, hopen, Bool.false_eq_true, hcount] at h
      cases h
      exact ⟨nofun, hlocked.trans hopen, hlength⟩
  | peek => cases t <;> cases ht

end Calls

/-! ## While no holder is cancelled -/

namespace Pc

def busy : Pc → Bool
  | .inside _ => true
  | .leaving _ => true
  | _ => false

def call? : Pc → Option (Call Memory)
  | .locking call => some call
  | .inside call => some call
  | .waiting call => some call
  | .relocking call => some call
  | _ => none

end Pc

structure Kept (s : State) : Prop where
  opened : s.queue.locked = false
  room : 0 < s.queue.uxLength
  mutex : s.mutex = .free ∨ ∃ t, s.mutex = .held t true
  busy : ∀ t, (s.pc t).busy = true ↔ s.mutex = .held t true
  living : ∀ t, s.pc t ≠ .dying
  loop : s.pc .loop ≠ .dead
  asleep : ∀ call, s.pc .loop = .waiting call → s.queue.uxMessagesWaiting = 0
  calls : ∀ t call, (s.pc t).call? = some call → CallOf t call
  unused : ∃ n, ∀ m, n ≤ m → s.pc (.timer m) = .away

theorem initial_kept {q : Queue} (hopen : q.locked = false) (hroom : 0 < q.uxLength) :
    Kept (initial q) where
  opened := hopen
  room := hroom
  mutex := Or.inl rfl
  busy _ := ⟨nofun, nofun⟩
  living _ := nofun
  loop := nofun
  asleep := nofun
  calls := nofun
  unused := ⟨0, fun _ _ => rfl⟩

section Steps
variable {s s' : State} {t : Tid} {pc : Pc} {o : Output}

/-- One thread goes on. -/
theorem kept_advance {m : RobustMutex Tid} (h : Kept s) (t : Tid) (pc : Pc)
    (mutex : m = .free ∨ ∃ u, m = .held u true)
    (busy : ∀ u, (Function.update s.pc t pc u).busy = true ↔ m = .held u true)
    (living : pc ≠ .dying) (loop : t = .loop → pc ≠ .dead)
    (asleep : ∀ call, t = .loop → pc = .waiting call → s.queue.uxMessagesWaiting = 0)
    (calls : ∀ call, pc.call? = some call → CallOf t call) :
    Kept (advance t pc { s with mutex := m }) := by
  obtain ⟨n, hn⟩ := h.unused
  refine ⟨h.opened, h.room, mutex, busy, fun u => ?_, ?_, fun call hcall => ?_, fun u call hcall => ?_,
    ?_⟩
  · unfold advance
    by_cases hu : u = t
    · subst hu
      simpa using living
    · simpa [hu] using h.living u
  · unfold advance
    by_cases ht : .loop = t
    · subst ht
      simpa using loop rfl
    · simpa [ht] using h.loop
  · unfold advance at hcall
    by_cases ht : .loop = t
    · subst ht
      exact asleep call rfl (by simpa using hcall)
    · exact h.asleep call (by simpa [ht] using hcall)
  · unfold advance at hcall
    by_cases hu : u = t
    · subst hu
      exact calls call (by simpa using hcall)
    · exact h.calls u call (by simpa [hu] using hcall)
  · cases t with
    | loop => exact ⟨n, fun m hm => by simp [advance, hn m hm]⟩
    | timer k =>
      refine ⟨max n (k + 1), fun m hm => ?_⟩
      have hk : m ≠ k := by omega
      simp [advance, hk, hn m (by omega)]

theorem Kept.moves (h : Kept s) (same : pc.busy = (s.pc t).busy) (living : pc ≠ .dying)
    (loop : t = .loop → pc ≠ .dead) (asleep : ∀ call, pc ≠ .waiting call)
    (calls : ∀ call, pc.call? = some call → CallOf t call) : Kept (advance t pc s) := by
  apply kept_advance h t pc h.mutex ?_ living loop (fun call _ hpc => absurd hpc (asleep call)) calls
  intro u
  by_cases hu : u = t
  · subst hu
    rw [Function.update_self, same]
    exact h.busy u
  · rw [Function.update_of_ne hu]
    exact h.busy u

theorem Kept.acquires {call : Call Memory} (h : Kept s) (free : s.mutex = .free)
    (calls : CallOf t call) :
    Kept (advance t (.inside call) { s with mutex := .held t true }) := by
  refine kept_advance h t (.inside call) (Or.inr ⟨t, rfl⟩) ?_ nofun nofun nofun ?_
  · intro u
    by_cases hu : u = t
    · subst hu
      simp [Pc.busy]
    · rw [Function.update_of_ne hu, h.busy u, free]
      simp [Ne.symm hu]
  · rintro _ ⟨⟩
    exact calls

theorem Kept.releases (h : Kept s) (held : s.mutex = .held t true) (idle : pc.busy = false)
    (living : pc ≠ .dying) (loop : pc ≠ .dead)
    (asleep : ∀ call, t = .loop → pc = .waiting call → s.queue.uxMessagesWaiting = 0)
    (calls : ∀ call, pc.call? = some call → CallOf t call) :
    Kept (advance t pc { s with mutex := s.mutex.unlock t }) := by
  rw [held, RobustMutex.unlock_held]
  apply kept_advance h t pc (Or.inl rfl) ?_ living (fun _ => loop) asleep calls
  intro u
  by_cases hu : u = t
  · subst hu
    simp [idle]
  · rw [Function.update_of_ne hu, h.busy u, held]
    simp [Ne.symm hu]

theorem Kept.broadcast {q : Queue} (h : Kept s) (opened : q.locked = false)
    (length : q.uxLength = s.queue.uxLength) : Kept (broadcast { s with queue := q }) := by
  have busy : ∀ pc : Pc, (woken pc).busy = pc.busy := by
    intro pc
    cases pc <;> rfl
  have call : ∀ pc : Pc, (woken pc).call? = pc.call? := by
    intro pc
    cases pc <;> rfl
  obtain ⟨n, hn⟩ := h.unused
  refine ⟨opened, length ▸ h.room, h.mutex, fun u => ?_, fun u => ?_, ?_, fun c hc => ?_,
    fun u c hc => ?_, n, fun m hm => ?_⟩
  · exact (busy (s.pc u)).symm ▸ h.busy u
  · have := h.living u
    change woken (s.pc u) ≠ .dying
    cases hpc : s.pc u <;> simp_all [woken]
  · have := h.loop
    change woken (s.pc .loop) ≠ .dead
    cases hpc : s.pc .loop <;> simp_all [woken]
  · change woken (s.pc .loop) = .waiting c at hc
    cases hpc : s.pc .loop <;> simp [hpc, woken] at hc
  · exact h.calls u c (call (s.pc u) ▸ hc)
  · change woken (s.pc (.timer m)) = .away
    rw [hn m hm]
    rfl

/-- A call that has waited for the mutex gets it and says nothing yet. -/
theorem lock_kept {call : Call Memory} (h : Kept s) (calls : CallOf t call)
    (hlock : (match s.mutex.lock t with
      | none => none
      | some (.acquired, m) => some (advance t (.inside call) { s with mutex := m }, .quiet)
      | some (_, m) => some (returns t false { s with mutex := m })) = some (s', o)) :
    Kept s' ∧ o = .quiet := by
  rcases h.mutex with hfree | ⟨u, hheld⟩
  · rw [hfree] at hlock
    cases hlock
    exact ⟨h.acquires hfree calls, rfl⟩
  · rw [hheld] at hlock
    cases hlock

theorem enters_kept {call : Call Memory} (h : Kept s) (hstep : enters t call s = some (s', o)) :
    Kept s' ∧ o = .quiet := by
  unfold enters at hstep
  split at hstep
  · next hpc =>
    split at hstep
    · next hcall =>
      cases hstep
      refine ⟨h.moves ?_ nofun nofun nofun ?_, rfl⟩
      · rw [hpc]
        rfl
      · rintro _ ⟨⟩
        exact hcall
    · cases hstep
  · cases hstep

theorem locks_kept (h : Kept s) (hstep : locks t s = some (s', o)) : Kept s' ∧ o = .quiet := by
  unfold locks at hstep
  split at hstep
  · next call hpc =>
    have calls := h.calls t call (by rw [hpc]; rfl)
    exact lock_kept h calls hstep
  · cases hstep

theorem relocks_kept (h : Kept s) (hstep : relocks t s = some (s', o)) :
    Kept s' ∧ o = .quiet := by
  unfold relocks at hstep
  split at hstep
  · next call hpc =>
    have calls := h.calls t call (by rw [hpc]; rfl)
    exact lock_kept h calls hstep
  · cases hstep

theorem works_cases {call : Call Memory} (h : Kept s) (hpc : s.pc t = .inside call) :
    (EventQueue.call s.queue (0, call) = none ∧ works t s =
        some (advance t (.waiting call) { s with mutex := s.mutex.unlock t }, .quiet)) ∨
      ∃ q, q.locked = false ∧ q.uxLength = s.queue.uxLength ∧
        works t s = some (advance t (.leaving true) (broadcast { s with queue := q }), .quiet) := by
  have calls := h.calls t call (by rw [hpc]; rfl)
  cases hr : EventQueue.call s.queue (0, call) with
  | none => exact Or.inl ⟨rfl, by simp only [works, hpc, hr]⟩
  | some answer =>
    obtain ⟨q, r⟩ := answer
    obtain ⟨hrefused, hopen, hlength⟩ := call_frame calls h.opened hr
    right
    refine ⟨q, hopen, hlength, ?_⟩
    cases r with
    | refused => exact absurd rfl hrefused
    | accepted => simp only [works, hpc, hr]
    | handed item => simp only [works, hpc, hr]

theorem works_kept (h : Kept s) (hstep : works t s = some (s', o)) : Kept s' ∧ o = .quiet := by
  cases hpc : s.pc t with
  | inside call =>
    have calls := h.calls t call (by rw [hpc]; rfl)
    have held : s.mutex = .held t true := (h.busy t).mp (by rw [hpc]; rfl)
    rcases works_cases h hpc with ⟨hwait, hworks⟩ | ⟨q, hopen, hlength, hworks⟩
    · cases hstep.symm.trans hworks
      refine ⟨h.releases held rfl nofun nofun ?_ ?_, rfl⟩
      · rintro _ rfl ⟨⟩
        cases call with
        | receive =>
          rcases call_receive h.opened with ⟨hcount, _⟩ | ⟨q', item, hsome⟩
          · exact hcount
          · cases hwait.symm.trans hsome
        | send item => cases calls
        | peek => cases calls
      · rintro _ ⟨⟩
        exact calls
    · cases hstep.symm.trans hworks
      refine ⟨(h.broadcast hopen hlength).moves ?_ nofun nofun nofun nofun, rfl⟩
      change true = (woken (s.pc t)).busy
      rw [hpc]
      rfl
  | _ =>
    unfold works at hstep
    rw [hpc] at hstep
    cases hstep

theorem unlocks_kept (h : Kept s) (hstep : unlocks t s = some (s', o)) :
    Kept s' ∧ s'.mutex = .free ∧ ∃ passed, s.pc t = .leaving passed ∧
      o = .returned t passed false := by
  unfold unlocks at hstep
  split at hstep
  · next passed hpc =>
    have held : s.mutex = .held t true := (h.busy t).mp (by rw [hpc]; rfl)
    have kept : Kept (advance t .away { s with mutex := s.mutex.unlock t }) :=
      h.releases held rfl nofun nofun nofun nofun
    cases hstep
    refine ⟨kept, ?_, passed, hpc, ?_⟩
    · change s.mutex.unlock t = .free
      rw [held, RobustMutex.unlock_held]
    · have := RobustMutex.owner_unlock t s.mutex
      simp [this]
  · cases hstep

theorem wakes_kept (h : Kept s) (hstep : wakes t s = some (s', o)) : Kept s' ∧ o = .quiet := by
  unfold wakes at hstep
  split at hstep
  · next call hpc =>
    cases hstep
    refine ⟨h.moves ?_ nofun nofun nofun ?_, rfl⟩
    · rw [hpc]
      rfl
    · rintro _ ⟨⟩
      exact h.calls t call (by rw [hpc]; rfl)
  · cases hstep

/-- A thread that ends without the mutex. -/
theorem Kept.ended {n : Nat} (h : Kept s) (idle : (s.pc (.timer n)).busy = false) :
    Kept (advance (.timer n) .dead { s with mutex := s.mutex.die (.timer n) }) := by
  have away : s.mutex.owner ≠ some (.timer n) := by
    intro howner
    rcases h.mutex with hfree | ⟨u, hheld⟩
    · rw [hfree] at howner
      cases howner
    · rw [hheld] at howner
      cases howner
      have := (h.busy (.timer n)).mpr hheld
      rw [idle] at this
      cases this
  rw [RobustMutex.die_of_owner_ne away]
  exact h.moves idle.symm nofun nofun nofun nofun

theorem exits_kept {n : Nat} (h : Kept s) (hstep : exits n s = some (s', o)) :
    Kept s' ∧ o = .quiet := by
  unfold exits at hstep
  split at hstep
  · next hpc =>
    cases hstep
    exact ⟨h.ended (by rw [hpc]; rfl), rfl⟩
  · cases hstep

theorem cancels_kept {n : Nat} (h : Kept s) (hspares : Spares s (.cancels n))
    (hstep : cancels n s = some (s', o)) : Kept s' ∧ o = .quiet := by
  have hidle : (s.pc (.timer n)).exposed = false := hspares
  unfold cancels at hstep
  split at hstep
  · next hpc =>
    rw [hpc] at hidle
    cases hidle
  · next hpc =>
    rw [hpc] at hidle
    cases hidle
  · cases hstep
  · cases hstep
  · cases hstep
    refine ⟨h.ended ?_, rfl⟩
    cases hpc : s.pc (.timer n) with
    | inside call =>
      rw [hpc] at hidle
      cases hidle
    | leaving passed =>
      rw [hpc] at hidle
      cases hidle
    | _ => rfl

theorem step_kept {a : Action} (h : Kept s) (hspares : Spares s a) (hstep : step s a = some (s', o)) :
    Kept s' ∧ ∀ t passed holds, o = .returned t passed holds → holds = false := by
  have quiet : Kept s' ∧ o = .quiet →
      Kept s' ∧ ∀ t passed holds, o = .returned t passed holds → holds = false := by
    rintro ⟨kept, rfl⟩
    exact ⟨kept, nofun⟩
  cases a with
  | enters t call => exact quiet (enters_kept h hstep)
  | locks t => exact quiet (locks_kept h hstep)
  | works t => exact quiet (works_kept h hstep)
  | unlocks t =>
    obtain ⟨kept, _, passed, _, rfl⟩ := unlocks_kept h hstep
    refine ⟨kept, ?_⟩
    rintro _ _ _ ⟨⟩
    rfl
  | wakes t => exact quiet (wakes_kept h hstep)
  | relocks t => exact quiet (relocks_kept h hstep)
  | exits n => exact quiet (exits_kept h hstep)
  | cancels n => exact quiet (cancels_kept h hspares hstep)
  | dies n =>
    simp only [step, dies] at hstep
    split at hstep
    · next hpc => exact absurd hpc (h.living _)
    · cases hstep

end Steps

/-! ## The queue stays in use -/

section Usable
variable {s s' : State} {t : Tid} {o : Output}

theorem Usable.cons {a : Action} (hstep : step s a = some (s', o)) (h : Usable s') : Usable s := by
  obtain ⟨actions, last, outs, t, holds, hrun, hpassed⟩ := h
  exact ⟨a :: actions, last, o :: outs, t, holds,
    Runs.run_cons_iff.mpr ⟨s', o, outs, hstep, hrun, rfl⟩, List.mem_cons_of_mem o hpassed⟩

theorem usable_of_leaving (hpc : s.pc t = .leaving true) : Usable s := by
  have hstep : step s (.unlocks t) = some (returns t true { s with mutex := s.mutex.unlock t }) := by
    simp only [step, unlocks, hpc]
  exact ⟨[.unlocks t], _, [_], t, _, Runs.run_cons_iff.mpr ⟨_, _, [], hstep, rfl, rfl⟩,
    List.mem_cons_self⟩

theorem usable_of_inside {call : Call Memory} (h : Kept s) (hpc : s.pc t = .inside call)
    (hcall : EventQueue.call s.queue (0, call) ≠ none) : Usable s := by
  rcases works_cases h hpc with ⟨hnone, _⟩ | ⟨q, _, _, hworks⟩
  · exact absurd hnone hcall
  · exact Usable.cons (a := .works t) hworks
      (usable_of_leaving (t := t) (Function.update_self _ _ _))

theorem usable_of_locking {call : Call Memory} (h : Kept s) (hfree : s.mutex = .free)
    (hpc : s.pc t = .locking call ∨ s.pc t = .relocking call)
    (hcall : EventQueue.call s.queue (0, call) ≠ none) : Usable s := by
  have calls : CallOf t call := by
    apply h.calls
    rcases hpc with hpc | hpc
    · rw [hpc]
      rfl
    · rw [hpc]
      rfl
  have later : Usable (advance t (.inside call) { s with mutex := .held t true }) :=
    usable_of_inside (h.acquires hfree calls) (Function.update_self _ _ _) hcall
  rcases hpc with hpc | hpc
  · apply Usable.cons (a := .locks t) (o := .quiet) ?_ later
    simp only [step, locks, hpc, hfree, RobustMutex.lock]
  · apply Usable.cons (a := .relocks t) (o := .quiet) ?_ later
    simp only [step, relocks, hpc, hfree, RobustMutex.lock]

theorem usable_of_away (call : Call Memory) (h : Kept s) (hfree : s.mutex = .free)
    (hpc : s.pc t = .away) (hcallOf : CallOf t call)
    (hcall : EventQueue.call s.queue (0, call) ≠ none) : Usable s := by
  have hstep : step s (.enters t call) = some (advance t (.locking call) s, .quiet) := by
    simp only [step, enters, hpc, if_pos hcallOf]
  exact Usable.cons hstep (usable_of_locking (enters_kept h hstep).1 hfree
    (Or.inl (Function.update_self _ _ _)) hcall)

/-- A thread that has not been used can send, or the loop can receive. -/
theorem usable_of_free (h : Kept s) (hfree : s.mutex = .free) : Usable s := by
  by_cases hroom : s.queue.uxMessagesWaiting < s.queue.uxLength
  · obtain ⟨n, hn⟩ := h.unused
    apply usable_of_away (.send fun _ => 0) h hfree (hn n (Nat.le_refl n)) trivial
    rw [call_send h.opened hroom]
    nofun
  · have hwaiting : s.queue.uxMessagesWaiting ≠ 0 := by
      have := h.room
      omega
    have hreceive : EventQueue.call s.queue (0, .receive) ≠ none := by
      rcases call_receive h.opened with ⟨hzero, _⟩ | ⟨q, item, hsome⟩
      · exact absurd hzero hwaiting
      · rw [hsome]
        nofun
    have notBusy : (s.pc .loop).busy = false := by
      cases hbusy : (s.pc .loop).busy with
      | false => rfl
      | true => cases hfree.symm.trans ((h.busy .loop).mp hbusy)
    have isReceive : ∀ call, (s.pc .loop).call? = some call → call = .receive := by
      intro call hcall
      have := h.calls .loop call hcall
      cases call with
      | receive => rfl
      | send item => cases this
      | peek => cases this
    cases hpc : s.pc .loop with
    | away => exact usable_of_away .receive h hfree hpc trivial hreceive
    | locking call =>
      obtain rfl := isReceive call (by rw [hpc]; rfl)
      exact usable_of_locking h hfree (Or.inl hpc) hreceive
    | relocking call =>
      obtain rfl := isReceive call (by rw [hpc]; rfl)
      exact usable_of_locking h hfree (Or.inr hpc) hreceive
    | waiting call => exact absurd (h.asleep call hpc) hwaiting
    | inside call =>
      rw [hpc] at notBusy
      cases notBusy
    | leaving passed =>
      rw [hpc] at notBusy
      cases notBusy
    | dying => exact absurd hpc (h.living .loop)
    | dead => exact absurd hpc h.loop

theorem Kept.usable (h : Kept s) : Usable s := by
  rcases h.mutex with hfree | ⟨t, hheld⟩
  · exact usable_of_free h hfree
  · have hbusy := (h.busy t).mpr hheld
    cases hpc : s.pc t with
    | inside call =>
      by_cases hcall : EventQueue.call s.queue (0, call) = none
      · rcases works_cases h hpc with ⟨_, hworks⟩ | ⟨q, _, _, hworks⟩
        · have kept := (works_kept h hworks).1
          refine Usable.cons (a := .works t) hworks (usable_of_free kept ?_)
          change s.mutex.unlock t = .free
          rw [hheld, RobustMutex.unlock_held]
        · exact Usable.cons (a := .works t) hworks
            (usable_of_leaving (t := t) (Function.update_self _ _ _))
      · exact usable_of_inside h hpc hcall
    | leaving passed =>
      have hstep : step s (.unlocks t) = some (returns t passed { s with
          mutex := s.mutex.unlock t }) := by
        simp only [step, unlocks, hpc]
      obtain ⟨kept, hfree, _⟩ := unlocks_kept h hstep
      exact Usable.cons hstep (usable_of_free kept hfree)
    | _ =>
      rw [hpc] at hbusy
      cases hbusy

end Usable

/-- While no timer thread is cancelled between the lock and the unlock of its send, every call
releases the mutex, and the queue stays in use. -/
theorem calls_release_mutex {target : Target} {malloc : Nat → Option Nat} {memory : Memory}
    {length size : Nat} {q : Queue} (hq : xQueueCreate target malloc memory length size = some q)
    (actions : List Action) {s : State} {outs : List Output}
    (hspares : Runs.Along Spares step (initial q) actions)
    (hrun : Runs.run step (initial q) actions = some (s, outs)) : Releases outs ∧ Usable s := by
  have created : q.locked = false ∧ 0 < q.uxLength := by
    unfold xQueueCreate at hq
    split at hq
    · cases hq
    · next hlength =>
      simp only at hq
      split at hq
      · cases hq
      · cases hq
        exact ⟨rfl, Nat.lt_of_not_le hlength⟩
  have whole : Kept s ∧ Releases outs := by
    apply Runs.run_along (P := fun _ seen s => Kept s ∧ Releases seen) ?_
      ⟨initial_kept created.1 created.2, nofun⟩ hspares hrun
    intro _ seen s a s' o hpast hthis hstep
    obtain ⟨kept, releases⟩ := step_kept hpast.1 hthis hstep
    refine ⟨kept, fun t passed holds hmem => ?_⟩
    rcases List.mem_append.mp hmem with hold | hnew
    · exact hpast.2 t passed holds hold
    · exact releases t passed holds (List.mem_singleton.mp hnew).symm
  exact ⟨whole.2, whole.1.usable⟩

def eventQueue : Queue := prvInitialiseNewQueue ⟨2 ^ 64, 144⟩ 16 48 (4096 + 144) fun _ => 0

def sending (n : Nat) : List Action :=
  [.enters (.timer n) (.send fun _ => 1), .locks (.timer n), .works (.timer n)]

def receiving : List Action :=
  [.enters .loop .receive, .locks .loop, .works .loop, .unlocks .loop]

theorem sent_and_received : ∃ s outs, Runs.run step (initial eventQueue)
      (sending 0 ++ (.unlocks (.timer 0) :: .cancels 0 :: receiving)) = some (s, outs) ∧
    Releases outs ∧ Usable s := by
  have hq : xQueueCreate ⟨2 ^ 64, 144⟩ (fun _ => some 4096) (fun _ => 0) 16 48 = some eventQueue :=
    rfl
  have hspares : Runs.Along Spares step (initial eventQueue)
      (sending 0 ++ (.unlocks (.timer 0) :: .cancels 0 :: receiving)) := by decide +kernel
  exact ⟨_, _, rfl, calls_release_mutex hq _ hspares rfl⟩

/-! ## After the death of a holder -/

/-- The loop has returned from a receive with the mutex, or locks it once more. -/
structure Lost (s : State) : Prop where
  mutex : ∃ consistent, s.mutex = .held .loop consistent
  loop : s.pc .loop = .away ∨ ∃ call, s.pc .loop = .locking call
  idle : ∀ t, (s.pc t).busy = false

section Lost
variable {s s' : State} {o : Output}

theorem Lost.advance (h : Lost s) (t : Tid) {pc : Pc} (idle : pc.busy = false)
    (loop : t = .loop → pc = .away ∨ ∃ call, pc = .locking call) :
    Lost (QueueMutex.advance t pc s) := by
  refine ⟨h.mutex, ?_, fun u => ?_⟩
  · unfold QueueMutex.advance
    by_cases ht : .loop = t
    · subst ht
      simpa using loop rfl
    · simpa [ht] using h.loop
  · unfold QueueMutex.advance
    by_cases hu : u = t
    · subst hu
      simpa using idle
    · simpa [hu] using h.idle u

theorem Lost.blocks (h : Lost s) (t : Tid) : s.mutex.lock t = none := by
  obtain ⟨consistent, hm⟩ := h.mutex
  rw [hm]
  rfl

theorem Lost.ended (h : Lost s) (n : Nat) :
    Lost (QueueMutex.advance (.timer n) .dead { s with mutex := s.mutex.die (.timer n) }) := by
  obtain ⟨consistent, hm⟩ := h.mutex
  rw [RobustMutex.die_of_owner_ne]
  · exact h.advance (.timer n) rfl nofun
  · rw [hm]
    nofun

theorem step_lost {a : Action} (h : Lost s) (hstep : step s a = some (s', o)) :
    Lost s' ∧ o = .quiet := by
  cases a with
  | enters t call =>
    simp only [step, enters] at hstep
    split at hstep
    · split at hstep
      · cases hstep
        exact ⟨h.advance t rfl fun _ => Or.inr ⟨call, rfl⟩, rfl⟩
      · cases hstep
    · cases hstep
  | locks t =>
    simp only [step, locks, h.blocks t] at hstep
    split at hstep <;> cases hstep
  | works t =>
    simp only [step, works] at hstep
    split at hstep
    · next hpc =>
      have := h.idle t
      rw [hpc] at this
      cases this
    · cases hstep
  | unlocks t =>
    simp only [step, unlocks] at hstep
    split at hstep
    · next hpc =>
      have := h.idle t
      rw [hpc] at this
      cases this
    · cases hstep
  | wakes t =>
    simp only [step, wakes] at hstep
    split at hstep
    · next hpc =>
      cases hstep
      refine ⟨h.advance t rfl ?_, rfl⟩
      rintro rfl
      rcases h.loop with haway | ⟨_, hlocking⟩
      · cases hpc.symm.trans haway
      · cases hpc.symm.trans hlocking
    · cases hstep
  | relocks t =>
    simp only [step, relocks, h.blocks t] at hstep
    split at hstep <;> cases hstep
  | exits n =>
    simp only [step, exits] at hstep
    split at hstep
    · cases hstep
      exact ⟨h.ended n, rfl⟩
    · cases hstep
  | cancels n =>
    simp only [step, cancels] at hstep
    split at hstep
    · cases hstep
      exact ⟨h.advance (.timer n) rfl nofun, rfl⟩
    · cases hstep
      exact ⟨h.advance (.timer n) rfl nofun, rfl⟩
    · cases hstep
    · cases hstep
    · cases hstep
      exact ⟨h.ended n, rfl⟩
  | dies n =>
    simp only [step, dies, h.blocks] at hstep
    split at hstep <;> cases hstep

/-- From then on every call blocks. -/
theorem Lost.not_usable (h : Lost s) : ¬ Usable s := by
  rintro ⟨actions, last, outs, t, holds, hrun, hpassed⟩
  have whole : Lost last ∧ ∀ o ∈ outs, o = .quiet := by
    apply Runs.run_history (P := fun _ seen s => Lost s ∧ ∀ o ∈ seen, o = .quiet) ?_
      ⟨h, nofun⟩ hrun
    intro _ seen s a s' o hpast hstep
    obtain ⟨lost, hquiet⟩ := step_lost hpast.1 hstep
    refine ⟨lost, fun o' ho' => ?_⟩
    rcases List.mem_append.mp ho' with hold | hnew
    · exact hpast.2 o' hold
    · rw [List.mem_singleton.mp hnew, hquiet]
  cases whole.2 _ hpassed

end Lost

/-- A timer thread is cancelled in its send; the next receive returns with the mutex. -/
theorem mutex_left_behind : ∃ s outs, Runs.run step (initial eventQueue)
      (sending 0 ++ [.cancels 0, .enters .loop .receive, .locks .loop]) = some (s, outs) ∧
    ¬ Releases outs ∧ ¬ Usable s := by
  refine ⟨_, _, rfl, ?_, ?_⟩
  · intro hreleases
    have := hreleases .loop false true (by decide)
    cases this
  · apply Lost.not_usable
    refine ⟨⟨false, rfl⟩, Or.inl rfl, fun t => ?_⟩
    cases t with
    | loop => rfl
    | timer n =>
      by_cases hn : n = 0
      · subst hn
        rfl
      · simp [advance, broadcast, initial, woken, Pc.busy, hn]

end JsEmbeddedPlatform.QueueMutex
