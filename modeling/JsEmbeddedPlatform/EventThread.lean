import JsEmbeddedPlatform.Shared.Runs
import JsEmbeddedPlatform.Timers

/-!
# Starting and killing the event-loop thread

Three tasks call `start_eventloop_thread` and `kill_eventloop_thread` besides the
one that boots: every firmware download kills first and starts when it succeeded,
LWM2M Reboot and Update kill and start. Each call is one step. The threads that
live are compared with the one handle the port keeps.
-/

set_option autoImplicit false

namespace JsEmbeddedPlatform.EventThread

open Timers (Port)

/-- `handle` is `eventloop_thread` or `eventloop_task_handle`, `err` says that the variable of
that name is not 0, `queue` is the thread that created the queue. Threads in `starting` have
not executed their first statement. -/
structure Threads where
  live : List Nat
  starting : List Nat
  nextThread : Nat
  handle : Option Nat
  err : Bool
  queue : Option Nat
deriving DecidableEq, Repr

def initial : Threads := ⟨[], [], 0, none, true, none⟩

inductive Call where
  | start (created : Bool)
  | kill
deriving DecidableEq, Repr

def created (s : Threads) : Threads :=
  { s with
    live := s.nextThread :: s.live
    starting := s.nextThread :: s.starting
    nextThread := s.nextThread + 1
    handle := some s.nextThread }

def startEventloopThread (port : Port) (ok : Bool) (s : Threads) : Threads :=
  match port with
  | .unix => if ok then { created s with err := false } else { s with err := true }
  | .stm32 => if ok then created s else s

def cancelled (s : Threads) : Threads :=
  { s with
    live := s.live.filter fun t => some t ≠ s.handle
    starting := s.starting.filter fun t => some t ≠ s.handle
    queue := none }

/-- On unix a call that finds no error and no queue retries until there is a queue. -/
def killEventloopThread (port : Port) (s : Threads) : Option Threads :=
  match port with
  | .unix =>
    if s.err then some { s with queue := none, err := true }
    else
      match s.queue with
      | none => none
      | some _ => some { cancelled s with err := true }
  | .stm32 =>
    match s.handle with
    | none => some s
    | some _ => some { cancelled s with handle := none }

def call (port : Port) (s : Threads) : Call → Option Threads
  | .start ok => some (startEventloopThread port ok s)
  | .kill => killEventloopThread port s

/-- The first statements of `eventloop_task`. -/
def eventloopTask (t : Nat) (s : Threads) : Option Threads :=
  if t ∈ s.starting then some { s with starting := s.starting.erase t, queue := some t } else none

/-- The thread that the next kill would stop. -/
def killTarget (port : Port) (s : Threads) : Option Nat :=
  match port with
  | .unix => if s.err then none else s.handle
  | .stm32 => s.handle

def AtMostOne (port : Port) (s : Threads) : Prop :=
  s.live.length ≤ 1 ∧ ∀ t ∈ s.live, killTarget port s = some t

/-! ## The tasks -/

/-- What the LWM2M task still has to do of a Reboot or an Update. -/
inductive Lwm2m where
  | idle
  | rebooting
  | updating
deriving DecidableEq, Repr

structure System where
  threads : Threads
  booted : Bool
  downloads : Nat
  lwm2m : Lwm2m
deriving DecidableEq, Repr

/-- `downloadFails` is a download that ends without a start. -/
inductive Action where
  | boot (ok : Bool)
  | downloadBegins
  | downloadSucceeds (ok : Bool)
  | downloadFails
  | rebootKills
  | rebootStarts (ok : Bool)
  | updateKills
  | updateStarts (ok : Bool)
  | threadRuns (t : Nat)
deriving DecidableEq, Repr

def Action.call? : Action → Option Call
  | .boot ok | .downloadSucceeds ok | .rebootStarts ok | .updateStarts ok => some (.start ok)
  | .downloadBegins | .rebootKills | .updateKills => some .kill
  | .downloadFails | .threadRuns _ => none

/-- The part of a step that concerns the tasks. -/
def taskStep (s : System) : Action → Option System
  | .boot _ => if s.booted then none else some { s with booted := true }
  | .downloadBegins => some { s with downloads := s.downloads + 1 }
  | .downloadSucceeds _ | .downloadFails =>
    if s.downloads = 0 then none else some { s with downloads := s.downloads - 1 }
  | .rebootKills => if s.lwm2m = .idle then some { s with lwm2m := .rebooting } else none
  | .rebootStarts _ => if s.lwm2m = .rebooting then some { s with lwm2m := .idle } else none
  | .updateKills => if s.lwm2m = .idle then some { s with lwm2m := .updating } else none
  | .updateStarts _ => if s.lwm2m = .updating then some { s with lwm2m := .idle } else none
  | .threadRuns _ => some s

def threadStep (port : Port) (s : Threads) (a : Action) : Option Threads :=
  match a, a.call? with
  | .threadRuns t, _ => eventloopTask t s
  | _, some c => call port s c
  | _, none => some s

def systemStep (port : Port) (s : System) (a : Action) : Option (System × Unit) := do
  let tasks ← taskStep s a
  let threads ← threadStep port s.threads a
  pure ({ tasks with threads := threads }, ())

def System.initial : System := ⟨EventThread.initial, false, 0, .idle⟩

/-! ## When there is at most one -/

/-- A kill stands between any two starts, `running` telling whether a start came last. A start
that fails leaves the variables of stm32 alone, so there it does not count. -/
def Alternating (port : Port) : Bool → List Call → Prop
  | _, [] => True
  | _, .kill :: calls => Alternating port false calls
  | running, .start ok :: calls =>
    (running = true → port = .stm32 ∧ ok = false) ∧ Alternating port (running || ok) calls

/-- The threads and the variables after calls that alternate. -/
structure InStep (port : Port) (running : Bool) (s : Threads) : Prop where
  idle : running = false → s.live = [] ∧ killTarget port s = none
  one : running = true → ∃ t, s.live = [t] ∧ killTarget port s = some t

theorem InStep.atMostOne {port : Port} {running : Bool} {s : Threads} (h : InStep port running s) :
    AtMostOne port s := by
  cases running with
  | false =>
    obtain ⟨hlive, _⟩ := h.idle rfl
    simp [AtMostOne, hlive]
  | true =>
    obtain ⟨t, hlive, htarget⟩ := h.one rfl
    simp [AtMostOne, hlive, htarget]

theorem initial_inStep (port : Port) : InStep port false initial := by
  refine ⟨fun _ => ⟨rfl, ?_⟩, nofun⟩
  cases port <;> rfl

section Steps
variable {port : Port} {running : Bool} {s s' : Threads}

theorem kill_inStep (h : InStep port running s) (hk : killEventloopThread port s = some s') :
    InStep port false s' := by
  refine ⟨fun _ => ?_, nofun⟩
  have gone : (cancelled s).live = [] ∨ killTarget port s = none := by
    cases running with
    | false => exact Or.inr (h.idle rfl).2
    | true =>
      obtain ⟨t, hlive, htarget⟩ := h.one rfl
      left
      have : s.handle = some t := by
        cases port with
        | unix =>
          by_cases herr : s.err = true
          · simp [killTarget, herr] at htarget
          · simpa [killTarget, herr] using htarget
        | stm32 => exact htarget
      simp [cancelled, hlive, this]
  have none_live : killTarget port s = none → s.live = [] := by
    intro hn
    cases running with
    | false => exact (h.idle rfl).1
    | true =>
      obtain ⟨t, _, htarget⟩ := h.one rfl
      rw [hn] at htarget
      cases htarget
  cases port with
  | unix =>
    unfold killEventloopThread at hk
    simp only at hk
    split at hk
    · next herr =>
      cases hk
      exact ⟨none_live (by simp [killTarget, herr]), rfl⟩
    · next herr =>
      split at hk
      · cases hk
      · cases hk
        refine ⟨?_, rfl⟩
        rcases gone with hgone | hnone
        · exact hgone
        · have := none_live hnone
          simp [cancelled, this]
  | stm32 =>
    unfold killEventloopThread at hk
    simp only at hk
    split at hk
    · next hn =>
      cases hk
      exact ⟨none_live hn, hn⟩
    · cases hk
      refine ⟨?_, rfl⟩
      rcases gone with hgone | hnone
      · exact hgone
      · have := none_live hnone
        simp [cancelled, this]

theorem start_inStep (h : InStep port running s) {ok : Bool}
    (allowed : running = true → port = .stm32 ∧ ok = false) :
    InStep port (running || ok) (startEventloopThread port ok s) := by
  cases running with
  | false =>
    obtain ⟨hlive, htarget⟩ := h.idle rfl
    cases ok with
    | true =>
      refine ⟨nofun, fun _ => ⟨s.nextThread, ?_⟩⟩
      cases port <;> simp [startEventloopThread, created, killTarget, hlive]
    | false =>
      refine ⟨fun _ => ?_, nofun⟩
      cases port with
      | unix => simp [startEventloopThread, killTarget, hlive]
      | stm32 => exact ⟨hlive, htarget⟩
  | true =>
    obtain ⟨rfl, rfl⟩ := allowed rfl
    exact h

/-- A start that is not allowed makes a second thread or loses the first one. -/
theorem start_breaks (h : InStep port true s) {ok : Bool} (bad : ¬ (port = .stm32 ∧ ok = false)) :
    ¬ AtMostOne port (startEventloopThread port ok s) := by
  obtain ⟨t, hlive, _⟩ := h.one rfl
  intro hone
  cases ok with
  | true =>
    have := hone.1
    cases port <;> simp [startEventloopThread, created, hlive] at this
  | false =>
    cases port with
    | unix =>
      have := hone.2 t (by simp [startEventloopThread, hlive])
      simp [startEventloopThread, killTarget] at this
    | stm32 => exact bad ⟨rfl, rfl⟩

theorem eventloopTask_inStep (h : InStep port running s) {t : Nat}
    (ht : eventloopTask t s = some s') : InStep port running s' := by
  unfold eventloopTask at ht
  split at ht
  · cases ht
    exact ⟨h.idle, h.one⟩
  · cases ht

end Steps

theorem systemStep_threads {port : Port} {s t : System} {a : Action} {u : Unit}
    (h : systemStep port s a = some (t, u)) : threadStep port s.threads a = some t.threads := by
  unfold systemStep at h
  obtain ⟨tasks, htasks, h⟩ := Option.bind_eq_some_iff.mp h
  obtain ⟨threads, hthreads, h⟩ := Option.bind_eq_some_iff.mp h
  cases h
  exact hthreads

/-- What a step that calls nothing, or makes an allowed call, preserves. -/
theorem threadStep_inStep {port : Port} {running : Bool} {s s' : Threads} {a : Action}
    (h : InStep port running s) (hs : threadStep port s a = some s') :
    match a.call? with
    | none => InStep port running s'
    | some .kill => InStep port false s'
    | some (.start ok) => if running = true ∧ ¬ (port = .stm32 ∧ ok = false) then ¬ AtMostOne port s'
      else InStep port (running || ok) s' := by
  have start : ∀ ok, call port s (.start ok) = some s' →
      if running = true ∧ ¬ (port = .stm32 ∧ ok = false) then ¬ AtMostOne port s'
      else InStep port (running || ok) s' := by
    intro ok hc
    cases hc
    split
    · next hbad =>
      obtain ⟨rfl, hbad⟩ := hbad
      exact start_breaks h hbad
    · next hgood =>
      apply start_inStep h
      intro hr
      by_contra hbad
      exact hgood ⟨hr, hbad⟩
  cases a with
  | threadRuns t => exact eventloopTask_inStep h hs
  | downloadFails =>
    cases hs
    exact h
  | downloadBegins => exact kill_inStep h hs
  | rebootKills => exact kill_inStep h hs
  | updateKills => exact kill_inStep h hs
  | boot ok => exact start ok hs
  | downloadSucceeds ok => exact start ok hs
  | rebootStarts ok => exact start ok hs
  | updateStarts ok => exact start ok hs

theorem prefixes_atMostOne_iff {port : Port} {actions : List Action} {running : Bool}
    {s u : System} {outs : List Unit} (h : InStep port running s.threads)
    (hrun : Runs.run (systemStep port) s actions = some (u, outs)) :
    (∀ before t os, before <+: actions → Runs.run (systemStep port) s before = some (t, os) →
      AtMostOne port t.threads) ↔ Alternating port running (actions.filterMap Action.call?) := by
  induction actions generalizing s running outs with
  | nil =>
    refine ⟨fun _ => trivial, ?_⟩
    intro _ before t os hpre hb
    rw [List.prefix_nil.mp hpre] at hb
    cases hb
    exact h.atMostOne
  | cons a actions ih =>
    obtain ⟨m, o, rest, hstep, hrest, _⟩ := Runs.run_cons_iff.mp hrun
    have hm := threadStep_inStep h (systemStep_threads hstep)
    -- the runs of the prefixes go through this step
    have through : (∀ before t os, before <+: a :: actions →
        Runs.run (systemStep port) s before = some (t, os) → AtMostOne port t.threads) ↔
        ∀ before t os, before <+: actions →
          Runs.run (systemStep port) m before = some (t, os) → AtMostOne port t.threads := by
      constructor
      · intro hall before t os hpre hb
        exact hall (a :: before) t (o :: os) (List.cons_prefix_cons.mpr ⟨rfl, hpre⟩)
          (Runs.run_cons_iff.mpr ⟨m, o, os, hstep, hb, rfl⟩)
      · intro hall before t os hpre hb
        rcases List.prefix_cons_iff.mp hpre with rfl | ⟨before', rfl, hpre'⟩
        · cases hb
          exact h.atMostOne
        · obtain ⟨m', o', os', hstep', hb', _⟩ := Runs.run_cons_iff.mp hb
          rw [hstep] at hstep'
          cases hstep'
          exact hall before' t os' hpre' hb'
    rw [through]
    cases hc : a.call? with
    | none =>
      rw [hc] at hm
      rw [List.filterMap_cons_none hc]
      exact ih hm hrest
    | some c =>
      rw [hc] at hm
      rw [List.filterMap_cons_some hc]
      cases c with
      | kill => exact ih hm hrest
      | start ok =>
        simp only at hm
        split at hm
        · next hbad =>
          constructor
          · intro hall
            exact absurd (hall [] m [] List.nil_prefix rfl) hm
          · intro halt
            exact absurd (halt.1 hbad.1) hbad.2
        · next hgood =>
          rw [ih hm hrest]
          refine ⟨fun halt => ⟨?_, halt⟩, fun halt => halt.2⟩
          intro hr
          by_contra hbad
          exact hgood ⟨hr, hbad⟩

/-- Over every interleaving: no state has two threads, or one that a kill would miss, exactly
when a kill stands between any two starts. -/
theorem one_loop_iff_alternating (port : Port) (actions : List Action) {u : System}
    {outs : List Unit}
    (h : Runs.run (systemStep port) System.initial actions = some (u, outs)) :
    (∀ before t os, before <+: actions →
      Runs.run (systemStep port) System.initial before = some (t, os) →
        AtMostOne port t.threads) ↔
      Alternating port false (actions.filterMap Action.call?) :=
  prefixes_atMostOne_iff (initial_inStep port) h

/-- A download alone, then a Reboot. -/
def oneAfterTheOther : List Action :=
  [.boot true, .threadRuns 0, .downloadBegins, .downloadSucceeds true, .threadRuns 1, .rebootKills,
    .rebootStarts true, .threadRuns 2]

theorem download_then_reboot : ∃ u outs,
    Runs.run (systemStep .unix) System.initial oneAfterTheOther = some (u, outs) ∧
    ((∀ before t os, before <+: oneAfterTheOther →
      Runs.run (systemStep .unix) System.initial before = some (t, os) →
        AtMostOne .unix t.threads) ↔
      Alternating .unix false (oneAfterTheOther.filterMap Action.call?)) :=
  ⟨_, _, rfl, one_loop_iff_alternating .unix oneAfterTheOther rfl⟩

/-- A Reboot while a firmware is downloaded. -/
def rebootDuringDownload : List Action :=
  [.boot true, .threadRuns 0, .downloadBegins, .rebootKills, .rebootStarts true, .threadRuns 1,
    .downloadSucceeds true]

theorem reboot_during_download_makes_two :
    (∃ u outs, Runs.run (systemStep .unix) System.initial rebootDuringDownload = some (u, outs) ∧
      u.threads.live = [2, 1] ∧ ¬ AtMostOne .unix u.threads) ∧
    ∃ u outs, Runs.run (systemStep .stm32) System.initial rebootDuringDownload = some (u, outs) ∧
      u.threads.live = [2, 1] ∧ ¬ AtMostOne .stm32 u.threads :=
  ⟨⟨_, _, rfl, rfl, fun h => absurd h.1 (by decide)⟩,
    ⟨_, _, rfl, rfl, fun h => absurd h.1 (by decide)⟩⟩

end JsEmbeddedPlatform.EventThread
