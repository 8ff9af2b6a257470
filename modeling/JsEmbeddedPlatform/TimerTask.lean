import Mathlib.Tactic.Ring
import JsEmbeddedPlatform.TimerWiring

/-!
# The thread of a unix timer

`_timer_task` sleeps until an absolute time, adds the delay to that time and only then pushes
its event. The time is a `struct timespec`, two fields with a carry between them. The clock of
the thread goes on between any two of its statements, and the thread may be cancelled before
any of them.
-/

set_option autoImplicit false

namespace JsEmbeddedPlatform.TimerTask

/-! ## Points in time -/

def nsecPerSecond : Int := 1000000000

structure Timespec where
  tvSec : Int
  tvNsec : Int
deriving DecidableEq, Repr

def timespecAdd (ts1 ts2 : Timespec) : Timespec :=
  let ts : Timespec := ⟨ts1.tvSec + ts2.tvSec, ts1.tvNsec + ts2.tvNsec⟩
  if ts.tvNsec ≥ nsecPerSecond then ⟨ts.tvSec + 1, ts.tvNsec - nsecPerSecond⟩ else ts

namespace Timespec

def Normalized (ts : Timespec) : Prop := 0 ≤ ts.tvNsec ∧ ts.tvNsec < 1000000000

instance (ts : Timespec) : Decidable ts.Normalized := inferInstanceAs (Decidable (_ ∧ _))

/-- The time it stands for. -/
def nanoseconds (ts : Timespec) : Int := ts.tvSec * 1000000000 + ts.tvNsec

end Timespec

/-- The carry moves a second from one field to the other. -/
theorem nanoseconds_timespecAdd (a b : Timespec) :
    (timespecAdd a b).nanoseconds = a.nanoseconds + b.nanoseconds := by
  unfold timespecAdd Timespec.nanoseconds nsecPerSecond
  simp only
  split
  · simp only
    omega
  · simp only
    omega

/-- One carry is enough for two normalized times. -/
theorem normalized_timespecAdd {a b : Timespec} (ha : a.Normalized) (hb : b.Normalized) :
    (timespecAdd a b).Normalized := by
  obtain ⟨ha0, ha1⟩ := ha
  obtain ⟨hb0, hb1⟩ := hb
  unfold timespecAdd Timespec.Normalized nsecPerSecond
  simp only
  split
  · simp only
    omega
  · simp only
    omega

/-! ## The thread -/

structure TimerSpec where
  triggerTime : Timespec
  timeout : Timespec
deriving DecidableEq, Repr

/-- The `timeout` of `eventloop_platform_timer_start`; `/` and `%` of C round towards zero. -/
def delayOf (timeout : Int) : Timespec := ⟨timeout.tdiv 1000, timeout.tmod 1000 * 1000000⟩

/-- The `spec` of `eventloop_platform_timer_start`, which found the time `ts`. -/
def startSpec (ts : Timespec) (timeout : Int) : TimerSpec where
  triggerTime := timespecAdd (delayOf timeout) ts
  timeout := delayOf timeout

/-- The statement of `_timer_task` that comes next; `asleep` is inside of `clock_nanosleep`. -/
inductive Point where
  | nanosleep
  | asleep
  | add
  | push
  | test
  | ended
deriving DecidableEq, Repr

/-- `clock` is `CLOCK_MONOTONIC` in nanoseconds. -/
structure Task where
  spec : TimerSpec
  repeats : Bool
  point : Point
  cancelled : Bool
  clock : Int
deriving DecidableEq, Repr

def Task.start (ts : Timespec) (timeout : Int) (repeats : Bool) (clock : Int) : Task where
  spec := startSpec ts timeout
  repeats := repeats
  point := .nanosleep
  cancelled := false
  clock := clock

inductive Event where
  | passes (duration : Nat)
  | runs
  | returns (result : Int)
  | cancel
deriving DecidableEq, Repr

/-- What a step does that others can see: a call of `clock_nanosleep` with this time, or a call of
`eventloop_callback_call` at this time. -/
inductive Effect where
  | sleeps (deadline : Timespec)
  | pushes (time : Int)
  | nothing
deriving DecidableEq, Repr

/-- The next statement of the thread, which has none of its own while it is asleep. -/
def statement (t : Task) : Option (Task × Effect) :=
  match t.point with
  | .nanosleep => some ({ t with point := .asleep }, .sleeps t.spec.triggerTime)
  | .asleep => none
  | .add => some
      ({ t with
        spec := { t.spec with triggerTime := timespecAdd t.spec.triggerTime t.spec.timeout }
        point := .push }, .nothing)
  | .push => some ({ t with point := .test }, .pushes t.clock)
  | .test => some ({ t with point := if t.repeats then .nanosleep else .ended }, .nothing)
  | .ended => none

/-- `clock_nanosleep` returns zero when its time has come. Any other result calls it again. -/
def nanosleepReturns (t : Task) (result : Int) : Option (Task × Effect) :=
  if t.point ≠ .asleep then none
  else if result ≠ 0 then some ({ t with point := .nanosleep }, .nothing)
  else if t.spec.triggerTime.nanoseconds ≤ t.clock then some ({ t with point := .add }, .nothing)
  else none

def step (t : Task) : Event → Option (Task × Effect)
  | .passes duration => some ({ t with clock := t.clock + duration }, .nothing)
  | .runs => if t.cancelled then none else statement t
  | .returns result => if t.cancelled then none else nanosleepReturns t result
  | .cancel => some ({ t with cancelled := true }, .nothing)

/-! ## What a run shows -/

def Effect.sleep? : Effect → Option Timespec
  | .sleeps ts => some ts
  | _ => none

def Effect.push? : Effect → Option Int
  | .pushes time => some time
  | _ => none

/-- The times the thread has slept on. -/
def sleeps (effects : List Effect) : List Timespec := effects.filterMap Effect.sleep?

/-- The times at which it has pushed an event. -/
def pushes (effects : List Effect) : List Int := effects.filterMap Effect.push?

@[simp] theorem sleeps_concat (effects : List Effect) (e : Effect) :
    sleeps (effects ++ [e]) = sleeps effects ++ e.sleep?.toList := by
  unfold sleeps
  cases h : e.sleep? <;> simp [List.filterMap_append, h]

@[simp] theorem pushes_concat (effects : List Effect) (e : Effect) :
    pushes (effects ++ [e]) = pushes effects ++ e.push?.toList := by
  unfold pushes
  cases h : e.push? <;> simp [List.filterMap_append, h]

/-- From the time `begun` on, a delay of `delay` milliseconds: every sleep is on a normalized time,
the sleeps after `k` events are on `begun + (k + 1) * delay` exactly, and event `k + 1` is not
pushed before that time. -/
structure OnSchedule (begun delay : Int) (effects : List Effect) : Prop where
  normalized : ∀ ts ∈ sleeps effects, ts.Normalized
  timed : ∀ before ts after, effects = before ++ .sleeps ts :: after →
    ts.nanoseconds = begun + ((pushes before).length + 1) * (delay * 1000000)
  due : ∀ (k : Nat) time, (pushes effects)[k]? = some time → begun + (k + 1) * (delay * 1000000) ≤ time

/-! ## One step -/

theorem nanoseconds_delayOf (timeout : Int) :
    (delayOf timeout).nanoseconds = timeout * 1000000 := by
  have h := Int.mul_tdiv_add_tmod timeout 1000
  unfold delayOf Timespec.nanoseconds
  simp only
  omega

theorem normalized_delayOf {timeout : Int} (h : 0 ≤ timeout) : (delayOf timeout).Normalized := by
  unfold delayOf Timespec.Normalized
  simp only
  rw [Int.tmod_eq_emod_of_nonneg h]
  omega

/-- All that a step can do. -/
inductive Stepped (t : Task) : Task → Effect → Prop where
  | passes (duration : Nat) : Stepped t { t with clock := t.clock + duration } .nothing
  | cancel : Stepped t { t with cancelled := true } .nothing
  | sleeps : t.point = .nanosleep →
      Stepped t { t with point := .asleep } (.sleeps t.spec.triggerTime)
  | interrupted : t.point = .asleep → Stepped t { t with point := .nanosleep } .nothing
  | wakes : t.point = .asleep → t.spec.triggerTime.nanoseconds ≤ t.clock →
      Stepped t { t with point := .add } .nothing
  | adds : t.point = .add → Stepped t
      { t with
        spec := { t.spec with triggerTime := timespecAdd t.spec.triggerTime t.spec.timeout }
        point := .push } .nothing
  | pushes : t.point = .push → Stepped t { t with point := .test } (.pushes t.clock)
  | again : t.point = .test → t.repeats = true → Stepped t { t with point := .nanosleep } .nothing
  | ends : t.point = .test → t.repeats = false → Stepped t { t with point := .ended } .nothing

theorem stepped_of_statement {t u : Task} {o : Effect} (h : statement t = some (u, o)) :
    Stepped t u o := by
  unfold statement at h
  cases hp : t.point with
  | nanosleep =>
    simp only [hp, Option.some.injEq, Prod.mk.injEq] at h
    obtain ⟨rfl, rfl⟩ := h
    exact .sleeps hp
  | asleep =>
    simp only [hp] at h
    cases h
  | add =>
    simp only [hp, Option.some.injEq, Prod.mk.injEq] at h
    obtain ⟨rfl, rfl⟩ := h
    exact .adds hp
  | push =>
    simp only [hp, Option.some.injEq, Prod.mk.injEq] at h
    obtain ⟨rfl, rfl⟩ := h
    exact .pushes hp
  | test =>
    simp only [hp, Option.some.injEq, Prod.mk.injEq] at h
    obtain ⟨rfl, rfl⟩ := h
    split
    · next hr => exact .again hp hr
    · next hr => exact .ends hp (Bool.eq_false_of_not_eq_true hr)
  | ended =>
    simp only [hp] at h
    cases h

theorem stepped_of_step {t u : Task} {e : Event} {o : Effect} (h : step t e = some (u, o)) :
    Stepped t u o := by
  cases e with
  | passes duration =>
    cases h
    exact .passes duration
  | runs =>
    simp only [step] at h
    split at h
    · cases h
    · exact stepped_of_statement h
  | returns result =>
    simp only [step, nanosleepReturns] at h
    split at h
    · cases h
    · split at h
      · cases h
      · next _ hp =>
        have hpoint : t.point = .asleep := not_not.mp hp
        split at h
        · cases h
          exact .interrupted hpoint
        · split at h
          · next htime =>
            cases h
            exact .wakes hpoint htime
          · cases h
  | cancel =>
    cases h
    exact .cancel

/-! ## Runs -/

/-- How many delays the trigger time is ahead of the events pushed. -/
def Point.ahead : Point → Int
  | .push => 2
  | _ => 1

/-- The time it slept for has come, and its event is still to be pushed. -/
def Point.woken : Point → Bool
  | .add | .push => true
  | _ => false

/-- The event of this turn of the loop is pushed. -/
def Point.fired : Point → Bool
  | .test | .ended => true
  | _ => false

theorem Point.fired_iff {p : Point} : p.fired = true ↔ p = .test ∨ p = .ended := by
  cases p <;> simp [Point.fired]

/-- What every step keeps while `k` events have been pushed. The trigger time depends on `k`, and
on nothing the clock has shown since the start. -/
structure OnTrack (begun timeout : Int) (repeats : Bool) (k : Nat) (t : Task) : Prop where
  repeats_eq : t.repeats = repeats
  delay : t.spec.timeout = delayOf timeout
  normalized : t.spec.triggerTime.Normalized
  trigger : t.spec.triggerTime.nanoseconds = begun + (k + t.point.ahead) * (timeout * 1000000)
  reached : t.point.woken = true → begun + (k + 1) * (timeout * 1000000) ≤ t.clock
  once : repeats = false → k = t.point.fired.toNat
  lasts : t.point = .ended → repeats = false

def Effect.events (o : Effect) : Nat := o.push?.toList.length

section Runs
variable {begun timeout : Int} {repeats : Bool} {k : Nat} {t u : Task} {o : Effect}

theorem onTrack_start {ts : Timespec} (hts : ts.Normalized) (hm : 0 ≤ timeout) (clock : Int) :
    OnTrack ts.nanoseconds timeout repeats 0 (Task.start ts timeout repeats clock) := by
  refine ⟨rfl, rfl, normalized_timespecAdd (normalized_delayOf hm) hts, ?_,
    by simp [Task.start, Point.woken], fun _ => rfl, by simp [Task.start]⟩
  change (timespecAdd (delayOf timeout) ts).nanoseconds = _
  rw [nanoseconds_timespecAdd, nanoseconds_delayOf]
  change _ = ts.nanoseconds + (0 + 1) * (timeout * 1000000)
  omega

theorem OnTrack.step (h : OnTrack begun timeout repeats k t) (hm : 0 ≤ timeout)
    (hstep : Stepped t u o) : OnTrack begun timeout repeats (k + o.events) u := by
  obtain ⟨hrepeats, hdelay, hnormal, htrigger, hreached, honce, hlasts⟩ := h
  cases hstep with
  | passes duration =>
    refine ⟨hrepeats, hdelay, hnormal, htrigger, ?_, honce, hlasts⟩
    intro hp
    have hclock := hreached hp
    change begun + (k + 1) * (timeout * 1000000) ≤ t.clock + duration
    omega
  | cancel => exact ⟨hrepeats, hdelay, hnormal, htrigger, hreached, honce, hlasts⟩
  | sleeps hp =>
    rw [hp] at htrigger honce
    exact ⟨hrepeats, hdelay, hnormal, htrigger, by simp [Point.woken], honce, by simp⟩
  | interrupted hp =>
    rw [hp] at htrigger honce
    exact ⟨hrepeats, hdelay, hnormal, htrigger, by simp [Point.woken], honce, by simp⟩
  | wakes hp htime =>
    rw [hp] at htrigger honce
    refine ⟨hrepeats, hdelay, hnormal, htrigger, ?_, honce, by simp⟩
    intro _
    rw [htrigger] at htime
    exact htime
  | adds hp =>
    rw [hp] at htrigger honce
    refine ⟨hrepeats, hdelay, ?_, ?_, fun _ => hreached (by rw [hp]; rfl), honce, by simp⟩
    · change (timespecAdd t.spec.triggerTime t.spec.timeout).Normalized
      rw [hdelay]
      exact normalized_timespecAdd hnormal (normalized_delayOf hm)
    · change (timespecAdd t.spec.triggerTime t.spec.timeout).nanoseconds =
        begun + (k + 2) * (timeout * 1000000)
      rw [nanoseconds_timespecAdd, htrigger, hdelay, nanoseconds_delayOf]
      change begun + (k + 1) * (timeout * 1000000) + timeout * 1000000 = _
      ring
  | pushes hp =>
    rw [hp] at htrigger honce
    refine ⟨hrepeats, hdelay, hnormal, ?_, by simp [Point.woken], ?_, by simp⟩
    · change _ = begun + ((k + 1 : Nat) + 1) * (timeout * 1000000)
      rw [htrigger]
      change begun + (k + 2) * (timeout * 1000000) = _
      push_cast
      ring
    · intro hr
      rw [honce hr]
      rfl
  | again hp hr =>
    rw [hp] at htrigger
    refine ⟨hrepeats, hdelay, hnormal, htrigger, by simp [Point.woken], ?_, by simp⟩
    intro hr'
    rw [hr'] at hrepeats
    exact absurd (hr.symm.trans hrepeats) (by decide)
  | ends hp hr =>
    rw [hp] at htrigger honce
    exact ⟨hrepeats, hdelay, hnormal, htrigger, by simp [Point.woken], honce,
      fun _ => hrepeats.symm.trans hr⟩

/-- What a thread on track shows next. -/
theorem OnTrack.shows (h : OnTrack begun timeout repeats k t) (hstep : Stepped t u o) :
    (∀ ts, o = .sleeps ts →
      ts.Normalized ∧ ts.nanoseconds = begun + (k + 1) * (timeout * 1000000)) ∧
    ∀ time, o = .pushes time → begun + (k + 1) * (timeout * 1000000) ≤ time := by
  cases hstep with
  | sleeps hp =>
    refine ⟨?_, by simp⟩
    intro ts hts
    cases hts
    have htrigger := h.trigger
    rw [hp] at htrigger
    exact ⟨h.normalized, htrigger⟩
  | pushes hp =>
    refine ⟨by simp, ?_⟩
    intro time htime
    cases htime
    exact h.reached (by rw [hp]; rfl)
  | _ => exact ⟨by simp, by simp⟩

theorem OnSchedule.concat {seen : List Effect} (h : OnSchedule begun timeout seen)
    (hsleep : ∀ ts, o = .sleeps ts → ts.Normalized ∧
      ts.nanoseconds = begun + ((pushes seen).length + 1) * (timeout * 1000000))
    (hpush : ∀ time, o = .pushes time →
      begun + ((pushes seen).length + 1) * (timeout * 1000000) ≤ time) :
    OnSchedule begun timeout (seen ++ [o]) := by
  refine ⟨?_, ?_, ?_⟩
  · intro ts hts
    rw [sleeps_concat, List.mem_append] at hts
    rcases hts with hts | hts
    · exact h.normalized ts hts
    · cases o with
      | sleeps deadline =>
        rw [List.mem_singleton.mp hts]
        exact (hsleep deadline rfl).1
      | pushes => cases hts
      | nothing => cases hts
  · intro before ts after heq
    rcases List.eq_nil_or_concat' after with rfl | ⟨rest, last, rfl⟩
    · obtain ⟨rfl, hlast⟩ := List.append_inj' heq rfl
      exact (hsleep ts (List.singleton_inj.mp hlast)).2
    · rw [← List.cons_append, ← List.append_assoc] at heq
      obtain ⟨heq, _⟩ := List.append_inj' heq rfl
      exact h.timed before ts rest heq
  · intro i time htime
    rw [pushes_concat] at htime
    rcases Nat.lt_or_ge i (pushes seen).length with hi | hi
    · rw [List.getElem?_append_left hi] at htime
      exact h.due i time htime
    · rw [List.getElem?_append_right hi] at htime
      cases o with
      | sleeps => cases htime
      | pushes pushed =>
        have hlast := (List.getElem?_eq_some_iff.mp htime).1
        have hvalue : time = pushed := List.mem_singleton.mp (List.mem_of_getElem? htime)
        have hi : i = (pushes seen).length := by
          change i - (pushes seen).length < 1 at hlast
          omega
        rw [hi, hvalue]
        exact hpush pushed rfl
      | nothing => cases htime

theorem run_onSchedule {ts : Timespec} (hts : ts.Normalized) (hm : 0 ≤ timeout) {clock : Int}
    {events : List Event} {effects : List Effect}
    (hrun : Runs.run step (Task.start ts timeout repeats clock) events = some (t, effects)) :
    OnSchedule ts.nanoseconds timeout effects ∧
      OnTrack ts.nanoseconds timeout repeats (pushes effects).length t := by
  refine Runs.run_history (P := fun _ seen t => OnSchedule ts.nanoseconds timeout seen ∧
    OnTrack ts.nanoseconds timeout repeats (pushes seen).length t) ?_ ?_ hrun
  · rintro _ seen s e u o ⟨hsched, htrack⟩ hstep
    have hstepped := stepped_of_step hstep
    have hshows := htrack.shows hstepped
    refine ⟨hsched.concat hshows.1 hshows.2, ?_⟩
    rw [pushes_concat, List.length_append]
    exact htrack.step hm hstepped
  · refine ⟨⟨by simp [sleeps], ?_, by simp [pushes]⟩, onTrack_start hts hm clock⟩
    intro before deadline after h
    cases before <;> cases h

end Runs

/-! ## The event comes -/

/-- From `t` the thread can get to `point` uncancelled, with `n` events on the way. -/
def Reaches (t : Task) (n : Nat) (point : Point) : Prop :=
  ∃ events last effects, Runs.run step t events = some (last, effects) ∧
    last.point = point ∧ last.cancelled = false ∧ last.repeats = t.repeats ∧
    (pushes effects).length = n

theorem Reaches.here {t : Task} (h : t.cancelled = false) : Reaches t 0 t.point :=
  ⟨[], t, [], rfl, rfl, h, rfl, rfl⟩

theorem Reaches.cons {t u : Task} {e : Event} {o : Effect} {n : Nat} {point : Point}
    (hstep : step t e = some (u, o)) (hrepeats : u.repeats = t.repeats)
    (h : Reaches u n point) : Reaches t (o.events + n) point := by
  obtain ⟨events, last, effects, hrun, hpoint, hcancelled, hlast, hpushes⟩ := h
  refine ⟨e :: events, last, o :: effects, Runs.run_cons_iff.mpr ⟨u, o, effects, hstep, hrun, rfl⟩,
    hpoint, hcancelled, hlast.trans hrepeats, ?_⟩
  rw [← hpushes, ← List.singleton_append]
  unfold pushes Effect.events
  rw [List.filterMap_append, List.length_append]
  cases o <;> rfl

section Progress
variable {t : Task}

theorem reaches_of_runs {u : Task} {o : Effect} {n : Nat} {point : Point}
    (h : t.cancelled = false) (hstatement : statement t = some (u, o))
    (hrepeats : u.repeats = t.repeats) (hu : Reaches u n point) :
    Reaches t (o.events + n) point := by
  have hstep : step t .runs = some (u, o) := by
    unfold step
    rw [h]
    exact hstatement
  exact Reaches.cons hstep hrepeats hu

theorem reaches_of_push (h : t.cancelled = false) (hp : t.point = .push) : Reaches t 1 .test := by
  have hstatement : statement t = some ({ t with point := .test }, .pushes t.clock) := by
    unfold statement
    rw [hp]
  have hnext : Reaches { t with point := .test } 0 .test := Reaches.here h
  exact reaches_of_runs h hstatement rfl hnext

theorem reaches_of_add (h : t.cancelled = false) (hp : t.point = .add) : Reaches t 1 .test := by
  have hstatement : statement t = some
      ({ t with
        spec := { t.spec with triggerTime := timespecAdd t.spec.triggerTime t.spec.timeout }
        point := .push }, .nothing) := by
    unfold statement
    rw [hp]
  exact reaches_of_runs h hstatement rfl (reaches_of_push h rfl)

/-- The clock gets to the trigger time, and `clock_nanosleep` returns. -/
theorem reaches_of_asleep (h : t.cancelled = false) (hp : t.point = .asleep) :
    Reaches t 1 .test := by
  have hpasses : step t (.passes (t.spec.triggerTime.nanoseconds - t.clock).toNat) = some
      ({ t with clock := t.clock + (t.spec.triggerTime.nanoseconds - t.clock).toNat },
        .nothing) := rfl
  refine Reaches.cons hpasses rfl (n := 1) ?_
  generalize hd : t.clock + ((t.spec.triggerTime.nanoseconds - t.clock).toNat : Int) = clock
  have hreturns : step { t with clock := clock } (.returns 0) =
      some ({ t with clock := clock, point := .add }, .nothing) := by
    have htime : t.spec.triggerTime.nanoseconds ≤ clock := by omega
    simp [step, nanosleepReturns, h, hp, htime]
  exact Reaches.cons hreturns rfl (reaches_of_add h rfl)

theorem reaches_of_nanosleep (h : t.cancelled = false) (hp : t.point = .nanosleep) :
    Reaches t 1 .test := by
  have hstatement : statement t =
      some ({ t with point := .asleep }, .sleeps t.spec.triggerTime) := by
    unfold statement
    rw [hp]
  exact reaches_of_runs h hstatement rfl (reaches_of_asleep h rfl)

theorem reaches_event (h : t.cancelled = false) (hp : t.point.fired = false) :
    Reaches t 1 .test := by
  cases hpoint : t.point with
  | nanosleep => exact reaches_of_nanosleep h hpoint
  | asleep => exact reaches_of_asleep h hpoint
  | add => exact reaches_of_add h hpoint
  | push => exact reaches_of_push h hpoint
  | test =>
    rw [hpoint] at hp
    cases hp
  | ended =>
    rw [hpoint] at hp
    cases hp

/-- Behind its event a timer that does not repeat ends, and one that repeats starts over. -/
theorem reaches_of_test (h : t.cancelled = false) (hp : t.point = .test) :
    Reaches t 0 (if t.repeats then .nanosleep else .ended) := by
  have hstatement : statement t =
      some ({ t with point := if t.repeats then .nanosleep else .ended }, .nothing) := by
    unfold statement
    rw [hp]
  have hnext : Reaches { t with point := if t.repeats then .nanosleep else .ended } 0
      (if t.repeats then .nanosleep else .ended) := Reaches.here h
  exact reaches_of_runs h hstatement rfl hnext

theorem Reaches.trans {n m : Nat} {middle point : Point} (h : Reaches t n middle)
    (later : ∀ u : Task, u.point = middle → u.cancelled = false → u.repeats = t.repeats →
      Reaches u m point) : Reaches t (n + m) point := by
  obtain ⟨events, u, effects, hrun, hpoint, hcancelled, hrepeats, hpushes⟩ := h
  obtain ⟨events', last, effects', hrun', hlast, hcancelled', hrepeats', hpushes'⟩ :=
    later u hpoint hcancelled hrepeats
  refine ⟨events ++ events', last, effects ++ effects', ?_, hlast, hcancelled',
    hrepeats'.trans hrepeats, ?_⟩
  · exact Runs.run_append hrun hrun'
  · unfold pushes
    rw [List.filterMap_append, List.length_append, ← hpushes, ← hpushes']
    rfl

end Progress

/-! ## Every run -/

/-- The event of `setTimeout`: never a second one, one when the thread has ended, and while it is
not cancelled it can end. -/
structure FiresOnce (effects : List Effect) (t : Task) : Prop where
  atMost : (pushes effects).length ≤ 1
  ended : t.point = .ended → (pushes effects).length = 1
  reaches : t.cancelled = false → Reaches t (1 - (pushes effects).length) .ended

section Track
variable {begun timeout : Int} {repeats : Bool} {t : Task}

theorem OnTrack.firesOnce {effects : List Effect}
    (h : OnTrack begun timeout repeats (pushes effects).length t) (hr : repeats = false) :
    FiresOnce effects t := by
  have honce := h.once hr
  refine ⟨?_, ?_, ?_⟩
  · rw [honce]
    exact Bool.toNat_le t.point.fired
  · intro hp
    rw [honce, hp]
    rfl
  · intro hcancelled
    rw [honce]
    have toEnd : ∀ u : Task, u.point = .test → u.cancelled = false → u.repeats = t.repeats →
        Reaches u 0 .ended := by
      intro u hu hcancelled hrepeats
      have hend := reaches_of_test hcancelled hu
      rw [hrepeats, h.repeats_eq, hr] at hend
      exact hend
    cases hp : t.point.fired with
    | false => exact (reaches_event hcancelled hp).trans toEnd
    | true =>
      rcases Point.fired_iff.mp hp with htest | hended
      · exact toEnd t htest hcancelled rfl
      · have hend := Reaches.here hcancelled
        rw [hended] at hend
        exact hend

/-- The thread of `setInterval` does not end, so any number of events can follow. -/
theorem OnTrack.reaches_events {k : Nat} (h : OnTrack begun timeout true k t)
    (hc : t.cancelled = false) (n : Nat) : Reaches t (1 - t.point.fired.toNat + n) .test := by
  have first : Reaches t (1 - t.point.fired.toNat) .test := by
    cases hp : t.point.fired with
    | false => exact reaches_event hc hp
    | true =>
      rcases Point.fired_iff.mp hp with htest | hended
      · have here := Reaches.here hc
        rw [htest] at here
        exact here
      · exact absurd (h.lasts hended) (by simp)
  induction n with
  | zero => exact first
  | succ n ih =>
    refine Reaches.trans (m := 1) ih ?_
    intro u hu hcancelled hrepeats
    have again := reaches_of_test hcancelled hu
    rw [hrepeats, h.repeats_eq] at again
    refine Reaches.trans (m := 1) again ?_
    intro v hv hcancelled _
    exact reaches_of_nanosleep hcancelled hv

end Track

theorem timer_does_not_drift {ts : Timespec} (hts : ts.Normalized) {m : Int} (hm : 0 ≤ m)
    {repeats : Bool} {clock : Int} {events : List Event} {t : Task} {effects : List Effect}
    (hrun : Runs.run step (Task.start ts m repeats clock) events = some (t, effects)) :
    OnSchedule ts.nanoseconds m effects ∧ (repeats = false → FiresOnce effects t) := by
  obtain ⟨hsched, htrack⟩ := run_onSchedule hts hm hrun
  exact ⟨hsched, htrack.firesOnce⟩

/-- The nanoseconds are close to a carry, a sleep is interrupted, and the first event is pushed
300 ns after its time. -/
theorem timer_does_not_drift_carries :
    ∃ t effects, Runs.run step (Task.start ⟨7, 999999999⟩ 1500 true 8000000000)
        [.runs, .returns 4, .runs, .passes 1499999999, .returns 0, .runs, .passes 300, .runs, .runs,
          .runs, .passes 1499999700, .returns 0, .runs, .runs] = some (t, effects) ∧
      sleeps effects = [⟨9, 499999999⟩, ⟨9, 499999999⟩, ⟨10, 999999999⟩] ∧
      pushes effects = [9500000299, 10999999999] ∧
      OnSchedule (Timespec.nanoseconds ⟨7, 999999999⟩) 1500 effects := by
  have evaluated : ∃ t effects, Runs.run step (Task.start ⟨7, 999999999⟩ 1500 true 8000000000)
        [.runs, .returns 4, .runs, .passes 1499999999, .returns 0, .runs, .passes 300, .runs, .runs,
          .runs, .passes 1499999700, .returns 0, .runs, .runs] = some (t, effects) ∧
      decide (sleeps effects = [⟨9, 499999999⟩, ⟨9, 499999999⟩, ⟨10, 999999999⟩] ∧
        pushes effects = [9500000299, 10999999999]) = true := Runs.run_evaluated (by decide)
  obtain ⟨t, effects, hrun, hshown⟩ := evaluated
  obtain ⟨hsleeps, hpushes⟩ := of_decide_eq_true hshown
  exact ⟨t, effects, hrun, hsleeps, hpushes,
    (timer_does_not_drift (by decide) (by decide) hrun).1⟩

theorem interval_goes_on {ts : Timespec} (hts : ts.Normalized) {m : Int} (hm : 0 ≤ m)
    {clock : Int} {events : List Event} {t : Task} {effects : List Effect}
    (hrun : Runs.run step (Task.start ts m true clock) events = some (t, effects))
    (hc : t.cancelled = false) (n : Nat) : ∃ k ≥ n, Reaches t k .test :=
  ⟨_, Nat.le_add_left n _, (run_onSchedule hts hm hrun).2.reaches_events hc n⟩

/-! ## The timers of the registry -/

/-- What `pthread_create` has started for a timer of the registry. -/
def Task.ofTimer (timer : Timers.PlatformTimer) (ts : Timespec) (clock : Int) : Task :=
  Task.start ts timer.timeout timer.repeats clock

section Native
variable {Fn : Type} {r : Timers.Registry Fn} {call : Timers.SetCall Fn}

/-- The thread that a call of `setTimeout` or `setInterval` leaves keeps the call's delay. -/
theorem native_on_schedule (h : Timers.Linked r) (grant : call.Grantable r) {ms : Nat} {fn : Fn}
    {p timer : Nat} (ht : call.timeout = some ms) (hf : call.fn = some fn)
    (hb : call.block = some p) (hgranted : call.outcome.granted .unix = some timer)
    (repeats : Bool) :
    ∃ res r' pt, Timers.eventloopNativeSet repeats .unix call r = .ok (res, r') ∧
      r'.platformTimers.get? timer = some pt ∧
      ∀ (ts : Timespec) clock events t effects, ts.Normalized →
        Runs.run step (Task.ofTimer pt ts clock) events = some (t, effects) →
        OnSchedule ts.nanoseconds ms effects ∧ (repeats = false → FiresOnce effects t) := by
  obtain ⟨res, r', pt, hset, hpt, hrepeats, htimeout⟩ :=
    Timers.native_timer h grant ht hf hb hgranted repeats
  refine ⟨res, r', pt, hset, hpt, ?_⟩
  intro ts clock events t effects hts hrun
  have hm : Timers.castLong .unix ms = ms := rfl
  unfold Task.ofTimer at hrun
  rw [hrepeats, htimeout, hm] at hrun
  obtain ⟨hsched, htrack⟩ := run_onSchedule hts (Int.natCast_nonneg ms) hrun
  exact ⟨hsched, htrack.firesOnce⟩

end Native

end JsEmbeddedPlatform.TimerTask
