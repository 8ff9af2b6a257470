import Mathlib.Data.List.DropRight
import JsEmbeddedPlatform.Bootstrap

/-!
# The failures that the client loop counts

The loop of `init_lwm2m` counts the results 5.03 of `lwm2m_step` in a `short`. From the tenth on
it sends the client back to its first state and drops the bootstrap servers, and it counts on. Any
other result ends the outage, and so does a context that is built anew for an announced server.
-/

set_option autoImplicit false

namespace JsEmbeddedPlatform.RecoveryCounter

/-! ## The context -/

inductive ClientState where
  | initial
  | bootstrapRequired
  | bootstrapping
  | registerRequired
  | registering
  | ready
deriving DecidableEq, Repr

structure Server where
  secObjInstID : UInt16
  shortID : UInt16
  dirty : Bool
deriving DecidableEq, Repr

structure Context where
  state : ClientState
  bootstrapServerList : List Server
  serverList : List Server
deriving DecidableEq, Repr

/-- The loop over `bs_server`. -/
def markDirty : List Server → List Server
  | [] => []
  | bsServer :: next => { bsServer with dirty := true } :: markDirty next

theorem dirty_of_mem_markDirty {s : Server} {servers : List Server} (h : s ∈ markDirty servers) :
    s.dirty = true := by
  induction servers with
  | nil => cases h
  | cons first next ih =>
    rcases List.mem_cons.mp h with rfl | h
    · rfl
    · exact ih h

/-! ## One turn of the loop -/

def coap503ServiceUnavailable : Int := 0xA3

def maxFailures : Int := 10

/-- What a turn meets: `bootstrap_ready`, the results of `create_bootstrap_security_instance` and
`create_bootstrap_server_instance`, and the result and the context that `lwm2m_step` leaves. -/
structure Turn where
  bootstrapReady : UInt8
  securityInstance : Int
  serverInstance : Int
  result : Int
  lwm2mH : Context
deriving DecidableEq, Repr

/-- The context is closed, and a new one takes its place. -/
def Turn.rebuilds (t : Turn) : Bool :=
  t.bootstrapReady == Bootstrap.bootstrapReady && t.securityInstance != -1 && t.serverInstance != -1

def Turn.fails (t : Turn) : Bool := t.result == coap503ServiceUnavailable

/-- What a turn leaves, and whether it has been through the branch of the recovery. -/
structure Outcome where
  unavailableTimes : Int16
  recovers : Bool
  lwm2mH : Context
deriving DecidableEq, Repr

/-- What the loop does with the result of `lwm2m_step`. -/
def handleResult (unavailableTimes : Int16) (t : Turn) : Outcome :=
  if t.fails then
    -- the sum is an int, and the assignment wraps it
    let unavailableTimes := unavailableTimes + 1
    if unavailableTimes.toInt ≥ maxFailures then
      { unavailableTimes := unavailableTimes
        recovers := true
        lwm2mH := { t.lwm2mH with
          state := .initial
          bootstrapServerList := markDirty t.lwm2mH.bootstrapServerList } }
    else ⟨unavailableTimes, false, t.lwm2mH⟩
  else ⟨0, false, t.lwm2mH⟩

def turn (unavailableTimes : Int16) (t : Turn) : Outcome :=
  handleResult (if t.rebuilds then 0 else unavailableTimes) t

/-- The counter behind the turns of a run. -/
def timesAfter (turns : List Turn) : Int16 :=
  turns.foldl (fun unavailableTimes t => (turn unavailableTimes t).unavailableTimes) 0

/-- Behind `past`, the turn `t` takes the branch, and the context is what the branch is for. -/
def Recovers (past : List Turn) (t : Turn) : Prop :=
  let last := turn (timesAfter past) t
  last.recovers = true ∧ last.lwm2mH.state = .initial ∧
    ∀ s ∈ last.lwm2mH.bootstrapServerList, s.dirty = true

/-! ## The outage -/

/-- The last turns of a run whose results are all 5.03. -/
def outage (turns : List Turn) : List Turn := turns.rtakeWhile Turn.fails

def failures (turns : List Turn) : Nat := (outage turns).length

/-- The failures of the outage from the last one on that has a new context. -/
def failuresOfContext (turns : List Turn) : Nat :=
  (outage turns).foldl (fun n t => if t.rebuilds then 1 else n + 1) 0

theorem failures_concat (past : List Turn) (t : Turn) :
    failures (past ++ [t]) = if t.fails then failures past + 1 else 0 := by
  unfold failures outage
  rw [List.rtakeWhile_concat]
  split
  · rw [List.length_append]
    rfl
  · rfl

theorem failuresOfContext_concat (past : List Turn) (t : Turn) :
    failuresOfContext (past ++ [t]) =
      if t.fails then (if t.rebuilds then 1 else failuresOfContext past + 1) else 0 := by
  unfold failuresOfContext outage
  rw [List.rtakeWhile_concat]
  split
  · rw [List.foldl_append]
    rfl
  · rfl

theorem failuresOfContext_le (turns : List Turn) : failuresOfContext turns ≤ failures turns := by
  induction turns using List.reverseRecOn with
  | nil => exact Nat.le_refl 0
  | append_singleton past t ih =>
    rw [failuresOfContext_concat, failures_concat]
    split
    · split
      · omega
      · omega
    · omega

/-- With no new context in the outage both count the same. -/
theorem failuresOfContext_eq {turns : List Turn} (h : ∀ t ∈ outage turns, t.rebuilds = false) :
    failuresOfContext turns = failures turns := by
  induction turns using List.reverseRecOn with
  | nil => rfl
  | append_singleton past t ih =>
    unfold outage at h
    rw [List.rtakeWhile_concat] at h
    rw [failuresOfContext_concat, failures_concat]
    split
    · next hfails =>
      rw [if_pos hfails] at h
      have ht : t.rebuilds = false := h t (by simp)
      have hpast := ih fun x hx => h x (List.mem_append_left _ hx)
      simp [ht, hpast]
    · rfl

/-! ## The counter -/

section Result
variable (unavailableTimes : Int16) (t : Turn)

theorem handleResult_times : (handleResult unavailableTimes t).unavailableTimes =
    if t.fails then unavailableTimes + 1 else 0 := by
  unfold handleResult
  simp only
  split
  · split
    · rfl
    · rfl
  · rfl

theorem handleResult_recovers : (handleResult unavailableTimes t).recovers = true ↔
    maxFailures ≤ (handleResult unavailableTimes t).unavailableTimes.toInt := by
  unfold handleResult
  simp only
  split
  · split
    · next h => exact iff_of_true rfl h
    · next h => exact iff_of_false Bool.false_ne_true h
  · have hzero : ¬ maxFailures ≤ (0 : Int16).toInt := by decide
    exact iff_of_false Bool.false_ne_true hzero

/-- The branch of the recovery, and what every other turn leaves alone. -/
theorem handleResult_context :
    if (handleResult unavailableTimes t).recovers then
      (handleResult unavailableTimes t).lwm2mH.state = .initial ∧
        (∀ s ∈ (handleResult unavailableTimes t).lwm2mH.bootstrapServerList, s.dirty = true) ∧
        (handleResult unavailableTimes t).lwm2mH.serverList = t.lwm2mH.serverList
    else (handleResult unavailableTimes t).lwm2mH = t.lwm2mH := by
  unfold handleResult
  simp only
  split
  · split
    · exact ⟨rfl, fun s hs => dirty_of_mem_markDirty hs, rfl⟩
    · rfl
  · rfl

end Result

/-- One turn: the counter is the number of failures, as far as 16 bits hold it. -/
theorem turn_counts (n : Nat) (t : Turn) :
    (turn (Int16.ofNat n) t).unavailableTimes = Int16.ofNat
      (if t.fails then (if t.rebuilds then 1 else n + 1) else 0) := by
  unfold turn
  rw [handleResult_times]
  split
  · split
    · rfl
    · exact (Int16.ofNat_add n 1).symm
  · rfl

theorem timesAfter_eq (turns : List Turn) :
    timesAfter turns = Int16.ofNat (failuresOfContext turns) := by
  induction turns using List.reverseRecOn with
  | nil => rfl
  | append_singleton past t ih =>
    unfold timesAfter at ih ⊢
    rw [List.foldl_append, ih, failuresOfContext_concat]
    exact turn_counts (failuresOfContext past) t

/-- A `short` that was counted up `n` times, compared with the limit. -/
theorem maxFailures_le_toInt (n : Nat) :
    maxFailures ≤ (Int16.ofNat n).toInt ↔ 10 ≤ n % 65536 ∧ n % 65536 < 32768 := by
  rw [Int16.toInt_ofNat', Int.bmod_def]
  unfold maxFailures Int16.size
  split
  · omega
  · omega

theorem recovers_iff (past : List Turn) (t : Turn) :
    Recovers past t ↔ 10 ≤ failuresOfContext (past ++ [t]) % 65536 ∧
      failuresOfContext (past ++ [t]) % 65536 < 32768 := by
  have htimes : (turn (timesAfter past) t).unavailableTimes =
      Int16.ofNat (failuresOfContext (past ++ [t])) := by
    rw [timesAfter_eq, turn_counts, failuresOfContext_concat]
  have hbranch : (turn (timesAfter past) t).recovers = true ↔
      maxFailures ≤ (turn (timesAfter past) t).unavailableTimes.toInt :=
    handleResult_recovers _ t
  rw [← maxFailures_le_toInt, ← htimes, ← hbranch]
  constructor
  · intro h
    exact h.1
  · intro h
    have hcontext := handleResult_context (if t.rebuilds then 0 else timesAfter past) t
    unfold turn at h
    rw [if_pos h] at hcontext
    exact ⟨h, hcontext.1, hcontext.2.1⟩

/-- The `n`-th failure of an outage takes the branch when it should while `n` is below the limit,
and from then on when 16 bits of the count read as at least the limit. -/
theorem recovery_iff (past : List Turn) (t : Turn) :
    (Recovers past t ↔ maxFailures ≤ failures (past ++ [t])) ↔
      failures (past ++ [t]) < 10 ∨
        (10 ≤ failuresOfContext (past ++ [t]) % 65536 ∧
          failuresOfContext (past ++ [t]) % 65536 < 32768) := by
  have hle := failuresOfContext_le (past ++ [t])
  rw [recovers_iff]
  unfold maxFailures
  omega

section Outages
variable {past : List Turn} {t : Turn}

/-- The same of an outage with one context: all is well up to 32767 failures. -/
theorem recovery_iff_one_context (h : ∀ x ∈ outage (past ++ [t]), x.rebuilds = false) :
    (Recovers past t ↔ maxFailures ≤ failures (past ++ [t])) ↔
      failures (past ++ [t]) < 32768 ∨
        (10 ≤ failures (past ++ [t]) % 65536 ∧ failures (past ++ [t]) % 65536 < 32768) := by
  rw [recovers_iff, failuresOfContext_eq h]
  unfold maxFailures
  omega

/-- From 32768 failures on there is none for the next 32778. -/
theorem no_recovery (h : ∀ x ∈ outage (past ++ [t]), x.rebuilds = false)
    (hlow : 32768 ≤ failures (past ++ [t])) (hhigh : failures (past ++ [t]) < 65546) :
    ¬ Recovers past t := by
  rw [recovers_iff, failuresOfContext_eq h]
  omega

end Outages

def registered : Turn := ⟨0, 0, 0, 0, ⟨.ready, [⟨0, 0, false⟩], [⟨1, 1, false⟩]⟩⟩

def unreachable : Turn := ⟨0, 0, 0, 0xA3, ⟨.registerRequired, [⟨0, 0, false⟩], [⟨1, 1, false⟩]⟩⟩

theorem outage_replicate (n : Nat) :
    outage (registered :: List.replicate n unreachable) = List.replicate n unreachable := by
  induction n with
  | zero => rfl
  | succ n ih =>
    rw [List.replicate_succ', ← List.cons_append]
    unfold outage at ih ⊢
    rw [List.rtakeWhile_concat, ih]
    rfl

/-- A client that was registered, and 32768 failures. -/
theorem recovery_stops :
    failures (registered :: List.replicate 32767 unreachable ++ [unreachable]) = 32768 ∧
      ¬ Recovers (registered :: List.replicate 32767 unreachable) unreachable := by
  have happend : registered :: List.replicate 32767 unreachable ++ [unreachable] =
      registered :: List.replicate 32768 unreachable := by
    rw [List.replicate_succ' (n := 32767), List.cons_append]
  have hcount : failures (registered :: List.replicate 32767 unreachable ++ [unreachable]) =
      32768 := by
    unfold failures
    rw [happend, outage_replicate, List.length_replicate]
  refine ⟨hcount, ?_⟩
  have hone : ∀ x ∈ outage (registered :: List.replicate 32767 unreachable ++ [unreachable]),
      x.rebuilds = false := by
    intro x hx
    rw [happend, outage_replicate] at hx
    rw [List.eq_of_mem_replicate hx]
    rfl
  apply no_recovery hone
  · rw [hcount]
  · rw [hcount]
    decide

end JsEmbeddedPlatform.RecoveryCounter
