import JsEmbeddedPlatform.TimerWiring

/-!
# The period of an stm32 timer

The delay of `setTimeout` and `setInterval` is a 32-bit unsigned number of milliseconds. It becomes
a 64-bit number, a `long` of 32 bits and a `TickType_t`, and `pdMS_TO_TICKS` multiplies before it
divides.
-/

set_option autoImplicit false

namespace JsEmbeddedPlatform.Timers

/-! ## From milliseconds to ticks -/

/-- `(TickType_t)` of a signed number. -/
def castTickType (x : Int) : UInt32 := UInt32.ofBitVec (BitVec.ofInt 32 x)

def configTickRateHz : UInt32 := 1000

def pdMsToTicks (xTimeInMs : Int) : UInt32 := castTickType xTimeInMs * configTickRateHz / 1000

/-- What the native functions and `eventloop_platform_timer_start` make of the number that
`duk_require_uint` returns. -/
def timerPeriod (ms : UInt32) : UInt32 := pdMsToTicks (castLong .stm32 ms.toUInt64.toNat)

/-! ## The kernel -/

/-- `Timer_t`, without its name, its id and its function. -/
structure TimerControl where
  xTimerPeriodInTicks : UInt32
  uxAutoReload : Bool
deriving DecidableEq, Repr

/-- A failed `configASSERT` disables the interrupts and never returns. -/
inductive KernelCall (α : Type) where
  | returns (value : α)
  | halted
deriving DecidableEq, Repr

def prvInitialiseNewTimer (xTimerPeriodInTicks : UInt32) (uxAutoReload : Bool) :
    KernelCall TimerControl :=
  if xTimerPeriodInTicks > 0 then .returns ⟨xTimerPeriodInTicks, uxAutoReload⟩ else .halted

/-- `allocated` tells whether `pvPortMalloc` has a block for the timer. -/
def xTimerCreate (allocated : Bool) (xTimerPeriodInTicks : UInt32) (uxAutoReload : Bool) :
    KernelCall (Option TimerControl) :=
  if allocated then
    match prvInitialiseNewTimer xTimerPeriodInTicks uxAutoReload with
    | .returns timer => .returns (some timer)
    | .halted => .halted
  else .returns none

/-! ## Multiply, then divide -/

section Scale
variable {x rate size : Nat}

theorem scaled_le (hrate : 0 < rate) : x * rate % size / rate ≤ x := by
  have hle : x * rate % size ≤ x * rate := Nat.mod_le _ _
  calc x * rate % size / rate ≤ x * rate / rate := Nat.div_le_div_right hle
    _ = x := Nat.mul_div_cancel x hrate

/-- The division undoes the multiplication where that has not wrapped, and nowhere else. -/
theorem scaled_eq_iff (hrate : 0 < rate) (hsize : 0 < size) :
    x * rate % size / rate = x ↔ x * rate < size := by
  constructor
  · intro heq
    have hback : x * rate % size / rate * rate ≤ x * rate % size := Nat.div_mul_le_self _ _
    rw [heq] at hback
    exact lt_of_le_of_lt hback (Nat.mod_lt _ hsize)
  · intro hlt
    rw [Nat.mod_eq_of_lt hlt]
    exact Nat.mul_div_cancel x hrate

end Scale

/-! ## The casts -/

/-- A delay from 2 ^ 31 on is a negative `long`, and the same bits again as a `TickType_t`. -/
theorem castTickType_castLong_toNat (n : Nat) :
    (castTickType (castLong .stm32 n)).toNat = n % 2 ^ 32 := by
  have hbits : (castTickType (castLong .stm32 n)).toNat =
      (castLong .stm32 n % (2 ^ 32 : Nat)).toNat := BitVec.toNat_ofInt _
  rw [hbits]
  simp only [castLong]
  split <;> omega

theorem timerPeriod_toNat (ms : UInt32) :
    (timerPeriod ms).toNat = ms.toNat * 1000 % 2 ^ 32 / 1000 := by
  have hms : ms.toNat < 2 ^ 32 := ms.toNat_lt
  have hcast := castTickType_castLong_toNat ms.toUInt64.toNat
  rw [UInt32.toNat_toUInt64, Nat.mod_eq_of_lt hms] at hcast
  unfold timerPeriod pdMsToTicks
  rw [UInt32.toNat_div, UInt32.toNat_mul, UInt32.toNat_toUInt64, hcast]
  rfl

/-! ## Which delays survive -/

/-- The delay in ticks, at least one. -/
def delayInTicks (ms : UInt32) : Nat := max 1 (ms.toNat * configTickRateHz.toNat / 1000)

theorem delayInTicks_eq (ms : UInt32) : delayInTicks ms = max 1 ms.toNat :=
  congrArg (max 1) (Nat.mul_div_cancel ms.toNat (by decide))

/-- The period is positive, and it is the delay. -/
def Survives (ms : UInt32) : Prop :=
  0 < timerPeriod ms ∧ (timerPeriod ms).toNat = delayInTicks ms

instance (ms : UInt32) : Decidable (Survives ms) := inferInstanceAs (Decidable (_ ∧ _))

theorem timerPeriod_pos_iff (ms : UInt32) :
    0 < timerPeriod ms ↔ 1000 ≤ ms.toNat * 1000 % 2 ^ 32 := by
  rw [UInt32.lt_iff_toNat_lt, timerPeriod_toNat]
  exact Nat.div_pos_iff.trans (by simp)

/-- The device halts in `xTimerCreate` for 0 and where the product wraps to less than a tick. -/
theorem halts_iff (ms : UInt32) (repeats : Bool) :
    xTimerCreate true (timerPeriod ms) repeats = .halted ↔ ms.toNat * 1000 % 2 ^ 32 < 1000 := by
  have hpos := timerPeriod_pos_iff ms
  unfold xTimerCreate prvInitialiseNewTimer
  by_cases h : 0 < timerPeriod ms
  · have hticks := hpos.mp h
    simp only [if_true, gt_iff_lt, h]
    refine ⟨nofun, ?_⟩
    intro hlt
    omega
  · have hticks : ¬ 1000 ≤ ms.toNat * 1000 % 2 ^ 32 := fun hle => h (hpos.mpr hle)
    simp only [if_true, gt_iff_lt, h, if_false, true_iff]
    omega

/-- A timer is never late, and beyond the 71 minutes whose product fits it is early. -/
theorem timerPeriod_le (ms : UInt32) : (timerPeriod ms).toNat ≤ ms.toNat := by
  rw [timerPeriod_toNat]
  exact scaled_le (by omega)

theorem fires_early (ms : UInt32) (h : 4294967 < ms.toNat) : (timerPeriod ms).toNat < ms.toNat := by
  have hne : (timerPeriod ms).toNat ≠ ms.toNat := by
    rw [timerPeriod_toNat]
    intro heq
    have hlt := (scaled_eq_iff (by omega) (by omega)).mp heq
    omega
  exact lt_of_le_of_ne (timerPeriod_le ms) hne

/-- From one millisecond to the last delay whose product fits 32 bits. -/
theorem delay_survives_iff (ms : UInt32) :
    Survives ms ↔ 1 ≤ ms.toNat ∧ ms.toNat ≤ 4294967 := by
  unfold Survives
  rw [delayInTicks_eq]
  constructor
  · rintro ⟨hpos, heq⟩
    have hzero : 1 ≤ ms.toNat := by
      have hticks : 0 < (timerPeriod ms).toNat := UInt32.lt_iff_toNat_lt.mp hpos
      exact le_trans hticks (timerPeriod_le ms)
    refine ⟨hzero, ?_⟩
    by_contra hlarge
    have hearly := fires_early ms (by omega)
    omega
  · rintro ⟨hlow, hhigh⟩
    have hticks : (timerPeriod ms).toNat = ms.toNat := by
      rw [timerPeriod_toNat]
      exact (scaled_eq_iff (by omega) (by omega)).mpr (by omega)
    refine ⟨UInt32.lt_iff_toNat_lt.mpr ?_, ?_⟩
    · rw [hticks]
      exact hlow
    · rw [hticks]
      omega

/-- A delay of 0, the first delay whose product wraps, and 72 minutes that are 5 seconds. -/
theorem delays_lost :
    ¬ Survives 0 ∧ xTimerCreate true (timerPeriod 0) false = .halted ∧
    ¬ Survives 4294968 ∧ xTimerCreate true (timerPeriod 4294968) true = .halted ∧
    ¬ Survives 4300000 ∧
      xTimerCreate true (timerPeriod 4300000) true = .returns (some ⟨5032, true⟩) := by
  decide +kernel

/-! ## The timers of the registry -/

section Native
variable {Fn : Type} {r : Registry Fn} {call : SetCall Fn}

/-- A call that is granted its callback record and its timer leaves a timer with this period. -/
theorem native_period (h : Linked r) (grant : call.Grantable r) {ms : UInt32} {fn : Fn}
    {p timer : Nat} (ht : call.timeout = some ms.toNat) (hf : call.fn = some fn)
    (hb : call.block = some p) (hcreated : call.outcome.timer = some timer) (repeats : Bool) :
    ∃ res r' pt, eventloopNativeSet repeats .stm32 call r = .ok (res, r') ∧
      r'.platformTimers.get? timer = some pt ∧ pt.repeats = repeats ∧
      pdMsToTicks pt.timeout = timerPeriod ms := by
  have hgranted : call.outcome.granted .stm32 = some timer := hcreated
  obtain ⟨res, r', pt, hset, hpt, hrepeats, htimeout⟩ :=
    native_timer h grant ht hf hb hgranted repeats
  refine ⟨res, r', pt, hset, hpt, hrepeats, ?_⟩
  rw [htimeout, timerPeriod, UInt32.toNat_toUInt64]

end Native

end JsEmbeddedPlatform.Timers
