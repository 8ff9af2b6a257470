import Mathlib.Data.Nat.Bitwise
import Mathlib.Algebra.Order.Ring.Nat

/-!
# The level of a pin

`gpio.get` hands what the platform answers to a script as a boolean. The answer has eight bits;
the Raspberry Pi port makes it of a bit of a 32-bit register, left where it is in the register.
-/

set_option autoImplicit false

namespace JsEmbeddedPlatform.GpioInput

/-- `gpio_get`, with the `module_gpio_platform_get` of a port. -/
def gpioGet (moduleGpioPlatformGet : UInt32 → UInt32 → UInt8) (port pin : UInt32) : Bool :=
  let ret := moduleGpioPlatformGet port pin
  ret != 0

/-! ## Raspberry Pi -/

def pinlevelOffset : Int32 := 13

/-- `gpioMap` is the mapped block, in words. -/
def inputGpio (gpioMap : Int → UInt32) (gpio : Int32) : Int32 :=
  let offset := pinlevelOffset + gpio / 32
  let mask : Int32 := 1 <<< (gpio % 32)
  let value := (gpioMap offset.toInt &&& mask.toUInt32).toInt32
  value

/-- The port is not used. -/
def moduleGpioPlatformGet (gpioMap : Int → UInt32) (_port pin : UInt32) : UInt8 :=
  (inputGpio gpioMap pin.toInt32).toUInt32.toUInt8

/-- The pins of `module_gpio_platform_const_list`; its other entries are modes. -/
def moduleGpioPlatformPins : List (String × UInt32) :=
  [("PIN2", 2), ("PIN3", 3), ("PIN4", 4), ("PIN5", 5), ("PIN6", 6), ("PIN7", 7), ("PIN8", 8),
    ("PIN9", 9), ("PIN10", 10), ("PIN11", 11), ("PIN12", 12), ("PIN13", 13), ("PIN16", 16),
    ("PIN17", 17), ("PIN18", 18), ("PIN19", 19), ("PIN20", 20), ("PIN21", 21), ("PIN22", 22),
    ("PIN23", 23), ("PIN24", 24), ("PIN25", 25), ("PIN26", 26), ("PIN27", 27), ("PIN35", 35),
    ("PIN47", 47)]

def Offered (pin : UInt32) : Prop := pin ∈ moduleGpioPlatformPins.map Prod.snd

instance (pin : UInt32) : Decidable (Offered pin) := inferInstanceAs (Decidable (_ ∈ _))

/-- The level bit of a pin: pins 0 to 31 have the register at word 13, the next ones that at
word 14. -/
def levelBit (gpioMap : Int → UInt32) (pin : Nat) : Bool :=
  (gpioMap (13 + (pin / 32 : Nat))).toNat.testBit (pin % 32)

/-! ## The bit in the word -/

theorem mask_toNat : ∀ k < 32, ((1 : Int32) <<< Int32.ofNat k).toUInt32.toNat = 2 ^ k := by
  decide

/-- `/` and `%` of an `int` that is not negative are those of the number. -/
theorem toInt32_toInt {pin : UInt32} (h : pin.toNat < 2 ^ 31) : pin.toInt32.toInt = pin.toNat := by
  have hbits : 2 * pin.toBitVec.toNat < 2 ^ 32 := by
    change 2 * pin.toNat < 2 ^ 32
    omega
  exact BitVec.toInt_eq_toNat_of_lt hbits

theorem position_eq {pin : UInt32} (h : pin.toNat < 2 ^ 31) :
    pin.toInt32 % 32 = Int32.ofNat (pin.toNat % 32) := by
  have hsmall : pin.toNat % 32 < 2 ^ 31 := by omega
  have h32 : (32 : Int32).toInt = 32 := by decide
  apply Int32.toInt_inj.mp
  rw [Int32.toInt_mod, toInt32_toInt h, Int32.toInt_ofNat_of_lt hsmall, h32,
    Int.tmod_eq_emod_of_nonneg (Int.natCast_nonneg _)]
  rfl

theorem offset_eq {pin : UInt32} (h : pin.toNat < 2 ^ 31) :
    (pinlevelOffset + pin.toInt32 / 32).toInt = 13 + (pin.toNat / 32 : Nat) := by
  have h32 : (32 : Int32).toInt = 32 := by decide
  have h13 : pinlevelOffset.toInt = 13 := by decide
  have hdiv : (pin.toInt32 / 32).toInt = (pin.toNat / 32 : Nat) := by
    rw [Int32.toInt_div_of_ne_right _ _ (by decide), toInt32_toInt h, h32,
      Int.tdiv_eq_ediv_of_nonneg (Int.natCast_nonneg _)]
    rfl
  rw [Int32.toInt_add, h13, hdiv]
  apply Int.bmod_eq_of_le
  · omega
  · omega

theorem inputGpio_toNat (gpioMap : Int → UInt32) {pin : UInt32} (h : pin.toNat < 2 ^ 31) :
    (inputGpio gpioMap pin.toInt32).toUInt32.toNat =
      (levelBit gpioMap pin.toNat).toNat * 2 ^ (pin.toNat % 32) := by
  unfold inputGpio
  simp only
  rw [UInt32.toUInt32_toInt32, UInt32.toNat_and, offset_eq h, position_eq h,
    mask_toNat _ (Nat.mod_lt _ (by decide)), Nat.and_two_pow]
  rfl

/-- Eight bits of a power of two are not zero when it is below 256. -/
theorem two_pow_mod_256 (k : Nat) : 2 ^ k % 256 ≠ 0 ↔ k < 8 := by
  constructor
  · intro h
    by_contra hk
    have hdvd : 2 ^ 8 ∣ 2 ^ k := Nat.pow_dvd_pow 2 (by omega)
    exact h (Nat.mod_eq_zero_of_dvd hdvd)
  · intro hk
    have hlt : 2 ^ k < 2 ^ 8 := Nat.pow_lt_pow_right (by decide) hk
    have heq : 2 ^ k % 256 = 2 ^ k := Nat.mod_eq_of_lt hlt
    have hpos := Nat.two_pow_pos k
    omega

/-- What a script sees: the level bit, if it is one of the low eight of its register. -/
theorem gpioGet_eq (gpioMap : Int → UInt32) (port : UInt32) {pin : UInt32}
    (h : pin.toNat < 2 ^ 31) :
    gpioGet (moduleGpioPlatformGet gpioMap) port pin = true ↔
      levelBit gpioMap pin.toNat = true ∧ pin.toNat % 32 < 8 := by
  have hvalue : (moduleGpioPlatformGet gpioMap port pin).toNat =
      (levelBit gpioMap pin.toNat).toNat * 2 ^ (pin.toNat % 32) % 256 := by
    unfold moduleGpioPlatformGet
    rw [UInt32.toNat_toUInt8, inputGpio_toNat gpioMap h]
  have hget : gpioGet (moduleGpioPlatformGet gpioMap) port pin = true ↔
      (moduleGpioPlatformGet gpioMap port pin).toNat ≠ 0 := by
    unfold gpioGet
    simp only [bne_iff_ne, ne_eq, ← UInt8.toNat_inj]
    rfl
  rw [hget, hvalue]
  cases levelBit gpioMap pin.toNat with
  | false => simp
  | true =>
    rw [Bool.toNat_true, Nat.one_mul, two_pow_mod_256]
    simp

theorem offered_lt {pin : UInt32} (h : Offered pin) : pin.toNat < 48 := by
  have hall : (moduleGpioPlatformPins.map Prod.snd).all (fun p => decide (p.toNat < 48)) = true :=
    rfl
  exact of_decide_eq_true (List.all_eq_true.mp hall pin h)

/-- A low level is always reported, a high one on the pins of the low eight bits. -/
theorem level_reported_iff (gpioMap : Int → UInt32) (port : UInt32) {pin : UInt32}
    (h : Offered pin) :
    (gpioGet (moduleGpioPlatformGet gpioMap) port pin = true ↔
      levelBit gpioMap pin.toNat = true) ↔
    levelBit gpioMap pin.toNat = false ∨ pin.toNat % 32 < 8 := by
  have hlt := offered_lt h
  rw [gpioGet_eq gpioMap port (by omega)]
  cases levelBit gpioMap pin.toNat with
  | false => simp
  | true => simp

theorem level_reported_iff_pins : Offered 7 ∧ Offered 8 ∧
    (gpioGet (moduleGpioPlatformGet fun _ => 0x180) 0 7 = true ↔
      levelBit (fun _ => 0x180) 7 = true) ∧
    ¬ (gpioGet (moduleGpioPlatformGet fun _ => 0x180) 0 8 = true ↔
      levelBit (fun _ => 0x180) 8 = true) := by
  have h7 : Offered 7 := by decide
  have h8 : Offered 8 := by decide
  refine ⟨h7, h8, ?_, ?_⟩
  · exact (level_reported_iff (fun _ => 0x180) 0 h7).mpr (by decide)
  · intro h
    exact absurd ((level_reported_iff (fun _ => 0x180) 0 h8).mp h) (by decide)

/-- Pin 8 is high. -/
theorem pin_8_not_reported : Offered 8 ∧ levelBit (fun _ => 0x100) 8 = true ∧
    gpioGet (moduleGpioPlatformGet fun _ => 0x100) 0 8 = false := by
  decide

/-- The pins whose level is reported whatever the registers hold. -/
theorem reported_pins {pin : UInt32} (h : Offered pin) (port : UInt32) :
    (∀ gpioMap, gpioGet (moduleGpioPlatformGet gpioMap) port pin = true ↔
      levelBit gpioMap pin.toNat = true) ↔ pin ∈ [2, 3, 4, 5, 6, 7, 35] := by
  have hpins : (moduleGpioPlatformPins.map Prod.snd).filter
      (fun p => decide (p.toNat % 32 < 8)) = [2, 3, 4, 5, 6, 7, 35] := rfl
  have hlow : pin ∈ [2, 3, 4, 5, 6, 7, 35] ↔ pin.toNat % 32 < 8 := by
    rw [← hpins, List.mem_filter, decide_eq_true_eq]
    exact and_iff_right h
  have hlt := offered_lt h
  rw [hlow]
  constructor
  · intro hall
    have hset : levelBit (fun _ => 0xFFFFFFFF) pin.toNat = true := by
      have hbit : ∀ k < 32, (0xFFFFFFFF : UInt32).toNat.testBit k = true := by decide
      exact hbit _ (Nat.mod_lt _ (by decide))
    exact ((gpioGet_eq (fun _ => 0xFFFFFFFF) port (by omega)).mp ((hall _).mpr hset)).2
  · intro hlow gpioMap
    rw [gpioGet_eq gpioMap port (by omega)]
    exact and_iff_left hlow

/-! ## stm32 -/

namespace Stm32

/-- `HAL_GPIO_ReadPin`; `idr` is the input register of the port. -/
def halGpioReadPin (idr : UInt32) (gpioPin : UInt16) : UInt8 :=
  if idr &&& gpioPin.toUInt32 ≠ 0 then 1 else 0

/-- A port is the address of its registers, and a pin is a mask. -/
def moduleGpioPlatformGet (idr : UInt32 → UInt32) (port pin : UInt32) : UInt8 :=
  halGpioReadPin (idr port) pin.toUInt16

theorem pin_toNat : ∀ k < 16, (UInt32.ofNat (2 ^ k)).toUInt16.toUInt32.toNat = 2 ^ k := by
  decide

/-- The answer is 0 or 1, and the level of every pin is reported. -/
theorem level_reported (idr : UInt32 → UInt32) (port : UInt32) {k : Nat} (hk : k < 16) :
    gpioGet (moduleGpioPlatformGet idr) port (UInt32.ofNat (2 ^ k)) = true ↔
      (idr port).toNat.testBit k = true := by
  have hbit : (idr port &&& (UInt32.ofNat (2 ^ k)).toUInt16.toUInt32).toNat =
      ((idr port).toNat.testBit k).toNat * 2 ^ k := by
    rw [UInt32.toNat_and, pin_toNat k hk, Nat.and_two_pow]
  have hanswer : gpioGet (moduleGpioPlatformGet idr) port (UInt32.ofNat (2 ^ k)) = true ↔
      (idr port &&& (UInt32.ofNat (2 ^ k)).toUInt16.toUInt32).toNat ≠ 0 := by
    unfold gpioGet moduleGpioPlatformGet halGpioReadPin
    simp only [ne_eq, ← UInt32.toNat_inj]
    split
    · next h => simpa using h
    · next h => simpa using h
  have hpos := Nat.two_pow_pos k
  rw [hanswer, hbit]
  cases (idr port).toNat.testBit k with
  | false => simp
  | true => simp

end Stm32

end JsEmbeddedPlatform.GpioInput
