import JsEmbeddedPlatform.ObjectDevice
import JsEmbeddedPlatform.Shared.Runs

/-!
# The clock and the offset of the Device object

The current time is kept as a difference to the time of the system, the offset to UTC as a text
that is tested before it is stored. What a Read returns of both is compared with the writes that
have been accepted.
-/

set_option autoImplicit false

namespace JsEmbeddedPlatform.ObjectDevice

open Lwm2mData
open ObjectFirmware (coap204Changed coap400BadRequest coap404NotFound coap405MethodNotAllowed
  strncpy strncpy_eq_self)

/-! ## The other callbacks of the object -/

structure Device where
  freeMemory : Int
  error : Int
  batteryLevel : UInt8
  data : DeviceData
deriving DecidableEq, Repr

def prvManufacturer : List UInt8 := CString.ascii "Open Mobile Alliance"
def prvModelNumber : List UInt8 := CString.ascii "Lightweight M2M Client"
def prvSerialNumber : List UInt8 := CString.ascii "345000123"
def prvFirmwareVersion : List UInt8 := CString.ascii "1.0"
def prvTimeZone : List UInt8 := CString.ascii "Europe/Berlin"
def prvBindingMode : List UInt8 := CString.ascii "U"

/-- `now` is what `time` returns. The data of the three nested resources is left out. -/
def prvSetValue (allocated : Bool) (now : Int) (id : Nat) (d : Device) : UInt8 × Value :=
  match id with
  | 0 => (coap205Content, lwm2mDataEncodeString allocated (prvManufacturer ++ [0]))
  | 1 => (coap205Content, lwm2mDataEncodeString allocated (prvModelNumber ++ [0]))
  | 2 => (coap205Content, lwm2mDataEncodeString allocated (prvSerialNumber ++ [0]))
  | 3 => (coap205Content, lwm2mDataEncodeString allocated (prvFirmwareVersion ++ [0]))
  | 4 | 5 => (coap405MethodNotAllowed, .undefined)
  | 6 | 7 | 8 => (coap205Content, .multipleResource)
  | 9 => (coap205Content, lwm2mDataEncodeInt d.batteryLevel.toNat)
  | 10 => (coap205Content, lwm2mDataEncodeInt d.freeMemory)
  | 11 => (coap205Content, .multipleResource)
  | 12 => (coap405MethodNotAllowed, .undefined)
  | 13 => (coap205Content, lwm2mDataEncodeInt ((now + d.data.time).bmod (2 ^ 64)))
  | 14 => (coap205Content, lwm2mDataEncodeString allocated d.data.timeOffset.bytes)
  | 15 => (coap205Content, lwm2mDataEncodeString allocated (prvTimeZone ++ [0]))
  | 16 => (coap205Content, lwm2mDataEncodeString allocated (prvBindingMode ++ [0]))
  | _ => (coap404NotFound, .undefined)

/-- The resources that are returned when the whole object is asked for. -/
def resList : List Nat := [0, 1, 2, 3, 6, 7, 8, 9, 10, 11, 13, 14, 15, 16]

/-- The loop over the resources, until one has none to return. -/
def readEach (allocated : Bool) (now : Int) (d : Device) : List Nat → UInt8 × List Value
  | [] => (coap205Content, [])
  | id :: rest =>
    let (result, value) := prvSetValue allocated now id d
    if result = coap205Content then
      let (last, values) := readEach allocated now d rest
      (last, value :: values)
    else (result, [value])

def prvDeviceRead (allocated : Bool) (now : Int) (instanceId : Nat) (ids : List Nat) (d : Device) :
    UInt8 × List Value :=
  if instanceId ≠ 0 then (coap404NotFound, [])
  else readEach allocated now d (if ids = [] then resList else ids)

/-- A reboot starts the event loop again and leaves the object alone. -/
def prvDeviceExecute (instanceId resourceId length : Nat) (d : Device) : UInt8 × Device :=
  if instanceId ≠ 0 then (coap404NotFound, d)
  else if length ≠ 0 then (coap400BadRequest, d)
  else match resourceId with
    | 4 | 5 => (coap204Changed, d)
    | 12 => (coap204Changed, { d with error := 0 })
    | _ => (coap405MethodNotAllowed, d)

/-! ## Requests -/

/-- A Write has one resource. -/
inductive Request where
  | write (instanceId : Nat) (element : Element)
  | execute (instanceId resourceId length : Nat)
deriving DecidableEq, Repr

/-- Each request comes with what `time` returns at that moment, and is answered with a code. -/
def step (d : Device) (r : Request × Int) : Option (Device × UInt8) :=
  match r.1 with
  | .write instanceId element =>
    match prvDeviceWrite instanceId [(element, r.2)] d.data with
    | .error _ => none
    | .ok (code, data) => some ({ d with data := data }, code)
  | .execute instanceId resourceId length =>
    let (code, d) := prvDeviceExecute instanceId resourceId length d
    some (d, code)

/-- The offset is given as a string or as opaque bytes. -/
def Typed : Request → Prop
  | .write _ element => element.id = resOUtcOffset → element.value.isBytes = true
  | _ => True

instance (r : Request) : Decidable (Typed r) :=
  match r with
  | .write _ element =>
    inferInstanceAs (Decidable (element.id = resOUtcOffset → element.value.isBytes = true))
  | .execute _ _ _ => isTrue trivial

/-! ## What has been accepted -/

/-- The offset of an accepted write. -/
def newOffset : (Request × Int) × UInt8 → Option (List UInt8)
  | ((.write _ element, _), code) =>
    if code = coap204Changed ∧ element.id = resOUtcOffset then element.value.asBuffer else none
  | _ => none

/-- The time of an accepted write, and when that was. -/
def newTime : (Request × Int) × UInt8 → Option (Int × Int)
  | ((.write _ element, now), code) =>
    if code = coap204Changed ∧ element.id = resOCurrentTime then
      (number element.value).map fun t => (t, now)
    else none
  | _ => none

/-- The last accepted offset, and before any is accepted the one that the object is made with. -/
def lastOffset (requests : List (Request × Int)) (codes : List UInt8) : List UInt8 :=
  ((requests.zip codes).filterMap newOffset).getLast?.getD (CString.ascii "+01:00")

def lastTime (requests : List (Request × Int)) (codes : List UInt8) : Option (Int × Int) :=
  ((requests.zip codes).filterMap newTime).getLast?

def twoDigits (n : Nat) : List UInt8 := [UInt8.ofNat (48 + n / 10), UInt8.ofNat (48 + n % 10)]

/-- A sign, the hours, and the minutes with or without a colon or left out. -/
inductive OffsetForm : List UInt8 → Prop
  | hours {sign : UInt8} {h : Nat} (hsign : sign = 43 ∨ sign = 45) (hh : h ≤ 12) :
      OffsetForm (sign :: twoDigits h)
  | basic {sign : UInt8} {h m : Nat} (hsign : sign = 43 ∨ sign = 45) (hh : h ≤ 12) (hm : m ≤ 59) :
      OffsetForm (sign :: (twoDigits h ++ twoDigits m))
  | extended {sign : UInt8} {h m : Nat} (hsign : sign = 43 ∨ sign = 45) (hh : h ≤ 12)
      (hm : m ≤ 59) : OffsetForm (sign :: (twoDigits h ++ 58 :: twoDigits m))

/-- The object after requests and their answers. -/
structure Faithful (requests : List (Request × Int)) (codes : List UInt8) (d : Device) : Prop where
  size : d.data.timeOffset.bytes.length = 7
  terminated : 0 ∈ d.data.timeOffset.bytes
  form : OffsetForm (CString.text d.data.timeOffset.bytes)
  offset : ∀ now, prvDeviceRead true now 0 [resOUtcOffset] d =
    (coap205Content, [.string (lastOffset requests codes)])
  time : ∀ t since, lastTime requests codes = some (t, since) → ∀ elapsed,
    prvDeviceRead true (since + elapsed) 0 [resOCurrentTime] d =
      (coap205Content, [.integer ((t + elapsed).bmod (2 ^ 64))])
  rejected : ∀ instanceId element now code after,
    step d (.write instanceId element, now) = some (after, code) → code ≠ coap204Changed → after = d

/-! ## The test of an offset -/

theorem twoDigits_eq {a b : UInt8} {n : Nat} (ha : a.toNat = 48 + n / 10)
    (hb : b.toNat = 48 + n % 10) : twoDigits n = [a, b] := by
  unfold twoDigits
  rw [← ha, ← hb, UInt8.ofNat_toNat, UInt8.ofNat_toNat]

theorem hours_of_checked {buffer : List UInt8} (h : checkHours buffer = true) :
    ∃ hours ≤ 12, twoDigits hours = [byteAt buffer 1, byteAt buffer 2] := by
  unfold checkHours at h
  split at h
  · next htens =>
    rw [decide_eq_true_eq, UInt8.le_iff_toNat_le, UInt8.le_iff_toNat_le] at h
    have hlow : 48 ≤ (byteAt buffer 2).toNat := h.1
    have hhigh : (byteAt buffer 2).toNat ≤ 57 := h.2
    refine ⟨(byteAt buffer 2).toNat - 48, by omega, twoDigits_eq ?_ (by omega)⟩
    rw [htens]
    have : (48 : UInt8).toNat = 48 := rfl
    omega
  · split at h
    · next htens =>
      rw [decide_eq_true_eq, UInt8.le_iff_toNat_le, UInt8.le_iff_toNat_le] at h
      have hlow : 48 ≤ (byteAt buffer 2).toNat := h.1
      have hhigh : (byteAt buffer 2).toNat ≤ 50 := h.2
      refine ⟨10 + ((byteAt buffer 2).toNat - 48), by omega, twoDigits_eq ?_ (by omega)⟩
      rw [htens]
      have : (49 : UInt8).toNat = 49 := rfl
      omega
    · cases h

theorem minutes_of_checked {buffer : List UInt8} {minIndex : Nat}
    (h : checkMinutes buffer minIndex = true) :
    ∃ minutes ≤ 59, twoDigits minutes = [byteAt buffer minIndex, byteAt buffer (minIndex + 1)] := by
  unfold checkMinutes at h
  simp only [decide_eq_true_eq, UInt8.le_iff_toNat_le] at h
  obtain ⟨hlow, hhigh, hlow', hhigh'⟩ := h
  have h48 : (48 : UInt8).toNat = 48 := rfl
  have h53 : (53 : UInt8).toNat = 53 := rfl
  have h57 : (57 : UInt8).toNat = 57 := rfl
  rw [h48] at hlow hlow'
  rw [h53] at hhigh
  rw [h57] at hhigh'
  refine ⟨10 * ((byteAt buffer minIndex).toNat - 48) + ((byteAt buffer (minIndex + 1)).toNat - 48),
    by omega, twoDigits_eq (by omega) (by omega)⟩

/-- What passes has the form, in one of the three lengths. -/
theorem form_of_checked {buffer : List UInt8} (h : prvCheckTimeOffset buffer = true) :
    OffsetForm buffer := by
  unfold prvCheckTimeOffset at h
  split at h
  · cases h
  next hlength =>
  split at h
  · cases h
  next hsign =>
  split at h
  · cases h
  next hhours =>
  rw [Bool.not_eq_false] at hhours
  obtain ⟨hours, hle, hdigits⟩ := hours_of_checked hhours
  have hsign : byteAt buffer 0 = 43 ∨ byteAt buffer 0 = 45 := by
    by_contra hno
    rw [not_or] at hno
    exact hsign ⟨hno.2, hno.1⟩
  split at h
  · next hthree =>
    obtain ⟨sign, a, b, rfl⟩ := List.length_eq_three.mp hthree
    have hform := OffsetForm.hours hsign hle
    rwa [hdigits] at hform
  · next hthree =>
    split at h
    · next hfive =>
      obtain ⟨minutes, hm, hmdigits⟩ := minutes_of_checked h
      have hform := OffsetForm.basic hsign hle hm
      rw [hdigits, hmdigits] at hform
      match buffer, hfive with
      | [_, _, _, _, _], _ => exact hform
    · next hfive =>
      have hsix : buffer.length = 6 := by omega
      split at h
      · cases h
      · next hcolon =>
        rw [ne_eq, not_not] at hcolon
        obtain ⟨minutes, hm, hmdigits⟩ := minutes_of_checked h
        have hform := OffsetForm.extended hsign hle hm
        rw [hdigits, hmdigits, ← hcolon] at hform
        match buffer, hsix with
        | [_, _, _, _, _, _], _ => exact hform

theorem twoDigits_ne_zero {n : Nat} (h : n ≤ 59) : 0 ∉ twoDigits n := by
  have hdigit : ∀ d : Nat, d < 10 → UInt8.ofNat (48 + d) ≠ 0 := by decide
  unfold twoDigits
  rw [List.mem_cons, List.mem_singleton, not_or]
  exact ⟨(hdigit (n / 10) (by omega)).symm, (hdigit (n % 10) (by omega)).symm⟩

theorem OffsetForm.no_nul {buffer : List UInt8} (h : OffsetForm buffer) : 0 ∉ buffer := by
  have hsigns : ∀ sign : UInt8, sign = 43 ∨ sign = 45 → 0 ≠ sign := by
    intro sign hsign
    rcases hsign with rfl | rfl
    · decide
    · decide
  cases h with
  | hours hsign hh =>
    rw [List.mem_cons, not_or]
    exact ⟨hsigns _ hsign, twoDigits_ne_zero (by omega)⟩
  | basic hsign hh hm =>
    rw [List.mem_cons, List.mem_append, not_or, not_or]
    exact ⟨hsigns _ hsign, twoDigits_ne_zero (by omega), twoDigits_ne_zero hm⟩
  | extended hsign hh hm =>
    rw [List.mem_cons, List.mem_append, List.mem_cons, not_or, not_or, not_or]
    exact ⟨hsigns _ hsign, twoDigits_ne_zero (by omega), by decide, twoDigits_ne_zero hm⟩

/-! ## Writes -/

section Writes
variable {s s' : DeviceData} {code : UInt8}

/-- An accepted offset is the text that is stored. -/
theorem writeUtcOffset_cases {v : Value} (h : writeUtcOffset v s = .ok (code, s')) :
    (code ≠ coap204Changed ∧ s' = s) ∨
      ∃ buffer, v.asBuffer = some buffer ∧ OffsetForm buffer ∧ code = coap204Changed ∧
        s'.time = s.time ∧ CString.text s'.timeOffset.bytes = buffer := by
  unfold writeUtcOffset Value.readBuffer at h
  cases hbuffer : v.asBuffer with
  | none =>
    rw [hbuffer] at h
    cases h
  | some buffer =>
    simp only [hbuffer, ok_bind] at h
    split at h
    · next hchecked =>
      cases h
      have hform := form_of_checked hchecked
      refine Or.inr ⟨buffer, rfl, hform, rfl, rfl, ?_⟩
      simp only [TimeOffset.overwrite, strncpy_eq_self hform.no_nul]
      exact CString.text_append_nul hform.no_nul _
    · cases h
      exact Or.inl ⟨by decide, rfl⟩

/-- An accepted time is stored as its difference to the clock. -/
theorem writeCurrentTime_cases {now : Int} {v : Value} (h : writeCurrentTime now v s = (code, s')) :
    (code ≠ coap204Changed ∧ s' = s) ∨
      ∃ t, number v = some t ∧ code = coap204Changed ∧
        s' = { s with time := (t - now).bmod (2 ^ 64) } := by
  unfold writeCurrentTime at h
  split at h
  · next value hvalue =>
    cases h
    obtain ⟨t, ht, hwraps⟩ := decodeInt_wraps hvalue
    refine Or.inr ⟨t, ht, rfl, ?_⟩
    rw [(Int.bmod_sub_cancel_right now).mpr hwraps]
  · cases h
    exact Or.inl ⟨by decide, rfl⟩

/-- A write is refused, or it is that of an offset or of a time. -/
theorem write_cases {instanceId : Nat} {element : Element} {now : Int}
    (h : prvDeviceWrite instanceId [(element, now)] s = .ok (code, s')) :
    (code ≠ coap204Changed ∧ s' = s) ∨
      (element.id = resOUtcOffset ∧ ∃ buffer, element.value.asBuffer = some buffer ∧
        OffsetForm buffer ∧ code = coap204Changed ∧ s'.time = s.time ∧
        CString.text s'.timeOffset.bytes = buffer) ∨
      (element.id = resOCurrentTime ∧ ∃ t, number element.value = some t ∧ code = coap204Changed ∧
        s' = { s with time := (t - now).bmod (2 ^ 64) }) := by
  unfold prvDeviceWrite DoWhile.run writeElement at h
  split at h
  · cases h
    exact Or.inl ⟨by decide, rfl⟩
  · split at h
    · next hid =>
      rcases writeCurrentTime_cases (Except.ok.inj h) with hrefused | haccepted
      · exact Or.inl hrefused
      · exact Or.inr (Or.inr ⟨hid, haccepted⟩)
    · split at h
      · next hid =>
        rcases writeUtcOffset_cases h with hrefused | haccepted
        · exact Or.inl hrefused
        · exact Or.inr (Or.inl ⟨hid, haccepted⟩)
      · split at h
        · cases h
          exact Or.inl ⟨by decide, rfl⟩
        · cases h
          exact Or.inl ⟨by decide, rfl⟩

theorem write_possible (s : DeviceData) (instanceId : Nat) {element : Element} (now : Int)
    (htyped : element.id = resOUtcOffset → element.value.isBytes = true) :
    ∃ r, prvDeviceWrite instanceId [(element, now)] s = .ok r := by
  unfold prvDeviceWrite DoWhile.run writeElement
  split
  · exact ⟨_, rfl⟩
  · split
    · exact ⟨_, rfl⟩
    · split
      · next hid =>
        unfold writeUtcOffset Value.readBuffer
        cases hbuffer : element.value.asBuffer with
        | none =>
          rw [Value.asBuffer_eq_none_iff, htyped hid] at hbuffer
          cases hbuffer
        | some buffer =>
          simp only [ok_bind]
          split <;> exact ⟨_, rfl⟩
      · split <;> exact ⟨_, rfl⟩

end Writes

theorem step_possible (d : Device) {r : Request × Int} (htyped : Typed r.1) :
    ∃ t code, step d r = some (t, code) := by
  obtain ⟨request, now⟩ := r
  cases request with
  | write instanceId element =>
    obtain ⟨⟨code, data⟩, hwrite⟩ := write_possible d.data instanceId now htyped
    refine ⟨{ d with data := data }, code, ?_⟩
    simp only [step, hwrite]
  | execute instanceId resourceId length => exact ⟨_, _, rfl⟩

theorem step_write {d t : Device} {instanceId : Nat} {element : Element} {now : Int} {code : UInt8}
    (hstep : step d (.write instanceId element, now) = some (t, code)) :
    ∃ data, prvDeviceWrite instanceId [(element, now)] d.data = .ok (code, data) ∧
      t = { d with data := data } := by
  simp only [step] at hstep
  cases hwrite : prvDeviceWrite instanceId [(element, now)] d.data with
  | error fault =>
    rw [hwrite] at hstep
    cases hstep
  | ok result =>
    obtain ⟨answer, data⟩ := result
    rw [hwrite] at hstep
    cases hstep
    exact ⟨data, rfl, rfl⟩

theorem execute_data (instanceId resourceId length : Nat) (d : Device) :
    (prvDeviceExecute instanceId resourceId length d).2.data = d.data := by
  unfold prvDeviceExecute
  split
  · rfl
  · split
    · rfl
    · split <;> rfl

/-! ## Histories -/

section Histories
variable {requests : List (Request × Int)} {codes : List UInt8} {r : Request × Int} {code : UInt8}

theorem zip_concat (h : requests.length = codes.length) :
    (requests ++ [r]).zip (codes ++ [code]) = requests.zip codes ++ [(r, code)] :=
  List.zip_append h

theorem lastOffset_concat (h : requests.length = codes.length) :
    lastOffset (requests ++ [r]) (codes ++ [code]) =
      (newOffset (r, code)).getD (lastOffset requests codes) := by
  unfold lastOffset
  rw [zip_concat h, List.filterMap_append]
  cases hnew : newOffset (r, code) with
  | none => simp [hnew]
  | some offset => simp [hnew]

theorem lastTime_concat (h : requests.length = codes.length) :
    lastTime (requests ++ [r]) (codes ++ [code]) =
      (newTime (r, code)).or (lastTime requests codes) := by
  unfold lastTime
  rw [zip_concat h, List.filterMap_append]
  cases hnew : newTime (r, code) with
  | none => simp [hnew]
  | some entry => simp [hnew]

/-- The fields follow what has been accepted. -/
structure Tracks (requests : List (Request × Int)) (codes : List UInt8) (d : Device) : Prop where
  lengths : requests.length = codes.length
  text : CString.text d.data.timeOffset.bytes = lastOffset requests codes
  form : OffsetForm (lastOffset requests codes)
  time : ∀ t since, lastTime requests codes = some (t, since) →
    d.data.time = (t - since).bmod (2 ^ 64)

theorem Tracks.lengths_concat {d : Device} (h : Tracks requests codes d) :
    (requests ++ [r]).length = (codes ++ [code]).length := by
  rw [List.length_append, List.length_append, h.lengths]
  rfl

/-- Nothing is accepted. -/
theorem Tracks.unchanged {d t : Device} (h : Tracks requests codes d)
    (hoffset : newOffset (r, code) = none) (htime : newTime (r, code) = none)
    (hdata : t.data = d.data) : Tracks (requests ++ [r]) (codes ++ [code]) t := by
  constructor
  · exact h.lengths_concat
  · rw [hdata, lastOffset_concat h.lengths, hoffset]
    exact h.text
  · rw [lastOffset_concat h.lengths, hoffset]
    exact h.form
  · rw [hdata, lastTime_concat h.lengths, htime]
    exact h.time

/-- An offset is accepted. -/
theorem Tracks.offset {d t : Device} (h : Tracks requests codes d) {buffer : List UInt8}
    (hoffset : newOffset (r, code) = some buffer) (htime : newTime (r, code) = none)
    (hform : OffsetForm buffer) (htext : CString.text t.data.timeOffset.bytes = buffer)
    (hsame : t.data.time = d.data.time) : Tracks (requests ++ [r]) (codes ++ [code]) t := by
  constructor
  · exact h.lengths_concat
  · rw [lastOffset_concat h.lengths, hoffset]
    exact htext
  · rw [lastOffset_concat h.lengths, hoffset]
    exact hform
  · rw [lastTime_concat h.lengths, htime]
    intro time since hlast
    exact hsame.trans (h.time time since hlast)

/-- A time is accepted. -/
theorem Tracks.currentTime {d t : Device} (h : Tracks requests codes d) {time now : Int}
    (hoffset : newOffset (r, code) = none) (htime : newTime (r, code) = some (time, now))
    (hdata : t.data = { d.data with time := (time - now).bmod (2 ^ 64) }) :
    Tracks (requests ++ [r]) (codes ++ [code]) t := by
  constructor
  · exact h.lengths_concat
  · rw [lastOffset_concat h.lengths, hoffset, hdata]
    exact h.text
  · rw [lastOffset_concat h.lengths, hoffset]
    exact h.form
  · rw [lastTime_concat h.lengths, htime]
    intro t' since hlast
    cases hlast
    rw [hdata]

theorem newOffset_write (instanceId : Nat) (element : Element) (now : Int) :
    newOffset ((.write instanceId element, now), coap204Changed) =
      if element.id = resOUtcOffset then element.value.asBuffer else none := by
  simp [newOffset]

theorem newTime_write (instanceId : Nat) (element : Element) (now : Int) :
    newTime ((.write instanceId element, now), coap204Changed) =
      if element.id = resOCurrentTime then (number element.value).map fun t => (t, now)
      else none := by
  simp [newTime]

theorem step_tracks {d t : Device} (h : Tracks requests codes d) (hstep : step d r = some (t, code)) :
    Tracks (requests ++ [r]) (codes ++ [code]) t := by
  obtain ⟨request, now⟩ := r
  cases request with
  | execute instanceId resourceId length =>
    cases hstep
    exact h.unchanged rfl rfl (execute_data instanceId resourceId length d)
  | write instanceId element =>
    obtain ⟨data, hwrite, rfl⟩ := step_write hstep
    rcases write_cases hwrite with ⟨hcode, hsame⟩ | ⟨hid, buffer, hbuffer, hform, rfl, htime, htext⟩ |
      ⟨hid, time, htime, rfl, hdata⟩
    · apply h.unchanged
      · exact if_neg fun hboth => hcode hboth.1
      · exact if_neg fun hboth => hcode hboth.1
      · exact hsame
    · refine h.offset ?_ ?_ hform htext htime
      · rw [newOffset_write, if_pos hid, hbuffer]
      · rw [newTime_write, hid]
        rfl
    · refine h.currentTime ?_ ?_ hdata
      · rw [newOffset_write, hid]
        rfl
      · rw [newTime_write, if_pos hid, htime]
        rfl

end Histories

/-! ## Runs -/

/-- The object as `get_object_device` makes it. -/
def start (freeMemory : Int) : Device := ⟨freeMemory, 0, 100, getObjectDevice⟩

theorem start_tracks (freeMemory : Int) : Tracks [] [] (start freeMemory) := by
  have hform : OffsetForm (43 :: (twoDigits 1 ++ 58 :: twoDigits 0)) :=
    OffsetForm.extended (Or.inl rfl) (by omega) (by omega)
  have htext : CString.text getObjectDevice.timeOffset.bytes = CString.ascii "+01:00" := by decide
  refine ⟨rfl, htext, hform, ?_⟩
  intro t since hlast
  cases hlast

theorem read_single {allocated : Bool} {now : Int} {id : Nat} {d : Device} {value : Value}
    (h : prvSetValue allocated now id d = (coap205Content, value)) :
    prvDeviceRead allocated now 0 [id] d = (coap205Content, [value]) := by
  simp [prvDeviceRead, readEach, h]

theorem Tracks.faithful {requests : List (Request × Int)} {codes : List UInt8} {d : Device}
    (h : Tracks requests codes d) : Faithful requests codes d := by
  refine ⟨d.data.timeOffset.size, d.data.timeOffset.terminated, h.text ▸ h.form, ?_, ?_, ?_⟩
  · intro now
    apply read_single
    rw [← h.text, ← encodeString_true]
    rfl
  · intro t since hlast elapsed
    apply read_single
    have helapsed : (since + elapsed + d.data.time).bmod (2 ^ 64) = (t + elapsed).bmod (2 ^ 64) := by
      rw [h.time t since hlast, Int.add_bmod_bmod]
      congr 1
      omega
    rw [← helapsed]
    rfl
  · intro instanceId element now code after hstep hcode
    obtain ⟨data, hwrite, rfl⟩ := step_write hstep
    rcases write_cases hwrite with ⟨_, rfl⟩ | ⟨_, _, _, _, haccepted, _⟩ |
      ⟨_, _, _, haccepted, _⟩
    · rfl
    · exact absurd haccepted hcode
    · exact absurd haccepted hcode

theorem run_possible {requests : List (Request × Int)} (htyped : ∀ r ∈ requests, Typed r.1)
    (d : Device) : ∃ t codes, Runs.run step d requests = some (t, codes) := by
  induction requests generalizing d with
  | nil => exact ⟨d, [], rfl⟩
  | cons r requests ih =>
    obtain ⟨t, code, hstep⟩ := step_possible d (htyped r List.mem_cons_self)
    obtain ⟨u, codes, hrun⟩ := ih (fun q hq => htyped q (List.mem_cons_of_mem r hq)) t
    exact ⟨u, code :: codes, Runs.run_cons_iff.mpr ⟨t, code, codes, hstep, hrun, rfl⟩⟩

/-- After any writes and executes, whatever the clock says at each of them, the offset is well
formed and the one that has been accepted last, and the time goes on from the one that has. -/
theorem clock_and_offset_faithful (freeMemory : Int) (requests : List (Request × Int))
    (htyped : ∀ r ∈ requests, Typed r.1) :
    ∃ d codes, Runs.run step (start freeMemory) requests = some (d, codes) ∧
      Faithful requests codes d := by
  obtain ⟨d, codes, hrun⟩ := run_possible htyped (start freeMemory)
  refine ⟨d, codes, hrun, Tracks.faithful ?_⟩
  exact Runs.run_history (P := Tracks) (fun _ _ _ _ _ _ h hstep => step_tracks h hstep)
    (start_tracks freeMemory) hrun

/-- An offset, one that is refused, a time in a text that is more than 64 bits can hold, a reboot
and a time that is no number. -/
def settings : List (Request × Int) :=
  [(.write 0 ⟨14, .string (CString.ascii "-0530")⟩, 100),
    (.write 0 ⟨14, .opaqueBytes (CString.ascii "+13")⟩, 101),
    (.write 0 ⟨13, .string (CString.ascii "18446744073709551617")⟩, 110),
    (.execute 0 4 0, 111), (.write 0 ⟨13, .float⟩, 120)]

theorem settings_faithful :
    ∃ d codes, Runs.run step (start 15) settings = some (d, codes) ∧ Faithful settings codes d := by
  apply clock_and_offset_faithful
  decide

example : ((Runs.run step (start 15) settings).map fun r =>
    (r.2, prvDeviceRead true 130 0 [14, 13] r.1)) =
      some ([coap204Changed, coap400BadRequest, coap204Changed, coap204Changed, coap400BadRequest],
        coap205Content, [.string (CString.ascii "-0530"), .integer 21]) := by decide +kernel

end JsEmbeddedPlatform.ObjectDevice
