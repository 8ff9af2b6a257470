import JsEmbeddedPlatform.Lwm2mData
import JsEmbeddedPlatform.ObjectFirmware
import JsEmbeddedPlatform.Shared.DoWhile

/-!
# Writing to the LWM2M Device object

Two resources can be written, the current time and the offset to UTC. The handler goes
through the elements until one is refused.
-/

set_option autoImplicit false

namespace JsEmbeddedPlatform.ObjectDevice

open Lwm2mData
open ObjectFirmware (coap204Changed coap400BadRequest coap404NotFound coap405MethodNotAllowed
  strncpy length_strncpy)

def coap501NotImplemented : UInt8 := 0xA1

def resOCurrentTime : Nat := 13
def resOUtcOffset : Nat := 14
def resOTimezone : Nat := 15

/-- `char time_offset[PRV_OFFSET_MAXLEN]`, a text that ends. -/
structure TimeOffset where
  bytes : List UInt8
  size : bytes.length = 7
  terminated : 0 ∈ bytes
deriving DecidableEq, Repr

/-- At most six bytes go to the front, and a NUL behind them. -/
def TimeOffset.overwrite (o : TimeOffset) (front : List UInt8) (short : front.length ≤ 6) :
    TimeOffset where
  bytes := front ++ 0 :: o.bytes.drop (front.length + 1)
  size := by
    rw [List.length_append, List.length_cons, List.length_drop, o.size]
    omega
  terminated := by simp

structure DeviceData where
  time : Int
  timeOffset : TimeOffset
deriving DecidableEq, Repr

/-- What `get_object_device` stores of it. -/
def getObjectDevice : DeviceData :=
  ⟨1541064, ⟨CString.ascii "+01:00" ++ [0], by decide, by decide⟩⟩

/-- A byte of the buffer; the code reads none past the end, since it tests the length first. -/
def byteAt (buffer : List UInt8) (i : Nat) : UInt8 := buffer[i]?.getD 0

def checkHours (buffer : List UInt8) : Bool :=
  if byteAt buffer 1 = 48 then 48 ≤ byteAt buffer 2 ∧ byteAt buffer 2 ≤ 57
  else if byteAt buffer 1 = 49 then 48 ≤ byteAt buffer 2 ∧ byteAt buffer 2 ≤ 50
  else false

def checkMinutes (buffer : List UInt8) (minIndex : Nat) : Bool :=
  48 ≤ byteAt buffer minIndex ∧ byteAt buffer minIndex ≤ 53 ∧
    48 ≤ byteAt buffer (minIndex + 1) ∧ byteAt buffer (minIndex + 1) ≤ 57

def prvCheckTimeOffset (buffer : List UInt8) : Bool :=
  if buffer.length ≠ 3 ∧ buffer.length ≠ 5 ∧ buffer.length ≠ 6 then false
  else if byteAt buffer 0 ≠ 45 ∧ byteAt buffer 0 ≠ 43 then false
  else if checkHours buffer = false then false
  else if buffer.length = 3 then true
  else if buffer.length = 5 then checkMinutes buffer 3
  else if byteAt buffer 3 ≠ 58 then false
  else checkMinutes buffer 4

theorem length_of_checked {buffer : List UInt8} (h : prvCheckTimeOffset buffer = true) :
    buffer.length ≤ 6 := by
  unfold prvCheckTimeOffset at h
  split at h
  · cases h
  · omega

/-- The difference wraps around at 64 bits. `now` is what `time` returns. -/
def writeCurrentTime (now : Int) (v : Value) (s : DeviceData) : UInt8 × DeviceData :=
  match lwm2mDataDecodeInt v with
  | some value => (coap204Changed, { s with time := (value - now).bmod (2 ^ 64) })
  | none => (coap400BadRequest, s)

def writeUtcOffset (v : Value) (s : DeviceData) : Except Fault (UInt8 × DeviceData) := do
  let buffer ← v.readBuffer
  if h : prvCheckTimeOffset buffer = true then
    .ok (coap204Changed, { s with
      timeOffset := s.timeOffset.overwrite (strncpy buffer buffer.length) (by
        rw [length_strncpy]
        exact length_of_checked h) })
  else .ok (coap400BadRequest, s)

/-- Each element comes with what `time` returns at that moment. -/
def writeElement (d : Element × Int) (s : DeviceData) : Except Fault (UInt8 × DeviceData) :=
  if d.1.id = resOCurrentTime then .ok (writeCurrentTime d.2 d.1.value s)
  else if d.1.id = resOUtcOffset then writeUtcOffset d.1.value s
  else if d.1.id = resOTimezone then .ok (coap501NotImplemented, s)
  else .ok (coap405MethodNotAllowed, s)

def prvDeviceWrite (instanceId : Nat) (data : List (Element × Int)) (s : DeviceData) :
    Except Fault (UInt8 × DeviceData) :=
  if instanceId ≠ 0 then .ok (coap404NotFound, s)
  else DoWhile.run coap204Changed .memory writeElement data s

example : (prvDeviceWrite 0 [(⟨14, .string (CString.ascii "-0530")⟩, 0), (⟨15, .string []⟩, 0)]
    getObjectDevice).toOption.map (fun r => (r.1, r.2.timeOffset.bytes)) =
      some (coap501NotImplemented, CString.ascii "-0530" ++ [0, 0]) := by decide

end JsEmbeddedPlatform.ObjectDevice
