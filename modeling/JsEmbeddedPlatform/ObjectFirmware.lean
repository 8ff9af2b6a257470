import JsEmbeddedPlatform.EventThread
import JsEmbeddedPlatform.PackageUri

/-!
# The LWM2M Firmware object and the program that a loop evaluates

Package is copied to a push buffer, Update hands that buffer to `set_user_code` and
restarts the event loop. The first statements of `eventloop()` assign the same
`code_ptr`. The two are followed from a write to the evaluation, with the other
tasks in between.
-/

set_option autoImplicit false

namespace JsEmbeddedPlatform.ObjectFirmware

open Timers (Port)
open EventThread (Threads startEventloopThread killEventloopThread eventloopTask)

def coap204Changed : UInt8 := 0x44
def coap400BadRequest : UInt8 := 0x80
def coap404NotFound : UInt8 := 0x84
def coap405MethodNotAllowed : UInt8 := 0x85
def coap406NotAcceptable : UInt8 := 0x86

def resMPackage : Nat := 0
def resMPackageUri : Nat := 1
def resMUpdate : Nat := 2

inductive DataType where
  | undefined
  | object
  | objectInstance
  | multipleResource
  | string
  | opaqueBytes
  | integer
  | float
  | boolean
  | objectLink
deriving DecidableEq, Repr

/-- An element of `dataArray`. `length` and `buffer` are what the union holds when it is read as
`asBuffer`; the buffer is given as the bytes that can be read from it on, none for NULL. -/
structure Data where
  id : Nat
  type : DataType
  length : Nat
  buffer : List UInt8
deriving DecidableEq, Repr

/-- The bytes of the element, when its buffer has as many as it says. -/
def Data.asBuffer (d : Data) : Option (List UInt8) :=
  if d.length ≤ d.buffer.length then some (d.buffer.take d.length) else none

structure FirmwareData where
  pkgUri : List UInt8
  state : UInt8
deriving DecidableEq, Repr

/-- `code` is the block behind the pointer, `none` for NULL. -/
structure FirmwarePush where
  size : Nat
  code : Option (List UInt8)
deriving DecidableEq, Repr

/-- Where `code_ptr` points: the block that the push buffer had when it was assigned, what
`firmware_platform_get_code` returned, or `test_code`. -/
inductive CodePtr where
  | null
  | pushed (code : Option (List UInt8))
  | stored (firmware : List UInt8)
  | testCode
deriving DecidableEq, Repr

/-- `stored` is what can be read from `firmware_platform_get_code()` on, `none` where that
returns NULL. -/
structure Device where
  data : FirmwareData
  push : FirmwarePush
  codePtr : CodePtr
  stored : Option (List UInt8)
  downloaderTask : Bool
  threads : Threads
deriving DecidableEq, Repr

def testCode : List UInt8 :=
  CString.ascii "var gpio = require('gpio');var sw = false;" ++
  CString.ascii "gpio.setup(gpio.PORTB, gpio.PIN0, gpio.MODE_OUT_PP, gpio.NOPULL);" ++
  CString.ascii "gpio.setup(gpio.PORTB, gpio.PIN7, gpio.MODE_OUT_PP, gpio.NOPULL);" ++
  CString.ascii "gpio.setup(gpio.PORTC, gpio.PIN13, gpio.MODE_IN, gpio.PULLDOWN);" ++
  CString.ascii "var a = setInterval(function()\x7b gpio.set(gpio.PORTB, gpio.PIN0, sw); " ++
  CString.ascii "sw = !sw; \x7d, 250);" ++
  CString.ascii "var b = setInterval(function()\x7b var isSet = gpio.get(gpio.PORTC, gpio.PIN13); " ++
  CString.ascii "gpio.set(gpio.PORTB, gpio.PIN7, isSet); \x7d, 150);" ++
  CString.ascii "setTimeout(function()\x7b clearInterval(a); setTimeout(function() \x7b " ++
  CString.ascii "clearInterval(b) \x7d, 20000) \x7d, 10000)" ++ [0]

/-- `get_object_firmware`, after which `pkg_uri` has the bytes `beyond` behind its NUL. -/
def getObjectFirmware (beyond : List UInt8) : FirmwareData × FirmwarePush :=
  (⟨CString.ascii "firm://127.0.0.1:44444" ++ 0 :: beyond, 1⟩, ⟨0, none⟩)

/-! ## Requests -/

/-- `allocated` says that `lwm2m_malloc` finds room. -/
def writePackage (allocated : Bool) (d : Data) (s : Device) : Option Device := do
  let bytes ← d.asBuffer
  if allocated then pure { s with push := ⟨d.length, some bytes⟩ }
  else if d.length = 0 then pure { s with push := ⟨0, none⟩ }
  else none

def strncpy (source : List UInt8) (n : Nat) : List UInt8 :=
  (CString.text source).take n ++ List.replicate (n - (CString.text source).length) 0

theorem length_strncpy (source : List UInt8) (n : Nat) : (strncpy source n).length = n := by
  rw [strncpy, List.length_append, List.length_take, List.length_replicate]
  omega

theorem strncpy_eq_self {source : List UInt8} (h : 0 ∉ source) :
    strncpy source source.length = source := by
  unfold strncpy
  rw [CString.text_eq_self_iff.mpr h, List.take_length, Nat.sub_self, List.replicate_zero,
    List.append_nil]

/-- With a NUL behind it the copy is a string, whatever there is behind the source. -/
theorem text_strncpy (source beyond rest : List UInt8) :
    CString.text (strncpy (source ++ beyond) source.length ++ 0 :: rest) =
      CString.text source := by
  unfold strncpy
  rw [CString.text_append_take, List.append_assoc]
  cases source.length - (CString.text (source ++ beyond)).length with
  | zero => exact CString.text_append_nul (CString.nul_notMem_text source) rest
  | succ k =>
    rw [List.replicate_succ, List.cons_append]
    exact CString.text_append_nul (CString.nul_notMem_text source) _

def firmwarePlatformDownloaderTaskStart (s : Device) : Device :=
  if s.downloaderTask then s else { s with downloaderTask := true }

/-- A host of more than 19 characters is written past the end of `ip`. -/
def writePackageUri (port : Port) (d : Data) (s : Device) : Option (UInt8 × Device) :=
  if (d.type = .string ∨ d.type = .opaqueBytes) ∧ 15 < d.length ∧ d.length < 256 then do
    let uri ← CString.read d.buffer
    let scanned := PackageUri.sscanf port uri
    if 20 ≤ scanned.ip.length then none
    else if PackageUri.Accepted scanned then
      let pkgUri := strncpy d.buffer d.length ++ 0 :: s.data.pkgUri.drop (d.length + 1)
      pure (coap204Changed, firmwarePlatformDownloaderTaskStart
        { s with data := { s.data with pkgUri := pkgUri } })
    else pure (coap406NotAcceptable, s)
  else some (coap406NotAcceptable, s)

def writeElement (port : Port) (allocated : Bool) (d : Data) (s : Device) :
    Option (UInt8 × Device) :=
  if d.id = resMPackage then (writePackage allocated d s).map fun t => (coap204Changed, t)
  else if d.id = resMPackageUri then writePackageUri port d s
  else some (coap405MethodNotAllowed, s)

def writeLoop (port : Port) : List (Data × Bool) → Device → Option (UInt8 × Device)
  | [], _ => none
  | [(d, allocated)], s => writeElement port allocated d s
  | (d, allocated) :: next :: rest, s => do
    let (result, t) ← writeElement port allocated d s
    if result = coap204Changed then writeLoop port (next :: rest) t else pure (result, t)

/-- The array has at least one element, and each comes with the answer that `lwm2m_malloc` would
give. -/
def prvFirmwareWrite (port : Port) (instanceId : Nat) (dataArray : List (Data × Bool))
    (s : Device) : Option (UInt8 × Device) :=
  if instanceId ≠ 0 then some (coap404NotFound, s) else writeLoop port dataArray s

def setUserCode (code : Option (List UInt8)) (s : Device) : Device :=
  { s with codePtr := .pushed code }

/-- `created` says that the system creates the thread. The server sees the state 2 at no time,
since the LWM2M task answers requests one after the other. -/
def prvFirmwareExecute (port : Port) (created : Bool) (instanceId resourceId length : Nat)
    (s : Device) : Option (UInt8 × Device) :=
  if instanceId ≠ 0 then some (coap404NotFound, s)
  else if length ≠ 0 then some (coap400BadRequest, s)
  else if resourceId = resMUpdate then
    if s.data.state = 1 ∧ s.push.size ≠ 0 then do
      let killed ← killEventloopThread port s.threads
      let t := setUserCode s.push.code
        { s with data := { s.data with state := 2 }, threads := killed }
      pure (coap204Changed, { t with
        data := { t.data with state := 1 }
        threads := startEventloopThread port created t.threads })
    else some (coap400BadRequest, s)
  else some (coap405MethodNotAllowed, s)

/-! ## The loop -/

def loadCode (s : Device) : Device :=
  { s with codePtr := match s.stored with
      | some firmware => .stored firmware
      | none => .testCode }

def CodePtr.memory : CodePtr → List UInt8
  | .null => []
  | .pushed code => code.getD []
  | .stored firmware => firmware
  | .testCode => ObjectFirmware.testCode

/-- Thread `t` goes from its first statement to `duk_eval_string`, which finds the end of the
text. -/
def loopRuns (t : Nat) (s : Device) : Option (List UInt8 × Device) := do
  let threads ← eventloopTask t s.threads
  let loaded := loadCode { s with threads := threads }
  let program ← CString.read loaded.codePtr.memory
  pure (program, loaded)

/-! ## All tasks -/

/-- `taskCalls` is Reboot or the downloader calling for the thread, `storeChanges` a download
that makes other firmware readable. -/
inductive Action where
  | write (instanceId : Nat) (dataArray : List (Data × Bool))
  | execute (instanceId resourceId length : Nat) (created : Bool)
  | taskCalls (c : EventThread.Call)
  | storeChanges (firmware : Option (List UInt8))
  | downloadEnds
  | loopRuns (t : Nat)
deriving DecidableEq, Repr

inductive Output where
  | answer (code : UInt8)
  | evaluates (program : List UInt8)
  | silent
deriving DecidableEq, Repr

def deviceStep (port : Port) (s : Device) : Action → Option (Device × Output)
  | .write instanceId dataArray =>
    (prvFirmwareWrite port instanceId dataArray s).map fun (code, t) => (t, .answer code)
  | .execute instanceId resourceId length created =>
    (prvFirmwareExecute port created instanceId resourceId length s).map
      fun (code, t) => (t, .answer code)
  | .taskCalls c =>
    (EventThread.call port s.threads c).map fun threads => ({ s with threads := threads }, .silent)
  | .storeChanges firmware => some ({ s with stored := firmware }, .silent)
  | .downloadEnds => some ({ s with downloaderTask := false }, .silent)
  | .loopRuns t => (loopRuns t s).map fun (program, u) => (u, .evaluates program)

/-- What the last Package element of an array holds. -/
def lastPackage (dataArray : List (Data × Bool)) : Option Data :=
  (dataArray.map Prod.fst).reverse.find? fun d => d.id = resMPackage

def Action.writesPackage : Action → Prop
  | .write _ dataArray => ∃ d ∈ dataArray, d.1.id = resMPackage
  | _ => False

/-- The step does not write the Package, or does so in vain. -/
def LeavesPackage (port : Port) (s : Device) (a : Action) : Prop :=
  a.writesPackage → ∀ t o, deviceStep port s a = some (t, o) → t.push = s.push

/-! ## From the write to the evaluation -/

section Requests
variable {port : Port} {s t : Device} {code : UInt8}

theorem writePackage_push {allocated : Bool} {d : Data}
    (h : writePackage allocated d s = some t) :
    ∃ p, d.asBuffer = some p ∧ t.push.size = p.length ∧ t.push.code.getD [] = p := by
  unfold writePackage at h
  obtain ⟨p, hp, h⟩ := Option.bind_eq_some_iff.mp h
  refine ⟨p, hp, ?_⟩
  have hlength : d.length = p.length := by
    unfold Data.asBuffer at hp
    split at hp
    · next hle =>
      cases hp
      rw [List.length_take]
      omega
    · cases hp
  split at h
  · cases h
    exact ⟨hlength, rfl⟩
  · split at h
    · next hzero =>
      cases h
      have : p = [] := List.eq_nil_of_length_eq_zero (by omega)
      rw [this]
      exact ⟨rfl, rfl⟩
    · cases h

theorem writePackageUri_push {d : Data} (h : writePackageUri port d s = some (code, t)) :
    t.push = s.push := by
  unfold writePackageUri at h
  split at h
  · obtain ⟨uri, _, h⟩ := Option.bind_eq_some_iff.mp h
    simp only at h
    split at h
    · cases h
    · split at h
      · cases h
        unfold firmwarePlatformDownloaderTaskStart
        split <;> rfl
      · cases h
        rfl
  · cases h
    rfl

theorem writeElement_push {allocated : Bool} {d : Data} (hd : d.id ≠ resMPackage)
    (h : writeElement port allocated d s = some (code, t)) : t.push = s.push := by
  unfold writeElement at h
  rw [if_neg hd] at h
  split at h
  · exact writePackageUri_push h
  · cases h
    rfl

theorem writeElement_package {allocated : Bool} {d : Data} (hd : d.id = resMPackage)
    (h : writeElement port allocated d s = some (code, t)) :
    code = coap204Changed ∧ ∃ p, d.asBuffer = some p ∧ t.push.size = p.length ∧
      t.push.code.getD [] = p := by
  unfold writeElement at h
  rw [if_pos hd] at h
  obtain ⟨u, hu, heq⟩ := Option.map_eq_some_iff.mp h
  cases heq
  exact ⟨rfl, writePackage_push hu⟩

theorem writeLoop_push {dataArray : List (Data × Bool)}
    (hfree : ∀ d ∈ dataArray, d.1.id ≠ resMPackage)
    (h : writeLoop port dataArray s = some (code, t)) : t.push = s.push := by
  induction dataArray generalizing s with
  | nil => cases h
  | cons d rest ih =>
    obtain ⟨d, allocated⟩ := d
    have hd := hfree (d, allocated) List.mem_cons_self
    cases rest with
    | nil => exact writeElement_push hd h
    | cons next rest =>
      unfold writeLoop at h
      obtain ⟨⟨result, u⟩, hu, h⟩ := Option.bind_eq_some_iff.mp h
      have hsame := writeElement_push hd hu
      simp only at h
      split at h
      · rw [ih (fun e he => hfree e (List.mem_cons_of_mem _ he)) h, hsame]
      · cases h
        exact hsame

theorem lastPackage_cons (d : Data × Bool) (rest : List (Data × Bool)) :
    lastPackage (d :: rest) =
      (lastPackage rest).or (if d.1.id = resMPackage then some d.1 else none) := by
  unfold lastPackage
  rw [List.map_cons, List.reverse_cons, List.find?_append]
  congr 1
  by_cases hd : d.1.id = resMPackage <;> simp [hd]

theorem lastPackage_eq_none {dataArray : List (Data × Bool)} (h : lastPackage dataArray = none) :
    ∀ d ∈ dataArray, d.1.id ≠ resMPackage := by
  intro d hd hid
  unfold lastPackage at h
  rw [List.find?_eq_none] at h
  exact h d.1 (List.mem_reverse.mpr (List.mem_map_of_mem hd)) (by simp [hid])

/-- A write that is answered 2.04 went through all elements. -/
theorem writeLoop_package {dataArray : List (Data × Bool)} {d : Data}
    (hlast : lastPackage dataArray = some d)
    (h : writeLoop port dataArray s = some (coap204Changed, t)) :
    ∃ p, d.asBuffer = some p ∧ t.push.size = p.length ∧ t.push.code.getD [] = p := by
  induction dataArray generalizing s with
  | nil => cases h
  | cons e rest ih =>
    obtain ⟨e, allocated⟩ := e
    rw [lastPackage_cons] at hlast
    cases rest with
    | nil =>
      rw [show lastPackage [] = none from rfl, Option.none_or] at hlast
      split at hlast
      · next he =>
        cases hlast
        exact (writeElement_package he h).2
      · cases hlast
    | cons next rest =>
      unfold writeLoop at h
      obtain ⟨⟨result, u⟩, hu, h⟩ := Option.bind_eq_some_iff.mp h
      simp only at h
      split at h
      · cases hrest : lastPackage (next :: rest) with
        | some d' =>
          rw [hrest, Option.some_or] at hlast
          exact ih (hrest.trans hlast) h
        | none =>
          -- the rest leaves the buffer as this element wrote it
          rw [hrest, Option.none_or] at hlast
          split at hlast
          · next he =>
            cases hlast
            rw [writeLoop_push (lastPackage_eq_none hrest) h]
            exact (writeElement_package he hu).2
          · cases hlast
      · next hresult =>
        cases h
        exact absurd rfl hresult

theorem prvFirmwareWrite_push {instanceId : Nat} {dataArray : List (Data × Bool)}
    (hfree : ∀ d ∈ dataArray, d.1.id ≠ resMPackage)
    (h : prvFirmwareWrite port instanceId dataArray s = some (code, t)) : t.push = s.push := by
  unfold prvFirmwareWrite at h
  split at h
  · cases h
    rfl
  · exact writeLoop_push hfree h

theorem prvFirmwareWrite_package {instanceId : Nat} {dataArray : List (Data × Bool)} {d : Data}
    (hlast : lastPackage dataArray = some d)
    (h : prvFirmwareWrite port instanceId dataArray s = some (coap204Changed, t)) :
    ∃ p, d.asBuffer = some p ∧ t.push.size = p.length ∧ t.push.code.getD [] = p := by
  unfold prvFirmwareWrite at h
  split at h
  · cases h
  · exact writeLoop_package hlast h

/-- What an execution can do. -/
theorem prvFirmwareExecute_cases {created : Bool} {instanceId resourceId length : Nat}
    (h : prvFirmwareExecute port created instanceId resourceId length s = some (code, t)) :
    (code ≠ coap204Changed ∧ t = s) ∨
      (code = coap204Changed ∧ s.push.size ≠ 0 ∧ ∃ killed,
        killEventloopThread port s.threads = some killed ∧
        t = { s with
          data := { s.data with state := 1 }
          codePtr := .pushed s.push.code
          threads := startEventloopThread port created killed }) := by
  unfold prvFirmwareExecute at h
  split at h
  · cases h
    exact Or.inl ⟨by decide, rfl⟩
  · split at h
    · cases h
      exact Or.inl ⟨by decide, rfl⟩
    · split at h
      · split at h
        · next hready =>
          obtain ⟨killed, hkilled, h⟩ := Option.bind_eq_some_iff.mp h
          cases h
          exact Or.inr ⟨rfl, hready.2, killed, hkilled, rfl⟩
        · cases h
          exact Or.inl ⟨by decide, rfl⟩
      · cases h
        exact Or.inl ⟨by decide, rfl⟩

end Requests

section Runs
variable {port : Port} {s t : Device} {o : Output}

/-- Only a write of Package changes the push buffer. -/
theorem deviceStep_push {a : Action} (hfree : ¬ a.writesPackage)
    (h : deviceStep port s a = some (t, o)) : t.push = s.push := by
  cases a with
  | write instanceId dataArray =>
    obtain ⟨⟨code, u⟩, hu, heq⟩ := Option.map_eq_some_iff.mp h
    cases heq
    exact prvFirmwareWrite_push (fun d hd hid => hfree ⟨d, hd, hid⟩) hu
  | execute instanceId resourceId length created =>
    obtain ⟨⟨code, u⟩, hu, heq⟩ := Option.map_eq_some_iff.mp h
    cases heq
    rcases prvFirmwareExecute_cases hu with ⟨_, rfl⟩ | ⟨_, _, killed, _, rfl⟩ <;> rfl
  | taskCalls c =>
    obtain ⟨threads, _, heq⟩ := Option.map_eq_some_iff.mp h
    cases heq
    rfl
  | storeChanges firmware =>
    cases h
    rfl
  | downloadEnds =>
    cases h
    rfl
  | loopRuns k =>
    obtain ⟨⟨program, u⟩, hu, heq⟩ := Option.map_eq_some_iff.mp h
    cases heq
    unfold loopRuns at hu
    obtain ⟨threads, _, hu⟩ := Option.bind_eq_some_iff.mp hu
    obtain ⟨program', _, hu⟩ := Option.bind_eq_some_iff.mp hu
    cases hu
    rfl

theorem run_push {actions : List Action} {outs : List Output}
    (hleft : Runs.Along (LeavesPackage port) (deviceStep port) s actions)
    (h : Runs.run (deviceStep port) s actions = some (t, outs)) : t.push = s.push := by
  induction actions generalizing s outs with
  | nil =>
    cases h
    rfl
  | cons a actions ih =>
    obtain ⟨m, o, rest, hstep, hrest, _⟩ := Runs.run_cons_iff.mp h
    have hkept : m.push = s.push := by
      by_cases hwrites : a.writesPackage
      · exact hleft.1 hwrites m o hstep
      · exact deviceStep_push hwrites hstep
    exact (ih (hleft.2 m o hstep) hrest).trans hkept

/-- A loop evaluates what is stored when its thread starts to run, whatever `code_ptr` was. -/
theorem loopRuns_program {k : Nat} {program : List UInt8}
    (h : deviceStep port s (.loopRuns k) = some (t, .evaluates program)) :
    program = CString.text (s.stored.getD testCode) := by
  obtain ⟨⟨program', u⟩, hu, heq⟩ := Option.map_eq_some_iff.mp h
  cases heq
  unfold loopRuns at hu
  obtain ⟨threads, _, hu⟩ := Option.bind_eq_some_iff.mp hu
  obtain ⟨program', hread, hu⟩ := Option.bind_eq_some_iff.mp hu
  cases hu
  rw [← CString.read_eq_some hread]
  unfold loadCode
  cases s.stored <;> rfl

end Runs

/-- Update does hand the package to the interpreter, but the loop it starts evaluates the package
exactly when the stored program, or the built-in one where none is stored, is the same text. -/
theorem pushed_package_runs_iff (port : Port) {s written before updated ready last : Device}
    {instanceId instanceId' resourceId length : Nat} {dataArray : List (Data × Bool)}
    (others later : List Action) {outs outs' : List Output} {d : Data} {p program : List UInt8}
    {t : Nat} (hlast : lastPackage dataArray = some d) (hp : d.asBuffer = some p)
    (hwrite : deviceStep port s (.write instanceId dataArray) =
      some (written, .answer coap204Changed))
    (hothers : Runs.Along (LeavesPackage port) (deviceStep port) written others)
    (hrun : Runs.run (deviceStep port) written others = some (before, outs))
    (hupdate : deviceStep port before (.execute instanceId' resourceId length true) =
      some (updated, .answer coap204Changed))
    (ht : updated.threads.handle = some t)
    (hlater : Runs.run (deviceStep port) updated later = some (ready, outs'))
    (hloop : deviceStep port ready (.loopRuns t) = some (last, .evaluates program)) :
    updated.codePtr.memory = p ∧ t ∈ updated.threads.starting ∧
      (program = CString.text p ↔ CString.text (ready.stored.getD testCode) = CString.text p) := by
  obtain ⟨⟨code, u⟩, hu, heq⟩ := Option.map_eq_some_iff.mp hwrite
  cases heq
  obtain ⟨q, hq, _, hcode⟩ := prvFirmwareWrite_package hlast hu
  rw [hp] at hq
  cases hq
  have hpush : before.push = written.push := run_push hothers hrun
  obtain ⟨⟨code, u⟩, hu, heq⟩ := Option.map_eq_some_iff.mp hupdate
  cases heq
  rcases prvFirmwareExecute_cases hu with ⟨hne, _⟩ | ⟨_, _, killed, _, rfl⟩
  · exact absurd rfl hne
  · refine ⟨?_, ?_, ?_⟩
    · rw [← hcode, ← hpush]
      rfl
    · cases port <;>
        simp only [startEventloopThread, EventThread.created, if_true, Option.some.injEq] at ht ⊢ <;>
        simp [ht]
    · rw [loopRuns_program hloop]

/-- A device that runs the firmware of its storage. -/
def booted (port : Port) (stored : Option (List UInt8)) : Device :=
  { data := (getObjectFirmware []).1
    push := (getObjectFirmware []).2
    codePtr := match stored with
      | some firmware => .stored firmware
      | none => .testCode
    stored := stored
    downloaderTask := false
    threads := { startEventloopThread port true EventThread.initial with
      starting := []
      queue := some 0 } }

/-- The program `1`, without a NUL. -/
def one : Data := ⟨0, .opaqueBytes, 1, [49]⟩

theorem stored_package_runs : ∃ written updated last program,
    deviceStep .unix (booted .unix (some [49, 0])) (.write 0 [(one, true)]) =
      some (written, .answer coap204Changed) ∧
    deviceStep .unix written (.execute 0 2 0 true) = some (updated, .answer coap204Changed) ∧
    deviceStep .unix updated (.loopRuns 1) = some (last, .evaluates program) ∧
    updated.codePtr.memory = [49] ∧ 1 ∈ updated.threads.starting ∧
      (program = CString.text [49] ↔
        CString.text (updated.stored.getD testCode) = CString.text [49]) := by
  obtain ⟨written, updated, last, program, hwrite, hupdate, ht, hloop⟩ :
      ∃ written updated last program,
        deviceStep .unix (booted .unix (some [49, 0])) (.write 0 [(one, true)]) =
          some (written, .answer coap204Changed) ∧
        deviceStep .unix written (.execute 0 2 0 true) = some (updated, .answer coap204Changed) ∧
        updated.threads.handle = some 1 ∧
        deviceStep .unix updated (.loopRuns 1) = some (last, .evaluates program) :=
    ⟨_, _, _, _, rfl, rfl, rfl, rfl⟩
  exact ⟨written, updated, last, program, hwrite, hupdate, hloop,
    pushed_package_runs_iff (d := one) .unix [] [] rfl rfl hwrite
      trivial (Runs.run_nil _) hupdate ht (Runs.run_nil _) hloop⟩

/-- Storage holds the program `2`, and that one is evaluated. -/
theorem pushed_package_is_not_run :
    (∀ port, ∃ u, Runs.run (deviceStep port) (booted port (some [50, 0]))
      [.write 0 [(one, true)], .execute 0 2 0 true, .loopRuns 1] =
        some (u, [.answer coap204Changed, .answer coap204Changed, .evaluates [50]])) ∧
    one.asBuffer = some [49] ∧ CString.text [49] ≠ [50] := by
  refine ⟨?_, rfl, by decide⟩
  intro port
  cases port <;> exact ⟨_, rfl⟩

end JsEmbeddedPlatform.ObjectFirmware
