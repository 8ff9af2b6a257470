import JsEmbeddedPlatform.Shared.Runs
import JsEmbeddedPlatform.UriAgreement

/-!
# Requests for a download and the task that serves them

A request leaves a pointer to its URI in `downloader_uri` and creates the downloader
task, which reads through the pointer when it runs. The Firmware object points at
`pkg_uri`, the web server of stm32 at an array in a stack frame that it then leaves.
-/

set_option autoImplicit false

namespace JsEmbeddedPlatform.DownloadRequests

open Timers (Port)
open ObjectFirmware (Device DataType prvFirmwareWrite coap204Changed coap406NotAcceptable)
open UriAgreement (written)

/-- `missing` is a handle other than NULL with no thread behind it. -/
inductive Stage where
  | created
  | running
  | missing
deriving DecidableEq, Repr

inductive Pointer where
  | null
  | pkgUri
  | frame (k : Nat)
deriving DecidableEq, Repr

/-- The two static variables of `firmware.c`. -/
structure Task where
  downloaderTask : Option Stage
  downloaderUri : Pointer
deriving DecidableEq, Repr

/-- What the system makes of the request for a thread. POSIX says nothing about the handle after a
failure. -/
inductive Creation where
  | done
  | failed
  | garbled
deriving DecidableEq, Repr

def Creation.handle : Creation → Option Stage
  | .done => some .created
  | .failed => none
  | .garbled => some .missing

def firmwarePlatformDownloaderTaskStart (creation : Creation) (uri : Pointer) (s : Task) : Task :=
  match s.downloaderTask with
  | some _ => s
  | none => ⟨creation.handle, uri⟩

/-- `frames` are the arrays that the calls of `forceUpdate` had, each with what memory holds there
now. -/
structure State where
  object : Device
  task : Task
  frames : List (List UInt8)
deriving DecidableEq, Repr

def State.memory (s : State) : Pointer → List UInt8
  | .null => []
  | .pkgUri => s.object.data.pkgUri
  | .frame k => s.frames.getD k []

/-- The Firmware object sees of the task only whether its handle is NULL. -/
def State.device (s : State) : Device :=
  { s.object with downloaderTask := s.task.downloaderTask.isSome }

def forceUpdateUri : List UInt8 := CString.ascii "firm://192.168.1.6:10001" ++ [0]

/-- `reuse` puts other bytes where an array was that `http_serve` has left. -/
inductive Action where
  | write (type : DataType) (uri beyond : List UInt8) (creation : Creation)
  | forceUpdate (creation : Creation)
  | reuse (k : Nat) (bytes : List UInt8)
  | taskReads
  | taskEnds
deriving DecidableEq, Repr

/-- `acknowledged` is the answer 2.04 or the page that says that the update is in progress. -/
inductive Output where
  | acknowledged (uri : List UInt8)
  | refused (code : UInt8)
  | parsed (uri : List UInt8)
  | silent
deriving DecidableEq, Repr

def write (port : Port) (type : DataType) (uri beyond : List UInt8) (creation : Creation)
    (s : State) : Option (State × Output) := do
  let (code, t) ← prvFirmwareWrite port 0 [(written type uri beyond, true)] s.device
  if code = coap204Changed then
    pure ({ s with
      object := t
      task := firmwarePlatformDownloaderTaskStart creation .pkgUri s.task },
      .acknowledged (CString.text uri))
  else pure ({ s with object := t }, .refused code)

/-- The branch of `http_serve` for `/forceUpdate`. -/
def forceUpdate (creation : Creation) (s : State) : State :=
  { s with
    frames := s.frames ++ [forceUpdateUri]
    task := firmwarePlatformDownloaderTaskStart creation (.frame s.frames.length) s.task }

/-- The task hands `downloader_uri` to `firmware_downloader_start`, and at its end clears
`downloader_task`. -/
def step (port : Port) (s : State) : Action → Option (State × Output)
  | .write type uri beyond creation => write port type uri beyond creation s
  | .forceUpdate creation =>
    if port = .stm32 then
      some (forceUpdate creation s, .acknowledged (CString.text forceUpdateUri))
    else none
  | .reuse k bytes => some ({ s with frames := s.frames.set k bytes }, .silent)
  | .taskReads =>
    if s.task.downloaderTask = some .created then
      some ({ s with task := { s.task with downloaderTask := some .running } },
        .parsed (CString.text (s.memory s.task.downloaderUri)))
    else none
  | .taskEnds =>
    if s.task.downloaderTask = some .running then
      some ({ s with task := { s.task with downloaderTask := none } }, .silent)
    else none

/-! ## Requests and downloads -/

def Output.request? : Output → Option (List UInt8)
  | .acknowledged uri => some uri
  | _ => none

def Output.download? : Output → Option (List UInt8)
  | .parsed uri => some uri
  | _ => none

/-- Each acknowledged request has its download, in turn and with its URI, but for the last one
while its task has not read yet. -/
def Served (outs : List Output) (s : State) : Prop :=
  ∃ waiting, outs.filterMap Output.request? = outs.filterMap Output.download? ++ waiting ∧
    waiting.length = if s.task.downloaderTask = some .created then 1 else 0

/-- The write comes to `firmware_platform_downloader_task_start`. -/
def Accepts (port : Port) (type : DataType) (uri beyond : List UInt8) : Prop :=
  ((type = .string ∨ type = .opaqueBytes) ∧ 15 < uri.length ∧ uri.length < 256) ∧
    PackageUri.Accepted (PackageUri.sscanf port (CString.text (uri ++ beyond)))

instance (port : Port) (type : DataType) (uri beyond : List UInt8) :
    Decidable (Accepts port type uri beyond) := inferInstanceAs (Decidable (_ ∧ _))

/-- A request is accepted while no task exists and its thread is created; memory that a task has
yet to read is left alone. -/
def Orderly (port : Port) (s : State) : Action → Prop
  | .write type uri beyond creation =>
    Accepts port type uri beyond → s.task.downloaderTask = none ∧ creation = .done
  | .forceUpdate creation => s.task.downloaderTask = none ∧ creation = .done
  | .reuse k _ => s.task.downloaderTask = some .created → s.task.downloaderUri ≠ .frame k
  | _ => True

instance (port : Port) (s : State) : (a : Action) → Decidable (Orderly port s a)
  | .write .. => inferInstanceAs (Decidable (_ → _ ∧ _))
  | .forceUpdate _ => inferInstanceAs (Decidable (_ ∧ _))
  | .reuse .. => inferInstanceAs (Decidable (_ → _ ≠ _))
  | .taskReads => isTrue trivial
  | .taskEnds => isTrue trivial

/-! ## One step -/

section Steps
variable {port : Port} {type : DataType} {uri beyond : List UInt8} {s t : State} {o : Output}

theorem prvFirmwareWrite_cases {device u : Device} {code : UInt8}
    (h : prvFirmwareWrite port 0 [(written type uri beyond, true)] device = some (code, u)) :
    (Accepts port type uri beyond ∧ code = coap204Changed ∧ u.downloaderTask = true ∧
      CString.text u.data.pkgUri = CString.text uri) ∨
    (¬ Accepts port type uri beyond ∧ code = coap406NotAcceptable ∧ u = device) := by
  by_cases hrange : (type = .string ∨ type = .opaqueBytes) ∧ 15 < uri.length ∧ uri.length < 256
  · rw [UriAgreement.written_in_range hrange] at h
    split at h
    · cases h
    · split at h
      · next haccepted =>
        cases h
        refine Or.inl ⟨⟨hrange, haccepted⟩, rfl, ?_, ?_⟩
        · unfold ObjectFirmware.firmwarePlatformDownloaderTaskStart
          split
          · assumption
          · rfl
        · rw [UriAgreement.taskStart_data, ObjectFirmware.text_strncpy]
      · next hrefused =>
        cases h
        exact Or.inr ⟨fun hall => hrefused hall.2, rfl, rfl⟩
  · rw [UriAgreement.written_out_of_range hrange] at h
    cases h
    exact Or.inr ⟨fun hall => hrange hall.1, rfl, rfl⟩

theorem write_cases {creation : Creation}
    (h : write port type uri beyond creation s = some (t, o)) :
    (Accepts port type uri beyond ∧ o = .acknowledged (CString.text uri) ∧
      t.frames = s.frames ∧ CString.text t.object.data.pkgUri = CString.text uri ∧
      t.task = firmwarePlatformDownloaderTaskStart creation .pkgUri s.task) ∨
    (¬ Accepts port type uri beyond ∧ o = .refused coap406NotAcceptable ∧
      t = { s with object := s.device }) := by
  unfold write at h
  obtain ⟨⟨code, u⟩, hu, h⟩ := Option.bind_eq_some_iff.mp h
  rcases prvFirmwareWrite_cases hu with ⟨haccepts, rfl, _, htext⟩ | ⟨hrefuses, rfl, rfl⟩
  · simp only [if_true] at h
    cases h
    exact Or.inl ⟨haccepts, rfl, rfl, htext, rfl⟩
  · have hcode : coap406NotAcceptable ≠ coap204Changed := by decide
    simp only [if_neg hcode] at h
    cases h
    exact Or.inr ⟨hrefuses, rfl, rfl⟩

theorem taskStart_exists (pointer : Pointer) (task : Task) :
    (firmwarePlatformDownloaderTaskStart .done pointer task).downloaderTask.isSome = true := by
  unfold firmwarePlatformDownloaderTaskStart
  cases htask : task.downloaderTask with
  | none => rfl
  | some stage =>
    simp only [htask]
    rfl

/-- The flag that the Firmware object keeps of the task is the handle's, when threads are
created. -/
theorem device_of_write {u : Device} {code : UInt8}
    (hu : prvFirmwareWrite port 0 [(written type uri beyond, true)] s.device = some (code, u))
    (h : write port type uri beyond .done s = some (t, o)) : t.device = u := by
  unfold write at h
  rw [hu] at h
  rcases prvFirmwareWrite_cases hu with ⟨_, rfl, hflag, _⟩ | ⟨_, rfl, rfl⟩
  · cases h
    unfold State.device
    rw [taskStart_exists, ← hflag]
  · cases h
    rfl

/-- What a task that has been created is going to read. -/
def State.waiting (s : State) : List (List UInt8) :=
  if s.task.downloaderTask = some .created then [CString.text (s.memory s.task.downloaderUri)]
  else []

theorem waiting_of_none (h : s.task.downloaderTask = none) : s.waiting = [] := by
  unfold State.waiting
  rw [h]
  rfl

theorem waiting_of_start {pointer : Pointer} (hnone : s.task.downloaderTask = none)
    (h : t.task = firmwarePlatformDownloaderTaskStart .done pointer s.task) :
    t.waiting = [CString.text (t.memory pointer)] := by
  unfold State.waiting
  rw [h]
  unfold firmwarePlatformDownloaderTaskStart
  rw [hnone]
  rfl

theorem memory_forceUpdate (creation : Creation) :
    (forceUpdate creation s).memory (.frame s.frames.length) = forceUpdateUri := by
  unfold State.memory forceUpdate
  simp

theorem memory_reuse {k : Nat} {bytes : List UInt8} {pointer : Pointer} (h : pointer ≠ .frame k) :
    ({ s with frames := s.frames.set k bytes } : State).memory pointer = s.memory pointer := by
  cases pointer with
  | null => rfl
  | pkgUri => rfl
  | frame j =>
    have hne : k ≠ j := fun heq => h (by rw [heq])
    unfold State.memory
    simp only [List.getD_eq_getElem?_getD, List.getElem?_set_ne hne]

/-- A step that does not overwrite what a task waits to read hands out the requests and the
downloads in step. -/
theorem step_waiting {a : Action} (horderly : Orderly port s a)
    (h : step port s a = some (t, o)) :
    s.waiting ++ o.request?.toList = o.download?.toList ++ t.waiting := by
  cases a with
  | write type uri beyond creation =>
    rcases write_cases h with ⟨haccepts, rfl, _, htext, htask⟩ | ⟨_, rfl, rfl⟩
    · obtain ⟨hnone, rfl⟩ := horderly haccepts
      rw [waiting_of_none hnone, waiting_of_start hnone htask]
      exact congrArg (fun text => [text]) htext.symm
    · exact List.append_nil _
  | forceUpdate creation =>
    simp only [step] at h
    split at h
    · cases h
      obtain ⟨hnone, rfl⟩ := horderly
      rw [waiting_of_none hnone, waiting_of_start hnone rfl, memory_forceUpdate]
      rfl
    · cases h
  | reuse k bytes =>
    simp only [step] at h
    cases h
    have hsame : s.task.downloaderTask = some .created →
        ({ s with frames := s.frames.set k bytes } : State).memory s.task.downloaderUri =
          s.memory s.task.downloaderUri := fun hcreated => memory_reuse (horderly hcreated)
    unfold State.waiting
    by_cases hcreated : s.task.downloaderTask = some .created
    · rw [if_pos hcreated, if_pos hcreated, hsame hcreated]
      exact List.append_nil _
    · rw [if_neg hcreated, if_neg hcreated]
      rfl
  | taskReads =>
    simp only [step] at h
    split at h
    · next hcreated =>
      cases h
      unfold State.waiting
      rw [if_pos hcreated]
      rfl
    · cases h
  | taskEnds =>
    simp only [step] at h
    split at h
    · next hrunning =>
      cases h
      unfold State.waiting
      rw [hrunning]
      rfl
    · cases h

end Steps

/-! ## Runs -/

theorem served_of_waiting {outs : List Output} {s : State}
    (h : outs.filterMap Output.request? = outs.filterMap Output.download? ++ s.waiting) :
    Served outs s := by
  refine ⟨s.waiting, h, ?_⟩
  unfold State.waiting
  split <;> rfl

/-- In a run in which no request comes before the last one is done, and each finds a thread, every
request has the download it asked for. -/
theorem requests_served {port : Port} {s t : State} {actions : List Action} {outs : List Output}
    (hidle : s.task.downloaderTask = none)
    (horderly : Runs.Along (Orderly port) (step port) s actions)
    (hrun : Runs.run (step port) s actions = some (t, outs)) : Served outs t := by
  apply served_of_waiting
  refine Runs.run_along (P := fun _ outs s => outs.filterMap Output.request? =
    outs.filterMap Output.download? ++ s.waiting) ?_ ?_ horderly hrun
  · intro _ seen s a t o hseen hthis hstep
    have hsame := step_waiting hthis hstep
    have hrequest : [o].filterMap Output.request? = o.request?.toList := by cases o <;> rfl
    have hdownload : [o].filterMap Output.download? = o.download?.toList := by cases o <;> rfl
    rw [List.filterMap_append, List.filterMap_append, hseen, List.append_assoc, List.append_assoc,
      hrequest, hdownload, hsame]
  · exact (waiting_of_none hidle).symm

/-- No request has been made. -/
def booted (port : Port) : State := ⟨ObjectFirmware.booted port none, ⟨none, .null⟩, []⟩

def first : List UInt8 := CString.ascii "firm://10.0.0.2:80"

def second : List UInt8 := CString.ascii "firm://10.0.0.3:80"

def inTurn : List Action :=
  [.write .string first [0] .done, .taskReads, .taskEnds, .forceUpdate .done, .taskReads,
    .reuse 0 []]

theorem requests_in_turn : ∃ t outs,
    Runs.run (step .stm32) (booted .stm32) inTurn = some (t, outs) ∧ Served outs t := by
  have horderly : Runs.Along (Orderly .stm32) (step .stm32) (booted .stm32) inTurn := by
    decide +kernel
  exact ⟨_, _, rfl, requests_served rfl horderly rfl⟩

/-- The second URI overwrites the first before the task reads it, and has no download of its
own. -/
theorem request_lost : (∀ port, ∃ t, Runs.run (step port) (booted port)
      [.write .string first [0] .done, .write .string second [0] .done, .taskReads] =
        some (t, [.acknowledged first, .acknowledged second, .parsed second])) ∧
    ∀ t, ¬ Served [.acknowledged first, .acknowledged second, .parsed second] t := by
  constructor
  · intro port
    cases port <;> exact ⟨_, rfl⟩
  · rintro t ⟨waiting, hrequests, _⟩
    have hfirst : some first = some second := congrArg List.head? hrequests
    exact absurd hfirst (by decide)

end JsEmbeddedPlatform.DownloadRequests
