import JsEmbeddedPlatform.WriteTags

/-!
# What a refused request leaves behind

A Write is applied element by element and stops at the first that is refused; what came
before stays. A Create that is refused takes its instance back, so that nothing stays.
-/

set_option autoImplicit false

namespace JsEmbeddedPlatform.RefusedRequests

open Lwm2mData Lwm2mList
open ObjectFirmware (coap204Changed coap400BadRequest coap404NotFound coap405MethodNotAllowed
  coap406NotAcceptable)
open WriteTags (IsError HasBytes watchServerWrite watchServerElement)

/-! ## Writes -/

section Prefix
variable {Item State : Type}

/-- Whenever a write is refused, the state is as the elements before the refused one leave it, and
what follows that one does not matter. -/
def KeepsPrefix (handle : List Item → State → Except Fault (UInt8 × State)) : Prop :=
  ∀ data s code t, data ≠ [] → handle data s = .ok (code, t) → code ≠ coap204Changed →
    ∃ before item after, data = before ++ item :: after ∧
      (∀ others, handle (before ++ item :: others) s = .ok (code, t)) ∧
      (before = [] ∧ t = s ∨ handle before s = .ok (coap204Changed, t))

/-- What is asked of a write that is refused: that it changes nothing. -/
def ChangesNothing (handle : List Item → State → Except Fault (UInt8 × State)) : Prop :=
  ∀ data s code t, data ≠ [] → handle data s = .ok (code, t) → code ≠ coap204Changed → t = s

theorem keepsPrefix_refusal (code : UInt8) :
    KeepsPrefix fun (_ : List Item) (s : State) => .ok (code, s) := by
  intro data s result t hdata hhandle _
  cases hhandle
  obtain ⟨item, rest, rfl⟩ := List.exists_cons_of_ne_nil hdata
  exact ⟨[], item, rest, rfl, fun _ => rfl, Or.inl ⟨rfl, rfl⟩⟩

/-- A loop whose body changes nothing when it refuses. -/
theorem keepsPrefix_run {body : Item → State → Except Fault (UInt8 × State)}
    (hrefusal : ∀ item s code t, body item s = .ok (code, t) → code ≠ coap204Changed → t = s) :
    KeepsPrefix (DoWhile.run coap204Changed .memory body) := by
  intro data s code t hdata hrun hcode
  obtain ⟨before, item, after, u, hsplit, hpasses, hbody⟩ := DoWhile.run_stops hdata hrun
  have hsame : t = u := hrefusal item u code t hbody hcode
  subst hsame
  refine ⟨before, item, after, hsplit, ?_, ?_⟩
  · intro others
    rw [hpasses.run_append (by simp)]
    exact DoWhile.run_cons_stop hbody hcode
  · by_cases hnil : before = []
    · subst hnil
      cases hpasses
      exact Or.inl ⟨rfl, rfl⟩
    · exact Or.inr (hpasses.run hnil)

/-- A handler for the part of a state that is found in it and put back. -/
def within {Part : Type} (find : State → Option Part) (put : Part → State → State)
    (missing : UInt8) (inner : List Item → Part → Except Fault (UInt8 × Part)) (data : List Item)
    (s : State) : Except Fault (UInt8 × State) :=
  match find s with
  | none => .ok (missing, s)
  | some part => do
    let (code, part) ← inner data part
    .ok (code, put part s)

theorem KeepsPrefix.within {Part : Type} {find : State → Option Part}
    {put : Part → State → State} (hput : ∀ s part, find s = some part → put part s = s)
    (missing : UInt8) {inner : List Item → Part → Except Fault (UInt8 × Part)}
    (h : KeepsPrefix inner) :
    KeepsPrefix (RefusedRequests.within find put missing inner) := by
  intro data s code t hdata hhandle hcode
  cases hfind : find s with
  | none =>
    simp only [RefusedRequests.within, hfind] at hhandle ⊢
    exact keepsPrefix_refusal missing data s code t hdata hhandle hcode
  | some part =>
    simp only [RefusedRequests.within, hfind] at hhandle ⊢
    cases hinner : inner data part with
    | error fault =>
      rw [hinner] at hhandle
      cases hhandle
    | ok r =>
      obtain ⟨result, changed⟩ := r
      rw [hinner, ok_bind] at hhandle
      cases hhandle
      obtain ⟨before, item, after, hsplit, hothers, hbefore⟩ :=
        h data part result changed hdata hinner hcode
      refine ⟨before, item, after, hsplit, ?_, ?_⟩
      · intro others
        rw [hothers, ok_bind]
      · rcases hbefore with ⟨hnil, rfl⟩ | hbefore
        · exact Or.inl ⟨hnil, hput s changed hfind⟩
        · refine Or.inr ?_
          rw [hbefore, ok_bind]

end Prefix

/-! ### The Server object -/

section Server
open ObjectServer

/-- A number within bounds. -/
def DecodesWithin (least limit : Int) (v : Value) : Prop :=
  ∃ value ∈ lwm2mDataDecodeInt v, least ≤ value ∧ value ≤ limit

/-- What is accepted for a resource. -/
def acceptsValue (v : Value) : Resource → Prop
  | .shortId => DecodesWithin 1 0xFFFF v
  | .lifetime | .minPeriod | .maxPeriod | .disableTimeout => DecodesWithin 0 0xFFFFFFFF v
  | .storing => lwm2mDataDecodeBool v ≠ none
  | .binding => ∃ buffer ∈ v.asBuffer, 0 < buffer.length ∧ buffer.length ≤ 3 ∧
      ∃ mode ∈ bindingModes, strncmpEqual buffer (mode ++ [0]) buffer.length

def serverAccepts (e : Element) : Prop := ∃ r : Resource, e.id = r.id ∧ acceptsValue e.value r

/-- An element is accepted, or refused without any change. -/
def Settled (e : Element) (target : ServerInstance) (r : UInt8 × ServerInstance) : Prop :=
  r.1 = coap204Changed ∧ serverAccepts e ∨
    IsError r.1 ∧ r.2 = target ∧ ¬ serverAccepts e

theorem settled_refused {e : Element} {code : UInt8} (hcode : IsError code)
    (hnot : ¬ serverAccepts e) (target : ServerInstance) : Settled e target (code, target) :=
  Or.inr ⟨hcode, rfl, hnot⟩

theorem serverAccepts_iff {e : Element} {r : Resource} (hid : e.id = r.id) :
    serverAccepts e ↔ acceptsValue e.value r := by
  constructor
  · intro ⟨q, hq, haccepts⟩
    have hsame : q.id = r.id := hq.symm.trans hid
    have heq : q = r := by
      cases q <;> cases r <;> first | rfl | cases hsame
    rwa [heq] at haccepts
  · exact fun haccepts => ⟨r, hid, haccepts⟩

theorem setInt_cases (v : Value) (data : UInt32) :
    (∃ value : Int, lwm2mDataDecodeInt v = some value ∧ 0 ≤ value ∧ value ≤ 0xFFFFFFFF ∧
      prvSetIntValue v data = (coap204Changed, UInt32.ofNat value.toNat)) ∨
    (¬ DecodesWithin 0 0xFFFFFFFF v ∧
      ∃ code, IsError code ∧ prvSetIntValue v data = (code, data)) := by
  unfold prvSetIntValue DecodesWithin
  cases hvalue : lwm2mDataDecodeInt v with
  | none => exact Or.inr ⟨by simp, coap400BadRequest, by decide, rfl⟩
  | some value =>
    by_cases hrange : 0 ≤ value ∧ value ≤ 0xFFFFFFFF
    · exact Or.inl ⟨value, rfl, hrange.1, hrange.2, if_pos hrange⟩
    · exact Or.inr ⟨by simpa using hrange, coap406NotAcceptable, by decide, if_neg hrange⟩

theorem settled_int {e : Element} {r : Resource} {target : ServerInstance} (data : UInt32)
    (put : UInt32 → ServerInstance) (hid : e.id = r.id)
    (haccepts : acceptsValue e.value r = DecodesWithin 0 0xFFFFFFFF e.value)
    (hput : put data = target) :
    Settled e target ((prvSetIntValue e.value data).1, put (prvSetIntValue e.value data).2) := by
  unfold Settled
  rw [serverAccepts_iff hid, haccepts]
  rcases setInt_cases e.value data with ⟨value, hvalue, hlow, hhigh, hset⟩ | ⟨hnot, code, hcode, hset⟩
  · rw [hset]
    exact Or.inl ⟨rfl, value, hvalue, hlow, hhigh⟩
  · rw [hset]
    exact Or.inr ⟨hcode, hput, hnot⟩

theorem settled_shortId {e : Element} (target : ServerInstance)
    (hid : e.id = lwm2mServerShortIdId) : Settled e target (writeShortId e.value target) := by
  have haccepts := serverAccepts_iff (r := .shortId) hid
  unfold writeShortId
  rcases setInt_cases e.value target.shortServerId.toUInt32 with
    ⟨value, hvalue, hlow, hhigh, hset⟩ | ⟨hnot, code, hcode, hset⟩
  · have hnat : (UInt32.ofNat value.toNat).toNat = value.toNat := by
      rw [UInt32.toNat_ofNat']
      omega
    have hrange : (0 < UInt32.ofNat value.toNat ∧ UInt32.ofNat value.toNat ≤ 0xFFFF) ↔
        1 ≤ value ∧ value ≤ 0xFFFF := by
      rw [UInt32.lt_iff_toNat_lt, UInt32.le_iff_toNat_le, hnat]
      have hzero : (0 : UInt32).toNat = 0 := rfl
      have hlimit : (0xFFFF : UInt32).toNat = 0xFFFF := rfl
      rw [hzero, hlimit]
      omega
    rw [hset]
    by_cases hshort : 0 < UInt32.ofNat value.toNat ∧ UInt32.ofNat value.toNat ≤ 0xFFFF
    · simp only [if_true, if_pos hshort]
      exact Or.inl ⟨rfl, haccepts.mpr ⟨value, hvalue, hrange.mp hshort⟩⟩
    · simp only [if_true, if_neg hshort]
      apply settled_refused (by decide)
      rw [haccepts]
      intro ⟨other, hother, hwithin⟩
      rw [hvalue] at hother
      cases hother
      exact hshort (hrange.mpr hwithin)
  · have hstop : code ≠ coap204Changed := by
      rintro rfl
      exact absurd hcode (by decide)
    rw [hset]
    simp only [if_neg hstop]
    apply settled_refused hcode
    rw [haccepts]
    intro ⟨value, hvalue, hlow, hhigh⟩
    exact hnot ⟨value, hvalue, by omega, by omega⟩

theorem settled_storing {e : Element} (target : ServerInstance)
    (hid : e.id = lwm2mServerStoringId) : Settled e target (writeStoring e.value target) := by
  have haccepts := serverAccepts_iff (r := .storing) hid
  unfold writeStoring
  cases hvalue : lwm2mDataDecodeBool e.value with
  | some value => exact Or.inl ⟨rfl, haccepts.mpr (by simp [acceptsValue, hvalue])⟩
  | none =>
    apply settled_refused (by decide)
    rw [haccepts, acceptsValue, hvalue]
    exact fun hne => hne rfl

theorem settled_binding {e : Element} (target : ServerInstance)
    (hid : e.id = lwm2mServerBindingId) : Settled e target (writeBinding e.value target) := by
  have haccepts := serverAccepts_iff (r := .binding) hid
  unfold writeBinding storeBinding
  cases hbuffer : e.value.asBuffer with
  | none =>
    apply settled_refused (by decide)
    rw [haccepts, acceptsValue, hbuffer]
    simp
  | some buffer =>
    simp only
    split
    · rename_i hfits
      exact Or.inl ⟨rfl, haccepts.mpr ⟨buffer, hbuffer, hfits⟩⟩
    · rename_i hfits
      apply settled_refused (by decide)
      rw [haccepts]
      rintro ⟨other, hother, hother_fits⟩
      rw [hbuffer] at hother
      cases hother
      exact hfits hother_fits

theorem server_element_settled (e : Element) (target : ServerInstance) :
    Settled e target (ObjectServer.writeElement e target) := by
  apply writeElement_cases (P := Settled e target)
  · exact settled_shortId target
  · exact fun hid => settled_int (r := .lifetime) target.lifetime
      (fun value => { target with lifetime := value }) hid rfl rfl
  · exact fun hid => settled_int (r := .minPeriod) target.defaultMinPeriod
      (fun value => { target with defaultMinPeriod := value }) hid rfl rfl
  · exact fun hid => settled_int (r := .maxPeriod) target.defaultMaxPeriod
      (fun value => { target with defaultMaxPeriod := value }) hid rfl rfl
  · exact fun hid => settled_int (r := .disableTimeout) target.disableTimeout
      (fun value => { target with disableTimeout := value }) hid rfl rfl
  · exact settled_storing target
  · exact settled_binding target
  · intro hnone code hcode
    have herror : IsError code := by
      simp only [List.mem_cons, List.not_mem_nil, or_false] at hcode
      rcases hcode with rfl | rfl
      · decide
      · decide
    exact settled_refused herror (fun ⟨r, hid, _⟩ => hnone r hid) target

theorem server_element_refused (e : Element) (target : ServerInstance) (code : UInt8)
    (target' : ServerInstance) (h : watchServerElement e target = .ok (code, target'))
    (hcode : code ≠ coap204Changed) : target' = target := by
  rw [WriteTags.watchServerElement_eq] at h
  injection h with hwrite
  rcases server_element_settled e target with ⟨hchanged, _⟩ | ⟨_, hsame, _⟩
  · rw [hwrite] at hchanged
    exact absurd hchanged hcode
  · rw [hwrite] at hsame
    exact hsame

theorem server_keepsPrefix (id : Nat) :
    KeepsPrefix fun data list => access (prvServerWrite id data list) := by
  have hwithin : (fun data list => access (prvServerWrite id data list)) =
      within (lwm2mListFind ServerInstance.instanceId id)
        (replaceFound ServerInstance.instanceId id) coap404NotFound
        (DoWhile.run coap204Changed .memory watchServerElement) := by
    funext data list
    rw [← WriteTags.watchServerWrite_eq, watchServerWrite, within]
    cases lwm2mListFind ServerInstance.instanceId id list with
    | none => rfl
    | some target => rfl
  rw [hwithin]
  apply KeepsPrefix.within
  · exact fun list target hfound => replaceFound_self hfound
  · exact keepsPrefix_run server_element_refused

end Server

/-! ### The Security object -/

section Security
open ObjectSecurity

theorem writeField_changes {e : Element} {room : Bool} {m : Memory} {i : SecurityInstance}
    {f : Option Key} {code : UInt8} {t : Memory × SecurityInstance}
    (h : writeField e room m i f = .ok (code, t)) : code = coap204Changed := by
  obtain ⟨content, put, hwrite, _⟩ := WriteTags.writeField_eq e room m i f
  rw [hwrite] at h
  cases hblock : writeBlock room e.value (i.pointer f) content m with
  | error fault =>
    rw [hblock] at h
    cases h
  | ok written =>
    rw [hblock] at h
    cases h
    rfl

theorem security_element_refused (d : Element × Bool) (s : Memory × SecurityInstance)
    (code : UInt8) (t : Memory × SecurityInstance)
    (h : ObjectSecurity.writeElement d.1 d.2 s.1 s.2 = .ok (code, t))
    (hcode : code ≠ coap204Changed) : t = s := by
  cases hfield : fieldOf d.1.id with
  | none =>
    obtain ⟨result, i', hwrite, _, _, _, hnothing⟩ :=
      writeElement_otherOrNothing d.2 s.1 s.2 hfield
    rw [hwrite] at h
    cases h
    rw [hnothing hcode]
  | some f =>
    rw [writeElement_field (eq_fieldId hfield)] at h
    exact absurd (writeField_changes h) hcode

theorem security_keepsPrefix (id : Nat) :
    KeepsPrefix fun data (s : Memory × ObjectSecurity.InstanceList) =>
      prvSecurityWrite id data s.1 s.2 := by
  have hwithin : (fun data (s : Memory × ObjectSecurity.InstanceList) =>
      prvSecurityWrite id data s.1 s.2) =
      within (fun s => (lwm2mListFind SecurityInstance.instanceId id s.2).map fun i => (s.1, i))
        (fun part s => (part.1, replaceFound SecurityInstance.instanceId id part.2 s.2))
        coap404NotFound (DoWhile.run coap204Changed .memory
          fun d s => ObjectSecurity.writeElement d.1 d.2 s.1 s.2) := by
    funext data s
    rw [prvSecurityWrite, within]
    cases lwm2mListFind SecurityInstance.instanceId id s.2 with
    | none => rfl
    | some target =>
      simp only [WriteTags.securityLoop_eq]
      rfl
  rw [hwithin]
  apply KeepsPrefix.within
  · intro s part hfound
    obtain ⟨target, htarget, rfl⟩ := Option.map_eq_some_iff.mp hfound
    rw [replaceFound_self htarget]
  · exact keepsPrefix_run security_element_refused

end Security

/-! ### The Device object -/

section Device
open ObjectDevice

theorem device_element_refused (d : Element × Int) (s : DeviceData) (code : UInt8) (t : DeviceData)
    (h : ObjectDevice.writeElement d s = .ok (code, t)) (hcode : code ≠ coap204Changed) :
    t = s := by
  unfold ObjectDevice.writeElement at h
  split at h
  · unfold writeCurrentTime at h
    split at h
    · cases h
      exact absurd rfl hcode
    · cases h
      rfl
  split at h
  · rcases WriteTags.writeUtcOffset_cases d.1.value s with
      ⟨_, herror⟩ | ⟨_, _, ⟨_, u, hchanged⟩ | ⟨_, hrefused⟩⟩
    · cases herror.symm.trans h
    · cases hchanged.symm.trans h
      exact absurd rfl hcode
    · cases hrefused.symm.trans h
      rfl
  split at h
  · cases h
    rfl
  · cases h
    rfl

theorem device_keepsPrefix (id : Nat) : KeepsPrefix (prvDeviceWrite id) := by
  by_cases hid : id = 0
  · have hwrite : prvDeviceWrite id =
        DoWhile.run coap204Changed .memory ObjectDevice.writeElement := by
      funext data s
      exact if_neg (not_not.mpr hid)
    rw [hwrite]
    exact keepsPrefix_run device_element_refused
  · have hwrite : prvDeviceWrite id = fun _ s => .ok (coap404NotFound, s) := by
      funext data s
      exact if_pos hid
    rw [hwrite]
    exact keepsPrefix_refusal coap404NotFound

end Device

/-! ### The Firmware object -/

section Firmware
open ObjectFirmware
open Timers (Port)
variable {port : Port}

theorem packageUri_refused {d : Data} {s t : Device} {code : UInt8}
    (h : writePackageUri port d s = some (code, t)) (hcode : code ≠ coap204Changed) : t = s := by
  unfold writePackageUri at h
  split at h
  · obtain ⟨uri, _, h⟩ := Option.bind_eq_some_iff.mp h
    simp only at h
    split at h
    · cases h
    split at h
    · cases h
      exact absurd rfl hcode
    · cases h
      rfl
  · cases h
    rfl

theorem firmware_element_refused (d : Data × Bool) (s : Device) (code : UInt8) (t : Device)
    (h : access (ObjectFirmware.writeElement port d.2 d.1 s) = .ok (code, t))
    (hcode : code ≠ coap204Changed) : t = s := by
  rw [access_eq_ok_iff, ObjectFirmware.writeElement] at h
  split at h
  · obtain ⟨u, _, heq⟩ := Option.map_eq_some_iff.mp h
    cases heq
    exact absurd rfl hcode
  split at h
  · exact packageUri_refused h hcode
  · cases h
    rfl

theorem firmwareLoop_eq (data : List (Data × Bool)) (s : Device) :
    DoWhile.run coap204Changed .memory
        (fun d s => access (ObjectFirmware.writeElement port d.2 d.1 s)) data s =
      access (ObjectFirmware.writeLoop port data s) := by
  induction data generalizing s with
  | nil => rfl
  | cons d rest ih =>
    cases rest with
    | nil => rfl
    | cons next rest =>
      rw [ObjectFirmware.writeLoop]
      cases hwrite : ObjectFirmware.writeElement port d.2 d.1 s with
      | none => exact DoWhile.run_cons_error (by rw [hwrite]; rfl)
      | some r =>
        obtain ⟨result, t⟩ := r
        simp only [Option.bind_eq_bind, Option.bind_some]
        by_cases hresult : result = coap204Changed
        · subst hresult
          rw [DoWhile.run_cons_ok (by rw [hwrite]; rfl) (by simp), if_pos rfl, ih]
        · rw [DoWhile.run_cons_stop (by rw [hwrite]; rfl) hresult, if_neg hresult]
          rfl

theorem firmware_keepsPrefix (port : Port) (id : Nat) :
    KeepsPrefix fun data s => access (prvFirmwareWrite port id data s) := by
  by_cases hid : id = 0
  · have hwrite : (fun data s => access (prvFirmwareWrite port id data s)) =
        DoWhile.run coap204Changed .memory
          fun d s => access (ObjectFirmware.writeElement port d.2 d.1 s) := by
      funext data s
      rw [firmwareLoop_eq, prvFirmwareWrite, if_neg (not_not.mpr hid)]
    rw [hwrite]
    exact keepsPrefix_run firmware_element_refused
  · have hwrite : (fun (data : List (Data × Bool)) s => access (prvFirmwareWrite port id data s)) =
        fun _ s => .ok (coap404NotFound, s) := by
      funext data s
      rw [prvFirmwareWrite, if_pos hid]
      rfl
    rw [hwrite]
    exact keepsPrefix_refusal coap404NotFound

end Firmware

/-! ### All four objects -/

/-- For each object and instance id, whether there is such an instance or not: a refused write
leaves what the elements before the refused one have made, and nothing of that one or of those
behind it. -/
theorem refused_writes_keep_prefix (port : Timers.Port) (id : Nat) :
    (KeepsPrefix fun data list => access (ObjectServer.prvServerWrite id data list)) ∧
    (KeepsPrefix fun data (s : ObjectSecurity.Memory × ObjectSecurity.InstanceList) =>
      ObjectSecurity.prvSecurityWrite id data s.1 s.2) ∧
    KeepsPrefix (ObjectDevice.prvDeviceWrite id) ∧
    KeepsPrefix fun data s => access (ObjectFirmware.prvFirmwareWrite port id data s) :=
  ⟨server_keepsPrefix id, security_keepsPrefix id, device_keepsPrefix id,
    firmware_keepsPrefix port id⟩

/-- A package URI, and a resource that cannot be written. -/
def uriAndState : List (ObjectFirmware.Data × Bool) :=
  [(⟨1, .string, 21, CString.ascii "firm://10.0.0.2:10001" ++ [0]⟩, true),
    (⟨3, .integer, 0, []⟩, true)]

/-- In each object an element before the refused one stays: a lifetime, a short server id, the
time, a started download. -/
theorem earlier_elements_stay :
    (¬ ChangesNothing fun data list => access (ObjectServer.prvServerWrite 0 data list)) ∧
    (¬ ChangesNothing fun data (s : ObjectSecurity.Memory × ObjectSecurity.InstanceList) =>
      ObjectSecurity.prvSecurityWrite 0 data s.1 s.2) ∧
    ¬ ChangesNothing (ObjectDevice.prvDeviceWrite 0) ∧
    ∀ port, ¬ ChangesNothing fun data s =>
      access (ObjectFirmware.prvFirmwareWrite port 0 data s) := by
  refine ⟨?_, ?_, ?_, ?_⟩
  · intro h
    have hsame := h [⟨1, .integer 60⟩, ⟨9, .integer 0⟩] [ObjectServer.zeroed 0]
      coap404NotFound [{ ObjectServer.zeroed 0 with lifetime := 60 }] (by simp) rfl (by decide)
    exact absurd hsame (by decide)
  · intro h
    have hsame := h [(⟨10, .integer 7⟩, true), (⟨13, .integer 0⟩, true)]
      (Heap.empty, [ObjectSecurity.zeroed 0]) coap400BadRequest
      (Heap.empty, [{ ObjectSecurity.zeroed 0 with shortID := 7 }]) (by simp) rfl (by decide)
    exact absurd (congrArg Prod.snd hsame) (by decide)
  · intro h
    have hsame := h [(⟨13, .integer 5⟩, 0), (⟨15, .string []⟩, 0)] ObjectDevice.getObjectDevice
      ObjectDevice.coap501NotImplemented { ObjectDevice.getObjectDevice with time := 5 } (by simp)
      rfl (by decide)
    exact absurd hsame (by decide)
  · intro port h
    have hstarted : ∃ t, access (ObjectFirmware.prvFirmwareWrite port 0 uriAndState
        (ObjectFirmware.booted port none)) = .ok (coap405MethodNotAllowed, t) ∧
        t.downloaderTask = true := by
      cases port <;> exact ⟨_, rfl, rfl⟩
    obtain ⟨t, hwrite, htask⟩ := hstarted
    have hsame := h uriAndState (ObjectFirmware.booted port none) _ t (by simp [uriAndState])
      hwrite (by decide)
    rw [hsame] at htask
    cases port <;> cases htask

/-! ## Creations -/

/-- Created with an instance more, or refused and as before. `answers` is what the call can answer
with and the list that it leaves. -/
def CreatedOrUnchanged {Node : Type} (key : Node → Nat) (id : Nat) (accepted : Prop)
    (list : List Node) (answers : UInt8 → List Node → Prop) : Prop :=
  (accepted ∧ ∃ list', answers coap201Created list' ∧ Inserted key id list list' ∧
    Sorted key list') ∨
  (¬ accepted ∧ ∃ code, IsError code ∧ answers code list)

section ServerCreate
open ObjectServer

theorem server_create_decided (id : Nat) {data : List Element} {list : ObjectServer.InstanceList}
    (hdata : data ≠ []) (hs : Sorted ServerInstance.instanceId list)
    (fresh : ∀ n ∈ list, n.instanceId ≠ id) :
    CreatedOrUnchanged ServerInstance.instanceId id (∀ e ∈ data, serverAccepts e) list
      fun code list' => prvServerCreate true id data list = some (code, list') := by
  have hmissing : lwm2mListFind ServerInstance.instanceId id list = none := find_eq_none fresh
  have hfind : lwm2mListFind ServerInstance.instanceId id
      (lwm2mListAdd ServerInstance.instanceId (ObjectServer.zeroed id) list) =
        some (ObjectServer.zeroed id) := by
    rw [find_add (ObjectServer.zeroed id) hmissing]
    exact if_pos rfl
  have hbody : ∀ e ∈ data, ∀ target : ServerInstance, target.instanceId = id →
      DoWhile.Decides coap204Changed IsError (fun target => target.instanceId = id)
        (serverAccepts e) (watchServerElement e target) := by
    intro e _ target hid
    refine ⟨(ObjectServer.writeElement e target).1, (ObjectServer.writeElement e target).2,
      WriteTags.watchServerElement_eq e target, ?_, ?_⟩
    · exact (writeElement_instanceId e target).trans hid
    · rcases server_element_settled e target with ⟨hchanged, haccepts⟩ | ⟨herror, _, hnot⟩
      · exact Or.inl ⟨hchanged, haccepts⟩
      · exact Or.inr ⟨herror, hnot⟩
  have hzeroed : (ObjectServer.zeroed id).instanceId = id := rfl
  have hchanged : ¬ IsError coap204Changed := by decide
  obtain ⟨result, target', hrun, hinstance, hdecided⟩ : DoWhile.Decides coap204Changed IsError
      (fun target => target.instanceId = id) (∀ e ∈ data, serverAccepts e)
      (DoWhile.run coap204Changed .memory watchServerElement data (ObjectServer.zeroed id)) :=
    DoWhile.run_decides hchanged hbody hdata hzeroed
  have hinstance : target'.instanceId = (ObjectServer.zeroed id).instanceId := hinstance
  rw [WriteTags.watchServerLoop_eq, access_eq_ok_iff] at hrun
  have hwrite : prvServerWrite id data
      (lwm2mListAdd ServerInstance.instanceId (ObjectServer.zeroed id) list) =
      some (result, replaceFound ServerInstance.instanceId id target'
        (lwm2mListAdd ServerInstance.instanceId (ObjectServer.zeroed id) list)) := by
    simp only [prvServerWrite, hfind, hrun]
    rfl
  have hremove : lwm2mListRemove ServerInstance.instanceId id
      (replaceFound ServerInstance.instanceId id target'
        (lwm2mListAdd ServerInstance.instanceId (ObjectServer.zeroed id) list)) =
      (list, some target') := remove_replaceFound_add hmissing hinstance
  have hinserted : Inserted ServerInstance.instanceId id list
      (replaceFound ServerInstance.instanceId id target'
        (lwm2mListAdd ServerInstance.instanceId (ObjectServer.zeroed id) list)) :=
    inserted_of_add hs fresh hinstance
  rcases hdecided with ⟨rfl, hall⟩ | ⟨herror, hnot⟩
  · refine Or.inl ⟨hall, _, ?_, hinserted, hinserted.sorted hs⟩
    simp only [prvServerCreate, if_true, hwrite, Option.bind_eq_bind, Option.bind_some]
    rfl
  · have hstop : result ≠ coap204Changed := by
      rintro rfl
      exact hchanged herror
    refine Or.inr ⟨hnot, result, herror, ?_⟩
    simp only [prvServerCreate, if_true, hwrite, Option.bind_eq_bind, Option.bind_some,
      if_neg hstop, WriteTags.prvServerDelete_list, hremove]
    rfl

end ServerCreate

section SecurityCreate
open ObjectSecurity
open Ownership (Owned block)
variable {before m : Memory} {i : SecurityInstance}

/-- The blocks that are there before the call, each with a slot of its own. -/
def standing (before : Memory) (p : Nat) : Option Nat := if p ∈ before.live then some p else none

/-- Every block of before has the contents of before. -/
def Kept (before m : Memory) : Prop := ∀ p ∈ before.live, m.get? p = before.get? p

/-- What a new instance points to are blocks of its own, apart from those of before. -/
structure Beside (before m : Memory) (i : SecurityInstance) : Prop where
  own : Owned m (Sum.elim i.pointer (standing before))
  kept : Kept before m

theorem block_standing {p : Nat} (hp : p ∈ before.live) (m : Memory) :
    block m (standing before p) = m.get? p := by
  rw [standing, if_pos hp]
  rfl

theorem beside_zeroed (before : Memory) (id : Nat) :
    Beside before before (ObjectSecurity.zeroed id) where
  own := by
    have hnull : ∀ f, (ObjectSecurity.zeroed id).pointer f = none := by
      intro f
      rcases f with _ | _ | _ | _ <;> rfl
    have hslot : ∀ slot p, Sum.elim (ObjectSecurity.zeroed id).pointer (standing before) slot =
        some p → slot = Sum.inr p ∧ p ∈ before.live := by
      intro slot p hp
      cases slot with
      | inl f =>
        rw [Sum.elim_inl, hnull] at hp
        cases hp
      | inr q =>
        rw [Sum.elim_inr, standing] at hp
        split at hp
        · rename_i hq
          cases hp
          exact ⟨rfl, hq⟩
        · cases hp
    constructor
    · exact fun slot p hp => (hslot slot p hp).2
    · intro slot other p hp hq
      rw [(hslot slot p hp).1, (hslot other p hq).1]
  kept _ _ := rfl

/-- A block that is written for the new instance. -/
theorem Beside.writeField {e : Element} (h : Beside before m i) (hbytes : HasBytes e)
    (f : Option Key) :
    ∃ m' i', ObjectSecurity.writeField e true m i f = .ok (coap204Changed, m', i') ∧
      i'.instanceId = i.instanceId ∧ Beside before m' i' := by
  obtain ⟨buffer, hbuffer⟩ := WriteTags.hasBytes_iff.mp hbytes
  obtain ⟨content, put, hwrite, hpointer, hinstance⟩ := WriteTags.writeField_eq e true m i f
  have hroom : content buffer ≠ none → true = true := fun _ => rfl
  obtain ⟨new, m', hreplace, hown, _, hframe⟩ := replaceBlock_spec h.own (Sum.inl f) true hroom
  rw [Sum.elim_inl] at hreplace
  refine ⟨m', put buffer new, ?_, hinstance buffer new, ?_, ?_⟩
  · rw [hwrite, writeBlock_eq hbuffer hreplace, ok_bind]
  · rw [hpointer, ← Sum.update_elim_inl]
    exact hown
  · intro p hp
    have hsame := hframe (Sum.inr p) (by simp)
    rw [Sum.elim_inr, block_standing hp, block_standing hp] at hsame
    rw [hsame, h.kept p hp]

/-- One element, with room for it. -/
theorem Beside.writeElement (h : Beside before m i) (e : Element)
    (hbytes : fieldOf e.id ≠ none → HasBytes e) :
    ∃ code m' i', ObjectSecurity.writeElement e true m i = .ok (code, m', i') ∧
      i'.instanceId = i.instanceId ∧ Beside before m' i' ∧
      (code = coap204Changed ∧ accepts e = true ∨ IsError code ∧ ¬ accepts e = true) := by
  cases hfield : fieldOf e.id with
  | none =>
    obtain ⟨code, i', hwrite, hcode, haccepts, hframed⟩ := writeElement_other true m i hfield
    have hpointer : i'.pointer = i.pointer := funext hframed.pointer
    refine ⟨code, m, i', hwrite, hframed.instanceId, ⟨hpointer ▸ h.own, h.kept⟩, ?_⟩
    rw [accepts_other hfield, ← haccepts]
    simp only [writeCodes, List.mem_cons, List.not_mem_nil, or_false] at hcode
    rcases hcode with rfl | rfl | rfl
    · exact Or.inl ⟨rfl, rfl⟩
    · exact Or.inr ⟨by decide, by decide⟩
    · exact Or.inr ⟨by decide, by decide⟩
  | some f =>
    obtain ⟨m', i', hwrite, hinstance, hbeside⟩ :=
      h.writeField (hbytes (by simp [hfield])) f
    refine ⟨coap204Changed, m', i', ?_, hinstance, hbeside, Or.inl ⟨rfl, ?_⟩⟩
    · rw [writeElement_field (eq_fieldId hfield)]
      exact hwrite
    · simp [accepts, hfield]

/-- The loop of the write to a new instance. -/
theorem security_loop_decided (before : Memory) (id : Nat) {data : List Element}
    (hdata : data ≠ []) (hbytes : ∀ e ∈ data, fieldOf e.id ≠ none → HasBytes e) :
    ∃ code m' i', ObjectSecurity.writeLoop (data.map fun e => (e, true)) before
        (ObjectSecurity.zeroed id) = .ok (code, m', i') ∧
      i'.instanceId = id ∧ Beside before m' i' ∧
      (code = coap204Changed ∧ (∀ e ∈ data, accepts e = true) ∨
        IsError code ∧ ¬ ∀ e ∈ data, accepts e = true) := by
  have hbody : ∀ d ∈ data.map fun e => (e, true), ∀ s : Memory × SecurityInstance,
      s.2.instanceId = id ∧ Beside before s.1 s.2 →
      DoWhile.Decides coap204Changed IsError (fun s => s.2.instanceId = id ∧ Beside before s.1 s.2)
        (accepts d.1 = true) (ObjectSecurity.writeElement d.1 d.2 s.1 s.2) := by
    intro d hd s ⟨hid, hbeside⟩
    obtain ⟨e, he, rfl⟩ := List.mem_map.mp hd
    obtain ⟨code, m', i', hwrite, hinstance, hkeeps, hdecided⟩ :=
      hbeside.writeElement e (hbytes e he)
    exact ⟨code, (m', i'), hwrite, ⟨hinstance.trans hid, hkeeps⟩, hdecided⟩
  have hzeroed : (ObjectSecurity.zeroed id).instanceId = id ∧
      Beside before before (ObjectSecurity.zeroed id) := ⟨rfl, beside_zeroed before id⟩
  obtain ⟨code, t, hrun, ⟨hinstance, hbeside⟩, hdecided⟩ :
      DoWhile.Decides coap204Changed IsError
        (fun s : Memory × SecurityInstance => s.2.instanceId = id ∧ Beside before s.1 s.2)
        (∀ d ∈ data.map fun e => (e, true), accepts d.1 = true)
        (DoWhile.run coap204Changed .memory
          (fun d s => ObjectSecurity.writeElement d.1 d.2 s.1 s.2) (data.map fun e => (e, true))
          (before, ObjectSecurity.zeroed id)) :=
    DoWhile.run_decides (by decide) hbody (by simpa using hdata) hzeroed
  rw [List.forall_mem_map] at hdecided
  rw [← WriteTags.securityLoop_eq] at hrun
  exact ⟨code, t.1, t.2, hrun, hinstance, hbeside, hdecided⟩

/-- The URI is all that is released when the instance goes again. -/
theorem Beside.release (h : Beside before m i) :
    ∃ m', Ownership.release i.uri m = some m' ∧ Kept before m' := by
  obtain ⟨m', hrelease, _, hframe⟩ := h.own.release (Sum.inl none)
  refine ⟨m', hrelease, ?_⟩
  intro p hp
  have hsame := hframe (Sum.inr p) (by simp)
  rw [Sum.elim_inr, block_standing hp, block_standing hp] at hsame
  rw [hsame, h.kept p hp]

theorem security_create_decided (id : Nat) {data : List Element} (m : Memory)
    {list : ObjectSecurity.InstanceList} (hdata : data ≠ [])
    (hbytes : ∀ e ∈ data, fieldOf e.id ≠ none → HasBytes e)
    (hs : Sorted SecurityInstance.instanceId list) (fresh : ∀ n ∈ list, n.instanceId ≠ id) :
    CreatedOrUnchanged SecurityInstance.instanceId id (∀ e ∈ data, accepts e = true) list
      fun code list' => ∃ m', prvSecurityCreate true id (data.map fun e => (e, true)) m list =
        .ok (code, m', list') ∧ Kept m m' := by
  have hmissing : lwm2mListFind SecurityInstance.instanceId id list = none := find_eq_none fresh
  have hfind : lwm2mListFind SecurityInstance.instanceId id
      (lwm2mListAdd SecurityInstance.instanceId (ObjectSecurity.zeroed id) list) =
        some (ObjectSecurity.zeroed id) := by
    rw [find_add (ObjectSecurity.zeroed id) hmissing]
    exact if_pos rfl
  obtain ⟨code, m', i', hloop, hinstance, hbeside, hdecided⟩ :=
    security_loop_decided m id hdata hbytes
  have hinstance : i'.instanceId = (ObjectSecurity.zeroed id).instanceId := hinstance
  have hremove : lwm2mListRemove SecurityInstance.instanceId id
      (replaceFound SecurityInstance.instanceId id i'
        (lwm2mListAdd SecurityInstance.instanceId (ObjectSecurity.zeroed id) list)) =
      (list, some i') := remove_replaceFound_add hmissing hinstance
  have hinserted : Inserted SecurityInstance.instanceId id list
      (replaceFound SecurityInstance.instanceId id i'
        (lwm2mListAdd SecurityInstance.instanceId (ObjectSecurity.zeroed id) list)) :=
    inserted_of_add hs fresh hinstance
  have hwrite : prvSecurityWrite id (data.map fun e => (e, true)) m
      (lwm2mListAdd SecurityInstance.instanceId (ObjectSecurity.zeroed id) list) =
      .ok (code, m', replaceFound SecurityInstance.instanceId id i'
        (lwm2mListAdd SecurityInstance.instanceId (ObjectSecurity.zeroed id) list)) := by
    simp only [prvSecurityWrite, hfind, hloop, ok_bind]
  rcases hdecided with ⟨rfl, hall⟩ | ⟨herror, hnot⟩
  · refine Or.inl ⟨hall, _, ⟨m', ?_, hbeside.kept⟩, hinserted, hinserted.sorted hs⟩
    simp only [prvSecurityCreate, if_true, hwrite, ok_bind]
  · have hstop : code ≠ coap204Changed := by
      rintro rfl
      exact absurd herror (by decide)
    obtain ⟨freed, hrelease, hkept⟩ := hbeside.release
    have hdelete : prvSecurityDelete id m' (replaceFound SecurityInstance.instanceId id i'
        (lwm2mListAdd SecurityInstance.instanceId (ObjectSecurity.zeroed id) list)) =
        some (coap202Deleted, freed, list) := by
      simp only [prvSecurityDelete, hremove, hrelease]
      rfl
    refine Or.inr ⟨hnot, code, herror, freed, ?_, hkept⟩
    simp only [prvSecurityCreate, if_true, hwrite, ok_bind, if_neg hstop, hdelete, access_some]

end SecurityCreate

/-- Of a Server or a Security object, in ascending order of ids and without the new one: the
instance is created if and only if each element is accepted, and otherwise the list is the one of
before. No block that the other instances may point to changes. -/
theorem creation_is_atomic (id : Nat) (data : List Element) (hdata : data ≠ []) :
    (∀ list, Sorted ObjectServer.ServerInstance.instanceId list →
      (∀ n ∈ list, n.instanceId ≠ id) →
      CreatedOrUnchanged ObjectServer.ServerInstance.instanceId id (∀ e ∈ data, serverAccepts e)
        list fun code list' =>
          ObjectServer.prvServerCreate true id data list = some (code, list')) ∧
    ((∀ e ∈ data, ObjectSecurity.fieldOf e.id ≠ none → HasBytes e) →
      ∀ m list, Sorted ObjectSecurity.SecurityInstance.instanceId list →
      (∀ n ∈ list, n.instanceId ≠ id) →
      CreatedOrUnchanged ObjectSecurity.SecurityInstance.instanceId id
        (∀ e ∈ data, ObjectSecurity.accepts e = true) list fun code list' =>
          ∃ m', ObjectSecurity.prvSecurityCreate true id (data.map fun e => (e, true)) m list =
            .ok (code, m', list') ∧ Kept m m') :=
  ⟨fun _ hs fresh => server_create_decided id hdata hs fresh,
    fun hbytes m _ hs fresh => security_create_decided id m hdata hbytes hs fresh⟩

/-- A lifetime, which is the security mode for the other object, and a URI between instances with
the ids 0 and 2. -/
theorem instance_created_between :
    CreatedOrUnchanged ObjectServer.ServerInstance.instanceId 1
      (∀ e ∈ [(⟨1, .integer 60⟩ : Element)], serverAccepts e)
      [ObjectServer.zeroed 0, ObjectServer.zeroed 2]
      (fun code list' => ObjectServer.prvServerCreate true 1 [⟨1, .integer 60⟩]
        [ObjectServer.zeroed 0, ObjectServer.zeroed 2] = some (code, list')) ∧
    CreatedOrUnchanged ObjectSecurity.SecurityInstance.instanceId 1
      (∀ e ∈ [(⟨0, .string (CString.ascii "coap://a")⟩ : Element), ⟨2, .integer 3⟩],
        ObjectSecurity.accepts e = true)
      [ObjectSecurity.zeroed 0, ObjectSecurity.zeroed 2]
      (fun code list' => ∃ m', ObjectSecurity.prvSecurityCreate true 1
        ([⟨0, .string (CString.ascii "coap://a")⟩, ⟨2, .integer 3⟩].map fun e => (e, true))
        Heap.empty [ObjectSecurity.zeroed 0, ObjectSecurity.zeroed 2] = .ok (code, m', list') ∧
          Kept Heap.empty m') := by
  constructor
  · apply (creation_is_atomic 1 [⟨1, .integer 60⟩] (by simp)).1
    · exact List.pairwise_cons.mpr ⟨by decide, List.pairwise_singleton _ _⟩
    · decide
  · apply (creation_is_atomic 1 [⟨0, .string (CString.ascii "coap://a")⟩, ⟨2, .integer 3⟩]
      (by simp)).2
    · decide
    · exact List.pairwise_cons.mpr ⟨by decide, List.pairwise_singleton _ _⟩
    · decide

end JsEmbeddedPlatform.RefusedRequests
