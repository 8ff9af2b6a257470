import JsEmbeddedPlatform.ObjectDevice
import JsEmbeddedPlatform.SecurityPointers
import JsEmbeddedPlatform.ServerReads

/-!
# What the type of an element says and what the write handlers use

A resource is chosen by its id, the union member that is read should be chosen by the
type. For each of the four objects that take elements: which arrays make its handlers
read bytes that are none.
-/

set_option autoImplicit false

namespace JsEmbeddedPlatform.WriteTags

open Lwm2mData Lwm2mList
open ObjectFirmware (coap204Changed coap400BadRequest coap404NotFound coap405MethodNotAllowed
  coap406NotAcceptable)

/-! ## What is asked of a handler -/

/-- The classes 4 and 5. -/
def IsError (code : UInt8) : Prop := 0x80 ≤ code

instance (code : UInt8) : Decidable (IsError code) := inferInstanceAs (Decidable (0x80 ≤ code))

section Demands
variable {Item Elem State Object : Type}

/-- For the array `elements`, whatever comes with them and in every state: no member of a union
is read that the type does not name, and an element that needs bytes and has none is refused,
with the state as the elements before it have left it. -/
structure RespectsTags (handle : List Item → State → Except Fault (UInt8 × State))
    (element : Item → Elem) (needsBytes isBytes : Elem → Prop) (elements : List Elem) : Prop where
  member : ∀ data s, data.map element = elements → handle data s ≠ .error .wrongMember
  refused : ∀ before item after s t, (before ++ item :: after).map element = elements →
    needsBytes (element item) → ¬ isBytes (element item) →
    before = [] ∧ t = s ∨ handle before s = .ok (coap204Changed, t) →
    ∃ code, IsError code ∧ handle (before ++ item :: after) s = .ok (code, t)

/-- The same for the creation of an instance, which is undone as a whole. -/
structure CreateRespectsTags (create : List Item → State → Except Fault (UInt8 × State))
    (element : Item → Elem) (needsBytes isBytes : Elem → Prop) (fresh : State → Prop)
    (object : State → Object) (elements : List Elem) : Prop where
  member : ∀ data s, data.map element = elements → create data s ≠ .error .wrongMember
  refused : ∀ before item after s, (before ++ item :: after).map element = elements →
    needsBytes (element item) → ¬ isBytes (element item) → fresh s →
    (before = [] ∨ ∃ t, create before s = .ok (coap201Created, t)) →
    ∃ code t, IsError code ∧ create (before ++ item :: after) s = .ok (code, t) ∧
      object t = object s

/-- No bad element comes behind elements that are all accepted. -/
def Tagged (bad accepts : Elem → Prop) : List Elem → Prop
  | [] => True
  | e :: rest => ¬ bad e ∧ (accepts e → Tagged bad accepts rest)

instance decidableTagged {bad accepts : Elem → Prop} [DecidablePred bad] [DecidablePred accepts]
    (elements : List Elem) : Decidable (Tagged bad accepts elements) :=
  match elements with
  | [] => isTrue trivial
  | e :: rest =>
    have : Decidable (Tagged bad accepts rest) := decidableTagged rest
    inferInstanceAs (Decidable (¬ bad e ∧ (accepts e → Tagged bad accepts rest)))

theorem Tagged.reached {bad accepts : Elem → Prop} {before after : List Elem} {e : Elem}
    (h : Tagged bad accepts (before ++ e :: after)) (haccepts : ∀ d ∈ before, accepts d) :
    ¬ bad e := by
  induction before with
  | nil => exact h.1
  | cons d before ih =>
    apply ih
    · exact h.2 (haccepts d List.mem_cons_self)
    · intro c hc
      exact haccepts c (List.mem_cons_of_mem d hc)

end Demands

/-! ## Loops over elements -/

section Loops
variable {Item Elem State : Type} {body : Item → State → Except Fault (UInt8 × State)}
variable {element : Item → Elem} {bad accepts : Elem → Prop}

/-- One element reads a wrong member only when it is bad, and the loop goes on only when it is
accepted. -/
structure Careful (body : Item → State → Except Fault (UInt8 × State)) (element : Item → Elem)
    (bad accepts : Elem → Prop) : Prop where
  member : ∀ item s, body item s = .error .wrongMember → bad (element item)
  accepted : ∀ item s t, body item s = .ok (coap204Changed, t) → accepts (element item)

theorem Careful.not_bad (h : Careful body element bad accepts) {before after : List Item}
    {item : Item} {s t : State} (hpasses : DoWhile.Passes coap204Changed body before s t)
    (htagged : Tagged bad accepts ((before ++ item :: after).map element)) :
    ¬ bad (element item) := by
  rw [List.map_append, List.map_cons] at htagged
  apply htagged.reached
  intro d hd
  obtain ⟨i, hi, rfl⟩ := List.mem_map.mp hd
  exact hpasses.forall_mem h.accepted i hi

theorem Careful.run (h : Careful body element bad accepts) {data : List Item} (s : State)
    (htagged : Tagged bad accepts (data.map element)) :
    DoWhile.run coap204Changed .memory body data s ≠ .error .wrongMember := by
  intro herror
  obtain ⟨before, item, after, t, rfl, hpasses, hbody⟩ :=
    DoWhile.run_error herror (by decide)
  exact h.not_bad hpasses htagged (h.member item t hbody)

/-- From a good state an element that is accepted leads to a good state, when there is room,
and a bad one to the wrong member. -/
structure Reaching (body : Item → State → Except Fault (UInt8 × State)) (roomy : Elem → Item)
    (bad accepts : Elem → Prop) (good : State → Prop) : Prop where
  passes : ∀ e s, good s → ¬ bad e → accepts e →
    ∃ t, body (roomy e) s = .ok (coap204Changed, t) ∧ good t
  fails : ∀ e s, good s → bad e → body (roomy e) s = .error .wrongMember

theorem Reaching.run {roomy : Elem → Item} {good : State → Prop}
    (h : Reaching body roomy bad accepts good) {elements : List Elem} {s : State} (hs : good s)
    (hnot : ¬ Tagged bad accepts elements) :
    DoWhile.run coap204Changed .memory body (elements.map roomy) s = .error .wrongMember := by
  induction elements generalizing s with
  | nil => exact absurd trivial hnot
  | cons e rest ih =>
    rw [List.map_cons]
    by_cases hbad : bad e
    · exact DoWhile.run_cons_error (h.fails e s hs hbad)
    · have hlater : accepts e ∧ ¬ Tagged bad accepts rest := by
        rw [Tagged] at hnot
        tauto
      obtain ⟨t, hbody, ht⟩ := h.passes e s hs hbad hlater.1
      have hrest : rest.map roomy ≠ [] := by
        intro hnil
        rw [List.map_eq_nil_iff] at hnil
        subst hnil
        exact hlater.2 trivial
      rw [DoWhile.run_cons_ok hbody hrest]
      exact ih ht hlater.2

/-- The loop itself, where it keeps no more than its body. -/
theorem Careful.respects (h : Careful body element bad accepts) {needsBytes isBytes : Elem → Prop}
    (hrefused : ∀ item s, needsBytes (element item) → ¬ isBytes (element item) →
      ¬ bad (element item) → ∃ code, IsError code ∧ body item s = .ok (code, s))
    {elements : List Elem} (htagged : Tagged bad accepts elements) :
    RespectsTags (DoWhile.run coap204Changed .memory body) element needsBytes isBytes elements where
  member data s hdata := by
    subst hdata
    exact h.run s htagged
  refused before item after s t hdata hneeds hbytes hreached := by
    subst hdata
    have hpasses : DoWhile.Passes coap204Changed body before s t := by
      rcases hreached with ⟨rfl, rfl⟩ | hrun
      · exact .nil t
      · exact DoWhile.passes_of_run hrun
    obtain ⟨code, hcode, hbody⟩ :=
      hrefused item t hneeds hbytes (h.not_bad hpasses htagged)
    refine ⟨code, hcode, ?_⟩
    rw [hpasses.run_append (by simp)]
    apply DoWhile.run_cons_stop hbody
    intro hchanged
    subst hchanged
    exact absurd hcode (by decide)

/-- A handler that refuses everything. -/
theorem respects_refusal {needsBytes isBytes : Elem → Prop} {code : UInt8} (hcode : IsError code)
    (elements : List Elem) : RespectsTags
      (fun (_ : List Item) (s : State) => .ok (code, s)) element needsBytes isBytes elements where
  member data s _ herror := by cases herror
  refused before item after s t _ _ _ hreached := by
    rcases hreached with ⟨_, rfl⟩ | hok
    · exact ⟨code, hcode, rfl⟩
    · cases hok
      exact absurd hcode (by decide)

end Loops

theorem bind_ne_wrongMember {α β : Type} {x : Except Fault α} {f : α → Except Fault β}
    (hx : x ≠ .error .wrongMember) (hf : ∀ a, f a ≠ .error .wrongMember) :
    (x >>= f) ≠ .error .wrongMember := by
  cases x with
  | error fault => exact fun herror => hx (by injection herror with hfault; rw [hfault])
  | ok a => exact hf a

theorem access_ne_wrongMember {α : Type} (a : Option α) : access a ≠ .error .wrongMember := by
  cases a <;> simp [access]

theorem readBuffer_ne_wrongMember {v : Value} (h : v.isBytes = true) :
    v.readBuffer ≠ .error .wrongMember := by
  cases v <;> simp_all [Value.readBuffer, Value.asBuffer, Value.isBytes]

/-- An element whose type is string or opaque. -/
def HasBytes (e : Element) : Prop := e.value.isBytes = true

instance (e : Element) : Decidable (HasBytes e) :=
  inferInstanceAs (Decidable (e.value.isBytes = true))

theorem hasBytes_iff {e : Element} : HasBytes e ↔ ∃ buffer, e.value.asBuffer = some buffer := by
  rw [← Option.ne_none_iff_exists', Ne, e.value.asBuffer_eq_none_iff, Bool.not_eq_false]
  rfl

/-! ## The Device object -/

section Device
open ObjectDevice

def deviceNeedsBytes (e : Element) : Prop := e.id = resOUtcOffset

def deviceAccepts (e : Element) : Prop :=
  e.id = resOCurrentTime ∧ lwm2mDataDecodeInt e.value ≠ none ∨
    e.id = resOUtcOffset ∧ ∃ buffer ∈ e.value.asBuffer, prvCheckTimeOffset buffer = true

def DeviceRespects (elements : List Element) : Prop :=
  ∀ instanceId, RespectsTags (prvDeviceWrite instanceId) Prod.fst deviceNeedsBytes HasBytes elements

def deviceBad (e : Element) : Prop := deviceNeedsBytes e ∧ ¬ HasBytes e

instance : DecidablePred deviceBad := fun e =>
  inferInstanceAs (Decidable (e.id = resOUtcOffset ∧ ¬ HasBytes e))

instance : DecidablePred deviceAccepts := fun e =>
  inferInstanceAs (Decidable (e.id = resOCurrentTime ∧ lwm2mDataDecodeInt e.value ≠ none ∨
    e.id = resOUtcOffset ∧ ∃ buffer ∈ e.value.asBuffer, prvCheckTimeOffset buffer = true))

theorem writeUtcOffset_cases (v : Value) (s : DeviceData) :
    (v.isBytes = false ∧ writeUtcOffset v s = .error .wrongMember) ∨
    ∃ buffer, v.asBuffer = some buffer ∧
      ((prvCheckTimeOffset buffer = true ∧ ∃ t, writeUtcOffset v s = .ok (coap204Changed, t)) ∨
        (prvCheckTimeOffset buffer = false ∧ writeUtcOffset v s = .ok (coap400BadRequest, s))) := by
  cases hbuffer : v.asBuffer with
  | none =>
    have hbytes := v.asBuffer_eq_none_iff.mp hbuffer
    refine Or.inl ⟨hbytes, ?_⟩
    rw [writeUtcOffset, readBuffer_error hbytes]
    rfl
  | some buffer =>
    refine Or.inr ⟨buffer, rfl, ?_⟩
    simp only [writeUtcOffset, readBuffer_some hbuffer, ok_bind]
    by_cases hcheck : prvCheckTimeOffset buffer = true
    · refine Or.inl ⟨hcheck, ?_⟩
      rw [dif_pos hcheck]
      exact ⟨_, rfl⟩
    · refine Or.inr ⟨Bool.eq_false_iff.mpr hcheck, ?_⟩
      rw [dif_neg hcheck]

theorem writeElement_offset {e : Element} (now : Int) (s : DeviceData)
    (hid : e.id = resOUtcOffset) :
    ObjectDevice.writeElement (e, now) s = writeUtcOffset e.value s := by
  have hother : ¬ e.id = resOCurrentTime := by
    rw [hid]
    decide
  rw [ObjectDevice.writeElement, if_neg hother, if_pos hid]

theorem device_careful :
    Careful ObjectDevice.writeElement Prod.fst deviceBad deviceAccepts where
  member d s h := by
    unfold ObjectDevice.writeElement at h
    split at h
    · cases h
    split at h
    · rename_i hid
      refine ⟨hid, ?_⟩
      rcases writeUtcOffset_cases d.1.value s with ⟨hbytes, _⟩ | ⟨_, _, ⟨_, t, hok⟩ | ⟨_, hok⟩⟩
      · unfold HasBytes
        rw [hbytes]
        exact Bool.false_ne_true
      · cases hok.symm.trans h
      · cases hok.symm.trans h
    split at h <;> cases h
  accepted d s t h := by
    unfold ObjectDevice.writeElement at h
    split at h
    · rename_i hid
      refine Or.inl ⟨hid, ?_⟩
      intro hnone
      rw [writeCurrentTime, hnone] at h
      cases h
    split at h
    · rename_i hid
      refine Or.inr ⟨hid, ?_⟩
      rcases writeUtcOffset_cases d.1.value s with
        ⟨_, herror⟩ | ⟨buffer, hbuffer, ⟨hcheck, _⟩ | ⟨_, hok⟩⟩
      · cases herror.symm.trans h
      · exact ⟨buffer, hbuffer, hcheck⟩
      · cases hok.symm.trans h
    split at h <;> cases h

theorem device_reaching : Reaching ObjectDevice.writeElement (fun e => (e, 0)) deviceBad
    deviceAccepts (fun _ => True) where
  passes e s _ _ haccepts := by
    rcases haccepts with ⟨hid, hint⟩ | ⟨hid, buffer, hbuffer, hcheck⟩
    · obtain ⟨value, hvalue⟩ := Option.ne_none_iff_exists'.mp hint
      simp only [ObjectDevice.writeElement, hid, if_true, writeCurrentTime, hvalue]
      exact ⟨_, rfl, trivial⟩
    · rw [writeElement_offset 0 s hid]
      rcases writeUtcOffset_cases e.value s with
        ⟨hbytes, _⟩ | ⟨bytes, hbytes, ⟨_, t, hok⟩ | ⟨hno, _⟩⟩
      · rw [← e.value.asBuffer_eq_none_iff, hbuffer] at hbytes
        cases hbytes
      · exact ⟨t, hok, trivial⟩
      · cases hbuffer.symm.trans hbytes
        rw [hcheck] at hno
        cases hno
  fails e s _ hbad := by
    obtain ⟨hid, hbytes⟩ := hbad
    rw [writeElement_offset 0 s hid, writeUtcOffset, readBuffer_error (Bool.eq_false_iff.mpr hbytes)]
    rfl

theorem device_respects_iff (elements : List Element) :
    DeviceRespects elements ↔ Tagged deviceBad deviceAccepts elements := by
  constructor
  · intro h
    by_contra hnot
    exact (h 0).member (elements.map fun e => (e, 0)) getObjectDevice
      (by simp [Function.comp_def]) (device_reaching.run trivial hnot)
  · intro htagged instanceId
    by_cases hid : instanceId = 0
    · have hwrite : prvDeviceWrite instanceId =
          DoWhile.run coap204Changed .memory ObjectDevice.writeElement := by
        funext data s
        exact if_neg (not_not.mpr hid)
      rw [hwrite]
      exact device_careful.respects
        (fun d s hneeds hbytes hnot => absurd ⟨hneeds, hbytes⟩ hnot) htagged
    · have hwrite : prvDeviceWrite instanceId = fun _ s => .ok (coap404NotFound, s) := by
        funext data s
        exact if_pos hid
      rw [hwrite]
      exact respects_refusal (by decide) elements

end Device

/-! ## The Security object -/

section Security
open ObjectSecurity
open Ownership (Owned)

def securityNeedsBytes (e : Element) : Prop := fieldOf e.id ≠ none

def securityBad (e : Element) : Prop := securityNeedsBytes e ∧ ¬ HasBytes e

def securityAccepts (e : Element) : Prop := ObjectSecurity.accepts e = true

instance : DecidablePred securityBad := fun e =>
  inferInstanceAs (Decidable (fieldOf e.id ≠ none ∧ ¬ HasBytes e))

instance : DecidablePred securityAccepts := fun e =>
  inferInstanceAs (Decidable (ObjectSecurity.accepts e = true))

def SecurityRespects (elements : List Element) : Prop :=
  (∀ instanceId, RespectsTags (fun data s => prvSecurityWrite instanceId data s.1 s.2) Prod.fst
    securityNeedsBytes HasBytes elements) ∧
  ∀ allocated instanceId, CreateRespectsTags
    (fun data s => prvSecurityCreate allocated instanceId data s.1 s.2) Prod.fst
    securityNeedsBytes HasBytes
    (fun s => lwm2mListFind SecurityInstance.instanceId instanceId s.2 = none) Prod.snd elements

/-! ### One element -/

theorem writeBlock_ne_wrongMember {v : Value} (hbytes : v.isBytes = true) (room : Bool)
    (old : Option Nat) (content : List UInt8 → Option (List UInt8)) (m : Memory) :
    writeBlock room v old content m ≠ .error .wrongMember := by
  apply bind_ne_wrongMember (access_ne_wrongMember _)
  intro freed
  apply bind_ne_wrongMember (readBuffer_ne_wrongMember hbytes)
  intro buffer
  apply bind_ne_wrongMember (access_ne_wrongMember _)
  intro placed
  simp

theorem pointer_setKey_eq (i : SecurityInstance) (key : Key) (new : Option Nat) (len : UInt16) :
    (i.setKey key new len).pointer = Function.update i.pointer (some key) new := by
  funext f
  rw [pointer_setKey, Function.update_apply]

/-- Each of the four goes through one block and changes one pointer. -/
theorem writeField_eq (e : Element) (room : Bool) (m : Memory) (i : SecurityInstance)
    (f : Option Key) :
    ∃ (content : List UInt8 → Option (List UInt8))
      (put : List UInt8 → Option Nat → SecurityInstance),
      writeField e room m i f = (do
        let (buffer, new, m) ← writeBlock room e.value (i.pointer f) content m
        .ok (coap204Changed, m, put buffer new)) ∧
      (∀ buffer new, (put buffer new).pointer = Function.update i.pointer f new) ∧
      ∀ buffer new, (put buffer new).instanceId = i.instanceId := by
  cases f with
  | none =>
    refine ⟨_, fun _ new => { i with uri := new }, rfl, ?_, fun _ _ => rfl⟩
    intro buffer new
    funext g
    cases g with
    | none => rfl
    | some key => cases key <;> rfl
  | some key =>
    cases key with
    | serverPublicKey =>
      exact ⟨_, fun buffer new =>
        i.setKey .serverPublicKey new (UInt16.ofNat buffer.length), rfl,
        fun buffer new => pointer_setKey_eq i _ new _, fun _ _ => rfl⟩
    | publicIdentity =>
      refine ⟨fun buffer => if buffer.length ≠ 0 then some (buffer ++ [0]) else none,
        fun buffer new => i.setKey .publicIdentity new
          (if buffer.length ≠ 0 then UInt16.ofNat buffer.length else i.publicIdLen), ?_,
        fun buffer new => pointer_setKey_eq i _ new _, fun _ _ => rfl⟩
      have hkey : i.pointer (some .publicIdentity) = i.publicIdentity := rfl
      rw [writeField, writeKey, hkey]
      cases writeBlock room e.value i.publicIdentity _ m <;> rfl
    | secretKey =>
      refine ⟨fun buffer => if buffer.length ≠ 0 then some (buffer ++ [0]) else none,
        fun buffer new => i.setKey .secretKey new
          (if buffer.length ≠ 0 then UInt16.ofNat buffer.length else i.secretKeyLen), ?_,
        fun buffer new => pointer_setKey_eq i _ new _, fun _ _ => rfl⟩
      have hkey : i.pointer (some .secretKey) = i.secretKey := rfl
      rw [writeField, writeKey, hkey]
      cases writeBlock room e.value i.secretKey _ m <;> rfl

section Owners
variable {m : Memory} {i : SecurityInstance} {e : Element}

theorem writeField_ne_wrongMember (hbytes : HasBytes e) (room : Bool) (m : Memory)
    (i : SecurityInstance) (f : Option Key) :
    writeField e room m i f ≠ .error .wrongMember := by
  obtain ⟨content, put, hwrite, _⟩ := writeField_eq e room m i f
  rw [hwrite]
  apply bind_ne_wrongMember (writeBlock_ne_wrongMember hbytes _ _ _ _)
  intro written
  simp

/-- With room and bytes a field is written, and no block gets a second owner. -/
theorem writeField_owned (own : Owned m i.pointer) (hbytes : HasBytes e) (f : Option Key) :
    ∃ m' i', writeField e true m i f = .ok (coap204Changed, m', i') ∧ Owned m' i'.pointer := by
  obtain ⟨buffer, hbuffer⟩ := hasBytes_iff.mp hbytes
  obtain ⟨content, put, hwrite, hpointer, _⟩ := writeField_eq e true m i f
  obtain ⟨new, m', hreplace, hown, _⟩ := replaceBlock_spec own f true fun _ => rfl
  refine ⟨m', put buffer new, ?_, ?_⟩
  · rw [hwrite, writeBlock_eq hbuffer hreplace, ok_bind]
  · rw [hpointer]
    exact hown

theorem writeField_error (own : Owned m i.pointer) (hbytes : ¬ HasBytes e) (room : Bool)
    (f : Option Key) : writeField e room m i f = .error .wrongMember := by
  obtain ⟨content, put, hwrite, _⟩ := writeField_eq e room m i f
  obtain ⟨freed, hrelease, _⟩ := own.release f
  rw [hwrite, writeBlock, hrelease, access_some, ok_bind,
    readBuffer_error (Bool.eq_false_iff.mpr hbytes)]
  rfl

/-- One element, with room for it. -/
theorem security_reaching : Reaching (fun d s => ObjectSecurity.writeElement d.1 d.2 s.1 s.2)
    (fun e => (e, true)) securityBad securityAccepts
    (fun s : Memory × SecurityInstance => Owned s.1 s.2.pointer) where
  passes e s own hnot haccepts := by
    cases hfield : fieldOf e.id with
    | none =>
      obtain ⟨code, i', hwrite, _, hcode, hframed⟩ := writeElement_other true s.1 s.2 hfield
      have hother : acceptsOther e = true := accepts_other hfield ▸ haccepts
      rw [hcode.mpr hother] at hwrite
      refine ⟨(s.1, i'), hwrite, ?_⟩
      have hpointer : i'.pointer = s.2.pointer := funext hframed.pointer
      rw [hpointer]
      exact own
    | some f =>
      have hbytes : HasBytes e := by
        by_contra hno
        exact hnot ⟨by simp [securityNeedsBytes, hfield], hno⟩
      obtain ⟨m', i', hwrite, hown⟩ := writeField_owned own hbytes f
      refine ⟨(m', i'), ?_, hown⟩
      rw [writeElement_field (eq_fieldId hfield)]
      exact hwrite
  fails e s own hbad := by
    obtain ⟨f, hfield⟩ := Option.ne_none_iff_exists'.mp hbad.1
    rw [writeElement_field (eq_fieldId hfield)]
    exact writeField_error own hbad.2 true f

end Owners

theorem security_careful :
    Careful (fun d s => ObjectSecurity.writeElement d.1 d.2 s.1 s.2) Prod.fst securityBad
      securityAccepts where
  member d s h := by
    cases hfield : fieldOf d.1.id with
    | none =>
      obtain ⟨code, i', hwrite, _⟩ := writeElement_other d.2 s.1 s.2 hfield
      cases hwrite.symm.trans h
    | some f =>
      refine ⟨by simp [securityNeedsBytes, hfield], ?_⟩
      intro hbytes
      rw [writeElement_field (eq_fieldId hfield)] at h
      exact writeField_ne_wrongMember hbytes d.2 s.1 s.2 f h
  accepted d s t h := by
    unfold securityAccepts
    cases hfield : fieldOf d.1.id with
    | none =>
      obtain ⟨code, i', hwrite, _, hcode, _⟩ := writeElement_other d.2 s.1 s.2 hfield
      rw [accepts_other hfield]
      apply hcode.mp
      rw [hwrite] at h
      cases h
      rfl
    | some f => simp [ObjectSecurity.accepts, hfield]

/-! ### The calls -/

theorem securityLoop_eq (data : List (Element × Bool)) (m : Memory) (i : SecurityInstance) :
    ObjectSecurity.writeLoop data m i =
      DoWhile.run coap204Changed .memory
        (fun d s => ObjectSecurity.writeElement d.1 d.2 s.1 s.2) data (m, i) := by
  induction data generalizing m i with
  | nil => rfl
  | cons d rest ih =>
    obtain ⟨e, room⟩ := d
    cases rest with
    | nil => rfl
    | cons next rest =>
      rw [ObjectSecurity.writeLoop, DoWhile.run]
      cases ObjectSecurity.writeElement e room m i with
      | error fault => rfl
      | ok r =>
        obtain ⟨result, m', i'⟩ := r
        rw [ok_bind]
        simp only [ih]

theorem security_write_member {data : List (Element × Bool)}
    (htagged : Tagged securityBad securityAccepts (data.map Prod.fst)) (id : Nat) (m : Memory)
    (list : ObjectSecurity.InstanceList) :
    prvSecurityWrite id data m list ≠ .error .wrongMember := by
  unfold prvSecurityWrite
  cases lwm2mListFind SecurityInstance.instanceId id list with
  | none => simp
  | some target =>
    apply bind_ne_wrongMember
    · rw [securityLoop_eq]
      exact security_careful.run (m, target) htagged
    · intro written
      simp

/-- The result of a write is that of the loop over its elements, if there is an instance. -/
theorem security_write_cases {data : List (Element × Bool)} {id : Nat} {m : Memory}
    {list : ObjectSecurity.InstanceList} {code : UInt8}
    {t : Memory × ObjectSecurity.InstanceList}
    (h : prvSecurityWrite id data m list = .ok (code, t)) :
    code = coap404NotFound ∨ ∃ target written, DoWhile.run coap204Changed .memory
      (fun d s => ObjectSecurity.writeElement d.1 d.2 s.1 s.2) data (m, target) =
        .ok (code, written) := by
  unfold prvSecurityWrite at h
  cases hfind : lwm2mListFind SecurityInstance.instanceId id list with
  | none =>
    rw [hfind] at h
    cases h
    exact Or.inl rfl
  | some target =>
    simp only [hfind, securityLoop_eq] at h
    cases hrun : DoWhile.run coap204Changed .memory
        (fun d s => ObjectSecurity.writeElement d.1 d.2 s.1 s.2) data (m, target) with
    | error fault =>
      rw [hrun] at h
      cases h
    | ok r =>
      obtain ⟨result, written⟩ := r
      rw [hrun] at h
      cases h
      exact Or.inr ⟨target, written, hrun⟩

/-- A write that is accepted has accepted each of its elements. -/
theorem security_accepted {data : List (Element × Bool)} {id : Nat} {m : Memory}
    {list : ObjectSecurity.InstanceList} {t : Memory × ObjectSecurity.InstanceList}
    (h : prvSecurityWrite id data m list = .ok (coap204Changed, t)) :
    ∀ d ∈ data, securityAccepts d.1 := by
  rcases security_write_cases h with hcode | ⟨_, _, hrun⟩
  · exact absurd hcode (by decide)
  · exact (DoWhile.passes_of_run hrun).forall_mem security_careful.accepted

theorem security_write_respects {elements : List Element}
    (htagged : Tagged securityBad securityAccepts elements) (id : Nat) :
    RespectsTags (fun data s => prvSecurityWrite id data s.1 s.2) Prod.fst securityNeedsBytes
      HasBytes elements where
  member data s hdata := by
    subst hdata
    exact security_write_member htagged id s.1 s.2
  refused before d after s t hdata hneeds hbytes hreached := by
    subst hdata
    rw [List.map_append, List.map_cons] at htagged
    refine absurd ⟨hneeds, hbytes⟩ (htagged.reached ?_)
    intro e he
    obtain ⟨c, hc, rfl⟩ := List.mem_map.mp he
    rcases hreached with ⟨rfl, _⟩ | hwrite
    · cases hc
    · exact security_accepted hwrite c hc

theorem security_element_code {e : Element} {room : Bool} {m : Memory} {i : SecurityInstance}
    {code : UInt8} {t : Memory × SecurityInstance}
    (h : ObjectSecurity.writeElement e room m i = .ok (code, t)) :
    code ∈ ObjectSecurity.writeCodes := by
  cases hfield : fieldOf e.id with
  | none =>
    obtain ⟨code, i', hwrite, hcode, _⟩ := writeElement_other room m i hfield
    cases hwrite.symm.trans h
    exact hcode
  | some f =>
    obtain ⟨content, put, hwrite, _⟩ := writeField_eq e room m i f
    rw [writeElement_field (eq_fieldId hfield), hwrite] at h
    cases hblock : writeBlock room e.value (i.pointer f) content m with
    | error fault =>
      rw [hblock] at h
      cases h
    | ok written =>
      rw [hblock] at h
      cases h
      exact List.mem_cons_self

theorem security_write_code {data : List (Element × Bool)} {id : Nat} {m : Memory}
    {list : ObjectSecurity.InstanceList} {code : UInt8}
    {t : Memory × ObjectSecurity.InstanceList}
    (h : prvSecurityWrite id data m list = .ok (code, t)) : code ≠ coap201Created := by
  rintro rfl
  rcases security_write_cases h with hcode | ⟨_, _, hrun⟩
  · exact absurd hcode (by decide)
  · obtain ⟨d, _, s, hbody⟩ := DoWhile.run_result hrun
    exact absurd (security_element_code hbody) (by decide)

/-- An instance is created only when the write to it succeeds. -/
theorem security_created {allocated : Bool} {id : Nat} {data : List (Element × Bool)} {m : Memory}
    {list : ObjectSecurity.InstanceList} {t : Memory × ObjectSecurity.InstanceList}
    (h : prvSecurityCreate allocated id data m list = .ok (coap201Created, t)) :
    ∀ d ∈ data, securityAccepts d.1 := by
  unfold prvSecurityCreate at h
  cases allocated with
  | false => cases h
  | true =>
    simp only [if_true] at h
    cases hwrite : prvSecurityWrite id data m
        (lwm2mListAdd SecurityInstance.instanceId (ObjectSecurity.zeroed id) list) with
    | error fault =>
      rw [hwrite] at h
      cases h
    | ok r =>
      obtain ⟨result, m', list'⟩ := r
      rw [hwrite, ok_bind] at h
      simp only at h
      by_cases hresult : result = coap204Changed
      · subst hresult
        exact security_accepted hwrite
      · rw [if_neg hresult] at h
        cases hdelete : prvSecurityDelete id m' list' with
        | none =>
          rw [hdelete] at h
          cases h
        | some deleted =>
          rw [hdelete, access_some, ok_bind] at h
          cases h
          exact absurd rfl (security_write_code hwrite)

theorem security_create_respects {elements : List Element}
    (htagged : Tagged securityBad securityAccepts elements) (allocated : Bool) (id : Nat) :
    CreateRespectsTags (fun data s => prvSecurityCreate allocated id data s.1 s.2) Prod.fst
      securityNeedsBytes HasBytes
      (fun s => lwm2mListFind SecurityInstance.instanceId id s.2 = none) Prod.snd elements where
  member data s hdata := by
    subst hdata
    unfold prvSecurityCreate
    split
    · apply bind_ne_wrongMember (security_write_member htagged id _ _)
      intro written
      obtain ⟨result, m', list'⟩ := written
      by_cases hresult : result = coap204Changed
      · simp [hresult]
      · simp only [if_neg hresult]
        apply bind_ne_wrongMember (access_ne_wrongMember _)
        intro deleted
        simp
    · simp
  refused before d after s hdata hneeds hbytes _ hreached := by
    subst hdata
    rw [List.map_append, List.map_cons] at htagged
    refine absurd ⟨hneeds, hbytes⟩ (htagged.reached ?_)
    intro e he
    obtain ⟨c, hc, rfl⟩ := List.mem_map.mp he
    rcases hreached with rfl | ⟨t, hcreate⟩
    · cases hc
    · exact security_created hcreate c hc

theorem security_respects_iff (elements : List Element) :
    SecurityRespects elements ↔ Tagged securityBad securityAccepts elements := by
  constructor
  · intro h
    by_contra hnot
    have howned : Owned (Heap.empty : Memory) (ObjectSecurity.zeroed 0).pointer := by
      have hpointer : (ObjectSecurity.zeroed 0).pointer = fun _ => none := by
        funext g
        rcases g with _ | _ | _ | _ <;> rfl
      rw [hpointer]
      exact Ownership.owned_empty
    have hrun := security_reaching.run (s := (Heap.empty, ObjectSecurity.zeroed 0)) howned hnot
    apply (h.1 0).member (elements.map fun e => (e, true)) (Heap.empty, [ObjectSecurity.zeroed 0])
    · simp [Function.comp_def]
    · have hfind : lwm2mListFind SecurityInstance.instanceId 0 [ObjectSecurity.zeroed 0] =
          some (ObjectSecurity.zeroed 0) := rfl
      simp only [prvSecurityWrite, hfind, securityLoop_eq, hrun]
      rfl
  · intro htagged
    exact ⟨security_write_respects htagged, security_create_respects htagged⟩

/-- The key with another type is not reached. -/
example : Tagged securityBad securityAccepts [⟨1, .integer 2⟩, ⟨3, .integer 5⟩] := by decide

end Security

/-! ## The Server object -/

section Server
open ObjectServer

/-- `prv_server_write` for one element: the bytes of a binding are read behind the test of the
type. -/
def watchServerElement (e : Element) (target : ServerInstance) :
    Except Fault (UInt8 × ServerInstance) :=
  if e.id = lwm2mServerBindingId then
    if HasBytes e then do
      let buffer ← e.value.readBuffer
      .ok (storeBinding buffer target)
    else .ok (coap400BadRequest, target)
  else .ok (ObjectServer.writeElement e target)

def watchServerWrite (instanceId : Nat) (data : List Element) (list : ObjectServer.InstanceList) :
    Except Fault (UInt8 × ObjectServer.InstanceList) :=
  match lwm2mListFind ServerInstance.instanceId instanceId list with
  | none => .ok (coap404NotFound, list)
  | some target => do
    let (result, target) ← DoWhile.run coap204Changed .memory watchServerElement data target
    .ok (result, replaceFound ServerInstance.instanceId instanceId target list)

def watchServerCreate (allocated : Bool) (instanceId : Nat) (data : List Element)
    (list : ObjectServer.InstanceList) : Except Fault (UInt8 × ObjectServer.InstanceList) :=
  if allocated then do
    let list := lwm2mListAdd ServerInstance.instanceId (ObjectServer.zeroed instanceId) list
    let (result, list) ← watchServerWrite instanceId data list
    if result = coap204Changed then .ok (coap201Created, list)
    else .ok (result, (prvServerDelete instanceId list).2)
  else .ok (coap500InternalServerError, list)

theorem writeElement_binding {e : Element} (hid : e.id = lwm2mServerBindingId)
    (target : ServerInstance) : ObjectServer.writeElement e target = writeBinding e.value target := by
  unfold ObjectServer.writeElement
  rw [hid]
  rfl

/-- No wrong member is read, and the result is the one of the handler. -/
theorem watchServerElement_eq (e : Element) (target : ServerInstance) :
    watchServerElement e target = .ok (ObjectServer.writeElement e target) := by
  unfold watchServerElement
  by_cases hid : e.id = lwm2mServerBindingId
  · rw [if_pos hid, writeElement_binding hid, writeBinding]
    by_cases hbytes : HasBytes e
    · rw [if_pos hbytes]
      obtain ⟨buffer, hbuffer⟩ := hasBytes_iff.mp hbytes
      rw [readBuffer_some hbuffer, ok_bind, hbuffer]
    · rw [if_neg hbytes, (e.value.asBuffer_eq_none_iff).mpr (Bool.eq_false_iff.mpr hbytes)]
  · rw [if_neg hid]

theorem watchServerLoop_eq (data : List Element) (target : ServerInstance) :
    DoWhile.run coap204Changed .memory watchServerElement data target =
      access (ObjectServer.writeLoop data target) := by
  induction data generalizing target with
  | nil => rfl
  | cons e rest ih =>
    cases rest with
    | nil => exact watchServerElement_eq e target
    | cons next rest =>
      have hbody := watchServerElement_eq e target
      rw [ObjectServer.writeLoop]
      cases hwrite : ObjectServer.writeElement e target with
      | mk result middle =>
        rw [hwrite] at hbody
        simp only
        by_cases hresult : result = coap204Changed
        · subst hresult
          rw [DoWhile.run_cons_ok hbody (by simp), if_pos rfl, ih]
        · rw [DoWhile.run_cons_stop hbody hresult, if_neg hresult]
          rfl

theorem watchServerWrite_eq (instanceId : Nat) (data : List Element)
    (list : ObjectServer.InstanceList) :
    watchServerWrite instanceId data list = access (prvServerWrite instanceId data list) := by
  unfold watchServerWrite prvServerWrite
  cases lwm2mListFind ServerInstance.instanceId instanceId list with
  | none => rfl
  | some target =>
    simp only [watchServerLoop_eq]
    cases ObjectServer.writeLoop data target <;> rfl

theorem watchServerCreate_eq (allocated : Bool) (instanceId : Nat) (data : List Element)
    (list : ObjectServer.InstanceList) : watchServerCreate allocated instanceId data list =
      access (prvServerCreate allocated instanceId data list) := by
  unfold watchServerCreate prvServerCreate
  cases allocated with
  | false => rfl
  | true =>
    simp only [if_true, watchServerWrite_eq]
    cases hwrite : prvServerWrite instanceId data
        (lwm2mListAdd ServerInstance.instanceId (ObjectServer.zeroed instanceId) list) with
    | none => rfl
    | some r =>
      simp only [access_some, ok_bind, Option.bind_eq_bind, Option.bind_some]
      split <;> rfl

def serverNeedsBytes (e : Element) : Prop := e.id = lwm2mServerBindingId

def ServerRespects (elements : List Element) : Prop :=
  (∀ instanceId, RespectsTags (watchServerWrite instanceId) (fun e => e) serverNeedsBytes HasBytes
    elements) ∧
  ∀ allocated instanceId, CreateRespectsTags (watchServerCreate allocated instanceId) (fun e => e)
    serverNeedsBytes HasBytes
    (fun list => lwm2mListFind ServerInstance.instanceId instanceId list = none) (fun list => list)
    elements

theorem passes_instanceId {data : List Element} {target target' : ServerInstance}
    (h : DoWhile.Passes coap204Changed watchServerElement data target target') :
    target'.instanceId = target.instanceId := by
  apply h.invariant (P := fun t => t.instanceId = target.instanceId) rfl
  intro e s t hs hbody
  rw [watchServerElement_eq, Except.ok.injEq] at hbody
  have hframe := writeElement_instanceId e s
  rw [hbody] at hframe
  exact hframe.trans hs

/-- The element is reached in the instance that the elements before it have left. -/
theorem server_write_refused {id : Nat} {before : List Element} {e : Element}
    {list t : ObjectServer.InstanceList} {target : ServerInstance} (after : List Element)
    (hneeds : serverNeedsBytes e) (hbytes : ¬ HasBytes e)
    (hfind : lwm2mListFind ServerInstance.instanceId id list = some target)
    (hreached : before = [] ∧ t = list ∨
      watchServerWrite id before list = .ok (coap204Changed, t)) :
    ∃ target', target'.instanceId = target.instanceId ∧
      t = replaceFound ServerInstance.instanceId id target' list ∧
      watchServerWrite id (before ++ e :: after) list = .ok (coap400BadRequest, t) := by
  have hpasses : ∃ target', DoWhile.Passes coap204Changed watchServerElement before target target' ∧
      t = replaceFound ServerInstance.instanceId id target' list := by
    rcases hreached with ⟨rfl, rfl⟩ | hwrite
    · exact ⟨target, .nil target, (replaceFound_self hfind).symm⟩
    · simp only [watchServerWrite, hfind] at hwrite
      cases hrun : DoWhile.run coap204Changed .memory watchServerElement before target with
      | error fault =>
        rw [hrun] at hwrite
        cases hwrite
      | ok r =>
        obtain ⟨result, target'⟩ := r
        rw [hrun] at hwrite
        cases hwrite
        exact ⟨target', DoWhile.passes_of_run hrun, rfl⟩
  obtain ⟨target', hpasses, ht⟩ := hpasses
  have hid : e.id = lwm2mServerBindingId := hneeds
  have hbody : watchServerElement e target' = .ok (coap400BadRequest, target') := by
    rw [watchServerElement, if_pos hid, if_neg hbytes]
  refine ⟨target', passes_instanceId hpasses, ht, ?_⟩
  simp only [watchServerWrite, hfind]
  rw [hpasses.run_append (by simp), DoWhile.run_cons_stop hbody (by decide), ok_bind, ht]

theorem server_write_respects (id : Nat) (elements : List Element) :
    RespectsTags (watchServerWrite id) (fun e => e) serverNeedsBytes HasBytes elements where
  member data list _ := by
    rw [watchServerWrite_eq]
    exact access_ne_wrongMember _
  refused before e after list t _ hneeds hbytes hreached := by
    cases hfind : lwm2mListFind ServerInstance.instanceId id list with
    | none =>
      have hwrite : ∀ data, watchServerWrite id data list = .ok (coap404NotFound, list) := by
        intro data
        simp only [watchServerWrite, hfind]
      refine ⟨coap404NotFound, by decide, ?_⟩
      rcases hreached with ⟨_, rfl⟩ | hbefore
      · exact hwrite _
      · cases (hwrite before).symm.trans hbefore
    | some target =>
      obtain ⟨_, _, _, hwrite⟩ := server_write_refused after hneeds hbytes hfind hreached
      exact ⟨coap400BadRequest, by decide, hwrite⟩

theorem prvServerDelete_list (id : Nat) (list : ObjectServer.InstanceList) :
    (prvServerDelete id list).2 = (lwm2mListRemove ServerInstance.instanceId id list).1 := by
  unfold prvServerDelete
  cases lwm2mListRemove ServerInstance.instanceId id list with
  | mk rest removed => cases removed <;> rfl

/-- The instance that has been added is deleted again. -/
theorem server_create_respects (allocated : Bool) (id : Nat) (elements : List Element) :
    CreateRespectsTags (watchServerCreate allocated id) (fun e => e) serverNeedsBytes HasBytes
      (fun list => lwm2mListFind ServerInstance.instanceId id list = none) (fun list => list)
      elements where
  member data list _ := by
    rw [watchServerCreate_eq]
    exact access_ne_wrongMember _
  refused before e after list _ hneeds hbytes fresh hreached := by
    cases allocated with
    | false => exact ⟨coap500InternalServerError, list, by decide, rfl, rfl⟩
    | true =>
      have hfind : lwm2mListFind ServerInstance.instanceId id
          (lwm2mListAdd ServerInstance.instanceId (ObjectServer.zeroed id) list) =
            some (ObjectServer.zeroed id) := by
        rw [find_add (ObjectServer.zeroed id) fresh]
        exact if_pos rfl
      have hwritten : ∃ t, before = [] ∧
            t = lwm2mListAdd ServerInstance.instanceId (ObjectServer.zeroed id) list ∨
          watchServerWrite id before
            (lwm2mListAdd ServerInstance.instanceId (ObjectServer.zeroed id) list) =
              .ok (coap204Changed, t) := by
        rcases hreached with hnil | ⟨t, hcreate⟩
        · exact ⟨_, Or.inl ⟨hnil, rfl⟩⟩
        · rw [watchServerCreate_eq, access_eq_ok_iff] at hcreate
          refine ⟨t, Or.inr ?_⟩
          rw [watchServerWrite_eq, access_eq_ok_iff]
          exact create_accepted hcreate
      obtain ⟨t, hwritten⟩ := hwritten
      obtain ⟨target', hinstance, ht, hwrite⟩ :=
        server_write_refused after hneeds hbytes hfind hwritten
      refine ⟨coap400BadRequest, list, by decide, ?_, rfl⟩
      simp only [watchServerCreate, if_true, hwrite, ok_bind]
      rw [if_neg (by decide), prvServerDelete_list, ht]
      have hremove : lwm2mListRemove ServerInstance.instanceId id
          (replaceFound ServerInstance.instanceId id target'
            (lwm2mListAdd ServerInstance.instanceId (ObjectServer.zeroed id) list)) =
          (list, some target') := remove_replaceFound_add fresh hinstance
      rw [hremove]

theorem server_respects (elements : List Element) : ServerRespects elements :=
  ⟨fun id => server_write_respects id elements,
    fun allocated id => server_create_respects allocated id elements⟩

end Server

/-! ## The Firmware object -/

section Firmware
open ObjectFirmware
open Timers (Port)

def FirmwareHasBytes (d : Data) : Prop := d.type = .string ∨ d.type = .opaqueBytes

instance (d : Data) : Decidable (FirmwareHasBytes d) :=
  inferInstanceAs (Decidable (d.type = .string ∨ d.type = .opaqueBytes))

/-- `prv_firmware_write` for one element. The type of a URI is tested, that of a package is
not. -/
def watchElement (port : Port) (d : Data × Bool) (s : Device) : Except Fault (UInt8 × Device) :=
  if d.1.id = resMPackage then
    if FirmwareHasBytes d.1 then access (ObjectFirmware.writeElement port d.2 d.1 s)
    else .error .wrongMember
  else if d.1.id = resMPackageUri then
    if FirmwareHasBytes d.1 then access (writePackageUri port d.1 s)
    else .ok (coap406NotAcceptable, s)
  else .ok (coap405MethodNotAllowed, s)

def watchFirmwareWrite (port : Port) (instanceId : Nat) (dataArray : List (Data × Bool))
    (s : Device) : Except Fault (UInt8 × Device) :=
  if instanceId ≠ 0 then .ok (coap404NotFound, s)
  else DoWhile.run coap204Changed .memory (watchElement port) dataArray s

variable {port : Port}

theorem watchElement_eq {d : Data × Bool} {s : Device}
    (h : watchElement port d s ≠ .error .wrongMember) :
    watchElement port d s = access (ObjectFirmware.writeElement port d.2 d.1 s) := by
  unfold watchElement at h ⊢
  by_cases hpackage : d.1.id = resMPackage
  · rw [if_pos hpackage] at h ⊢
    split at h
    · rename_i hbytes
      rw [if_pos hbytes]
    · exact absurd rfl h
  rw [if_neg hpackage, ObjectFirmware.writeElement, if_neg hpackage]
  by_cases huri : d.1.id = resMPackageUri
  · rw [if_pos huri, if_pos huri]
    by_cases hbytes : FirmwareHasBytes d.1
    · rw [if_pos hbytes]
    · rw [if_neg hbytes, writePackageUri, if_neg fun hcond => hbytes hcond.1]
      rfl
  · rw [if_neg huri, if_neg huri]
    rfl

/-- Where no wrong member is read the handler does what it does without a look at types. -/
theorem watchFirmwareWrite_eq {instanceId : Nat} {dataArray : List (Data × Bool)} {s : Device}
    (h : watchFirmwareWrite port instanceId dataArray s ≠ .error .wrongMember) :
    watchFirmwareWrite port instanceId dataArray s =
      access (prvFirmwareWrite port instanceId dataArray s) := by
  unfold watchFirmwareWrite prvFirmwareWrite at *
  by_cases hid : instanceId ≠ 0
  · rw [if_pos hid, if_pos hid]
    rfl
  rw [if_neg hid] at h ⊢
  rw [if_neg hid]
  induction dataArray generalizing s with
  | nil => rfl
  | cons d rest ih =>
    have hbody : watchElement port d s ≠ .error .wrongMember :=
      fun herror => h (DoWhile.run_cons_error herror)
    have hsame := watchElement_eq hbody
    cases rest with
    | nil => exact hsame
    | cons next rest =>
      rw [ObjectFirmware.writeLoop]
      cases hwrite : ObjectFirmware.writeElement port d.2 d.1 s with
      | none =>
        rw [hwrite] at hsame
        exact DoWhile.run_cons_error hsame
      | some r =>
        obtain ⟨result, t⟩ := r
        rw [hwrite, access_some] at hsame
        simp only [Option.bind_eq_bind, Option.bind_some]
        by_cases hresult : result = coap204Changed
        · subst hresult
          rw [DoWhile.run_cons_ok hsame (by simp)] at h ⊢
          rw [if_pos rfl]
          exact ih h
        · rw [DoWhile.run_cons_stop hsame hresult, if_neg hresult]
          rfl

/-- The two that are taken as bytes. -/
def firmwareNeedsBytes (d : Data) : Prop := d.id = resMPackage ∨ d.id = resMPackageUri

def firmwareBad (d : Data) : Prop := d.id = resMPackage ∧ ¬ FirmwareHasBytes d

def firmwareAccepts (port : Port) (d : Data) : Prop :=
  d.id = resMPackage ∧ d.asBuffer ≠ none ∨
    d.id = resMPackageUri ∧ FirmwareHasBytes d ∧ 15 < d.length ∧ d.length < 256 ∧
      ∃ uri ∈ CString.read d.buffer, (PackageUri.sscanf port uri).ip.length < 20 ∧
        PackageUri.Accepted (PackageUri.sscanf port uri)

instance : DecidablePred firmwareBad := fun d =>
  inferInstanceAs (Decidable (d.id = resMPackage ∧ ¬ FirmwareHasBytes d))

instance (port : Port) : DecidablePred (firmwareAccepts port) := fun d =>
  inferInstanceAs (Decidable (d.id = resMPackage ∧ d.asBuffer ≠ none ∨
    d.id = resMPackageUri ∧ FirmwareHasBytes d ∧ 15 < d.length ∧ d.length < 256 ∧
      ∃ uri ∈ CString.read d.buffer, (PackageUri.sscanf port uri).ip.length < 20 ∧
        PackageUri.Accepted (PackageUri.sscanf port uri)))

def FirmwareRespects (port : Port) (elements : List Data) : Prop :=
  ∀ instanceId, RespectsTags (watchFirmwareWrite port instanceId) Prod.fst firmwareNeedsBytes
    FirmwareHasBytes elements

theorem writePackageUri_changed_iff {d : Data} {s : Device} (hbytes : FirmwareHasBytes d) :
    (∃ t, writePackageUri port d s = some (coap204Changed, t)) ↔
      15 < d.length ∧ d.length < 256 ∧
      ∃ uri, CString.read d.buffer = some uri ∧ (PackageUri.sscanf port uri).ip.length < 20 ∧
        PackageUri.Accepted (PackageUri.sscanf port uri) := by
  unfold writePackageUri
  constructor
  · intro h
    obtain ⟨t, h⟩ := h
    split at h
    · rename_i hcond
      obtain ⟨uri, huri, h⟩ := Option.bind_eq_some_iff.mp h
      simp only at h
      split at h
      · cases h
      · rename_i hip
        split at h
        · rename_i haccepted
          exact ⟨hcond.2.1, hcond.2.2, uri, huri, by omega, haccepted⟩
        · cases h
    · cases h
  · intro h
    obtain ⟨hlong, hshort, uri, huri, hip, haccepted⟩ := h
    rw [if_pos ⟨hbytes, hlong, hshort⟩]
    simp only [huri, Option.bind_eq_bind, Option.bind_some, if_neg (Nat.not_le.mpr hip),
      if_pos haccepted]
    exact ⟨_, rfl⟩

theorem firmware_careful : Careful (watchElement port) Prod.fst firmwareBad
    (firmwareAccepts port) where
  member d s h := by
    unfold watchElement at h
    split at h
    · rename_i hid
      split at h
      · exact absurd h (access_ne_wrongMember _)
      · rename_i hbytes
        exact ⟨hid, hbytes⟩
    split at h
    · split at h
      · exact absurd h (access_ne_wrongMember _)
      · cases h
    · cases h
  accepted d s t h := by
    have hright : watchElement port d s ≠ .error .wrongMember := by
      rw [h]
      simp
    have hsame := watchElement_eq hright
    rw [h] at hsame
    cases hwrite : ObjectFirmware.writeElement port d.2 d.1 s with
    | none =>
      rw [hwrite] at hsame
      cases hsame
    | some r =>
      rw [hwrite] at hsame
      cases hsame
      by_cases hpackage : d.1.id = resMPackage
      · obtain ⟨_, p, hp, _⟩ := writeElement_package hpackage hwrite
        exact Or.inl ⟨hpackage, by rw [hp]; simp⟩
      · rw [ObjectFirmware.writeElement, if_neg hpackage] at hwrite
        split at hwrite
        · rename_i huri
          have hbytes : FirmwareHasBytes d.1 := by
            by_contra hno
            rw [writePackageUri, if_neg fun hcond => hno hcond.1] at hwrite
            cases hwrite
          exact Or.inr ⟨huri, hbytes, (writePackageUri_changed_iff hbytes).mp ⟨t, hwrite⟩⟩
        · cases hwrite

theorem firmware_reaching : Reaching (watchElement port) (fun d => (d, true)) firmwareBad
    (firmwareAccepts port) (fun _ => True) where
  passes d s _ hnot haccepts := by
    rcases haccepts with ⟨hid, hbuffer⟩ | ⟨hid, hbytes, haccepts⟩
    · have hbytes : FirmwareHasBytes d := by
        by_contra hno
        exact hnot ⟨hid, hno⟩
      obtain ⟨buffer, hbuffer⟩ := Option.ne_none_iff_exists'.mp hbuffer
      refine ⟨{ s with push := ⟨d.length, some buffer⟩ }, ?_, trivial⟩
      rw [watchElement, if_pos hid, if_pos hbytes, ObjectFirmware.writeElement, if_pos hid,
        writePackage, hbuffer]
      rfl
    · obtain ⟨t, ht⟩ := (writePackageUri_changed_iff (s := s) hbytes).mpr haccepts
      have hother : ¬ d.id = resMPackage := by
        rw [hid]
        decide
      refine ⟨t, ?_, trivial⟩
      rw [watchElement, if_neg hother, if_pos hid, if_pos hbytes, ht, access_some]
  fails d s _ hbad := by
    rw [watchElement, if_pos hbad.1, if_neg hbad.2]

theorem firmware_refused (d : Data × Bool) (s : Device) (hneeds : firmwareNeedsBytes d.1)
    (hbytes : ¬ FirmwareHasBytes d.1) (hnot : ¬ firmwareBad d.1) :
    ∃ code, IsError code ∧ watchElement port d s = .ok (code, s) := by
  rcases hneeds with hid | hid
  · exact absurd ⟨hid, hbytes⟩ hnot
  · have hother : ¬ d.1.id = resMPackage := by
      rw [hid]
      decide
    refine ⟨coap406NotAcceptable, by decide, ?_⟩
    rw [watchElement, if_neg hother, if_pos hid, if_neg hbytes]

theorem firmware_respects_iff (port : Port) (elements : List Data) :
    FirmwareRespects port elements ↔ Tagged firmwareBad (firmwareAccepts port) elements := by
  constructor
  · intro h
    by_contra hnot
    have hreaching : Reaching (watchElement port) (fun d => (d, true)) firmwareBad
        (firmwareAccepts port) (fun _ => True) := firmware_reaching
    exact (h 0).member (elements.map fun d => (d, true)) (booted port none)
      (by simp [Function.comp_def]) (hreaching.run trivial hnot)
  · intro htagged instanceId
    by_cases hid : instanceId = 0
    · have hwrite : watchFirmwareWrite port instanceId =
          DoWhile.run coap204Changed .memory (watchElement port) := by
        funext dataArray s
        exact if_neg (not_not.mpr hid)
      rw [hwrite]
      exact firmware_careful.respects firmware_refused htagged
    · have hwrite : watchFirmwareWrite port instanceId = fun _ s => .ok (coap404NotFound, s) := by
        funext dataArray s
        exact if_pos hid
      rw [hwrite]
      exact respects_refusal (by decide) elements

end Firmware

/-! ## All four objects -/

/-- Exactly when no element for the URI or a key, the offset to UTC or the package comes with
another type behind elements that are all accepted do the handlers of the Security, Device and
Firmware objects keep to the types. The Server object always does. -/
theorem write_handlers_respect_tags_iff (port : Timers.Port) (elements : List Element)
    (dataArray : List ObjectFirmware.Data) :
    (SecurityRespects elements ↔ Tagged securityBad securityAccepts elements) ∧
    ServerRespects elements ∧
    (DeviceRespects elements ↔ Tagged deviceBad deviceAccepts elements) ∧
    (FirmwareRespects port dataArray ↔ Tagged firmwareBad (firmwareAccepts port) dataArray) :=
  ⟨security_respects_iff elements, server_respects elements, device_respects_iff elements,
    firmware_respects_iff port dataArray⟩

/-- The integer 42 as a package, a resource with instances as a public key and an integer as
the offset to UTC. -/
theorem other_types_read_as_bytes :
    (∀ port, ¬ FirmwareRespects port [⟨0, .integer, 42, []⟩]) ∧
    ¬ SecurityRespects [⟨3, .multipleResource⟩] ∧ ¬ DeviceRespects [⟨14, .integer 1⟩] := by
  refine ⟨?_, ?_, ?_⟩
  · intro port h
    exact (h 0).member [(⟨0, .integer, 42, []⟩, true)] (ObjectFirmware.booted port none) rfl rfl
  · intro h
    exact (h.1 0).member [(⟨3, .multipleResource⟩, true)]
      (Heap.empty, [ObjectSecurity.zeroed 0]) rfl rfl
  · intro h
    exact (h 0).member [(⟨14, .integer 1⟩, 0)] ObjectDevice.getObjectDevice rfl rfl

end JsEmbeddedPlatform.WriteTags
