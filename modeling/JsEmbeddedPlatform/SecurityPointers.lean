import JsEmbeddedPlatform.ObjectSecurity

/-!
# The pointers of the Security object

An abstract Security object has a URI and three keys for each instance, plain byte
strings. The object's memory represents it: no block has two owners, the URI ends with a
NUL, and a key is NULL with length zero or a block with its bytes.
-/

set_option autoImplicit false

namespace JsEmbeddedPlatform.ObjectSecurity

open Lwm2mData Lwm2mList
open ObjectFirmware (coap204Changed coap400BadRequest coap404NotFound coap406NotAcceptable strncpy)
open Ownership (Owned block release allocate)

inductive Key where
  | publicIdentity
  | serverPublicKey
  | secretKey
deriving DecidableEq, Repr

/-- The pointer to a key, or to the URI. -/
def SecurityInstance.pointer (i : SecurityInstance) : Option Key → Option Nat
  | none => i.uri
  | some .publicIdentity => i.publicIdentity
  | some .serverPublicKey => i.serverPublicKey
  | some .secretKey => i.secretKey

def SecurityInstance.length (i : SecurityInstance) : Key → Nat
  | .publicIdentity => i.publicIdLen.toNat
  | .serverPublicKey => i.serverPublicKeyLen.toNat
  | .secretKey => i.secretKeyLen.toNat

/-- Another block for a key, with its length. -/
def SecurityInstance.setKey (i : SecurityInstance) (key : Key) (new : Option Nat) (len : UInt16) :
    SecurityInstance :=
  match key with
  | .publicIdentity => { i with publicIdentity := new, publicIdLen := len }
  | .serverPublicKey => { i with serverPublicKey := new, serverPublicKeyLen := len }
  | .secretKey => { i with secretKey := new, secretKeyLen := len }

theorem pointer_setKey (i : SecurityInstance) (key : Key) (new : Option Nat) (len : UInt16)
    (f : Option Key) :
    (i.setKey key new len).pointer f = if f = some key then new else i.pointer f := by
  cases f with
  | none => cases key <;> rfl
  | some other => cases key <;> cases other <;> rfl

theorem length_setKey (i : SecurityInstance) (key : Key) (new : Option Nat) (len : UInt16)
    (other : Key) :
    (i.setKey key new len).length other = if other = key then len.toNat else i.length other := by
  cases key <;> cases other <;> rfl

theorem instanceId_setKey (i : SecurityInstance) (key : Key) (new : Option Nat) (len : UInt16) :
    (i.setKey key new len).instanceId = i.instanceId := by
  cases key <;> rfl

/-! ## The abstract object -/

/-- What has been written last to an instance. -/
structure Contents where
  uri : Option (List UInt8)
  key : Key → List UInt8

abbrev Object := Nat → Option Contents

def Contents.empty : Contents := ⟨none, fun _ => []⟩

/-- The resource of an element that needs bytes. -/
def fieldOf (id : Nat) : Option (Option Key) :=
  if id = lwm2mSecurityUriId then some none
  else if id = lwm2mSecurityPublicKeyId then some (some .publicIdentity)
  else if id = lwm2mSecurityServerPublicKeyId then some (some .serverPublicKey)
  else if id = lwm2mSecuritySecretKeyId then some (some .secretKey)
  else none

/-- What is accepted besides bytes. -/
def acceptsOther (e : Element) : Bool :=
  if e.id = lwm2mSecurityBootstrapId then (lwm2mDataDecodeBool e.value).isSome
  else if e.id = lwm2mSecuritySecurityId then (writeInt e.value 3).1 = coap204Changed
  else if e.id = lwm2mSecuritySmsSecurityId ∨ e.id = lwm2mSecuritySmsKeyParamId ∨
      e.id = lwm2mSecuritySmsSecretKeyId ∨ e.id = lwm2mSecuritySmsServerNumberId then true
  else if e.id = lwm2mSecurityShortServerId then (writeInt e.value 0xFFFF).1 = coap204Changed
  else if e.id = lwm2mSecurityHoldOffId ∨ e.id = lwm2mSecurityBootstrapTimeoutId then
    (writeInt e.value 0xFFFFFFFF).1 = coap204Changed
  else false

def accepts (e : Element) : Bool := (fieldOf e.id).isSome || acceptsOther e

def assign (e : Element) (c : Contents) : Contents :=
  match fieldOf e.id, e.value.asBuffer with
  | some none, some bytes => { c with uri := some (CString.text bytes) }
  | some (some key), some bytes => { c with key := Function.update c.key key bytes }
  | _, _ => c

/-- The elements up to the first that is refused. -/
def assignAll : List Element → Contents → Contents
  | [], c => c
  | e :: rest, c => if accepts e then assignAll rest (assign e c) else c

def Arguments.keyed (a : Arguments) : Prop := a.bsPskId ≠ none ∨ a.psk ≠ none

instance (a : Arguments) : Decidable a.keyed :=
  inferInstanceAs (Decidable (a.bsPskId ≠ none ∨ a.psk ≠ none))

def Arguments.contents (a : Arguments) : Contents where
  uri := some (CString.text a.serverUri)
  key
    | .publicIdentity => a.bsPskId.getD []
    | .serverPublicKey => []
    | .secretKey => if a.keyed then (a.psk.getD []).take a.pskLen.toNat else []

/-- `get_security_object` does not return NULL. -/
def Returned (room : Room) (a : Arguments) : Prop :=
  room.object ∧ room.securityInstance ∧ (a.keyed ∧ 0 < a.pskLen → room.secret)

instance (room : Room) (a : Arguments) : Decidable (Returned room a) :=
  inferInstanceAs (Decidable (_ ∧ _ ∧ (_ → _)))

def intended (o : Object) : Request → Object
  | .getSecurityObject room a =>
    if Returned room a then Function.update (fun _ => none) 0 (some a.contents) else fun _ => none
  | .createBootstrap room serverUri =>
    if o 0 = none ∧ room.securityInstance then
      Function.update o 0 (some (bootstrapArguments serverUri).contents)
    else o
  | .create id allocated data =>
    if allocated ∧ ∀ d ∈ data, accepts d.1 then
      Function.update o id (some (assignAll (data.map Prod.fst) .empty))
    else o
  | .write id data => Function.update o id ((o id).map (assignAll (data.map Prod.fst)))
  | .delete id => Function.update o id none
  | .cleanSecurityObject => fun _ => none

/-- What the requests have written last. -/
def lastWritten (requests : List Request) : Object := requests.foldl intended fun _ => none

/-! ## The representation -/

/-- A key is NULL with length zero, or a block that holds its bytes. -/
def Sound (content : Option (List UInt8)) (length : Nat) (bytes : List UInt8) : Prop :=
  (content = none ∧ length = 0 ∧ bytes = []) ∨
    ∃ b, content = some b ∧ length = bytes.length ∧ bytes <+: b

/-- The fields of the SMS binding are never written. -/
def SmsNull (i : SecurityInstance) : Prop :=
  i.smsParams = none ∧ i.smsParamsLen = 0 ∧ i.smsSecret = none ∧ i.smsSecretLen = 0

theorem SmsNull.setKey {i : SecurityInstance} (h : SmsNull i) (key : Key) (new : Option Nat)
    (len : UInt16) : SmsNull (i.setKey key new len) := by
  cases key <;> exact h

structure Holds (m : Memory) (i : SecurityInstance) (c : Contents) : Prop where
  terminated : ∀ b, block m i.uri = some b → 0 ∈ b
  uri : c.uri = (block m i.uri).map CString.text
  keys : ∀ key, Sound (block m (i.pointer (some key))) (i.length key) (c.key key)
  sms : SmsNull i

abbrev View := Nat → Option SecurityInstance

def pointers (view : View) (slot : Nat × Option Key) : Option Nat :=
  (view slot.1).bind fun i => i.pointer slot.2

structure Represents (m : Memory) (view : View) (o : Object) : Prop where
  owned : Owned m (pointers view)
  holds : ∀ id i, view id = some i → ∃ c, o id = some c ∧ Holds m i c
  absent : ∀ id, view id = none → o id = none

theorem Holds.congr {m m' : Memory} {i : SecurityInstance} {c : Contents} (h : Holds m i c)
    (same : ∀ f, block m' (i.pointer f) = block m (i.pointer f)) : Holds m' i c where
  terminated b hb := h.terminated b ((same none).symm.trans hb)
  uri := by
    have huri : block m' i.uri = block m i.uri := same none
    rw [huri]
    exact h.uri
  keys key := by
    rw [same (some key)]
    exact h.keys key
  sms := h.sms

section Views
variable {m m' : Memory} {view : View} {o : Object} {id : Nat} {i i' : SecurityInstance}
variable {c c' : Contents}

theorem pointers_update_self (f : Option Key) :
    pointers (Function.update view id (some i)) (id, f) = i.pointer f := by
  simp [pointers]

theorem pointers_update_of_ne {other : Nat} (h : other ≠ id) (f : Option Key)
    (x : Option SecurityInstance) :
    pointers (Function.update view id x) (other, f) = pointers view (other, f) := by
  simp [pointers, Function.update_of_ne h]

/-- Changing one pointer of an instance changes one slot. -/
theorem pointers_replace {f : Option Key} {new : Option Nat}
    (hpointer : ∀ g, i'.pointer g = if g = f then new else i.pointer g) :
    pointers (Function.update view id (some i')) =
      Function.update (pointers (Function.update view id (some i))) (id, f) new := by
  funext slot
  obtain ⟨other, g⟩ := slot
  by_cases hid : other = id
  · subst hid
    rw [pointers_update_self, hpointer g]
    by_cases hg : g = f
    · rw [if_pos hg, hg, Function.update_self]
    · rw [if_neg hg, Function.update_of_ne (by simpa using hg), pointers_update_self]
  · rw [pointers_update_of_ne hid, Function.update_of_ne (by simp [hid]),
      pointers_update_of_ne hid]

/-- A change of the memory that is none for the blocks of the other instances. -/
theorem Represents.change
    (h : Represents m (Function.update view id (some i)) (Function.update o id (some c)))
    (owned : Owned m' (pointers (Function.update view id (some i'))))
    (others : ∀ other, other ≠ id → ∀ f,
      block m' (pointers view (other, f)) = block m (pointers view (other, f)))
    (holds : Holds m' i' c') :
    Represents m' (Function.update view id (some i')) (Function.update o id (some c')) where
  owned := owned
  holds other j hj := by
    by_cases hid : other = id
    · subst hid
      rw [Function.update_self, Option.some.injEq] at hj
      subst hj
      exact ⟨c', Function.update_self .., holds⟩
    · rw [Function.update_of_ne hid] at hj
      obtain ⟨d, hd, hholds⟩ := h.holds other j (by rw [Function.update_of_ne hid, hj])
      rw [Function.update_of_ne hid] at hd
      refine ⟨d, by rw [Function.update_of_ne hid, hd], hholds.congr ?_⟩
      intro f
      have hpointer : pointers view (other, f) = j.pointer f := by simp [pointers, hj]
      rw [← hpointer]
      exact others other hid f
  absent other hother := by
    by_cases hid : other = id
    · subst hid
      rw [Function.update_self] at hother
      cases hother
    · have := h.absent other (by rwa [Function.update_of_ne hid] at hother ⊢)
      rwa [Function.update_of_ne hid] at this ⊢

/-- An instance goes, with one of its blocks; what it owns besides stays in the memory. -/
theorem Represents.drop (h : Represents m view o) {f : Option Key}
    (owned : Owned m' (Function.update (pointers view) (id, f) none))
    (frame : ∀ slot, slot ≠ (id, f) → block m' (pointers view slot) = block m (pointers view slot)) :
    Represents m' (Function.update view id none) (Function.update o id none) where
  owned := owned.forget (by
    intro slot p hp
    obtain ⟨other, g⟩ := slot
    by_cases hother : other = id
    · subst hother
      simp [pointers] at hp
    · rw [pointers_update_of_ne hother] at hp
      rwa [Function.update_of_ne (by simp [hother])])
  holds other j hj := by
    by_cases hother : other = id
    · subst hother
      rw [Function.update_self] at hj
      cases hj
    · rw [Function.update_of_ne hother] at hj ⊢
      obtain ⟨d, hd, hholds⟩ := h.holds other j hj
      refine ⟨d, hd, hholds.congr ?_⟩
      intro g
      have hpointer : pointers view (other, g) = j.pointer g := by simp [pointers, hj]
      rw [← hpointer]
      exact frame (other, g) (by simp [hother])
  absent other hother := by
    by_cases hid : other = id
    · rw [hid, Function.update_self]
    · rw [Function.update_of_ne hid] at hother ⊢
      exact h.absent other hother

end Views

/-! ## Replacing a block -/

theorem replaceBlock_spec {Slot : Type} [DecidableEq Slot] {m : Memory}
    {pointer : Slot → Option Nat} (own : Owned m pointer) (slot : Slot) {content : Option (List UInt8)}
    (room : Bool) (hroom : content ≠ none → room = true) :
    ∃ new m', replaceBlock room (pointer slot) content m = some (new, m') ∧
      Owned m' (Function.update pointer slot new) ∧ block m' new = content ∧
      ∀ other, other ≠ slot → block m' (pointer other) = block m (pointer other) := by
  obtain ⟨freed, hfreed, hown, hframe⟩ := own.release slot
  cases content with
  | none =>
    refine ⟨none, freed, ?_, hown, rfl, hframe⟩
    rw [replaceBlock, hfreed]
    rfl
  | some bytes =>
    obtain ⟨hnew, hblock, hkept⟩ := hown.allocate slot bytes
    rw [Function.update_idem] at hnew
    refine ⟨_, _, ?_, hnew, hblock, ?_⟩
    · rw [replaceBlock, hfreed, hroom (by simp)]
      rfl
    · intro other hother
      have := hkept other
      rw [Function.update_of_ne hother] at this
      rw [this, hframe other hother]

theorem writeBlock_eq {room : Bool} {v : Value} {old new : Option Nat} {m m' : Memory}
    {content : List UInt8 → Option (List UInt8)} {buffer : List UInt8}
    (hbuffer : v.asBuffer = some buffer)
    (hreplace : replaceBlock room old (content buffer) m = some (new, m')) :
    writeBlock room v old content m = .ok (buffer, new, m') := by
  obtain ⟨freed, hfreed, hplace⟩ := Option.bind_eq_some_iff.mp hreplace
  simp only [writeBlock, hfreed, readBuffer_some hbuffer, hplace, access_some, ok_bind]

section Store
variable {m : Memory} {view : View} {o : Object} {id : Nat} {i : SecurityInstance} {c : Contents}

/-- One field of an instance gets another block. -/
theorem Represents.replace
    (h : Represents m (Function.update view id (some i)) (Function.update o id (some c)))
    (f : Option Key) {content : Option (List UInt8)} (room : Bool)
    (hroom : content ≠ none → room = true) :
    ∃ new m', replaceBlock room (i.pointer f) content m = some (new, m') ∧
      block m' new = content ∧
      (∀ g, g ≠ f → block m' (i.pointer g) = block m (i.pointer g)) ∧
      ∀ i' c', (∀ g, i'.pointer g = if g = f then new else i.pointer g) → Holds m' i' c' →
        Represents m' (Function.update view id (some i')) (Function.update o id (some c')) := by
  obtain ⟨new, m', hreplace, hown, hblock, hframe⟩ :=
    replaceBlock_spec h.owned (id, f) room hroom
  rw [pointers_update_self] at hreplace
  refine ⟨new, m', hreplace, hblock, ?_, ?_⟩
  · intro g hg
    have := hframe (id, g) (by simpa using hg)
    rwa [pointers_update_self] at this
  · intro i' c' hpointer hholds
    apply h.change
    · rw [pointers_replace hpointer]
      exact hown
    · intro other hother g
      have := hframe (other, g) (by simp [hother])
      rwa [pointers_update_of_ne hother] at this
    · exact hholds

theorem Represents.storeUri
    (h : Represents m (Function.update view id (some i)) (Function.update o id (some c)))
    (bytes : List UInt8) (room : Bool) (hroom : room = true) :
    ∃ new m', replaceBlock room i.uri (some (bytes ++ [0])) m = some (new, m') ∧
      Represents m' (Function.update view id (some { i with uri := new }))
        (Function.update o id (some { c with uri := some (CString.text (bytes ++ [0])) })) := by
  obtain ⟨new, m', hreplace, hblock, hframe, hnext⟩ := h.replace none room (fun _ => hroom)
  refine ⟨new, m', hreplace, hnext _ _ ?_ ?_⟩
  · intro g
    cases g with
    | none => rfl
    | some key => cases key <;> rfl
  · obtain ⟨d, hd, hholds⟩ := h.holds id i (Function.update_self ..)
    rw [Function.update_self, Option.some.injEq] at hd
    subst hd
    refine ⟨?_, ?_, ?_, hholds.sms⟩
    · intro b hb
      rw [hblock, Option.some.injEq] at hb
      simp [← hb]
    · rw [hblock]
      rfl
    · intro key
      have hpointer : ({ i with uri := new } : SecurityInstance).pointer (some key) =
          i.pointer (some key) := by cases key <;> rfl
      have hlength : ({ i with uri := new } : SecurityInstance).length key = i.length key := by
        cases key <;> rfl
      rw [hpointer, hlength, hframe (some key) (by simp)]
      exact hholds.keys key

theorem Represents.storeKey
    (h : Represents m (Function.update view id (some i)) (Function.update o id (some c)))
    (key : Key) {content : Option (List UInt8)} {len : UInt16} {bytes : List UInt8}
    (sound : Sound content len.toNat bytes) (room : Bool)
    (hroom : content ≠ none → room = true) :
    ∃ new m', replaceBlock room (i.pointer (some key)) content m = some (new, m') ∧
      Represents m' (Function.update view id (some (i.setKey key new len)))
        (Function.update o id (some { c with key := Function.update c.key key bytes })) := by
  obtain ⟨new, m', hreplace, hblock, hframe, hnext⟩ := h.replace (some key) room hroom
  have hpointer := pointer_setKey i key new len
  refine ⟨new, m', hreplace, hnext _ _ hpointer ?_⟩
  obtain ⟨d, hd, hholds⟩ := h.holds id i (Function.update_self ..)
  rw [Function.update_self, Option.some.injEq] at hd
  subst hd
  have huri : block m' (i.setKey key new len).uri = block m i.uri := by
    have hsame : (i.setKey key new len).uri = i.uri := hpointer none
    rw [hsame]
    exact hframe none (by simp)
  refine ⟨?_, ?_, ?_, hholds.sms.setKey key new len⟩
  · rw [huri]
    exact hholds.terminated
  · rw [huri]
    exact hholds.uri
  · intro other
    rw [hpointer (some other), length_setKey]
    by_cases hother : other = key
    · subst hother
      simp only [if_true, hblock, Function.update_self]
      exact sound
    · rw [if_neg (by simpa using hother), if_neg hother, hframe (some other) (by simpa using hother)]
      simp only [Function.update_of_ne hother]
      exact hholds.keys other

/-- An instance whose pointers and lengths stay. -/
theorem Represents.retain
    (h : Represents m (Function.update view id (some i)) (Function.update o id (some c)))
    {i' : SecurityInstance} (hpointer : ∀ g, i'.pointer g = i.pointer g)
    (hlength : ∀ key, i'.length key = i.length key) (hsms : SmsNull i → SmsNull i') :
    Represents m (Function.update view id (some i')) (Function.update o id (some c)) := by
  obtain ⟨d, hd, hholds⟩ := h.holds id i (Function.update_self ..)
  rw [Function.update_self, Option.some.injEq] at hd
  subst hd
  have huri : i'.uri = i.uri := hpointer none
  apply h.change
  · rw [pointers_replace (i := i) (f := none)]
    · have hself : Function.update (pointers (Function.update view id (some i))) (id, none)
          i.uri = pointers (Function.update view id (some i)) := by
        apply Function.update_eq_self_iff.mpr
        rw [pointers_update_self]
        rfl
      rw [hself]
      exact h.owned
    · intro g
      rw [hpointer g]
      split
      · rename_i hg
        rw [hg]
        rfl
      · rfl
  · intro _ _ _
    rfl
  · refine ⟨?_, ?_, ?_, hsms hholds.sms⟩
    · rw [huri]
      exact hholds.terminated
    · rw [huri]
      exact hholds.uri
    · intro key
      rw [hpointer, hlength]
      exact hholds.keys key

end Store

/-! ## When the elements keep it -/

/-- A URI or a key finds room; a key has fewer than 2^16 bytes, and one of the client's keys
none at all only where it had none before. -/
def ElementMeets (lengths : Key → Nat) (e : Element) (room : Bool) : Prop :=
  match fieldOf e.id with
  | none => True
  | some none => e.value.asBuffer ≠ none ∧ room = true
  | some (some key) => ∃ bytes ∈ e.value.asBuffer, bytes.length < 65536 ∧
      if bytes = [] ∧ key ≠ .serverPublicKey then lengths key = 0 else room = true

instance (lengths : Key → Nat) (e : Element) (room : Bool) :
    Decidable (ElementMeets lengths e room) :=
  match h : fieldOf e.id with
  | none => isTrue (by rw [ElementMeets, h]; trivial)
  | some none => decidable_of_iff (e.value.asBuffer ≠ none ∧ room = true)
      (by rw [ElementMeets, h])
  | some (some key) => decidable_of_iff (∃ bytes ∈ e.value.asBuffer, bytes.length < 65536 ∧
      if bytes = [] ∧ key ≠ .serverPublicKey then lengths key = 0 else room = true)
      (by rw [ElementMeets, h])

def lengthsAfter (lengths : Key → Nat) (e : Element) : Key → Nat :=
  match fieldOf e.id, e.value.asBuffer with
  | some (some key), some bytes => Function.update lengths key bytes.length
  | _, _ => lengths

/-- The elements that are reached. -/
def DataMeets (lengths : Key → Nat) : List (Element × Bool) → Prop
  | [] => True
  | (e, room) :: rest =>
    ElementMeets lengths e room ∧ (accepts e = true → DataMeets (lengthsAfter lengths e) rest)

instance decidableDataMeets (lengths : Key → Nat) (data : List (Element × Bool)) :
    Decidable (DataMeets lengths data) :=
  match data with
  | [] => isTrue trivial
  | (e, room) :: rest =>
    have : Decidable (DataMeets (lengthsAfter lengths e) rest) := decidableDataMeets _ rest
    inferInstanceAs (Decidable (ElementMeets lengths e room ∧
      (accepts e = true → DataMeets (lengthsAfter lengths e) rest)))

/-! ## One element -/

theorem text_copied (buffer : List UInt8) :
    CString.text (strncpy buffer buffer.length ++ [0]) = CString.text buffer := by
  simpa using ObjectFirmware.text_strncpy buffer [] []

theorem accepts_other {e : Element} (h : fieldOf e.id = none) : accepts e = acceptsOther e := by
  simp [accepts, h]

theorem assign_other {e : Element} (h : fieldOf e.id = none) (c : Contents) : assign e c = c := by
  simp [assign, h]

theorem lengthsAfter_other {e : Element} (h : fieldOf e.id = none) (lengths : Key → Nat) :
    lengthsAfter lengths e = lengths := by
  simp [lengthsAfter, h]

section Element
variable {m : Memory} {view : View} {o : Object} {id : Nat} {i : SecurityInstance} {c : Contents}
variable {e : Element} {room : Bool}

/-- What an element does: it ends, its result says whether it is accepted, and the
representation holds for what it assigns. -/
def Wrote (view : View) (o : Object) (id : Nat) (e : Element) (c : Contents)
    (i : SecurityInstance) (result : Except Fault (UInt8 × Memory × SecurityInstance)) : Prop :=
  ∃ code m' i', result = .ok (code, m', i') ∧ (code = coap204Changed ↔ accepts e = true) ∧
    i'.instanceId = i.instanceId ∧ i'.length = lengthsAfter i.length e ∧
    Represents m' (Function.update view id (some i')) (Function.update o id (some (assign e c)))

theorem wrote_uri
    (h : Represents m (Function.update view id (some i)) (Function.update o id (some c)))
    (hid : e.id = lwm2mSecurityUriId) (hmeets : ElementMeets i.length e room) :
    Wrote view o id e c i (writeUri room e.value m i) := by
  have hfield : fieldOf e.id = some none := by rw [hid]; rfl
  rw [ElementMeets, hfield] at hmeets
  obtain ⟨hbuffer, hroom⟩ := hmeets
  obtain ⟨buffer, hbuffer⟩ := Option.ne_none_iff_exists'.mp hbuffer
  obtain ⟨new, m', hreplace, hnext⟩ := h.storeUri (strncpy buffer buffer.length) room hroom
  refine ⟨coap204Changed, m', { i with uri := new }, ?_, ?_, rfl, ?_, ?_⟩
  · rw [writeUri, writeBlock_eq hbuffer hreplace, ok_bind]
  · simp [accepts, hfield]
  · have hlengths : lengthsAfter i.length e = i.length := by simp [lengthsAfter, hfield]
    rw [hlengths]
    funext key
    cases key <;> rfl
  · rw [text_copied] at hnext
    have hassign : assign e c = { c with uri := some (CString.text buffer) } := by
      simp [assign, hfield, hbuffer]
    rw [hassign]
    exact hnext

theorem sound_copied {bytes : List UInt8} (hlength : bytes.length < 65536) :
    Sound (some (bytes ++ [0])) (UInt16.ofNat bytes.length).toNat bytes := by
  refine Or.inr ⟨bytes ++ [0], rfl, ?_, List.prefix_append _ _⟩
  rw [UInt16.toNat_ofNat']
  omega

theorem Sound.length_eq {content : Option (List UInt8)} {length : Nat} {bytes : List UInt8}
    (h : Sound content length bytes) : length = bytes.length := by
  rcases h with ⟨_, hlength, hbytes⟩ | ⟨_, _, hlength, _⟩
  · rw [hlength, hbytes, List.length_nil]
  · exact hlength

theorem stored_key
    (h : Represents m (Function.update view id (some i)) (Function.update o id (some c)))
    {key : Key} (hfield : fieldOf e.id = some (some key)) {buffer : List UInt8}
    (hbuffer : e.value.asBuffer = some buffer) {content : Option (List UInt8)} {len : UInt16}
    (sound : Sound content len.toNat buffer) (hroom : content ≠ none → room = true) :
    ∃ new m', replaceBlock room (i.pointer (some key)) content m = some (new, m') ∧
      Wrote view o id e c i (.ok (coap204Changed, m', i.setKey key new len)) := by
  obtain ⟨new, m', hreplace, hnext⟩ := h.storeKey key sound room hroom
  refine ⟨new, m', hreplace, coap204Changed, m', _, rfl, by simp [accepts, hfield],
    instanceId_setKey i key new len, ?_, ?_⟩
  · funext other
    rw [length_setKey, sound.length_eq]
    simp [lengthsAfter, hfield, hbuffer, Function.update_apply]
  · have hassign : assign e c = { c with key := Function.update c.key key buffer } := by
      simp [assign, hfield, hbuffer]
    rw [hassign]
    exact hnext

/-- The keys of the client: a length of zero is the NULL pointer with the length from before. -/
theorem writeKey_spec
    (h : Represents m (Function.update view id (some i)) (Function.update o id (some c)))
    {key : Key} (hkey : key ≠ .serverPublicKey) (hfield : fieldOf e.id = some (some key))
    (hmeets : ElementMeets i.length e room) {len : UInt16} (hlen : len.toNat = i.length key) :
    ∃ new len' m', writeKey room e.value (i.pointer (some key)) len m = .ok (new, len', m') ∧
      Wrote view o id e c i (.ok (coap204Changed, m', i.setKey key new len')) := by
  rw [ElementMeets, hfield] at hmeets
  obtain ⟨buffer, hbuffer, hsmall, hcond⟩ := hmeets
  rw [Option.mem_def] at hbuffer
  by_cases hempty : buffer = []
  · rw [if_pos ⟨hempty, hkey⟩] at hcond
    have sound : Sound none len.toNat buffer := Or.inl ⟨rfl, hlen.trans hcond, hempty⟩
    have hroom : (none : Option (List UInt8)) ≠ none → room = true := fun hne => absurd rfl hne
    obtain ⟨new, m', hreplace, hnext⟩ := stored_key h hfield hbuffer sound hroom
    refine ⟨new, len, m', ?_, hnext⟩
    have hplaced : (if buffer.length ≠ 0 then some (buffer ++ [0]) else none) = none := by
      simp [hempty]
    rw [← hplaced] at hreplace
    rw [writeKey, writeBlock_eq hbuffer hreplace, ok_bind]
    simp only [hempty, List.length_nil, ne_eq, not_true_eq_false, if_false]
  · rw [if_neg fun hcond => hempty hcond.1] at hcond
    obtain ⟨new, m', hreplace, hnext⟩ :=
      stored_key h hfield hbuffer (sound_copied hsmall) fun _ => hcond
    refine ⟨new, UInt16.ofNat buffer.length, m', ?_, hnext⟩
    have hplaced : (if buffer.length ≠ 0 then some (buffer ++ [0]) else none) =
        some (buffer ++ [0]) := by simp [hempty]
    rw [← hplaced] at hreplace
    rw [writeKey, writeBlock_eq hbuffer hreplace, ok_bind]
    simp only [ne_eq, List.length_eq_zero_iff, hempty, not_false_eq_true, if_true]

theorem wrote_publicIdentity
    (h : Represents m (Function.update view id (some i)) (Function.update o id (some c)))
    (hid : e.id = lwm2mSecurityPublicKeyId) (hmeets : ElementMeets i.length e room) :
    Wrote view o id e c i (do
      let (key, len, m) ← writeKey room e.value i.publicIdentity i.publicIdLen m
      .ok (coap204Changed, m, { i with publicIdentity := key, publicIdLen := len })) := by
  have hfield : fieldOf e.id = some (some .publicIdentity) := by rw [hid]; rfl
  have hlen : i.publicIdLen.toNat = i.length .publicIdentity := rfl
  obtain ⟨new, len, m', hwrite, hnext⟩ := writeKey_spec h (by decide) hfield hmeets hlen
  have hkey : writeKey room e.value i.publicIdentity i.publicIdLen m = .ok (new, len, m') := hwrite
  simp only [hkey, ok_bind]
  exact hnext

theorem wrote_secretKey
    (h : Represents m (Function.update view id (some i)) (Function.update o id (some c)))
    (hid : e.id = lwm2mSecuritySecretKeyId) (hmeets : ElementMeets i.length e room) :
    Wrote view o id e c i (do
      let (key, len, m) ← writeKey room e.value i.secretKey i.secretKeyLen m
      .ok (coap204Changed, m, { i with secretKey := key, secretKeyLen := len })) := by
  have hfield : fieldOf e.id = some (some .secretKey) := by rw [hid]; rfl
  have hlen : i.secretKeyLen.toNat = i.length .secretKey := rfl
  obtain ⟨new, len, m', hwrite, hnext⟩ := writeKey_spec h (by decide) hfield hmeets hlen
  have hkey : writeKey room e.value i.secretKey i.secretKeyLen m = .ok (new, len, m') := hwrite
  simp only [hkey, ok_bind]
  exact hnext

theorem wrote_serverPublicKey
    (h : Represents m (Function.update view id (some i)) (Function.update o id (some c)))
    (hid : e.id = lwm2mSecurityServerPublicKeyId) (hmeets : ElementMeets i.length e room) :
    Wrote view o id e c i (writeServerPublicKey room e.value m i) := by
  have hfield : fieldOf e.id = some (some .serverPublicKey) := by rw [hid]; rfl
  rw [ElementMeets, hfield] at hmeets
  obtain ⟨buffer, hbuffer, hsmall, hroom⟩ := hmeets
  rw [Option.mem_def] at hbuffer
  rw [if_neg fun hcond => hcond.2 rfl] at hroom
  obtain ⟨new, m', hreplace, hnext⟩ :=
    stored_key h hfield hbuffer (sound_copied hsmall) fun _ => hroom
  have hkey : replaceBlock room i.serverPublicKey (some (buffer ++ [0])) m = some (new, m') :=
    hreplace
  rw [writeServerPublicKey, writeBlock_eq hbuffer hkey, ok_bind]
  exact hnext

theorem frame_pointer {j k : SecurityInstance} (hUri : j.uri = k.uri)
    (hPublic : j.publicIdentity = k.publicIdentity)
    (hServer : j.serverPublicKey = k.serverPublicKey) (hSecret : j.secretKey = k.secretKey)
    (g : Option Key) : j.pointer g = k.pointer g := by
  cases g with
  | none => exact hUri
  | some key =>
    cases key with
    | publicIdentity => exact hPublic
    | serverPublicKey => exact hServer
    | secretKey => exact hSecret

theorem frame_length {j k : SecurityInstance} (hPublic : j.publicIdLen = k.publicIdLen)
    (hServer : j.serverPublicKeyLen = k.serverPublicKeyLen)
    (hSecret : j.secretKeyLen = k.secretKeyLen) (key : Key) : j.length key = k.length key := by
  cases key with
  | publicIdentity => exact congrArg UInt16.toNat hPublic
  | serverPublicKey => exact congrArg UInt16.toNat hServer
  | secretKey => exact congrArg UInt16.toNat hSecret

/-- What the truth value and the numbers are changed to touches no pointer. -/
structure Framed (i i' : SecurityInstance) : Prop where
  instanceId : i'.instanceId = i.instanceId
  pointer : ∀ f, i'.pointer f = i.pointer f
  length : ∀ key, i'.length key = i.length key
  sms : SmsNull i → SmsNull i'

theorem framed_self (i : SecurityInstance) : Framed i i :=
  ⟨rfl, fun _ => rfl, fun _ => rfl, fun hsms => hsms⟩

theorem framed_numbers (i : SecurityInstance) (isBootstrap : Bool) (securityMode : UInt8)
    (shortID : UInt16) (clientHoldOffTime bootstrapServerAccountTimeout : UInt32) :
    Framed i { i with
      isBootstrap := isBootstrap, securityMode := securityMode, shortID := shortID,
      clientHoldOffTime := clientHoldOffTime,
      bootstrapServerAccountTimeout := bootstrapServerAccountTimeout } where
  instanceId := rfl
  pointer := frame_pointer rfl rfl rfl rfl
  length := frame_length rfl rfl rfl
  sms hsms := hsms

/-- The codes that an element can end with. -/
def writeCodes : List UInt8 := [coap204Changed, coap400BadRequest, coap406NotAcceptable]

/-- What an element does that needs no bytes. -/
def Other (e : Element) (m : Memory) (i : SecurityInstance)
    (result : Except Fault (UInt8 × Memory × SecurityInstance)) : Prop :=
  ∃ code i', result = .ok (code, m, i') ∧ code ∈ writeCodes ∧
    (code = coap204Changed ↔ acceptsOther e = true) ∧ Framed i i'

/-- The same, and an element that is refused changes nothing. -/
def OtherOrNothing (e : Element) (m : Memory) (i : SecurityInstance)
    (result : Except Fault (UInt8 × Memory × SecurityInstance)) : Prop :=
  ∃ code i', result = .ok (code, m, i') ∧ code ∈ writeCodes ∧
    (code = coap204Changed ↔ acceptsOther e = true) ∧ Framed i i' ∧
    (code ≠ coap204Changed → i' = i)

theorem writeInt_code (v : Value) (limit : Int) : (writeInt v limit).1 ∈ writeCodes := by
  unfold writeInt
  split
  · split <;> simp [writeCodes]
  · simp [writeCodes]

theorem writeInt_refused {v : Value} {limit : Int} (h : (writeInt v limit).1 ≠ coap204Changed) :
    (writeInt v limit).2 = none := by
  unfold writeInt at h ⊢
  split
  · rename_i hvalue
    rw [hvalue] at h
    split
    · rename_i hrange
      simp only [if_pos hrange, ne_eq, not_true_eq_false] at h
    · rfl
  · rfl

theorem other_number {limit : Int}
    (hcode : acceptsOther e = decide ((writeInt e.value limit).1 = coap204Changed))
    (put : Option Nat → SecurityInstance) (hput : ∀ value, Framed i (put value))
    (hnone : put none = i) :
    OtherOrNothing e m i
      (.ok ((writeInt e.value limit).1, m, put (writeInt e.value limit).2)) := by
  refine ⟨_, _, rfl, writeInt_code _ _, ?_, hput _, ?_⟩
  · rw [hcode, decide_eq_true_eq]
  · intro hrefused
    rw [writeInt_refused hrefused, hnone]

theorem other_bootstrap (hid : e.id = lwm2mSecurityBootstrapId) :
    OtherOrNothing e m i (match lwm2mDataDecodeBool e.value with
      | some value => .ok (coap204Changed, m, { i with isBootstrap := value })
      | none => .ok (coap400BadRequest, m, i)) := by
  cases hvalue : lwm2mDataDecodeBool e.value with
  | some value =>
    refine ⟨_, _, rfl, by simp [writeCodes], ?_, framed_numbers i value _ _ _ _, by simp⟩
    simp [acceptsOther, hid, hvalue]
  | none =>
    refine ⟨_, _, rfl, by simp [writeCodes], ?_, framed_self i, fun _ => rfl⟩
    simp [acceptsOther, hid, hvalue, coap204Changed, coap400BadRequest]

/-- One case for each resource. -/
theorem writeElement_otherOrNothing (room : Bool) (m : Memory) (i : SecurityInstance)
    (hfield : fieldOf e.id = none) : OtherOrNothing e m i (writeElement e room m i) := by
  unfold writeElement
  by_cases hUri : e.id = lwm2mSecurityUriId
  · rw [hUri] at hfield
    cases hfield
  rw [if_neg hUri]
  by_cases hBootstrap : e.id = lwm2mSecurityBootstrapId
  · rw [if_pos hBootstrap]
    exact other_bootstrap hBootstrap
  rw [if_neg hBootstrap]
  by_cases hSecurity : e.id = lwm2mSecuritySecurityId
  · rw [if_pos hSecurity]
    have hcode : acceptsOther e = decide ((writeInt e.value 3).1 = coap204Changed) := by
      unfold acceptsOther
      rw [if_neg hBootstrap, if_pos hSecurity]
    exact other_number hcode (fun value => { i with
        securityMode := (value.map UInt8.ofNat).getD i.securityMode })
      (fun _ => framed_numbers i _ _ _ _ _) rfl
  rw [if_neg hSecurity]
  by_cases hPublic : e.id = lwm2mSecurityPublicKeyId
  · rw [hPublic] at hfield
    cases hfield
  rw [if_neg hPublic]
  by_cases hServer : e.id = lwm2mSecurityServerPublicKeyId
  · rw [hServer] at hfield
    cases hfield
  rw [if_neg hServer]
  by_cases hSecret : e.id = lwm2mSecuritySecretKeyId
  · rw [hSecret] at hfield
    cases hfield
  rw [if_neg hSecret]
  by_cases hSms : e.id = lwm2mSecuritySmsSecurityId ∨ e.id = lwm2mSecuritySmsKeyParamId ∨
      e.id = lwm2mSecuritySmsSecretKeyId ∨ e.id = lwm2mSecuritySmsServerNumberId
  · rw [if_pos hSms]
    refine ⟨_, _, rfl, by simp [writeCodes], ?_, framed_self i, fun _ => rfl⟩
    unfold acceptsOther
    rw [if_neg hBootstrap, if_neg hSecurity, if_pos hSms]
    exact iff_of_true rfl rfl
  rw [if_neg hSms]
  by_cases hShort : e.id = lwm2mSecurityShortServerId
  · rw [if_pos hShort]
    have hcode : acceptsOther e = decide ((writeInt e.value 0xFFFF).1 = coap204Changed) := by
      unfold acceptsOther
      rw [if_neg hBootstrap, if_neg hSecurity, if_neg hSms, if_pos hShort]
    exact other_number hcode (fun value => { i with
        shortID := (value.map UInt16.ofNat).getD i.shortID })
      (fun _ => framed_numbers i _ _ _ _ _) rfl
  rw [if_neg hShort]
  by_cases hHold : e.id = lwm2mSecurityHoldOffId
  · rw [if_pos hHold]
    have hcode : acceptsOther e = decide ((writeInt e.value 0xFFFFFFFF).1 = coap204Changed) := by
      unfold acceptsOther
      rw [if_neg hBootstrap, if_neg hSecurity, if_neg hSms, if_neg hShort, if_pos (Or.inl hHold)]
    exact other_number hcode (fun value => { i with
        clientHoldOffTime := (value.map UInt32.ofNat).getD i.clientHoldOffTime })
      (fun _ => framed_numbers i _ _ _ _ _) rfl
  rw [if_neg hHold]
  by_cases hTimeout : e.id = lwm2mSecurityBootstrapTimeoutId
  · rw [if_pos hTimeout]
    have hcode : acceptsOther e = decide ((writeInt e.value 0xFFFFFFFF).1 = coap204Changed) := by
      unfold acceptsOther
      rw [if_neg hBootstrap, if_neg hSecurity, if_neg hSms, if_neg hShort,
        if_pos (Or.inr hTimeout)]
    exact other_number hcode (fun value => { i with
        bootstrapServerAccountTimeout :=
          (value.map UInt32.ofNat).getD i.bootstrapServerAccountTimeout })
      (fun _ => framed_numbers i _ _ _ _ _) rfl
  rw [if_neg hTimeout]
  refine ⟨_, _, rfl, by simp [writeCodes], ?_, framed_self i, fun _ => rfl⟩
  unfold acceptsOther
  rw [if_neg hBootstrap, if_neg hSecurity, if_neg hSms, if_neg hShort, if_neg (by
    intro hor
    rcases hor with h | h
    · exact hHold h
    · exact hTimeout h)]
  decide

theorem writeElement_other (room : Bool) (m : Memory) (i : SecurityInstance)
    (hfield : fieldOf e.id = none) : Other e m i (writeElement e room m i) := by
  obtain ⟨code, i', hwrite, hcode, haccepted, hframed, _⟩ :=
    writeElement_otherOrNothing room m i hfield
  exact ⟨code, i', hwrite, hcode, haccepted, hframed⟩

/-- The id of a resource that needs bytes. -/
def fieldId : Option Key → Nat
  | none => lwm2mSecurityUriId
  | some .publicIdentity => lwm2mSecurityPublicKeyId
  | some .serverPublicKey => lwm2mSecurityServerPublicKeyId
  | some .secretKey => lwm2mSecuritySecretKeyId

theorem eq_fieldId {id : Nat} {f : Option Key} (h : fieldOf id = some f) : id = fieldId f := by
  unfold fieldOf at h
  split at h
  · cases h
    assumption
  split at h
  · cases h
    assumption
  split at h
  · cases h
    assumption
  split at h
  · cases h
    assumption
  · cases h

/-- What is done for a resource that needs bytes. -/
def writeField (e : Element) (room : Bool) (m : Memory) (i : SecurityInstance) :
    Option Key → Except Fault (UInt8 × Memory × SecurityInstance)
  | none => writeUri room e.value m i
  | some .publicIdentity => do
    let (key, len, m) ← writeKey room e.value i.publicIdentity i.publicIdLen m
    .ok (coap204Changed, m, { i with publicIdentity := key, publicIdLen := len })
  | some .serverPublicKey => writeServerPublicKey room e.value m i
  | some .secretKey => do
    let (key, len, m) ← writeKey room e.value i.secretKey i.secretKeyLen m
    .ok (coap204Changed, m, { i with secretKey := key, secretKeyLen := len })

theorem writeElement_field {f : Option Key} (hid : e.id = fieldId f) (room : Bool) (m : Memory)
    (i : SecurityInstance) : writeElement e room m i = writeField e room m i f := by
  cases f with
  | none => rw [writeElement, hid, fieldId, writeField, if_pos rfl]
  | some key => cases key <;> (rw [writeElement, hid]; rfl)

theorem writeElement_spec
    (h : Represents m (Function.update view id (some i)) (Function.update o id (some c)))
    (hmeets : ElementMeets i.length e room) :
    Wrote view o id e c i (writeElement e room m i) := by
  cases hfield : fieldOf e.id with
  | none =>
    obtain ⟨code, i', hwrite, _, hcode, hframed⟩ := writeElement_other room m i hfield
    refine ⟨code, m, i', hwrite, ?_, hframed.instanceId, ?_, ?_⟩
    · rw [accepts_other hfield]
      exact hcode
    · rw [lengthsAfter_other hfield]
      funext key
      exact hframed.length key
    · rw [assign_other hfield]
      exact h.retain hframed.pointer hframed.length hframed.sms
  | some f =>
    have hid := eq_fieldId hfield
    rw [writeElement_field hid]
    cases f with
    | none => exact wrote_uri h hid hmeets
    | some key =>
      cases key with
      | publicIdentity => exact wrote_publicIdentity h hid hmeets
      | serverPublicKey => exact wrote_serverPublicKey h hid hmeets
      | secretKey => exact wrote_secretKey h hid hmeets

end Element

/-! ## The loop -/

/-- The elements up to the first that is refused have been assigned. -/
theorem writeLoop_spec {m : Memory} {view : View} {o : Object} {id : Nat} {i : SecurityInstance}
    {c : Contents} {data : List (Element × Bool)}
    (h : Represents m (Function.update view id (some i)) (Function.update o id (some c)))
    (hdata : data ≠ []) (hmeets : DataMeets i.length data) :
    ∃ code m' i', writeLoop data m i = .ok (code, m', i') ∧
      (code = coap204Changed ↔ ∀ d ∈ data, accepts d.1 = true) ∧
      i'.instanceId = i.instanceId ∧
      Represents m' (Function.update view id (some i'))
        (Function.update o id (some (assignAll (data.map Prod.fst) c))) := by
  induction data generalizing m i c with
  | nil => exact absurd rfl hdata
  | cons d rest ih =>
    obtain ⟨e, room⟩ := d
    obtain ⟨hfirst, hlater⟩ := hmeets
    obtain ⟨code, m₁, i₁, hwrite, hcode, hinstance, hlength, hrep⟩ := writeElement_spec h hfirst
    rw [List.map_cons, assignAll]
    by_cases haccepts : accepts e = true
    · rw [if_pos haccepts]
      have hchanged := hcode.mpr haccepts
      subst hchanged
      cases rest with
      | nil =>
        refine ⟨coap204Changed, m₁, i₁, hwrite, ?_, hinstance, hrep⟩
        simp [haccepts]
      | cons next rest =>
        obtain ⟨code, m', i', hloop, hall, hsame, hlast⟩ :=
          ih hrep (by simp) (by rw [hlength]; exact hlater haccepts)
        refine ⟨code, m', i', ?_, ?_, hsame.trans hinstance, hlast⟩
        · simp only [writeLoop, hwrite, ok_bind, if_true]
          exact hloop
        · rw [hall]
          simp only [List.forall_mem_cons]
          exact (and_iff_right haccepts).symm
    · rw [if_neg haccepts]
      have hrefused : code ≠ coap204Changed := fun hchanged => haccepts (hcode.mp hchanged)
      have hsame : assign e c = c := by
        have hfield : fieldOf e.id = none := by
          by_contra hsome
          exact haccepts (by simp [accepts, Option.isSome_iff_ne_none.mpr hsome])
        exact assign_other hfield c
      rw [hsame] at hrep
      refine ⟨code, m₁, i₁, ?_, ?_, hinstance, hrep⟩
      · cases rest with
        | nil => exact hwrite
        | cons next rest =>
          simp only [writeLoop, hwrite, ok_bind, if_neg hrefused]
      · rw [List.forall_mem_cons]
        exact iff_of_false hrefused fun hall => haccepts hall.1

/-! ## The calls -/

/-- The condition on a call, given the state before it. -/
def Meets (s : State) : Request → Prop
  | .getSecurityObject room a =>
    room.object ∧ room.securityInstance → room.uri = true ∧
      (a.keyed ∧ 0 < a.pskLen → room.secret →
        ∃ psk ∈ a.psk, a.pskLen.toNat ≤ psk.length) ∧
      (Returned room a → ∀ id ∈ a.bsPskId, id.length < 65536 ∧ (id ≠ [] → room.identity))
  | .createBootstrap room _ => ∃ list ∈ s.object,
      lwm2mListFind SecurityInstance.instanceId 0 list = none → room.securityInstance → room.uri
  | .create id allocated data => ∃ list ∈ s.object, allocated →
      lwm2mListFind SecurityInstance.instanceId id list = none ∧ data ≠ [] ∧
      DataMeets (fun _ => 0) data ∧
      ((∀ d ∈ data, accepts d.1 = true) → ∃ d ∈ data, d.1.id = lwm2mSecurityUriId)
  | .write id data => ∃ list ∈ s.object,
      ∀ target ∈ lwm2mListFind SecurityInstance.instanceId id list,
        data ≠ [] ∧ DataMeets target.length data
  | .delete _ => s.object ≠ none
  | .cleanSecurityObject => s.object ≠ none

instance (s : State) (request : Request) : Decidable (Meets s request) :=
  match request with
  | .getSecurityObject room a => inferInstanceAs (Decidable
      (room.object ∧ room.securityInstance → room.uri = true ∧
        (a.keyed ∧ 0 < a.pskLen → room.secret →
          ∃ psk ∈ a.psk, a.pskLen.toNat ≤ psk.length) ∧
        (Returned room a → ∀ id ∈ a.bsPskId, id.length < 65536 ∧ (id ≠ [] → room.identity))))
  | .createBootstrap room _ => inferInstanceAs (Decidable (∃ list ∈ s.object,
      lwm2mListFind SecurityInstance.instanceId 0 list = none → room.securityInstance → room.uri))
  | .create id allocated data => inferInstanceAs (Decidable (∃ list ∈ s.object, allocated →
      lwm2mListFind SecurityInstance.instanceId id list = none ∧ data ≠ [] ∧
      DataMeets (fun _ => 0) data ∧
      ((∀ d ∈ data, accepts d.1 = true) → ∃ d ∈ data, d.1.id = lwm2mSecurityUriId)))
  | .write id data => inferInstanceAs (Decidable (∃ list ∈ s.object,
      ∀ target ∈ lwm2mListFind SecurityInstance.instanceId id list,
        data ≠ [] ∧ DataMeets target.length data))
  | .delete _ => inferInstanceAs (Decidable (s.object ≠ none))
  | .cleanSecurityObject => inferInstanceAs (Decidable (s.object ≠ none))

abbrev viewOf (list : InstanceList) : View :=
  fun id => lwm2mListFind SecurityInstance.instanceId id list

/-- The state represents the object: the list is in order, its instances hold what has been
written last, and each has a URI. -/
def Good (s : State) (o : Object) : Prop :=
  match s.object with
  | none => ∀ id, o id = none
  | some list => Sorted SecurityInstance.instanceId list ∧
      Represents s.memory (viewOf list) o ∧ ∀ id c, o id = some c → c.uri ≠ none

theorem viewOf_add {node : SecurityInstance} {list : InstanceList}
    (fresh : lwm2mListFind SecurityInstance.instanceId node.instanceId list = none) :
    viewOf (lwm2mListAdd SecurityInstance.instanceId node list) =
      Function.update (viewOf list) node.instanceId (some node) := by
  funext id
  rw [Function.update_apply]
  exact find_add node fresh id

theorem viewOf_replace {id : Nat} {new old : SecurityInstance} {list : InstanceList}
    (hfound : lwm2mListFind SecurityInstance.instanceId id list = some old)
    (hid : new.instanceId = id) :
    viewOf (replaceFound SecurityInstance.instanceId id new list) =
      Function.update (viewOf list) id (some new) := by
  funext other
  rw [Function.update_apply]
  exact find_replaceFound hfound hid other

theorem viewOf_remove {list : InstanceList} (hs : Sorted SecurityInstance.instanceId list)
    (id : Nat) : viewOf (lwm2mListRemove SecurityInstance.instanceId id list).1 =
      Function.update (viewOf list) id none := by
  funext other
  rw [Function.update_apply]
  exact find_remove id hs other

section Calls
variable {m : Memory} {list : InstanceList} {o : Object} {id : Nat}

/-- Where there is no instance a new one is added, with nothing in it. -/
theorem Represents.blank (h : Represents m (viewOf list) o)
    (fresh : lwm2mListFind SecurityInstance.instanceId id list = none) :
    Represents m (Function.update (viewOf list) id (some (zeroed id)))
      (Function.update o id (some .empty)) where
  owned := h.owned.forget (by
    intro slot p hp
    obtain ⟨other, f⟩ := slot
    by_cases hother : other = id
    · subst hother
      rw [pointers_update_self] at hp
      cases f with
      | none => cases hp
      | some key => cases key <;> cases hp
    · rwa [pointers_update_of_ne hother] at hp)
  holds other j hj := by
    by_cases hother : other = id
    · subst hother
      rw [Function.update_self, Option.some.injEq] at hj
      subst hj
      refine ⟨.empty, Function.update_self .., ?_, rfl, ?_, rfl, rfl, rfl, rfl⟩
      · intro b hb
        cases hb
      · intro key
        cases key <;> exact Or.inl ⟨rfl, rfl, rfl⟩
    · rw [Function.update_of_ne hother] at hj ⊢
      exact h.holds other j hj
  absent other hother := by
    by_cases hid : other = id
    · subst hid
      rw [Function.update_self] at hother
      cases hother
    · rw [Function.update_of_ne hid] at hother ⊢
      exact h.absent other hother

theorem write_spec {data : List (Element × Bool)}
    (hs : Sorted SecurityInstance.instanceId list) (h : Represents m (viewOf list) o)
    (hmeets : ∀ target ∈ lwm2mListFind SecurityInstance.instanceId id list,
      data ≠ [] ∧ DataMeets target.length data) :
    ∃ code m' list', prvSecurityWrite id data m list = .ok (code, m', list') ∧
      Sorted SecurityInstance.instanceId list' ∧
      Represents m' (viewOf list')
        (Function.update o id ((o id).map (assignAll (data.map Prod.fst)))) ∧
      ∀ target, lwm2mListFind SecurityInstance.instanceId id list = some target →
        (code = coap204Changed ↔ ∀ d ∈ data, accepts d.1 = true) := by
  unfold prvSecurityWrite
  cases hfind : lwm2mListFind SecurityInstance.instanceId id list with
  | none =>
    have hnone : o id = none := h.absent id hfind
    refine ⟨_, _, _, rfl, hs, ?_, ?_⟩
    · rw [hnone, Option.map_none, Function.update_eq_self_iff.mpr hnone.symm]
      exact h
    · intro target htarget
      cases htarget
  | some target =>
    obtain ⟨hdata, hmeets⟩ := hmeets target hfind
    obtain ⟨c, hc, hholds⟩ := h.holds id target hfind
    have hview : Function.update (viewOf list) id (some target) = viewOf list :=
      Function.update_eq_self_iff.mpr hfind.symm
    have hobject : Function.update o id (some c) = o := Function.update_eq_self_iff.mpr hc.symm
    have hstart : Represents m (Function.update (viewOf list) id (some target))
        (Function.update o id (some c)) := by
      rw [hview, hobject]
      exact h
    obtain ⟨code, m', i', hloop, hcode, hinstance, hrep⟩ := writeLoop_spec hstart hdata hmeets
    have hid : i'.instanceId = id := hinstance.trans (find_eq_some hfind).2
    refine ⟨code, m', _, ?_, sorted_replaceFound hs hid, ?_, fun _ _ => hcode⟩
    · simp only [hloop, ok_bind]
    · rw [viewOf_replace hfind hid, hc]
      exact hrep

theorem delete_spec (id : Nat) (hs : Sorted SecurityInstance.instanceId list)
    (h : Represents m (viewOf list) o) :
    ∃ code m' list', prvSecurityDelete id m list = some (code, m', list') ∧
      Sorted SecurityInstance.instanceId list' ∧
      Represents m' (viewOf list') (Function.update o id none) := by
  have hsorted : Sorted SecurityInstance.instanceId
      (lwm2mListRemove SecurityInstance.instanceId id list).1 := sorted_remove hs
  have hview := viewOf_remove hs id
  have hfound : (lwm2mListRemove SecurityInstance.instanceId id list).2 = viewOf list id :=
    remove_found hs
  unfold prvSecurityDelete
  cases hremove : lwm2mListRemove SecurityInstance.instanceId id list with
  | mk rest removed =>
    rw [hremove] at hsorted hview hfound
    simp only at hsorted hview hfound
    subst hfound
    cases hid : viewOf list id with
    | none =>
      have hnone := h.absent id hid
      refine ⟨_, _, _, rfl, hsorted, ?_⟩
      rw [hview, Function.update_eq_self_iff.mpr hid.symm,
        Function.update_eq_self_iff.mpr hnone.symm]
      exact h
    | some target =>
      obtain ⟨m', hrelease, hown, hframe⟩ := h.owned.release (id, none)
      have huri : pointers (viewOf list) (id, none) = target.uri := by
        simp only [pointers, hid, Option.bind_some]
        rfl
      rw [huri] at hrelease
      refine ⟨coap202Deleted, m', rest, ?_, hsorted, ?_⟩
      · simp only [hrelease, Option.bind_eq_bind, Option.bind_some]
      · rw [hview]
        exact h.drop hown hframe

/-! ### Creating -/

theorem assign_uri {e : Element} {c : Contents} (h : c.uri ≠ none) : (assign e c).uri ≠ none := by
  unfold assign
  split
  · simp
  · exact h
  · exact h

theorem assignAll_uri {data : List Element} {c : Contents} (h : c.uri ≠ none) :
    (assignAll data c).uri ≠ none := by
  induction data generalizing c with
  | nil => exact h
  | cons e rest ih =>
    rw [assignAll]
    split
    · exact ih (assign_uri h)
    · exact h

/-- With a URI among elements that are all accepted the instance gets one. -/
theorem assignAll_has_uri {data : List (Element × Bool)} {lengths : Key → Nat} {c : Contents}
    (hmeets : DataMeets lengths data) (hall : ∀ d ∈ data, accepts d.1 = true)
    (huri : ∃ d ∈ data, d.1.id = lwm2mSecurityUriId) :
    (assignAll (data.map Prod.fst) c).uri ≠ none := by
  induction data generalizing lengths c with
  | nil =>
    obtain ⟨d, hd, _⟩ := huri
    cases hd
  | cons d rest ih =>
    obtain ⟨e, room⟩ := d
    obtain ⟨hfirst, hlater⟩ := hmeets
    have haccepts : accepts e = true := hall (e, room) List.mem_cons_self
    rw [List.map_cons, assignAll, if_pos haccepts]
    by_cases hid : e.id = lwm2mSecurityUriId
    · apply assignAll_uri
      have hfield : fieldOf e.id = some none := by rw [hid]; rfl
      rw [ElementMeets, hfield] at hfirst
      obtain ⟨buffer, hbuffer⟩ := Option.ne_none_iff_exists'.mp hfirst.1
      simp [assign, hfield, hbuffer]
    · apply ih (hlater haccepts) fun d hd => hall d (List.mem_cons_of_mem _ hd)
      obtain ⟨d, hd, hduri⟩ := huri
      rcases List.mem_cons.mp hd with rfl | hd
      · exact absurd hduri hid
      · exact ⟨d, hd, hduri⟩

theorem update_has_uri {c : Contents} (hwhole : ∀ id c, o id = some c → c.uri ≠ none)
    (hc : c.uri ≠ none) : ∀ other d, Function.update o id (some c) other = some d → d.uri ≠ none := by
  intro other d hd
  by_cases hother : other = id
  · subst hother
    rw [Function.update_self, Option.some.injEq] at hd
    exact hd ▸ hc
  · rw [Function.update_of_ne hother] at hd
    exact hwhole other d hd

theorem create_spec (allocated : Bool) (data : List (Element × Bool))
    (hs : Sorted SecurityInstance.instanceId list) (h : Represents m (viewOf list) o)
    (hmeets : allocated = true → lwm2mListFind SecurityInstance.instanceId id list = none ∧
      data ≠ [] ∧ DataMeets (fun _ => 0) data) :
    ∃ code m' list', prvSecurityCreate allocated id data m list = .ok (code, m', list') ∧
      Sorted SecurityInstance.instanceId list' ∧
      Represents m' (viewOf list')
        (if allocated = true ∧ ∀ d ∈ data, accepts d.1 = true then
          Function.update o id (some (assignAll (data.map Prod.fst) .empty)) else o) := by
  unfold prvSecurityCreate
  cases allocated with
  | false =>
    refine ⟨_, _, _, rfl, hs, ?_⟩
    rw [if_neg (by simp)]
    exact h
  | true =>
    obtain ⟨fresh, hdata, hmeets⟩ := hmeets rfl
    have hadded := sorted_add (zeroed id) hs fresh
    have hblank := h.blank fresh
    have hview : viewOf (lwm2mListAdd SecurityInstance.instanceId (zeroed id) list) =
        Function.update (viewOf list) id (some (zeroed id)) := viewOf_add fresh
    have hfind : viewOf (lwm2mListAdd SecurityInstance.instanceId (zeroed id) list) id =
        some (zeroed id) := by rw [hview, Function.update_self]
    rw [← hview] at hblank
    have hstart : ∀ target ∈ viewOf (lwm2mListAdd SecurityInstance.instanceId (zeroed id) list) id,
        data ≠ [] ∧ DataMeets target.length data := by
      intro target htarget
      rw [hfind] at htarget
      cases htarget
      have hlength : (zeroed id).length = fun _ => 0 := by
        funext key
        cases key <;> rfl
      rw [hlength]
      exact ⟨hdata, hmeets⟩
    obtain ⟨code, m', list', hwrite, hsorted, hrep, hcode⟩ := write_spec hadded hblank hstart
    rw [Function.update_self, Option.map_some, Function.update_idem] at hrep
    simp only [if_true, true_and, hwrite, ok_bind]
    by_cases hall : ∀ d ∈ data, accepts d.1 = true
    · have hchanged := (hcode _ hfind).mpr hall
      refine ⟨coap201Created, m', list', if_pos hchanged, hsorted, ?_⟩
      rw [if_pos hall]
      exact hrep
    · have hrefused : code ≠ coap204Changed := fun hchanged => hall ((hcode _ hfind).mp hchanged)
      obtain ⟨code', m'', list'', hdelete, hlast, hgone⟩ := delete_spec id hsorted hrep
      refine ⟨code, m'', list'', ?_, hlast, ?_⟩
      · rw [if_neg hrefused, hdelete, access_some, ok_bind]
      · rw [if_neg hall]
        have hnone : o id = none := h.absent id fresh
        rw [Function.update_idem, Function.update_eq_self_iff.mpr hnone.symm] at hgone
        exact hgone

end Calls

/-! ### The client's own instances -/

section Own
variable {m : Memory} {view : View} {o : Object} {id : Nat} {i : SecurityInstance} {c : Contents}

/-- A block for a pointer that was NULL. -/
theorem Represents.allocateKey
    (h : Represents m (Function.update view id (some i)) (Function.update o id (some c)))
    (key : Key) (hnone : i.pointer (some key) = none) {b : List UInt8} {len : UInt16}
    {bytes : List UInt8} (sound : Sound (some b) len.toNat bytes) :
    Represents (allocate b m).2
      (Function.update view id (some (i.setKey key (some (allocate b m).1) len)))
      (Function.update o id (some { c with key := Function.update c.key key bytes })) := by
  obtain ⟨new, m', hreplace, hnext⟩ := h.storeKey key sound true fun _ => rfl
  rw [hnone] at hreplace
  have hallocate : replaceBlock true none (some b) m =
      some (some (allocate b m).1, (allocate b m).2) := rfl
  cases hallocate.symm.trans hreplace
  exact hnext

theorem contents_unchanged {key : Key} (hc : c.key key = []) :
    { c with key := Function.update c.key key [] } = c := by
  have hkey : Function.update c.key key [] = c.key := by
    rw [← hc]
    exact Function.update_eq_self key c.key
  rw [hkey]

theorem copyIdentity_spec
    (h : Represents m (Function.update view id (some i)) (Function.update o id (some c)))
    (hnone : i.publicIdentity = none) (hlen : i.publicIdLen = 0)
    (hc : c.key .publicIdentity = []) {room : Bool} {bsPskId : Option (List UInt8)}
    (hmeets : ∀ identity ∈ bsPskId, identity.length < 65536 ∧ (identity ≠ [] → room = true)) :
    Represents (copyIdentity room bsPskId m i).1
      (Function.update view id (some (copyIdentity room bsPskId m i).2))
      (Function.update o id
        (some { c with key := Function.update c.key .publicIdentity (bsPskId.getD []) })) := by
  cases bsPskId with
  | none =>
    rw [Option.getD_none, contents_unchanged hc]
    exact h
  | some identity =>
    obtain ⟨hsmall, hroom⟩ := hmeets identity rfl
    rw [Option.getD_some]
    cases room with
    | true =>
      exact h.allocateKey .publicIdentity hnone (sound_copied hsmall)
    | false =>
      have hempty : identity = [] := by
        by_contra hne
        cases hroom hne
      subst hempty
      rw [contents_unchanged hc]
      apply h.retain
      · exact frame_pointer rfl hnone.symm rfl rfl
      · exact frame_length hlen.symm rfl rfl
      · exact fun hsms => hsms

/-- The secret key fits, or its pointer stays NULL. -/
theorem copySecret_spec
    (h : Represents m (Function.update view id (some i)) (Function.update o id (some c)))
    (hnone : i.secretKey = none) (hc : c.key .secretKey = []) {room : Bool} {a : Arguments}
    (hroom : 0 < a.pskLen → room = true)
    (hpsk : 0 < a.pskLen → ∃ psk ∈ a.psk, a.pskLen.toNat ≤ psk.length) :
    ∃ m' i', copySecret room a m i = some (m', i') ∧ i'.instanceId = i.instanceId ∧
      (0 < a.pskLen → i'.secretKey ≠ none) ∧
      Represents m' (Function.update view id (some i'))
        (Function.update o id (some { c with
          key := Function.update c.key .secretKey ((a.psk.getD []).take a.pskLen.toNat) })) := by
  unfold copySecret
  by_cases hzero : a.pskLen = 0
  · refine ⟨m, a.complete i, if_pos hzero, rfl, ?_, ?_⟩
    · intro hpos
      rw [hzero] at hpos
      exact absurd hpos (by decide)
    · have htake : (a.psk.getD []).take a.pskLen.toNat = [] := by simp [hzero]
      rw [htake, contents_unchanged hc]
      exact h.retain (frame_pointer rfl rfl rfl rfl) (frame_length rfl rfl rfl) fun hsms => hsms
  · have hpos : 0 < a.pskLen := by
      rw [UInt16.lt_iff_toNat_lt]
      have : a.pskLen.toNat ≠ 0 := fun h0 => hzero (UInt16.toNat_inj.mp h0)
      have hzeroNat : (0 : UInt16).toNat = 0 := rfl
      omega
    obtain ⟨psk, hmem, hle⟩ := hpsk hpos
    rw [Option.mem_def] at hmem
    have hsound : Sound (some (psk.take a.pskLen.toNat)) a.pskLen.toNat
        (psk.take a.pskLen.toNat) := by
      refine Or.inr ⟨_, rfl, ?_, List.prefix_rfl⟩
      rw [List.length_take]
      omega
    rw [if_neg hzero, if_pos (hroom hpos), hmem]
    refine ⟨_, _, if_pos hle, rfl, fun _ => by simp [Arguments.complete], ?_⟩
    rw [Option.getD_some]
    apply (h.allocateKey .secretKey hnone hsound).retain
    · exact frame_pointer rfl rfl rfl rfl
    · exact frame_length rfl rfl rfl
    · exact fun hsms => hsms

theorem copyIdentity_frame (room : Bool) (bsPskId : Option (List UInt8)) (m : Memory)
    (i : SecurityInstance) : (copyIdentity room bsPskId m i).2.secretKey = i.secretKey ∧
      (copyIdentity room bsPskId m i).2.instanceId = i.instanceId := by
  cases bsPskId with
  | none => exact ⟨rfl, rfl⟩
  | some identity => cases room <;> exact ⟨rfl, rfl⟩

end Own

section Boot
variable {m : Memory} {list : InstanceList} {o : Object} {room : Room} {a : Arguments}

/-- The instance with its URI, before the keys. -/
theorem uri_written (a : Arguments) (h : Represents m (viewOf list) o)
    (fresh : lwm2mListFind SecurityInstance.instanceId 0 list = none) (huri : room.uri = true)
    (mode : UInt8) :
    ∃ uri m', replaceBlock room.uri none (some (a.serverUri ++ [0])) m = some (uri, m') ∧
      Represents m'
        (Function.update (viewOf list) 0 (some { zeroed 0 with uri := uri, securityMode := mode }))
        (Function.update o 0 (some ⟨some (CString.text a.serverUri), fun _ => []⟩)) := by
  obtain ⟨uri, m', hreplace, hrep⟩ := (h.blank fresh).storeUri a.serverUri room.uri huri
  rw [CString.text_append_zero] at hrep
  refine ⟨uri, m', hreplace, ?_⟩
  exact hrep.retain (frame_pointer rfl rfl rfl rfl) (frame_length rfl rfl rfl) fun hsms => hsms

theorem keyed_contents (hkeyed : a.keyed) :
    ({ uri := some (CString.text a.serverUri)
       key := Function.update (Function.update (fun _ => []) .publicIdentity (a.bsPskId.getD []))
        .secretKey ((a.psk.getD []).take a.pskLen.toNat) } : Contents) = a.contents := by
  unfold Arguments.contents
  rw [if_pos hkeyed]
  congr 1
  funext key
  cases key <;> rfl

theorem createInstance_spec (room : Room) (a : Arguments) (h : Represents m (viewOf list) o)
    (fresh : lwm2mListFind SecurityInstance.instanceId 0 list = none) (huri : room.uri = true)
    (hsecret : a.keyed ∧ 0 < a.pskLen → room.secret = true)
    (hpsk : a.keyed ∧ 0 < a.pskLen → ∃ psk ∈ a.psk, a.pskLen.toNat ≤ psk.length)
    (hidentity : ∀ id ∈ a.bsPskId, id.length < 65536 ∧ (id ≠ [] → room.identity = true)) :
    ∃ m' target, prvCreateSecurityInstance room a m = some (m', target) ∧
      target.instanceId = 0 ∧ (a.keyed ∧ 0 < a.pskLen → target.secretKey ≠ none) ∧
      Represents m' (Function.update (viewOf list) 0 (some target))
        (Function.update o 0 (some a.contents)) := by
  by_cases hkeyed : a.keyed
  · obtain ⟨uri, m₁, hreplace, hrep⟩ := uri_written a h fresh huri lwm2mSecurityModePreSharedKey
    have hcopied := copyIdentity_spec hrep rfl rfl rfl hidentity
    obtain ⟨hkey, hinstance⟩ := copyIdentity_frame room.identity a.bsPskId m₁
      { zeroed 0 with uri := uri, securityMode := lwm2mSecurityModePreSharedKey }
    obtain ⟨m', target, hcopy, hid, hsome, hlast⟩ := copySecret_spec hcopied hkey rfl
      (fun hpos => hsecret ⟨hkeyed, hpos⟩) (fun hpos => hpsk ⟨hkeyed, hpos⟩)
    refine ⟨m', target, ?_, hid.trans hinstance, fun hpos => hsome hpos.2, ?_⟩
    · have hnot : ¬ (a.bsPskId = none ∧ a.psk = none) := by
        intro hnone
        rcases hkeyed with h | h
        · exact h hnone.1
        · exact h hnone.2
      simp only [prvCreateSecurityInstance, hreplace, Option.bind_eq_bind, Option.bind_some,
        if_neg hnot]
      exact hcopy
    · rw [← keyed_contents hkeyed]
      exact hlast
  · obtain ⟨uri, m₁, hreplace, hrep⟩ := uri_written a h fresh huri lwm2mSecurityModeNone
    have hnone : a.bsPskId = none ∧ a.psk = none := by
      constructor
      · by_contra hne
        exact hkeyed (Or.inl hne)
      · by_contra hne
        exact hkeyed (Or.inr hne)
    refine ⟨m₁, a.complete { zeroed 0 with uri := uri, securityMode := lwm2mSecurityModeNone },
      ?_, rfl, fun hpos => absurd hpos.1 hkeyed, ?_⟩
    · simp only [prvCreateSecurityInstance, hreplace, Option.bind_eq_bind, Option.bind_some,
        if_pos hnone]
    · have hcontents : (⟨some (CString.text a.serverUri), fun _ => []⟩ : Contents) =
          a.contents := by
        unfold Arguments.contents
        rw [if_neg hkeyed, hnone.1]
        congr 1
        funext key
        cases key <;> rfl
      rw [← hcontents]
      exact hrep.retain (frame_pointer rfl rfl rfl rfl) (frame_length rfl rfl rfl) fun hsms => hsms

/-- Without room for the secret key its pointer is NULL. -/
theorem createInstance_unreturned (m : Memory) (huri : room.uri = true) (hkeyed : a.keyed)
    (hpos : 0 < a.pskLen) (hsecret : room.secret = false) :
    ∃ m' target, prvCreateSecurityInstance room a m = some (m', target) ∧
      target.secretKey = none := by
  have hnot : ¬ (a.bsPskId = none ∧ a.psk = none) := by
    intro hnone
    rcases hkeyed with h | h
    · exact h hnone.1
    · exact h hnone.2
  have hzero : a.pskLen ≠ 0 := by
    intro hzero
    rw [hzero] at hpos
    exact absurd hpos (by decide)
  have hreplace : replaceBlock room.uri none (some (a.serverUri ++ [0])) m =
      some (some (allocate (a.serverUri ++ [0]) m).1, (allocate (a.serverUri ++ [0]) m).2) := by
    rw [huri]
    rfl
  simp only [prvCreateSecurityInstance, hreplace, Option.bind_eq_bind, Option.bind_some,
    if_neg hnot, copySecret, if_neg hzero, hsecret]
  refine ⟨_, _, rfl, ?_⟩
  exact (copyIdentity_frame _ _ _ _).1

end Boot

/-- Each pointer that is released is the only one to its block. -/
theorem clean_spec {m : Memory} {list : InstanceList} (own : Owned m (pointers (viewOf list)))
    (hs : Sorted SecurityInstance.instanceId list) :
    ∃ m', cleanSecurityObject list m = some m' := by
  induction list generalizing m with
  | nil => exact ⟨m, rfl⟩
  | cons i rest ih =>
    obtain ⟨hlt, hrest⟩ := sorted_cons_iff.mp hs
    have hview : ∀ f, pointers (viewOf (i :: rest)) (i.instanceId, f) = i.pointer f := by
      intro f
      simp [pointers, viewOf, lwm2mListFind]
    obtain ⟨m₁, hm₁, own₁, _⟩ := own.release (i.instanceId, none)
    obtain ⟨m₂, hm₂, own₂, _⟩ := own₁.release (i.instanceId, some .publicIdentity)
    obtain ⟨m₃, hm₃, own₃, _⟩ := own₂.release (i.instanceId, some .secretKey)
    rw [hview] at hm₁
    rw [Function.update_of_ne (by simp), hview] at hm₂
    rw [Function.update_of_ne (by simp), Function.update_of_ne (by simp), hview] at hm₃
    have huri : release i.uri m = some m₁ := hm₁
    have hpublic : release i.publicIdentity m₁ = some m₂ := hm₂
    have hsecret : release i.secretKey m₂ = some m₃ := hm₃
    have hown : Owned m₃ (pointers (viewOf rest)) := own₃.forget (by
      intro slot p hp
      obtain ⟨other, g⟩ := slot
      obtain ⟨j, hj, _⟩ := Option.bind_eq_some_iff.mp hp
      obtain ⟨hmem, hid⟩ := find_eq_some hj
      have habove := hlt j hmem
      simp only at hid
      have hother : other ≠ i.instanceId := by omega
      rw [Function.update_of_ne (by simp [hother]), Function.update_of_ne (by simp [hother]),
        Function.update_of_ne (by simp [hother])]
      have hsame : viewOf (i :: rest) other = viewOf rest other := if_pos (by omega)
      rw [← hp]
      simp only [pointers, hsame])
    obtain ⟨m', hm'⟩ := ih hown hrest
    refine ⟨m', ?_⟩
    rw [cleanSecurityObject, huri]
    simp only [Option.bind_eq_bind, Option.bind_some, hpublic, hsecret, hm']

/-! ## Runs -/

theorem represents_empty (m : Memory) : Represents m (viewOf []) (fun _ => none) where
  owned := ⟨(fun _ _ hp => by cases hp), (fun _ _ _ hp => by cases hp)⟩
  holds _ _ hi := by cases hi
  absent _ _ := rfl

theorem contents_has_uri (a : Arguments) : a.contents.uri ≠ none := by simp [Arguments.contents]

theorem get_spec {m : Memory} {room : Room} {a : Arguments}
    (huri : room.object ∧ room.securityInstance → room.uri = true)
    (hpsk : room.object ∧ room.securityInstance → a.keyed ∧ 0 < a.pskLen → room.secret →
      ∃ psk ∈ a.psk, a.pskLen.toNat ≤ psk.length)
    (hidentity : Returned room a →
      ∀ id ∈ a.bsPskId, id.length < 65536 ∧ (id ≠ [] → room.identity)) :
    ∃ m' object, getSecurityObject room a m = some (m', object) ∧
      Good ⟨m', object⟩ (intended (fun _ => none) (.getSecurityObject room a)) := by
  unfold getSecurityObject
  by_cases hroom : room.object ∧ room.securityInstance
  · by_cases hreturned : Returned room a
    · obtain ⟨m', target, hcreate, hid, hsome, hrep⟩ := createInstance_spec room a
        (represents_empty m) rfl (huri hroom) hreturned.2.2
        (fun hpos => hpsk hroom hpos (hreturned.2.2 hpos)) (hidentity hreturned)
      have hkey : ¬ ((a.bsPskId ≠ none ∨ a.psk ≠ none) ∧ 0 < a.pskLen ∧
          target.secretKey = none) := fun h => hsome ⟨h.1, h.2.1⟩ h.2.2
      refine ⟨m', some [target], ?_, List.pairwise_singleton _ _, ?_, ?_⟩
      · simp only [if_pos hroom, hcreate, Option.bind_eq_bind, Option.bind_some, if_neg hkey]
        rfl
      · have hview : viewOf [target] = Function.update (viewOf []) 0 (some target) := by
          have fresh : lwm2mListFind SecurityInstance.instanceId target.instanceId [] = none := rfl
          rw [← hid, ← viewOf_add fresh]
          rfl
        rw [hview, intended, if_pos hreturned]
        exact hrep
      · rw [intended, if_pos hreturned]
        exact update_has_uri (by simp) (contents_has_uri a)
    · have hkeyed : (a.keyed ∧ 0 < a.pskLen) ∧ room.secret = false := by
        by_contra hnot
        apply hreturned
        refine ⟨hroom.1, hroom.2, ?_⟩
        intro hpos
        by_contra hsecret
        exact hnot ⟨hpos, by simpa using hsecret⟩
      obtain ⟨⟨hkeyed, hpos⟩, hsecret⟩ := hkeyed
      obtain ⟨m', target, hcreate, hnone⟩ := createInstance_unreturned m (huri hroom) hkeyed hpos hsecret
      refine ⟨m', none, ?_, ?_⟩
      · simp only [if_pos hroom, hcreate, Option.bind_eq_bind, Option.bind_some]
        exact if_pos ⟨hkeyed, hpos, hnone⟩
      · intro id
        rw [intended, if_neg hreturned]
  · refine ⟨m, none, if_neg hroom, ?_⟩
    intro id
    rw [intended, if_neg fun hreturned => hroom ⟨hreturned.1, hreturned.2.1⟩]

theorem bootstrap_spec {m : Memory} {list : InstanceList} {o : Object} {room : Room}
    (serverUri : List UInt8) (hs : Sorted SecurityInstance.instanceId list)
    (h : Represents m (viewOf list) o) (hwhole : ∀ id c, o id = some c → c.uri ≠ none)
    (hmeets : lwm2mListFind SecurityInstance.instanceId 0 list = none →
      room.securityInstance → room.uri) :
    ∃ m' list', createBootstrapSecurityInstance room serverUri m list = some (m', list') ∧
      Good ⟨m', some list'⟩ (intended o (.createBootstrap room serverUri)) := by
  unfold createBootstrapSecurityInstance
  rw [intended]
  cases hfind : lwm2mListFind SecurityInstance.instanceId 0 list with
  | some target =>
    obtain ⟨c, hc, _⟩ := h.holds 0 target hfind
    refine ⟨m, list, rfl, ?_⟩
    rw [if_neg (by simp [hc])]
    exact ⟨hs, h, hwhole⟩
  | none =>
    have hnone := h.absent 0 hfind
    by_cases hroom : room.securityInstance = true
    · have hkeyed : ¬ (bootstrapArguments serverUri).keyed := by
        simp [Arguments.keyed, bootstrapArguments]
      obtain ⟨m', target, hcreate, hid, _, hrep⟩ := createInstance_spec
        room (bootstrapArguments serverUri) h hfind (hmeets hfind hroom)
        (fun hpos => absurd hpos.1 hkeyed) (fun hpos => absurd hpos.1 hkeyed) (by
          intro id hmem
          cases hmem)
      have fresh : lwm2mListFind SecurityInstance.instanceId target.instanceId list = none := by
        rw [hid]
        exact hfind
      refine ⟨m', lwm2mListAdd SecurityInstance.instanceId target list, ?_, ?_⟩
      · simp only [if_pos hroom, hcreate, Option.bind_eq_bind, Option.bind_some]
      · rw [if_pos ⟨hnone, hroom⟩]
        refine ⟨sorted_add target hs fresh, ?_, ?_⟩
        · rw [viewOf_add fresh, hid]
          exact hrep
        · exact update_has_uri hwhole (contents_has_uri _)
    · refine ⟨m, list, if_neg hroom, ?_⟩
      rw [if_neg fun hand => hroom hand.2]
      exact ⟨hs, h, hwhole⟩

theorem step_good {s : State} {o : Object} {request : Request} (hgood : Good s o)
    (hmeets : Meets s request) :
    ∃ t answer, step s request = some (t, answer) ∧ Good t (intended o request) := by
  cases request with
  | getSecurityObject room a =>
    obtain ⟨m', object, hget, hnext⟩ := get_spec (m := s.memory) (fun hroom => (hmeets hroom).1)
      (fun hroom => (hmeets hroom).2.1)
      (fun hreturned => (hmeets ⟨hreturned.1, hreturned.2.1⟩).2.2 hreturned)
    refine ⟨⟨m', object⟩, none, ?_, hnext⟩
    simp only [step, hget, Option.bind_eq_bind, Option.bind_some]
  | createBootstrap room serverUri =>
    obtain ⟨list, hlist, hroom⟩ := hmeets
    rw [Option.mem_def] at hlist
    rw [Good, hlist] at hgood
    obtain ⟨m', list', hcreate, hnext⟩ := bootstrap_spec serverUri hgood.1
      hgood.2.1 hgood.2.2 hroom
    refine ⟨⟨m', some list'⟩, none, ?_, hnext⟩
    simp only [step, hlist, hcreate, Option.bind_eq_bind, Option.bind_some]
  | create id allocated data =>
    obtain ⟨list, hlist, hcond⟩ := hmeets
    rw [Option.mem_def] at hlist
    rw [Good, hlist] at hgood
    obtain ⟨hs, hrep, hwhole⟩ := hgood
    obtain ⟨code, m', list', hcreate, hsorted, hnext⟩ := create_spec allocated data
      hs hrep (fun h => ⟨(hcond h).1, (hcond h).2.1, (hcond h).2.2.1⟩)
    refine ⟨⟨m', some list'⟩, some code, ?_, hsorted, hnext, ?_⟩
    · simp only [step, hlist, hcreate, Except.toOption, Option.bind_eq_bind, Option.bind_some]
    · rw [intended]
      split
      · rename_i haccepted
        obtain ⟨_, _, hdata, huri⟩ := hcond haccepted.1
        exact update_has_uri hwhole (assignAll_has_uri hdata haccepted.2 (huri haccepted.2))
      · exact hwhole
  | write id data =>
    obtain ⟨list, hlist, hcond⟩ := hmeets
    rw [Option.mem_def] at hlist
    rw [Good, hlist] at hgood
    obtain ⟨hs, hrep, hwhole⟩ := hgood
    obtain ⟨code, m', list', hwrite, hsorted, hnext, _⟩ := write_spec hs hrep hcond
    refine ⟨⟨m', some list'⟩, some code, ?_, hsorted, hnext, ?_⟩
    · simp only [step, hlist, hwrite, Except.toOption, Option.bind_eq_bind, Option.bind_some]
    · rw [intended]
      cases hid : o id with
      | none =>
        rw [Option.map_none, Function.update_eq_self_iff.mpr hid.symm]
        exact hwhole
      | some c => exact update_has_uri hwhole (assignAll_uri (hwhole id c hid))
  | delete id =>
    obtain ⟨list, hlist⟩ := Option.ne_none_iff_exists'.mp hmeets
    rw [Good, hlist] at hgood
    obtain ⟨hs, hrep, hwhole⟩ := hgood
    obtain ⟨code, m', list', hdelete, hsorted, hnext⟩ := delete_spec id hs hrep
    refine ⟨⟨m', some list'⟩, some code, ?_, hsorted, hnext, ?_⟩
    · simp only [step, hlist, hdelete, Option.bind_eq_bind, Option.bind_some]
    · intro other c hc
      rw [intended, Function.update_apply] at hc
      split at hc
      · cases hc
      · exact hwhole other c hc
  | cleanSecurityObject =>
    obtain ⟨list, hlist⟩ := Option.ne_none_iff_exists'.mp hmeets
    rw [Good, hlist] at hgood
    obtain ⟨m', hclean⟩ := clean_spec hgood.2.1.owned hgood.1
    refine ⟨⟨m', some []⟩, none, ?_, sorted_nil, represents_empty m', ?_⟩
    · simp only [step, hlist, hclean, Option.bind_eq_bind, Option.bind_some]
    · intro other c hc
      cases hc

theorem run_good {s : State} {o : Object} {requests : List Request} (hgood : Good s o)
    (hmeets : Runs.Along Meets step s requests) :
    ∃ t answers, Runs.run step s requests = some (t, answers) ∧
      Good t (requests.foldl intended o) := by
  induction requests generalizing s o with
  | nil => exact ⟨s, [], rfl, hgood⟩
  | cons request rest ih =>
    obtain ⟨t, answer, hstep, hnext⟩ := step_good hgood hmeets.1
    obtain ⟨u, answers, hrun, hlast⟩ := ih hnext (hmeets.2 t answer hstep)
    exact ⟨u, answer :: answers, Runs.run_cons_iff.mpr ⟨t, answer, answers, hstep, hrun, rfl⟩, hlast⟩

/-! ## What is read -/

/-- The pointers of an instance and what is behind them. -/
structure Intact (m : Memory) (i : SecurityInstance) (c : Contents) : Prop where
  uri : ∃ p b, i.uri = some p ∧ m.get? p = some b ∧ 0 ∈ b ∧ c.uri = some (CString.text b)
  key : ∀ key, (i.pointer (some key) = none ∧ i.length key = 0 ∧ c.key key = []) ∨
    ∃ p b, i.pointer (some key) = some p ∧ m.get? p = some b ∧ i.length key ≤ b.length ∧
      b.take (i.length key) = c.key key
  sms : SmsNull i

theorem Holds.intact {m : Memory} {i : SecurityInstance} {c : Contents} (h : Holds m i c)
    (huri : c.uri ≠ none)
    (live : ∀ f p, i.pointer f = some p → ∃ b, m.get? p = some b) : Intact m i c where
  uri := by
    have hblock := h.uri
    cases hp : i.uri with
    | none =>
      rw [hp] at hblock
      exact absurd hblock huri
    | some p =>
      obtain ⟨b, hb⟩ := live none p hp
      have hsome : block m i.uri = some b := by
        rw [hp]
        exact hb
      rw [hsome] at hblock
      exact ⟨p, b, rfl, hb, h.terminated b hsome, hblock⟩
  key key := by
    rcases h.keys key with ⟨hnone, hlength, hbytes⟩ | ⟨b, hb, hlength, hbytes⟩
    · cases hp : i.pointer (some key) with
      | none => exact Or.inl ⟨rfl, hlength, hbytes⟩
      | some p =>
        obtain ⟨b, hb⟩ := live (some key) p hp
        rw [hp] at hnone
        cases hb.symm.trans hnone
    · obtain ⟨p, hp, hget⟩ := Option.bind_eq_some_iff.mp hb
      refine Or.inr ⟨p, b, hp, hget, ?_, ?_⟩
      · rw [hlength]
        exact hbytes.length_le
      · rw [hlength]
        exact (List.prefix_iff_eq_take.mp hbytes).symm
  sms := h.sms

section Reads
variable {m : Memory} {i : SecurityInstance} {c : Contents}

theorem Intact.read_text (h : Intact m i c) :
    ∃ b, block m i.uri = some b ∧ CString.read b = some (CString.text b) := by
  obtain ⟨p, b, hp, hb, hzero, _⟩ := h.uri
  refine ⟨b, ?_, if_pos hzero⟩
  rw [hp]
  exact hb

theorem Intact.encodeUri (h : Intact m i c) (allocated : Bool) :
    ObjectSecurity.encodeUri allocated m i.uri ≠ none := by
  obtain ⟨p, b, hp, hb, hzero, _⟩ := h.uri
  have hread : CString.read b = some (CString.text b) := if_pos hzero
  simp [ObjectSecurity.encodeUri, hp, hb, hread]

theorem Intact.encodeKey (h : Intact m i c) (allocated : Bool) (key : Key) :
    lwm2mDataEncodeOpaque allocated m (i.pointer (some key)) (i.length key) ≠ none := by
  unfold lwm2mDataEncodeOpaque
  rcases h.key key with ⟨_, hlength, _⟩ | ⟨p, b, hp, hb, hle, _⟩
  · simp [hlength]
  · have hblock : block m (i.pointer (some key)) = some b := by
      rw [hp]
      exact hb
    split
    · simp
    · split
      · simp [hblock, hle]
      · simp

theorem ite_ne_none {α : Type} {P : Prop} [Decidable P] {x y : Option α} (hx : x ≠ none)
    (hy : y ≠ none) : (if P then x else y) ≠ none := by
  split
  · exact hx
  · exact hy

/-- Whatever resource is asked for, nothing is read that must not be. -/
theorem Intact.prvGetValue (h : Intact m i c) (allocated : Bool) (id : Nat) :
    ObjectSecurity.prvGetValue allocated m id i ≠ none := by
  have huri := h.encodeUri allocated
  have hpublic := h.encodeKey allocated .publicIdentity
  have hserver := h.encodeKey allocated .serverPublicKey
  have hsecret := h.encodeKey allocated .secretKey
  obtain ⟨_, hparams, _, hsms⟩ := h.sms
  unfold ObjectSecurity.prvGetValue
  apply ite_ne_none (fun hnone => huri (Option.map_eq_none_iff.mp hnone))
  apply ite_ne_none (by simp)
  apply ite_ne_none (by simp)
  apply ite_ne_none (fun hnone => hpublic (Option.map_eq_none_iff.mp hnone))
  apply ite_ne_none (fun hnone => hserver (Option.map_eq_none_iff.mp hnone))
  apply ite_ne_none (fun hnone => hsecret (Option.map_eq_none_iff.mp hnone))
  apply ite_ne_none (by simp)
  apply ite_ne_none (by simp [lwm2mDataEncodeOpaque, hparams])
  apply ite_ne_none (by simp [lwm2mDataEncodeOpaque, hsms])
  apply ite_ne_none (by simp)
  apply ite_ne_none (by simp)
  apply ite_ne_none (by simp)
  apply ite_ne_none (by simp)
  simp

theorem Intact.readLoop (h : Intact m i c) (ids : List (Nat × Bool)) :
    ObjectSecurity.readLoop m i ids ≠ none := by
  induction ids with
  | nil => simp [ObjectSecurity.readLoop]
  | cons request rest ih =>
    obtain ⟨id, allocated⟩ := request
    obtain ⟨⟨result, value⟩, hvalue⟩ := Option.ne_none_iff_exists'.mp (h.prvGetValue allocated id)
    obtain ⟨⟨last, filled⟩, hrest⟩ := Option.ne_none_iff_exists'.mp ih
    simp only [ObjectSecurity.readLoop, hvalue, hrest, Option.bind_eq_bind, Option.bind_some]
    split <;> simp

end Reads

/-- In every run whose calls meet the condition no call does what it must not, and each
instance of the list has a URI that ends and keys that are NULL or hold what has been written
last, so that neither a Read nor `get_server_uri` reads through NULL or past a block. -/
theorem security_object_intact {requests : List Request}
    (hmeets : Runs.Along Meets step initial requests) :
    ∃ t answers, Runs.run step initial requests = some (t, answers) ∧
      ∀ list, t.object = some list →
        (∀ i ∈ list, ∃ c, lastWritten requests i.instanceId = some c ∧ Intact t.memory i c) ∧
        (∀ array room id ids, prvSecurityRead array room id ids t.memory list ≠ none) ∧
        ∀ allocated id, getServerUri allocated id t.memory list ≠ none := by
  have hinitial : Good initial fun _ => none := fun _ => rfl
  obtain ⟨t, answers, hrun, hgood⟩ := run_good hinitial hmeets
  refine ⟨t, answers, hrun, ?_⟩
  intro list hlist
  rw [Good, hlist] at hgood
  obtain ⟨hs, hrep, hwhole⟩ := hgood
  have hintact : ∀ id i, viewOf list id = some i →
      ∃ c, lastWritten requests id = some c ∧ Intact t.memory i c := by
    intro id i hi
    obtain ⟨c, hc, hholds⟩ := hrep.holds id i hi
    refine ⟨c, hc, hholds.intact (hwhole id c hc) ?_⟩
    intro f p hp
    apply (Heap.mem_live_iff _ _).mp
    apply hrep.owned.live (id, f) p
    simp [pointers, hi, hp]
  refine ⟨?_, ?_, ?_⟩
  · intro i hi
    exact hintact i.instanceId i (find_of_mem hs hi)
  · intro array room id ids
    unfold prvSecurityRead
    cases hfind : lwm2mListFind SecurityInstance.instanceId id list with
    | none => simp
    | some i =>
      obtain ⟨c, _, hi⟩ := hintact id i hfind
      simp only
      split
      · split
        · exact hi.readLoop _
        · simp
      · exact hi.readLoop ids
  · intro allocated id
    unfold getServerUri
    cases hfind : lwm2mListFind SecurityInstance.instanceId id list with
    | none => simp
    | some i =>
      obtain ⟨c, _, hi⟩ := hintact id i hfind
      obtain ⟨b, hblock, hread⟩ := hi.read_text
      simp [hblock, hread]

def roomy : Room := ⟨true, true, true, true, true⟩

def bootArguments : Arguments :=
  ⟨123, CString.ascii "coaps://127.0.0.1:5684", some (CString.ascii "node"), some [1, 2, 3], 3, false⟩

def keyRequests : List Request :=
  [.getSecurityObject roomy bootArguments,
    .write 0 [(⟨3, .opaqueBytes (CString.ascii "other")⟩, true), (⟨4, .opaqueBytes []⟩, true)],
    .create 1 true [(⟨0, .string (CString.ascii "coap://10.0.0.1")⟩, true),
      (⟨5, .opaqueBytes []⟩, true), (⟨2, .integer 3⟩, true)],
    .write 1 [(⟨5, .opaqueBytes [7, 8]⟩, true), (⟨10, .integer (-1)⟩, true)]]

theorem keys_intact : ∃ t answers list,
    Runs.run step initial keyRequests = some (t, answers) ∧ t.object = some list ∧
    list.length = 2 ∧ (∀ i ∈ list, ∃ c, lastWritten keyRequests i.instanceId = some c ∧
      Intact t.memory i c) ∧ getServerUri true 1 t.memory list ≠ none := by
  have hmeets : Runs.Along Meets step initial keyRequests := by decide +kernel
  obtain ⟨t, answers, hrun, hlist⟩ : ∃ t answers,
      Runs.run step initial keyRequests = some (t, answers) ∧
        (t.object.any fun list => list.length = 2) = true := Runs.run_evaluated (by decide +kernel)
  obtain ⟨list, hobject, hlength⟩ := (Option.any_eq_true _ _).mp hlist
  obtain ⟨u, answers', hrun', hintact⟩ := security_object_intact hmeets
  cases hrun.symm.trans hrun'
  obtain ⟨hall, _, huri⟩ := hintact list hobject
  exact ⟨t, answers, list, hrun, hobject, of_decide_eq_true hlength, hall, huri true 1⟩

/-- The second write makes the pointer NULL and leaves the length, and the Read goes there. -/
theorem key_read_through_null : ∃ t list,
    Runs.run step initial [.getSecurityObject roomy bootArguments,
        .write 0 [(⟨3, .opaqueBytes (CString.ascii "id")⟩, true)],
        .write 0 [(⟨3, .opaqueBytes []⟩, true)]] =
      some (t, [none, some coap204Changed, some coap204Changed]) ∧
    t.object = some list ∧ (∃ i ∈ list, i.publicIdentity = none ∧ i.publicIdLen = 2) ∧
    prvSecurityRead true (fun _ => true) 0 [(3, true)] t.memory list = none := by
  refine ⟨_, _, rfl, rfl, by decide, by decide⟩

end JsEmbeddedPlatform.ObjectSecurity
