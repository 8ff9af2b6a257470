import JsEmbeddedPlatform.ObjectServer

/-!
# Reads of the Server object

What a Read returns is compared with the history of the accepted requests: the last write
to a resource of an instance, and what was there before when nothing has been written to it.
-/

set_option autoImplicit false

namespace JsEmbeddedPlatform.ObjectServer

open Lwm2mData Lwm2mList
open ObjectFirmware (coap204Changed coap400BadRequest coap404NotFound coap405MethodNotAllowed
  coap406NotAcceptable strncpy length_strncpy strncpy_eq_self)

/-! ## What a Read is to return -/

/-- The resources that can be written. -/
inductive Resource where
  | shortId
  | lifetime
  | minPeriod
  | maxPeriod
  | disableTimeout
  | storing
  | binding
deriving DecidableEq, Repr

def Resource.id : Resource → Nat
  | .shortId => lwm2mServerShortIdId
  | .lifetime => lwm2mServerLifetimeId
  | .minPeriod => lwm2mServerMinPeriodId
  | .maxPeriod => lwm2mServerMaxPeriodId
  | .disableTimeout => lwm2mServerTimeoutId
  | .storing => lwm2mServerStoringId
  | .binding => lwm2mServerBindingId

def resources : List Resource :=
  [.shortId, .lifetime, .minPeriod, .maxPeriod, .disableTimeout, .storing, .binding]

/-- The value that an element for the resource stands for: a number, a truth value or the
bytes themselves. -/
def written (r : Resource) (v : Value) : Option Value :=
  match r with
  | .shortId | .lifetime | .minPeriod | .maxPeriod | .disableTimeout => (number v).map .integer
  | .storing => (lwm2mDataDecodeBool v).map .boolean
  | .binding => v.asBuffer.map .string

def entry (e : Element) : Option (Resource × Value) := do
  let r ← resources.find? fun r => r.id = e.id
  let v ← written r e.value
  pure (r, v)

/-- What a new instance starts with. -/
def initial : Resource → Value
  | .shortId | .lifetime | .minPeriod | .maxPeriod | .disableTimeout => .integer 0
  | .storing => .boolean false
  | .binding => .string []

def entries (id : Nat) (ws : List (Resource × Value)) : List ((Nat × Resource) × Value) :=
  ws.map fun w => ((id, w.1), w.2)

/-- The writes of an accepted request in their order. A Create sets every resource of the
instance that it answers with. -/
def writes : Request × Answer → List ((Nat × Resource) × Value)
  | (.create _ _ data, some (_, id)) =>
    entries id (resources.map fun r => (r, initial r)) ++ entries id (data.filterMap entry)
  | (.write id data, _) => entries id (data.filterMap entry)
  | _ => []

def lastWrite (requests : List Request) (answers : List Answer) (id : Nat) (r : Resource) :
    Option Value :=
  ((requests.zip answers).flatMap writes).reverse.lookup (id, r)

def Accepted (answer : Answer) : Prop :=
  match answer with
  | some (code, _) => code = coap201Created ∨ code = coap204Changed
  | none => False

instance (answer : Answer) : Decidable (Accepted answer) :=
  match answer with
  | some (code, _) =>
    inferInstanceAs (Decidable (code = coap201Created ∨ code = coap204Changed))
  | none => isFalse id

def Request.data : Request → List Element
  | .create _ _ data => data
  | .write _ data => data
  | _ => []

/-! ## When it does -/

def bindings (data : List Element) : List (List UInt8) :=
  (data.filter fun e => e.id = lwm2mServerBindingId).filterMap fun e => e.value.asBuffer

/-- For the data of one request: no number in a text needs more than 64 bits, no binding has a
NUL in it, and none is shorter than what it replaces. -/
def Exact (old : Binding) (data : List Element) : Prop :=
  (∀ e ∈ data, e.id ≠ lwm2mServerBindingId → NumberFits e.value) ∧
  (∀ bytes ∈ bindings data, 0 ∉ bytes ∧ old.bytes[bytes.length]? = some 0) ∧
  (bindings data).Pairwise fun a b => a.length ≤ b.length

instance (old : Binding) (data : List Element) : Decidable (Exact old data) :=
  inferInstanceAs (Decidable (_ ∧ _ ∧ _))

/-- The condition on a request, given the instances before it. -/
def Meets (list : InstanceList) : Request → Prop
  | .create none _ data =>
    lwm2mListFind ServerInstance.instanceId
      (lwm2mListNewId ServerInstance.instanceId list) list = none ∧ Exact .zero data
  | .create (some _) _ data => Exact .zero data
  | .write id data =>
    ∀ target ∈ lwm2mListFind ServerInstance.instanceId id list, Exact target.binding data
  | _ => True

instance (list : InstanceList) (request : Request) : Decidable (Meets list request) :=
  match request with
  | .create none _ data => inferInstanceAs (Decidable
      (lwm2mListFind ServerInstance.instanceId
        (lwm2mListNewId ServerInstance.instanceId list) list = none ∧ Exact .zero data))
  | .create (some _) _ data => inferInstanceAs (Decidable (Exact .zero data))
  | .write id data => inferInstanceAs (Decidable
      (∀ target ∈ lwm2mListFind ServerInstance.instanceId id list, Exact target.binding data))
  | .delete _ | .cleanServerObject | .createBootstrap _ => isTrue trivial

/-! ## One element -/

def stored (target : ServerInstance) (r : Resource) : Value := (prvGetValue true r.id target).2

theorem prvGetValue_resource (target : ServerInstance) (r : Resource) :
    prvGetValue true r.id target = (coap205Content, stored target r) := by
  cases r <;> rfl

@[simp] theorem stored_shortId (target : ServerInstance) :
    stored target .shortId = .integer target.shortServerId.toNat := rfl

@[simp] theorem stored_lifetime (target : ServerInstance) :
    stored target .lifetime = .integer target.lifetime.toNat := rfl

@[simp] theorem stored_minPeriod (target : ServerInstance) :
    stored target .minPeriod = .integer target.defaultMinPeriod.toNat := rfl

@[simp] theorem stored_maxPeriod (target : ServerInstance) :
    stored target .maxPeriod = .integer target.defaultMaxPeriod.toNat := rfl

@[simp] theorem stored_disableTimeout (target : ServerInstance) :
    stored target .disableTimeout = .integer target.disableTimeout.toNat := rfl

@[simp] theorem stored_storing (target : ServerInstance) :
    stored target .storing = .boolean target.storing := rfl

@[simp] theorem stored_binding (target : ServerInstance) :
    stored target .binding = .string (CString.text target.binding.bytes) :=
  encodeString_true target.binding.bytes

theorem setInt_accepted {v : Value} {data value : UInt32}
    (h : prvSetIntValue v data = (coap204Changed, value)) :
    ∃ n, number v = some n ∧ ((value.toNat : Int) = n ↔ NumberFits v) := by
  unfold prvSetIntValue at h
  split at h
  · rename_i n hn
    obtain ⟨m, hm, hiff⟩ := decodeInt_spec hn
    refine ⟨m, hm, ?_⟩
    split at h
    · rename_i hrange
      have hvalue : value.toNat = n.toNat := by
        rw [← (Prod.mk.inj h).2, UInt32.toNat_ofNat']
        omega
      rw [← hiff]
      omega
    · cases (Prod.mk.inj h).1
  · cases (Prod.mk.inj h).1

/-- A binding that is written over another is read back when it has no NUL and the byte of
the other that comes behind it is the end. -/
theorem overwritten_text (b : Binding) (buffer : List UInt8) (short : buffer.length ≤ 3)
    (fits : (strncpy buffer buffer.length).length ≤ 3) :
    CString.text (b.overwrite (strncpy buffer buffer.length) fits).bytes = buffer ↔
      0 ∉ buffer ∧ b.bytes[buffer.length]? = some 0 := by
  have hbyte : buffer.length < b.bytes.length := by
    rw [b.size]
    omega
  by_cases h : 0 ∈ buffer
  · constructor
    · intro htext
      exact absurd (htext ▸ h) (CString.nul_notMem_text _)
    · intro hno
      exact absurd h hno.1
  · simp only [Binding.overwrite, strncpy_eq_self h]
    rw [CString.text_append_eq_iff, List.head?_drop, List.getElem?_eq_getElem hbyte]
    simp

/-- What is accepted for the binding, and where it goes. -/
theorem writeBinding_accepted {v : Value} {target target' : ServerInstance}
    (h : writeBinding v target = (coap204Changed, target')) :
    ∃ buffer, ∃ fits : (strncpy buffer buffer.length).length ≤ 3,
      v.asBuffer = some buffer ∧ 0 < buffer.length ∧ buffer.length ≤ 3 ∧
      (∃ mode ∈ bindingModes, strncmpEqual buffer (mode ++ [0]) buffer.length) ∧
      target' = { target with
        binding := target.binding.overwrite (strncpy buffer buffer.length) fits } := by
  unfold writeBinding at h
  split at h
  · rename_i buffer hbuffer
    unfold storeBinding at h
    split at h
    · rename_i hcond
      have fits : (strncpy buffer buffer.length).length ≤ 3 := by
        rw [length_strncpy]
        exact hcond.2.1
      exact ⟨buffer, fits, hbuffer, hcond.1, hcond.2.1, hcond.2.2, (Prod.mk.inj h).2.symm⟩
    · cases (Prod.mk.inj h).1
  · cases (Prod.mk.inj h).1

theorem bindings_cons (e : Element) (data : List Element) :
    bindings (e :: data) =
      (if e.id = lwm2mServerBindingId then e.value.asBuffer.toList else []) ++ bindings data := by
  unfold bindings
  by_cases h : e.id = lwm2mServerBindingId
  · rw [List.filter_cons_of_pos (by simpa using h), if_pos h]
    cases hv : e.value.asBuffer with
    | none => simp [hv]
    | some bytes => simp [hv]
  · rw [List.filter_cons_of_neg (by simpa using h), if_neg h, List.nil_append]

theorem exact_number {old : Binding} {e : Element} (h : e.id ≠ lwm2mServerBindingId) :
    Exact old [e] ↔ NumberFits e.value := by
  simp [Exact, bindings, h]

theorem exact_binding {old : Binding} {e : Element} {bytes : List UInt8}
    (h : e.id = lwm2mServerBindingId) (hbytes : e.value.asBuffer = some bytes) :
    Exact old [e] ↔ 0 ∉ bytes ∧ old.bytes[bytes.length]? = some 0 := by
  simp [Exact, bindings, h, hbytes]

theorem exact_head {old : Binding} {e : Element} {rest : List Element}
    (h : Exact old (e :: rest)) : Exact old [e] := by
  obtain ⟨hnumber, hbinding, _⟩ := h
  refine ⟨fun d hd => hnumber d ?_, fun bytes hbytes => hbinding bytes ?_, ?_⟩
  · rw [List.mem_singleton.mp hd]
    exact List.mem_cons_self
  · rw [bindings_cons] at hbytes ⊢
    rcases List.mem_append.mp hbytes with hbytes | hbytes
    · exact List.mem_append_left _ hbytes
    · cases hbytes
  · rw [bindings_cons]
    split
    · cases e.value.asBuffer with
      | none => exact List.Pairwise.nil
      | some bytes => exact List.pairwise_singleton _ _
    · exact List.Pairwise.nil

theorem exact_tail {old : Binding} {e : Element} {rest : List Element}
    (h : Exact old (e :: rest)) : Exact old rest := by
  obtain ⟨hnumber, hbinding, hgrow⟩ := h
  rw [bindings_cons] at hbinding hgrow
  exact ⟨fun d hd => hnumber d (List.mem_cons_of_mem _ hd),
    fun bytes hbytes => hbinding bytes (List.mem_append_right _ hbytes),
    (List.pairwise_append.mp hgrow).2.1⟩

/-- The bindings that follow are no shorter, so they end where the old binding ended. -/
theorem exact_overwrite {old : Binding} {e : Element} {rest : List Element}
    {buffer : List UInt8} (hid : e.id = lwm2mServerBindingId)
    (hbuffer : e.value.asBuffer = some buffer)
    (fits : (strncpy buffer buffer.length).length ≤ 3) (h : Exact old (e :: rest)) :
    Exact (old.overwrite (strncpy buffer buffer.length) fits) rest := by
  have hrest := exact_tail h
  obtain ⟨hno, _⟩ := (exact_binding hid hbuffer).mp (exact_head h)
  obtain ⟨_, _, hgrow⟩ := h
  rw [bindings_cons, if_pos hid, hbuffer] at hgrow
  refine ⟨hrest.1, ?_, hrest.2.2⟩
  intro bytes hbytes
  obtain ⟨hbytesNo, hend⟩ := hrest.2.1 bytes hbytes
  have hle : buffer.length ≤ bytes.length :=
    (List.pairwise_append.mp hgrow).2.2 buffer (by simp) bytes hbytes
  refine ⟨hbytesNo, ?_⟩
  simp only [Binding.overwrite, strncpy_eq_self hno]
  rw [List.getElem?_append_right hle, List.getElem?_drop, Nat.add_sub_of_le hle]
  exact hend

theorem find_resource (r : Resource) : resources.find? (fun q => q.id = r.id) = some r := by
  cases r <;> rfl

theorem entry_of_id {e : Element} {r : Resource} (h : e.id = r.id) :
    entry e = (written r e.value).map fun v => (r, v) := by
  unfold entry
  rw [h, find_resource, Option.map_eq_bind]
  rfl

/-- What an accepted element does: it is the write of one resource, the others stay, and it is
read back exactly when it meets the condition. -/
def Writes (e : Element) (target target' : ServerInstance) : Prop :=
  ∃ r v, entry e = some (r, v) ∧ target'.instanceId = target.instanceId ∧
    (∀ q, q ≠ r → stored target' q = stored target q) ∧
    (stored target' r = v ↔ Exact target.binding [e]) ∧
    ∀ rest, Exact target.binding (e :: rest) → Exact target'.binding rest

theorem writes_int {e : Element} {r : Resource} {target target' : ServerInstance} {data : UInt32}
    (put : UInt32 → ServerInstance) (hid : e.id = r.id) (hr : r.id ≠ lwm2mServerBindingId)
    (hwritten : ∀ v, written r v = (number v).map .integer)
    (hput : ∀ value, stored (put value) r = .integer value.toNat)
    (frame : ∀ value q, q ≠ r → stored (put value) q = stored target q)
    (hinstance : ∀ value, (put value).instanceId = target.instanceId)
    (hbinding : ∀ value, (put value).binding = target.binding)
    (h : ((prvSetIntValue e.value data).1, put (prvSetIntValue e.value data).2) =
      (coap204Changed, target')) : Writes e target target' := by
  obtain ⟨hresult, rfl⟩ := Prod.mk.inj h
  have hset : prvSetIntValue e.value data =
      (coap204Changed, (prvSetIntValue e.value data).2) := by rw [← hresult]
  obtain ⟨n, hn, hiff⟩ := setInt_accepted hset
  refine ⟨r, .integer n, ?_, hinstance _, frame _, ?_, ?_⟩
  · rw [entry_of_id hid, hwritten, hn]
    rfl
  · rw [hput, Value.integer.injEq, hiff, exact_number (hid ▸ hr)]
  · intro rest hrest
    rw [hbinding]
    exact exact_tail hrest

theorem writes_shortId {e : Element} {target target' : ServerInstance}
    (hid : e.id = lwm2mServerShortIdId)
    (h : writeShortId e.value target = (coap204Changed, target')) : Writes e target target' := by
  unfold writeShortId at h
  cases hset : prvSetIntValue e.value target.shortServerId.toUInt32 with
  | mk result value =>
    simp only [hset] at h
    split at h
    · rename_i hresult
      subst hresult
      split at h
      · rename_i hrange
        obtain ⟨n, hn, hiff⟩ := setInt_accepted hset
        have hsmall : value.toNat ≤ 0xFFFF := hrange.2
        have hvalue : (value.toUInt16.toNat : Int) = value.toNat := by
          rw [UInt32.toNat_toUInt16, Nat.mod_eq_of_lt (by omega)]
        rw [← (Prod.mk.inj h).2]
        refine ⟨.shortId, .integer n, ?_, rfl, ?_, ?_, fun rest => exact_tail⟩
        · rw [entry_of_id (r := .shortId) hid, written, hn]
          rfl
        · intro q hq
          cases q <;> first | rfl | exact absurd rfl hq
        · rw [stored_shortId, Value.integer.injEq, hvalue, hiff, exact_number]
          rw [hid]
          decide
      · cases (Prod.mk.inj h).1
    · rename_i hresult
      exact absurd (Prod.mk.inj h).1 hresult

/-- The texts that are booleans are short numbers. -/
theorem numberFits_of_bool {v : Value} {b : Bool} (h : lwm2mDataDecodeBool v = some b) :
    NumberFits v := by
  cases v with
  | string text =>
    simp only [lwm2mDataDecodeBool] at h
    split at h
    · rename_i h0
      subst h0
      decide
    · split at h
      · rename_i h1
        subst h1
        decide
      · cases h
  | undefined => trivial
  | object => trivial
  | objectInstance => trivial
  | multipleResource => trivial
  | opaqueBytes bytes => trivial
  | integer n => trivial
  | float => trivial
  | boolean b => trivial
  | objectLink => trivial

theorem writes_storing {e : Element} {target target' : ServerInstance}
    (hid : e.id = lwm2mServerStoringId)
    (h : writeStoring e.value target = (coap204Changed, target')) : Writes e target target' := by
  unfold writeStoring at h
  split at h
  · rename_i b hb
    rw [← (Prod.mk.inj h).2]
    refine ⟨.storing, .boolean b, ?_, rfl, ?_, ?_, fun rest => exact_tail⟩
    · rw [entry_of_id (r := .storing) hid, written, hb]
      rfl
    · intro q hq
      cases q <;> first | rfl | exact absurd rfl hq
    · rw [exact_number (by rw [hid]; decide)]
      exact iff_of_true rfl (numberFits_of_bool hb)
  · cases (Prod.mk.inj h).1

theorem writes_binding {e : Element} {target target' : ServerInstance}
    (hid : e.id = lwm2mServerBindingId)
    (h : writeBinding e.value target = (coap204Changed, target')) : Writes e target target' := by
  obtain ⟨buffer, fits, hbuffer, _, hshort, _, rfl⟩ := writeBinding_accepted h
  refine ⟨.binding, .string buffer, ?_, rfl, ?_, ?_, fun rest => exact_overwrite hid hbuffer fits⟩
  · rw [entry_of_id (r := .binding) hid, written, hbuffer]
    rfl
  · intro q hq
    cases q <;> first | rfl | exact absurd rfl hq
  · rw [stored_binding, Value.string.injEq, exact_binding hid hbuffer]
    exact overwritten_text target.binding buffer hshort fits

/-- One case for each resource that is stored, and one for the others. -/
theorem writeElement_cases {e : Element} {target : ServerInstance}
    {P : UInt8 × ServerInstance → Prop}
    (shortId : e.id = lwm2mServerShortIdId → P (writeShortId e.value target))
    (lifetime : e.id = lwm2mServerLifetimeId → P ((prvSetIntValue e.value target.lifetime).1,
      { target with lifetime := (prvSetIntValue e.value target.lifetime).2 }))
    (minPeriod : e.id = lwm2mServerMinPeriodId →
      P ((prvSetIntValue e.value target.defaultMinPeriod).1,
        { target with defaultMinPeriod := (prvSetIntValue e.value target.defaultMinPeriod).2 }))
    (maxPeriod : e.id = lwm2mServerMaxPeriodId →
      P ((prvSetIntValue e.value target.defaultMaxPeriod).1,
        { target with defaultMaxPeriod := (prvSetIntValue e.value target.defaultMaxPeriod).2 }))
    (disableTimeout : e.id = lwm2mServerTimeoutId →
      P ((prvSetIntValue e.value target.disableTimeout).1,
        { target with disableTimeout := (prvSetIntValue e.value target.disableTimeout).2 }))
    (storing : e.id = lwm2mServerStoringId → P (writeStoring e.value target))
    (binding : e.id = lwm2mServerBindingId → P (writeBinding e.value target))
    (refused : (∀ r : Resource, e.id ≠ r.id) →
      ∀ code ∈ [coap405MethodNotAllowed, coap404NotFound], P (code, target)) :
    P (writeElement e target) := by
  unfold writeElement
  by_cases hshort : e.id = lwm2mServerShortIdId
  · rw [if_pos hshort]
    exact shortId hshort
  rw [if_neg hshort]
  by_cases hlifetime : e.id = lwm2mServerLifetimeId
  · rw [if_pos hlifetime]
    exact lifetime hlifetime
  rw [if_neg hlifetime]
  by_cases hmin : e.id = lwm2mServerMinPeriodId
  · rw [if_pos hmin]
    exact minPeriod hmin
  rw [if_neg hmin]
  by_cases hmax : e.id = lwm2mServerMaxPeriodId
  · rw [if_pos hmax]
    exact maxPeriod hmax
  rw [if_neg hmax]
  by_cases hdisable : e.id = lwm2mServerDisableId
  · rw [if_pos hdisable]
    refine refused ?_ _ (by simp)
    intro r hr
    rw [hdisable] at hr
    cases r <;> cases hr
  rw [if_neg hdisable]
  by_cases htimeout : e.id = lwm2mServerTimeoutId
  · rw [if_pos htimeout]
    exact disableTimeout htimeout
  rw [if_neg htimeout]
  by_cases hstoring : e.id = lwm2mServerStoringId
  · rw [if_pos hstoring]
    exact storing hstoring
  rw [if_neg hstoring]
  by_cases hbinding : e.id = lwm2mServerBindingId
  · rw [if_pos hbinding]
    exact binding hbinding
  rw [if_neg hbinding]
  have hnone : ∀ r : Resource, e.id ≠ r.id := by
    intro r
    cases r <;> assumption
  by_cases hupdate : e.id = lwm2mServerUpdateId
  · rw [if_pos hupdate]
    exact refused hnone _ (by simp)
  · rw [if_neg hupdate]
    exact refused hnone _ (by simp)

theorem writeElement_accepted {e : Element} {target target' : ServerInstance}
    (h : writeElement e target = (coap204Changed, target')) : Writes e target target' := by
  revert h
  apply writeElement_cases (P := fun r => r = (coap204Changed, target') → Writes e target target')
  · exact writes_shortId
  · intro hid
    exact writes_int (r := .lifetime) (fun value => { target with lifetime := value }) hid
      (by decide) (fun _ => rfl) (fun _ => rfl)
      (fun value q hq => by cases q <;> first | rfl | exact absurd rfl hq)
      (fun _ => rfl) (fun _ => rfl)
  · intro hid
    exact writes_int (r := .minPeriod) (fun value => { target with defaultMinPeriod := value }) hid
      (by decide) (fun _ => rfl) (fun _ => rfl)
      (fun value q hq => by cases q <;> first | rfl | exact absurd rfl hq)
      (fun _ => rfl) (fun _ => rfl)
  · intro hid
    exact writes_int (r := .maxPeriod) (fun value => { target with defaultMaxPeriod := value }) hid
      (by decide) (fun _ => rfl) (fun _ => rfl)
      (fun value q hq => by cases q <;> first | rfl | exact absurd rfl hq)
      (fun _ => rfl) (fun _ => rfl)
  · intro hid
    exact writes_int (r := .disableTimeout) (fun value => { target with disableTimeout := value })
      hid (by decide) (fun _ => rfl) (fun _ => rfl)
      (fun value q hq => by cases q <;> first | rfl | exact absurd rfl hq)
      (fun _ => rfl) (fun _ => rfl)
  · exact writes_storing
  · exact writes_binding
  · intro _ code hcode h
    rw [(Prod.mk.inj h).1] at hcode
    exact absurd hcode (by decide)

/-! ## One request -/

theorem writeLoop_cons {e : Element} {rest : List Element} {target target' : ServerInstance}
    (h : writeLoop (e :: rest) target = some (coap204Changed, target')) :
    ∃ middle, writeElement e target = (coap204Changed, middle) ∧
      (rest = [] ∧ target' = middle ∨ writeLoop rest middle = some (coap204Changed, target')) := by
  cases rest with
  | nil => exact ⟨target', Option.some.inj h, Or.inl ⟨rfl, rfl⟩⟩
  | cons next rest =>
    rw [writeLoop] at h
    cases hwrite : writeElement e target with
    | mk result middle =>
      simp only [hwrite] at h
      split at h
      · rename_i hresult
        exact ⟨middle, by rw [hresult], Or.inr h⟩
      · rename_i hresult
        exact absurd (Prod.mk.inj (Option.some.inj h)).1 hresult

/-- Accepted data leave in each resource what they write last to it. -/
theorem writeLoop_accepted {data : List Element} {target target' : ServerInstance}
    (h : writeLoop data target = some (coap204Changed, target'))
    (hexact : Exact target.binding data) :
    target'.instanceId = target.instanceId ∧
    ∀ r, stored target' r = ((data.filterMap entry).reverse.lookup r).getD (stored target r) := by
  induction data generalizing target with
  | nil => cases h
  | cons e rest ih =>
    obtain ⟨middle, hwrite, hrest⟩ := writeLoop_cons h
    obtain ⟨r, v, hentry, hid, hframe, hiff, hnext⟩ := writeElement_accepted hwrite
    have hv := hiff.mpr (exact_head hexact)
    have hmiddle : ∀ q, stored middle q = if q = r then v else stored target q := by
      intro q
      split
      · rename_i hq
        rw [hq, hv]
      · rename_i hq
        exact hframe q hq
    have hlater : target'.instanceId = middle.instanceId ∧ ∀ q, stored target' q =
        ((rest.filterMap entry).reverse.lookup q).getD (stored middle q) := by
      rcases hrest with ⟨rfl, rfl⟩ | hrest
      · exact ⟨rfl, fun q => rfl⟩
      · exact ih hrest (hnext rest hexact)
    refine ⟨hlater.1.trans hid, ?_⟩
    intro q
    rw [hlater.2 q, hmiddle q, List.filterMap_cons_some hentry, List.reverse_cons,
      List.lookup_append]
    cases (rest.filterMap entry).reverse.lookup q with
    | some w => rfl
    | none =>
      simp only [Option.none_or, Option.getD_none, List.lookup_cons, List.lookup_nil]
      by_cases hq : q = r
      · simp [hq]
      · rw [if_neg hq, beq_false_of_ne hq]
        rfl

/-- What is stored for a resource of an instance, `none` where there is no such instance. -/
def storedAt (list : InstanceList) (id : Nat) (r : Resource) : Option Value :=
  (lwm2mListFind ServerInstance.instanceId id list).map fun target => stored target r

theorem lookup_entries (id other : Nat) (r : Resource) (ws : List (Resource × Value)) :
    (entries id ws).reverse.lookup (other, r) =
      if other = id then ws.reverse.lookup r else none := by
  unfold entries
  rw [← List.map_reverse]
  induction ws.reverse with
  | nil => simp
  | cons w ws ih =>
    obtain ⟨q, v⟩ := w
    simp only [List.map_cons, List.lookup_cons, ih]
    by_cases hkey : other = id ∧ r = q
    · simp [hkey]
    · have hpair : ((other, r) == (id, q)) = false := beq_false_of_ne (by simpa using hkey)
      rw [hpair]
      by_cases hid : other = id
      · have hq : (r == q) = false := beq_false_of_ne fun hq => hkey ⟨hid, hq⟩
        simp [hid, hq]
      · simp [hid]

theorem lookup_initial (r : Resource) :
    (resources.map fun r => (r, initial r)).reverse.lookup r = some (initial r) := by
  cases r <;> rfl

theorem stored_zeroed (id : Nat) (r : Resource) : stored (zeroed id) r = initial r := by
  cases r <;> rfl

/-- An accepted write to an instance of the list. -/
theorem write_accepted {id : Nat} {data : List Element} {list list' : InstanceList}
    (h : prvServerWrite id data list = some (coap204Changed, list')) :
    ∃ target target', lwm2mListFind ServerInstance.instanceId id list = some target ∧
      writeLoop data target = some (coap204Changed, target') ∧
      list' = replaceFound ServerInstance.instanceId id target' list := by
  unfold prvServerWrite at h
  split at h
  · cases (Prod.mk.inj (Option.some.inj h)).1
  · rename_i target hfind
    obtain ⟨⟨result, target'⟩, hloop, hlist⟩ := Option.bind_eq_some_iff.mp h
    cases hlist
    exact ⟨target, target', hfind, hloop, rfl⟩

theorem storedAt_write {id : Nat} {data : List Element} {list list' : InstanceList}
    (h : prvServerWrite id data list = some (coap204Changed, list'))
    (hexact : ∀ target ∈ lwm2mListFind ServerInstance.instanceId id list,
      Exact target.binding data) (other : Nat) (r : Resource) :
    storedAt list' other r =
      ((entries id (data.filterMap entry)).reverse.lookup (other, r)).or
        (storedAt list other r) := by
  obtain ⟨target, target', hfind, hloop, rfl⟩ := write_accepted h
  obtain ⟨hid, hstored⟩ := writeLoop_accepted hloop (hexact target hfind)
  have htarget := (find_eq_some hfind).2
  unfold storedAt
  rw [find_replaceFound hfind (hid.trans htarget), lookup_entries]
  split
  · rename_i hother
    rw [hother, hfind, Option.map_some, Option.map_some, hstored r]
    cases (data.filterMap entry).reverse.lookup r with
    | none => rfl
    | some v => rfl
  · rw [Option.none_or]

theorem storedAt_add {id : Nat} {list : InstanceList}
    (fresh : lwm2mListFind ServerInstance.instanceId id list = none) (other : Nat)
    (r : Resource) :
    storedAt (lwm2mListAdd ServerInstance.instanceId (zeroed id) list) other r =
      ((entries id (resources.map fun r => (r, initial r))).reverse.lookup (other, r)).or
        (storedAt list other r) := by
  unfold storedAt
  rw [find_add (zeroed id) fresh, lookup_entries]
  have hid : (zeroed id).instanceId = id := rfl
  rw [hid]
  split
  · rw [Option.map_some, stored_zeroed, lookup_initial, Option.some_or]
  · rw [Option.none_or]

/-- The codes that a write can answer with. -/
def writeCodes : List UInt8 :=
  [coap204Changed, coap400BadRequest, coap404NotFound, coap405MethodNotAllowed,
    coap406NotAcceptable]

theorem setInt_code (v : Value) (data : UInt32) : (prvSetIntValue v data).1 ∈ writeCodes := by
  unfold prvSetIntValue
  split
  · split <;> simp [writeCodes]
  · simp [writeCodes]

theorem writeElement_code (e : Element) (target : ServerInstance) :
    (writeElement e target).1 ∈ writeCodes := by
  apply writeElement_cases (P := fun r => r.1 ∈ writeCodes)
  · intro _
    have hset := setInt_code e.value target.shortServerId.toUInt32
    unfold writeShortId
    cases hresult : prvSetIntValue e.value target.shortServerId.toUInt32 with
    | mk result value =>
      rw [hresult] at hset
      simp only
      split
      · split
        · exact hset
        · simp [writeCodes]
      · exact hset
  · exact fun _ => setInt_code _ _
  · exact fun _ => setInt_code _ _
  · exact fun _ => setInt_code _ _
  · exact fun _ => setInt_code _ _
  · intro _
    unfold writeStoring
    split <;> simp [writeCodes]
  · intro _
    unfold writeBinding storeBinding
    split
    · split <;> simp [writeCodes]
    · simp [writeCodes]
  · intro _ code hcode
    simp only [List.mem_cons, List.not_mem_nil, or_false] at hcode
    rcases hcode with rfl | rfl <;> simp [writeCodes]

/-- What every element keeps is kept by the loop, and its result is that of an element. -/
theorem writeLoop_ends {P : ServerInstance → Prop} (keeps : ∀ e s, P s → P (writeElement e s).2)
    {data : List Element} {target target' : ServerInstance} {result : UInt8}
    (h : writeLoop data target = some (result, target')) (htarget : P target) :
    P target' ∧ ∃ e s, (writeElement e s).1 = result := by
  induction data generalizing target with
  | nil => cases h
  | cons e rest ih =>
    have he := keeps e target htarget
    cases rest with
    | nil =>
      rw [writeLoop, Option.some.injEq] at h
      rw [h] at he
      exact ⟨he, e, target, by rw [h]⟩
    | cons next rest =>
      rw [writeLoop] at h
      cases hwrite : writeElement e target with
      | mk code middle =>
        simp only [hwrite] at h he
        split at h
        · exact ih h he
        · cases h
          exact ⟨he, e, target, by rw [hwrite]⟩

theorem writeLoop_code {data : List Element} {target target' : ServerInstance} {result : UInt8}
    (h : writeLoop data target = some (result, target')) : result ∈ writeCodes := by
  obtain ⟨_, e, s, rfl⟩ := writeLoop_ends (P := fun _ => True) (fun _ _ => id) h trivial
  exact writeElement_code e s

theorem write_code {id : Nat} {data : List Element} {list list' : InstanceList} {result : UInt8}
    (h : prvServerWrite id data list = some (result, list')) : result ∈ writeCodes := by
  unfold prvServerWrite at h
  split at h
  · rw [← (Prod.mk.inj (Option.some.inj h)).1]
    simp [writeCodes]
  · obtain ⟨⟨last, target'⟩, hloop, hlist⟩ := Option.bind_eq_some_iff.mp h
    cases hlist
    exact writeLoop_code hloop

theorem created_notMem_writeCodes : coap201Created ∉ writeCodes := by decide

theorem create_accepted {id : Nat} {allocated : Bool} {data : List Element}
    {list list' : InstanceList}
    (h : prvServerCreate allocated id data list = some (coap201Created, list')) :
    prvServerWrite id data (lwm2mListAdd ServerInstance.instanceId (zeroed id) list) =
      some (coap204Changed, list') := by
  unfold prvServerCreate at h
  split at h
  · obtain ⟨⟨result, written⟩, hwrite, hlist⟩ := Option.bind_eq_some_iff.mp h
    simp only at hlist
    split at hlist
    · rename_i hresult
      rw [hwrite, hresult, (Prod.mk.inj (Option.some.inj hlist)).2]
    · have hcode := write_code hwrite
      rw [(Prod.mk.inj (Option.some.inj hlist)).1] at hcode
      exact absurd hcode created_notMem_writeCodes
  · cases (Prod.mk.inj (Option.some.inj h)).1

theorem storedAt_create {id : Nat} {allocated : Bool} {data : List Element}
    {list list' : InstanceList}
    (fresh : lwm2mListFind ServerInstance.instanceId id list = none)
    (h : prvServerCreate allocated id data list = some (coap201Created, list'))
    (hexact : Exact .zero data) (other : Nat) (r : Resource) :
    storedAt list' other r =
      ((entries id (resources.map fun r => (r, initial r)) ++
        entries id (data.filterMap entry)).reverse.lookup (other, r)).or
          (storedAt list other r) := by
  rw [storedAt_write (create_accepted h) ?_ other r, storedAt_add fresh,
    List.reverse_append, List.lookup_append, Option.or_assoc]
  intro target htarget
  rw [find_add (zeroed id) fresh, if_pos (by rfl)] at htarget
  cases htarget
  exact hexact

theorem create_code {id : Nat} {allocated : Bool} {data : List Element}
    {list list' : InstanceList} {code : UInt8}
    (h : prvServerCreate allocated id data list = some (code, list')) :
    code ≠ coap204Changed := by
  unfold prvServerCreate at h
  split at h
  · obtain ⟨⟨result, written⟩, _, hlist⟩ := Option.bind_eq_some_iff.mp h
    simp only at hlist
    split at hlist
    · rw [← (Prod.mk.inj (Option.some.inj hlist)).1]
      decide
    · rename_i hresult
      rwa [← (Prod.mk.inj (Option.some.inj hlist)).1]
  · rw [← (Prod.mk.inj (Option.some.inj h)).1]
    decide

/-! ## The bindings that are accepted -/

theorem take_bindingModes :
    ∀ mode ∈ bindingModes, ∀ n ∈ [1, 2, 3], mode.take n ∈ bindingModes := by
  decide

theorem nul_notMem_bindingModes : ∀ mode ∈ bindingModes, 0 ∉ mode := by
  decide

/-- What comes before a NUL is compared, so data without one are a mode. -/
theorem writeBinding_mode {v : Value} {target target' : ServerInstance}
    (h : writeBinding v target = (coap204Changed, target')) {buffer : List UInt8}
    (hbuffer : v.asBuffer = some buffer) (hno : 0 ∉ buffer) : buffer ∈ bindingModes := by
  obtain ⟨bytes, _, hbytes, hpos, hshort, ⟨mode, hmode, hcompare⟩, _⟩ := writeBinding_accepted h
  cases hbuffer.symm.trans hbytes
  unfold strncmpEqual at hcompare
  rw [CString.text_eq_self_iff.mpr hno, List.take_length,
    CString.text_append_nul (nul_notMem_bindingModes mode hmode)] at hcompare
  rw [hcompare]
  apply take_bindingModes mode hmode
  simp only [List.mem_cons, List.not_mem_nil, or_false]
  omega

theorem writeLoop_modes {data : List Element} {target target' : ServerInstance}
    (h : writeLoop data target = some (coap204Changed, target'))
    (hexact : Exact target.binding data) : ∀ bytes ∈ bindings data, bytes ∈ bindingModes := by
  induction data generalizing target with
  | nil => cases h
  | cons e rest ih =>
    obtain ⟨middle, hwrite, hrest⟩ := writeLoop_cons h
    obtain ⟨_, _, _, _, _, _, hnext⟩ := writeElement_accepted hwrite
    intro bytes hbytes
    have hno := (hexact.2.1 bytes hbytes).1
    rw [bindings_cons] at hbytes
    rcases List.mem_append.mp hbytes with hbytes | hbytes
    · split at hbytes
      · rename_i hid
        have hbinding : writeElement e target = writeBinding e.value target := by
          unfold writeElement
          rw [hid]
          rfl
        exact writeBinding_mode (hbinding ▸ hwrite) (Option.mem_toList.mp hbytes) hno
      · cases hbytes
    · rcases hrest with ⟨rfl, _⟩ | hrest
      · cases hbytes
      · exact ih hrest (hnext rest hexact) bytes hbytes

/-! ## New ids -/

theorem writeElement_instanceId (e : Element) (target : ServerInstance) :
    (writeElement e target).2.instanceId = target.instanceId := by
  apply writeElement_cases (P := fun r => r.2.instanceId = target.instanceId)
  · intro _
    simp only [writeShortId]
    split
    · split <;> rfl
    · rfl
  · exact fun _ => rfl
  · exact fun _ => rfl
  · exact fun _ => rfl
  · exact fun _ => rfl
  · intro _
    unfold writeStoring
    split <;> rfl
  · intro _
    unfold writeBinding storeBinding
    split
    · split <;> rfl
    · rfl
  · exact fun _ _ _ => rfl

theorem writeLoop_instanceId {data : List Element} {target target' : ServerInstance}
    {result : UInt8} (h : writeLoop data target = some (result, target')) :
    target'.instanceId = target.instanceId :=
  (writeLoop_ends (P := fun s => s.instanceId = target.instanceId)
    (fun e s hs => (writeElement_instanceId e s).trans hs) h rfl).1

abbrev Ordered (list : InstanceList) : Prop := Sorted ServerInstance.instanceId list

theorem ordered_write {id : Nat} {data : List Element} {list list' : InstanceList}
    {result : UInt8} (hs : Ordered list)
    (h : prvServerWrite id data list = some (result, list')) : Ordered list' := by
  unfold prvServerWrite at h
  split at h
  · cases h
    exact hs
  · rename_i target hfind
    obtain ⟨⟨last, target'⟩, hloop, hlist⟩ := Option.bind_eq_some_iff.mp h
    cases hlist
    apply sorted_replaceFound hs
    exact (writeLoop_instanceId hloop).trans (find_eq_some hfind).2

theorem ordered_delete {list : InstanceList} (hs : Ordered list) (id : Nat) :
    Ordered (prvServerDelete id list).2 := by
  have hremove : (prvServerDelete id list).2 =
      (lwm2mListRemove ServerInstance.instanceId id list).1 := by
    unfold prvServerDelete
    cases lwm2mListRemove ServerInstance.instanceId id list with
    | mk rest removed => cases removed <;> rfl
  rw [hremove]
  exact sorted_remove hs

theorem ordered_create {id : Nat} {allocated : Bool} {data : List Element}
    {list list' : InstanceList} {result : UInt8} (hs : Ordered list)
    (fresh : lwm2mListFind ServerInstance.instanceId id list = none)
    (h : prvServerCreate allocated id data list = some (result, list')) : Ordered list' := by
  unfold prvServerCreate at h
  split at h
  · obtain ⟨⟨last, changed⟩, hwrite, hlist⟩ := Option.bind_eq_some_iff.mp h
    have hchanged := ordered_write (sorted_add (zeroed id) hs fresh) hwrite
    simp only at hlist
    split at hlist
    · cases hlist
      exact hchanged
    · cases hlist
      exact ordered_delete hchanged id
  · cases h
    exact hs

theorem ordered_step {list list' : InstanceList} {request : Request} {answer : Answer}
    (hs : Ordered list) (room : list.length < 65536)
    (h : step list request = some (list', answer)) : Ordered list' := by
  cases request with
  | create id allocated data =>
    cases id with
    | some id =>
      simp only [step, objectCreate] at h
      split at h
      · cases h
        exact hs
      · rename_i fresh
        obtain ⟨⟨code, created⟩, hcreate, hlist⟩ := Option.map_eq_some_iff.mp h
        cases hlist
        exact ordered_create hs fresh hcreate
    | none =>
      obtain ⟨⟨code, created⟩, hcreate, hlist⟩ := Option.map_eq_some_iff.mp h
      cases hlist
      exact ordered_create hs (find_newId hs room) hcreate
  | write id data =>
    obtain ⟨⟨code, changed⟩, hwrite, hlist⟩ := Option.map_eq_some_iff.mp h
    cases hlist
    exact ordered_write hs hwrite
  | delete id =>
    cases h
    exact ordered_delete hs id
  | cleanServerObject =>
    cases h
    exact sorted_nil
  | createBootstrap allocated =>
    cases h
    unfold createBootstrapServerInstance
    split
    · exact hs
    · rename_i fresh
      split
      · exact sorted_add bootInstance hs fresh
      · exact hs

/-- Until an instance has been given every id there is, a Create without an id finds one. -/
theorem new_id_free {t : InstanceList} {requests : List Request} {answers : List Answer}
    (h : Runs.run step getServerObject requests = some (t, answers))
    (room : Runs.Along (fun list _ => list.length < 65536) step getServerObject requests)
    (hroom : t.length < 65536) :
    lwm2mListFind ServerInstance.instanceId
      (lwm2mListNewId ServerInstance.instanceId t) t = none := by
  have hs : Ordered t := Runs.run_along (P := fun _ _ list => Ordered list)
    (fun _ _ _ _ _ _ hs hlength hstep => ordered_step hs hlength hstep)
    (List.pairwise_singleton _ _) room h
  exact find_newId hs hroom

/-! ## Runs of requests -/

theorem write_request {id : Nat} {data : List Element} {list list' : InstanceList} {code : UInt8}
    (h : prvServerWrite id data list = some (code, list'))
    (haccepted : code = coap201Created ∨ code = coap204Changed)
    (hexact : ∀ target ∈ lwm2mListFind ServerInstance.instanceId id list,
      Exact target.binding data) :
    (∀ other r, storedAt list' other r =
      ((entries id (data.filterMap entry)).reverse.lookup (other, r)).or
        (storedAt list other r)) ∧
    ∀ bytes ∈ bindings data, bytes ∈ bindingModes := by
  have hcode : code = coap204Changed := by
    rcases haccepted with rfl | hcode
    · exact absurd (write_code h) created_notMem_writeCodes
    · exact hcode
  subst hcode
  obtain ⟨target, target', hfind, hloop, _⟩ := write_accepted h
  exact ⟨storedAt_write h hexact, writeLoop_modes hloop (hexact target hfind)⟩

theorem create_request {id : Nat} {allocated : Bool} {data : List Element}
    {list list' : InstanceList} {code : UInt8}
    (fresh : lwm2mListFind ServerInstance.instanceId id list = none)
    (h : prvServerCreate allocated id data list = some (code, list'))
    (haccepted : code = coap201Created ∨ code = coap204Changed) (hexact : Exact .zero data) :
    (∀ other r, storedAt list' other r =
      ((entries id (resources.map fun r => (r, initial r)) ++
        entries id (data.filterMap entry)).reverse.lookup (other, r)).or
          (storedAt list other r)) ∧
    ∀ bytes ∈ bindings data, bytes ∈ bindingModes := by
  have hcode : code = coap201Created := by
    rcases haccepted with hcode | rfl
    · exact hcode
    · exact absurd rfl (create_code h)
  subst hcode
  refine ⟨storedAt_create fresh h hexact, ?_⟩
  obtain ⟨target, target', hfind, hloop, _⟩ := write_accepted (create_accepted h)
  rw [find_add (zeroed id) fresh, if_pos (by rfl)] at hfind
  cases hfind
  exact writeLoop_modes hloop hexact

theorem delete_not_accepted (id : Nat) (list : InstanceList) :
    ¬ Accepted (some ((prvServerDelete id list).1, id)) := by
  unfold prvServerDelete
  cases lwm2mListRemove ServerInstance.instanceId id list with
  | mk rest removed => cases removed <;> simp [Accepted, coap201Created, coap204Changed,
      coap202Deleted, coap404NotFound]

/-- What an accepted request does to the values, and which bindings it has brought. -/
theorem storedAt_step {list list' : InstanceList} {request : Request} {answer : Answer}
    (h : step list request = some (list', answer)) (haccepted : Accepted answer)
    (hmeets : Meets list request) :
    (∀ id r, storedAt list' id r =
      ((writes (request, answer)).reverse.lookup (id, r)).or (storedAt list id r)) ∧
    ∀ bytes ∈ bindings request.data, bytes ∈ bindingModes := by
  cases request with
  | create id allocated data =>
    cases id with
    | some id =>
      simp only [step, objectCreate] at h
      split at h
      · cases h
        rcases haccepted with h | h <;> exact absurd h (by decide)
      · rename_i fresh
        obtain ⟨⟨code, created⟩, hcreate, hlist⟩ := Option.map_eq_some_iff.mp h
        cases hlist
        exact create_request fresh hcreate haccepted hmeets
    | none =>
      obtain ⟨⟨code, created⟩, hcreate, hlist⟩ := Option.map_eq_some_iff.mp h
      cases hlist
      exact create_request hmeets.1 hcreate haccepted hmeets.2
  | write id data =>
    obtain ⟨⟨code, changed⟩, hwrite, hlist⟩ := Option.map_eq_some_iff.mp h
    cases hlist
    exact write_request hwrite haccepted hmeets
  | delete id =>
    cases h
    exact absurd haccepted (delete_not_accepted id list)
  | cleanServerObject =>
    cases h
    exact absurd haccepted id
  | createBootstrap allocated =>
    cases h
    exact absurd haccepted id

theorem lastWrite_append {past : List Request} {seen : List Answer} (request : Request)
    (answer : Answer) (h : past.length = seen.length) (id : Nat) (r : Resource) :
    lastWrite (past ++ [request]) (seen ++ [answer]) id r =
      ((writes (request, answer)).reverse.lookup (id, r)).or (lastWrite past seen id r) := by
  unfold lastWrite
  rw [List.zip_append h, List.flatMap_append, List.reverse_append, List.lookup_append]
  simp

/-- The step is repeated: each value is that of the last write, or the one from before. -/
theorem storedAt_run {list t : InstanceList} {requests : List Request} {answers : List Answer}
    (h : Runs.run step list requests = some (t, answers))
    (haccepted : ∀ answer ∈ answers, Accepted answer)
    (hmeets : Runs.Along Meets step list requests) :
    (∀ id r, storedAt t id r = (lastWrite requests answers id r).or (storedAt list id r)) ∧
    ∀ request ∈ requests, ∀ bytes ∈ bindings request.data, bytes ∈ bindingModes := by
  have kept := Runs.run_along
    (P := fun past seen u => past.length = seen.length ∧
      ((∀ answer ∈ seen, Accepted answer) →
        (∀ id r, storedAt u id r = (lastWrite past seen id r).or (storedAt list id r)) ∧
        ∀ request ∈ past, ∀ bytes ∈ bindings request.data, bytes ∈ bindingModes))
    (by
      intro past seen u request u' answer hP hC hstep
      obtain ⟨hlength, hvalues⟩ := hP
      refine ⟨by simp [hlength], ?_⟩
      intro hall
      obtain ⟨hstored, hmodes⟩ := hvalues fun a ha => hall a (List.mem_append_left _ ha)
      obtain ⟨hnew, hbrought⟩ := storedAt_step hstep (hall answer (by simp)) hC
      refine ⟨?_, ?_⟩
      · intro id r
        rw [hnew id r, hstored id r, lastWrite_append request answer hlength, Option.or_assoc]
      · intro q hq
        rcases List.mem_append.mp hq with hq | hq
        · exact hmodes q hq
        · rw [List.mem_singleton.mp hq]
          exact hbrought)
    ⟨rfl, fun _ => ⟨fun _ _ => rfl, by simp⟩⟩ hmeets h
  exact kept.2 haccepted

/-! ## Reads -/

theorem readLoop_resources (target : ServerInstance) (rs : List Resource) :
    readLoop true target (rs.map Resource.id) =
      (coap205Content, rs.map fun r => ⟨r.id, stored target r⟩) := by
  induction rs with
  | nil => rfl
  | cons r rs ih => simp [readLoop, prvGetValue_resource, ih]

/-- A Read of the full instance returns what the Reads of its resources return. -/
theorem full_read (id : Nat) (list : InstanceList) :
    prvServerRead true true id [] list =
      prvServerRead true true id (resources.map Resource.id) list := rfl

theorem read_resource (id : Nat) (r : Resource) (list : InstanceList) :
    prvServerRead true true id [r.id] list =
      match storedAt list id r with
      | some v => (coap205Content, [⟨r.id, v⟩])
      | none => (coap404NotFound, []) := by
  unfold prvServerRead storedAt
  cases lwm2mListFind ServerInstance.instanceId id list with
  | none => rfl
  | some target => exact readLoop_resources target [r]

/-- After accepted requests that meet the condition a Read returns the last write to the
resource, or what it would have returned before them, and each binding that has been written
is one of the modes. -/
theorem read_returns_last_write {list t : InstanceList} {requests : List Request}
    {answers : List Answer} (h : Runs.run step list requests = some (t, answers))
    (haccepted : ∀ answer ∈ answers, Accepted answer)
    (hmeets : Runs.Along Meets step list requests) :
    (∀ id r, prvServerRead true true id [r.id] t =
      match lastWrite requests answers id r with
      | some v => (coap205Content, [⟨r.id, v⟩])
      | none => prvServerRead true true id [r.id] list) ∧
    ∀ request ∈ requests, ∀ bytes ∈ bindings request.data, bytes ∈ bindingModes := by
  obtain ⟨hstored, hmodes⟩ := storedAt_run h haccepted hmeets
  refine ⟨?_, hmodes⟩
  intro id r
  rw [read_resource, hstored id r]
  cases lastWrite requests answers id r with
  | some v => rfl
  | none => exact (read_resource id r list).symm

def threeRequests : List Request :=
  [.write 0 [⟨1, .string (CString.ascii "86400")⟩, ⟨7, .opaqueBytes (CString.ascii "U")⟩],
    .create none true [⟨0, .opaqueBytes [1, 44]⟩, ⟨7, .string (CString.ascii "SQ")⟩],
    .write 0 [⟨7, .string (CString.ascii "UQ")⟩, ⟨7, .string (CString.ascii "UQS")⟩]]

def threeAnswers : List Answer :=
  [some (coap204Changed, 0), some (coap201Created, 1), some (coap204Changed, 0)]

theorem three_requests_read : ∃ t,
    Runs.run step getServerObject threeRequests = some (t, threeAnswers) ∧
    prvServerRead true true 0 [7] t = (coap205Content, [⟨7, .string (CString.ascii "UQS")⟩]) ∧
    prvServerRead true true 1 [0] t = (coap205Content, [⟨0, .integer 300⟩]) ∧
    prvServerRead true true 0 [1] t = (coap205Content, [⟨1, .integer 86400⟩]) := by
  have hmeets : Runs.Along Meets step getServerObject threeRequests := by decide +kernel
  obtain ⟨t, answers, hrun, hanswers⟩ : ∃ t answers,
      Runs.run step getServerObject threeRequests = some (t, answers) ∧
        decide (answers = threeAnswers) = true := Runs.run_evaluated (by decide +kernel)
  have hanswers : answers = threeAnswers := of_decide_eq_true hanswers
  subst hanswers
  obtain ⟨hread, _⟩ := read_returns_last_write hrun (by decide) hmeets
  exact ⟨t, hrun, hread 0 .binding, hread 1 .shortId, hread 0 .lifetime⟩

/-- The end of the longer binding stays behind the shorter one. -/
theorem shorter_binding_lost : ∃ t,
    Runs.run step getServerObject
      [.write 0 [⟨7, .string (CString.ascii "UQ")⟩], .write 0 [⟨7, .string (CString.ascii "U")⟩]]
      = some (t, [some (coap204Changed, 0), some (coap204Changed, 0)]) ∧
    lastWrite
      [.write 0 [⟨7, .string (CString.ascii "UQ")⟩], .write 0 [⟨7, .string (CString.ascii "U")⟩]]
      [some (coap204Changed, 0), some (coap204Changed, 0)] 0 .binding =
        some (.string (CString.ascii "U")) ∧
    prvServerRead true true 0 [7] t =
      (coap205Content, [⟨7, .string (CString.ascii "UQ")⟩]) := by
  refine ⟨_, rfl, by decide, by decide⟩

end JsEmbeddedPlatform.ObjectServer
