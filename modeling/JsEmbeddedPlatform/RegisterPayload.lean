import JsEmbeddedPlatform.Texts

/-!
# The request of a registration

The query with the endpoint and the payload with the links to the objects. Each is written into a
buffer whose length another function has counted before.
-/

set_option autoImplicit false

namespace JsEmbeddedPlatform.Registration

open CString (ascii)
open Texts

inductive Binding where
  | unknown
  | u
  | uq
  | s
  | sq
  | us
  | uqs
deriving DecidableEq, Repr

structure RegisteredObject where
  objID : UInt16
  instanceList : List UInt16
deriving DecidableEq, Repr

/-- What a context has of a client that registers. -/
structure Registrant where
  endpointName : List UInt8
  msisdn : Option (List UInt8)
  altPath : Option (List UInt8)
  objectList : List RegisteredObject
deriving DecidableEq, Repr

def securityObjectId : UInt16 := 0
def regObjectMinLen : Nat := 5
def regStart : List UInt8 := ascii "<"
def regDefaultPath : List UInt8 := ascii "/"
def regLwm2mResourceType : List UInt8 := ascii ">;rt=\"oma.lwm2m\";ct=11543,"
def regPathEnd : List UInt8 := ascii ">,"

/-! ## The payload -/

def prvGetObjectTemplate (length : Nat) (id : UInt16) : Except Stop (List UInt8) :=
  if length < regObjectMinLen then .error .refused
  else
    match putInt length (ascii "</") id.toNat with
    | .error stop => .error stop
    | .ok text =>
      if length - text.length < regObjectMinLen - 3 then .error .refused
      else .ok (text ++ ascii "/")

def Registrant.path (c : Registrant) : List UInt8 :=
  match c.altPath with
  | some altPath => if altPath ≠ [] then altPath else regDefaultPath
  | none => regDefaultPath

/-- The loop of `object_getRegisterPayloadBufferLength` over the instances, with the length of the
template and where it starts. -/
def countInstances (start length : Nat) : Nat → List UInt16 → Except Stop Nat
  | index, [] => .ok index
  | index, id :: rest =>
    let index := if index ≠ start + length then index + length else index
    match utilsIntToText id.toNat (regObjectMinLen + 5) with
    | .error stop => .error stop
    | .ok digits => countInstances start length (index + digits.length + regPathEnd.length) rest

def countObjects : Nat → List RegisteredObject → Except Stop Nat
  | index, [] => .ok index
  | index, o :: rest =>
    if o.objID = securityObjectId then countObjects index rest
    else
      match prvGetObjectTemplate (regObjectMinLen + 5) o.objID with
      | .error stop => .error stop
      | .ok template =>
        if o.instanceList = [] then
          countObjects (index + template.length - 1 + regPathEnd.length) rest
        else
          match countInstances index template.length (index + template.length) o.instanceList with
          | .error stop => .error stop
          | .ok index => countObjects index rest

def objectGetRegisterPayloadBufferLength (c : Registrant) : Except Stop Nat :=
  match countObjects (regStart.length + c.path.length + regLwm2mResourceType.length)
      c.objectList with
  | .error stop => .error stop
  | .ok index => .ok (index + 1)

/-- The loop of `object_getRegisterPayload` over the instances. -/
def putInstances (bufferLen start : Nat) (template : List UInt8) :
    List UInt8 → List UInt16 → Except Stop (List UInt8)
  | text, [] => .ok text
  | text, id :: rest => do
    let text ←
      if text.length ≠ start + template.length then
        if bufferLen - text.length ≤ template.length then .error .refused
        else .ok (text ++ template)
      else .ok text
    let text ← putInt bufferLen text id.toNat
    let text ← putString bufferLen text regPathEnd
    putInstances bufferLen start template text rest

/-- One round of its loop over the objects. -/
def putObject (bufferLen : Nat) (text : List UInt8) (o : RegisteredObject) :
    Except Stop (List UInt8) :=
  match prvGetObjectTemplate (bufferLen - text.length) o.objID with
  | .error stop => .error stop
  | .ok template =>
    if o.instanceList = [] then putString bufferLen (text ++ template).dropLast regPathEnd
    else putInstances bufferLen text.length template (text ++ template) o.instanceList

def putObjects (bufferLen : Nat) : List UInt8 → List RegisteredObject → Except Stop (List UInt8)
  | text, [] => .ok text
  | text, o :: rest =>
    if o.objID = securityObjectId then putObjects bufferLen text rest
    else
      match putObject bufferLen text o with
      | .error stop => .error stop
      | .ok text => putObjects bufferLen text rest

/-- The last comma is taken back. -/
def objectGetRegisterPayload (c : Registrant) (bufferLen : Nat) : Except Stop (List UInt8) := do
  let text ← putString bufferLen [] regStart
  let text ← putString bufferLen text c.path
  let text ← putString bufferLen text regLwm2mResourceType
  let text ← putObjects bufferLen text c.objectList
  .ok text.dropLast

/-! ## The query -/

def bindingQuery : Binding → Option (List UInt8)
  | .unknown => none
  | .u => some (ascii "&b=U")
  | .uq => some (ascii "&b=UQ")
  | .s => some (ascii "&b=S")
  | .sq => some (ascii "&b=SQ")
  | .us => some (ascii "&b=US")
  | .uqs => some (ascii "&b=UQS")

def queryFront : List UInt8 := ascii "?lwm2m=1.0&ep="
def querySms : List UInt8 := ascii "&sms="
def queryLifetime : List UInt8 := ascii "&lt="

def prvGetRegistrationQueryLength (c : Registrant) (binding : Binding) (lifetime : Int) :
    Except Stop Nat :=
  let index := queryFront.length + c.endpointName.length
  let index :=
    match c.msisdn with
    | some msisdn => index + querySms.length + msisdn.length
    | none => index
  match bindingQuery binding with
  | none => .error .refused
  | some b =>
    let index := index + b.length
    if lifetime ≠ 0 then
      match utilsIntToText lifetime 21 with
      | .error stop => .error stop
      | .ok digits => .ok (index + queryLifetime.length + digits.length + 1)
    else .ok (index + 1)

def putSms (length : Nat) (text : List UInt8) : Option (List UInt8) → Except Stop (List UInt8)
  | none => .ok text
  | some msisdn => do
    let text ← putString length text querySms
    putString length text msisdn

def putBinding (length : Nat) (text : List UInt8) (binding : Binding) :
    Except Stop (List UInt8) :=
  match bindingQuery binding with
  | some b => putString length text b
  | none => .error .refused

def putLifetime (length : Nat) (text : List UInt8) (lifetime : Int) : Except Stop (List UInt8) :=
  if lifetime ≠ 0 then do
    let text ← putString length text queryLifetime
    putInt length text lifetime
  else .ok text

/-- The query with its NUL. -/
def prvGetRegistrationQuery (c : Registrant) (binding : Binding) (lifetime : Int)
    (length : Nat) : Except Stop (List UInt8) := do
  let text ← putString length [] queryFront
  let text ← putString length text c.endpointName
  let text ← putSms length text c.msisdn
  let text ← putBinding length text binding
  let text ← putLifetime length text lifetime
  if text.length < length then .ok (text ++ [0]) else .error .refused

/-! ## The links -/

/-- The front of a link, which the instances of an object have in common. -/
def template (id : UInt16) : List UInt8 := ascii "</" ++ Decimal.text id.toNat ++ ascii "/"

def instanceLink (objID id : UInt16) : List UInt8 :=
  template objID ++ Decimal.text id.toNat ++ ascii ">"

def objectLinks (o : RegisteredObject) : List (List UInt8) :=
  if o.instanceList = [] then [(template o.objID).dropLast ++ ascii ">"]
  else o.instanceList.map (instanceLink o.objID)

def Registrant.objects (c : Registrant) : List RegisteredObject :=
  c.objectList.filter (·.objID ≠ securityObjectId)

/-- The links of a payload: one with the path and the resource type, then those of the objects. -/
def Registrant.links (c : Registrant) : List (List UInt8) :=
  (regStart ++ c.path ++ regLwm2mResourceType.dropLast) :: c.objects.flatMap objectLinks

/-- The links with a comma behind each. -/
def withCommas (links : List (List UInt8)) : List UInt8 := (links.map (· ++ [44])).flatten

theorem withCommas_append (front back : List (List UInt8)) :
    withCommas (front ++ back) = withCommas front ++ withCommas back := by
  unfold withCommas
  rw [List.map_append, List.flatten_append]

theorem withCommas_cons (link : List UInt8) (links : List (List UInt8)) :
    withCommas (link :: links) = link ++ [44] ++ withCommas links := rfl

theorem withCommas_eq {links : List (List UInt8)} (h : links ≠ []) :
    withCommas links = [44].intercalate links ++ [44] := by
  induction links with
  | nil => exact absurd rfl h
  | cons link links ih =>
    cases links with
    | nil => simp [withCommas]
    | cons next links =>
      rw [withCommas_cons, ih (List.cons_ne_nil _ _), List.intercalate_cons_cons,
        List.append_assoc, List.append_assoc, List.append_assoc]

theorem length_template_le (id : UInt16) : (template id).length ≤ 8 := by
  have hdigits := length_text_uint16 id
  have hfront : (ascii "</").length = 2 := by decide
  have hback : (ascii "/").length = 1 := by decide
  unfold template
  rw [List.length_append, List.length_append, hfront, hback]
  omega

theorem getObjectTemplate_ok {length : Nat} {id : UInt16}
    (h : (template id).length + 1 ≤ length) :
    prvGetObjectTemplate length id = .ok (template id) := by
  have hfront : (ascii "</").length = 2 := by decide
  have hback : (ascii "/").length = 1 := by decide
  have hpos := Decimal.length_text_pos id.toNat
  unfold template at h
  rw [List.length_append, List.length_append, hfront, hback] at h
  unfold prvGetObjectTemplate regObjectMinLen
  rw [if_neg (by omega), putInt_ok (by rw [hfront]; omega)]
  dsimp only
  rw [List.length_append, hfront, if_neg (by omega)]
  rfl

theorem length_regPathEnd : regPathEnd.length = 2 := by decide

theorem regPathEnd_eq : regPathEnd = ascii ">" ++ [44] := by decide

section Fits
variable {bufferLen : Nat}

theorem putInstances_cons {start : Nat} {front text : List UInt8} (id : UInt16)
    (ids : List UInt16)
    (hroom : (if text.length ≠ start + front.length then text ++ front else text).length +
      (Decimal.text id.toNat).length + 2 < bufferLen) :
    putInstances bufferLen start front text (id :: ids) =
      putInstances bufferLen start front
        ((if text.length ≠ start + front.length then text ++ front else text) ++
          Decimal.text id.toNat ++ regPathEnd) ids := by
  have hlater : ∀ text' : List UInt8,
      text'.length + (Decimal.text id.toNat).length + 2 < bufferLen →
      (do
        let text ← putInt bufferLen text' id.toNat
        let text ← putString bufferLen text regPathEnd
        putInstances bufferLen start front text ids) =
        putInstances bufferLen start front (text' ++ Decimal.text id.toNat ++ regPathEnd) ids := by
    intro text' hroom'
    have hlen := length_regPathEnd
    rw [putInt_ok (by omega), ok_bind, putString_ok (by rw [List.length_append]; omega), ok_bind]
  rw [putInstances]
  by_cases hfirst : text.length ≠ start + front.length
  · rw [if_pos hfirst] at hroom ⊢
    rw [List.length_append] at hroom
    rw [if_pos hfirst, if_neg (by omega)]
    exact hlater (text ++ front) (by rw [List.length_append]; exact hroom)
  · rw [if_neg hfirst] at hroom ⊢
    rw [if_neg hfirst]
    exact hlater text hroom

/-- The loop over the instances, once its first link is written. -/
theorem putInstances_ok {start : Nat} (objID : UInt16) {text : List UInt8} (ids : List UInt16)
    (hpast : start + (template objID).length < text.length)
    (hroom : text.length + (withCommas (ids.map (instanceLink objID))).length < bufferLen) :
    putInstances bufferLen start (template objID) text ids =
      .ok (text ++ withCommas (ids.map (instanceLink objID))) := by
  induction ids generalizing text with
  | nil =>
    have hnil : withCommas ([].map (instanceLink objID)) = [] := rfl
    rw [putInstances, hnil, List.append_nil]
  | cons id ids ih =>
    have hfirst : text.length ≠ start + (template objID).length := by omega
    have hlink : text ++ template objID ++ Decimal.text id.toNat ++ regPathEnd =
        text ++ (instanceLink objID id ++ [44]) := by
      rw [regPathEnd_eq, instanceLink]
      simp only [List.append_assoc]
    have hlen : (instanceLink objID id).length + 1 =
        (template objID).length + (Decimal.text id.toNat).length + 2 := by
      have hone : (ascii ">").length = 1 := by decide
      rw [instanceLink, List.length_append, List.length_append, hone]
    rw [List.map_cons, withCommas_cons, List.length_append, List.length_append,
      List.length_singleton] at hroom
    rw [putInstances_cons id ids (by rw [if_pos hfirst, List.length_append]; omega),
      if_pos hfirst, hlink, ih (by simp only [List.length_append]; omega)
        (by simp only [List.length_append, List.length_singleton]; omega),
      List.map_cons, withCommas_cons, List.append_assoc]

theorem template_ne_nil (id : UInt16) : template id ≠ [] :=
  List.append_ne_nil_of_right_ne_nil _ (by decide)

/-- What a first instance adds to the template, and an object without instances. -/
theorem length_firstLink (objID id : UInt16) :
    (instanceLink objID id).length =
      (template objID).length + (Decimal.text id.toNat).length + 1 := by
  have hone : (ascii ">").length = 1 := by decide
  rw [instanceLink, List.length_append, List.length_append, hone]

theorem length_emptyLink (objID : UInt16) :
    ((template objID).dropLast ++ ascii ">").length = (template objID).length := by
  have hone : (ascii ">").length = 1 := by decide
  have hpos := List.length_pos_iff.mpr (template_ne_nil objID)
  rw [List.length_append, List.length_dropLast, hone]
  omega

theorem putObject_ok {text : List UInt8} (o : RegisteredObject)
    (hroom : text.length + (withCommas (objectLinks o)).length < bufferLen) :
    putObject bufferLen text o = .ok (text ++ withCommas (objectLinks o)) := by
  have hend := length_regPathEnd
  have hne := template_ne_nil o.objID
  have hpos := List.length_pos_iff.mpr hne
  cases hlist : o.instanceList with
  | nil =>
    have hlinks : objectLinks o = [(template o.objID).dropLast ++ ascii ">"] := by
      rw [objectLinks, if_pos hlist]
    have hlen := length_emptyLink o.objID
    rw [hlinks, withCommas_cons, List.length_append, List.length_append, hlen,
      List.length_singleton] at hroom
    rw [putObject, getObjectTemplate_ok (by omega)]
    dsimp only
    rw [if_pos hlist, List.dropLast_append_of_ne_nil hne, putString_ok ?_, hlinks, withCommas_cons,
      regPathEnd_eq]
    · simp [withCommas]
    · rw [List.length_append, List.length_dropLast, hend]
      omega
  | cons id ids =>
    have hsome : o.instanceList ≠ [] := by
      rw [hlist]
      exact List.cons_ne_nil _ _
    have hlinks : objectLinks o =
        instanceLink o.objID id :: ids.map (instanceLink o.objID) := by
      rw [objectLinks, if_neg hsome, hlist, List.map_cons]
    have hlen := length_firstLink o.objID id
    rw [hlinks, withCommas_cons, List.length_append, List.length_append, hlen,
      List.length_singleton] at hroom
    have hfirst : ¬ (text ++ template o.objID).length ≠ text.length + (template o.objID).length :=
      fun hlength => hlength List.length_append
    have hdigits := Decimal.length_text_pos id.toNat
    rw [putObject, getObjectTemplate_ok (by omega)]
    dsimp only
    rw [if_neg hsome, hlist, putInstances_cons id ids
        (by rw [if_neg hfirst, List.length_append]; omega), if_neg hfirst,
      putInstances_ok o.objID ids (by simp only [List.length_append]; omega)
        (by simp only [List.length_append]; omega), hlinks, withCommas_cons, regPathEnd_eq,
      instanceLink]
    simp only [List.append_assoc]

theorem putObjects_ok {text : List UInt8} (objects : List RegisteredObject)
    (hroom : text.length + (withCommas
      ((objects.filter (·.objID ≠ securityObjectId)).flatMap objectLinks)).length < bufferLen) :
    putObjects bufferLen text objects =
      .ok (text ++ withCommas
        ((objects.filter (·.objID ≠ securityObjectId)).flatMap objectLinks)) := by
  induction objects generalizing text with
  | nil =>
    have hnil : withCommas ((([] : List RegisteredObject).filter
        (·.objID ≠ securityObjectId)).flatMap objectLinks) = [] := rfl
    rw [putObjects, hnil, List.append_nil]
  | cons o objects ih =>
    rw [putObjects]
    by_cases hsecurity : o.objID = securityObjectId
    · rw [List.filter_cons_of_neg (by simp [hsecurity])] at hroom ⊢
      rw [if_pos hsecurity]
      exact ih hroom
    · rw [List.filter_cons_of_pos (by simp [hsecurity]), List.flatMap_cons,
        withCommas_append] at hroom ⊢
      rw [List.length_append] at hroom
      rw [if_neg hsecurity, putObject_ok o (by omega)]
      dsimp only
      rw [ih (by rw [List.length_append]; omega), List.append_assoc]

end Fits

/-! ## What is counted -/

theorem length_link (objID id : UInt16) (links : List (List UInt8)) :
    (withCommas (instanceLink objID id :: links)).length =
      (template objID).length + (Decimal.text id.toNat).length + regPathEnd.length +
        (withCommas links).length := by
  rw [withCommas_cons, List.length_append, List.length_append, length_firstLink,
    length_regPathEnd, List.length_singleton]

theorem countInstances_cons (start length index : Nat) (id : UInt16) (ids : List UInt16) :
    countInstances start length index (id :: ids) =
      countInstances start length ((if index ≠ start + length then index + length else index) +
        (Decimal.text id.toNat).length + regPathEnd.length) ids := by
  have hdigits := length_text_uint16 id
  rw [countInstances, utilsIntToText_nat (by unfold regObjectMinLen; omega)]

theorem countInstances_ok {start : Nat} (objID : UInt16) {index : Nat} (ids : List UInt16)
    (hpast : start + (template objID).length < index) :
    countInstances start (template objID).length index ids =
      .ok (index + (withCommas (ids.map (instanceLink objID))).length) := by
  induction ids generalizing index with
  | nil => rfl
  | cons id ids ih =>
    rw [countInstances_cons, if_pos (by omega), ih (by omega), List.map_cons, length_link]
    simp only [Nat.add_assoc]

theorem countObjects_ok (index : Nat) (objects : List RegisteredObject) :
    countObjects index objects = .ok (index + (withCommas
      ((objects.filter (·.objID ≠ securityObjectId)).flatMap objectLinks)).length) := by
  induction objects generalizing index with
  | nil => rfl
  | cons o objects ih =>
    rw [countObjects]
    by_cases hsecurity : o.objID = securityObjectId
    · rw [List.filter_cons_of_neg (by simp [hsecurity]), if_pos hsecurity]
      exact ih index
    · have hle := length_template_le o.objID
      have hpos := List.length_pos_iff.mpr (template_ne_nil o.objID)
      rw [List.filter_cons_of_pos (by simp [hsecurity]), List.flatMap_cons, withCommas_append,
        List.length_append, if_neg hsecurity,
        getObjectTemplate_ok (by unfold regObjectMinLen; omega)]
      dsimp only
      cases hlist : o.instanceList with
      | nil =>
        have hlen := length_emptyLink o.objID
        have hnil : (withCommas []).length = 0 := rfl
        rw [if_pos rfl, ih, objectLinks, if_pos hlist, withCommas_cons, List.length_append,
          List.length_append, hlen, length_regPathEnd, List.length_singleton, hnil]
        congr 1
        omega
      | cons id ids =>
        have hsome : o.instanceList ≠ [] := by
          rw [hlist]
          exact List.cons_ne_nil _ _
        have hdigits := Decimal.length_text_pos id.toNat
        rw [if_neg (List.cons_ne_nil _ _), countInstances_cons, if_neg (fun h => h rfl),
          countInstances_ok o.objID ids (by omega)]
        dsimp only
        rw [ih, objectLinks, if_neg hsome, hlist, List.map_cons, length_link]
        congr 1
        omega

/-- The front of the payload, and the comma behind it. -/
theorem links_withCommas (c : Registrant) :
    withCommas c.links = regStart ++ c.path ++ regLwm2mResourceType ++
      withCommas (c.objects.flatMap objectLinks) := by
  have hcomma : regLwm2mResourceType = regLwm2mResourceType.dropLast ++ [44] := by decide
  rw [Registrant.links, withCommas_cons]
  nth_rewrite 2 [hcomma]
  simp only [List.append_assoc]

/-- The buffer that is counted for the payload is large enough, by the two bytes that the source
speaks of, and the payload is the links with commas between them. -/
theorem registerPayload_fits (c : Registrant) :
    ∃ bufferLen, objectGetRegisterPayloadBufferLength c = .ok bufferLen ∧
      objectGetRegisterPayload c bufferLen = .ok ([44].intercalate c.links) ∧
      ([44].intercalate c.links).length + 2 = bufferLen := by
  have hne : c.links ≠ [] := List.cons_ne_nil _ _
  have hall := links_withCommas c
  have hlast := withCommas_eq hne
  have hlen : (withCommas c.links).length = ([44].intercalate c.links).length + 1 := by
    rw [hlast, List.length_append, List.length_singleton]
  have hparts : (withCommas c.links).length = regStart.length + c.path.length +
      regLwm2mResourceType.length + (withCommas (c.objects.flatMap objectLinks)).length := by
    rw [hall]
    simp only [List.length_append]
  refine ⟨(withCommas c.links).length + 1, ?_, ?_, by omega⟩
  · unfold objectGetRegisterPayloadBufferLength
    rw [countObjects_ok, hparts]
    rfl
  · have hobjects : putObjects ((withCommas c.links).length + 1)
        (regStart ++ c.path ++ regLwm2mResourceType) c.objectList =
          .ok (withCommas c.links) := by
      unfold Registrant.objects at hall hparts
      rw [putObjects_ok c.objectList (by simp only [List.length_append]; omega), ← hall]
    have hstart : ([] : List UInt8) ++ regStart = regStart := List.nil_append _
    unfold objectGetRegisterPayload
    rw [putString_ok (by rw [List.length_nil]; omega), ok_bind, hstart,
      putString_ok (by omega), ok_bind,
      putString_ok (by rw [List.length_append]; omega), ok_bind,
      hobjects, ok_bind, hlast, List.dropLast_concat]

/-! ## What a query says -/

def Registrant.smsPart (c : Registrant) : List UInt8 :=
  match c.msisdn with
  | some msisdn => querySms ++ msisdn
  | none => []

/-- The lifetime is left out where it is zero. -/
def lifetimePart (lifetime : Nat) : List UInt8 :=
  if lifetime ≠ 0 then queryLifetime ++ Decimal.text lifetime else []

def Registrant.queryText (c : Registrant) (binding : List UInt8) (lifetime : Nat) : List UInt8 :=
  queryFront ++ c.endpointName ++ c.smsPart ++ binding ++ lifetimePart lifetime

section PutQuery
variable {length : Nat} {text : List UInt8}

theorem putSms_ok (c : Registrant) (h : text.length + c.smsPart.length < length) :
    putSms length text c.msisdn = .ok (text ++ c.smsPart) := by
  unfold Registrant.smsPart at h ⊢
  cases hmsisdn : c.msisdn with
  | none =>
    rw [putSms]
    dsimp only
    rw [List.append_nil]
  | some msisdn =>
    rw [hmsisdn] at h
    dsimp only at h ⊢
    rw [List.length_append] at h
    rw [putSms, putString_ok (by omega), ok_bind,
      putString_ok (by rw [List.length_append]; omega), List.append_assoc]

theorem putLifetime_ok {lifetime : Nat}
    (h : text.length + (lifetimePart lifetime).length < length) :
    putLifetime length text lifetime = .ok (text ++ lifetimePart lifetime) := by
  unfold lifetimePart at h ⊢
  unfold putLifetime
  by_cases hzero : lifetime = 0
  · rw [if_neg (not_not.mpr hzero), if_neg (not_not.mpr (by rw [hzero]; rfl)), List.append_nil]
  · have hnonzero : (lifetime : Int) ≠ 0 := by omega
    rw [if_pos hzero, List.length_append] at h
    rw [if_pos hzero, if_pos hnonzero, putString_ok (by omega), ok_bind,
      putInt_ok (by rw [List.length_append]; omega), List.append_assoc]

end PutQuery

/-- The buffer that is counted for the query is as long as the query with its NUL. -/
theorem registrationQuery_fits (c : Registrant) {binding : Binding} {b : List UInt8}
    (hbinding : bindingQuery binding = some b) {lifetime : Nat} (hlifetime : lifetime < 2 ^ 63) :
    ∃ length, prvGetRegistrationQueryLength c binding lifetime = .ok length ∧
      prvGetRegistrationQuery c binding lifetime length =
        .ok (c.queryText b lifetime ++ [0]) ∧
      (c.queryText b lifetime).length + 1 = length := by
  have hdigits : (Decimal.text lifetime).length ≤ 21 := by
    rw [Decimal.length_text_le_iff (by decide)]
    exact Nat.lt_trans hlifetime (by decide)
  refine ⟨(c.queryText b lifetime).length + 1, ?_, ?_, rfl⟩
  · unfold prvGetRegistrationQueryLength Registrant.queryText Registrant.smsPart lifetimePart
    rw [hbinding]
    dsimp only
    rw [utilsIntToText_nat hdigits]
    cases c.msisdn <;> by_cases hzero : lifetime = 0 <;> simp [hzero] <;> omega
  · have hfront : ([] : List UInt8) ++ queryFront = queryFront := List.nil_append _
    have hparts : (c.queryText b lifetime).length = queryFront.length + c.endpointName.length +
        c.smsPart.length + b.length + (lifetimePart lifetime).length := by
      unfold Registrant.queryText
      simp only [List.length_append]
    unfold prvGetRegistrationQuery putBinding
    rw [putString_ok (by rw [List.length_nil]; omega), ok_bind, hfront,
      putString_ok (by omega), ok_bind,
      putSms_ok c (by rw [List.length_append]; omega), ok_bind, hbinding]
    dsimp only
    rw [putString_ok (by simp only [List.length_append]; omega), ok_bind,
      putLifetime_ok (by simp only [List.length_append]; omega), ok_bind]
    exact if_pos (Nat.lt_succ_self _)

end JsEmbeddedPlatform.Registration
