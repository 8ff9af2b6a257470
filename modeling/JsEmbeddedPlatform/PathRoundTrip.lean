import JsEmbeddedPlatform.CoapRoundTrip
import JsEmbeddedPlatform.Paths

/-!
# Paths are read back

An object, an instance of it or a resource of that: its text and its options are read as the path
they were written for, but a text with its slash at the end is not read where it names a resource.
-/

set_option autoImplicit false

namespace JsEmbeddedPlatform.Paths

open Coap (Packet coapSetHeaderUriPathSegment coapInitMessage multiOption_short)
open Lwm2mData (Fault access)
open Texts

/-- What a path can name. -/
inductive Path where
  | object (objectId : UInt16)
  | objectInstance (objectId instanceId : UInt16)
  | resource (objectId instanceId resourceId : UInt16)
deriving DecidableEq, Repr

def Path.toUri : Path → Uri
  | .object o => { flag := uriFlagObjectId, objectId := o }
  | .objectInstance o i =>
    { flag := uriFlagObjectId ||| uriFlagInstanceId, objectId := o, instanceId := i }
  | .resource o i r =>
    { flag := uriFlagObjectId ||| uriFlagInstanceId ||| uriFlagResourceId
      objectId := o
      instanceId := i
      resourceId := r }

def segment (id : UInt16) : List UInt8 := 47 :: Decimal.text id.toNat

def Path.text : Path → List UInt8
  | .object o => segment o
  | .objectInstance o i => segment o ++ segment i
  | .resource o i r => segment o ++ segment i ++ segment r

def Path.depth : Path → Depth
  | .object _ => .objectInstance
  | .objectInstance _ _ => .resource
  | .resource _ _ _ => .resourceInstance

/-- The ids that can be read: 65535 stands for no instance and no resource. -/
def Path.Readable : Path → Prop
  | .object _ => True
  | .objectInstance _ i => i ≠ 65535
  | .resource _ i r => i ≠ 65535 ∧ r ≠ 65535

instance (p : Path) : Decidable p.Readable :=
  match p with
  | .object _ => isTrue trivial
  | .objectInstance _ i => inferInstanceAs (Decidable (i ≠ 65535))
  | .resource _ i r => inferInstanceAs (Decidable (i ≠ 65535 ∧ r ≠ 65535))

def Path.hasInstance : Path → Bool
  | .object _ => false
  | .objectInstance _ _ => true
  | .resource _ _ _ => true

def Path.hasResource : Path → Bool
  | .object _ => false
  | .objectInstance _ _ => false
  | .resource _ _ _ => true

theorem isSetInstance_toUri (p : Path) : p.toUri.isSetInstance = p.hasInstance := by
  cases p with
  | object o =>
    dsimp only [Path.toUri, Uri.isSetInstance, Path.hasInstance]
    exact decide_eq_false (by decide)
  | objectInstance o i =>
    dsimp only [Path.toUri, Uri.isSetInstance, Path.hasInstance]
    exact decide_eq_true (by decide)
  | resource o i r =>
    dsimp only [Path.toUri, Uri.isSetInstance, Path.hasInstance]
    exact decide_eq_true (by decide)

theorem isSetResource_toUri (p : Path) : p.toUri.isSetResource = p.hasResource := by
  cases p with
  | object o =>
    dsimp only [Path.toUri, Uri.isSetResource, Path.hasResource]
    exact decide_eq_false (by decide)
  | objectInstance o i =>
    dsimp only [Path.toUri, Uri.isSetResource, Path.hasResource]
    exact decide_eq_false (by decide)
  | resource o i r =>
    dsimp only [Path.toUri, Uri.isSetResource, Path.hasResource]
    exact decide_eq_true (by decide)

/-! ## Writing texts -/

theorem length_segment (id : UInt16) :
    (segment id).length = (Decimal.text id.toNat).length + 1 := rfl

/-- An id behind a text that ends with a slash. -/
theorem putId_eq {bufferLen : Nat} (text : List UInt8) (id : UInt16)
    (hroom : text.length + 1 < bufferLen) :
    putId bufferLen (text ++ [47]) id =
      .ok (if (text ++ segment id).length + 1 < bufferLen then some (text ++ segment id)
        else none) := by
  have hjoin : text ++ [47] ++ Decimal.text id.toNat = text ++ segment id := by
    rw [List.append_assoc]
    rfl
  have hlen : (text ++ segment id).length = text.length + 1 + (Decimal.text id.toNat).length := by
    rw [List.length_append, length_segment]
    omega
  unfold putId
  by_cases hdigits : (text ++ [47]).length + (Decimal.text id.toNat).length ≤ bufferLen
  · rw [putInt_ok hdigits, hjoin]
    dsimp only
    by_cases hfits : (text ++ segment id).length + 1 < bufferLen
    · rw [if_pos hfits, if_neg (by omega)]
    · rw [if_neg hfits, if_pos (by omega)]
  · have hlong : putInt bufferLen (text ++ [47]) id.toNat = .error .refused := by
      unfold putInt
      rw [List.length_append, List.length_singleton] at hdigits ⊢
      rw [utilsIntToText_long (by omega) (by omega)]
    rw [List.length_append, List.length_singleton] at hdigits
    rw [hlong]
    dsimp only
    rw [if_neg (by omega)]

section Writing
variable {uri : Uri} {bufferLen : Nat} {text : List UInt8}

theorem resourceToString_eq {r : UInt16} (hr : uri.resourceId = r)
    (hset : uri.isSetResource = true) (hroom : text.length + 1 < bufferLen) :
    resourceToString uri bufferLen text =
      .ok (if (text ++ segment r).length + 1 < bufferLen then
        some (text ++ segment r ++ [47], .resourceInstance) else none) := by
  unfold resourceToString
  rw [if_pos hset, hr, putId_eq _ _ hroom, Lwm2mData.ok_bind]
  by_cases hfits : (text ++ segment r).length + 1 < bufferLen
  · rw [if_pos hfits, if_pos hfits]
  · rw [if_neg hfits, if_neg hfits]

theorem instanceToString_eq {i : UInt16} (hi : uri.instanceId = i)
    (hset : uri.isSetInstance = true) (hroom : text.length + 1 < bufferLen) :
    instanceToString uri bufferLen text =
      if (text ++ segment i).length + 1 < bufferLen then
        resourceToString uri bufferLen (text ++ segment i)
      else .ok none := by
  unfold instanceToString
  rw [if_pos hset, hi, putId_eq _ _ hroom, Lwm2mData.ok_bind]
  by_cases hfits : (text ++ segment i).length + 1 < bufferLen
  · rw [if_pos hfits, if_pos hfits]
  · rw [if_neg hfits, if_neg hfits]

theorem objectToString_eq {o : UInt16} (ho : uri.objectId = o) (hroom : 2 ≤ bufferLen) :
    uriToString (some uri) bufferLen =
      if (segment o).length + 1 < bufferLen then instanceToString uri bufferLen (segment o)
      else .ok none := by
  have hput := putId_eq [] o (by rw [List.length_nil]; exact hroom)
  rw [List.nil_append, List.nil_append] at hput
  unfold uriToString
  rw [if_neg (by omega)]
  dsimp only
  rw [ho, hput, Lwm2mData.ok_bind]
  by_cases hfits : (segment o).length + 1 < bufferLen
  · rw [if_pos hfits, if_pos hfits]
  · rw [if_neg hfits, if_neg hfits]

/-- The text is written where it fits with a slash and one character more. -/
theorem uriToString_eq (p : Path) (hroom : 2 ≤ bufferLen) :
    uriToString (some p.toUri) bufferLen =
      .ok (if p.text.length + 1 < bufferLen then some (p.text ++ [47], p.depth) else none) := by
  have hinst := isSetInstance_toUri p
  have hres := isSetResource_toUri p
  cases p with
  | object o =>
    rw [objectToString_eq (o := o) rfl hroom]
    unfold Path.text Path.depth
    by_cases hobject : (segment o).length + 1 < bufferLen
    · rw [if_pos hobject, if_pos hobject, instanceToString, if_neg (by rw [hinst]; exact Bool.false_ne_true)]
    · rw [if_neg hobject, if_neg hobject]
  | objectInstance o i =>
    rw [objectToString_eq (o := o) rfl hroom]
    unfold Path.text Path.depth
    by_cases hobject : (segment o).length + 1 < bufferLen
    · rw [if_pos hobject, instanceToString_eq (i := i) rfl hinst hobject]
      by_cases hinstance : (segment o ++ segment i).length + 1 < bufferLen
      · rw [if_pos hinstance, if_pos hinstance, resourceToString,
          if_neg (by rw [hres]; exact Bool.false_ne_true)]
      · rw [if_neg hinstance, if_neg hinstance]
    · rw [if_neg hobject, if_neg (by rw [List.length_append]; omega)]
  | resource o i r =>
    rw [objectToString_eq (o := o) rfl hroom]
    unfold Path.text Path.depth
    by_cases hobject : (segment o).length + 1 < bufferLen
    · rw [if_pos hobject, instanceToString_eq (i := i) rfl hinst hobject]
      by_cases hinstance : (segment o ++ segment i).length + 1 < bufferLen
      · rw [if_pos hinstance, resourceToString_eq (r := r) rfl hres hinstance]
      · rw [if_neg hinstance, if_neg (by rw [List.length_append]; omega)]
    · rw [if_neg hobject, if_neg (by rw [List.length_append, List.length_append]; omega)]

end Writing

/-! ## Reading texts -/

theorem ofInt_toNat (id : UInt16) : UInt16.ofInt (id.toNat : Int) = id := by
  have hlt := id.toNat_lt
  have hmod : ((id.toNat : Int) % 2 ^ 16).toNat = id.toNat := by omega
  rw [UInt16.ofInt, hmod]
  exact UInt16.ofNat_toNat

theorem readId_segment (front rest beyond : List UInt8) (id : UInt16) {max : Int}
    (hmax : (id.toNat : Int) ≤ max) (hrest : Stops rest) {bufferLen : Nat}
    (hlen : bufferLen = (front ++ segment id ++ rest).length) :
    readId (front ++ segment id ++ rest ++ beyond) bufferLen (front.length + 1) max =
      .ok (some (id, (front ++ segment id).length)) := by
  have hid := id.toNat_lt
  have hfront : front ++ segment id ++ rest = (front ++ [47]) ++ Decimal.text id.toNat ++ rest := by
    unfold segment
    simp only [List.append_assoc, List.singleton_append]
  have hparse := prvParseNumber_text (front ++ [47]) rest beyond (n := id.toNat) (by omega) hrest
  have hslash : (front ++ [47]).length = front.length + 1 := List.length_append
  rw [hslash] at hparse
  rw [hlen, hfront]
  unfold readId
  rw [hparse]
  dsimp only
  rw [if_neg (by omega), ofInt_toNat]
  congr 3
  rw [List.length_append, length_segment]
  omega

theorem passSlash_behind (front rest : List UInt8) (c : UInt8) :
    passSlash (front ++ c :: rest) front.length =
      .ok (if c = 47 then front.length + 1 else front.length) := by
  unfold passSlash
  rw [List.getElem?_append_right (Nat.le_refl _), Nat.sub_self, List.getElem?_cons_zero]

section Reading
variable (front more beyond : List UInt8) (uri : Uri) {bufferLen : Nat}

theorem toNat_le_of_ne {id : UInt16} (h : id ≠ 65535) : (id.toNat : Int) ≤ lwm2mMaxId - 1 := by
  have hlt := id.toNat_lt
  have hne : id.toNat ≠ 65535 := fun heq => h (UInt16.toNat_inj.mp heq)
  unfold lwm2mMaxId
  omega

theorem stringToResource_eq {r : UInt16} (hr : r ≠ 65535) {rest : List UInt8}
    (hrest : Stops rest) (hlen : bufferLen = (front ++ segment r ++ rest).length) :
    stringToResource (front ++ segment r ++ rest ++ beyond) bufferLen (front.length + 1) uri =
      .ok (if rest = [] then
        some (bufferLen, { uri with flag := uri.flag ||| uriFlagResourceId, resourceId := r })
      else none) := by
  unfold stringToResource
  rw [readId_segment _ _ _ r (toNat_le_of_ne hr) hrest hlen, Lwm2mData.ok_bind]
  dsimp only
  rw [List.length_append] at hlen
  by_cases hnil : rest = []
  · rw [hnil, List.length_nil, Nat.add_zero] at hlen
    rw [if_pos hnil, if_neg (fun hne => hne hlen.symm), hlen]
  · have hpos := List.length_pos_iff.mpr hnil
    rw [if_neg hnil, if_pos (by omega)]

/-- An instance with a slash behind it. -/
theorem stringToInstance_slash {i : UInt16} (hi : i ≠ 65535)
    (hlen : bufferLen = (front ++ segment i ++ 47 :: more).length) :
    stringToInstance (front ++ segment i ++ 47 :: more ++ beyond) bufferLen (front.length + 1)
        uri =
      if more = [] then
        .ok (some (bufferLen,
          { uri with flag := uri.flag ||| uriFlagInstanceId, instanceId := i }))
      else
        stringToResource (front ++ segment i ++ 47 :: more ++ beyond) bufferLen
          ((front ++ segment i).length + 1)
          { uri with flag := uri.flag ||| uriFlagInstanceId, instanceId := i } := by
  have hpass := passSlash_behind (front ++ segment i) (more ++ beyond) 47
  rw [if_pos rfl, ← List.cons_append, ← List.append_assoc] at hpass
  unfold stringToInstance
  rw [readId_segment _ _ _ i (toNat_le_of_ne hi) (.inr rfl) hlen, Lwm2mData.ok_bind]
  dsimp only
  rw [hpass, Lwm2mData.ok_bind]
  rw [List.length_append, List.length_cons] at hlen
  by_cases hnil : more = []
  · rw [hnil, List.length_nil, Nat.zero_add] at hlen
    rw [if_pos hnil, if_pos (Nat.le_of_eq hlen), hlen]
  · have hpos := List.length_pos_iff.mpr hnil
    rw [if_neg hnil, if_neg (by omega)]

/-- An instance at the end of the text. -/
theorem stringToInstance_end {i : UInt16} (hi : i ≠ 65535) {c : UInt8} (hc : c ≠ 47)
    (hlen : bufferLen = (front ++ segment i).length) :
    stringToInstance (front ++ segment i ++ c :: beyond) bufferLen (front.length + 1) uri =
      .ok (some (bufferLen,
        { uri with flag := uri.flag ||| uriFlagInstanceId, instanceId := i })) := by
  have hread := readId_segment front [] (c :: beyond) i (toNat_le_of_ne hi) (.inl rfl)
    (hlen.trans (by rw [List.append_nil]))
  rw [List.append_nil] at hread
  unfold stringToInstance
  rw [hread, Lwm2mData.ok_bind]
  dsimp only
  rw [passSlash_behind, if_neg hc, Lwm2mData.ok_bind, if_pos (Nat.le_of_eq hlen), hlen]

/-- What comes before the object id. -/
theorem stringToUri_eq (o : UInt16) {rest : List UInt8} (hrest : Stops rest)
    (hlen : bufferLen = (segment o ++ rest).length) :
    lwm2mStringToUri (segment o ++ rest ++ beyond) bufferLen = (do
      let head ← passSlash (segment o ++ rest ++ beyond) (segment o).length
      if bufferLen ≤ head then
        .ok (some (head, { flag := uriFlagObjectId, objectId := o }))
      else
        stringToInstance (segment o ++ rest ++ beyond) bufferLen head
          { flag := uriFlagObjectId, objectId := o }) := by
  have hdigits := Decimal.length_text_pos o.toNat
  have hmax : (o.toNat : Int) ≤ lwm2mMaxId := by
    have := o.toNat_lt
    unfold lwm2mMaxId
    omega
  have hread := readId_segment [] rest beyond o hmax hrest hlen
  rw [List.nil_append, List.length_nil, Nat.zero_add] at hread
  have hspace : (((segment o ++ rest ++ beyond).take bufferLen).takeWhile isspace).length = 0 := by
    rw [hlen, List.take_left']
    · rfl
    · rfl
  have hfirst : (segment o ++ rest ++ beyond)[0]? = some 47 := rfl
  rw [List.length_append, length_segment] at hlen
  unfold lwm2mStringToUri
  rw [hspace]
  dsimp only
  rw [if_neg (by omega), if_neg (by simp only [List.length_append, length_segment]; omega),
    if_neg (by omega), if_neg (fun hne => hne hfirst), if_neg (by omega), Nat.zero_add, hread,
    Lwm2mData.ok_bind]

/-- An object with a slash behind it. -/
theorem stringToUri_slash (o : UInt16)
    (hlen : bufferLen = (segment o ++ 47 :: more).length) :
    lwm2mStringToUri (segment o ++ 47 :: more ++ beyond) bufferLen =
      if more = [] then .ok (some (bufferLen, (Path.object o).toUri))
      else
        stringToInstance (segment o ++ 47 :: more ++ beyond) bufferLen ((segment o).length + 1)
          (Path.object o).toUri := by
  have hpass := passSlash_behind (segment o) (more ++ beyond) 47
  rw [if_pos rfl, ← List.cons_append, ← List.append_assoc] at hpass
  rw [stringToUri_eq _ o (.inr rfl) hlen, hpass, Lwm2mData.ok_bind]
  rw [List.length_append, List.length_cons] at hlen
  by_cases hnil : more = []
  · rw [hnil, List.length_nil, Nat.zero_add] at hlen
    rw [if_pos hnil, if_pos (Nat.le_of_eq hlen), hlen]
    rfl
  · have hpos := List.length_pos_iff.mpr hnil
    rw [if_neg hnil, if_neg (by omega)]
    rfl

theorem stringToUri_end (o : UInt16) {c : UInt8} (hc : c ≠ 47) :
    lwm2mStringToUri (segment o ++ c :: beyond) (segment o).length =
      .ok (some ((segment o).length, (Path.object o).toUri)) := by
  have hlen : (segment o).length = (segment o ++ []).length := by rw [List.append_nil]
  have h := stringToUri_eq (c :: beyond) o (.inl rfl) hlen
  rw [List.append_nil] at h
  rw [h, passSlash_behind, if_neg hc, Lwm2mData.ok_bind, if_pos (Nat.le_refl _)]
  rfl

end Reading

/-- The text with its slash, as it is written, is read back for an object and an instance, and not
for a resource; without the slash every path is read, where what follows is no slash. -/
theorem stringToUri_text (p : Path) (hp : p.Readable) (c : UInt8) (beyond : List UInt8) :
    lwm2mStringToUri (p.text ++ [47] ++ c :: beyond) (p.text ++ [47]).length =
        .ok (if p.hasResource then none else some ((p.text ++ [47]).length, p.toUri)) ∧
      (c ≠ 47 → lwm2mStringToUri (p.text ++ c :: beyond) p.text.length =
        .ok (some (p.text.length, p.toUri))) := by
  cases p with
  | object o =>
    refine ⟨?_, fun hc => stringToUri_end beyond o hc⟩
    exact stringToUri_slash [] (c :: beyond) o rfl
  | objectInstance o i =>
    refine ⟨?_, fun hc => ?_⟩
    · have hobject := stringToUri_slash (Decimal.text i.toNat ++ [47]) (c :: beyond) o rfl
      have hinstance := stringToInstance_slash (segment o) ([]) (c :: beyond)
        (Path.object o).toUri hp rfl
      have hmore : Decimal.text i.toNat ++ [47] ≠ [] :=
        List.append_ne_nil_of_right_ne_nil _ (List.cons_ne_nil _ _)
      have htext : segment o ++ 47 :: (Decimal.text i.toNat ++ [47]) =
          segment o ++ segment i ++ [47] := (List.append_assoc _ (segment i) _).symm
      rw [if_neg hmore, htext, hinstance] at hobject
      exact hobject
    · have hobject := stringToUri_slash (Decimal.text i.toNat) (c :: beyond) o rfl
      have hinstance := stringToInstance_end (segment o) beyond (Path.object o).toUri hp hc rfl
      rw [if_neg (Decimal.text_ne_nil _)] at hobject
      exact hobject.trans hinstance
  | resource o i r =>
    have hi := hp.1
    have hr := hp.2
    refine ⟨?_, fun hc => ?_⟩
    · have hobject := stringToUri_slash (Decimal.text i.toNat ++ 47 :: (Decimal.text r.toNat ++ [47])) (c :: beyond) o rfl
      have hinstance := stringToInstance_slash (segment o) (Decimal.text r.toNat ++ [47]) (c :: beyond)
        (Path.object o).toUri hi rfl
      have hresource := stringToResource_eq (segment o ++ segment i) (c :: beyond)
        (Path.objectInstance o i).toUri hr (.inr rfl : Stops [47]) rfl
      have hmore : Decimal.text i.toNat ++ 47 :: (Decimal.text r.toNat ++ [47]) ≠ [] :=
        List.append_ne_nil_of_right_ne_nil _ (List.cons_ne_nil _ _)
      have hmore' : Decimal.text r.toNat ++ [47] ≠ [] :=
        List.append_ne_nil_of_right_ne_nil _ (List.cons_ne_nil _ _)
      have htext : segment o ++ 47 :: (Decimal.text i.toNat ++ 47 :: (Decimal.text r.toNat ++ [47])) =
          segment o ++ segment i ++ 47 :: (Decimal.text r.toNat ++ [47]) :=
        (List.append_assoc _ (segment i) _).symm
      have htext' : segment o ++ segment i ++ 47 :: (Decimal.text r.toNat ++ [47]) =
          segment o ++ segment i ++ segment r ++ [47] :=
        (List.append_assoc _ (segment r) _).symm
      rw [if_neg hmore, htext, hinstance, if_neg hmore', htext'] at hobject
      exact hobject.trans hresource
    · have hobject := stringToUri_slash (Decimal.text i.toNat ++ segment r) (c :: beyond) o rfl
      have hinstance := stringToInstance_slash (segment o) (Decimal.text r.toNat) (c :: beyond)
        (Path.object o).toUri hi rfl
      have hresource := stringToResource_eq (segment o ++ segment i) (c :: beyond)
        (Path.objectInstance o i).toUri hr (.inl rfl : Stops []) rfl
      have hmore : Decimal.text i.toNat ++ segment r ≠ [] :=
        List.append_ne_nil_of_right_ne_nil _ (List.cons_ne_nil _ _)
      have htext : segment o ++ 47 :: (Decimal.text i.toNat ++ segment r) =
          segment o ++ segment i ++ segment r := (List.append_assoc _ (segment i) _).symm
      have htext' : segment o ++ segment i ++ 47 :: Decimal.text r.toNat =
          segment o ++ segment i ++ segment r := rfl
      rw [if_neg hmore, htext] at hobject
      rw [if_neg (Decimal.text_ne_nil _), htext'] at hinstance
      rw [List.append_nil, if_pos rfl] at hresource
      exact (hobject.trans hinstance).trans hresource

/-! ## What is read is a path -/

theorem parseNumberLoop_head {digits : List UInt8} {result value : Int} {head last : Nat}
    (h : parseNumberLoop result head digits = some (value, last)) :
    last ≤ head + digits.length := by
  induction digits generalizing result head with
  | nil =>
    cases h
    exact Nat.le_refl _
  | cons c digits ih =>
    rw [parseNumberLoop] at h
    rw [List.length_cons]
    split at h
    · cases h
      omega
    · split at h
      · have := ih h
        omega
      · cases h

theorem readId_some {buffer : List UInt8} {bufferLen head last : Nat} {max : Int} {id : UInt16}
    (hmax : max ≤ lwm2mMaxId) (hhead : head ≤ bufferLen)
    (h : readId buffer bufferLen head max = .ok (some (id, last))) :
    (id.toNat : Int) ≤ max ∧ last ≤ bufferLen := by
  unfold readId at h
  cases hparse : prvParseNumber buffer bufferLen head with
  | error fault =>
    rw [hparse] at h
    cases h
  | ok parsed =>
    rw [hparse] at h
    cases parsed with
    | none => cases h
    | some number =>
      obtain ⟨readNum, after⟩ := number
      dsimp only at h
      split at h
      · cases h
      · next hbounds =>
        cases h
        unfold lwm2mMaxId at hmax
        have hid : ((UInt16.ofInt readNum).toNat : Int) = readNum := by
          have hmod : (readNum % 2 ^ 16).toNat < 2 ^ 16 := by omega
          rw [UInt16.ofInt, UInt16.toNat_ofNat_of_lt' hmod]
          omega
        refine ⟨by omega, ?_⟩
        unfold prvParseNumber at hparse
        split at hparse
        · cases hparse
        · split at hparse
          · cases hparse
          · split at hparse
            · cases hparse
            · next hlong =>
              have hlast := parseNumberLoop_head (Except.ok.inj hparse)
              rw [List.length_drop, List.length_take] at hlast
              omega

theorem passSlash_some {buffer : List UInt8} {head last : Nat}
    (h : passSlash buffer head = .ok last) : head ≤ last ∧ last ≤ head + 1 := by
  unfold passSlash at h
  split at h
  · cases h
  · cases h
    split <;> omega

theorem bind_ok {α β : Type} {x : Except Fault α} {f : α → Except Fault β} {b : β}
    (h : (x >>= f) = .ok b) : ∃ a, x = .ok a ∧ f a = .ok b := by
  cases x with
  | error fault => cases h
  | ok a => exact ⟨a, rfl, h⟩

theorem ne_of_toNat_le {id : UInt16} (h : (id.toNat : Int) ≤ lwm2mMaxId - 1) : id ≠ 65535 := by
  rintro rfl
  exact absurd h (by decide)

theorem stringToResource_path {buffer : List UInt8} {bufferLen head last : Nat} {o i : UInt16}
    {uri : Uri} (hi : i ≠ 65535) (hhead : head ≤ bufferLen)
    (h : stringToResource buffer bufferLen head (Path.objectInstance o i).toUri =
      .ok (some (last, uri))) :
    (∃ p : Path, p.Readable ∧ p.toUri = uri) ∧ last = bufferLen := by
  obtain ⟨read, hread, h⟩ := bind_ok h
  cases read with
  | none => cases h
  | some number =>
    obtain ⟨r, after⟩ := number
    obtain ⟨hr, _⟩ := readId_some (by decide) hhead hread
    dsimp only at h
    split at h
    · cases h
    · next hlast =>
      cases h
      exact ⟨⟨.resource o i r, ⟨hi, ne_of_toNat_le hr⟩, rfl⟩, not_not.mp hlast⟩

theorem stringToInstance_path {buffer : List UInt8} {bufferLen head last : Nat} {o : UInt16}
    {uri : Uri} (hhead : head ≤ bufferLen)
    (h : stringToInstance buffer bufferLen head (Path.object o).toUri = .ok (some (last, uri))) :
    (∃ p : Path, p.Readable ∧ p.toUri = uri) ∧ bufferLen ≤ last ∧ last ≤ bufferLen + 1 := by
  obtain ⟨read, hread, h⟩ := bind_ok h
  cases read with
  | none => cases h
  | some number =>
    obtain ⟨i, after⟩ := number
    obtain ⟨hi, hafter⟩ := readId_some (by decide) hhead hread
    have hi := ne_of_toNat_le hi
    obtain ⟨behind, hbehind, h⟩ := bind_ok h
    obtain ⟨_, hle⟩ := passSlash_some hbehind
    split at h
    · next hend =>
      cases h
      exact ⟨⟨.objectInstance o i, hi, rfl⟩, hend, by omega⟩
    · obtain ⟨hpath, hlast⟩ := stringToResource_path hi (by omega) h
      exact ⟨hpath, by omega, by omega⟩

/-- Whatever is read is a path, with ids that can be written and read again, and all of the text was
looked at. -/
theorem stringToUri_path {buffer : List UInt8} {bufferLen head : Nat} {uri : Uri}
    (h : lwm2mStringToUri buffer bufferLen = .ok (some (head, uri))) :
    (∃ p : Path, p.Readable ∧ p.toUri = uri) ∧ bufferLen ≤ head ∧ head ≤ bufferLen + 1 := by
  have hspaces : ((buffer.take bufferLen).takeWhile isspace).length ≤ bufferLen :=
    Nat.le_trans (List.takeWhile_sublist _).length_le (List.length_take_le _ _)
  unfold lwm2mStringToUri at h
  split at h
  · cases h
  split at h
  · cases h
  dsimp only at h
  split at h
  · cases h
  next hfront =>
  split at h
  · cases h
  split at h
  · cases h
  obtain ⟨read, hread, h⟩ := bind_ok h
  cases read with
  | none => cases h
  | some number =>
    obtain ⟨o, after⟩ := number
    obtain ⟨_, hafter⟩ := readId_some (Int.le_refl _) (by omega) hread
    obtain ⟨behind, hbehind, h⟩ := bind_ok h
    obtain ⟨_, hle⟩ := passSlash_some hbehind
    split at h
    · next hend =>
      cases h
      exact ⟨⟨.object o, trivial, rfl⟩, hend, by omega⟩
    · exact stringToInstance_path (by omega) h

/-- `uri_toString` writes a path or refuses it for want of room. What it writes is read back, unless
it names a resource: behind that no slash is allowed. -/
theorem uriToString_readBack (p : Path) (hp : p.Readable) {bufferLen : Nat}
    (hroom : 2 ≤ bufferLen) (c : UInt8) (beyond : List UInt8) :
    uriToString (some p.toUri) bufferLen =
        .ok (if p.text.length + 1 < bufferLen then some (p.text ++ [47], p.depth) else none) ∧
      lwm2mStringToUri (p.text ++ [47] ++ c :: beyond) (p.text ++ [47]).length =
        .ok (if p.hasResource then none else some ((p.text ++ [47]).length, p.toUri)) :=
  ⟨uriToString_eq p hroom, (stringToUri_text p hp c beyond).1⟩

theorem uriToString_readBack_reboot :
    uriToString (some (Path.resource 3 0 4).toUri) uriMaxStringLen =
        .ok (some (CString.ascii "/3/0/4/", .resourceInstance)) ∧
      lwm2mStringToUri (CString.ascii "/3/0/4/\"") 7 = .ok none := by
  have htext : (Path.resource 3 0 4).text = CString.ascii "/3/0/4" := by
    have hdigit : ∀ id : UInt16, id.toNat < 10 → segment id = [47, Decimal.digit id.toNat] :=
      fun id hid => congrArg _ (Decimal.text_of_lt hid)
    dsimp only [Path.text]
    rw [hdigit 3 (by decide), hdigit 0 (by decide), hdigit 4 (by decide)]
    decide
  have h := uriToString_readBack (.resource 3 0 4) (by decide) (by decide : 2 ≤ uriMaxStringLen)
    34 []
  rw [htext] at h
  exact h

/-- Whatever text is accepted names a path, whose own text is read as the same. -/
theorem stringToUri_normal {buffer : List UInt8} {bufferLen head : Nat} {uri : Uri}
    (h : lwm2mStringToUri buffer bufferLen = .ok (some (head, uri))) :
    ∃ p : Path, p.toUri = uri ∧ bufferLen ≤ head ∧ head ≤ bufferLen + 1 ∧
      ∀ c beyond, c ≠ 47 → lwm2mStringToUri (p.text ++ c :: beyond) p.text.length =
        .ok (some (p.text.length, uri)) := by
  obtain ⟨⟨p, hp, rfl⟩, hle, hge⟩ := stringToUri_path h
  exact ⟨p, rfl, hle, hge, fun c beyond hc => (stringToUri_text p hp c beyond).2 hc⟩

theorem stringToUri_normal_spaces : ∃ p : Path, p.toUri = (Path.objectInstance 3 7).toUri ∧
    7 ≤ 7 ∧ 7 ≤ 7 + 1 ∧
      ∀ c beyond, c ≠ 47 → lwm2mStringToUri (p.text ++ c :: beyond) p.text.length =
        .ok (some (p.text.length, (Path.objectInstance 3 7).toUri)) := by
  have hread : lwm2mStringToUri (CString.ascii " /03/7/\"") 7 =
      .ok (some (7, (Path.objectInstance 3 7).toUri)) := by decide
  exact stringToUri_normal hread

/-! ## Options are read back -/

theorem setOption_uriPath (p : Packet) (number : Nat) : (p.setOption number).uriPath = p.uriPath := by
  unfold Packet.setOption
  split
  · rfl
  · rfl

theorem uriPathSegment_eq (p : Packet) {segment : List UInt8} (h : segment.length < 256) :
    (coapSetHeaderUriPathSegment p segment).uriPath = p.uriPath ++ [segment] := by
  unfold coapSetHeaderUriPathSegment
  rw [setOption_uriPath, multiOption_short h]

theorem putIdSegment_eq (p : Packet) (id : UInt16) :
    ∃ q, putIdSegment p id = .ok (some q) ∧ q.uriPath = p.uriPath ++ [Decimal.text id.toNat] := by
  have hdigits := length_text_uint16 id
  refine ⟨coapSetHeaderUriPathSegment p (Decimal.text id.toNat), ?_,
    uriPathSegment_eq p (by omega)⟩
  unfold putIdSegment lwm2mStringIdMaxLen
  rw [utilsIntToText_nat (by omega)]

/-- The segments of a path. -/
def Path.segments : Path → List (List UInt8)
  | .object o => [Decimal.text o.toNat]
  | .objectInstance o i => [Decimal.text o.toNat, Decimal.text i.toNat]
  | .resource o i r => [Decimal.text o.toNat, Decimal.text i.toNat, Decimal.text r.toNat]

/-- A name that comes in front of the paths of a client, a C string that is not empty; the two names
with a meaning of their own cannot be told from it. -/
def AltPath (altPath : List UInt8) : Prop :=
  (altPath ≠ [] ∧ 0 ∉ altPath ∧ altPath.length ≤ 256) ∧
    altPath.drop 1 ≠ uriRegistrationSegment ∧ altPath.drop 1 ≠ uriBootstrapSegment

instance (altPath : List UInt8) : Decidable (AltPath altPath) :=
  inferInstanceAs (Decidable ((_ ∧ _ ∧ _) ∧ _ ∧ _))

def altSegments (altPath : Option (List UInt8)) : List (List UInt8) :=
  (altPath.map (·.drop 1)).toList

theorem matchAltPath_self (name rest : List UInt8) : matchAltPath (name ++ rest) name = .ok true := by
  induction name with
  | nil =>
    cases rest with
    | nil => rfl
    | cons c rest => rfl
  | cons c name ih =>
    rw [List.cons_append, matchAltPath, if_neg (fun hne => hne rfl), ih]

theorem text_ne_letters {n : Nat} {c : UInt8} {word : List UInt8}
    (hc : ¬ Decimal.IsDigit c) : Decimal.text n ≠ c :: word := by
  intro heq
  apply hc
  apply Decimal.isDigit_text (n := n)
  rw [heq]
  exact List.mem_cons_self

theorem decodeId_text (id : UInt16) {max : Int} (hmax : (id.toNat : Int) ≤ max) :
    decodeId (Decimal.text id.toNat) max = .ok (some id) := by
  have hid := id.toNat_lt
  unfold decodeId
  rw [uriGetNumber_text (by omega)]
  dsimp only
  rw [if_neg (by omega), ofInt_toNat]

/-- The options in front of the path are passed over. -/
theorem uriDecode_object {altPath : Option (List UInt8)} (halt : ∀ a ∈ altPath, AltPath a)
    (behind : Option UInt8) (o : UInt16) (rest : List (List UInt8)) :
    uriDecode altPath behind (altSegments altPath ++ Decimal.text o.toNat :: rest) =
      decodeInstance (Path.object o).toUri rest := by
  have hid : (o.toNat : Int) ≤ lwm2mMaxId := by
    have := o.toNat_lt
    unfold lwm2mMaxId
    omega
  have hobject : decodeObject (Decimal.text o.toNat :: rest) =
      decodeInstance (Path.object o).toUri rest := by
    rw [decodeObject, if_neg (Decimal.text_ne_nil _), decodeId_text o hid]
    rfl
  cases altPath with
  | none =>
    have hrd : Decimal.text o.toNat ≠ uriRegistrationSegment := text_ne_letters (by decide)
    have hbs : Decimal.text o.toNat ≠ uriBootstrapSegment := text_ne_letters (by decide)
    have hlist : altSegments none ++ Decimal.text o.toNat :: rest =
        Decimal.text o.toNat :: rest := rfl
    rw [hlist, uriDecode, List.head?_cons, if_neg (fun heq => hrd (Option.some.inj heq)),
      if_neg (fun heq => hbs (Option.some.inj heq))]
    exact hobject
  | some altPath =>
    obtain ⟨_, hrd, hbs⟩ := halt altPath rfl
    have hlist : altSegments (some altPath) ++ Decimal.text o.toNat :: rest =
        altPath.drop 1 :: Decimal.text o.toNat :: rest := rfl
    have hmatch : matchAltPath ((altPath ++ [0]).drop 1) (altPath.drop 1) = .ok true := by
      cases altPath with
      | nil => rfl
      | cons c name => exact matchAltPath_self name [0]
    rw [hlist, uriDecode, List.head?_cons, if_neg (fun heq => hrd (Option.some.inj heq)),
      if_neg (fun heq => hbs (Option.some.inj heq)), hmatch, Lwm2mData.ok_bind, if_pos rfl]
    exact hobject

theorem decodeInstance_text {i : UInt16} (hi : i ≠ 65535) (o : UInt16)
    (rest : List (List UInt8)) :
    decodeInstance (Path.object o).toUri (Decimal.text i.toNat :: rest) =
      decodeResource (Path.objectInstance o i).toUri rest := by
  rw [decodeInstance, if_neg (Decimal.text_ne_nil _), decodeId_text i (toNat_le_of_ne hi)]
  rfl

theorem decodeInstance_last (o : UInt16) (rest : List (List UInt8)) :
    decodeInstance (Path.object o).toUri (Decimal.text (65535 : UInt16).toNat :: rest) =
      .ok none := by
  have hdecode : decodeId (Decimal.text 65535) (lwm2mMaxId - 1) = .ok none := by
    unfold decodeId
    rw [uriGetNumber_text (by decide)]
    rfl
  rw [decodeInstance, if_neg (Decimal.text_ne_nil _)]
  have hlast : (65535 : UInt16).toNat = 65535 := rfl
  rw [hlast, hdecode]
  rfl

theorem decodeResource_text (o i r : UInt16) :
    decodeResource (Path.objectInstance o i).toUri [Decimal.text r.toNat] =
      .ok (some (Path.resource o i r).toUri) := by
  have hr : (r.toNat : Int) ≤ lwm2mMaxId := by
    have := r.toNat_lt
    unfold lwm2mMaxId
    omega
  have hset : (Path.objectInstance o i).toUri.isSetInstance = true := isSetInstance_toUri _
  rw [decodeResource, if_neg (Decimal.text_ne_nil _), if_pos hset, decodeId_text r hr]
  rfl

theorem setUriPath_eq (m : Packet) (hm : m.uriPath = []) {altPath : Option (List UInt8)}
    (halt : ∀ a ∈ altPath, AltPath a) (uri : Uri) :
    ∃ q, q.uriPath = altSegments altPath ++ [Decimal.text uri.objectId.toNat] ∧
      setUriPath m altPath uri = (do
        match ← putInstanceSegment q uri with
        | none => .ok none
        | some p => if uri.isSetResource then putIdSegment p uri.resourceId else .ok (some p)) := by
  cases altPath with
  | none =>
    obtain ⟨q, hq, hpath⟩ := putIdSegment_eq m uri.objectId
    refine ⟨q, ?_, ?_⟩
    · rw [hpath, hm]
      rfl
    · unfold setUriPath
      simp only [putAltPath, Lwm2mData.ok_bind]
      rw [hq]
      rfl
  | some altPath =>
    obtain ⟨⟨hne, _, hlen⟩, _⟩ := halt altPath rfl
    obtain ⟨c, name, rfl⟩ := List.exists_cons_of_ne_nil hne
    have hshort : name.length < 256 := by
      rw [List.length_cons] at hlen
      omega
    obtain ⟨q, hq, hpath⟩ := putIdSegment_eq (coapSetHeaderUriPathSegment m name) uri.objectId
    refine ⟨q, ?_, ?_⟩
    · rw [hpath, uriPathSegment_eq m hshort, hm]
      rfl
    · unfold setUriPath
      simp only [putAltPath, Lwm2mData.ok_bind]
      rw [hq]
      rfl

/-- An instance with the id 65535 is not decoded, a resource with that id is. -/
def Path.Decodable : Path → Prop
  | .object _ => True
  | .objectInstance _ i => i ≠ 65535
  | .resource _ i _ => i ≠ 65535

instance (p : Path) : Decidable p.Decodable :=
  match p with
  | .object _ => isTrue trivial
  | .objectInstance _ i => inferInstanceAs (Decidable (i ≠ 65535))
  | .resource _ i _ => inferInstanceAs (Decidable (i ≠ 65535))

theorem setUriPath_segments (p : Path) {altPath : Option (List UInt8)}
    (halt : ∀ a ∈ altPath, AltPath a) (m : Packet) (hm : m.uriPath = []) :
    ∃ q, setUriPath m altPath p.toUri = .ok (some q) ∧
      q.uriPath = altSegments altPath ++ p.segments := by
  obtain ⟨q, hq, hset⟩ := setUriPath_eq m hm halt p.toUri
  have hinst := isSetInstance_toUri p
  have hres := isSetResource_toUri p
  cases p with
  | object o =>
    have hinst : (Path.object o).toUri.isSetInstance = false := hinst
    have hres : (Path.object o).toUri.isSetResource = false := hres
    refine ⟨q, ?_, hq⟩
    rw [hset, putInstanceSegment, hinst, hres]
    rfl
  | objectInstance o i =>
    have hinst : (Path.objectInstance o i).toUri.isSetInstance = true := hinst
    have hres : (Path.objectInstance o i).toUri.isSetResource = false := hres
    obtain ⟨q', hput, hpath⟩ := putIdSegment_eq q i
    refine ⟨q', ?_, ?_⟩
    · have hput' : putIdSegment q (Path.objectInstance o i).toUri.instanceId = .ok (some q') :=
        hput
      rw [hset, putInstanceSegment, if_pos hinst, hput', hres]
      rfl
    · rw [hpath, hq, List.append_assoc]
      rfl
  | resource o i r =>
    have hinst : (Path.resource o i r).toUri.isSetInstance = true := hinst
    have hres : (Path.resource o i r).toUri.isSetResource = true := hres
    obtain ⟨q', hput, hpath⟩ := putIdSegment_eq q i
    obtain ⟨q'', hput'', hpath''⟩ := putIdSegment_eq q' r
    refine ⟨q'', ?_, ?_⟩
    · have hput' : putIdSegment q (Path.resource o i r).toUri.instanceId = .ok (some q') := hput
      rw [hset, putInstanceSegment, if_pos hinst, hput', hres]
      exact hput''
    · rw [hpath'', hpath, hq, List.append_assoc, List.append_assoc]
      rfl

theorem uriDecode_segments (p : Path) {altPath : Option (List UInt8)}
    (halt : ∀ a ∈ altPath, AltPath a) (behind : Option UInt8) :
    uriDecode altPath behind (altSegments altPath ++ p.segments) =
      .ok (if p.Decodable then some p.toUri else none) := by
  cases p with
  | object o => exact uriDecode_object halt behind o []
  | objectInstance o i =>
    refine (uriDecode_object halt behind o [Decimal.text i.toNat]).trans ?_
    by_cases hi : i = 65535
    · rw [hi, decodeInstance_last, if_neg (fun hne => hne rfl)]
    · rw [decodeInstance_text hi, if_pos (show (Path.objectInstance o i).Decodable from hi)]
      rfl
  | resource o i r =>
    refine (uriDecode_object halt behind o [Decimal.text i.toNat, Decimal.text r.toNat]).trans ?_
    by_cases hi : i = 65535
    · rw [hi, decodeInstance_last, if_neg (fun hne => hne rfl)]
    · rw [decodeInstance_text hi, if_pos (show (Path.resource o i r).Decodable from hi)]
      exact decodeResource_text o i r

/-- A request for a path carries the segments of it, and they are decoded as the path. Of an
instance with the id 65535 the request is made and not decoded. -/
theorem uriDecode_setUriPath (p : Path) {altPath : Option (List UInt8)}
    (halt : ∀ a ∈ altPath, AltPath a) (behind : Option UInt8) (m : Packet)
    (hm : m.uriPath = []) :
    ∃ q, setUriPath m altPath p.toUri = .ok (some q) ∧
      q.uriPath = altSegments altPath ++ p.segments ∧
      uriDecode altPath behind q.uriPath =
        .ok (if p.Decodable then some p.toUri else none) := by
  obtain ⟨q, hset, hpath⟩ := setUriPath_segments p halt m hm
  refine ⟨q, hset, hpath, ?_⟩
  rw [hpath]
  exact uriDecode_segments p halt behind

theorem uriDecode_setUriPath_firmware :
    ∃ q, setUriPath (coapInitMessage .con 1 7) (some (CString.ascii "/lwm2m"))
        (Path.resource 5 0 1).toUri = .ok (some q) ∧
      q.uriPath = [CString.ascii "lwm2m", Decimal.text 5, Decimal.text 0, Decimal.text 1] ∧
      uriDecode (some (CString.ascii "/lwm2m")) none q.uriPath =
        .ok (some (Path.resource 5 0 1).toUri) :=
  uriDecode_setUriPath (.resource 5 0 1)
    (by decide : ∀ a ∈ some (CString.ascii "/lwm2m"), AltPath a) none (coapInitMessage .con 1 7) rfl

end JsEmbeddedPlatform.Paths
