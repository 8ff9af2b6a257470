import JsEmbeddedPlatform.CoapPacket
import JsEmbeddedPlatform.Texts

/-!
# Paths of objects, instances and resources

A path is a text with slashes, or one option for each of its segments. The functions that write
and read both.
-/

set_option autoImplicit false

namespace JsEmbeddedPlatform.Paths

open Coap (Packet coapSetHeaderUriPathSegment)
open Lwm2mData (Fault access)
open Texts

def uriFlagDeleteAll : UInt8 := 0x10
def uriFlagRegistration : UInt8 := 0x20
def uriFlagBootstrap : UInt8 := 0x40
def uriFlagObjectId : UInt8 := 0x04
def uriFlagInstanceId : UInt8 := 0x02
def uriFlagResourceId : UInt8 := 0x01
def lwm2mMaxId : Int := 0xFFFF
def uriMaxStringLen : Nat := 18
def lwm2mStringIdMaxLen : Nat := 6

/-- `lwm2m_uri_t`. -/
structure Uri where
  flag : UInt8 := 0
  objectId : UInt16 := 0
  instanceId : UInt16 := 0
  resourceId : UInt16 := 0
deriving DecidableEq, Repr

def Uri.isSetInstance (uri : Uri) : Bool := uri.flag &&& uriFlagInstanceId ≠ 0
def Uri.isSetResource (uri : Uri) : Bool := uri.flag &&& uriFlagResourceId ≠ 0

/-! ## Numbers -/

/-- What an `int` of 32 bits makes of a number. -/
def wrap (n : Int) : Int := n.bmod (2 ^ 32)

/-- The digits up to a slash or the end of the text, with how many there were. -/
def parseNumberLoop (result : Int) (head : Nat) : List UInt8 → Option (Int × Nat)
  | [] => some (result.tdiv 10, head)
  | c :: rest =>
    if c = 47 then some (result.tdiv 10, head)
    else if Decimal.IsDigit c then
      parseNumberLoop (wrap (wrap (result + (c.toNat - 48)) * 10)) (head + 1) rest
    else none

/-- None for -1. The first character is read without a look at the length. -/
def prvParseNumber (uriString : List UInt8) (uriLength head : Nat) :
    Except Fault (Option (Int × Nat)) :=
  match uriString[head]? with
  | none => .error .memory
  | some c =>
    if c = 47 then .ok none
    else if uriString.length < uriLength then .error .memory
    else .ok (parseNumberLoop 0 head ((uriString.take uriLength).drop head))

def uriGetNumber (uriString : List UInt8) (uriLength : Nat) : Except Fault Int :=
  match prvParseNumber uriString uriLength 0 with
  | .error fault => .error fault
  | .ok none => .ok (-1)
  | .ok (some (result, _)) => .ok result

/-! ## Texts -/

def isspace (c : UInt8) : Bool := c = 32 || 9 ≤ c && c ≤ 13

/-- A number that may be an id, and where it ends; behind it a slash is passed over. -/
def readId (buffer : List UInt8) (bufferLen head : Nat) (max : Int) :
    Except Fault (Option (UInt16 × Nat)) :=
  match prvParseNumber buffer bufferLen head with
  | .error fault => .error fault
  | .ok none => .ok none
  | .ok (some (readNum, head)) =>
    if readNum < 0 ∨ max < readNum then .ok none else .ok (some (UInt16.ofInt readNum, head))

def passSlash (buffer : List UInt8) (head : Nat) : Except Fault Nat :=
  match buffer[head]? with
  | none => .error .memory
  | some c => .ok (if c = 47 then head + 1 else head)

/-- The resource of a path; the text has to end with it. -/
def stringToResource (buffer : List UInt8) (bufferLen head : Nat) (uri : Uri) :
    Except Fault (Option (Nat × Uri)) := do
  match ← readId buffer bufferLen head (lwm2mMaxId - 1) with
  | none => .ok none
  | some (id, head) =>
    if head ≠ bufferLen then .ok none
    else .ok (some (head, { uri with flag := uri.flag ||| uriFlagResourceId, resourceId := id }))

/-- The instance of a path and what is behind it. -/
def stringToInstance (buffer : List UInt8) (bufferLen head : Nat) (uri : Uri) :
    Except Fault (Option (Nat × Uri)) := do
  match ← readId buffer bufferLen head (lwm2mMaxId - 1) with
  | none => .ok none
  | some (id, head) =>
    let uri := { uri with flag := uri.flag ||| uriFlagInstanceId, instanceId := id }
    let head ← passSlash buffer head
    if bufferLen ≤ head then .ok (some (head, uri)) else stringToResource buffer bufferLen head uri

/-- None for 0, else how many characters are read, and the path. The character behind the text is
read too. -/
def lwm2mStringToUri (buffer : List UInt8) (bufferLen : Nat) :
    Except Fault (Option (Nat × Uri)) :=
  if bufferLen = 0 then .ok none
  else if buffer.length < bufferLen then .error .memory
  else
    let head := ((buffer.take bufferLen).takeWhile isspace).length
    if head = bufferLen then .ok none
    else if buffer[head]? ≠ some 47 then .ok none
    else if head + 1 = bufferLen then .ok none
    else do
      match ← readId buffer bufferLen (head + 1) lwm2mMaxId with
      | none => .ok none
      | some (id, head) =>
        let uri : Uri := { flag := uriFlagObjectId, objectId := id }
        let head ← passSlash buffer head
        if bufferLen ≤ head then .ok (some (head, uri))
        else stringToInstance buffer bufferLen head uri

inductive Depth where
  | object
  | objectInstance
  | resource
  | resourceInstance
deriving DecidableEq, Repr

/-- An id behind the text; none for -1. -/
def putId (bufferLen : Nat) (text : List UInt8) (id : UInt16) :
    Except Fault (Option (List UInt8)) :=
  match putInt bufferLen text id.toNat with
  | .error .memory => .error .memory
  | .error .refused => .ok none
  | .ok text => if bufferLen - 1 ≤ text.length then .ok none else .ok (some text)

/-- The resource behind the text, and the slash at the end. -/
def resourceToString (uri : Uri) (bufferLen : Nat) (text : List UInt8) :
    Except Fault (Option (List UInt8 × Depth)) :=
  if uri.isSetResource then do
    match ← putId bufferLen (text ++ [47]) uri.resourceId with
    | none => .ok none
    | some text => .ok (some (text ++ [47], .resourceInstance))
  else .ok (some (text ++ [47], .resource))

def instanceToString (uri : Uri) (bufferLen : Nat) (text : List UInt8) :
    Except Fault (Option (List UInt8 × Depth)) :=
  if uri.isSetInstance then do
    match ← putId bufferLen (text ++ [47]) uri.instanceId with
    | none => .ok none
    | some text => resourceToString uri bufferLen text
  else .ok (some (text ++ [47], .objectInstance))

/-- None for -1. -/
def uriToString (uri : Option Uri) (bufferLen : Nat) :
    Except Fault (Option (List UInt8 × Depth)) :=
  if bufferLen = 0 then .error .memory
  else
    match uri with
    | none => .ok (some ([47], .object))
    | some uri => do
      match ← putId bufferLen [47] uri.objectId with
      | none => .ok none
      | some text => instanceToString uri bufferLen text

/-! ## Options -/

def putIdSegment (p : Packet) (id : UInt16) : Except Fault (Option Packet) :=
  match utilsIntToText id.toNat lwm2mStringIdMaxLen with
  | .error .memory => .error .memory
  | .error .refused => .ok none
  | .ok text => .ok (some (coapSetHeaderUriPathSegment p text))

/-- An instance that is left out in front of a resource has an empty segment. -/
def putInstanceSegment (p : Packet) (uri : Uri) : Except Fault (Option Packet) :=
  if uri.isSetInstance then putIdSegment p uri.instanceId
  else if uri.isSetResource then .ok (some (coapSetHeaderUriPathSegment p []))
  else .ok (some p)

/-- The segment is what is behind the first character of the path, which is taken for a slash. -/
def putAltPath (p : Packet) : Option (List UInt8) → Except Fault Packet
  | none => .ok p
  | some [] => .error .memory
  | some (_ :: name) => .ok (coapSetHeaderUriPathSegment p name)

/-- The path that `transaction_new` gives its message; none where a number does not fit. There is
memory for each of the options. -/
def setUriPath (p : Packet) (altPath : Option (List UInt8)) (uri : Uri) :
    Except Fault (Option Packet) := do
  match ← putIdSegment (← putAltPath p altPath) uri.objectId with
  | none => .ok none
  | some p =>
    match ← putInstanceSegment p uri with
    | none => .ok none
    | some p => if uri.isSetResource then putIdSegment p uri.resourceId else .ok (some p)

/-- A segment that is compared with the characters behind the slash of a path, up to its own
length. -/
def matchAltPath : List UInt8 → List UInt8 → Except Fault Bool
  | _, [] => .ok true
  | [], _ :: _ => .error .memory
  | m :: memory, c :: segment => if c ≠ m then .ok false else matchAltPath memory segment

def decodeId (segment : List UInt8) (max : Int) : Except Fault (Option UInt16) :=
  match uriGetNumber segment segment.length with
  | .error fault => .error fault
  | .ok readNum => .ok (if readNum < 0 ∨ max < readNum then none else some (UInt16.ofInt readNum))

/-- The resource of a path, which has to be the last segment. -/
def decodeResource (uri : Uri) : List (List UInt8) → Except Fault (Option Uri)
  | [] => .ok (some uri)
  | segment :: rest =>
    if segment = [] then .ok (if rest = [] then some uri else none)
    else if uri.isSetInstance then do
      match ← decodeId segment lwm2mMaxId with
      | none => .ok none
      | some id =>
        .ok (if rest = [] then
          some { uri with flag := uri.flag ||| uriFlagResourceId, resourceId := id } else none)
    else .ok none

def decodeInstance (uri : Uri) : List (List UInt8) → Except Fault (Option Uri)
  | [] => .ok (some uri)
  | segment :: rest =>
    if segment = [] then decodeResource uri rest
    else do
      match ← decodeId segment (lwm2mMaxId - 1) with
      | none => .ok none
      | some id =>
        decodeResource { uri with flag := uri.flag ||| uriFlagInstanceId, instanceId := id } rest

/-- The path of a request to an object. -/
def decodeObject : List (List UInt8) → Except Fault (Option Uri)
  | [] => .ok (some { flag := uriFlagDeleteAll })
  | segment :: rest =>
    if segment = [] then .ok (some { flag := uriFlagDeleteAll })
    else do
      match ← decodeId segment lwm2mMaxId with
      | none => .ok none
      | some id => decodeInstance { flag := uriFlagObjectId, objectId := id } rest

def uriRegistrationSegment : List UInt8 := CString.ascii "rd"
def uriBootstrapSegment : List UInt8 := CString.ascii "bs"

/-- The id of a registration. Of an empty segment the character behind it is read. -/
def decodeRegistration (behind : Option UInt8) :
    List (List UInt8) → Except Fault (Option Uri)
  | [] => .ok (some { flag := uriFlagRegistration })
  | segment :: rest =>
    match uriGetNumber (segment ++ behind.toList) segment.length with
    | .error fault => .error fault
    | .ok readNum =>
      .ok (if readNum < 0 ∨ lwm2mMaxId < readNum then none
        else if rest ≠ [] then none
        else some
          { flag := uriFlagRegistration ||| uriFlagObjectId, objectId := UInt16.ofInt readNum })

/-- There is memory for the path that is read. -/
def uriDecode (altPath : Option (List UInt8)) (behind : Option UInt8)
    (uriPath : List (List UInt8)) : Except Fault (Option Uri) :=
  if uriPath.head? = some uriRegistrationSegment then decodeRegistration behind uriPath.tail
  else if uriPath.head? = some uriBootstrapSegment then
    .ok (if uriPath.tail ≠ [] then none else some { flag := uriFlagBootstrap })
  else
    match altPath with
    | none => decodeObject uriPath
    | some altPath =>
      match uriPath with
      | [] => .ok none
      | segment :: rest => do
        if ← matchAltPath ((altPath ++ [0]).drop 1) segment then decodeObject rest else .ok none

/-! ## Reading numbers -/

theorem wrap_of_lt {n : Nat} (h : n < 2 ^ 31) : wrap n = n := by
  unfold wrap
  rw [Int.bmod_eq_of_le (by omega) (by omega)]

theorem le_valueFrom (n : Nat) (digits : List UInt8) : n ≤ Decimal.valueFrom n digits := by
  induction digits generalizing n with
  | nil => exact Nat.le_refl n
  | cons c digits ih =>
    have h := ih (10 * n + (c.toNat - 48))
    rw [Decimal.valueFrom, List.foldl_cons, ← Decimal.valueFrom]
    omega

/-- What stops the digits: a slash or the end. -/
def Stops (rest : List UInt8) : Prop := rest = [] ∨ rest.head? = some 47

theorem parseNumberLoop_digits {digits rest : List UInt8}
    (hdigits : ∀ c ∈ digits, Decimal.IsDigit c) (hrest : Stops rest) {n : Nat}
    (hfits : 10 * Decimal.valueFrom n digits < 2 ^ 31) (head : Nat) :
    parseNumberLoop ((10 * n : Nat) : Int) head (digits ++ rest) =
      some ((Decimal.valueFrom n digits : Int), head + digits.length) := by
  induction digits generalizing n head with
  | nil =>
    have hdiv : ((10 * n : Nat) : Int).tdiv 10 = n := by
      rw [Int.natCast_mul]
      exact Int.mul_tdiv_cancel_left n (by decide)
    rcases hrest with rfl | hslash
    · rw [List.append_nil, parseNumberLoop, hdiv]
      rfl
    · cases rest with
      | nil => cases hslash
      | cons c rest =>
        cases hslash
        rw [List.nil_append, parseNumberLoop, if_pos rfl, hdiv]
        rfl
  | cons c digits ih =>
    have hc := hdigits c List.mem_cons_self
    have hslash : c ≠ 47 := by
      intro heq
      rw [heq] at hc
      exact absurd hc (by decide)
    have hnext : Decimal.valueFrom n (c :: digits) =
        Decimal.valueFrom (10 * n + (c.toNat - 48)) digits := rfl
    rw [hnext] at hfits ⊢
    have hle := le_valueFrom (10 * n + (c.toNat - 48)) digits
    have hvalue : 48 ≤ c.toNat := UInt8.le_iff_toNat_le.mp hc.1
    have hsum : ((10 * n : Nat) : Int) + ((c.toNat : Int) - 48) =
        ((10 * n + (c.toNat - 48) : Nat) : Int) := by omega
    have hproduct : ((10 * n + (c.toNat - 48) : Nat) : Int) * 10 =
        ((10 * (10 * n + (c.toNat - 48)) : Nat) : Int) := by omega
    rw [List.cons_append, parseNumberLoop, if_neg hslash, if_pos hc, hsum,
      wrap_of_lt (by omega), hproduct, wrap_of_lt (by omega),
      ih (fun d hd => hdigits d (List.mem_cons_of_mem c hd)) hfits (head + 1),
      List.length_cons]
    congr 2
    omega

theorem parseNumberLoop_text {n : Nat} (hn : 10 * n < 2 ^ 31) {rest : List UInt8}
    (hrest : Stops rest) (head : Nat) :
    parseNumberLoop 0 head (Decimal.text n ++ rest) =
      some ((n : Int), head + (Decimal.text n).length) := by
  have hvalue := Decimal.valueFrom_text n
  have h := parseNumberLoop_digits (n := 0) (fun c hc => Decimal.isDigit_text hc) hrest
    (by rw [hvalue]; exact hn) head
  rw [hvalue] at h
  exact h

theorem head_text_ne_slash (n : Nat) (rest : List UInt8) :
    ∃ c, (Decimal.text n ++ rest).head? = some c ∧ c ≠ 47 := by
  cases htext : Decimal.text n with
  | nil => exact absurd htext (Decimal.text_ne_nil n)
  | cons c digits =>
    refine ⟨c, rfl, ?_⟩
    intro heq
    have hdigit := Decimal.isDigit_text (n := n) (c := c) (by rw [htext]; exact List.mem_cons_self)
    rw [heq] at hdigit
    exact absurd hdigit (by decide)

/-- A number in a text of `bufferLen` characters. -/
theorem prvParseNumber_text (front rest beyond : List UInt8) {n : Nat} (hn : 10 * n < 2 ^ 31)
    (hrest : Stops rest) :
    prvParseNumber (front ++ Decimal.text n ++ rest ++ beyond)
        (front ++ Decimal.text n ++ rest).length front.length =
      .ok (some ((n : Int), front.length + (Decimal.text n).length)) := by
  obtain ⟨c, hc, hslash⟩ := head_text_ne_slash n (rest ++ beyond)
  have hget : (front ++ Decimal.text n ++ rest ++ beyond)[front.length]? = some c := by
    rw [List.append_assoc, List.append_assoc, List.getElem?_append_right (Nat.le_refl _),
      Nat.sub_self, ← List.head?_eq_getElem?]
    exact hc
  have htake : ((front ++ Decimal.text n ++ rest ++ beyond).take
      (front ++ Decimal.text n ++ rest).length).drop front.length = Decimal.text n ++ rest := by
    rw [List.take_left', List.append_assoc, List.drop_left']
    · rfl
    · rfl
  unfold prvParseNumber
  rw [hget]
  dsimp only
  have hlong : (front ++ Decimal.text n ++ rest).length ≤
      (front ++ Decimal.text n ++ rest ++ beyond).length :=
    (List.prefix_append _ _).length_le
  rw [if_neg hslash, if_neg (by omega), htake, parseNumberLoop_text hn hrest]

theorem uriGetNumber_text {n : Nat} (hn : 10 * n < 2 ^ 31) :
    uriGetNumber (Decimal.text n) (Decimal.text n).length = .ok n := by
  have h := prvParseNumber_text [] [] [] hn (.inl rfl)
  rw [List.nil_append, List.append_nil, List.append_nil, List.length_nil] at h
  unfold uriGetNumber
  rw [h]

end JsEmbeddedPlatform.Paths
