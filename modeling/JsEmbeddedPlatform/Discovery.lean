import JsEmbeddedPlatform.Bootstrap

/-!
# The arrays of the discovery

`init_discovery` and the block of `init_lwm2m` that copies what was announced, byte by byte: six
arrays of fixed sizes, of which the buffer for datagrams has not been initialised. An access that
leaves its array is a `Fault`.
-/

set_option autoImplicit false

namespace JsEmbeddedPlatform.Discovery

open Bootstrap (bootstrapUriSet endpointSet bootstrapReady maxDiscoveryPacketSize serverUriSize
  scanEndpoint scanUri isHostCharacter uriText mask)
open PackageUri (isDigit)

def maxPacketSize : Nat := 1152
def maxEndpointLength : Nat := 40
def maxHostLength : Nat := 40
def maxPortLength : Nat := 10

inductive Place where
  | buffer
  | endpointBuffer
  | serverHostBuffer
  | serverPortBuffer
  | serverUri
  | endpoint
deriving DecidableEq, Repr

inductive Fault where
  | write (place : Place)
  | read (place : Place)
deriving DecidableEq, Repr

structure Arrays where
  bootstrapReady : UInt8
  serverHostBuffer : List UInt8
  serverPortBuffer : List UInt8
  endpointBuffer : List UInt8
  buffer : List UInt8
  serverUri : List UInt8
  endpoint : List UInt8
deriving DecidableEq, Repr

/-! ## One datagram -/

/-- Bytes written from the beginning of an array on. -/
def put (place : Place) (bytes array : List UInt8) : Except Fault (List UInt8) :=
  if bytes.length ≤ array.length then .ok (bytes ++ array.drop bytes.length)
  else .error (.write place)

/-- `memset(array, 0, n)` -/
def zero (place : Place) (n : Nat) (array : List UInt8) : Except Fault (List UInt8) :=
  put place (List.replicate n 0) array

/-- What a function reads that looks for the NUL. -/
def textAt (place : Place) (array : List UInt8) : Except Fault (List UInt8) :=
  match CString.read array with
  | none => .error (.read place)
  | some text => .ok text

/-- `%[...]` puts a NUL behind what it has converted, and writes nothing if that is nothing. -/
def putConverted (place : Place) (field array : List UInt8) : Except Fault (List UInt8) :=
  if field = [] then .ok array else put place (field ++ [0]) array

/-- With the text that `sscanf` reads. `%39c` puts no NUL. -/
def takeEndpoint (a : Arrays) : Except Fault (List UInt8 × Arrays) := do
  let zeroed ← zero .endpointBuffer maxEndpointLength a.endpointBuffer
  let text ← textAt .buffer a.buffer
  match scanEndpoint text with
  | some name =>
    let endpointBuffer ← put .endpointBuffer name zeroed
    pure (text, { a with
      endpointBuffer := endpointBuffer
      bootstrapReady := a.bootstrapReady ||| endpointSet })
  | none =>
    pure (text, { a with
      endpointBuffer := zeroed
      bootstrapReady := a.bootstrapReady &&& ~~~endpointSet })

def takeUri (a : Arrays) : Except Fault (List UInt8 × Arrays) := do
  let zeroedHost ← zero .serverHostBuffer maxHostLength a.serverHostBuffer
  let zeroedPort ← zero .serverPortBuffer maxPortLength a.serverPortBuffer
  let text ← textAt .buffer a.buffer
  let host ← putConverted .serverHostBuffer (scanUri text).1 zeroedHost
  let port ← putConverted .serverPortBuffer (scanUri text).2 zeroedPort
  pure (text, { a with
    serverHostBuffer := host
    serverPortBuffer := port
    bootstrapReady :=
      if (scanUri text).1 ≠ [] ∧ (scanUri text).2 ≠ [] then a.bootstrapReady ||| bootstrapUriSet
      else a.bootstrapReady &&& ~~~bootstrapUriSet })

inductive Kind where
  | endpoint
  | uri
  | other
deriving DecidableEq, Repr

def kind (numBytes : Nat) (buffer : List UInt8) : Kind :=
  if 3 < numBytes ∧ (CString.ascii "EP:").isPrefixOf buffer then .endpoint
  else if 4 < numBytes ∧ (CString.ascii "URI:").isPrefixOf buffer then .uri
  else .other

def takeKind (k : Kind) (a : Arrays) : Except Fault (List UInt8 × Arrays) :=
  match k with
  | .endpoint => takeEndpoint a
  | .uri => takeUri a
  | .other => .ok ([], a)

/-- A turn of the loop of `init_discovery`. The limit of `recvfrom` is `MAX_PACKET_SIZE`. -/
def takeDatagram (datagram : List UInt8) (a : Arrays) : Except Fault (List UInt8 × Arrays) :=
  if datagram = [] then .ok ([], a)
  else do
    let bytes := datagram.take maxPacketSize
    let received ← put .buffer bytes a.buffer
    let (text, taken) ← takeKind (kind bytes.length received) { a with buffer := received }
    let zeroed ← zero .buffer maxDiscoveryPacketSize taken.buffer
    pure (text, { taken with buffer := zeroed })

/-- The `sprintf` and the `strcpy` of `init_lwm2m`. -/
def copyAnnounced (a : Arrays) : Except Fault Arrays := do
  let host ← textAt .serverHostBuffer a.serverHostBuffer
  let port ← textAt .serverPortBuffer a.serverPortBuffer
  let serverUri ← put .serverUri (uriText host port ++ [0]) a.serverUri
  let name ← textAt .endpointBuffer a.endpointBuffer
  let endpoint ← put .endpoint (name ++ [0]) a.endpoint
  pure { a with serverUri := serverUri, endpoint := endpoint }

/-! ## The two threads -/

/-- `busy` is from the copy to the clearing of the bits. `since` are the datagrams since the bits
were cleared last, `strayed` says that `sscanf` has read past what a datagram brought. -/
structure State where
  arrays : Arrays
  busy : Bool
  since : List (List UInt8)
  strayed : Bool
  fault : Option Fault
deriving DecidableEq, Repr

/-- Before the first datagram, whatever the arrays on the two stacks hold. -/
def start (buffer serverUri : List UInt8) : State where
  arrays := {
    bootstrapReady := 0
    serverHostBuffer := List.replicate maxHostLength 0
    serverPortBuffer := List.replicate maxPortLength 0
    endpointBuffer := List.replicate maxEndpointLength 0
    buffer := buffer
    serverUri := serverUri
    endpoint := CString.ascii "jsembedded" ++ List.replicate 30 0 }
  busy := false
  since := []
  strayed := false
  fault := none

inductive Step where
  | datagram (bytes : List UInt8)
  | copy
  | clear
deriving DecidableEq, Repr

def receive (datagram : List UInt8) (s : State) : State :=
  match takeDatagram datagram s.arrays with
  | .error f => { s with fault := some f }
  | .ok (text, a) => { s with
      arrays := a
      since := s.since ++ [datagram]
      strayed := s.strayed || decide (datagram.length < text.length) }

def copy (s : State) : State :=
  if s.arrays.bootstrapReady = bootstrapReady then
    match copyAnnounced s.arrays with
    | .error f => { s with fault := some f }
    | .ok a => { s with arrays := a, busy := true }
  else s

def clear (s : State) : State :=
  { s with arrays := { s.arrays with bootstrapReady := 0 }, busy := false, since := [] }

def step (s : State) (i : Step) : Option (State × Unit) :=
  if s.fault = none then
    match i with
    | .datagram bytes => some (receive bytes s, ())
    | .copy => if s.busy then none else some (copy s, ())
    | .clear => if s.busy then some (clear s, ()) else none
  else none

/-! ## What the datagrams announce -/

/-- The datagrams are taken as texts. -/
def EndpointOf (datagram name : List UInt8) : Prop :=
  CString.text datagram = CString.ascii "EP:" ++ name ∧ name ≠ [] ∧ name.length < maxEndpointLength

/-- The host and the port in full, whatever follows the digits. -/
def uriFields (text : List UInt8) : Option (List UInt8 × List UInt8) :=
  if (CString.ascii "URI:coap://").isPrefixOf text then
    let host := (text.drop 11).takeWhile isHostCharacter
    match text.drop (11 + host.length) with
    | [] => none
    | c :: rest =>
      if c = 58 ∧ host ≠ [] ∧ rest.takeWhile isDigit ≠ [] then some (host, rest.takeWhile isDigit)
      else none
  else none

def UriOf (datagram host port : List UInt8) : Prop :=
  uriFields (CString.text datagram) = some (host, port) ∧
    host.length < maxHostLength ∧ port.length < maxPortLength

/-- The latest of the datagrams that begin with the tag. -/
def latest (tag : List UInt8) (since : List (List UInt8)) : Option (List UInt8) :=
  (since.filter fun d => tag.isPrefixOf d).getLast?

/-- The array holds the text and a NUL behind it. -/
def Holds (array text : List UInt8) : Prop := 0 ∉ text ∧ ∃ rest, array = text ++ 0 :: rest

/-- The bit tells whether the latest `EP:` datagram was well formed, and then the buffer has its
name. -/
structure EndpointTold (a : Arrays) (since : List (List UInt8)) : Prop where
  bit : a.bootstrapReady &&& endpointSet = endpointSet ↔
    ∃ d name, latest (CString.ascii "EP:") since = some d ∧ EndpointOf d name
  holds : ∀ d name, latest (CString.ascii "EP:") since = some d → EndpointOf d name →
    Holds a.endpointBuffer name

structure UriTold (a : Arrays) (since : List (List UInt8)) : Prop where
  bit : a.bootstrapReady &&& bootstrapUriSet = bootstrapUriSet ↔
    ∃ d host port, latest (CString.ascii "URI:") since = some d ∧ UriOf d host port
  holds : ∀ d host port, latest (CString.ascii "URI:") since = some d → UriOf d host port →
    Holds a.serverHostBuffer host ∧ Holds a.serverPortBuffer port

/-- No access has left its array, only received bytes have been read, and the bits and the buffers
tell what has been announced. -/
structure Faithful (s : State) : Prop where
  fault : s.fault = none
  strayed : s.strayed = false
  endpoint : EndpointTold s.arrays s.since
  uri : UriTold s.arrays s.since

/-- A NUL ends the text of the datagram, in it or right behind it. -/
def Ends (datagram buffer : List UInt8) : Prop :=
  0 ∈ datagram ∨ (buffer.drop datagram.length).head? = some 0

/-- The port is not cut off. -/
def PortFits (text : List UInt8) : Prop :=
  ∀ fields ∈ uriFields text, fields.1.length < maxHostLength → fields.2.length < maxPortLength

/-- The name or the port is not cut off. -/
def WholeFields (text : List UInt8) : Kind → Prop
  | .endpoint => text.length ≤ 42
  | .uri => PortFits text
  | .other => True

/-- A datagram has room in the buffer and its text ends there, its fields are not cut off, and it is
no tag alone unless the bit is not set; the URI that is copied has room. -/
def Fits (s : State) : Step → Prop
  | .datagram d => d.length ≤ maxDiscoveryPacketSize ∧
    if kind d.length d = .other then
      (d = CString.ascii "EP:" → s.arrays.bootstrapReady &&& endpointSet ≠ endpointSet) ∧
      (d = CString.ascii "URI:" → s.arrays.bootstrapReady &&& bootstrapUriSet ≠ bootstrapUriSet)
    else Ends d s.arrays.buffer ∧ WholeFields (CString.text d) (kind d.length d)
  | .copy => s.arrays.bootstrapReady = bootstrapReady →
    (uriText (CString.text s.arrays.serverHostBuffer)
      (CString.text s.arrays.serverPortBuffer)).length < serverUriSize
  | .clear => True

instance (text : List UInt8) : (k : Kind) → Decidable (WholeFields text k)
  | .endpoint => inferInstanceAs (Decidable (_ ≤ _))
  | .uri => inferInstanceAs (Decidable (∀ fields ∈ uriFields text,
      fields.1.length < maxHostLength → fields.2.length < maxPortLength))
  | .other => isTrue trivial

instance (datagram buffer : List UInt8) : Decidable (Ends datagram buffer) :=
  inferInstanceAs (Decidable (_ ∨ _))

instance (s : State) : (i : Step) → Decidable (Fits s i)
  | .datagram d => inferInstanceAs (Decidable (d.length ≤ maxDiscoveryPacketSize ∧
      if kind d.length d = .other then
        (d = CString.ascii "EP:" → s.arrays.bootstrapReady &&& endpointSet ≠ endpointSet) ∧
        (d = CString.ascii "URI:" → s.arrays.bootstrapReady &&& bootstrapUriSet ≠ bootstrapUriSet)
      else Ends d s.arrays.buffer ∧ WholeFields (CString.text d) (kind d.length d)))
  | .copy => inferInstanceAs (Decidable (_ = _ → _ < _))
  | .clear => isTrue trivial

/-! ## Arrays and texts -/

section Fields
variable {place : Place} {array bytes text : List UInt8} {n : Nat}

theorem put_eq (h : bytes.length ≤ array.length) :
    put place bytes array = .ok (bytes ++ array.drop bytes.length) := if_pos h

theorem put_over (h : array.length < bytes.length) :
    put place bytes array = .error (.write place) := if_neg (by omega)

theorem zero_eq (h : array.length = n) : zero place n array = .ok (List.replicate n 0) := by
  unfold zero
  rw [put_eq (by simp [h])]
  simp [h]

/-- A text in an array of NULs. -/
def filled (n : Nat) (text : List UInt8) : List UInt8 :=
  text ++ List.replicate (n - text.length) 0

theorem length_filled (h : text.length ≤ n) : (filled n text).length = n := by
  unfold filled
  rw [List.length_append, List.length_replicate]
  omega

theorem filled_eq (h : text.length < n) :
    filled n text = text ++ 0 :: List.replicate (n - text.length - 1) 0 := by
  obtain ⟨k, hk⟩ : ∃ k, n - text.length = k + 1 := ⟨n - text.length - 1, by omega⟩
  unfold filled
  rw [hk, List.replicate_succ, Nat.add_sub_cancel]

theorem nul_mem_filled (h : text.length < n) : 0 ∈ filled n text := by
  rw [filled_eq h]
  simp

theorem holds_filled (h : text.length < n) (hnul : 0 ∉ text) : Holds (filled n text) text :=
  ⟨hnul, _, filled_eq h⟩

theorem put_filled (place : Place) (h : text.length ≤ n) :
    put place text (List.replicate n 0) = .ok (filled n text) := by
  rw [put_eq (by simp [h]), List.drop_replicate]
  rfl

theorem putConverted_filled (place : Place) (h : text.length < n) :
    putConverted place text (List.replicate n 0) = .ok (filled n text) := by
  unfold putConverted
  split
  · next hnil =>
    rw [hnil]
    simp [filled]
  · rw [put_eq (by simp; omega), List.drop_replicate, filled_eq h, List.append_assoc]
    simp [Nat.sub_sub]

theorem textAt_of_nul (h : 0 ∈ array) : textAt place array = .ok (CString.text array) := by
  unfold textAt CString.read
  rw [if_pos h]

theorem length_scanEndpoint {name : List UInt8} (h : scanEndpoint text = some name) :
    name.length < maxEndpointLength := by
  unfold scanEndpoint at h
  split at h
  · cases h
  · cases h
    rw [List.length_take]
    unfold maxEndpointLength
    omega

theorem length_scanUri (text : List UInt8) :
    (scanUri text).1.length < maxHostLength ∧ (scanUri text).2.length < maxPortLength := by
  have hhost : (((text.drop 11).take 39).takeWhile isHostCharacter).length ≤ 39 :=
    Nat.le_trans (List.takeWhile_prefix _).length_le (List.length_take_le _ _)
  unfold scanUri maxHostLength maxPortLength
  split
  · simp only
    split
    · simp
    · split
      · exact ⟨Nat.lt_succ_of_le hhost, by simp⟩
      · next c rest _ =>
        have hport : ((rest.take 9).takeWhile isDigit).length ≤ 9 :=
          Nat.le_trans (List.takeWhile_prefix _).length_le (List.length_take_le _ _)
        split
        · exact ⟨Nat.lt_succ_of_le hhost, Nat.lt_succ_of_le hport⟩
        · exact ⟨Nat.lt_succ_of_le hhost, by simp⟩
  · simp

end Fields

/-! ## What a turn leaves behind -/

/-- The sizes of the arrays, a NUL in each that is read as a text, and no other bits. -/
structure Sized (a : Arrays) : Prop where
  buffer : a.buffer.length = maxDiscoveryPacketSize
  endpointBuffer : a.endpointBuffer.length = maxEndpointLength
  serverHostBuffer : a.serverHostBuffer.length = maxHostLength
  serverPortBuffer : a.serverPortBuffer.length = maxPortLength
  serverUri : a.serverUri.length = serverUriSize
  endpoint : a.endpoint.length = maxEndpointLength
  endpointEnds : 0 ∈ a.endpointBuffer
  hostEnds : 0 ∈ a.serverHostBuffer
  portEnds : 0 ∈ a.serverPortBuffer
  bits : ∃ uri endpoint, a.bootstrapReady = mask uri endpoint

def Arrays.withEndpoint (a : Arrays) (scanned : Option (List UInt8)) : Arrays :=
  { a with
    endpointBuffer := filled maxEndpointLength (scanned.getD [])
    bootstrapReady :=
      if scanned.isSome then a.bootstrapReady ||| endpointSet
      else a.bootstrapReady &&& ~~~endpointSet }

def Arrays.withUri (a : Arrays) (fields : List UInt8 × List UInt8) : Arrays :=
  { a with
    serverHostBuffer := filled maxHostLength fields.1
    serverPortBuffer := filled maxPortLength fields.2
    bootstrapReady :=
      if fields.1 ≠ [] ∧ fields.2 ≠ [] then a.bootstrapReady ||| bootstrapUriSet
      else a.bootstrapReady &&& ~~~bootstrapUriSet }

def Arrays.taken (k : Kind) (text : List UInt8) (a : Arrays) : Arrays :=
  match k with
  | .endpoint => a.withEndpoint (scanEndpoint text)
  | .uri => a.withUri (scanUri text)
  | .other => a

section Turn
variable {a : Arrays} {k : Kind} {text : List UInt8}

theorem takeEndpoint_eq (sized : Sized a) (hread : CString.read a.buffer = some text) :
    takeEndpoint a = .ok (text, a.withEndpoint (scanEndpoint text)) := by
  unfold takeEndpoint textAt
  rw [zero_eq sized.endpointBuffer, hread]
  cases hscan : scanEndpoint text with
  | none => simp [bind, Except.bind, pure, Except.pure, Arrays.withEndpoint, filled, hscan]
  | some name =>
    have hput := put_filled .endpointBuffer
      (Nat.le_of_lt (length_scanEndpoint hscan))
    simp only [bind, Except.bind, pure, Except.pure, hscan, hput]
    rfl

theorem takeUri_eq (sized : Sized a) (hread : CString.read a.buffer = some text) :
    takeUri a = .ok (text, a.withUri (scanUri text)) := by
  have hhost := putConverted_filled .serverHostBuffer (length_scanUri text).1
  have hport := putConverted_filled .serverPortBuffer (length_scanUri text).2
  unfold takeUri textAt
  rw [zero_eq sized.serverHostBuffer, zero_eq sized.serverPortBuffer, hread]
  simp only [bind, Except.bind, pure, Except.pure, hhost, hport]
  rfl

theorem takeKind_eq (sized : Sized a) (hk : k ≠ .other) (hread : CString.read a.buffer = some text) :
    takeKind k a = .ok (text, a.taken k text) := by
  cases k with
  | endpoint => exact takeEndpoint_eq sized hread
  | uri => exact takeUri_eq sized hread
  | other => exact absurd rfl hk

theorem takeKind_over (sized : Sized a) (hk : k ≠ .other) (hread : CString.read a.buffer = none) :
    takeKind k a = .error (.read .buffer) := by
  cases k with
  | endpoint =>
    unfold takeKind takeEndpoint textAt
    rw [zero_eq sized.endpointBuffer, hread]
    rfl
  | uri =>
    unfold takeKind takeUri textAt
    rw [zero_eq sized.serverHostBuffer, zero_eq sized.serverPortBuffer, hread]
    rfl
  | other => exact absurd rfl hk

theorem isPrefixOf_append (tag d rest : List UInt8) (h : tag.length ≤ d.length) :
    tag.isPrefixOf (d ++ rest) = tag.isPrefixOf d := by
  rw [Bool.eq_iff_iff, List.isPrefixOf_iff_prefix, List.isPrefixOf_iff_prefix]
  constructor
  · intro hle
    exact List.prefix_of_prefix_length_le hle (List.prefix_append d rest) h
  · intro hle
    exact hle.trans (List.prefix_append d rest)

/-- The tag is looked for among the bytes that have been received. -/
theorem kind_received (d rest : List UInt8) : kind d.length (d ++ rest) = kind d.length d := by
  have hep : (3 < d.length ∧ (CString.ascii "EP:").isPrefixOf (d ++ rest) = true) ↔
      (3 < d.length ∧ (CString.ascii "EP:").isPrefixOf d = true) := by
    apply and_congr_right
    intro h
    rw [isPrefixOf_append (CString.ascii "EP:") d rest (Nat.le_of_lt h)]
  have huri : (4 < d.length ∧ (CString.ascii "URI:").isPrefixOf (d ++ rest) = true) ↔
      (4 < d.length ∧ (CString.ascii "URI:").isPrefixOf d = true) := by
    apply and_congr_right
    intro h
    rw [isPrefixOf_append (CString.ascii "URI:") d rest (Nat.le_of_lt h)]
  unfold kind
  rw [if_congr hep rfl (if_congr huri rfl rfl)]

def blank : List UInt8 := List.replicate maxDiscoveryPacketSize 0

theorem put_received (sized : Sized a) {d : List UInt8} (hd : d.length ≤ maxDiscoveryPacketSize) :
    put .buffer (d.take maxPacketSize) a.buffer = .ok (d ++ a.buffer.drop d.length) ∧
      (d ++ a.buffer.drop d.length).length = maxDiscoveryPacketSize := by
  have htake : d.take maxPacketSize = d := by
    apply List.take_of_length_le
    unfold maxPacketSize maxDiscoveryPacketSize at *
    omega
  rw [htake]
  refine ⟨put_eq (by rw [sized.buffer]; exact hd), ?_⟩
  rw [List.length_append, List.length_drop, sized.buffer]
  omega

theorem sized_buffer (sized : Sized a) {buffer : List UInt8}
    (hbuffer : buffer.length = maxDiscoveryPacketSize) : Sized { a with buffer := buffer } :=
  ⟨hbuffer, sized.endpointBuffer, sized.serverHostBuffer, sized.serverPortBuffer, sized.serverUri,
    sized.endpoint, sized.endpointEnds, sized.hostEnds, sized.portEnds, sized.bits⟩

theorem taken_buffer (k : Kind) (text : List UInt8) (a : Arrays) :
    (a.taken k text).buffer = a.buffer := by
  cases k <;> rfl

/-- Too long a datagram, one that is not looked at further, one whose text has no end, or one that
is taken. -/
theorem takeDatagram_cases (sized : Sized a) (d : List UInt8) :
    (maxDiscoveryPacketSize < d.length ∧ takeDatagram d a = .error (.write .buffer)) ∨
    (d.length ≤ maxDiscoveryPacketSize ∧ kind d.length d = .other ∧
      ∃ buffer, buffer.length = maxDiscoveryPacketSize ∧
        takeDatagram d a = .ok ([], { a with buffer := buffer })) ∨
    (d.length ≤ maxDiscoveryPacketSize ∧ kind d.length d ≠ .other ∧
      CString.read (d ++ a.buffer.drop d.length) = none ∧
      takeDatagram d a = .error (.read .buffer)) ∨
    (d.length ≤ maxDiscoveryPacketSize ∧ kind d.length d ≠ .other ∧
      ∃ text, CString.read (d ++ a.buffer.drop d.length) = some text ∧
        takeDatagram d a = .ok (text, { a.taken (kind d.length d) text with buffer := blank })) := by
  by_cases hnil : d = []
  · right
    left
    rw [hnil]
    exact ⟨Nat.zero_le _, by decide, a.buffer, sized.buffer, rfl⟩
  by_cases hlong : maxDiscoveryPacketSize < d.length
  · left
    refine ⟨hlong, ?_⟩
    have hover : put .buffer (d.take maxPacketSize) a.buffer = .error (.write .buffer) := by
      apply put_over
      rw [sized.buffer, List.length_take]
      unfold maxPacketSize maxDiscoveryPacketSize at *
      omega
    unfold takeDatagram
    rw [if_neg hnil]
    simp only [hover]
    rfl
  · right
    have hd : d.length ≤ maxDiscoveryPacketSize := Nat.le_of_not_lt hlong
    obtain ⟨hput, hlength⟩ := put_received sized hd
    have hbytes : (d.take maxPacketSize).length = d.length := by
      rw [List.length_take]
      unfold maxPacketSize maxDiscoveryPacketSize at *
      omega
    have hturn : takeDatagram d a =
        (takeKind (kind d.length d) { a with buffer := d ++ a.buffer.drop d.length }) >>= fun r =>
          zero .buffer maxDiscoveryPacketSize r.2.buffer >>= fun zeroed =>
            pure (r.1, { r.2 with buffer := zeroed }) := by
      unfold takeDatagram
      rw [if_neg hnil]
      simp only [hput, bind, Except.bind]
      rw [hbytes, kind_received]
    have hsized := sized_buffer sized hlength
    by_cases hk : kind d.length d = .other
    · left
      refine ⟨hd, hk, blank, List.length_replicate, ?_⟩
      rw [hturn, hk]
      simp only [takeKind, bind, Except.bind, pure, Except.pure]
      rw [zero_eq hlength]
      rfl
    · right
      cases hread : CString.read (d ++ a.buffer.drop d.length) with
      | none =>
        left
        refine ⟨hd, hk, rfl, ?_⟩
        rw [hturn, takeKind_over hsized hk hread]
        rfl
      | some text =>
        right
        refine ⟨hd, hk, text, rfl, ?_⟩
        rw [hturn, takeKind_eq hsized hk hread]
        simp only [bind, Except.bind, pure, Except.pure]
        rw [taken_buffer, zero_eq hlength]
        cases kind d.length d <;> rfl

end Turn

/-! ## Texts and their fields -/

section Texts
variable {d buffer text tag : List UInt8}

theorem read_of_ends (h : Ends d buffer) :
    CString.read (d ++ buffer.drop d.length) = some (CString.text d) := by
  unfold CString.read
  rcases h with hmem | hhead
  · obtain ⟨before, rest, hsplit⟩ := List.append_of_mem hmem
    rw [if_pos (List.mem_append_left _ hmem), hsplit, List.append_assoc, List.cons_append,
      CString.text_append_zero, CString.text_append_zero]
  · obtain ⟨rest, hrest⟩ : ∃ rest, buffer.drop d.length = 0 :: rest := by
      cases hdrop : buffer.drop d.length with
      | nil => simp [hdrop] at hhead
      | cons c rest =>
        rw [hdrop] at hhead
        cases hhead
        exact ⟨rest, rfl⟩
    rw [hrest, if_pos (by simp), CString.text_append_zero]

/-- `sscanf` reads on where neither the datagram nor the next byte of the buffer is a NUL. -/
theorem ends_of_read (hread : CString.read (d ++ buffer.drop d.length) = some text)
    (hle : text.length ≤ d.length) : Ends d buffer := by
  by_cases hmem : 0 ∈ d
  · exact Or.inl hmem
  · right
    have htext := CString.read_eq_some hread
    have hnul : 0 ∈ d ++ buffer.drop d.length := by
      by_contra hno
      unfold CString.read at hread
      rw [if_neg hno] at hread
      cases hread
    have hall : ∀ c ∈ d, decide (c ≠ 0) = true := by
      intro c hc
      exact decide_eq_true fun h0 => hmem (h0 ▸ hc)
    unfold CString.text at htext
    rw [List.takeWhile_append_of_pos hall] at htext
    cases hdrop : buffer.drop d.length with
    | nil =>
      rw [hdrop, List.append_nil] at hnul
      exact absurd hnul hmem
    | cons c rest =>
      by_cases hc : c = 0
      · rw [hc]
        rfl
      · rw [hdrop, List.takeWhile_cons_of_pos (by simpa using hc)] at htext
        rw [← htext, List.length_append, List.length_cons] at hle
        omega

theorem tag_prefix_text (htag : 0 ∉ tag) (h : tag.isPrefixOf d = true) :
    ∃ rest, CString.text d = tag ++ rest := by
  obtain ⟨rest, rfl⟩ := List.isPrefixOf_iff_prefix.mp h
  refine ⟨CString.text rest, ?_⟩
  unfold CString.text
  rw [List.takeWhile_append_of_pos]
  intro c hc
  exact decide_eq_true fun h0 => htag (h0 ▸ hc)

theorem endpointOf_iff (h : (CString.ascii "EP:").isPrefixOf d = true) (name : List UInt8) :
    EndpointOf d name ↔
      scanEndpoint (CString.text d) = some name ∧ (CString.text d).length ≤ 42 := by
  obtain ⟨rest, hrest⟩ := tag_prefix_text (by decide) h
  have hdrop : (CString.text d).drop 3 = rest := by rw [hrest]; rfl
  have hlength : (CString.text d).length = rest.length + 3 := by
    rw [hrest, List.length_append]
    exact Nat.add_comm _ _
  unfold EndpointOf scanEndpoint maxEndpointLength
  rw [hdrop, hlength, hrest, List.append_right_inj]
  constructor
  · rintro ⟨rfl, hne, hlt⟩
    rw [if_neg hne, List.take_of_length_le (by omega)]
    exact ⟨rfl, by omega⟩
  · rintro ⟨hscan, hle⟩
    split at hscan
    · cases hscan
    · next hne =>
      rw [List.take_of_length_le (by omega)] at hscan
      cases hscan
      exact ⟨rfl, hne, by omega⟩

/-- A host that is too long is followed by one of its own characters, not by a colon. -/
theorem long_host_no_colon {tail : List UInt8} (h : 39 < (tail.takeWhile isHostCharacter).length) :
    ∃ c rest, tail.drop 39 = c :: rest ∧ c ≠ 58 := by
  have hlt : 39 < tail.length := Nat.lt_of_lt_of_le h (List.takeWhile_prefix _).length_le
  refine ⟨tail[39], tail.drop 40, List.drop_eq_getElem_cons hlt, ?_⟩
  intro hcolon
  have hmem : tail[39] ∈ tail.takeWhile isHostCharacter := by
    have hget : (tail.takeWhile isHostCharacter)[39] = tail[39] :=
      (List.takeWhile_prefix isHostCharacter).getElem h
    rw [← hget]
    exact List.getElem_mem h
  have hhost := List.mem_takeWhile_imp hmem
  rw [hcolon] at hhost
  revert hhost
  decide

theorem take_run (p : UInt8 → Bool) (n : Nat) (l : List UInt8) :
    (l.take n).takeWhile p = (l.takeWhile p).take n := (List.take_takeWhile ..).symm

/-- Both fields are converted when the host is not too long; the port may be cut off. -/
theorem scanUri_of_fields {host port : List UInt8} (hfields : uriFields text = some (host, port))
    (hlt : host.length < maxHostLength) :
    scanUri text = (host, port.take 9) ∧ host ≠ [] ∧ port ≠ [] := by
  unfold uriFields at hfields
  split at hfields
  · next htag =>
    simp only at hfields
    split at hfields
    · cases hfields
    · next c rest htail =>
      split at hfields
      · next hboth =>
        obtain ⟨rfl, hhost, hport⟩ := hboth
        cases hfields
        refine ⟨?_, hhost, hport⟩
        unfold scanUri
        rw [if_pos htag, take_run, List.take_of_length_le (Nat.le_of_lt_succ hlt)]
        simp only
        rw [if_neg hhost, htail]
        simp only [if_true]
        rw [take_run]
      · cases hfields
  · cases hfields

theorem fields_of_scanUri (h : (scanUri text).1 ≠ [] ∧ (scanUri text).2 ≠ []) :
    ∃ host port, uriFields text = some (host, port) ∧ host.length < maxHostLength := by
  unfold scanUri at h
  unfold uriFields
  split at h
  · next htag =>
    rw [if_pos htag]
    simp only [take_run] at h ⊢
    split at h
    · exact absurd rfl h.1
    · next hne =>
      by_cases hlong : 39 < ((text.drop 11).takeWhile isHostCharacter).length
      · obtain ⟨c, rest, hrest, hc⟩ := long_host_no_colon hlong
        rw [List.drop_drop] at hrest
        rw [List.length_take, Nat.min_eq_left (Nat.le_of_lt hlong), hrest] at h
        simp only [if_neg hc] at h
        exact absurd rfl h.2
      · rw [List.take_of_length_le (Nat.le_of_not_lt hlong)] at h hne
        cases htail : text.drop (11 + ((text.drop 11).takeWhile isHostCharacter).length) with
        | nil =>
          rw [htail] at h
          exact absurd rfl h.2
        | cons c rest =>
          rw [htail] at h
          simp only at h ⊢
          by_cases hc : c = 58
          · rw [if_pos hc] at h
            have hport : rest.takeWhile isDigit ≠ [] := by
              intro h0
              rw [h0] at h
              exact absurd rfl h.2
            exact ⟨_, _, if_pos ⟨hc, hne, hport⟩, Nat.lt_succ_of_le (Nat.le_of_not_lt hlong)⟩
          · rw [if_neg hc] at h
            exact absurd rfl h.2
  · exact absurd rfl h.1

end Texts

end JsEmbeddedPlatform.Discovery
