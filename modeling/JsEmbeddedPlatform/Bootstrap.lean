import JsEmbeddedPlatform.ObjectSecurity
import JsEmbeddedPlatform.ObjectServer
import JsEmbeddedPlatform.PackageUri

/-!
# The announced bootstrap server

Two threads of the LWM2M client. `init_discovery` takes the endpoint and the URI of a
bootstrap server from datagrams and sets a bit for each; the loop of `init_lwm2m` copies
both when it finds both bits set, rebuilds the objects and the context, and clears the
bits. A datagram may come between any two of these steps.
-/

set_option autoImplicit false

namespace JsEmbeddedPlatform.Bootstrap

open ObjectSecurity (Memory getServerUri cleanSecurityObject createBootstrapSecurityInstance)
open ObjectServer (createBootstrapServerInstance)
open PackageUri (isDigit)

def bootstrapUriSet : UInt8 := 0b10
def endpointSet : UInt8 := 0b01
def bootstrapReady : UInt8 := bootstrapUriSet ||| endpointSet

def maxDiscoveryPacketSize : Nat := 256
def serverUriSize : Nat := 50

/-! ## The datagrams -/

/-- `sscanf(text, "EP:%39c", ...)`, which takes fewer characters when there are fewer. -/
def scanEndpoint (text : List UInt8) : Option (List UInt8) :=
  if text.drop 3 = [] then none else some ((text.drop 3).take 39)

def isHostCharacter (c : UInt8) : Bool := isDigit c || c = 46

/-- `sscanf(text, "URI:coap://%39[0-9.]:%9[0-9]", ...)`. What is not converted stays empty. -/
def scanUri (text : List UInt8) : List UInt8 × List UInt8 :=
  if (CString.ascii "URI:coap://").isPrefixOf text then
    let host := ((text.drop 11).take 39).takeWhile isHostCharacter
    if host = [] then ([], [])
    else
      match text.drop (11 + host.length) with
      | [] => (host, [])
      | c :: rest => if c = 58 then (host, (rest.take 9).takeWhile isDigit) else (host, [])
  else ([], [])

/-- What a datagram is taken for: an endpoint, if there is one, or a host and a port, each of which
may be empty. -/
inductive Announcement where
  | endpoint (scanned : Option (List UInt8))
  | uri (host port : List UInt8)
  | nothing
deriving DecidableEq, Repr

/-- `numBytes` bytes have come and `buffer` holds them; the text is read up to a NUL that must be in
the buffer. -/
def announcement (numBytes : Nat) (buffer : List UInt8) : Option Announcement :=
  if 3 < numBytes ∧ (CString.ascii "EP:").isPrefixOf buffer then
    (CString.read buffer).map fun text => .endpoint (scanEndpoint text)
  else if 4 < numBytes ∧ (CString.ascii "URI:").isPrefixOf buffer then
    (CString.read buffer).map fun text => .uri (scanUri text).1 (scanUri text).2
  else some .nothing

/-! ## The state -/

/-- What the loop rebuilds: the instances of the two objects with the memory behind the first, and
the name in the context. -/
structure Objects where
  memory : Memory
  security : ObjectSecurity.InstanceList
  server : ObjectServer.InstanceList
  endpointName : Option (List UInt8)

/-- Where the loop is. `overrun` is after a URI that `serverUri` has no room for. -/
inductive Loop where
  | test
  | rebuild
  | clear
  | overrun
deriving DecidableEq, Repr

/-- The host and the port, and the endpoint, of the datagrams that were accepted last. -/
structure Accepted where
  uri : Option (List UInt8 × List UInt8)
  endpoint : Option (List UInt8)
deriving DecidableEq, Repr

/-- Of a text in a buffer that has been filled with NULs before, the text. -/
structure State where
  bootstrapReady : UInt8
  serverHostBuffer : List UInt8
  serverPortBuffer : List UInt8
  endpointBuffer : List UInt8
  buffer : List UInt8
  loop : Loop
  serverUri : List UInt8
  endpoint : List UInt8
  objects : Objects
  accepted : Accepted

/-- At the first turn of both loops. The buffer for datagrams has not been initialised. -/
def start (buffer : List UInt8) (objects : Objects) : State where
  bootstrapReady := 0
  serverHostBuffer := []
  serverPortBuffer := []
  endpointBuffer := []
  buffer := buffer
  loop := .test
  serverUri := CString.ascii "coap://192.168.223.105:5685"
  endpoint := CString.ascii "jsembedded"
  objects := objects
  accepted := ⟨none, none⟩

/-! ## The steps -/

def State.take (s : State) : Announcement → State
  | .endpoint (some name) => { s with
      endpointBuffer := name
      bootstrapReady := s.bootstrapReady ||| endpointSet
      accepted := { s.accepted with endpoint := some name } }
  | .endpoint none => { s with
      endpointBuffer := []
      bootstrapReady := s.bootstrapReady &&& ~~~endpointSet }
  | .uri host port =>
    if host ≠ [] ∧ port ≠ [] then { s with
      serverHostBuffer := host
      serverPortBuffer := port
      bootstrapReady := s.bootstrapReady ||| bootstrapUriSet
      accepted := { s.accepted with uri := some (host, port) } }
    else { s with
      serverHostBuffer := host
      serverPortBuffer := port
      bootstrapReady := s.bootstrapReady &&& ~~~bootstrapUriSet }
  | .nothing => s

def State.received (s : State) (datagram : List UInt8) : List UInt8 :=
  datagram ++ s.buffer.drop datagram.length

/-- A turn of the loop of `init_discovery`; more bytes than `buffer` has would be written past its
end. -/
def receive (datagram : List UInt8) (s : State) : Option State :=
  if datagram = [] then some s
  else if maxDiscoveryPacketSize < datagram.length then none
  else do
    let a ← announcement datagram.length (s.received datagram)
    some { s.take a with buffer := List.replicate maxDiscoveryPacketSize 0 }

/-- `sprintf(serverUri, "coap://%s:%s", ...)` -/
def uriText (host port : List UInt8) : List UInt8 := CString.ascii "coap://" ++ host ++ 58 :: port

def copy (s : State) : State :=
  if s.bootstrapReady = bootstrapReady then
    let uri := uriText s.serverHostBuffer s.serverPortBuffer
    if uri.length < serverUriSize then
      { s with serverUri := uri, endpoint := s.endpointBuffer, loop := .rebuild }
    else { s with loop := .overrun }
  else s

/-- Which of the allocations succeed. -/
structure Room where
  security : ObjectSecurity.Room
  server : Bool
  context : Bool
  endpoint : Bool
deriving DecidableEq, Repr

/-- The cleaned objects have no instances, so that an instance is created where there is room for it.
A context that is NULL would be configured all the same. -/
def rebuild (room : Room) (serverUri endpoint : List UInt8) (o : Objects) : Option Objects := do
  let memory ← cleanSecurityObject o.security o.memory
  let (memory, security) ← createBootstrapSecurityInstance room.security serverUri memory []
  if room.security.securityInstance then
    let server := createBootstrapServerInstance room.server []
    if room.server then
      if room.context then
        some ⟨memory, security, server, if room.endpoint then some endpoint else none⟩
      else none
    else some ⟨memory, security, server, o.endpointName⟩
  else some ⟨memory, security, [], o.endpointName⟩

/-- `rest` is the rest of a turn of the loop, which may change the objects. -/
inductive Step where
  | datagram (bytes : List UInt8)
  | copy
  | rebuild (room : Room)
  | clear
  | rest (objects : Objects)

def step (s : State) : Step → Option (State × Unit)
  | .datagram bytes => (receive bytes s).map fun t => (t, ())
  | .copy => if s.loop = .test then some (copy s, ()) else none
  | .rebuild room =>
    if s.loop = .rebuild then do
      let objects ← rebuild room s.serverUri s.endpoint s.objects
      some ({ s with objects := objects, loop := .clear }, ())
    else none
  | .clear =>
    if s.loop = .clear then some ({ s with bootstrapReady := 0, loop := .test }, ()) else none
  | .rest objects => if s.loop = .test then some ({ s with objects := objects }, ()) else none

/-! ## Nothing is lost -/

/-- The URI in the security object and the name in the context are those accepted last. -/
structure Configured (s : State) : Prop where
  uri : ∃ host port, s.accepted.uri = some (host, port) ∧
    getServerUri true 0 s.objects.memory s.objects.security =
      some (some (uriText host port ++ [0]))
  endpoint : ∃ name, s.accepted.endpoint = some name ∧ s.objects.endpointName = some name

/-- What is accepted is what the loop has copied. -/
def State.Agrees (s : State) : Announcement → Prop
  | .endpoint (some name) => name = s.endpoint
  | .endpoint none => True
  | .uri host port => host ≠ [] ∧ port ≠ [] → uriText host port = s.serverUri
  | .nothing => True

instance (s : State) (a : Announcement) : Decidable (s.Agrees a) :=
  match a with
  | .endpoint (some name) => inferInstanceAs (Decidable (name = s.endpoint))
  | .endpoint none => isTrue trivial
  | .uri host port =>
    inferInstanceAs (Decidable (host ≠ [] ∧ port ≠ [] → uriText host port = s.serverUri))
  | .nothing => isTrue trivial

/-- While the loop is busy nothing else is accepted than what it has copied, and what it rebuilds
finds room. -/
def Undisturbed (s : State) : Step → Prop
  | .datagram bytes => s.loop = .rebuild ∨ s.loop = .clear →
    ∀ a ∈ announcement bytes.length (s.received bytes), s.Agrees a
  | .rebuild room => room.security.securityInstance ∧ room.server ∧ room.endpoint
  | _ => True

instance (s : State) (i : Step) : Decidable (Undisturbed s i) :=
  match i with
  | .datagram bytes => inferInstanceAs (Decidable (s.loop = .rebuild ∨ s.loop = .clear →
      ∀ a ∈ announcement bytes.length (s.received bytes), s.Agrees a))
  | .rebuild _ => inferInstanceAs (Decidable (_ ∧ _ ∧ _))
  | .copy => isTrue trivial
  | .clear => isTrue trivial
  | .rest _ => isTrue trivial

/-! ## The invariant -/

/-- The bit mask with these bits set. -/
def mask (uri endpoint : Bool) : UInt8 :=
  (if uri then bootstrapUriSet else 0) ||| (if endpoint then endpointSet else 0)

/-- A bit that is set says that the buffer has what was accepted last. -/
structure Announced (s : State) (uri endpoint : Bool) : Prop where
  bits : s.bootstrapReady = mask uri endpoint
  uri : uri → s.accepted.uri = some (s.serverHostBuffer, s.serverPortBuffer)
  endpoint : endpoint → s.accepted.endpoint = some s.endpointBuffer

/-- What `scanUri` converts has no NUL. -/
def Plain (host port : List UInt8) : Prop := 0 ∉ host ∧ 0 ∉ port

structure Copied (s : State) : Prop where
  uri : ∃ host port, s.accepted.uri = some (host, port) ∧ s.serverUri = uriText host port
  endpoint : s.accepted.endpoint = some s.endpoint

structure Rebuilt (s : State) : Prop where
  uri : getServerUri true 0 s.objects.memory s.objects.security = some (some (s.serverUri ++ [0]))
  endpoint : s.objects.endpointName = some s.endpoint

structure Invariant (s : State) : Prop where
  announced : ∃ uri endpoint, Announced s uri endpoint
  plain : Plain s.serverHostBuffer s.serverPortBuffer
  plainUri : 0 ∉ s.serverUri
  copied : s.loop = .rebuild ∨ s.loop = .clear → Copied s
  rebuilt : s.loop = .clear → Rebuilt s

section Masks

theorem mask_ready {uri endpoint : Bool} (h : mask uri endpoint = bootstrapReady) :
    uri = true ∧ endpoint = true := by
  cases uri <;> cases endpoint
  · cases h
  · cases h
  · cases h
  · exact ⟨rfl, rfl⟩

theorem mask_setEndpoint (uri endpoint : Bool) :
    mask uri endpoint ||| endpointSet = mask uri true := by
  cases uri <;> cases endpoint <;> rfl

theorem mask_clearEndpoint (uri endpoint : Bool) :
    mask uri endpoint &&& ~~~endpointSet = mask uri false := by
  cases uri <;> cases endpoint <;> rfl

theorem mask_setUri (uri endpoint : Bool) :
    mask uri endpoint ||| bootstrapUriSet = mask true endpoint := by
  cases uri <;> cases endpoint <;> rfl

theorem mask_clearUri (uri endpoint : Bool) :
    mask uri endpoint &&& ~~~bootstrapUriSet = mask false endpoint := by
  cases uri <;> cases endpoint <;> rfl

end Masks

section Texts

theorem nul_notMem_takeWhile {p : UInt8 → Bool} (hp : p 0 = false) (text : List UInt8) :
    0 ∉ text.takeWhile p := by
  intro h
  have := List.mem_takeWhile_imp h
  rw [hp] at this
  cases this

theorem scanUri_plain (text : List UInt8) : Plain (scanUri text).1 (scanUri text).2 := by
  have hhost := nul_notMem_takeWhile (p := isHostCharacter) rfl ((text.drop 11).take 39)
  unfold scanUri
  split
  · simp only
    split
    · exact ⟨List.not_mem_nil, List.not_mem_nil⟩
    · split
      · exact ⟨hhost, List.not_mem_nil⟩
      · split
        · exact ⟨hhost, nul_notMem_takeWhile rfl _⟩
        · exact ⟨hhost, List.not_mem_nil⟩
  · exact ⟨List.not_mem_nil, List.not_mem_nil⟩

theorem announcement_plain {numBytes : Nat} {buffer host port : List UInt8}
    (h : announcement numBytes buffer = some (.uri host port)) : Plain host port := by
  unfold announcement at h
  split at h
  · obtain ⟨_, _, heq⟩ := Option.map_eq_some_iff.mp h
    cases heq
  · split at h
    · obtain ⟨text, _, heq⟩ := Option.map_eq_some_iff.mp h
      cases heq
      exact scanUri_plain text
    · cases h

theorem uriText_plain {host port : List UInt8} (h : Plain host port) : 0 ∉ uriText host port := by
  unfold uriText
  intro hmem
  rcases List.mem_append.mp hmem with hmem | hmem
  · rcases List.mem_append.mp hmem with hmem | hmem
    · revert hmem
      decide
    · exact h.1 hmem
  · rcases List.mem_cons.mp hmem with hmem | hmem
    · cases hmem
    · exact h.2 hmem

end Texts

section Steps
variable {s t : State} {a : Announcement}

theorem take_announced {uri endpoint : Bool} (h : Announced s uri endpoint) (a : Announcement) :
    ∃ uri endpoint, Announced (s.take a) uri endpoint := by
  cases a with
  | endpoint scanned =>
    cases scanned with
    | none =>
      refine ⟨uri, false, ?_, h.uri, ?_⟩
      · simp only [State.take, h.bits, mask_clearEndpoint]
      · intro hfalse
        cases hfalse
    | some name =>
      refine ⟨uri, true, ?_, h.uri, fun _ => rfl⟩
      simp only [State.take, h.bits, mask_setEndpoint]
  | uri host port =>
    by_cases hboth : host ≠ [] ∧ port ≠ []
    · rw [State.take, if_pos hboth]
      refine ⟨true, endpoint, ?_, fun _ => rfl, h.endpoint⟩
      simp only [h.bits, mask_setUri]
    · rw [State.take, if_neg hboth]
      refine ⟨false, endpoint, ?_, ?_, h.endpoint⟩
      · simp only [h.bits, mask_clearUri]
      · intro hfalse
        cases hfalse
  | nothing => exact ⟨uri, endpoint, h⟩

/-- The loop does not notice a datagram. -/
theorem take_frame (s : State) (a : Announcement) : (s.take a).loop = s.loop ∧
    (s.take a).serverUri = s.serverUri ∧ (s.take a).endpoint = s.endpoint ∧
    (s.take a).objects = s.objects := by
  cases a with
  | endpoint scanned => cases scanned <;> exact ⟨rfl, rfl, rfl, rfl⟩
  | uri host port =>
    unfold State.take
    simp only
    split <;> exact ⟨rfl, rfl, rfl, rfl⟩
  | nothing => exact ⟨rfl, rfl, rfl, rfl⟩

theorem take_plain {numBytes : Nat} {buffer : List UInt8}
    (h : Plain s.serverHostBuffer s.serverPortBuffer) (ha : announcement numBytes buffer = some a) :
    Plain (s.take a).serverHostBuffer (s.take a).serverPortBuffer := by
  cases a with
  | endpoint scanned => cases scanned <;> exact h
  | uri host port =>
    have hplain := announcement_plain ha
    unfold State.take
    simp only
    split <;> exact hplain
  | nothing => exact h

theorem take_copied (h : Copied s) (hagrees : s.Agrees a) : Copied (s.take a) := by
  cases a with
  | endpoint scanned =>
    cases scanned with
    | none => exact ⟨h.uri, h.endpoint⟩
    | some name =>
      have hname : name = s.endpoint := hagrees
      exact ⟨h.uri, congrArg some hname⟩
  | uri host port =>
    by_cases hboth : host ≠ [] ∧ port ≠ []
    · rw [State.take, if_pos hboth]
      have huri : uriText host port = s.serverUri := hagrees hboth
      exact ⟨⟨host, port, rfl, huri.symm⟩, h.endpoint⟩
    · rw [State.take, if_neg hboth]
      exact ⟨h.uri, h.endpoint⟩
  | nothing => exact h

theorem receive_invariant {bytes : List UInt8} (h : Invariant s)
    (hagrees : s.loop = .rebuild ∨ s.loop = .clear →
      ∀ a ∈ announcement bytes.length (s.received bytes), s.Agrees a)
    (hreceive : receive bytes s = some t) : Invariant t := by
  unfold receive at hreceive
  split at hreceive
  · cases hreceive
    exact h
  · split at hreceive
    · cases hreceive
    · obtain ⟨a, ha, heq⟩ := Option.bind_eq_some_iff.mp hreceive
      cases heq
      obtain ⟨uri, endpoint, hannounced⟩ := h.announced
      obtain ⟨hloop, huri, hendpoint, hobjects⟩ := take_frame s a
      obtain ⟨u, e, htaken⟩ := take_announced hannounced a
      refine ⟨⟨u, e, htaken.bits, htaken.uri, htaken.endpoint⟩, take_plain h.plain ha, ?_, ?_, ?_⟩
      · simp only [huri]
        exact h.plainUri
      · intro hbusy
        simp only [hloop] at hbusy
        have htook := take_copied (h.copied hbusy) (hagrees hbusy a ha)
        exact ⟨htook.uri, htook.endpoint⟩
      · intro hclear
        simp only [hloop] at hclear
        have hrebuilt := h.rebuilt hclear
        refine ⟨?_, ?_⟩
        · simp only [hobjects, huri]
          exact hrebuilt.uri
        · simp only [hobjects, hendpoint]
          exact hrebuilt.endpoint

/-- Both bits are set when the loop copies. -/
theorem copy_invariant (h : Invariant s) : Invariant (copy s) := by
  unfold copy
  split
  · next hready =>
    obtain ⟨uri, endpoint, hannounced⟩ := h.announced
    obtain ⟨rfl, rfl⟩ := mask_ready (hannounced.bits.symm.trans hready)
    simp only
    split
    · refine ⟨⟨true, true, hannounced.bits, hannounced.uri, hannounced.endpoint⟩, h.plain,
        uriText_plain h.plain, ?_, ?_⟩
      · intro _
        exact ⟨⟨_, _, hannounced.uri rfl, rfl⟩, hannounced.endpoint rfl⟩
      · intro hclear
        cases hclear
    · refine ⟨⟨true, true, hannounced.bits, hannounced.uri, hannounced.endpoint⟩, h.plain,
        h.plainUri, ?_, ?_⟩
      · intro hbusy
        rcases hbusy with hbusy | hbusy <;> cases hbusy
      · intro hclear
        cases hclear
  · exact h

/-- The only instance of the object is the new one. -/
theorem created_uri {room : ObjectSecurity.Room} {serverUri : List UInt8} {m filled : Memory}
    {list : ObjectSecurity.InstanceList} (hplain : 0 ∉ serverUri)
    (hroom : room.securityInstance = true)
    (h : createBootstrapSecurityInstance room serverUri m [] = some (filled, list)) :
    getServerUri true 0 filled list = some (some (serverUri ++ [0])) := by
  have hfind : Lwm2mList.lwm2mListFind ObjectSecurity.SecurityInstance.instanceId 0 [] = none := rfl
  unfold createBootstrapSecurityInstance at h
  rw [hfind] at h
  simp only [hroom, if_true] at h
  obtain ⟨⟨m', target⟩, hcreate, h⟩ := Option.bind_eq_some_iff.mp h
  cases h
  unfold ObjectSecurity.prvCreateSecurityInstance at hcreate
  obtain ⟨⟨uri, m''⟩, hplace, hcreate⟩ := Option.bind_eq_some_iff.mp hcreate
  have hplaced : (if room.uri then some (some (Ownership.allocate (serverUri ++ [0]) m).1,
      (Ownership.allocate (serverUri ++ [0]) m).2) else none) = some (uri, m'') := hplace
  split at hplaced
  · cases hplaced
    cases hcreate
    have hblock : (Ownership.allocate (serverUri ++ [0]) m).2.get?
        (Ownership.allocate (serverUri ++ [0]) m).1 = some (serverUri ++ [0]) := by
      unfold Ownership.allocate
      rw [Heap.get?_alloc (Ownership.unused_notMem m), if_pos rfl]
    have hread : CString.read (serverUri ++ [0]) = some serverUri := by
      unfold CString.read
      rw [if_pos (by simp), CString.text_append_nul hplain]
    -- the loop over the list stops at its only node, whose id is 0
    have hserver : ∀ m target, target.instanceId = 0 →
        getServerUri true 0 m [target] = (Ownership.block m target.uri).bind
          fun bytes => (CString.read bytes).bind fun text => some (some (text ++ [0])) := by
      intro m target hid
      unfold getServerUri Lwm2mList.lwm2mListFind
      rw [if_neg (by omega), if_pos hid]
      rfl
    refine (hserver _ _ rfl).trans ?_
    rw [Ownership.block]
    exact (congrArg (Option.bind · _) hblock).trans (by rw [Option.bind_some, hread]; rfl)
  · cases hplaced

/-- With room for everything the objects and the context have what was copied. -/
theorem rebuild_configures {room : Room} {serverUri endpoint : List UInt8} {o o' : Objects}
    (hplain : 0 ∉ serverUri) (hsecurity : room.security.securityInstance = true)
    (hserver : room.server = true) (hendpoint : room.endpoint = true)
    (h : rebuild room serverUri endpoint o = some o') :
    getServerUri true 0 o'.memory o'.security = some (some (serverUri ++ [0])) ∧
      o'.endpointName = some endpoint := by
  unfold rebuild at h
  obtain ⟨memory, _, h⟩ := Option.bind_eq_some_iff.mp h
  obtain ⟨⟨filled, security⟩, hcreate, h⟩ := Option.bind_eq_some_iff.mp h
  have huri : getServerUri true 0 filled security = some (some (serverUri ++ [0])) :=
    created_uri hplain hsecurity hcreate
  simp only [hsecurity, hserver, if_true, hendpoint] at h
  split at h
  · cases h
    exact ⟨huri, rfl⟩
  · cases h

theorem step_invariant {i : Step} {o : Unit} (h : Invariant s) (hmeets : Undisturbed s i)
    (hstep : step s i = some (t, o)) : Invariant t := by
  cases i with
  | datagram bytes =>
    obtain ⟨t, hreceive, heq⟩ := Option.map_eq_some_iff.mp hstep
    cases heq
    exact receive_invariant h hmeets hreceive
  | copy =>
    simp only [step] at hstep
    split at hstep
    · cases hstep
      exact copy_invariant h
    · cases hstep
  | rebuild room =>
    simp only [step] at hstep
    split at hstep
    · next hloop =>
      obtain ⟨objects, hrebuild, heq⟩ := Option.bind_eq_some_iff.mp hstep
      cases heq
      obtain ⟨hsecurity, hserver, hendpoint⟩ := hmeets
      obtain ⟨huri, hname⟩ := rebuild_configures h.plainUri hsecurity hserver hendpoint hrebuild
      obtain ⟨uri, endpoint, hannounced⟩ := h.announced
      have hcopied := h.copied (Or.inl hloop)
      exact ⟨⟨uri, endpoint, hannounced.bits, hannounced.uri, hannounced.endpoint⟩, h.plain,
        h.plainUri, fun _ => ⟨hcopied.uri, hcopied.endpoint⟩, fun _ => ⟨huri, hname⟩⟩
    · cases hstep
  | clear =>
    simp only [step] at hstep
    split at hstep
    · cases hstep
      refine ⟨⟨false, false, rfl, ?_, ?_⟩, h.plain, h.plainUri, ?_, ?_⟩
      · intro hfalse
        cases hfalse
      · intro hfalse
        cases hfalse
      · intro hbusy
        rcases hbusy with hbusy | hbusy <;> cases hbusy
      · intro hclear
        cases hclear
    · cases hstep
  | rest objects =>
    simp only [step] at hstep
    split at hstep
    · next hloop =>
      cases hstep
      obtain ⟨uri, endpoint, hannounced⟩ := h.announced
      refine ⟨⟨uri, endpoint, hannounced.bits, hannounced.uri, hannounced.endpoint⟩, h.plain,
        h.plainUri, ?_, ?_⟩
      · intro hbusy
        simp only [hloop] at hbusy
        rcases hbusy with hbusy | hbusy <;> cases hbusy
      · intro hclear
        simp only [hloop] at hclear
        cases hclear
    · cases hstep

theorem start_invariant (buffer : List UInt8) (objects : Objects) :
    Invariant (start buffer objects) := by
  refine ⟨⟨false, false, rfl, ?_, ?_⟩, ⟨List.not_mem_nil, List.not_mem_nil⟩, ?_, ?_, ?_⟩
  · intro hfalse
    cases hfalse
  · intro hfalse
    cases hfalse
  · have : 0 ∉ CString.ascii "coap://192.168.223.105:5685" := by decide
    exact this
  · intro hbusy
    rcases hbusy with hbusy | hbusy <;> cases hbusy
  · intro hclear
    cases hclear

/-- What is configured when the loop clears the bits. -/
theorem Invariant.configured (h : Invariant s) (hloop : s.loop = .clear) : Configured s := by
  have hcopied := h.copied (Or.inr hloop)
  have hrebuilt := h.rebuilt hloop
  obtain ⟨host, port, haccepted, huri⟩ := hcopied.uri
  exact ⟨⟨host, port, haccepted, huri ▸ hrebuilt.uri⟩, ⟨_, hcopied.endpoint, hrebuilt.endpoint⟩⟩

end Steps

/-- Whenever the loop clears the bits it has configured what was accepted last, in every run in
which nothing else is accepted while it rebuilds. -/
theorem clear_loses_nothing (buffer : List UInt8) (objects : Objects) (steps : List Step)
    (t : State) (outs : List Unit)
    (hmeets : Runs.Along Undisturbed step (start buffer objects) steps)
    (hrun : Runs.run step (start buffer objects) (steps ++ [.clear]) = some (t, outs)) :
    Configured t := by
  obtain ⟨s, before, o, hbefore, hclear⟩ := Runs.run_concat hrun
  have hinvariant : Invariant s := Runs.run_along (P := fun _ _ s => Invariant s)
    (fun _ _ _ _ _ _ h hmeets hstep => step_invariant h hmeets hstep)
    (start_invariant buffer objects) hmeets hbefore
  simp only [step] at hclear
  split at hclear
  · next hloop =>
    cases hclear
    have hconfigured := hinvariant.configured hloop
    exact ⟨hconfigured.uri, hconfigured.endpoint⟩
  · cases hclear

def blank : State := start (List.replicate maxDiscoveryPacketSize 0) ⟨Heap.empty, [], [], none⟩

def roomy : Room := ⟨⟨true, true, true, true, true⟩, true, true, true⟩

def announceUri (uri : String) : Step := .datagram (CString.ascii uri)

def oneServer : List Step :=
  [.datagram (CString.ascii "EP:device"), announceUri "URI:coap://10.0.0.2:5683", .copy,
    .rebuild roomy]

theorem announced_server_configured :
    ∃ t outs, Runs.run step blank (oneServer ++ [.clear]) = some (t, outs) ∧ Configured t := by
  obtain ⟨t, outs, hrun, _⟩ : ∃ t outs, Runs.run step blank (oneServer ++ [.clear]) =
      some (t, outs) ∧ decide (t.bootstrapReady = 0) = true := Runs.run_evaluated (by decide +kernel)
  exact ⟨t, outs, hrun, clear_loses_nothing (List.replicate maxDiscoveryPacketSize 0)
    ⟨Heap.empty, [], [], none⟩ oneServer t outs (by decide +kernel) hrun⟩

/-- Another server is announced after the loop has copied the first one. -/
def twoServers : List Step :=
  [.datagram (CString.ascii "EP:device"), announceUri "URI:coap://10.0.0.2:5683", .copy,
    announceUri "URI:coap://10.0.0.3:5683", .rebuild roomy]

theorem second_server_lost :
    ∃ t outs, Runs.run step blank (twoServers ++ [.clear]) = some (t, outs) ∧
      t.bootstrapReady = 0 ∧
      t.accepted.uri = some (CString.ascii "10.0.0.3", CString.ascii "5683") ∧
      getServerUri true 0 t.objects.memory t.objects.security =
        some (some (CString.ascii "coap://10.0.0.2:5683" ++ [0])) ∧
      ¬ Configured t := by
  obtain ⟨t, outs, hrun, htest⟩ : ∃ t outs,
      Runs.run step blank (twoServers ++ [.clear]) = some (t, outs) ∧
        decide (t.bootstrapReady = 0 ∧
          t.accepted.uri = some (CString.ascii "10.0.0.3", CString.ascii "5683") ∧
          getServerUri true 0 t.objects.memory t.objects.security =
            some (some (CString.ascii "coap://10.0.0.2:5683" ++ [0]))) = true :=
    Runs.run_evaluated (by decide +kernel)
  obtain ⟨hready, haccepted, huri⟩ := of_decide_eq_true htest
  refine ⟨t, outs, hrun, hready, haccepted, huri, ?_⟩
  intro hconfigured
  obtain ⟨host, port, hlast, hserver⟩ := hconfigured.uri
  rw [haccepted] at hlast
  cases hlast
  rw [huri] at hserver
  exact absurd hserver (by decide)

end JsEmbeddedPlatform.Bootstrap
