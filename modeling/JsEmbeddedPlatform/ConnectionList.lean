import JsEmbeddedPlatform.ObjectSecurity
import JsEmbeddedPlatform.Shared.Chain

/-!
# The list of connections

`connection.c` and the two functions of the LWM2M client that open and close a session. A
session handle is the address of a `connection_t`; the connections are linked from
`connList` on, the youngest first. A packet belongs to the first of them that has the
address it comes from.
-/

set_option autoImplicit false

namespace JsEmbeddedPlatform.ConnectionList

open ObjectSecurity (Memory InstanceList getServerUri)

/-! ## The functions -/

/-- The size of the field `addr`. -/
def sizeofSockaddr : Nat := 16

/-- An address of the family `AF_INET`, the only one that is asked for. Its length is `addrLen`. -/
structure SockAddr where
  bytes : List UInt8
  fits : bytes.length ≤ sizeofSockaddr
deriving DecidableEq, Repr

/-- `addr` stands for the bytes that are copied, and for their number. -/
structure Connection where
  next : Option Nat
  sock : Nat
  addr : SockAddr
deriving DecidableEq, Repr

/-- An element of the list that `getaddrinfo` returns, with the outcomes of `socket` and `connect`
for it. -/
structure AddrInfo where
  addr : SockAddr
  opened : Bool
  connected : Bool
deriving DecidableEq, Repr

/-- The comparison of the lengths and of the bytes. -/
def SockAddr.equals (a : SockAddr) (addr : List UInt8) (addrLen : Nat) : Bool :=
  a.bytes.length = addrLen && a.bytes = addr.take addrLen

/-- A pointer that leads to no connection ends it with `none`, and so does a list that never
ends. -/
def connectionFind (h : Heap Connection) (addr : List UInt8) (addrLen : Nat) :
    Nat → Option Nat → Option (Option Nat)
  | _, none => some none
  | 0, some _ => none
  | rounds + 1, some connP => do
    let c ← h.get? connP
    if c.addr.equals addr addrLen then some (some connP)
    else connectionFind h addr addrLen rounds c.next

/-- The loop over `servinfo`. -/
def tryAddresses : List AddrInfo → Option SockAddr
  | [] => none
  | p :: rest => if p.opened && p.connected then some p.addr else tryAddresses rest

/-- `malloc` has returned `connP`, an address that is not in use, or NULL. -/
def connectionNewIncoming (malloc connList : Option Nat) (sock : Nat) (addr : SockAddr)
    (h : Heap Connection) : Option (Option Nat × Heap Connection) :=
  match malloc with
  | none => some (none, h)
  | some connP =>
    if connP ∈ h.live then none else some (some connP, h.alloc connP ⟨connList, sock, addr⟩)

def connectionCreate (getaddrinfo : List UInt8 → List UInt8 → Option (List AddrInfo))
    (malloc connList : Option Nat) (sock : Nat) (host port : List UInt8) (h : Heap Connection) :
    Option (Option Nat × Heap Connection) :=
  match getaddrinfo host port with
  | none => some (none, h)
  | some servinfo =>
    match tryAddresses servinfo with
    | none => some (none, h)
    | some sa => connectionNewIncoming malloc connList sock sa h

/-- What stands before and behind the `:` that `strrchr` finds. -/
def splitLast : List UInt8 → Option (List UInt8 × List UInt8)
  | [] => none
  | c :: rest =>
    match splitLast rest with
    | some (before, after) => some (c :: before, after)
    | none => if c = 58 then some ([], rest) else none

def removeBrackets : List UInt8 → Option (List UInt8)
  | [] => some []
  | c :: rest =>
    if c = 91 then
      if (c :: rest).getLast? = some 93 then some rest.dropLast else none
    else some (c :: rest)

def skipScheme (uri : List UInt8) : Option (List UInt8) :=
  if (CString.ascii "coaps://").isPrefixOf uri then some (uri.drop 8)
  else if (CString.ascii "coap://").isPrefixOf uri then some (uri.drop 7)
  else none

/-- A URI of the form `coaps://[host]:[port]` -/
def parseUri (uri : List UInt8) : Option (List UInt8 × List UInt8) := do
  let (host, port) ← splitLast (← skipScheme uri)
  some (← removeBrackets host, port)

/-- A call of `lwm2m_connect_server`: the security object that it finds, whether there is room for
the copy of the URI, and what the functions of the system return. -/
structure Connect where
  secObjInstID : Nat
  memory : Memory
  instanceList : InstanceList
  copied : Bool
  getaddrinfo : List UInt8 → List UInt8 → Option (List AddrInfo)
  malloc : Option Nat

structure ClientData where
  heap : Heap Connection
  connList : Option Nat
  sock : Nat

def lwm2mConnectServer (c : Connect) (d : ClientData) : Option (Option Nat × ClientData) := do
  match ← getServerUri c.copied c.secObjInstID c.memory c.instanceList with
  | none => some (none, d)
  | some uri =>
    match parseUri (CString.text uri) with
    | none => some (none, d)
    | some (host, port) =>
      match ← connectionCreate c.getaddrinfo c.malloc d.connList d.sock host port d.heap with
      | (none, heap) => some (none, { d with heap := heap })
      | (some newConnP, heap) =>
        some (some newConnP, { d with heap := heap, connList := some newConnP })

/-- The loop that looks for the connection before `targetP`. -/
def unlink (targetP : Nat) (h : Heap Connection) : Nat → Option Nat → Option (Heap Connection)
  | _, none => some h
  | 0, some _ => none
  | rounds + 1, some parentP => do
    let parent ← h.get? parentP
    if parent.next = some targetP then
      let target ← h.get? targetP
      some ((h.modify parentP fun c => { c with next := target.next }).free targetP)
    else unlink targetP h rounds parent.next

def lwm2mCloseConnection (targetP : Nat) (d : ClientData) : Option ClientData :=
  if d.connList = some targetP then do
    let target ← d.heap.get? targetP
    some { d with connList := target.next, heap := d.heap.free targetP }
  else do
    let heap ← unlink targetP d.heap d.heap.live.length d.connList
    some { d with heap := heap }

/-- How the client looks for the session of a packet. -/
def ClientData.find (d : ClientData) (addr : List UInt8) (addrLen : Nat) : Option (Option Nat) :=
  connectionFind d.heap addr addrLen d.heap.live.length d.connList

/-! ## Open sessions -/

/-- A session and the peer that it was opened for. -/
structure Session where
  handle : Nat
  peer : SockAddr
deriving DecidableEq, Repr

/-- The address that the call connects to. -/
def Connect.peer (c : Connect) : Option SockAddr := do
  let uri ← (← getServerUri c.copied c.secObjInstID c.memory c.instanceList)
  let (host, port) ← parseUri (CString.text uri)
  tryAddresses (← c.getaddrinfo host port)

inductive Call where
  | connect (c : Connect)
  | close (sessionH : Nat)

structure State where
  data : ClientData
  opened : List Session

def start (sock : Nat) : State := ⟨⟨Heap.empty, none, sock⟩, []⟩

/-- The session that a call of `lwm2m_connect_server` has opened. -/
def newSession (c : Connect) (handle : Option Nat) : List Session :=
  match handle, c.peer with
  | some p, some a => [⟨p, a⟩]
  | _, _ => []

/-- Only open sessions are closed. The output is the handle that is returned. -/
def step (s : State) : Call → Option (State × Option Nat)
  | .connect c => do
    let (handle, data) ← lwm2mConnectServer c s.data
    some (⟨data, newSession c handle ++ s.opened⟩, handle)
  | .close sessionH =>
    if sessionH ∈ s.opened.map Session.handle then do
      let data ← lwm2mCloseConnection sessionH s.data
      some (⟨data, s.opened.filter (·.handle ≠ sessionH)⟩, none)
    else none

/-- `connList` has the open sessions, each of which is found by its address, and nothing is found
by another one. -/
structure Identifies (s : State) : Prop where
  lists : Chain.Leads Connection.next s.data.heap s.data.connList (s.opened.map Session.handle)
  once : (s.opened.map Session.handle).Nodup
  found : ∀ o ∈ s.opened, s.data.find o.peer.bytes o.peer.bytes.length = some (some o.handle)
  unknown : ∀ addr addrLen, (∀ o ∈ s.opened, o.peer.equals addr addrLen = false) →
    s.data.find addr addrLen = some none

/-- A call that opens a session opens it for an address that no open session has. -/
def Fresh (s : State) : Call → Prop
  | .connect c => c.malloc ≠ none → ∀ a, c.peer = some a → a ∉ s.opened.map Session.peer
  | .close _ => True

/-! ## What the calls do -/

section Calls
variable {c : Connect} {d d' : ClientData} {handle : Option Nat}

/-- The connection is put in front of the list, or nothing happens. -/
theorem connect_cases (h : lwm2mConnectServer c d = some (handle, d')) :
    (∃ p a, handle = some p ∧ c.malloc = some p ∧ c.peer = some a ∧ p ∉ d.heap.live ∧
        d' = { d with heap := d.heap.alloc p ⟨d.connList, d.sock, a⟩, connList := some p }) ∨
      (handle = none ∧ d' = d ∧ (c.malloc = none ∨ c.peer = none)) := by
  unfold lwm2mConnectServer at h
  cases huri : getServerUri c.copied c.secObjInstID c.memory c.instanceList with
  | none => simp [huri] at h
  | some copy =>
    have hpeer : c.peer = copy.bind fun uri => (parseUri (CString.text uri)).bind fun parts =>
        (c.getaddrinfo parts.1 parts.2).bind tryAddresses := by
      unfold Connect.peer
      rw [huri]
      rfl
    simp only [huri, Option.bind_eq_bind, Option.bind_some] at h
    cases copy with
    | none =>
      cases h
      exact Or.inr ⟨rfl, rfl, Or.inr hpeer⟩
    | some uri =>
      simp only at h
      cases hparse : parseUri (CString.text uri) with
      | none =>
        rw [hparse] at h
        cases h
        refine Or.inr ⟨rfl, rfl, Or.inr ?_⟩
        rw [hpeer, Option.bind_some, hparse, Option.bind_none]
      | some parts =>
        obtain ⟨host, port⟩ := parts
        rw [Option.bind_some, hparse, Option.bind_some] at hpeer
        simp only [hparse, connectionCreate] at h
        cases hinfo : c.getaddrinfo host port with
        | none =>
          simp only [hinfo, Option.bind_some] at h
          cases h
          refine Or.inr ⟨rfl, rfl, Or.inr ?_⟩
          rw [hpeer, hinfo, Option.bind_none]
        | some servinfo =>
          rw [hinfo, Option.bind_some] at hpeer
          simp only [hinfo] at h
          cases hsa : tryAddresses servinfo with
          | none =>
            simp only [hsa, Option.bind_some] at h
            cases h
            exact Or.inr ⟨rfl, rfl, Or.inr (hpeer.trans hsa)⟩
          | some sa =>
            simp only [hsa, connectionNewIncoming] at h
            cases hmalloc : c.malloc with
            | none =>
              simp only [hmalloc, Option.bind_some] at h
              cases h
              exact Or.inr ⟨rfl, rfl, Or.inl rfl⟩
            | some p =>
              simp only [hmalloc] at h
              by_cases hlive : p ∈ d.heap.live
              · simp [hlive] at h
              · rw [if_neg hlive, Option.bind_some] at h
                cases h
                exact Or.inl ⟨p, sa, rfl, rfl, hpeer.trans hsa, hlive, rfl⟩

end Calls

/-! ## The list and the open sessions -/

/-- The list has the open sessions, and each connection has the address of its peer. -/
structure Represents (d : ClientData) (opened : List Session) : Prop where
  leads : Chain.Leads Connection.next d.heap d.connList (opened.map Session.handle)
  once : (opened.map Session.handle).Nodup
  peers : ∀ o ∈ opened, (d.heap.get? o.handle).map Connection.addr = some o.peer

section Representation
variable {d : ClientData} {opened before after : List Session} {o : Session}
variable {addr : List UInt8} {addrLen : Nat}

theorem Represents.live (h : Represents d opened) (ho : o ∈ opened) : o.handle ∈ d.heap.live :=
  h.leads.live _ (List.mem_map_of_mem ho)

/-- The walk meets the sessions in their order. -/
theorem connectionFind_eq {heap : Heap Connection} {p : Option Nat} {rounds : Nat}
    (hleads : Chain.Leads Connection.next heap p (opened.map Session.handle))
    (hpeers : ∀ o ∈ opened, (heap.get? o.handle).map Connection.addr = some o.peer)
    (hrounds : opened.length ≤ rounds) :
    connectionFind heap addr addrLen rounds p =
      some ((opened.find? fun o => o.peer.equals addr addrLen).map Session.handle) := by
  induction opened generalizing p rounds with
  | nil =>
    obtain rfl : p = none := hleads
    cases rounds <;> rfl
  | cons o opened ih =>
    obtain ⟨rfl, c, hc, hrest⟩ := hleads
    obtain ⟨rounds, rfl⟩ : ∃ n, rounds = n + 1 := ⟨rounds - 1, by
      rw [List.length_cons] at hrounds
      omega⟩
    have haddr : c.addr = o.peer := by
      have := hpeers o List.mem_cons_self
      rw [hc, Option.map_some, Option.some.injEq] at this
      exact this
    rw [connectionFind, hc]
    simp only [Option.bind_eq_bind, Option.bind_some, haddr]
    rw [List.find?_cons]
    split
    · next hequals =>
      rw [hequals]
      rfl
    · next hequals =>
      rw [Bool.not_eq_true] at hequals
      rw [hequals]
      apply ih hrest
      · intro n hn
        exact hpeers n (List.mem_cons_of_mem o hn)
      · rw [List.length_cons] at hrounds
        omega

theorem Represents.find (h : Represents d opened) (addr : List UInt8) (addrLen : Nat) :
    d.find addr addrLen =
      some ((opened.find? fun o => o.peer.equals addr addrLen).map Session.handle) := by
  apply connectionFind_eq h.leads h.peers
  have := List.Nodup.length_le_of_subset h.once h.leads.live
  rwa [List.length_map] at this

theorem equals_iff {a b : SockAddr} : a.equals b.bytes b.bytes.length = true ↔ a = b := by
  unfold SockAddr.equals
  rw [List.take_length]
  simp only [Bool.and_eq_true, decide_eq_true_eq]
  constructor
  · intro ⟨_, hbytes⟩
    cases a
    cases b
    cases hbytes
    rfl
  · rintro rfl
    exact ⟨rfl, rfl⟩

theorem find_of_nodup {opened : List Session} (hnodup : (opened.map Session.peer).Nodup)
    (ho : o ∈ opened) : opened.find? (fun n => n.peer.equals o.peer.bytes o.peer.bytes.length) =
      some o := by
  induction opened with
  | nil => cases ho
  | cons n opened ih =>
    obtain ⟨hn, hrest⟩ := List.nodup_cons.mp hnodup
    rw [List.find?_cons]
    rcases List.mem_cons.mp ho with rfl | ho
    · rw [equals_iff.mpr rfl]
    · have hne : n.peer ≠ o.peer := by
        intro heq
        exact hn (heq ▸ List.mem_map_of_mem ho)
      have hfalse : n.peer.equals o.peer.bytes o.peer.bytes.length = false := by
        rw [Bool.eq_false_iff]
        exact fun heq => hne (equals_iff.mp heq)
      rw [hfalse]
      exact ih hrest ho

/-- What no open session has is not found, whatever the sessions are. -/
theorem Represents.find_unknown (h : Represents d opened)
    (hnone : ∀ o ∈ opened, o.peer.equals addr addrLen = false) : d.find addr addrLen = some none := by
  rw [h.find, List.find?_eq_none.mpr, Option.map_none]
  intro o ho
  rw [hnone o ho]
  exact Bool.false_ne_true

theorem Represents.connect (h : Represents d opened) {p : Nat} (hp : p ∉ d.heap.live)
    (a : SockAddr) :
    Represents { d with heap := d.heap.alloc p ⟨d.connList, d.sock, a⟩, connList := some p }
      (⟨p, a⟩ :: opened) := by
  constructor
  · exact h.leads.push hp rfl
  · refine List.nodup_cons.mpr ⟨?_, h.once⟩
    intro hmem
    exact hp (h.leads.live p hmem)
  · intro o ho
    rcases List.mem_cons.mp ho with rfl | ho
    · rw [Heap.get?_alloc hp, if_pos rfl, Option.map_some]
    · have hne : o.handle ≠ p := by
        intro heq
        exact hp (heq ▸ h.live ho)
      rw [Heap.get?_alloc hp, if_neg hne, h.peers o ho]

theorem head_ne {before after : List Nat} {x y : Nat}
    (hnodup : (before ++ x :: y :: after).Nodup) : (before ++ x :: y :: after).head? ≠ some y := by
  intro hhead
  cases before with
  | nil =>
    obtain rfl : x = y := Option.some.inj hhead
    exact (List.nodup_cons.mp hnodup).1 List.mem_cons_self
  | cons z before =>
    obtain rfl : z = y := Option.some.inj hhead
    exact (List.nodup_cons.mp hnodup).1 (by simp)

/-- The loop stops at the connection that comes before the one to be closed. -/
theorem unlink_eq {heap : Heap Connection} {p : Option Nat} {before after : List Nat} {x y : Nat}
    {target : Connection} {rounds : Nat}
    (hleads : Chain.Leads Connection.next heap p (before ++ x :: y :: after))
    (hnodup : (before ++ x :: y :: after).Nodup) (hy : heap.get? y = some target)
    (hrounds : before.length < rounds) :
    unlink y heap rounds p =
      some ((heap.modify x fun c => { c with next := target.next }).free y) := by
  induction before generalizing p rounds with
  | nil =>
    obtain ⟨rfl, c, hc, hnext, _⟩ := hleads
    obtain ⟨rounds, rfl⟩ : ∃ n, rounds = n + 1 := ⟨rounds - 1, by
      rw [List.length_nil] at hrounds
      omega⟩
    rw [unlink, hc]
    simp only [Option.bind_eq_bind, Option.bind_some, hnext, if_true, hy]
  | cons z before ih =>
    obtain ⟨rfl, c, hc, hrest⟩ := hleads
    obtain ⟨rounds, rfl⟩ : ∃ n, rounds = n + 1 := ⟨rounds - 1, by omega⟩
    have hbehind : (before ++ x :: y :: after).Nodup := (List.nodup_cons.mp hnodup).2
    have hnext : c.next ≠ some y := by
      rw [hrest.head]
      exact head_ne hbehind
    rw [unlink, hc]
    simp only [Option.bind_eq_bind, Option.bind_some]
    rw [if_neg hnext]
    apply ih hrest hbehind
    rw [List.length_cons] at hrounds
    omega

theorem filter_handle (hnodup : ((before ++ o :: after).map Session.handle).Nodup) :
    (before ++ o :: after).filter (·.handle ≠ o.handle) = before ++ after := by
  rw [List.map_append, List.map_cons] at hnodup
  obtain ⟨_, hrest, happart⟩ := List.nodup_append.mp hnodup
  have hbefore : before.filter (·.handle ≠ o.handle) = before := by
    apply List.filter_eq_self.mpr
    intro n hn
    have := happart n.handle (List.mem_map_of_mem hn) o.handle List.mem_cons_self
    simpa using this
  have hafter : after.filter (·.handle ≠ o.handle) = after := by
    apply List.filter_eq_self.mpr
    intro n hn
    have hne : n.handle ≠ o.handle := by
      intro heq
      exact (List.nodup_cons.mp hrest).1 (heq ▸ List.mem_map_of_mem hn)
    simpa using hne
  rw [List.filter_append, List.filter_cons_of_neg (by simp), hbefore, hafter]

/-- The connection is taken out of the list, at its head or behind another one. -/
theorem Represents.close (h : Represents d opened) (ho : o ∈ opened) :
    ∃ d', lwm2mCloseConnection o.handle d = some d' ∧
      Represents d' (opened.filter (·.handle ≠ o.handle)) := by
  obtain ⟨target, htarget⟩ := (d.heap.mem_live_iff o.handle).mp (h.live ho)
  obtain ⟨before, after, rfl⟩ := List.append_of_mem ho
  rw [filter_handle h.once]
  have hleads := h.leads
  have honce := h.once
  rw [List.map_append, List.map_cons] at hleads honce
  have hnot : ∀ n ∈ before ++ after, n.handle ≠ o.handle := by
    obtain ⟨_, hrest, happart⟩ := List.nodup_append.mp honce
    intro n hn
    rcases List.mem_append.mp hn with hn | hn
    · exact happart n.handle (List.mem_map_of_mem hn) o.handle List.mem_cons_self
    · intro heq
      exact (List.nodup_cons.mp hrest).1 (heq ▸ List.mem_map_of_mem hn)
  have hmem : ∀ n ∈ before ++ after, n ∈ before ++ o :: after := by
    intro n hn
    rcases List.mem_append.mp hn with hn | hn
    · exact List.mem_append_left _ hn
    · exact List.mem_append_right _ (List.mem_cons_of_mem o hn)
  have hsub : ((before ++ after).map Session.handle).Nodup := by
    refine h.once.sublist (List.Sublist.map _ ?_)
    exact List.Sublist.append_left (List.sublist_cons_self o after) before
  rcases List.eq_nil_or_concat before with rfl | ⟨front, x, rfl⟩
  · obtain ⟨hhead, c, hc, hrest⟩ := hleads
    rw [htarget] at hc
    cases hc
    refine ⟨{ d with connList := target.next, heap := d.heap.free o.handle }, ?_, ?_, hsub, ?_⟩
    · unfold lwm2mCloseConnection
      rw [if_pos hhead, htarget]
      rfl
    · exact hrest.free (List.nodup_cons.mp honce).1
    · intro n hn
      simp only
      rw [Heap.get?_free, if_neg (hnot n hn)]
      exact h.peers n (hmem n hn)
  · rw [List.concat_eq_append] at *
    rw [List.map_append, List.append_assoc] at hleads honce
    have hne : d.connList ≠ some o.handle := by
      rw [hleads.head]
      exact head_ne honce
    have hlength : (front.map Session.handle).length < d.heap.live.length := by
      have := List.Nodup.length_le_of_subset honce hleads.live
      simp only [List.length_append, List.length_cons, List.length_map] at this
      rw [List.length_map]
      omega
    let bypass (c : Connection) : Connection := { c with next := target.next }
    refine ⟨{ d with heap := (d.heap.modify x.handle bypass).free o.handle }, ?_, ?_, hsub, ?_⟩
    · unfold lwm2mCloseConnection
      rw [if_neg hne, unlink_eq hleads honce htarget hlength]
      rfl
    · have hbypassed := hleads.bypass honce htarget (f := bypass) fun _ => rfl
      rw [List.map_append, List.map_append, List.append_assoc]
      exact hbypassed
    · intro n hn
      simp only
      rw [Heap.get?_free, if_neg (hnot n hn), Heap.get?_modify, ← h.peers n (hmem n hn)]
      split
      · rw [Option.map_map]
        rfl
      · rfl

end Representation

/-! ## Runs -/

section Steps
variable {s t : State} {call : Call} {answer : Option Nat}

/-- A call opens a session, opens none, or closes one. -/
theorem step_cases (hstep : step s call = some (t, answer)) :
    (∃ c p a, call = .connect c ∧ c.malloc = some p ∧ c.peer = some a ∧ p ∉ s.data.heap.live ∧
        t = ⟨{ s.data with
          heap := s.data.heap.alloc p ⟨s.data.connList, s.data.sock, a⟩, connList := some p },
          ⟨p, a⟩ :: s.opened⟩) ∨
      (∃ c, call = .connect c ∧ (c.malloc = none ∨ c.peer = none) ∧ t = s) ∨
      ∃ o ∈ s.opened, ∃ data, call = .close o.handle ∧
        lwm2mCloseConnection o.handle s.data = some data ∧
        t = ⟨data, s.opened.filter (·.handle ≠ o.handle)⟩ := by
  cases call with
  | connect c =>
    simp only [step] at hstep
    cases hconnect : lwm2mConnectServer c s.data with
    | none =>
      rw [hconnect] at hstep
      cases hstep
    | some result =>
      obtain ⟨handle, data⟩ := result
      rw [hconnect] at hstep
      cases hstep
      rcases connect_cases hconnect with ⟨p, a, rfl, hmalloc, hpeer, hp, rfl⟩ | ⟨rfl, rfl, hno⟩
      · refine Or.inl ⟨c, p, a, rfl, hmalloc, hpeer, hp, ?_⟩
        unfold newSession
        rw [hpeer]
        rfl
      · exact Or.inr (Or.inl ⟨c, rfl, hno, rfl⟩)
  | close sessionH =>
    simp only [step] at hstep
    split at hstep
    · next hopen =>
      obtain ⟨o, ho, rfl⟩ := List.mem_map.mp hopen
      cases hclose : lwm2mCloseConnection o.handle s.data with
      | none =>
        rw [hclose] at hstep
        cases hstep
      | some data =>
        rw [hclose] at hstep
        cases hstep
        exact Or.inr (Or.inr ⟨o, ho, data, rfl, hclose, rfl⟩)
    · cases hstep

/-- Every call keeps the list in step with the open sessions. -/
theorem step_represents (h : Represents s.data s.opened) (hstep : step s call = some (t, answer)) :
    Represents t.data t.opened := by
  rcases step_cases hstep with ⟨c, p, a, _, _, _, hp, rfl⟩ | ⟨_, _, _, rfl⟩ |
    ⟨o, ho, data, _, hclose, rfl⟩
  · exact h.connect hp a
  · exact h
  · obtain ⟨_, hclosed, hdata⟩ := h.close ho
    rw [hclose] at hclosed
    cases hclosed
    exact hdata

/-- In such a state the handles identify the peers when no two open sessions have one address. -/
theorem identifies_iff (h : Represents s.data s.opened) :
    Identifies s ↔ (s.opened.map Session.peer).Nodup := by
  constructor
  · intro hid
    have hpairs : s.opened.Pairwise fun o n => o.handle ≠ n.handle := List.pairwise_map.mp h.once
    apply List.pairwise_map.mpr
    apply hpairs.imp_of_mem
    intro o n ho hn hne heq
    have hfirst := hid.found o ho
    rw [heq, hid.found n hn] at hfirst
    exact hne (Option.some.inj (Option.some.inj hfirst)).symm
  · intro hnodup
    refine ⟨h.leads, h.once, ?_, fun _ _ => h.find_unknown⟩
    intro o ho
    rw [h.find, find_of_nodup hnodup ho, Option.map_some]

/-- Only a call that opens a session for an address that another one has ends it. -/
theorem step_identifies_iff (h : Represents s.data s.opened) (hid : Identifies s)
    (hstep : step s call = some (t, answer)) : Identifies t ↔ Fresh s call := by
  have hnodup := (identifies_iff h).mp hid
  rw [identifies_iff (step_represents h hstep)]
  rcases step_cases hstep with ⟨c, p, a, rfl, hmalloc, hpeer, _, rfl⟩ | ⟨c, rfl, hno, rfl⟩ |
    ⟨o, ho, data, rfl, _, rfl⟩
  · simp only [List.map_cons, List.nodup_cons]
    constructor
    · intro ⟨hfresh, _⟩ _ b hb
      rw [hpeer] at hb
      cases hb
      exact hfresh
    · intro hfresh
      exact ⟨hfresh (by simp [hmalloc]) a hpeer, hnodup⟩
  · refine ⟨fun _ => ?_, fun _ => hnodup⟩
    intro hmalloc a ha
    rcases hno with hno | hno
    · exact absurd hno hmalloc
    · rw [hno] at ha
      cases ha
  · refine ⟨fun _ => trivial, fun _ => ?_⟩
    exact hnodup.sublist (List.Sublist.map _ List.filter_sublist)

theorem start_represents (sock : Nat) : Represents (start sock).data (start sock).opened :=
  ⟨rfl, List.nodup_nil, by simp [start]⟩

/-- Every call can be made: a session that is open can be closed. -/
theorem close_possible (h : Represents s.data s.opened) {o : Session} (ho : o ∈ s.opened) :
    ∃ t, step s (.close o.handle) = some (t, none) ∧
      t.opened = s.opened.filter (·.handle ≠ o.handle) := by
  obtain ⟨data, hclose, _⟩ := h.close ho
  refine ⟨⟨data, s.opened.filter (·.handle ≠ o.handle)⟩, ?_, rfl⟩
  simp only [step]
  rw [if_pos (List.mem_map_of_mem ho), hclose]
  rfl

end Steps

/-- In every run the list has the open sessions, and an address that none of them has is not
found. -/
theorem list_has_open_sessions {sock : Nat} {calls : List Call} {s : State}
    {answers : List (Option Nat)} (hrun : Runs.run step (start sock) calls = some (s, answers)) :
    Represents s.data s.opened :=
  Runs.run_history (P := fun _ _ s => Represents s.data s.opened)
    (fun _ _ _ _ _ _ h hstep => step_represents h hstep) (start_represents sock) hrun

/-- In a run of connects and closes a session handle identifies one peer all along when every
session is opened for an address that no open session has, and otherwise not. -/
theorem handle_identifies_peer_iff (sock : Nat) (calls : List Call) (s : State)
    (answers : List (Option Nat)) (hrun : Runs.run step (start sock) calls = some (s, answers)) :
    Runs.Always Identifies step (start sock) calls ↔ Runs.Along Fresh step (start sock) calls := by
  apply Runs.always_iff_along (I := fun s => Represents s.data s.opened)
    (fun _ _ _ _ h hstep => step_represents h hstep)
    (fun _ _ _ _ h hid hstep => step_identifies_iff h hid hstep) (start_represents sock) _ hrun
  rw [identifies_iff (start_represents sock)]
  exact List.nodup_nil

/-- `10.0.0.x:5683`, as `sockaddr_in` has it. -/
def serverAddress (x : UInt8) : SockAddr :=
  ⟨[2, 0, 0x16, 0x33, 10, 0, 0, x, 0, 0, 0, 0, 0, 0, 0, 0], Nat.le_refl 16⟩

def resolve (host port : List UInt8) : Option (List AddrInfo) :=
  if port = CString.ascii "5683" then
    if host = CString.ascii "10.0.0.1" then some [⟨serverAddress 1, true, true⟩]
    else if host = CString.ascii "10.0.0.2" then some [⟨serverAddress 2, true, true⟩]
    else none
  else none

/-- The bootstrap server and the server that it names, each in an instance of its own. -/
def connectTo (secObjInstID handle : Nat) : Connect where
  secObjInstID := secObjInstID
  memory := (Heap.empty.alloc 1 (CString.ascii "coap://10.0.0.1:5683" ++ [0])).alloc 2
    (CString.ascii "coap://10.0.0.2:5683" ++ [0])
  instanceList := [{ ObjectSecurity.zeroed 0 with uri := some 1 },
    { ObjectSecurity.zeroed 1 with uri := some 2 }]
  copied := true
  getaddrinfo := resolve
  malloc := some handle

def twoServers : List Call := [.connect (connectTo 0 100), .connect (connectTo 1 200), .close 100]

theorem two_servers_identified :
    ∃ s answers, Runs.run step (start 3) twoServers = some (s, answers) ∧
      answers = [some 100, some 200, none] ∧
      (Runs.Always Identifies step (start 3) twoServers ↔
        Runs.Along Fresh step (start 3) twoServers) := by
  obtain ⟨s, answers, hrun, hanswers⟩ : ∃ s answers,
      Runs.run step (start 3) twoServers = some (s, answers) ∧
        decide (answers = [some 100, some 200, none]) = true :=
    Runs.run_evaluated (by decide +kernel)
  exact ⟨s, answers, hrun, of_decide_eq_true hanswers,
    handle_identifies_peer_iff 3 twoServers s answers hrun⟩

/-- A second session with the same server: the first one is not found any more. -/
def repeated : List Call := [.connect (connectTo 0 100), .connect (connectTo 0 200)]

theorem older_session_not_found :
    ∃ s answers, Runs.run step (start 3) repeated = some (s, answers) ∧
      answers = [some 100, some 200] ∧ ⟨100, serverAddress 1⟩ ∈ s.opened ∧
      s.data.find (serverAddress 1).bytes 16 = some (some 200) ∧
      ¬ Runs.Always Identifies step (start 3) repeated := by
  obtain ⟨s, answers, hrun, htest⟩ : ∃ s answers,
      Runs.run step (start 3) repeated = some (s, answers) ∧
        decide (answers = [some 100, some 200] ∧ ⟨100, serverAddress 1⟩ ∈ s.opened ∧
          s.data.find (serverAddress 1).bytes 16 = some (some 200)) = true :=
    Runs.run_evaluated (by decide +kernel)
  obtain ⟨hanswers, hopen, hfind⟩ := of_decide_eq_true htest
  refine ⟨s, answers, hrun, hanswers, hopen, hfind, ?_⟩
  intro hall
  have hfound := (hall.at_end hrun).found _ hopen
  have hlength : (serverAddress 1).bytes.length = 16 := rfl
  simp only [hlength] at hfound
  rw [hfind] at hfound
  exact absurd hfound (by decide)

end JsEmbeddedPlatform.ConnectionList
