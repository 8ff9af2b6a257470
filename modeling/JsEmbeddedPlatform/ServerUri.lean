import JsEmbeddedPlatform.ConnectionList

/-!
# How the server URI is split

`lwm2m_connect_server` works on its own copy of the URI: it looks for the last colon and writes
NULs over the separators. The characters are read and written here one at a time, `none` being an
access outside the copy, and the outcome is compared with the grammar of the URIs.
-/

set_option autoImplicit false

namespace JsEmbeddedPlatform.ServerUri

open ConnectionList (Connect ClientData Connection parseUri splitLast removeBrackets skipScheme
  connectionCreate lwm2mConnectServer)
open ObjectSecurity (SecurityInstance getServerUri)
open Lwm2mList (lwm2mListFind)

/-! ## The characters -/

/-- Whether `strncmp` finds no difference over the length of a literal. It reads no further than
the first one. -/
def strncmp : List UInt8 → List UInt8 → Option Bool
  | _, [] => some true
  | [], _ :: _ => none
  | c :: uri, l :: literal => if c = l then strncmp uri literal else some false

/-- `place` is that of the first character, `last` where the character was seen last. -/
def strrchr (sought : UInt8) : List UInt8 → Nat → Option Nat → Option (Option Nat)
  | [], _, _ => none
  | c :: s, place, last =>
    if c = 0 then some last
    else strrchr sought s (place + 1) (if c = sought then some place else last)

def writeChar (s : List UInt8) (place : Nat) (c : UInt8) : Option (List UInt8) :=
  if place < s.length then some (s.set place c) else none

/-- The copy with the NULs in it, and where the two strings begin. -/
structure Parts where
  uri : List UInt8
  host : Nat
  port : Nat
deriving DecidableEq, Repr

/-- The text that a pointer into the copy stands for. -/
def Parts.textAt (p : Parts) (place : Nat) : List UInt8 := CString.text (p.uri.drop place)

/-- The two arguments of `connection_create`. -/
def Parts.strings (p : Parts) : List UInt8 × List UInt8 := (p.textAt p.host, p.textAt p.port)

/-- Where the host begins. -/
def skipSchemeAt (uri : List UInt8) : Option (Option Nat) := do
  if ← strncmp uri (CString.ascii "coaps://") then some (some 8)
  else if ← strncmp uri (CString.ascii "coap://") then some (some 7)
  else some none

/-- The part from `port = strrchr(host, ':')` on. The inner `none` is the way to `exit`. -/
def splitAt (uri : List UInt8) (host : Nat) : Option (Option Parts) := do
  match ← strrchr 58 (uri.drop host) host none with
  | none => some none
  | some port =>
    if (← uri[host]?) = 91 then
      if (← uri[port - 1]?) = 93 then do
        let unbracketed ← writeChar uri (port - 1) 0
        let split ← writeChar unbracketed port 0
        some (some ⟨split, host + 1, port + 1⟩)
      else some none
    else do
      let split ← writeChar uri port 0
      some (some ⟨split, host, port + 1⟩)

def splitUri (uri : List UInt8) : Option (Option Parts) := do
  match ← skipSchemeAt uri with
  | none => some none
  | some host => splitAt uri host

/-- `called` is what `connection_create` is called with, when it is. -/
structure Outcome where
  newConnP : Option Nat
  data : ClientData
  called : Option (List UInt8 × List UInt8)

/-- `lwm2m_connect_server` with its copy of the URI. -/
def connectInPlace (c : Connect) (d : ClientData) : Option Outcome := do
  match ← getServerUri c.copied c.secObjInstID c.memory c.instanceList with
  | none => some ⟨none, d, none⟩
  | some uri =>
    match ← splitUri uri with
    | none => some ⟨none, d, none⟩
    | some parts =>
      let (host, port) := parts.strings
      match ← connectionCreate c.getaddrinfo c.malloc d.connList d.sock host port d.heap with
      | (none, heap) => some ⟨none, { d with heap := heap }, some (host, port)⟩
      | (some newConnP, heap) =>
        some ⟨some newConnP, { d with heap := heap, connList := some newConnP }, some (host, port)⟩

/-! ## The grammar -/

inductive Scheme : List UInt8 → Prop
  | coaps : Scheme (CString.ascii "coaps://")
  | coap : Scheme (CString.ascii "coap://")

/-- The URIs that name a host and a port. -/
inductive HostAndPort : List UInt8 → List UInt8 → List UInt8 → Prop
  | plain {scheme host port : List UInt8} (hscheme : Scheme scheme) (hport : 58 ∉ port)
      (hhost : host.head? ≠ some 91) : HostAndPort (scheme ++ (host ++ 58 :: port)) host port
  | bracketed {scheme host port : List UInt8} (hscheme : Scheme scheme) (hport : 58 ∉ port) :
      HostAndPort (scheme ++ (91 :: host ++ 93 :: 58 :: port)) host port

/-- What a call does for the URI `u`; there is no copy of it when there is no room. -/
structure Exact (u : List UInt8) (copied : Bool) (d : ClientData) (o : Outcome) : Prop where
  called : copied = true → ∀ host port, o.called = some (host, port) ↔ HostAndPort u host port
  otherwise : o.called = none → o.newConnP = none ∧ o.data = d
  failed : o.newConnP = none → o.data.connList = d.connList
  linked : ∀ p, o.newConnP = some p → ∀ list, Chain.Leads Connection.next d.heap d.connList list →
    Chain.Leads Connection.next o.data.heap o.data.connList (p :: list)

/-! ## The last colon -/

theorem splitLast_eq_none_iff {s : List UInt8} : splitLast s = none ↔ 58 ∉ s := by
  induction s with
  | nil => simp [splitLast]
  | cons c s ih =>
    unfold splitLast
    cases hsplit : splitLast s with
    | some parts =>
      have : 58 ∈ s := by
        by_contra hnot
        rw [ih.mpr hnot] at hsplit
        cases hsplit
      simp [this]
    | none =>
      have hnot := ih.mp hsplit
      by_cases hc : c = 58
      · simp [hc]
      · simp [hc, hnot, Ne.symm hc]

theorem splitLast_append {before after : List UInt8} (hafter : 58 ∉ after) :
    splitLast (before ++ 58 :: after) = some (before, after) := by
  induction before with
  | nil => simp [splitLast, splitLast_eq_none_iff.mpr hafter]
  | cons c before ih => rw [List.cons_append, splitLast, ih]

theorem splitLast_eq_some_iff {s before after : List UInt8} :
    splitLast s = some (before, after) ↔ s = before ++ 58 :: after ∧ 58 ∉ after := by
  constructor
  · intro h
    induction s generalizing before with
    | nil => cases h
    | cons c s ih =>
      unfold splitLast at h
      cases hsplit : splitLast s with
      | some parts =>
        rw [hsplit] at h
        cases h
        obtain ⟨hs, hafter⟩ := ih hsplit
        exact ⟨congrArg (List.cons c) hs, hafter⟩
      | none =>
        simp only [hsplit] at h
        by_cases hc : c = 58
        · rw [if_pos hc] at h
          cases h
          rw [hc]
          exact ⟨rfl, splitLast_eq_none_iff.mp hsplit⟩
        · rw [if_neg hc] at h
          cases h
  · intro ⟨hs, hafter⟩
    rw [hs]
    exact splitLast_append hafter

/-- `strrchr` stops at the NUL, and has then seen the colon that `splitLast` finds. -/
theorem strrchr_eq {s : List UInt8} (rest : List UInt8) (hs : 0 ∉ s) (place : Nat)
    (last : Option Nat) :
    strrchr 58 (s ++ 0 :: rest) place last =
      some (match splitLast s with
        | some (before, _) => some (place + before.length)
        | none => last) := by
  induction s generalizing place last with
  | nil => simp [strrchr, splitLast]
  | cons c s ih =>
    rw [List.mem_cons, not_or] at hs
    obtain ⟨hc, hs⟩ := hs
    rw [List.cons_append, strrchr, if_neg (Ne.symm hc), ih hs, splitLast]
    cases splitLast s with
    | some parts =>
      simp only [List.length_cons]
      congr 2
      omega
    | none =>
      by_cases hcolon : c = 58
      · simp [hcolon]
      · simp [hcolon]

/-! ## The brackets -/

theorem removeBrackets_bracketed (host : List UInt8) :
    removeBrackets (91 :: host ++ [93]) = some host := by
  rw [List.cons_append, removeBrackets, if_pos rfl, if_pos]
  · rw [List.dropLast_concat]
  · rw [← List.cons_append, List.getLast?_append]
    rfl

theorem removeBrackets_plain {host : List UInt8} (h : host.head? ≠ some 91) :
    removeBrackets host = some host := by
  cases host with
  | nil => rfl
  | cons c rest =>
    rw [removeBrackets, if_neg]
    intro hc
    exact h (congrArg some hc)

/-- A host that begins with a bracket ends with one, or is refused. -/
theorem bracket_cases (rest : List UInt8) :
    (∃ host, 91 :: rest = 91 :: host ++ [93]) ∨
      (91 :: rest).getLast? ≠ some 93 ∧ removeBrackets (91 :: rest) = none := by
  by_cases hlast : (91 :: rest).getLast? = some 93
  · refine Or.inl ⟨rest.dropLast, ?_⟩
    cases rest with
    | nil => cases hlast
    | cons c rest =>
      rw [List.getLast?_cons_cons] at hlast
      rw [List.cons_append, ← List.dropLast_append_getLast? 93 hlast, List.dropLast_concat]
  · refine Or.inr ⟨hlast, ?_⟩
    rw [removeBrackets, if_pos rfl, if_neg hlast]

theorem removeBrackets_eq_some {bracketed host : List UInt8}
    (h : removeBrackets bracketed = some host) :
    (bracketed = host ∧ host.head? ≠ some 91) ∨ bracketed = 91 :: host ++ [93] := by
  by_cases hhead : bracketed.head? = some 91
  · obtain ⟨rest, rfl⟩ : ∃ rest, bracketed = 91 :: rest := by
      cases bracketed with
      | nil => cases hhead
      | cons c rest =>
        cases hhead
        exact ⟨rest, rfl⟩
    rcases bracket_cases rest with ⟨inner, hinner⟩ | ⟨_, hnone⟩
    · rw [hinner, removeBrackets_bracketed] at h
      cases h
      exact Or.inr hinner
    · rw [hnone] at h
      cases h
  · rw [removeBrackets_plain hhead] at h
    cases h
    exact Or.inl ⟨rfl, hhead⟩

/-! ## The whole URI -/

theorem skipScheme_append {scheme : List UInt8} (h : Scheme scheme) (rest : List UInt8) :
    skipScheme (scheme ++ rest) = some rest := by
  cases h <;> rfl

theorem skipScheme_eq_some {uri rest : List UInt8} (h : skipScheme uri = some rest) :
    ∃ scheme, Scheme scheme ∧ uri = scheme ++ rest := by
  unfold skipScheme at h
  split at h
  · next hcoaps =>
    obtain ⟨rest, rfl⟩ := List.isPrefixOf_iff_prefix.mp hcoaps
    cases h
    exact ⟨_, Scheme.coaps, rfl⟩
  · split at h
    · next hcoap =>
      obtain ⟨rest, rfl⟩ := List.isPrefixOf_iff_prefix.mp hcoap
      cases h
      exact ⟨_, Scheme.coap, rfl⟩
    · cases h

/-- The parts are found for the URIs of the grammar, and for no others. -/
theorem parseUri_eq_some_iff {u host port : List UInt8} :
    parseUri u = some (host, port) ↔ HostAndPort u host port := by
  constructor
  · intro h
    unfold parseUri at h
    simp only [Option.bind_eq_bind, Option.bind_eq_some_iff] at h
    obtain ⟨rest, hrest, ⟨bracketed, behind⟩, hsplit, inner, hinner, hparts⟩ := h
    cases hparts
    obtain ⟨scheme, hscheme, rfl⟩ := skipScheme_eq_some hrest
    obtain ⟨rfl, hport⟩ := splitLast_eq_some_iff.mp hsplit
    rcases removeBrackets_eq_some hinner with ⟨rfl, hhead⟩ | rfl
    · exact HostAndPort.plain hscheme hport hhead
    · rw [List.append_assoc]
      exact HostAndPort.bracketed hscheme hport
  · intro h
    cases h with
    | plain hscheme hport hhost =>
      unfold parseUri
      simp only [skipScheme_append hscheme, splitLast_append hport, removeBrackets_plain hhost,
        Option.bind_eq_bind, Option.bind_some]
    | bracketed hscheme hport =>
      unfold parseUri
      have hassoc : 91 :: host ++ 93 :: 58 :: port = 91 :: host ++ [93] ++ 58 :: port := by
        rw [List.append_assoc]
        rfl
      simp only [skipScheme_append hscheme, hassoc, splitLast_append hport,
        removeBrackets_bracketed, Option.bind_eq_bind, Option.bind_some]

/-! ## The copy -/

theorem strncmp_eq {literal : List UInt8} (h : 0 ∉ literal) (s rest : List UInt8) :
    strncmp (s ++ 0 :: rest) literal = some (literal.isPrefixOf s) := by
  induction literal generalizing s with
  | nil => simp [strncmp]
  | cons l literal ih =>
    rw [List.mem_cons, not_or] at h
    cases s with
    | nil => simp [strncmp, h.1]
    | cons c s =>
      rw [List.cons_append, strncmp, ih h.2, List.isPrefixOf]
      by_cases hc : c = l
      · simp [hc]
      · simp [hc, Ne.symm hc]

theorem readChar_at (before : List UInt8) (c : UInt8) (after : List UInt8) :
    (before ++ c :: after)[before.length]? = some c := by
  simp

theorem writeChar_at (before : List UInt8) (c : UInt8) (after : List UInt8) (v : UInt8) :
    writeChar (before ++ c :: after) before.length v = some (before ++ v :: after) := by
  unfold writeChar
  rw [if_pos (by simp), List.set_append_right _ _ (Nat.le_refl _), Nat.sub_self, List.set_cons_zero]

theorem text_behind {before s rest : List UInt8} {place : Nat} (hplace : before.length = place)
    (hs : 0 ∉ s) : CString.text ((before ++ (s ++ 0 :: rest)).drop place) = s := by
  rw [List.drop_left' hplace, CString.text_append_nul hs]

section Splitting
variable {host port : List UInt8} (before : List UInt8)

/-- Without brackets only the colon is overwritten. -/
theorem splitAt_plain (hhost : 0 ∉ host) (hport : 0 ∉ port) (hcolon : 58 ∉ port)
    (hhead : host.head? ≠ some 91) :
    ∃ parts, splitAt (before ++ (host ++ 58 :: port ++ [0])) before.length = some (some parts) ∧
      parts.strings = (host, port) := by
  have hwhole : 0 ∉ host ++ 58 :: port := by simp [hhost, hport]
  have hfirst : ∃ c, (before ++ (host ++ 58 :: port ++ [0]))[before.length]? = some c ∧ c ≠ 91 := by
    cases host with
    | nil => exact ⟨58, readChar_at before 58 _, by decide⟩
    | cons c host =>
      refine ⟨c, readChar_at before c _, ?_⟩
      intro hc
      exact hhead (congrArg some hc)
  obtain ⟨c, hread, hc⟩ := hfirst
  have hcopy : before ++ (host ++ 58 :: port ++ [0]) = before ++ host ++ 58 :: (port ++ [0]) := by
    simp
  have hwrite : writeChar (before ++ (host ++ 58 :: port ++ [0])) (before.length + host.length) 0 =
      some (before ++ host ++ 0 :: (port ++ [0])) := by
    rw [hcopy, ← List.length_append]
    exact writeChar_at _ _ _ _
  refine ⟨⟨before ++ host ++ 0 :: (port ++ [0]), before.length, before.length + host.length + 1⟩,
    ?_, ?_⟩
  · unfold splitAt
    rw [List.drop_left, strrchr_eq [] hwhole, splitLast_append hcolon]
    simp only [Option.bind_eq_bind, Option.bind_some, hread, if_neg hc, hwrite]
  · have hhostAt : before ++ host ++ 0 :: (port ++ [0]) = before ++ (host ++ 0 :: (port ++ [0])) :=
      List.append_assoc _ _ _
    have hportAt : before ++ host ++ 0 :: (port ++ [0]) = before ++ host ++ [0] ++ (port ++ [0]) := by
      simp
    unfold Parts.strings Parts.textAt
    simp only
    congr 1
    · rw [hhostAt]
      exact text_behind rfl hhost
    · rw [hportAt]
      exact text_behind (by simp; omega) hport

/-- With them the bracket in front of the colon is overwritten too. -/
theorem splitAt_bracketed (hhost : 0 ∉ host) (hport : 0 ∉ port) (hcolon : 58 ∉ port) :
    ∃ parts, splitAt (before ++ (91 :: host ++ [93] ++ 58 :: port ++ [0])) before.length =
        some (some parts) ∧ parts.strings = (host, port) := by
  have hwhole : 0 ∉ 91 :: host ++ [93] ++ 58 :: port := by simp [hhost, hport]
  have hread : (before ++ (91 :: host ++ [93] ++ 58 :: port ++ [0]))[before.length]? = some 91 :=
    readChar_at before 91 _
  have hcopy : before ++ (91 :: host ++ [93] ++ 58 :: port ++ [0]) =
      before ++ 91 :: host ++ 93 :: (58 :: port ++ [0]) := by simp
  have hplace : before.length + (91 :: host ++ [93]).length - 1 = (before ++ 91 :: host).length := by
    simp
  have hlast : (before ++ (91 :: host ++ [93] ++ 58 :: port ++ [0]))[before.length +
      (91 :: host ++ [93]).length - 1]? = some 93 := by
    rw [hcopy, hplace]
    exact readChar_at _ _ _
  have hunbracket : writeChar (before ++ (91 :: host ++ [93] ++ 58 :: port ++ [0]))
      (before.length + (91 :: host ++ [93]).length - 1) 0 =
        some (before ++ 91 :: host ++ 0 :: (58 :: port ++ [0])) := by
    rw [hcopy, hplace]
    exact writeChar_at _ _ _ _
  have hwrite : writeChar (before ++ 91 :: host ++ 0 :: (58 :: port ++ [0]))
      (before.length + (91 :: host ++ [93]).length) 0 =
        some (before ++ 91 :: host ++ [0] ++ 0 :: (port ++ [0])) := by
    have hcopy : before ++ 91 :: host ++ 0 :: (58 :: port ++ [0]) =
        before ++ 91 :: host ++ [0] ++ 58 :: (port ++ [0]) := by simp
    have hplace : before.length + (91 :: host ++ [93]).length =
        (before ++ 91 :: host ++ [0]).length := by
      simp
    rw [hcopy, hplace]
    exact writeChar_at _ _ _ _
  refine ⟨⟨before ++ 91 :: host ++ [0] ++ 0 :: (port ++ [0]), before.length + 1,
    before.length + (91 :: host ++ [93]).length + 1⟩, ?_, ?_⟩
  · unfold splitAt
    rw [List.drop_left, strrchr_eq [] hwhole, splitLast_append hcolon]
    simp only [Option.bind_eq_bind, Option.bind_some, hread, hlast, hunbracket, hwrite, if_true]
  · have hhostAt : before ++ 91 :: host ++ [0] ++ 0 :: (port ++ [0]) =
        before ++ [91] ++ (host ++ 0 :: 0 :: (port ++ [0])) := by simp
    have hportAt : before ++ 91 :: host ++ [0] ++ 0 :: (port ++ [0]) =
        before ++ 91 :: host ++ [0, 0] ++ (port ++ [0]) := by simp
    unfold Parts.strings Parts.textAt
    simp only
    congr 1
    · rw [hhostAt]
      exact text_behind (by simp) hhost
    · rw [hportAt]
      exact text_behind (by simp; omega) hport

/-- A bracket that is not closed before the colon ends the splitting. -/
theorem splitAt_unclosed {rest : List UInt8} (hrest : 0 ∉ 91 :: rest) (hport : 0 ∉ port)
    (hcolon : 58 ∉ port) (hlast : (91 :: rest).getLast? ≠ some 93) :
    splitAt (before ++ (91 :: rest ++ 58 :: port ++ [0])) before.length = some none := by
  have hwhole : 0 ∉ 91 :: rest ++ 58 :: port := by
    rw [List.mem_append, not_or]
    exact ⟨hrest, by simp [hport]⟩
  have hread : (before ++ (91 :: rest ++ 58 :: port ++ [0]))[before.length]? = some 91 :=
    readChar_at before 91 _
  obtain ⟨front, c, hfront⟩ : ∃ front c, 91 :: rest = front ++ [c] :=
    ⟨_, _, (List.dropLast_concat_getLast (List.cons_ne_nil 91 rest)).symm⟩
  have hc : c ≠ 93 := by
    intro hc
    rw [hfront, List.getLast?_concat, hc] at hlast
    exact hlast rfl
  have hplace : before.length + (91 :: rest).length - 1 = (before ++ front).length := by
    rw [hfront]
    simp
  have hbehind : (before ++ (91 :: rest ++ 58 :: port ++ [0]))[before.length +
      (91 :: rest).length - 1]? = some c := by
    have hcopy : before ++ (91 :: rest ++ 58 :: port ++ [0]) =
        before ++ front ++ c :: (58 :: port ++ [0]) := by
      rw [hfront]
      simp
    rw [hplace, hcopy]
    exact readChar_at _ _ _
  unfold splitAt
  rw [List.drop_left, strrchr_eq [] hwhole, splitLast_append hcolon]
  simp only [Option.bind_eq_bind, Option.bind_some, hread, hbehind, if_neg hc, if_true]

/-- The places in the copy are those of the parts, and no access leaves it. -/
theorem splitAt_eq {s : List UInt8} (hs : 0 ∉ s) :
    ∃ parts, splitAt (before ++ (s ++ [0])) before.length = some parts ∧
      parts.map Parts.strings =
        (splitLast s).bind fun split => (removeBrackets split.1).map fun host => (host, split.2) := by
  cases hsplit : splitLast s with
  | none =>
    refine ⟨none, ?_, rfl⟩
    unfold splitAt
    rw [List.drop_left, strrchr_eq [] hs, hsplit]
    rfl
  | some split =>
    obtain ⟨bracketed, port⟩ := split
    obtain ⟨rfl, hcolon⟩ := splitLast_eq_some_iff.mp hsplit
    rw [Option.bind_some]
    have hhost : 0 ∉ bracketed := fun h => hs (List.mem_append_left _ h)
    have hport : 0 ∉ port := fun h => hs (List.mem_append_right _ (List.mem_cons_of_mem _ h))
    by_cases hhead : bracketed.head? = some 91
    · obtain ⟨rest, rfl⟩ := List.head?_eq_some_iff.mp hhead
      rcases bracket_cases rest with ⟨host, hclosed⟩ | ⟨hlast, hnone⟩
      · rw [hclosed] at hhost ⊢
        have hinner : 0 ∉ host := by
          intro h
          exact hhost (List.mem_append_left _ (List.mem_cons_of_mem _ h))
        obtain ⟨parts, hparts, hstrings⟩ :=
          splitAt_bracketed before hinner hport hcolon
        refine ⟨some parts, hparts, ?_⟩
        rw [removeBrackets_bracketed, Option.map_some, hstrings]
        rfl
      · refine ⟨none, splitAt_unclosed before hhost hport hcolon hlast, ?_⟩
        rw [hnone]
        rfl
    · obtain ⟨parts, hparts, hstrings⟩ :=
        splitAt_plain before hhost hport hcolon hhead
      refine ⟨some parts, hparts, ?_⟩
      rw [removeBrackets_plain hhead, Option.map_some, hstrings]
      rfl

end Splitting

theorem skipSchemeAt_append {scheme : List UInt8} (h : Scheme scheme) (rest : List UInt8) :
    skipSchemeAt (scheme ++ rest) = some (some scheme.length) := by
  cases h <;> simp [skipSchemeAt, strncmp, CString.ascii]

theorem skipSchemeAt_none {u : List UInt8} (h : skipScheme u = none) :
    skipSchemeAt (u ++ [0]) = some none := by
  unfold skipScheme at h
  split at h
  · cases h
  · next hcoaps =>
    split at h
    · cases h
    · next hcoap =>
      unfold skipSchemeAt
      rw [strncmp_eq (by decide), strncmp_eq (by decide)]
      simp only [Option.bind_eq_bind, Option.bind_some, hcoaps, hcoap]
      rfl

theorem parseUri_eq (u : List UInt8) :
    parseUri u = (skipScheme u).bind fun rest => (splitLast rest).bind fun split =>
      (removeBrackets split.1).map fun host => (host, split.2) := by
  unfold parseUri
  simp only [Option.bind_eq_bind, Option.map_eq_bind]
  rfl

/-- The splitting of the copy finds what the parsing of the text does. -/
theorem splitUri_eq {u : List UInt8} (hu : 0 ∉ u) :
    ∃ parts, splitUri (u ++ [0]) = some parts ∧ parts.map Parts.strings = parseUri u := by
  unfold splitUri
  rw [parseUri_eq]
  cases hscheme : skipScheme u with
  | none =>
    refine ⟨none, ?_, rfl⟩
    rw [skipSchemeAt_none hscheme]
    rfl
  | some rest =>
    obtain ⟨scheme, hs, rfl⟩ := skipScheme_eq_some hscheme
    have hrest : 0 ∉ rest := fun h => hu (List.mem_append_right _ h)
    obtain ⟨parts, hparts, hstrings⟩ := splitAt_eq scheme hrest
    refine ⟨parts, ?_, hstrings⟩
    rw [List.append_assoc, skipSchemeAt_append hs]
    exact hparts

/-! ## The call -/

section Calls
variable {c : Connect} {d : ClientData}

/-- The copy, or NULL. -/
theorem getServerUri_eq {target : SecurityInstance} {bytes : List UInt8}
    (hfind : lwm2mListFind SecurityInstance.instanceId c.secObjInstID c.instanceList = some target)
    (huri : Ownership.block c.memory target.uri = some bytes) (hterminated : 0 ∈ bytes) :
    getServerUri c.copied c.secObjInstID c.memory c.instanceList =
      some (if c.copied then some (CString.text bytes ++ [0]) else none) := by
  unfold getServerUri CString.read
  simp only [hfind, huri, Option.bind_eq_bind, Option.bind_some, if_pos hterminated]

/-- What the call does with the copy is what `lwm2mConnectServer` does with the text. -/
theorem connectInPlace_eq {u : List UInt8} (hu : 0 ∉ u)
    (hcopy : getServerUri c.copied c.secObjInstID c.memory c.instanceList = some (some (u ++ [0]))) :
    connectInPlace c d = (lwm2mConnectServer c d).map fun r => ⟨r.1, r.2, parseUri u⟩ := by
  obtain ⟨parts, hparts, hstrings⟩ := splitUri_eq hu
  unfold connectInPlace lwm2mConnectServer
  simp only [hcopy, hparts, CString.text_append_nul hu, ← hstrings, Option.bind_eq_bind,
    Option.bind_some]
  cases parts with
  | none => rfl
  | some parts =>
    simp only [Option.map_some]
    cases hcreate : connectionCreate c.getaddrinfo c.malloc d.connList d.sock parts.strings.1
        parts.strings.2 d.heap with
    | none => rfl
    | some result =>
      obtain ⟨newConnP, heap⟩ := result
      cases newConnP <;> rfl

theorem connect_possible {uri : Option (List UInt8)}
    (hcopy : getServerUri c.copied c.secObjInstID c.memory c.instanceList = some uri)
    (hfresh : ∀ p, c.malloc = some p → p ∉ d.heap.live) :
    ∃ handle d', lwm2mConnectServer c d = some (handle, d') := by
  have hcreate : ∀ host port, ∃ r,
      connectionCreate c.getaddrinfo c.malloc d.connList d.sock host port d.heap = some r := by
    intro host port
    unfold connectionCreate
    cases c.getaddrinfo host port with
    | none => exact ⟨_, rfl⟩
    | some servinfo =>
      simp only
      cases ConnectionList.tryAddresses servinfo with
      | none => exact ⟨_, rfl⟩
      | some sa =>
        unfold ConnectionList.connectionNewIncoming
        cases hmalloc : c.malloc with
        | none => exact ⟨_, rfl⟩
        | some p =>
          simp only
          rw [if_neg (hfresh p hmalloc)]
          exact ⟨_, rfl⟩
  unfold lwm2mConnectServer
  simp only [hcopy, Option.bind_eq_bind, Option.bind_some]
  cases uri with
  | none => exact ⟨_, _, rfl⟩
  | some uri =>
    simp only
    cases parseUri (CString.text uri) with
    | none => exact ⟨_, _, rfl⟩
    | some parts =>
      obtain ⟨⟨newConnP, heap⟩, hr⟩ := hcreate parts.1 parts.2
      simp only [hr, Option.bind_some]
      cases newConnP <;> exact ⟨_, _, rfl⟩

/-- Without parts to call `connection_create` with, nothing is done. -/
theorem connect_unparsed {u : List UInt8} (hu : 0 ∉ u)
    (hcopy : getServerUri c.copied c.secObjInstID c.memory c.instanceList = some (some (u ++ [0])))
    (hparse : parseUri u = none) : lwm2mConnectServer c d = some (none, d) := by
  unfold lwm2mConnectServer
  simp only [hcopy, CString.text_append_nul hu, hparse, Option.bind_eq_bind, Option.bind_some]

/-- What is linked by a call is put in front of the list, and nothing is linked otherwise. -/
theorem connect_linked {handle : Option Nat} {d' : ClientData}
    (h : lwm2mConnectServer c d = some (handle, d')) :
    (handle = none → d'.connList = d.connList) ∧
      ∀ p, handle = some p → ∀ list, Chain.Leads Connection.next d.heap d.connList list →
        Chain.Leads Connection.next d'.heap d'.connList (p :: list) := by
  rcases ConnectionList.connect_cases h with ⟨p, a, rfl, _, _, hp, rfl⟩ | ⟨rfl, rfl, _⟩
  · refine ⟨by simp, ?_⟩
    intro q hq list hlist
    cases hq
    exact hlist.push hp rfl
  · exact ⟨fun _ => rfl, by simp⟩

end Calls

/-- For every NUL-terminated URI of a security object the call of `connection_create` is made with
the host and the port of the grammar, and for no other URI. No access leaves the copy, and a
connection that is created is put in front of the list. -/
theorem server_uri_parsed_exactly (c : Connect) (d : ClientData) (target : SecurityInstance)
    (bytes : List UInt8)
    (hfind : lwm2mListFind SecurityInstance.instanceId c.secObjInstID c.instanceList = some target)
    (huri : Ownership.block c.memory target.uri = some bytes) (hterminated : 0 ∈ bytes)
    (hfresh : ∀ p, c.malloc = some p → p ∉ d.heap.live) :
    ∃ o, connectInPlace c d = some o ∧ Exact (CString.text bytes) c.copied d o := by
  have hcopy := getServerUri_eq hfind huri hterminated
  cases hcopied : c.copied with
  | false =>
    rw [hcopied] at hcopy
    refine ⟨⟨none, d, none⟩, ?_, by simp, fun _ => ⟨rfl, rfl⟩, fun _ => rfl, by simp⟩
    unfold connectInPlace
    rw [hcopied, hcopy]
    rfl
  | true =>
    obtain ⟨handle, d', hconnect⟩ := connect_possible hcopy hfresh
    rw [hcopied, if_pos rfl, ← hcopied] at hcopy
    have hu : 0 ∉ CString.text bytes := CString.nul_notMem_text bytes
    obtain ⟨hfailed, hlinked⟩ := connect_linked hconnect
    refine ⟨⟨handle, d', parseUri (CString.text bytes)⟩, ?_, ?_, ?_, hfailed, hlinked⟩
    · rw [connectInPlace_eq hu hcopy, hconnect, Option.map_some]
    · intro _ host port
      exact parseUri_eq_some_iff
    · intro hparse
      rw [connect_unparsed hu hcopy hparse] at hconnect
      cases hconnect
      exact ⟨rfl, rfl⟩

/-- The URI of the bootstrap server. -/
theorem bootstrap_uri_parsed_exactly :
    ∃ o, connectInPlace (ConnectionList.connectTo 0 100) (ConnectionList.start 3).data = some o ∧
      Exact (CString.text (CString.ascii "coap://10.0.0.1:5683" ++ [0])) true
        (ConnectionList.start 3).data o :=
  server_uri_parsed_exactly (ConnectionList.connectTo 0 100) (ConnectionList.start 3).data
    { ObjectSecurity.zeroed 0 with uri := some 1 } (CString.ascii "coap://10.0.0.1:5683" ++ [0])
    rfl rfl (by decide) (by decide)

end JsEmbeddedPlatform.ServerUri
