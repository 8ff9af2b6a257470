import JsEmbeddedPlatform.CoapOptions
import JsEmbeddedPlatform.CoapValues

/-!
# What is written as a message is read again

The writer goes over the fields in the order of their numbers. A packet whose fields agree
with its option map comes back from the reader with the offsets of its blocks.
-/

set_option autoImplicit false

namespace JsEmbeddedPlatform.Coap

open Lwm2mData (Fault access access_getElem? slice slice_eq slice_length)

/-! ## The options of a packet -/

def single (p : Packet) (number : Nat) (value : List UInt8) : List (Nat × List UInt8) :=
  if number ∈ p.options then [(number, value)] else []

def each (p : Packet) (number : Nat) (values : List (List UInt8)) : List (Nat × List UInt8) :=
  if number ∈ p.options then values.map (number, ·) else []

def optionsOf (p : Packet) : List (Nat × List UInt8) :=
  single p coapOptionIfMatch p.ifMatch ++
  single p coapOptionUriHost p.uriHost ++
  single p coapOptionEtag p.etag ++
  single p coapOptionIfNoneMatch (intBytes (p.contentType - p.contentType)) ++
  single p coapOptionObserve (intBytes p.observe) ++
  single p coapOptionUriPort (intBytes p.uriPort.toUInt32) ++
  each p coapOptionLocationPath p.locationPath ++
  each p coapOptionUriPath p.uriPath ++
  single p coapOptionContentType (intBytes p.contentType) ++
  single p coapOptionMaxAge (intBytes p.maxAge) ++
  each p coapOptionUriQuery p.uriQuery ++
  each p coapOptionAccept (p.accept.map fun accept => intBytes accept.toUInt32) ++
  each p coapOptionLocationQuery (splitFrom 38 [] p.locationQuery) ++
  single p coapOptionBlock2 (intBytes (blockValue p.block2)) ++
  single p coapOptionBlock1 (intBytes (blockValue p.block1)) ++
  single p coapOptionSize (intBytes p.size) ++
  single p coapOptionProxyUri p.proxyUri

/-- `w` is left when `opts` have been written. -/
structure Writes (w : Written) (opts : List (Nat × List UInt8)) : Prop where
  current : w.currentNumber = lastNumber 0 opts
  bytes : w.bytes = encodeOptions 0 opts

theorem Writes.append {w : Written} {opts : List (Nat × List UInt8)} (h : Writes w opts)
    (more : List (Nat × List UInt8)) :
    Writes ⟨lastNumber w.currentNumber more, w.bytes ++ encodeOptions w.currentNumber more⟩
      (opts ++ more) := by
  refine ⟨?_, ?_⟩
  · rw [lastNumber_append, h.current]
  · rw [encodeOptions_append, h.current, h.bytes]

theorem Writes.single {p : Packet} {w : Written} {opts : List (Nat × List UInt8)}
    (h : Writes w opts) (number : Nat) {value : List UInt8} {write : Nat → List UInt8}
    (hwrite : ∀ current, write current =
      coapSetOptionHeader (number - current) value.length ++ value) :
    Writes (serializeOption p number write w) (opts ++ Coap.single p number value) := by
  unfold serializeOption Coap.single
  split
  · have hmore := h.append [(number, value)]
    rw [encodeOptions, encodeOptions, List.append_nil, ← hwrite] at hmore
    exact hmore
  · rw [List.append_nil]
    exact h

theorem Writes.int {p : Packet} {w : Written} {opts : List (Nat × List UInt8)}
    (h : Writes w opts) (number : Nat) (field : UInt32) :
    Writes (coapSerializeInt p number field w) (opts ++ Coap.single p number (intBytes field)) :=
  h.single number fun _ => rfl

theorem Writes.array {p : Packet} {w : Written} {opts : List (Nat × List UInt8)}
    (h : Writes w opts) (number : Nat) (field : List UInt8) :
    Writes (coapSerializeBytes p number field none w) (opts ++ Coap.single p number field) :=
  h.single number fun _ => rfl

theorem multiOption_eq (number current : Nat) (values : List (List UInt8)) :
    coapSerializeMultiOption number current values =
      encodeOptions current (values.map (number, ·)) := by
  induction values generalizing current with
  | nil => rfl
  | cons value values ih =>
    rw [coapSerializeMultiOption, ih, List.map_cons, encodeOptions, List.append_assoc]

theorem lastNumber_each (current number : Nat) {values : List (List UInt8)}
    (h : values ≠ []) : lastNumber current (values.map (number, ·)) = number := by
  unfold lastNumber
  rw [List.getLast?_map, List.getLast?_eq_some_getLast h]
  rfl

/-- A field whose bit is set without a value would move the numbers of all that follow. -/
theorem Writes.each {p : Packet} {w : Written} {opts : List (Nat × List UInt8)}
    (h : Writes w opts) (number : Nat) {field : List (List UInt8)}
    (hfield : number ∈ p.options → field ≠ []) :
    Writes (coapSerializeMulti p number field w) (opts ++ Coap.each p number field) := by
  unfold coapSerializeMulti serializeOption Coap.each
  split
  · next hset =>
    have hmore := h.append (field.map (number, ·))
    rw [lastNumber_each _ number (hfield hset), ← multiOption_eq] at hmore
    exact hmore
  · rw [List.append_nil]
    exact h

theorem splitFrom_ne_nil (splitChar : UInt8) (part rest : List UInt8) :
    splitFrom splitChar part rest ≠ [] := by
  fun_induction splitFrom splitChar part rest with
  | case1 part => simp
  | case2 part rest ih => simp
  | case3 part c rest hc ih => exact ih

theorem Writes.split {p : Packet} {w : Written} {opts : List (Nat × List UInt8)}
    (h : Writes w opts) (number : Nat) (field : List UInt8) :
    Writes (coapSerializeBytes p number field (some 38) w)
      (opts ++ Coap.each p number (splitFrom 38 [] field)) :=
  h.each number fun _ => splitFrom_ne_nil 38 [] field

theorem Writes.accepts {w : Written} {opts : List (Nat × List UInt8)} (h : Writes w opts)
    (number : Nat) (accepts : List UInt16) :
    Writes (serializeAccepts number accepts w)
      (opts ++ accepts.map fun accept => (number, intBytes accept.toUInt32)) := by
  induction accepts generalizing w opts with
  | nil =>
    rw [List.map_nil, List.append_nil]
    exact h
  | cons accept accepts ih =>
    have hmore := h.append [(number, intBytes accept.toUInt32)]
    rw [encodeOptions, encodeOptions, List.append_nil] at hmore
    rw [serializeAccepts, List.map_cons, ← List.singleton_append, ← List.append_assoc]
    exact ih hmore

theorem Writes.accept {p : Packet} {w : Written} {opts : List (Nat × List UInt8)}
    (h : Writes w opts) :
    Writes (coapSerializeAccept p w) (opts ++ Coap.each p coapOptionAccept
      (p.accept.map fun accept => intBytes accept.toUInt32)) := by
  unfold coapSerializeAccept Coap.each
  split
  · rw [List.map_map]
    exact h.accepts coapOptionAccept p.accept
  · rw [List.append_nil]
    exact h

theorem serializeOptions_writes {p : Packet}
    (hlocation : coapOptionLocationPath ∈ p.options → p.locationPath ≠ [])
    (hpath : coapOptionUriPath ∈ p.options → p.uriPath ≠ [])
    (hquery : coapOptionUriQuery ∈ p.options → p.uriQuery ≠ []) :
    Writes (serializeOptions p) (optionsOf p) := by
  have hnone : Writes ⟨0, []⟩ [] := ⟨rfl, rfl⟩
  unfold serializeOptions optionsOf
  apply Writes.array
  apply Writes.int
  apply Writes.int
  apply Writes.int
  apply Writes.split
  apply Writes.accept
  refine Writes.each ?_ coapOptionUriQuery hquery
  apply Writes.int
  apply Writes.int
  refine Writes.each ?_ coapOptionUriPath hpath
  refine Writes.each ?_ coapOptionLocationPath hlocation
  apply Writes.int
  apply Writes.int
  apply Writes.int
  apply Writes.array
  apply Writes.array
  exact hnone.array coapOptionIfMatch p.ifMatch

/-! ## Packets that are read again -/

/-- The options that the writer and the reader know, without the Proxy-Uri. -/
def writtenOptions : List Nat := [1, 3, 4, 5, 6, 7, 8, 11, 12, 14, 15, 17, 20, 23, 27, 28]

/-- The token has a bit, but it is no option. -/
def knownOptions : List Nat := coapOptionToken :: writtenOptions

/-- The segments of a path or a query and the bit for them. -/
structure Segments (p : Packet) (number : Nat) (field : List (List UInt8)) : Prop where
  isSet : number ∈ p.options ↔ field ≠ []
  short : ∀ data ∈ field, data.length < 256

/-- The field of an option says nothing that the option map does not say and fits into the
option. -/
def FieldOk (p : Packet) : Nat → Prop
  | 1 => p.ifMatch.length ≤ 8 ∧ (coapOptionIfMatch ∉ p.options → p.ifMatch = [])
  | 3 => coapOptionUriHost ∉ p.options → p.uriHost = []
  | 4 => p.etag.length ≤ 8 ∧ (coapOptionEtag ∉ p.options → p.etag = [])
  | 6 => coapOptionObserve ∉ p.options → p.observe = 0
  | 7 => coapOptionUriPort ∉ p.options → p.uriPort = 0
  | 8 => Segments p coapOptionLocationPath p.locationPath
  | 11 => Segments p coapOptionUriPath p.uriPath
  | 12 => coapOptionContentType ∉ p.options → p.contentType = 0
  | 14 => coapOptionMaxAge ∉ p.options → p.maxAge = 0
  | 15 => Segments p coapOptionUriQuery p.uriQuery
  | 17 => p.accept.length ≤ 2 ∧ (coapOptionAccept ∈ p.options ↔ p.accept ≠ [])
  | 19 => p.token.length ≤ 8 ∧ (coapOptionToken ∈ p.options ↔ p.token ≠ [])
  | 20 => p.locationQuery.head? ≠ some 38 ∧ p.locationQuery.getLast? ≠ some 38 ∧
      (coapOptionLocationQuery ∉ p.options → p.locationQuery = [])
  | 23 => if coapOptionBlock2 ∈ p.options then p.block2.Valid else p.block2 = {}
  | 27 => if coapOptionBlock1 ∈ p.options then p.block1.Valid else p.block1 = {}
  | 28 => coapOptionSize ∉ p.options → p.size = 0
  | _ => True

structure Canonical (p : Packet) : Prop where
  version : p.version = 0
  ifNoneMatch : p.ifNoneMatch = 0
  proxyUri : p.proxyUri = []
  known : ∀ number ∈ p.options, number ∈ knownOptions
  field : ∀ number, FieldOk p number

section Fields
variable {p : Packet} (h : Canonical p)
include h

theorem Canonical.ifMatch :
    p.ifMatch.length ≤ 8 ∧ (coapOptionIfMatch ∉ p.options → p.ifMatch = []) :=
  h.field coapOptionIfMatch

theorem Canonical.uriHost : coapOptionUriHost ∉ p.options → p.uriHost = [] :=
  h.field coapOptionUriHost

theorem Canonical.etag :
    p.etag.length ≤ 8 ∧ (coapOptionEtag ∉ p.options → p.etag = []) :=
  h.field coapOptionEtag

theorem Canonical.observe : coapOptionObserve ∉ p.options → p.observe = 0 :=
  h.field coapOptionObserve

theorem Canonical.uriPort : coapOptionUriPort ∉ p.options → p.uriPort = 0 :=
  h.field coapOptionUriPort

theorem Canonical.locationPath : Segments p coapOptionLocationPath p.locationPath :=
  h.field coapOptionLocationPath

theorem Canonical.uriPath : Segments p coapOptionUriPath p.uriPath :=
  h.field coapOptionUriPath

theorem Canonical.contentType : coapOptionContentType ∉ p.options → p.contentType = 0 :=
  h.field coapOptionContentType

theorem Canonical.maxAge : coapOptionMaxAge ∉ p.options → p.maxAge = 0 :=
  h.field coapOptionMaxAge

theorem Canonical.uriQuery : Segments p coapOptionUriQuery p.uriQuery :=
  h.field coapOptionUriQuery

theorem Canonical.accept :
    p.accept.length ≤ 2 ∧ (coapOptionAccept ∈ p.options ↔ p.accept ≠ []) :=
  h.field coapOptionAccept

theorem Canonical.token :
    p.token.length ≤ 8 ∧ (coapOptionToken ∈ p.options ↔ p.token ≠ []) :=
  h.field coapOptionToken

theorem Canonical.locationQuery :
    p.locationQuery.head? ≠ some 38 ∧ p.locationQuery.getLast? ≠ some 38 ∧
      (coapOptionLocationQuery ∉ p.options → p.locationQuery = []) :=
  h.field coapOptionLocationQuery

theorem Canonical.block2 :
    if coapOptionBlock2 ∈ p.options then p.block2.Valid else p.block2 = {} :=
  h.field coapOptionBlock2

theorem Canonical.block1 :
    if coapOptionBlock1 ∈ p.options then p.block1.Valid else p.block1 = {} :=
  h.field coapOptionBlock1

theorem Canonical.size : coapOptionSize ∉ p.options → p.size = 0 :=
  h.field coapOptionSize

end Fields

def withOffset (isSet : Bool) (b : Block) : Block :=
  if isSet then { b with offset := b.num * b.size.toUInt32 } else b

/-- What the reader makes of a packet. -/
def received (p : Packet) : Packet :=
  { p with
    version := 1
    ifNoneMatch := if coapOptionIfNoneMatch ∈ p.options then 1 else 0
    block2 := withOffset (coapOptionBlock2 ∈ p.options) p.block2
    block1 := withOffset (coapOptionBlock1 ∈ p.options) p.block1 }

/-- The bit of an option that the packet has. -/
def mark (p : Packet) (number : Nat) (options : Finset Nat) : Finset Nat :=
  if number ∈ p.options then insert number options else options

theorem mem_mark {p : Packet} {number n : Nat} {options : Finset Nat} :
    n ∈ mark p number options ↔ n = number ∧ number ∈ p.options ∨ n ∈ options := by
  unfold mark
  split <;> simp [*]

/-- The packet when its header and its token are read. -/
def begun (p : Packet) : Packet :=
  { version := 1
    type := p.type
    code := p.code
    mid := p.mid
    token := p.token
    options := mark p coapOptionToken ∅ }

/-- An option that sets a field to a value, which is the value of the field where the option is
missing. -/
theorem store_single {p q : Packet} {number : Nat} {value : List UInt8} (set : Packet → Packet)
    (hnumber : number ≤ 40) (hset : ∀ q, (storeOption number value q).1 = set q)
    (hunset : number ∉ p.options → set q = q) :
    (single p number value).foldl store q =
      set { q with options := mark p number q.options } := by
  unfold single mark
  split
  · rw [List.foldl_cons, List.foldl_nil, store, hset, Packet.setOption, if_pos hnumber]
  · next hmem => exact (hunset hmem).symm

/-- A field to which each option adds its value. -/
structure Adds (number : Nat) (valid : List UInt8 → Prop)
    (add : Packet → List (List UInt8) → Packet) : Prop where
  small : number ≤ 40
  stores : ∀ q value, valid value → (storeOption number value q).1 = add q [value]
  nil : ∀ q, add q [] = q
  append : ∀ q xs ys, add (add q xs) ys = add q (xs ++ ys)
  options : ∀ q xs options, add { q with options := options } xs =
    { add q xs with options := options }

theorem Adds.foldl {number : Nat} {valid : List UInt8 → Prop}
    {add : Packet → List (List UInt8) → Packet} (h : Adds number valid add)
    {values : List (List UInt8)} (hvalues : ∀ value ∈ values, valid value) (q : Packet)
    (hq : number ∈ q.options) : (values.map (number, ·)).foldl store q = add q values := by
  induction values generalizing q with
  | nil => exact (h.nil q).symm
  | cons value values ih =>
    obtain ⟨hvalue, hvalues⟩ := List.forall_mem_cons.mp hvalues
    have hsame : q.setOption number = q := by
      rw [Packet.setOption, if_pos h.small, Finset.insert_eq_of_mem hq]
    have hadd := h.options q [value] q.options
    have hmem : number ∈ (add q [value]).options := by
      rw [show add q [value] = { add q [value] with options := q.options } from hadd]
      exact hq
    rw [List.map_cons, List.foldl_cons, store, hsame, h.stores q value hvalue,
      ih hvalues _ hmem, h.append, List.singleton_append]

theorem store_each {p q : Packet} {number : Nat} {valid : List UInt8 → Prop}
    {add : Packet → List (List UInt8) → Packet} (h : Adds number valid add)
    {values : List (List UInt8)} (hvalues : ∀ value ∈ values, valid value)
    (hset : number ∈ p.options → values ≠ []) (hunset : number ∉ p.options → add q values = q) :
    (each p number values).foldl store q =
      add { q with options := mark p number q.options } values := by
  unfold each mark
  split
  · next hmem =>
    cases values with
    | nil => exact absurd rfl (hset hmem)
    | cons value values =>
      obtain ⟨hvalue, hvalues⟩ := List.forall_mem_cons.mp hvalues
      have hfirst : store q (number, value) =
          add { q with options := insert number q.options } [value] := by
        rw [store, Packet.setOption, if_pos h.small, h.stores _ value hvalue]
      have hmem : number ∈ (store q (number, value)).options := by
        rw [hfirst, h.options]
        exact Finset.mem_insert_self number q.options
      rw [List.map_cons, List.foldl_cons, h.foldl hvalues _ hmem, hfirst, h.append,
        List.singleton_append]
  · next hmem => exact (hunset hmem).symm

theorem store_ifMatch {p q : Packet} (h : Canonical p) (hq : q.ifMatch = []) :
    (single p coapOptionIfMatch p.ifMatch).foldl store q =
      { q with ifMatch := p.ifMatch, options := mark p coapOptionIfMatch q.options } := by
  apply store_single (fun q => { q with ifMatch := p.ifMatch }) (by decide)
  · intro q
    exact congrArg (fun etag => { q with ifMatch := etag }) (List.take_of_length_le h.ifMatch.1)
  · intro hmem
    rw [h.ifMatch.2 hmem, ← hq]

theorem store_uriHost {p q : Packet} (h : Canonical p) (hq : q.uriHost = []) :
    (single p coapOptionUriHost p.uriHost).foldl store q =
      { q with uriHost := p.uriHost, options := mark p coapOptionUriHost q.options } := by
  apply store_single (fun q => { q with uriHost := p.uriHost }) (by decide)
  · exact fun q => rfl
  · intro hmem
    rw [h.uriHost hmem, ← hq]

theorem store_etag {p q : Packet} (h : Canonical p) (hq : q.etag = []) :
    (single p coapOptionEtag p.etag).foldl store q =
      { q with etag := p.etag, options := mark p coapOptionEtag q.options } := by
  apply store_single (fun q => { q with etag := p.etag }) (by decide)
  · intro q
    exact congrArg (fun etag => { q with etag := etag }) (List.take_of_length_le h.etag.1)
  · intro hmem
    rw [h.etag.2 hmem, ← hq]

theorem store_ifNoneMatch {p q : Packet} (value : List UInt8) (hq : q.ifNoneMatch = 0) :
    (single p coapOptionIfNoneMatch value).foldl store q =
      { q with
        ifNoneMatch := if coapOptionIfNoneMatch ∈ p.options then 1 else 0
        options := mark p coapOptionIfNoneMatch q.options } := by
  unfold single mark
  split
  · rfl
  · rw [← hq]
    rfl

theorem store_observe {p q : Packet} (h : Canonical p) (hq : q.observe = 0) :
    (single p coapOptionObserve (intBytes p.observe)).foldl store q =
      { q with observe := p.observe, options := mark p coapOptionObserve q.options } := by
  apply store_single (fun q => { q with observe := p.observe }) (by decide)
  · intro q
    exact congrArg (fun n => { q with observe := n }) (parseInt_intBytes p.observe)
  · intro hmem
    rw [h.observe hmem, ← hq]

theorem parseInt_port (port : UInt16) :
    (coapParseIntOption (intBytes port.toUInt32)).toUInt16 = port := by
  rw [parseInt_intBytes, UInt16.toUInt16_toUInt32]

theorem store_uriPort {p q : Packet} (h : Canonical p) (hq : q.uriPort = 0) :
    (single p coapOptionUriPort (intBytes p.uriPort.toUInt32)).foldl store q =
      { q with uriPort := p.uriPort, options := mark p coapOptionUriPort q.options } := by
  apply store_single (fun q => { q with uriPort := p.uriPort }) (by decide)
  · intro q
    exact congrArg (fun n => { q with uriPort := n }) (parseInt_port p.uriPort)
  · intro hmem
    rw [h.uriPort hmem, ← hq]

theorem store_contentType {p q : Packet} (h : Canonical p) (hq : q.contentType = 0) :
    (single p coapOptionContentType (intBytes p.contentType)).foldl store q =
      { q with
        contentType := p.contentType
        options := mark p coapOptionContentType q.options } := by
  apply store_single (fun q => { q with contentType := p.contentType }) (by decide)
  · intro q
    exact congrArg (fun n => { q with contentType := n }) (parseInt_intBytes p.contentType)
  · intro hmem
    rw [h.contentType hmem, ← hq]

theorem store_maxAge {p q : Packet} (h : Canonical p) (hq : q.maxAge = 0) :
    (single p coapOptionMaxAge (intBytes p.maxAge)).foldl store q =
      { q with maxAge := p.maxAge, options := mark p coapOptionMaxAge q.options } := by
  apply store_single (fun q => { q with maxAge := p.maxAge }) (by decide)
  · intro q
    exact congrArg (fun n => { q with maxAge := n }) (parseInt_intBytes p.maxAge)
  · intro hmem
    rw [h.maxAge hmem, ← hq]

theorem store_size {p q : Packet} (h : Canonical p) (hq : q.size = 0) :
    (single p coapOptionSize (intBytes p.size)).foldl store q =
      { q with size := p.size, options := mark p coapOptionSize q.options } := by
  apply store_single (fun q => { q with size := p.size }) (by decide)
  · intro q
    exact congrArg (fun n => { q with size := n }) (parseInt_intBytes p.size)
  · intro hmem
    rw [h.size hmem, ← hq]

theorem multiOption_short {data : List UInt8} (h : data.length < 256) :
    multiOption data = data := by
  rw [multiOption, Nat.mod_eq_of_lt h, List.take_length]

theorem adds_locationPath : Adds coapOptionLocationPath (·.length < 256)
    (fun q xs => { q with locationPath := q.locationPath ++ xs }) where
  small := by decide
  stores q value hvalue :=
    congrArg (fun data => { q with locationPath := q.locationPath ++ [data] })
      (multiOption_short hvalue)
  nil q := by simp only [List.append_nil]
  append q xs ys := by simp only [List.append_assoc]
  options q xs options := rfl

theorem adds_uriPath : Adds coapOptionUriPath (·.length < 256)
    (fun q xs => { q with uriPath := q.uriPath ++ xs }) where
  small := by decide
  stores q value hvalue :=
    congrArg (fun data => { q with uriPath := q.uriPath ++ [data] }) (multiOption_short hvalue)
  nil q := by simp only [List.append_nil]
  append q xs ys := by simp only [List.append_assoc]
  options q xs options := rfl

theorem adds_uriQuery : Adds coapOptionUriQuery (·.length < 256)
    (fun q xs => { q with uriQuery := q.uriQuery ++ xs }) where
  small := by decide
  stores q value hvalue :=
    congrArg (fun data => { q with uriQuery := q.uriQuery ++ [data] }) (multiOption_short hvalue)
  nil q := by simp only [List.append_nil]
  append q xs ys := by simp only [List.append_assoc]
  options q xs options := rfl

theorem adds_locationQuery : Adds coapOptionLocationQuery (fun _ => True)
    (fun q xs => { q with locationQuery := mergeParts q.locationQuery xs }) where
  small := by decide
  stores q value _ := rfl
  nil q := rfl
  append q xs ys := by simp only [mergeParts, List.foldl_append]
  options q xs options := rfl

theorem Segments.empty {p : Packet} {number : Nat} {field : List (List UInt8)}
    (h : Segments p number field) (hmem : number ∉ p.options) : field = [] := by
  by_contra hne
  exact hmem (h.isSet.mpr hne)

theorem store_locationPath {p q : Packet} (h : Canonical p) (hq : q.locationPath = []) :
    (each p coapOptionLocationPath p.locationPath).foldl store q =
      { q with
        locationPath := p.locationPath
        options := mark p coapOptionLocationPath q.options } := by
  rw [store_each adds_locationPath h.locationPath.short h.locationPath.isSet.mp]
  · rw [hq, List.nil_append]
  · intro hmem
    rw [h.locationPath.empty hmem, List.append_nil]

theorem store_uriPath {p q : Packet} (h : Canonical p) (hq : q.uriPath = []) :
    (each p coapOptionUriPath p.uriPath).foldl store q =
      { q with uriPath := p.uriPath, options := mark p coapOptionUriPath q.options } := by
  rw [store_each adds_uriPath h.uriPath.short h.uriPath.isSet.mp]
  · rw [hq, List.nil_append]
  · intro hmem
    rw [h.uriPath.empty hmem, List.append_nil]

theorem store_uriQuery {p q : Packet} (h : Canonical p) (hq : q.uriQuery = []) :
    (each p coapOptionUriQuery p.uriQuery).foldl store q =
      { q with uriQuery := p.uriQuery, options := mark p coapOptionUriQuery q.options } := by
  rw [store_each adds_uriQuery h.uriQuery.short h.uriQuery.isSet.mp]
  · rw [hq, List.nil_append]
  · intro hmem
    rw [h.uriQuery.empty hmem, List.append_nil]

theorem store_locationQuery {p q : Packet} (h : Canonical p) (hq : q.locationQuery = []) :
    (each p coapOptionLocationQuery (splitFrom 38 [] p.locationQuery)).foldl store q =
      { q with
        locationQuery := p.locationQuery
        options := mark p coapOptionLocationQuery q.options } := by
  obtain ⟨hstart, hend, hunset⟩ := h.locationQuery
  rw [store_each adds_locationQuery (fun _ _ => trivial) (fun _ => splitFrom_ne_nil 38 [] _)]
  · rw [hq, mergeParts_query hstart hend]
  · intro hmem
    rw [hq, mergeParts_query hstart hend, hunset hmem, ← hq]

theorem storeOption_accept {q : Packet} (value : List UInt8) (h : q.accept.length < 2) :
    (storeOption coapOptionAccept value q).1 =
      { q with accept := q.accept ++ [(coapParseIntOption value).toUInt16] } :=
  congrArg Prod.fst (if_pos h)

theorem store_accept_one (q : Packet) (accept : UInt16) (h : q.accept.length < 2) :
    store q (coapOptionAccept, intBytes accept.toUInt32) =
      { q with
        accept := q.accept ++ [accept]
        options := insert coapOptionAccept q.options } := by
  have hstored := storeOption_accept (q := q.setOption coapOptionAccept)
    (intBytes accept.toUInt32) h
  rw [parseInt_port] at hstored
  exact hstored

/-- There are two at most, so none is dropped. -/
theorem store_accept {p q : Packet} (h : Canonical p) (hq : q.accept = []) :
    (each p coapOptionAccept (p.accept.map fun accept => intBytes accept.toUInt32)).foldl store
        q =
      { q with accept := p.accept, options := mark p coapOptionAccept q.options } := by
  obtain ⟨hlen, hset⟩ := h.accept
  unfold each mark
  split
  · next hmem =>
    have hne := hset.mp hmem
    match haccept : p.accept, hlen, hne with
    | [a], _, _ =>
      rw [List.map_cons, List.map_nil, List.map_cons, List.map_nil, List.foldl_cons,
        List.foldl_nil, store_accept_one q a (by rw [hq]; decide), hq, List.nil_append]
    | [a, b], _, _ =>
      simp only [List.map_cons, List.map_nil, List.foldl_cons, List.foldl_nil]
      rw [store_accept_one q a (by rw [hq]; decide), store_accept_one _ b (by rw [hq]; exact Nat.one_lt_two), hq]
      simp only [List.nil_append, List.singleton_append, Finset.insert_idem]
  · next hmem =>
    have hnil : p.accept = [] := by
      by_contra hne
      exact hmem (hset.mpr hne)
    rw [hnil, ← hq]
    rfl

theorem store_block2 {p q : Packet} (h : Canonical p) (hq : q.block2 = {}) :
    (single p coapOptionBlock2 (intBytes (blockValue p.block2))).foldl store q =
      { q with
        block2 := withOffset (coapOptionBlock2 ∈ p.options) p.block2
        options := mark p coapOptionBlock2 q.options } := by
  have hblock := h.block2
  unfold single mark withOffset
  split
  · next hmem =>
    rw [if_pos hmem] at hblock
    rw [if_pos (decide_eq_true hmem), ← parseBlock_blockValue hblock]
    rfl
  · next hmem =>
    rw [if_neg hmem] at hblock
    rw [if_neg (by simpa using hmem), hblock, ← hq]
    rfl

theorem store_block1 {p q : Packet} (h : Canonical p) (hq : q.block1 = {}) :
    (single p coapOptionBlock1 (intBytes (blockValue p.block1))).foldl store q =
      { q with
        block1 := withOffset (coapOptionBlock1 ∈ p.options) p.block1
        options := mark p coapOptionBlock1 q.options } := by
  have hblock := h.block1
  unfold single mark withOffset
  split
  · next hmem =>
    rw [if_pos hmem] at hblock
    rw [if_pos (decide_eq_true hmem), ← parseBlock_blockValue hblock]
    rfl
  · next hmem =>
    rw [if_neg hmem] at hblock
    rw [if_neg (by simpa using hmem), hblock, ← hq]
    rfl

theorem store_proxyUri {p q : Packet} (h : Canonical p) :
    (single p coapOptionProxyUri p.proxyUri).foldl store q = q := by
  have hmem : coapOptionProxyUri ∉ p.options := by
    intro hmem
    exact absurd (h.known _ hmem) (by decide)
  rw [single, if_neg hmem, List.foldl_nil]

/-- All the bits there are, in the order in which the reader sets them. -/
def marks (p : Packet) : Finset Nat :=
  knownOptions.foldl (fun options number => mark p number options) ∅

theorem mem_foldl_mark {p : Packet} {n : Nat} (numbers : List Nat) (options : Finset Nat) :
    n ∈ numbers.foldl (fun options number => mark p number options) options ↔
      n ∈ options ∨ n ∈ numbers ∧ n ∈ p.options := by
  induction numbers generalizing options with
  | nil => simp
  | cons number numbers ih =>
    rw [List.foldl_cons, ih, mem_mark, List.mem_cons]
    constructor
    · rintro ((⟨rfl, hn⟩ | hn) | ⟨hmem, hn⟩)
      · exact Or.inr ⟨Or.inl rfl, hn⟩
      · exact Or.inl hn
      · exact Or.inr ⟨Or.inr hmem, hn⟩
    · rintro (hn | ⟨rfl | hmem, hn⟩)
      · exact Or.inl (Or.inr hn)
      · exact Or.inl (Or.inl ⟨rfl, hn⟩)
      · exact Or.inr ⟨hmem, hn⟩

theorem marks_eq {p : Packet} (h : Canonical p) : marks p = p.options := by
  ext n
  rw [marks, mem_foldl_mark]
  constructor
  · rintro (hn | ⟨_, hn⟩)
    · exact absurd hn (Finset.notMem_empty n)
    · exact hn
  · exact fun hn => Or.inr ⟨h.known n hn, hn⟩

theorem store_optionsOf_marks {p : Packet} (h : Canonical p) :
    (optionsOf p).foldl store (begun p) =
      { received p with
        options := marks p
        proxyUri := []
        payload := [] } := by
  unfold optionsOf
  repeat rw [List.foldl_append]
  rw [store_ifMatch h, store_uriHost h, store_etag h, store_ifNoneMatch, store_observe h,
    store_uriPort h, store_locationPath h, store_uriPath h, store_contentType h, store_maxAge h,
    store_uriQuery h, store_accept h, store_locationQuery h, store_block2 h, store_block1 h,
    store_size h, store_proxyUri h]
  all_goals rfl

theorem store_optionsOf {p : Packet} (h : Canonical p) :
    (optionsOf p).foldl store (begun p) = { received p with payload := [] } := by
  rw [store_optionsOf_marks h, marks_eq h]
  exact congrArg (fun uri => { received p with proxyUri := uri, payload := [] }) h.proxyUri.symm

/-! ## The order of the options -/

/-- The options so far are in order and none has a number above `last`. -/
structure UpTo (opts : List (Nat × List UInt8)) (last : Nat) : Prop where
  ordered : Ordered 0 opts
  last : lastNumber 0 opts ≤ last

theorem accepted_written {number : Nat} (h : number ∈ writtenOptions) : Accepted number := by
  intro value p
  simp only [writtenOptions, List.mem_cons, List.not_mem_nil, or_false] at h
  rcases h with rfl | rfl | rfl | rfl | rfl | rfl | rfl | rfl | rfl | rfl | rfl | rfl | rfl | rfl |
    rfl | rfl
  case inr.inr.inr.inr.inr.inr.inr.inr.inr.inr.inr.inl =>
    show (if p.accept.length < 2 then _ else _ : Packet × Option (UInt8 × String)).2 = none
    split <;> rfl
  all_goals rfl

theorem ordered_values {current number : Nat} {values : List (List UInt8)}
    (hle : current ≤ number) (hknown : number ∈ writtenOptions) :
    Ordered current (values.map (number, ·)) := by
  have hsmall : ∀ n ∈ writtenOptions, n < 65536 + 269 := by decide
  induction values generalizing current with
  | nil => exact .nil current
  | cons value values ih =>
    exact .cons value hle (hsmall number hknown) (accepted_written hknown)
      (ih (Nat.le_refl number))

theorem UpTo.each {p : Packet} {opts : List (Nat × List UInt8)} {number : Nat} (last : Nat)
    (h : UpTo opts last) (values : List (List UInt8)) (hle : last ≤ number)
    (hknown : number ∈ writtenOptions) : UpTo (opts ++ Coap.each p number values) number := by
  have hlast := Nat.le_trans h.last hle
  unfold Coap.each
  split
  · refine ⟨ordered_append h.ordered (ordered_values hlast hknown), ?_⟩
    rw [lastNumber_append]
    cases values with
    | nil => exact hlast
    | cons value values =>
      rw [lastNumber_each _ number (List.cons_ne_nil value values)]
  · rw [List.append_nil]
    exact ⟨h.ordered, hlast⟩

theorem UpTo.single {p : Packet} {opts : List (Nat × List UInt8)} {number : Nat} (last : Nat)
    (h : UpTo opts last) (value : List UInt8) (hle : last ≤ number)
    (hknown : number ∈ writtenOptions) : UpTo (opts ++ Coap.single p number value) number :=
  UpTo.each last h [value] hle hknown

theorem ordered_optionsOf {p : Packet} (h : Canonical p) : Ordered 0 (optionsOf p) := by
  have hproxy : single p coapOptionProxyUri p.proxyUri = [] := by
    apply if_neg
    intro hmem
    exact absurd (h.known _ hmem) (by decide)
  have hnone : UpTo [] 0 := ⟨.nil 0, Nat.le_refl 0⟩
  unfold optionsOf
  rw [hproxy, List.append_nil]
  suffices hall : UpTo _ coapOptionSize from hall.ordered
  apply UpTo.single coapOptionBlock1 _ _ (by decide) (by decide)
  apply UpTo.single coapOptionBlock2 _ _ (by decide) (by decide)
  apply UpTo.single coapOptionLocationQuery _ _ (by decide) (by decide)
  apply UpTo.each coapOptionAccept _ _ (by decide) (by decide)
  apply UpTo.each coapOptionUriQuery _ _ (by decide) (by decide)
  apply UpTo.each coapOptionMaxAge _ _ (by decide) (by decide)
  apply UpTo.single coapOptionContentType _ _ (by decide) (by decide)
  apply UpTo.single coapOptionUriPath _ _ (by decide) (by decide)
  apply UpTo.each coapOptionLocationPath _ _ (by decide) (by decide)
  apply UpTo.each coapOptionUriPort _ _ (by decide) (by decide)
  apply UpTo.single coapOptionObserve _ _ (by decide) (by decide)
  apply UpTo.single coapOptionIfNoneMatch _ _ (by decide) (by decide)
  apply UpTo.single coapOptionEtag _ _ (by decide) (by decide)
  apply UpTo.single coapOptionUriHost _ _ (by decide) (by decide)
  apply UpTo.single coapOptionIfMatch _ _ (by decide) (by decide)
  exact UpTo.single 0 hnone p.ifMatch (by decide) (by decide)

/-! ## The whole message -/

def firstHeaderByte (type : MessageType) (tokenLen : Nat) : UInt8 :=
  ((0xC0 : UInt8) &&& (1 : UInt8) <<< 6) ||| ((0x30 : UInt8) &&& type.toUInt8 <<< 4) |||
    ((0x0F : UInt8) &&& UInt8.ofNat tokenLen)

theorem firstHeaderByte_fields (type : MessageType) {tokenLen : Nat} (h : tokenLen ≤ 8) :
    ((0xC0 : UInt8) &&& firstHeaderByte type tokenLen) >>> 6 = 1 ∧
      messageTypeOf (((0x30 : UInt8) &&& firstHeaderByte type tokenLen) >>> 4) = type ∧
      ((0x0F : UInt8) &&& firstHeaderByte type tokenLen).toNat = tokenLen := by
  have all : ∀ tokenLen < 9,
      ((0xC0 : UInt8) &&& firstHeaderByte type tokenLen) >>> 6 = 1 ∧
        messageTypeOf (((0x30 : UInt8) &&& firstHeaderByte type tokenLen) >>> 4) = type ∧
        ((0x0F : UInt8) &&& firstHeaderByte type tokenLen).toNat = tokenLen := by
    cases type <;> decide +kernel
  exact all tokenLen (by omega)

theorem mid_bytes (mid : UInt16) :
    ((mid >>> 8).toUInt8.toUInt16 <<< (8 : UInt16)) ||| mid.toUInt8.toUInt16 = mid := by
  have hmid : mid.toNat < 2 ^ 16 := mid.toNat_lt
  have hlow : mid.toUInt8.toUInt16.toNat = mid.toNat % 2 ^ 8 := by simp
  have hhigh : ((mid >>> 8).toUInt8.toUInt16 <<< (8 : UInt16)).toNat =
      2 ^ 8 * (mid.toNat / 2 ^ 8) := by
    simp [UInt16.toNat_shiftLeft, UInt16.toNat_shiftRight, Nat.shiftLeft_eq,
      Nat.shiftRight_eq_div_pow]
    omega
  apply UInt16.toNat_inj.mp
  rw [UInt16.toNat_or, hhigh, hlow, ← Nat.two_pow_add_eq_or_of_lt (Nat.mod_lt _ (by decide))]
  omega

theorem parseHeader_written {p : Packet} (rest : List UInt8) (h : p.token.length ≤ 8) :
    parseHeader (headerBytes p ++ rest) =
      .ok ({ version := 1, type := p.type, code := p.code, mid := p.mid }, p.token.length) := by
  obtain ⟨hversion, htype, htoken⟩ := firstHeaderByte_fields p.type h
  unfold parseHeader headerBytes
  rw [← firstHeaderByte]
  simp only [List.cons_append, List.nil_append, List.getElem?_cons_zero,
    List.getElem?_cons_succ, Lwm2mData.access_some, Lwm2mData.ok_bind, hversion, htype, htoken,
    mid_bytes]
  rw [show min coapTokenLen p.token.length = p.token.length from Nat.min_eq_right h]

/-- The token is behind the header, and its bit is set if there is one. -/
theorem parseMessage_begun {p : Packet} (h : Canonical p) (rest : List UInt8) (dataLen : Nat)
    (errorMessage : String) :
    coapParseMessage (headerBytes p ++ p.token ++ rest) dataLen errorMessage =
      parseOptions (headerBytes p ++ p.token ++ rest) dataLen errorMessage 0
        (headerBytes p ++ p.token).length (begun p) := by
  obtain ⟨hlen, hset⟩ := h.token
  have hslice := slice_behind (headerBytes p) p.token rest
  have hlength : (headerBytes p ++ p.token).length = coapHeaderLen + p.token.length := by
    rw [List.length_append]
    rfl
  rw [coapParseMessage, List.append_assoc, parseHeader_written (p.token ++ rest) hlen,
    Lwm2mData.ok_bind, hlength]
  simp only
  rw [if_neg (by decide)]
  cases htoken : p.token with
  | nil =>
    have hmem : coapOptionToken ∉ p.options := fun hmem => hset.mp hmem htoken
    rw [List.length_nil, if_pos rfl, begun, mark, if_neg hmem, htoken]
    rfl
  | cons b token =>
    have hmem : coapOptionToken ∈ p.options := hset.mpr (by simp [htoken])
    rw [htoken] at hslice
    rw [if_neg (by simp), show coapHeaderLen = (headerBytes p).length from rfl, hslice,
      Lwm2mData.ok_bind, begun, mark, if_pos hmem, htoken]
    rfl

def payloadBytes (p : Packet) : List UInt8 := if p.payload = [] then [] else 0xFF :: p.payload

theorem serializeMessage_bytes {p : Packet} (h : Canonical p) :
    (coapSerializeMessage p).1 =
      headerBytes p ++ p.token ++ (encodeOptions 0 (optionsOf p) ++ payloadBytes p) := by
  have hwrites := serializeOptions_writes h.locationPath.isSet.mp h.uriPath.isSet.mp
    h.uriQuery.isSet.mp
  rw [← hwrites.bytes, ← List.append_assoc]
  rfl

/-- What follows the options is the payload. -/
theorem parseOptions_payloadBytes (p q : Packet) (front beyond : List UInt8)
    (errorMessage : String) (number : Nat) (hq : q.payload = []) :
    parseOptions (front ++ (payloadBytes p ++ beyond)) (front.length + (payloadBytes p).length)
        errorMessage number front.length q =
      .ok ⟨noError, { q with payload := p.payload }, errorMessage⟩ := by
  unfold payloadBytes
  split
  · next hpayload =>
    rw [List.length_nil, Nat.add_zero, parseOptions_end, hpayload, ← hq]
  · exact parseOptions_payload errorMessage front p.payload beyond number q

theorem coapParseMessage_written {p : Packet} (h : Canonical p) (beyond : List UInt8)
    (errorMessage : String) (hlen : (coapSerializeMessage p).1.length < 2 ^ 16) :
    coapParseMessage ((coapSerializeMessage p).1 ++ beyond) (coapSerializeMessage p).1.length
        errorMessage = .ok ⟨noError, received p, errorMessage⟩ := by
  rw [serializeMessage_bytes h] at hlen ⊢
  have hvalues : ∀ opt ∈ optionsOf p, opt.2.length < 65536 + 269 := by
    intro opt hopt
    have hle := @length_le_encodeOptions 0 _ _ hopt
    simp only [List.length_append] at hlen
    omega
  have hfits : (headerBytes p ++ p.token).length + (encodeOptions 0 (optionsOf p)).length ≤
      (headerBytes p ++ p.token ++ (encodeOptions 0 (optionsOf p) ++ payloadBytes p)).length := by
    simp only [List.length_append]
    omega
  have hrun := parseOptions_encodeOptions errorMessage (optionsOf p) (headerBytes p ++ p.token)
    (payloadBytes p ++ beyond) 0 (begun p) (ordered_optionsOf h) hvalues hfits
  have hpayload := parseOptions_payloadBytes p { received p with payload := [] }
    (headerBytes p ++ p.token ++ encodeOptions 0 (optionsOf p)) beyond errorMessage
    (lastNumber 0 (optionsOf p)) rfl
  rw [store_optionsOf h] at hrun
  have hbegun := parseMessage_begun h (encodeOptions 0 (optionsOf p) ++ (payloadBytes p ++ beyond))
    (headerBytes p ++ p.token ++ (encodeOptions 0 (optionsOf p) ++ payloadBytes p)).length
    errorMessage
  simp only [List.append_assoc, List.length_append, Nat.add_assoc] at hrun hpayload hbegun ⊢
  rw [hbegun, hrun, hpayload]
  rfl

/-! ## Packets that are set up field by field -/

inductive Setter where
  | contentType (contentType : UInt32)
  | accept (accept : UInt16)
  | maxAge (age : UInt32)
  | etag (etag : List UInt8)
  | ifMatch (etag : List UInt8)
  | ifNoneMatch
  | token (token : List UInt8)
  | proxyUri (uri : List UInt8)
  | uriHost (host : List UInt8)
  | uriPath (path : List UInt8)
  | uriPathSegment (segment : List UInt8)
  | uriQuery (query : List UInt8)
  | locationPath (path : List UInt8)
  | locationQuery (query : List UInt8)
  | observe (observe : UInt32)
  | block2 (num : UInt32) (more : UInt8) (size : UInt16)
  | block1 (num : UInt32) (more : UInt8) (size : UInt16)
  | size (size : UInt32)
  | payload (payload : List UInt8)
  | statusCode (code : Nat)
deriving DecidableEq, Repr

def Setter.apply (p : Packet) : Setter → Packet
  | .contentType n => coapSetHeaderContentType p n
  | .accept n => coapSetHeaderAccept p n
  | .maxAge n => coapSetHeaderMaxAge p n
  | .etag bytes => coapSetHeaderEtag p bytes
  | .ifMatch bytes => coapSetHeaderIfMatch p bytes
  | .ifNoneMatch => coapSetHeaderIfNoneMatch p
  | .token bytes => coapSetHeaderToken p bytes
  | .proxyUri uri => coapSetHeaderProxyUri p uri
  | .uriHost host => coapSetHeaderUriHost p host
  | .uriPath path => coapSetHeaderUriPath p path
  | .uriPathSegment segment => coapSetHeaderUriPathSegment p segment
  | .uriQuery query => coapSetHeaderUriQuery p query
  | .locationPath path => coapSetHeaderLocationPath p path
  | .locationQuery query => coapSetHeaderLocationQuery p query
  | .observe n => coapSetHeaderObserve p n
  | .block2 num more width => coapSetHeaderBlock2 p num more width
  | .block1 num more width => coapSetHeaderBlock1 p num more width
  | .size n => coapSetHeaderSize p n
  | .payload bytes => coapSetPayload p bytes
  | .statusCode code => coapSetStatusCode p code

/-- The sizes of blocks that the three bits of the option can say. -/
def blockSizes : List UInt16 := (List.range 8).map fun k => UInt16.ofNat (16 * 2 ^ k)

/-- What a caller has to know: a token is not empty, a query neither begins nor ends with its
separator, a block has a size that can be written and is followed by more or is not. A message with
a Proxy-Uri is not taken. -/
def Setter.Valid : Setter → Prop
  | .proxyUri _ => False
  | .token bytes => bytes ≠ []
  | .locationQuery query =>
    (query.dropWhile (· = 63)).head? ≠ some 38 ∧ (query.dropWhile (· = 63)).getLast? ≠ some 38
  | .block2 _ _ width => width ∈ blockSizes
  | .block1 _ more width => width ∈ blockSizes ∧ (more = 0 ∨ more = 1)
  | _ => True

instance (s : Setter) : Decidable s.Valid := by
  cases s <;> unfold Setter.Valid <;> infer_instance

/-- The field of an option and its bit are the same in two packets. -/
def SameField (p q : Packet) (number : Nat) : Prop :=
  (number ∈ q.options ↔ number ∈ p.options) ∧
    match number with
    | 1 => q.ifMatch = p.ifMatch
    | 3 => q.uriHost = p.uriHost
    | 4 => q.etag = p.etag
    | 6 => q.observe = p.observe
    | 7 => q.uriPort = p.uriPort
    | 8 => q.locationPath = p.locationPath
    | 11 => q.uriPath = p.uriPath
    | 12 => q.contentType = p.contentType
    | 14 => q.maxAge = p.maxAge
    | 15 => q.uriQuery = p.uriQuery
    | 17 => q.accept = p.accept
    | 19 => q.token = p.token
    | 20 => q.locationQuery = p.locationQuery
    | 23 => q.block2 = p.block2
    | 27 => q.block1 = p.block1
    | 28 => q.size = p.size
    | _ => True

theorem Segments.same {p q : Packet} {number : Nat} {field : List (List UInt8)}
    (h : Segments p number field) (hbit : number ∈ q.options ↔ number ∈ p.options) :
    Segments q number field :=
  ⟨hbit.trans h.isSet, h.short⟩

theorem FieldOk.same {p q : Packet} {number : Nat} (h : FieldOk p number)
    (hsame : SameField p q number) : FieldOk q number := by
  obtain ⟨hbit, hfield⟩ := hsame
  unfold FieldOk at h ⊢
  split at h
  all_goals try simp only at hfield ⊢
  all_goals first
    | exact trivial
    | rw [hfield]
  all_goals first
    | exact h.same hbit
    | exact fun hset => h fun hp => hset (hbit.mpr hp)
    | exact ⟨h.1, fun hset => h.2 fun hp => hset (hbit.mpr hp)⟩
    | exact ⟨h.1, hbit.trans h.2⟩
    | exact ⟨h.1, h.2.1, fun hset => h.2.2 fun hp => hset (hbit.mpr hp)⟩
    | exact (if_congr hbit rfl rfl).mpr h

theorem setOption_known {number : Nat} (hnumber : number ∈ knownOptions) (p : Packet) :
    p.setOption number = { p with options := insert number p.options } := by
  unfold Packet.setOption
  rw [if_pos]
  have hall : ∀ n ∈ knownOptions, n ≤ 40 := by decide
  exact hall number hnumber

/-- A setter changes one field and sets its bit. -/
theorem Canonical.set {p : Packet} (h : Canonical p) (q : Packet) (number : Nat)
    (hfield : FieldOk (q.setOption number) number)
    (hnumber : number ∈ knownOptions := by decide)
    (hversion : q.version = p.version := by rfl)
    (hifNoneMatch : q.ifNoneMatch = p.ifNoneMatch := by rfl)
    (hproxyUri : q.proxyUri = p.proxyUri := by rfl)
    (hoptions : q.options = p.options := by rfl)
    (hsame : ∀ n, n ≠ number → SameField p q n := by
      intro n hn
      refine ⟨Iff.rfl, ?_⟩
      split <;> first | trivial | exact absurd rfl hn) :
    Canonical (q.setOption number) := by
  rw [setOption_known hnumber] at hfield ⊢
  refine ⟨hversion.trans h.version, hifNoneMatch.trans h.ifNoneMatch,
    hproxyUri.trans h.proxyUri, ?_, ?_⟩
  · intro n hn
    rcases Finset.mem_insert.mp hn with rfl | hn
    · exact hnumber
    · exact h.known n (hoptions ▸ hn)
  · intro n
    by_cases heq : n = number
    · rw [heq]
      exact hfield
    · refine (h.field n).same ⟨?_, (hsame n heq).2⟩
      rw [Finset.mem_insert, hoptions]
      exact ⟨fun hn => hn.resolve_left heq, .inr⟩

theorem segmentsFrom_ne_nil (separator : UInt8) (segment text : List UInt8) :
    segmentsFrom separator segment text ≠ [] := by
  induction text generalizing segment with
  | nil => simp [segmentsFrom]
  | cons c rest ih =>
    rw [segmentsFrom]
    split
    · simp
    · exact ih _

theorem multiOption_length (option : List UInt8) : (multiOption option).length < 256 := by
  rw [multiOption, List.length_take]
  have := Nat.mod_lt option.length (show 256 > 0 by decide)
  omega

theorem segments_short (front separator : UInt8) (text : List UInt8) :
    ∀ data ∈ segments front separator text, data.length < 256 := by
  intro data hdata
  obtain ⟨segment, -, rfl⟩ := List.mem_map.mp hdata
  exact multiOption_length segment

theorem segments_ne_nil (front separator : UInt8) (text : List UInt8) :
    segments front separator text ≠ [] := by
  unfold segments
  rw [ne_eq, List.map_eq_nil_iff]
  exact segmentsFrom_ne_nil separator [] _

/-- What a setter of a whole path or query leaves. -/
theorem Segments.of_segments {p : Packet} {number : Nat} (hbit : number ∈ p.options)
    (front separator : UInt8) (text : List UInt8) :
    Segments p number (segments front separator text) :=
  ⟨⟨fun _ => segments_ne_nil front separator text, fun _ => hbit⟩,
    segments_short front separator text⟩

theorem mem_setOption {number : Nat} (p : Packet)
    (hnumber : number ∈ knownOptions := by decide) : number ∈ (p.setOption number).options := by
  rw [setOption_known hnumber]
  exact Finset.mem_insert_self number p.options

theorem Canonical.init (type : MessageType) (code : UInt8) (mid : UInt16) :
    Canonical (coapInitMessage type code mid) := by
  refine ⟨rfl, rfl, rfl, ?_, ?_⟩
  · intro number hnumber
    exact absurd hnumber (Finset.notMem_empty number)
  · intro number
    unfold FieldOk
    split
    all_goals first
      | exact trivial
      | exact fun _ => rfl
      | exact ⟨by simp [coapInitMessage], by simp [coapInitMessage]⟩
      | rfl

/-- The code and the payload are no options. -/
theorem Canonical.setBody {p : Packet} (h : Canonical p) (code : UInt8) (payload : List UInt8) :
    Canonical { p with code := code, payload := payload } := by
  refine ⟨h.version, h.ifNoneMatch, h.proxyUri, h.known, fun n => ?_⟩
  refine (h.field n).same ⟨Iff.rfl, ?_⟩
  split <;> trivial

theorem Block.valid_of_size {b : Block} (hnum : ¬ 0x0FFFFF < b.num)
    (hmore : b.more = 0 ∨ b.more = 1) (hsize : b.size ∈ blockSizes) : b.Valid := by
  obtain ⟨k, hk, heq⟩ := List.mem_map.mp hsize
  exact ⟨UInt32.not_lt.mp hnum, hmore, k, List.mem_range.mp hk, heq.symm⟩

theorem Canonical.apply {p : Packet} (h : Canonical p) {s : Setter} (hs : s.Valid) :
    Canonical (s.apply p) := by
  cases s with
  | contentType n =>
    refine h.set { p with contentType := n } 12 fun hset => ?_
    exact absurd (mem_setOption _) hset
  | accept n =>
    unfold Setter.apply coapSetHeaderAccept
    dsimp only
    split
    · next hlen =>
      refine h.set { p with accept := p.accept ++ [n] } 17 ⟨?_, ?_⟩
      · show (p.accept ++ [n]).length ≤ 2
        rw [List.length_append]
        exact hlen
      · exact ⟨fun _ => by simp [Packet.setOption], fun _ => mem_setOption _⟩
    · exact h
  | maxAge n =>
    refine h.set { p with maxAge := n } 14 fun hset => ?_
    exact absurd (mem_setOption _) hset
  | etag bytes =>
    refine h.set { p with etag := bytes.take 8 } 4 ⟨?_, fun hset => ?_⟩
    · exact List.length_take_le 8 bytes
    · exact absurd (mem_setOption _) hset
  | ifMatch bytes =>
    refine h.set { p with ifMatch := bytes.take 8 } 1 ⟨?_, fun hset => ?_⟩
    · exact List.length_take_le 8 bytes
    · exact absurd (mem_setOption _) hset
  | ifNoneMatch => exact h.set p 5 trivial
  | token bytes =>
    refine h.set { p with token := bytes.take 8 } 19 ⟨?_, ?_⟩
    · exact List.length_take_le 8 bytes
    · refine ⟨fun _ => ?_, fun _ => mem_setOption _⟩
      show bytes.take 8 ≠ []
      rw [ne_eq, List.take_eq_nil_iff]
      exact fun hnil => hnil.elim (by decide) hs
  | proxyUri uri => exact absurd hs id
  | uriHost host =>
    refine h.set { p with uriHost := host } 3 fun hset => ?_
    exact absurd (mem_setOption _) hset
  | uriPath path =>
    refine h.set { p with uriPath := segments 47 47 path } 11 ?_
    exact .of_segments (mem_setOption _) 47 47 path
  | uriPathSegment segment =>
    refine h.set { p with uriPath := p.uriPath ++ [multiOption segment] } 11 ⟨?_, ?_⟩
    · exact ⟨fun _ => by simp [Packet.setOption], fun _ => mem_setOption _⟩
    · intro data hdata
      rcases List.mem_append.mp hdata with hdata | hdata
      · exact h.uriPath.short data hdata
      · rw [List.mem_singleton.mp hdata]
        exact multiOption_length segment
  | uriQuery query =>
    refine h.set { p with uriQuery := segments 63 38 query } 15 ?_
    exact .of_segments (mem_setOption _) 63 38 query
  | locationPath path =>
    refine h.set { p with locationPath := segments 47 47 path } 8 ?_
    exact .of_segments (mem_setOption _) 47 47 path
  | locationQuery query =>
    refine h.set { p with locationQuery := query.dropWhile (· = 63) } 20
      ⟨hs.1, hs.2, fun hset => ?_⟩
    exact absurd (mem_setOption _) hset
  | observe n =>
    refine h.set { p with observe := 0x00FFFFFF &&& n } 6 fun hset => ?_
    exact absurd (mem_setOption _) hset
  | block2 num more width =>
    unfold Setter.apply coapSetHeaderBlock2
    dsimp only
    split
    · exact h
    split
    · exact h
    split
    · exact h
    next hnum =>
    refine h.set { p with
      block2 := { p.block2 with
        num := num
        more := if more ≠ 0 then 1 else 0
        size := width } } 23 ?_
    refine (if_pos (mem_setOption _)).mpr (Block.valid_of_size hnum ?_ hs)
    show (if more ≠ 0 then 1 else 0) = 0 ∨ (if more ≠ 0 then 1 else 0) = 1
    split
    · exact .inr rfl
    · exact .inl rfl
  | block1 num more width =>
    unfold Setter.apply coapSetHeaderBlock1
    dsimp only
    split_ifs with hsmall hlarge hnum
    · exact h
    · exact h
    · exact h
    · refine h.set { p with
        block1 := { p.block1 with
          num := num
          more := more
          size := width } } 27 ?_
      exact (if_pos (mem_setOption _)).mpr (Block.valid_of_size hnum hs.2 hs.1)
  | size n =>
    refine h.set { p with size := n } 28 fun hset => ?_
    exact absurd (mem_setOption _) hset
  | payload bytes => exact h.setBody p.code (bytes.take (bytes.length % 2 ^ 16))
  | statusCode code =>
    unfold Setter.apply coapSetStatusCode
    dsimp only
    split
    · exact h.setBody (UInt8.ofNat code) p.payload
    · exact h

/-- A message that was begun and set up with the setters. -/
def setUp (type : MessageType) (code : UInt8) (mid : UInt16) (setters : List Setter) : Packet :=
  setters.foldl Setter.apply (coapInitMessage type code mid)

theorem Canonical.foldl {p : Packet} (h : Canonical p) (setters : List Setter)
    (hsetters : ∀ s ∈ setters, s.Valid) : Canonical (setters.foldl Setter.apply p) := by
  induction setters generalizing p with
  | nil => exact h
  | cons s setters ih =>
    exact ih (h.apply (hsetters s List.mem_cons_self))
      fun s hs => hsetters s (List.mem_cons_of_mem _ hs)

/-- Whatever setters were called, what is written is read with every field, whatever bytes lie
behind the datagram; what the writer drops of the packet is gone on this side only. -/
theorem coapParseMessage_setUp (type : MessageType) (code : UInt8) (mid : UInt16)
    (setters : List Setter) (beyond : List UInt8) (errorMessage : String)
    (hsetters : ∀ s ∈ setters, s.Valid)
    (hlen : (coapSerializeMessage (setUp type code mid setters)).1.length < 2 ^ 16) :
    coapParseMessage ((coapSerializeMessage (setUp type code mid setters)).1 ++ beyond)
        (coapSerializeMessage (setUp type code mid setters)).1.length errorMessage =
      .ok ⟨noError, received (setUp type code mid setters), errorMessage⟩ :=
  coapParseMessage_written ((Canonical.init type code mid).foldl setters hsetters) beyond
    errorMessage hlen

def registerUpdate : List Setter :=
  [.token [1, 2, 3, 4], .uriPath [47, 114, 100, 47, 49], .uriQuery [63, 108, 116, 61, 54, 48],
    .contentType 40, .block1 3 1 512, .payload [60, 47, 62]]

theorem coapParseMessage_registerUpdate :
    coapParseMessage ((coapSerializeMessage (setUp .con 2 7 registerUpdate)).1 ++ [0xD0, 0xFF])
        (coapSerializeMessage (setUp .con 2 7 registerUpdate)).1.length "" =
      .ok ⟨noError, received (setUp .con 2 7 registerUpdate), ""⟩ :=
  coapParseMessage_setUp .con 2 7 registerUpdate [0xD0, 0xFF] "" (by decide +kernel)
    (by decide +kernel)

end JsEmbeddedPlatform.Coap
