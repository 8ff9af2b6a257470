import JsEmbeddedPlatform.PathRoundTrip
import JsEmbeddedPlatform.RegistrationClient

/-!
# The options of a registration

The query of a registration becomes one option for each of its parts, and an update goes to the
location that the reply to the registration named.
-/

set_option autoImplicit false

namespace JsEmbeddedPlatform.Registration

open CString (ascii)
open Coap (Packet segmentsFrom segments multiOption multiOption_short coapSetHeaderUriPath
  coapSetHeaderUriQuery)

theorem segmentsFrom_skip {separator : UInt8} {part : List UInt8} (h : separator ∉ part)
    (segment text : List UInt8) :
    segmentsFrom separator segment (part ++ text) =
      segmentsFrom separator (segment ++ part) text := by
  induction part generalizing segment with
  | nil => rw [List.nil_append, List.append_nil]
  | cons c part ih =>
    have hc : c ≠ separator := by
      rintro rfl
      exact h List.mem_cons_self
    rw [List.cons_append, segmentsFrom, if_neg hc, ih (fun hmem => h (List.mem_cons_of_mem c hmem)),
      List.append_assoc, List.singleton_append]

/-- Parts with the separator in front of each but the first are taken apart again. -/
theorem segmentsFrom_parts {separator : UInt8} {part : List UInt8} {parts : List (List UInt8)}
    (hpart : separator ∉ part) (hparts : ∀ p ∈ parts, separator ∉ p ∧ p ≠ []) :
    segmentsFrom separator [] (part ++ parts.flatMap fun p => separator :: p) = part :: parts := by
  induction parts generalizing part with
  | nil =>
    rw [List.flatMap_nil, segmentsFrom_skip hpart, List.nil_append]
    rfl
  | cons next parts ih =>
    obtain ⟨hnext, hne⟩ := hparts next List.mem_cons_self
    have hrest : next ++ parts.flatMap (fun p => separator :: p) ≠ [] :=
      fun hnil => hne (List.append_eq_nil_iff.mp hnil).1
    rw [List.flatMap_cons, segmentsFrom_skip hpart, List.nil_append, List.cons_append,
      segmentsFrom, if_pos rfl, if_neg hrest,
      ih hnext fun p hp => hparts p (List.mem_cons_of_mem next hp)]

theorem segments_parts {front separator : UInt8} {part : List UInt8}
    {parts : List (List UInt8)}
    (h : ∀ p ∈ part :: parts, separator ∉ p ∧ p ≠ [] ∧ p.length < 256) :
    segments front separator (front :: (part ++ parts.flatMap fun p => separator :: p)) =
      part :: parts := by
  have hshort : (part :: parts).map multiOption = part :: parts := by
    refine (List.map_congr_left ?_).trans (List.map_id _)
    intro p hp
    exact multiOption_short (h p hp).2.2
  unfold segments
  rw [List.head?_cons, if_pos rfl, List.tail_cons,
    segmentsFrom_parts (h part List.mem_cons_self).1 (fun p hp =>
      ⟨(h p (List.mem_cons_of_mem part hp)).1, (h p (List.mem_cons_of_mem part hp)).2.1⟩),
    hshort]

theorem uriPath_setUriPath (message : Packet) (path : List UInt8) :
    (coapSetHeaderUriPath message path).uriPath = segments 47 47 path := by
  unfold coapSetHeaderUriPath
  rw [Paths.setOption_uriPath]

theorem uriQuery_setUriQuery (message : Packet) (query : List UInt8) :
    (coapSetHeaderUriQuery message query).uriQuery = segments 63 38 query := by
  unfold coapSetHeaderUriQuery Packet.setOption
  split
  · rfl
  · rfl

/-! ## The location -/

/-- Names of a path that a C string holds and that can be taken apart again. -/
def PathNames (names : List (List UInt8)) : Prop :=
  ∀ name ∈ names, (0 : UInt8) ∉ name ∧ (47 : UInt8) ∉ name ∧ name ≠ [] ∧ name.length < 256

instance (names : List (List UInt8)) : Decidable (PathNames names) :=
  inferInstanceAs (Decidable (∀ name ∈ names, (0 : UInt8) ∉ name ∧ _ ∧ _ ∧ _))

/-- A server that is registered has its updates and its deregistration sent to the very
Location-Path of the reply, where there is memory for it. -/
theorem update_goes_to_location {Peer : Type} (tvSec : Int) {server : Server Peer}
    (hpending : server.status = .regPending) {packet : Packet} (hcode : packet.code = created201)
    (hnames : PathNames packet.locationPath) (hne : packet.locationPath ≠ []) (message : Packet) :
    ∃ location,
      (prvHandleRegistrationReply tvSec true server (some packet)).status = .registered ∧
      (prvHandleRegistrationReply tvSec true server (some packet)).location = some location ∧
      (coapSetHeaderUriPath message location).uriPath = packet.locationPath := by
  refine ⟨packet.locationPath.flatMap fun o => 47 :: o, ?_, ?_, ?_⟩
  · unfold prvHandleRegistrationReply
    rw [if_pos hpending]
    dsimp only
    rw [if_pos hcode]
  · unfold prvHandleRegistrationReply
    rw [if_pos hpending]
    dsimp only
    rw [if_pos hcode]
    rfl
  · cases hpath : packet.locationPath with
    | nil => exact absurd hpath hne
    | cons name names =>
      rw [hpath] at hnames
      rw [uriPath_setUriPath, List.flatMap_cons, List.cons_append]
      exact segments_parts fun p hp => (hnames p hp).2

def locationReply : Packet :=
  Coap.coapSetHeaderLocationPath (Coap.coapInitMessage .ack created201 1) (ascii "/rd/5")

theorem update_goes_to_location_rd : ∃ location,
    (prvHandleRegistrationReply 100 true
      (⟨0, 1, 300, 0, .u, some 7, .regPending, none⟩ : Server Nat) (some locationReply)).status =
        .registered ∧
    (prvHandleRegistrationReply 100 true
      (⟨0, 1, 300, 0, .u, some 7, .regPending, none⟩ : Server Nat) (some locationReply)).location =
        some location ∧
    (coapSetHeaderUriPath (Coap.coapInitMessage .con coapPost 2) location).uriPath =
      [ascii "rd", ascii "5"] :=
  update_goes_to_location 100 rfl rfl (by decide) (by decide)
    (Coap.coapInitMessage .con coapPost 2)

/-! ## The query -/

/-- The parts of the query of a registration. -/
def queryParts (c : Registrant) (binding : List UInt8) (lifetime : Nat) : List (List UInt8) :=
  [ascii "lwm2m=1.0", ascii "ep=" ++ c.endpointName] ++
    (c.msisdn.map fun msisdn => ascii "sms=" ++ msisdn).toList ++ [binding.tail] ++
    if lifetime ≠ 0 then [ascii "lt=" ++ Decimal.text lifetime] else []

theorem queryText_parts (c : Registrant) {binding : Binding} {b : List UInt8}
    (hb : bindingQuery binding = some b) (lifetime : Nat) :
    c.queryText b lifetime =
      63 :: (ascii "lwm2m=1.0" ++ (queryParts c b lifetime).tail.flatMap fun p => 38 :: p) := by
  have hfront : queryFront = 63 :: (ascii "lwm2m=1.0" ++ 38 :: ascii "ep=") := by decide
  have hsms : querySms = 38 :: ascii "sms=" := by decide
  have hlifetime : queryLifetime = 38 :: ascii "lt=" := by decide
  have hbinding : b = 38 :: b.tail := by
    cases binding <;> cases hb <;> decide
  unfold Registrant.queryText Registrant.smsPart lifetimePart queryParts
  rw [hfront, hsms, hlifetime]
  nth_rewrite 1 [hbinding]
  cases c.msisdn <;> by_cases hzero : lifetime = 0 <;> simp [hzero]

/-- A name or a number that does not break the query and fits an option with its key. -/
def QueryValue (value : List UInt8) : Prop := (38 : UInt8) ∉ value ∧ value.length ≤ 250

instance (value : List UInt8) : Decidable (QueryValue value) :=
  inferInstanceAs (Decidable ((38 : UInt8) ∉ value ∧ value.length ≤ 250))

theorem QueryValue.keyed {value : List UInt8} (h : QueryValue value) {key : List UInt8}
    (hkey : (38 : UInt8) ∉ key ∧ key ≠ [] ∧ key.length ≤ 4) :
    (38 : UInt8) ∉ key ++ value ∧ key ++ value ≠ [] ∧ (key ++ value).length < 256 := by
  obtain ⟨hsplit, hne, hlen⟩ := hkey
  obtain ⟨hvalue, hshort⟩ := h
  refine ⟨?_, ?_, ?_⟩
  · intro hmem
    rcases List.mem_append.mp hmem with hmem | hmem
    · exact hsplit hmem
    · exact hvalue hmem
  · exact fun hnil => hne (List.append_eq_nil_iff.mp hnil).1
  · rw [List.length_append]
    omega

theorem queryValue_text {n : Nat} (h : n < 2 ^ 63) : QueryValue (Decimal.text n) := by
  have hdigits : (Decimal.text n).length ≤ 250 := by
    rw [Decimal.length_text_le_iff (by decide)]
    exact Nat.lt_trans h (by decide)
  refine ⟨?_, hdigits⟩
  intro hmem
  exact absurd (Decimal.isDigit_text hmem) (by decide)

theorem queryParts_fit (c : Registrant) {binding : Binding} {b : List UInt8}
    (hb : bindingQuery binding = some b) {lifetime : Nat} (hlifetime : lifetime < 2 ^ 63)
    (hname : QueryValue c.endpointName) (hmsisdn : ∀ m ∈ c.msisdn, QueryValue m) :
    ∀ p ∈ queryParts c b lifetime, (38 : UInt8) ∉ p ∧ p ≠ [] ∧ p.length < 256 := by
  intro p hp
  unfold queryParts at hp
  rcases List.mem_append.mp hp with hp | hp
  · rcases List.mem_append.mp hp with hp | hp
    · rcases List.mem_append.mp hp with hp | hp
      · rcases List.mem_cons.mp hp with rfl | hp
        · decide
        · cases List.mem_singleton.mp hp
          exact hname.keyed (by decide)
      · obtain ⟨m, hm, rfl⟩ := Option.map_eq_some_iff.mp (Option.mem_toList.mp hp)
        exact (hmsisdn m hm).keyed (by decide)
    · cases List.mem_singleton.mp hp
      cases binding <;> cases hb <;> decide
  · split at hp
    · cases List.mem_singleton.mp hp
      exact (queryValue_text hlifetime).keyed (by decide)
    · cases hp

/-- The query of a registration is made whenever its memory is there, and the request carries each
part of it in an option of its own: version, endpoint name, number, binding and lifetime. -/
theorem registrationQuery_options {Peer : Type} (c : Registrant) (server : Server Peer)
    {b : List UInt8} (hb : bindingQuery server.binding = some b) {lifetime : Nat}
    (hserver : server.lifetime = lifetime) (hlifetime : lifetime < 2 ^ 63)
    (hname : QueryValue c.endpointName) (hmsisdn : ∀ m ∈ c.msisdn, QueryValue m)
    (message : Packet) :
    ∃ query, registrationQuery c server true = some query ∧
      (coapSetHeaderUriQuery message query).uriQuery = queryParts c b lifetime := by
  obtain ⟨length, hlength, hquery, hfits⟩ := registrationQuery_fits c hb hlifetime
  have hwhole : (c.queryText b lifetime ++ [0]).length = length := by
    rw [List.length_append, List.length_singleton]
    exact hfits
  refine ⟨c.queryText b lifetime, ?_, ?_⟩
  · unfold registrationQuery
    rw [hserver, hlength]
    dsimp only
    rw [if_pos rfl, hquery]
    dsimp only
    rw [if_pos hwhole, List.dropLast_concat]
  · have hparts : queryParts c b lifetime =
        ascii "lwm2m=1.0" :: (queryParts c b lifetime).tail := rfl
    have hall := queryParts_fit c hb hlifetime hname hmsisdn
    rw [hparts] at hall
    rw [uriQuery_setUriQuery, queryText_parts c hb, segments_parts hall, ← hparts]

theorem registrationQuery_options_node : ∃ query,
    registrationQuery ⟨ascii "node", some (ascii "5551234"), none, []⟩
        (⟨0, 1, 300, 0, .uq, none, .deregistered, none⟩ : Server Nat) true = some query ∧
      (coapSetHeaderUriQuery (Coap.coapInitMessage .con coapPost 1) query).uriQuery =
        [ascii "lwm2m=1.0", ascii "ep=node", ascii "sms=5551234", ascii "b=UQ",
          ascii "lt=" ++ Decimal.text 300] :=
  registrationQuery_options ⟨ascii "node", some (ascii "5551234"), none, []⟩
    (⟨0, 1, 300, 0, .uq, none, .deregistered, none⟩ : Server Nat) rfl rfl (by decide) (by decide)
    (by decide) (Coap.coapInitMessage .con coapPost 1)

end JsEmbeddedPlatform.Registration
