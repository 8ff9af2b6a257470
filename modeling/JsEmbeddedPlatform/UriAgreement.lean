import JsEmbeddedPlatform.Downloader
import JsEmbeddedPlatform.ObjectFirmware

/-!
# The two readings of a package URI

A write of Package URI is tested on the bytes that it came in, which end where they
like; the downloader reads the copy in `pkg_uri`, which has a NUL behind it. The host and
the port that a URI writes are stated without `sscanf`, and compared with what each of
the two gets.
-/

set_option autoImplicit false

namespace JsEmbeddedPlatform.UriAgreement

open Timers (Port)
open PackageUri
open InetAddr (inetAddr dottedQuad inetAddr_dottedQuad)
open ObjectFirmware (Device DataType Data prvFirmwareWrite writePackageUri coap204Changed
  coap406NotAcceptable resMPackageUri)
open Downloader (Event FirmwarePlatform firmwareDownloaderErrBadUri)

def writtenHost (uri : List UInt8) : List UInt8 :=
  (uri.drop uriProtocol.length).takeWhile (· ≠ 58)

/-- The bytes behind the colon that ends the host. -/
def writtenNumber (uri : List UInt8) : List UInt8 :=
  ((uri.drop uriProtocol.length).dropWhile (· ≠ 58)).tail

/-- Blanks may come before a number. -/
def numeral (uri : List UInt8) : List UInt8 := (writtenNumber uri).dropWhile isSpace

def digits (number : List UInt8) : List UInt8 := (sign number).2.takeWhile isDigit

def writtenPort (uri : List UInt8) : Option Int :=
  if digits (numeral uri) = [] then none
  else some ((sign (numeral uri)).1 * decimal (digits (numeral uri)))

/-! ## Agreement -/

/-- What `firmware_downloader_start` does with the text in `pkg_uri`, whatever the calls of the
system return: it connects to the address that the host writes. -/
def Downloads (port : Port) (pkgUri host : List UInt8) (number : Option Int) : Prop :=
  ∀ (σ : Type) (P : FirmwarePlatform σ) (outcome : Nat → Bool) (heap : List UInt8) (store : σ),
    (Downloader.start port P outcome pkgUri heap store).phase ≠ .overrun ∧
    (Downloader.start port P outcome pkgUri heap store).phase ≠
      .returned firmwareDownloaderErrBadUri ∧
    (outcome 2 = true → ∃ a p ok,
      Event.connect a p ok ∈ (Downloader.start port P outcome pkgUri heap store).trace) ∧
    ∀ a p ok, Event.connect a p ok ∈ (Downloader.start port P outcome pkgUri heap store).trace →
      dottedQuad host = some a ∧ number = some p ∧ 1 ≤ p ∧ p ≤ 65535

/-- A write of the bytes `uri`, behind which memory goes on with `beyond`. -/
def written (type : DataType) (uri beyond : List UInt8) : Data :=
  ⟨resMPackageUri, type, uri.length, uri ++ beyond⟩

def ParsersAgree (port : Port) (type : DataType) (uri beyond : List UInt8) (s : Device) : Prop :=
  ∃ code t, prvFirmwareWrite port 0 [(written type uri beyond, true)] s = some (code, t) ∧
    (code = coap204Changed → Downloads port (CString.text t.data.pkgUri)
      (writtenHost (CString.text uri)) (writtenPort (CString.text uri))) ∧
    (code ≠ coap204Changed →
      t.data.pkgUri = s.data.pkgUri ∧ t.downloaderTask = s.downloaderTask)

/-! ## When it holds -/

/-- A host and behind a colon a number that `%99d` reads as other than 0. -/
def HasNumber (port : Port) (text : List UInt8) : Prop :=
  ∃ host number v, text = uriProtocol ++ (host ++ 58 :: number) ∧ host ≠ [] ∧ 58 ∉ host ∧
    scanDecimal port number = some v ∧ v ≠ 0

/-- The port is one of TCP, and the 99 characters of `%99d` hold all its digits. -/
def WritesPort (uri : List UInt8) : Prop :=
  (∃ p, writtenPort uri = some p ∧ 1 ≤ p ∧ p ≤ 65535) ∧
    digits ((numeral uri).take 99) = digits (numeral uri)

/-- Four decimal numbers, and no name. -/
def WritesAddress (uri : List UInt8) : Prop := ∃ a, dottedQuad (writtenHost uri) = some a

/-- What is read from the buffer on ends somewhere, its host fits `ip`, and with a number in it
the URI itself writes an address and a port. -/
def Plain (port : Port) (uri beyond : List UInt8) : Prop :=
  0 ∈ uri ++ beyond ∧
    (uriProtocol <+: CString.text (uri ++ beyond) →
      (writtenHost (CString.text (uri ++ beyond))).length < 20) ∧
    (HasNumber port (CString.text (uri ++ beyond)) →
      WritesPort (CString.text uri) ∧ WritesAddress (CString.text uri))

/-! ## What is read -/

section Reading
variable {port : Port} {uri text beyond : List UInt8}

theorem dropWhile_colon (t : List UInt8) :
    t.dropWhile (· ≠ 58) = [] ∨ t.dropWhile (· ≠ 58) = 58 :: (t.dropWhile (· ≠ 58)).tail := by
  cases hdrop : t.dropWhile (· ≠ 58) with
  | nil => exact Or.inl rfl
  | cons c rest =>
    have hnot := List.head?_dropWhile_not (· ≠ 58) t
    rw [hdrop] at hnot
    right
    have hc : c = 58 := by simpa using hnot
    rw [hc]
    rfl

theorem takeWhile_colon {host number : List UInt8} (h : 58 ∉ host) :
    (host ++ 58 :: number).takeWhile (· ≠ 58) = host := by
  rw [List.takeWhile_append_of_pos]
  · simp
  · intro c hc
    have : c ≠ 58 := fun heq => h (heq ▸ hc)
    simpa using this

theorem scanHost_eq (t : List UInt8) : scanHost t = (t.takeWhile (· ≠ 58)).take 99 :=
  List.take_takeWhile.symm

theorem scanHost_length_lt (t : List UInt8) :
    (scanHost t).length < 20 ↔ (t.takeWhile (· ≠ 58)).length < 20 := by
  rw [scanHost_eq, List.length_take]
  omega

theorem sscanf_ip (hfirm : uriProtocol <+: uri) :
    (sscanf port uri).ip = scanHost (uri.drop uriProtocol.length) := by
  unfold sscanf scanText
  rw [if_pos (List.isPrefixOf_iff_prefix.mpr hfirm)]
  split
  · next h => exact h.symm
  · exact scanPort_ip ..

/-- Without a number behind the colon, or without the colon, the port stays 0. -/
theorem sscanf_eq (hfirm : uriProtocol <+: uri) (hhost : writtenHost uri ≠ [])
    (hshort : (writtenHost uri).length < 20) :
    sscanf port uri = ⟨writtenHost uri, (scanDecimal port (writtenNumber uri)).getD 0⟩ := by
  have hscan : scanHost (uri.drop uriProtocol.length) = writtenHost uri := by
    rw [scanHost_eq]
    exact List.take_of_length_le (by unfold writtenHost at hshort; omega)
  have hdrop : (uri.drop uriProtocol.length).drop (writtenHost uri).length =
      (uri.drop uriProtocol.length).dropWhile (· ≠ 58) := by
    conv_lhs => rw [← List.takeWhile_append_dropWhile (p := (· ≠ 58))
      (l := uri.drop uriProtocol.length)]
    exact List.drop_left
  unfold sscanf scanText
  rw [if_pos (List.isPrefixOf_iff_prefix.mpr hfirm), hscan, if_neg hhost, hdrop]
  unfold writtenNumber
  rcases dropWhile_colon (uri.drop uriProtocol.length) with hnil | hcons
  · rw [hnil]
    rfl
  · rw [hcons]
    rfl

theorem sign_take (t : List UInt8) (n : Nat) :
    (sign (t.take (n + 1))).1 = (sign t).1 ∧ (sign (t.take (n + 1))).2 <+: (sign t).2 := by
  cases t with
  | nil => exact ⟨rfl, List.prefix_rfl⟩
  | cons c t =>
    rw [List.take_succ_cons]
    unfold sign
    simp only
    split
    · exact ⟨rfl, List.take_prefix n t⟩
    · split
      · exact ⟨rfl, List.take_prefix n t⟩
      · exact ⟨rfl, (List.prefix_cons_inj c).mpr (List.take_prefix n t)⟩

theorem sign_fst (t : List UInt8) : (sign t).1 = 1 ∨ (sign t).1 = -1 := by
  cases t with
  | nil => exact Or.inl rfl
  | cons c t =>
    unfold sign
    simp only
    split
    · exact Or.inr rfl
    · split <;> exact Or.inl rfl

theorem digits_take_isPrefix (t : List UInt8) (n : Nat) : digits (t.take (n + 1)) <+: digits t := by
  have htake := List.prefix_iff_eq_take.mp (sign_take t n).2
  unfold digits
  rw [htake, ← List.take_takeWhile]
  exact List.take_prefix _ _

theorem decimal_append (a b : List UInt8) : 10 ^ b.length * decimal a ≤ decimal (a ++ b) := by
  unfold decimal
  rw [List.foldl_append]
  generalize a.foldl _ 0 = n
  induction b generalizing n with
  | nil => simp
  | cons d b ih =>
    rw [List.length_cons, Nat.pow_succ, Nat.mul_assoc]
    have hmore : 10 * n ≤ 10 * n + (d.toNat - 48) := Nat.le_add_right _ _
    exact (Nat.mul_le_mul_left _ hmore).trans (ih _)

theorem decimal_lt {a c : List UInt8} (h : a <+: c) (hne : a ≠ c) :
    10 * decimal a ≤ decimal c := by
  obtain ⟨b, rfl⟩ := h
  cases b with
  | nil => exact absurd (List.append_nil a).symm hne
  | cons d b =>
    have hpow : 10 ≤ 10 ^ (d :: b).length := Nat.le_self_pow (by simp) 10
    exact (Nat.mul_le_mul_right _ hpow).trans (decimal_append a (d :: b))

/-- `%99d`, in terms of the digits that are written. -/
theorem scanDecimal_eq (number : List UInt8) :
    scanDecimal port number =
      if digits ((number.dropWhile isSpace).take 99) = [] then none
      else some (toInt (toLong port ((sign (number.dropWhile isSpace)).1 *
        decimal (digits ((number.dropWhile isSpace).take 99))))) := by
  unfold scanDecimal digits
  rw [← (sign_take (number.dropWhile isSpace) 98).1]

theorem toInt_toLong {p : Int} (hlow : 0 ≤ p) (hhigh : p ≤ 65535) :
    toInt (toLong port p) = p := by
  unfold toInt toLong
  cases port <;> simp only [longMax] <;> omega

/-- What is read of a port that the URI writes. -/
theorem scanDecimal_written (h : WritesPort uri) :
    scanDecimal port (writtenNumber uri) = writtenPort uri := by
  obtain ⟨⟨p, hp, hlow, hhigh⟩, hwide⟩ := h
  unfold writtenPort at hp ⊢
  rw [scanDecimal_eq, ← numeral, hwide]
  split at hp
  · cases hp
  · next hdigits =>
    rw [if_neg hdigits, if_neg hdigits]
    cases hp
    rw [toInt_toLong (by omega) hhigh]

/-- When the low sixteen bits of what is read are the port that the URI writes, no digit was cut
off. -/
theorem written_of_scanDecimal {v p : Int} (hread : scanDecimal port (writtenNumber uri) = some v)
    (hp : writtenPort uri = some p) (heq : v % 65536 = p) (hlow : 1 ≤ p) : WritesPort uri := by
  have hhigh : p ≤ 65535 := by omega
  refine ⟨⟨p, hp, hlow, hhigh⟩, ?_⟩
  unfold writtenPort at hp
  rw [scanDecimal_eq, ← numeral] at hread
  split at hp
  · cases hp
  · split at hread
    · cases hread
    · by_contra hcut
      have hless : 10 * decimal (digits ((numeral uri).take 99)) ≤ decimal (digits (numeral uri)) :=
        decimal_lt (digits_take_isPrefix (numeral uri) 98) hcut
      cases hp
      cases hread
      have hsign := sign_fst (numeral uri)
      rcases hsign with hsign | hsign
      · rw [hsign, Int.one_mul] at heq hlow hhigh
        rw [Int.one_mul, toInt_toLong (by omega) (by omega)] at heq
        omega
      · rw [hsign] at hlow
        omega

theorem written_form {host : List UInt8} (number : List UInt8) (hcolon : 58 ∉ host) :
    writtenHost (uriProtocol ++ (host ++ 58 :: number)) = host ∧
      writtenNumber (uriProtocol ++ (host ++ 58 :: number)) = number := by
  have hhost : writtenHost (uriProtocol ++ (host ++ 58 :: number)) = host := by
    unfold writtenHost
    rw [List.drop_left]
    exact takeWhile_colon hcolon
  refine ⟨hhost, ?_⟩
  have hsplit := List.takeWhile_append_dropWhile (p := (· ≠ 58)) (l := host ++ 58 :: number)
  rw [takeWhile_colon hcolon] at hsplit
  unfold writtenNumber
  rw [List.drop_left, List.append_cancel_left hsplit]
  rfl

theorem form_of_written (hfirm : uriProtocol <+: uri) (h : writtenNumber uri ≠ []) :
    uri = uriProtocol ++ (writtenHost uri ++ 58 :: writtenNumber uri) := by
  obtain ⟨rest, rfl⟩ := hfirm
  congr 1
  unfold writtenHost writtenNumber at *
  rw [List.drop_left] at *
  rcases dropWhile_colon rest with hnil | hcons
  · exact absurd (congrArg List.tail hnil) h
  · rw [← hcons, List.takeWhile_append_dropWhile]

theorem writtenHost_isPrefix (hfirm : uriProtocol <+: uri) (h : writtenNumber uri ≠ [])
    (hpre : uri <+: text) : writtenHost text = writtenHost uri := by
  have hcolon : 58 ∉ writtenHost uri := by
    intro hmem
    have := List.mem_takeWhile_imp hmem
    simp at this
  obtain ⟨rest, rfl⟩ := hpre
  conv_lhs => rw [form_of_written hfirm h]
  rw [List.append_assoc, List.append_assoc, List.cons_append]
  exact (written_form _ hcolon).1

theorem fits_iff : (sscanf port text).ip.length < 20 ↔
    (uriProtocol <+: text → (writtenHost text).length < 20) := by
  by_cases hfirm : uriProtocol <+: text
  · rw [sscanf_ip hfirm, scanHost_length_lt]
    exact ⟨fun h _ => h, fun h => h hfirm⟩
  · have hnone : sscanf port text = ⟨[], 0⟩ :=
      if_neg fun h => hfirm (List.isPrefixOf_iff_prefix.mp h)
    rw [hnone]
    exact ⟨fun _ h => absurd h hfirm, fun _ => Nat.zero_lt_succ _⟩

theorem accepted_iff (hfits : (sscanf port text).ip.length < 20) :
    Accepted (sscanf port text) ↔ HasNumber port text := by
  constructor
  · intro h
    obtain ⟨rest, hform, hcolon, _, hscan⟩ := accepted_form h
    exact ⟨_, rest, _, hform, h.2, hcolon, hscan, h.1⟩
  · rintro ⟨host, number, v, rfl, hhost, hcolon, hscan, hv⟩
    have hfirm : uriProtocol <+: uriProtocol ++ (host ++ 58 :: number) := List.prefix_append _ _
    have hshort := fits_iff.mp hfits hfirm
    obtain ⟨hhost', hnumber⟩ := written_form number hcolon
    rw [sscanf_eq hfirm (by rwa [hhost']) hshort, hhost', hnumber, hscan]
    exact ⟨hv, hhost⟩

end Reading

/-! ## The downloader -/

section Downloading
variable {port : Port} {uri host : List UInt8} {number : Option Int}

/-- A platform that stores nothing. -/
def idle : FirmwarePlatform Unit :=
  ⟨fun _ _ => (0, ()), fun _ _ _ _ => (0, ()), fun _ => (0, ()), fun _ => (), 0⟩

theorem returned_ne {a b : UInt8} (h : a ≠ b) : Downloader.Phase.returned a ≠ .returned b :=
  fun heq => h (Downloader.Phase.returned.inj heq)

theorem cleanup_connects {σ : Type} (P : FirmwarePlatform σ) (res : UInt8) (allocated : Bool)
    (d : Downloader.Download σ) (a : Nat) (p : Int) (ok : Bool) :
    Event.connect a p ok ∈ (Downloader.cleanup P res allocated d).trace ↔
      Event.connect a p ok ∈ d.trace := by
  unfold Downloader.cleanup
  cases allocated <;> by_cases hres : res = Downloader.firmwareSucc <;> simp [hres]

theorem sendRequest_connects {σ : Type} (P : FirmwarePlatform σ) (outcome : Nat → Bool)
    (d : Downloader.Download σ) (a : Nat) (p : Int) (ok : Bool) :
    Event.connect a p ok ∈ (Downloader.sendRequest P outcome d).trace ↔
      Event.connect a p ok ∈ d.trace := by
  unfold Downloader.sendRequest Downloader.ask
  generalize outcome d.trace.length = allocated
  cases allocated with
  | false =>
    simp only [Bool.false_eq_true, if_false]
    rw [cleanup_connects]
    simp [Downloader.Download.log]
  | true =>
    simp only [if_true]
    rcases Downloader.sendBuffer_cases P outcome 2
      ((d.log (.malloc true)).put Downloader.request) with heq | heq
    · rw [heq]
      simp [Downloader.Download.log, Downloader.Download.put]
    · rw [heq, cleanup_connects]
      simp [Downloader.Download.log, Downloader.Download.put]

theorem sendRequest_phase {σ : Type} (P : FirmwarePlatform σ) (outcome : Nat → Bool)
    {d : Downloader.Download σ} (hphase : d.phase = .description) :
    (Downloader.sendRequest P outcome d).phase ≠ .overrun ∧
      (Downloader.sendRequest P outcome d).phase ≠ .returned firmwareDownloaderErrBadUri := by
  unfold Downloader.sendRequest Downloader.ask
  generalize outcome d.trace.length = allocated
  cases allocated with
  | false => exact ⟨nofun, returned_ne (by decide)⟩
  | true =>
    simp only [if_true]
    rcases Downloader.sendBuffer_cases P outcome 2
      ((d.log (.malloc true)).put Downloader.request) with heq | heq
    · rw [heq]
      unfold Downloader.Download.log Downloader.Download.put
      rw [hphase]
      exact ⟨nofun, nofun⟩
    · rw [heq]
      exact ⟨nofun, returned_ne (by decide)⟩

theorem start_connects {σ : Type} (P : FirmwarePlatform σ) (outcome : Nat → Bool)
    (heap : List UInt8) (store : σ) (huri : Accepted (sscanf port uri))
    (hip : (sscanf port uri).ip.length < 20) :
    (Downloader.start port P outcome uri heap store).phase ≠ .overrun ∧
    (Downloader.start port P outcome uri heap store).phase ≠
      .returned firmwareDownloaderErrBadUri ∧
    (outcome 2 = true →
      Event.connect (inetAddr port (sscanf port uri).ip) ((sscanf port uri).port % 65536)
        (outcome 3) ∈ (Downloader.start port P outcome uri heap store).trace) ∧
    ∀ a p ok, Event.connect a p ok ∈ (Downloader.start port P outcome uri heap store).trace →
      a = inetAddr port (sscanf port uri).ip ∧ p = (sscanf port uri).port % 65536 := by
  obtain ⟨rest, hform, _⟩ := accepted_form huri
  have hbegins : uriProtocol.isPrefixOf uri = true := by
    rw [List.isPrefixOf_iff_prefix, hform]
    exact List.prefix_append _ _
  have hopen : ¬ ((sscanf port uri).port = 0 ∨ (sscanf port uri).ip = []) := by
    intro h
    rcases h with h | h
    · exact huri.1 h
    · exact huri.2 h
  have hshort : ¬ 20 ≤ (sscanf port uri).ip.length := by omega
  unfold Downloader.start Downloader.openConnection Downloader.ask
  generalize sscanf port uri = scanned at hopen hshort
  simp only [hbegins, if_true, hshort, if_false, hopen]
  cases outcome 2 with
  | false => exact ⟨nofun, returned_ne (by decide), nofun, by simp [Downloader.Download.log]⟩
  | true =>
    simp only [Downloader.Download.log, List.length_append]
    cases outcome 3 with
    | false => exact ⟨nofun, returned_ne (by decide), by simp, by simp⟩
    | true =>
      simp only [if_true]
      obtain ⟨hfits, hgood⟩ := sendRequest_phase P outcome
        (d := ⟨.description, heap, store, [.killEventloopThread, .errorLedOff, .socket true,
          .connect (inetAddr port scanned.ip) (scanned.port % 65536) true]⟩) rfl
      refine ⟨hfits, hgood, ?_, ?_⟩
      · intro _
        rw [sendRequest_connects]
        simp
      · intro a p ok h
        rw [sendRequest_connects] at h
        have hcall : a = inetAddr port scanned.ip ∧ p = scanned.port % 65536 ∧ ok = true := by
          simpa using h
        exact ⟨hcall.1, hcall.2.1⟩

theorem accepted_of_start (h : (Downloader.start port idle (fun _ => true) uri [] ()).phase ≠
      .overrun ∧
    (Downloader.start port idle (fun _ => true) uri [] ()).phase ≠
      .returned firmwareDownloaderErrBadUri) :
    Accepted (sscanf port uri) ∧ (sscanf port uri).ip.length < 20 := by
  unfold Downloader.start at h
  simp only at h
  split at h
  · split at h
    · exact absurd rfl h.1
    · next hshort =>
      split at h
      · exact absurd rfl h.2
      · next hopen =>
        rw [not_or] at hopen
        exact ⟨hopen, by omega⟩
  · exact absurd rfl h.2

theorem downloads_iff : Downloads port uri host number ↔
    Accepted (sscanf port uri) ∧ (sscanf port uri).ip.length < 20 ∧
      dottedQuad host = some (inetAddr port (sscanf port uri).ip) ∧
      number = some ((sscanf port uri).port % 65536) ∧ 1 ≤ (sscanf port uri).port % 65536 := by
  constructor
  · intro h
    obtain ⟨hfits, hgood, hcall, hconnect⟩ := h Unit idle (fun _ => true) [] ()
    obtain ⟨huri, hip⟩ := accepted_of_start ⟨hfits, hgood⟩
    have hthis := (start_connects idle (fun _ => true) [] () huri hip).2.2.1 rfl
    obtain ⟨hhost, hnumber, hlow, _⟩ := hconnect _ _ _ hthis
    exact ⟨huri, hip, hhost, hnumber, hlow⟩
  · rintro ⟨huri, hip, hhost, rfl, hlow⟩ σ P outcome heap store
    obtain ⟨hfits, hgood, hcall, hconnect⟩ := start_connects P outcome heap store huri hip
    refine ⟨hfits, hgood, fun hsocket => ⟨_, _, _, hcall hsocket⟩, ?_⟩
    intro a p ok h
    obtain ⟨rfl, rfl⟩ := hconnect a p ok h
    exact ⟨hhost, rfl, hlow, by omega⟩

end Downloading

/-! ## The write -/

section Writing
variable {port : Port} {type : DataType} {uri beyond : List UInt8} {s t : Device} {code : UInt8}

theorem taskStart_data (s : Device) :
    (ObjectFirmware.firmwarePlatformDownloaderTaskStart s).data = s.data := by
  unfold ObjectFirmware.firmwarePlatformDownloaderTaskStart
  split <;> rfl

theorem written_out_of_range
    (h : ¬ ((type = .string ∨ type = .opaqueBytes) ∧ 15 < uri.length ∧ uri.length < 256)) :
    prvFirmwareWrite port 0 [(written type uri beyond, true)] s =
      some (coap406NotAcceptable, s) :=
  if_neg h

theorem written_in_range
    (h : (type = .string ∨ type = .opaqueBytes) ∧ 15 < uri.length ∧ uri.length < 256) :
    prvFirmwareWrite port 0 [(written type uri beyond, true)] s =
      if 0 ∉ uri ++ beyond ∨ 20 ≤ (sscanf port (CString.text (uri ++ beyond))).ip.length then none
      else if Accepted (sscanf port (CString.text (uri ++ beyond))) then
        some (coap204Changed, ObjectFirmware.firmwarePlatformDownloaderTaskStart
          { s with data := { s.data with
            pkgUri := ObjectFirmware.strncpy (uri ++ beyond) uri.length ++
              0 :: s.data.pkgUri.drop (uri.length + 1) } })
      else some (coap406NotAcceptable, s) := by
  refine (if_pos h).trans ?_
  unfold CString.read
  simp only [written]
  by_cases hnul : 0 ∈ uri ++ beyond
  · simp only [hnul, if_true, not_true_eq_false, false_or]
    rfl
  · simp only [hnul, if_false, not_false_eq_true, true_or, if_true]
    rfl

end Writing

/-! ## The two together -/

/-- The downloader reads the address and the port that the stored URI writes, when the write did
read one. -/
theorem downloads_written_iff {port : Port} {uri text : List UInt8} (hpre : uri <+: text)
    (hfits : (sscanf port text).ip.length < 20) (hnumber : HasNumber port text)
    (hfirm : uriProtocol <+: uri) :
    Downloads port uri (writtenHost uri) (writtenPort uri) ↔
      WritesPort uri ∧ WritesAddress uri := by
  rw [downloads_iff]
  constructor
  · rintro ⟨haccepted, _, haddress, hport, hlow⟩
    obtain ⟨rest, hform, hcolon, _, hscan⟩ := accepted_form haccepted
    have hrest : writtenNumber uri = rest := by
      rw [hform]
      exact (written_form _ hcolon).2
    rw [← hrest] at hscan
    exact ⟨written_of_scanDecimal hscan hport rfl hlow, _, haddress⟩
  · rintro ⟨h, a, ha⟩
    obtain ⟨p, hp, hlow, hhigh⟩ := h.1
    have hscan : scanDecimal port (writtenNumber uri) = some p := by
      rw [scanDecimal_written h, hp]
    have hne : writtenNumber uri ≠ [] := by
      intro hnil
      rw [hnil] at hscan
      cases hscan
    obtain ⟨host, number, v, htext, hhost, hcolon, _⟩ := hnumber
    have hsame : writtenHost uri = host := by
      rw [← writtenHost_isPrefix hfirm hne hpre, htext]
      exact (written_form _ hcolon).1
    have hshort : (writtenHost uri).length < 20 := by
      have hall := fits_iff.mp hfits (hfirm.trans hpre)
      rwa [writtenHost_isPrefix hfirm hne hpre] at hall
    rw [sscanf_eq hfirm (by rwa [hsame]) hshort, hscan, hp]
    refine ⟨⟨?_, by rwa [hsame]⟩, hshort, by rw [inetAddr_dottedQuad ha, ha], ?_, ?_⟩
    · simp only [Option.getD_some]
      omega
    · simp only [Option.getD_some]
      rw [Int.emod_eq_of_lt (by omega) (by omega)]
    · simp only [Option.getD_some]
      omega

theorem protocol_written {port : Port} {uri beyond : List UInt8} (hlong : 15 < uri.length)
    (h : HasNumber port (CString.text (uri ++ beyond))) : uriProtocol <+: CString.text uri := by
  obtain ⟨host, number, v, htext, _⟩ := h
  rw [← CString.text_append_take uri beyond, htext, List.prefix_take_iff]
  refine ⟨List.prefix_append _ _, ?_⟩
  have : uriProtocol.length = 7 := rfl
  omega

/-- The two parsers agree on exactly those URIs that say all that is read of them. -/
theorem parsers_agree_iff (port : Port) (type : DataType) (uri beyond : List UInt8) (s : Device) :
    ParsersAgree port type uri beyond s ↔
      ((type = .string ∨ type = .opaqueBytes) ∧ 15 < uri.length ∧ uri.length < 256 →
        Plain port uri beyond) := by
  unfold ParsersAgree
  by_cases hrange : (type = .string ∨ type = .opaqueBytes) ∧ 15 < uri.length ∧ uri.length < 256
  · rw [written_in_range hrange]
    unfold Plain
    have hip : (sscanf port (CString.text (uri ++ beyond))).ip.length < 20 ↔ _ := fits_iff
    rw [← hip]
    by_cases hfault : 0 ∉ uri ++ beyond ∨ 20 ≤ (sscanf port (CString.text (uri ++ beyond))).ip.length
    · rw [if_pos hfault]
      constructor
      · rintro ⟨code, t, h, _⟩
        cases h
      · intro h
        obtain ⟨hnul, hfits, _⟩ := h hrange
        exact absurd hfault (not_or.mpr ⟨not_not.mpr hnul, not_le.mpr hfits⟩)
    · rw [if_neg hfault]
      obtain ⟨hnul, hfits⟩ := not_or.mp hfault
      have hread := accepted_iff (not_le.mp hfits)
      by_cases haccepted : Accepted (sscanf port (CString.text (uri ++ beyond)))
      · rw [if_pos haccepted]
        have hnumber := hread.mp haccepted
        have hwritten := downloads_written_iff (CString.text_isPrefix uri beyond)
          (not_le.mp hfits) hnumber (protocol_written hrange.2.1 hnumber)
        constructor
        · rintro ⟨code, t, h, hdownload, _⟩ _
          cases h
          rw [taskStart_data, ObjectFirmware.text_strncpy] at hdownload
          exact ⟨not_not.mp hnul, not_le.mp hfits, fun _ => hwritten.mp (hdownload rfl)⟩
        · intro h
          refine ⟨_, _, rfl, ?_, fun hne => absurd rfl hne⟩
          intro _
          rw [taskStart_data, ObjectFirmware.text_strncpy]
          exact hwritten.mpr ((h hrange).2.2 hnumber)
      · rw [if_neg haccepted]
        refine ⟨fun _ _ => ⟨not_not.mp hnul, not_le.mp hfits,
          fun h => absurd (hread.mpr h) haccepted⟩, ?_⟩
        intro _
        exact ⟨_, s, rfl, fun h => absurd h (by decide), fun _ => ⟨rfl, rfl⟩⟩
  · rw [written_out_of_range hrange]
    exact ⟨fun _ h => absurd h hrange,
      fun _ => ⟨_, s, rfl, fun h => absurd h (by decide), fun _ => ⟨rfl, rfl⟩⟩⟩

/-- The port 70000 is accepted, and the downloader connects to port 4464. -/
theorem parsers_disagree : ¬ ParsersAgree .unix .string (CString.ascii "firm://10.0.0.2:70000") [0]
    (ObjectFirmware.booted .unix none) := by
  rintro ⟨code, t, h, hdownload, _⟩
  rw [written_in_range (by decide)] at h
  rw [if_neg (by decide), if_pos (by decide)] at h
  cases h
  have hport := (downloads_iff.mp (hdownload rfl)).2.2.2.1
  exact absurd hport (by decide)

end JsEmbeddedPlatform.UriAgreement
