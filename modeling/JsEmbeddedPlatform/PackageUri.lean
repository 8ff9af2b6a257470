import JsEmbeddedPlatform.Shared.CString
import JsEmbeddedPlatform.Timers

/-!
# The URI of a package

The LWM2M Firmware object and the downloader both read a URI by
`sscanf(uri, "firm://%99[^:]:%99d", ip, &port)`, from `ip = ""` and `port = 0`.
-/

set_option autoImplicit false

namespace JsEmbeddedPlatform.PackageUri

open Timers (Port)

def uriProtocol : List UInt8 := CString.ascii "firm://"

def isSpace (c : UInt8) : Bool := c = 32 || (9 ≤ c && c ≤ 13)

def isDigit (c : UInt8) : Bool := 48 ≤ c && c ≤ 57

def decimal (digits : List UInt8) : Nat := digits.foldl (fun n d => 10 * n + (d.toNat - 48)) 0

def longMax : Port → Int
  | .unix => 9223372036854775807
  | .stm32 => 2147483647

/-- `strtol` stops at the bounds of `long`. -/
def toLong (port : Port) (v : Int) : Int := max (-longMax port - 1) (min v (longMax port))

def toInt (v : Int) : Int := (v + 2147483648) % 4294967296 - 2147483648

def sign : List UInt8 → Int × List UInt8
  | [] => (1, [])
  | c :: rest => if c = 45 then (-1, rest) else if c = 43 then (1, rest) else (1, c :: rest)

/-- `%99d`, whose 99 characters count the sign. -/
def scanDecimal (port : Port) (text : List UInt8) : Option Int :=
  let (sgn, rest) := sign ((text.dropWhile isSpace).take 99)
  let digits := rest.takeWhile isDigit
  if digits = [] then none else some (toInt (toLong port (sgn * decimal digits)))

/-- `%99[^:]` -/
def scanHost (text : List UInt8) : List UInt8 := (text.take 99).takeWhile (· ≠ 58)

structure Scanned where
  ip : List UInt8
  port : Int
deriving DecidableEq, Repr

def scanPort (port : Port) (ip text : List UInt8) : Scanned :=
  match text with
  | [] => ⟨ip, 0⟩
  | c :: rest => if c = 58 then ⟨ip, (scanDecimal port rest).getD 0⟩ else ⟨ip, 0⟩

def scanText (port : Port) (text : List UInt8) : Scanned :=
  if scanHost text = [] then ⟨[], 0⟩
  else scanPort port (scanHost text) (text.drop (scanHost text).length)

def sscanf (port : Port) (uri : List UInt8) : Scanned :=
  if uriProtocol.isPrefixOf uri then scanText port (uri.drop uriProtocol.length) else ⟨[], 0⟩

/-- The test that both callers make. -/
def Accepted (s : Scanned) : Prop := s.port ≠ 0 ∧ s.ip ≠ []

instance (s : Scanned) : Decidable (Accepted s) := by unfold Accepted; infer_instance

theorem scanHost_isPrefix (text : List UInt8) : scanHost text <+: text :=
  (List.takeWhile_prefix _).trans (List.take_prefix _ _)

theorem scanHost_colon_free (text : List UInt8) : 58 ∉ scanHost text := by
  intro h
  have := List.mem_takeWhile_imp h
  simp at this

theorem scanHost_length_le (text : List UInt8) : (scanHost text).length ≤ 99 := by
  have hle := (List.takeWhile_prefix (l := text.take 99) (· ≠ 58)).length_le
  rw [List.length_take] at hle
  unfold scanHost
  omega

theorem scanPort_ip (port : Port) (ip text : List UInt8) : (scanPort port ip text).ip = ip := by
  unfold scanPort
  cases text with
  | nil => rfl
  | cons c rest => simp only; split <;> rfl

theorem scanPort_set {port : Port} {ip text : List UInt8} (h : (scanPort port ip text).port ≠ 0) :
    ∃ rest, text = 58 :: rest ∧ scanDecimal port rest = some (scanPort port ip text).port := by
  unfold scanPort at h ⊢
  cases text with
  | nil => exact absurd rfl h
  | cons c rest =>
    simp only at h ⊢
    split at h
    · next hc =>
      refine ⟨rest, by rw [hc], ?_⟩
      rw [if_pos hc]
      cases hn : scanDecimal port rest with
      | none => simp [hn] at h
      | some n => rfl
    · exact absurd rfl h

theorem scanText_set {port : Port} {text : List UInt8} (h : (scanText port text).port ≠ 0) :
    (scanText port text).ip = scanHost text ∧
      ∃ rest, text = scanHost text ++ 58 :: rest ∧
        scanDecimal port rest = some (scanText port text).port := by
  unfold scanText at h ⊢
  split at h
  · exact absurd rfl h
  · next hhost =>
    rw [if_neg hhost]
    obtain ⟨rest, hrest, hdecimal⟩ := scanPort_set h
    refine ⟨scanPort_ip .., rest, ?_, hdecimal⟩
    rw [← hrest]
    exact (List.prefix_iff_eq_append.mp (scanHost_isPrefix text)).symm

/-- What is accepted has the form `firm://`, a host, a colon and a number. -/
theorem accepted_form {port : Port} {uri : List UInt8} (h : Accepted (sscanf port uri)) :
    ∃ rest, uri = uriProtocol ++ ((sscanf port uri).ip ++ 58 :: rest) ∧
      58 ∉ (sscanf port uri).ip ∧ (sscanf port uri).ip.length ≤ 99 ∧
      scanDecimal port rest = some (sscanf port uri).port := by
  have hport := h.1
  unfold sscanf at hport ⊢
  split at hport
  · next hfirm =>
    rw [if_pos hfirm]
    obtain ⟨hip, rest, htext, hdecimal⟩ := scanText_set hport
    refine ⟨rest, ?_, ?_, ?_, hdecimal⟩
    · rw [hip, ← htext]
      exact (List.prefix_iff_eq_append.mp (List.isPrefixOf_iff_prefix.mp hfirm)).symm
    · rw [hip]
      exact scanHost_colon_free _
    · rw [hip]
      exact scanHost_length_le _
  · exact absurd rfl hport

end JsEmbeddedPlatform.PackageUri
