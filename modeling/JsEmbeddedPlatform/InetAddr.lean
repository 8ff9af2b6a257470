import JsEmbeddedPlatform.PackageUri

/-!
# Numbers and dots

`inet_addr` reads up to four numbers with dots between them, decimal, octal or hexadecimal, and
gives `INADDR_NONE` for anything else. On stm32 it is lwIP's, on unix the one of the C library.
-/

set_option autoImplicit false

namespace JsEmbeddedPlatform.InetAddr

open Timers (Port)
open PackageUri (isDigit isSpace decimal)

def inaddrNone : Nat := 0xFFFFFFFF

def isXDigit (c : UInt8) : Bool := isDigit c || (65 ≤ c && c ≤ 70) || (97 ≤ c && c ≤ 102)

/-- lwIP takes the digits 8 and 9 of an octal number too. -/
def takesDigit (port : Port) (base : Nat) (c : UInt8) : Bool :=
  if base = 16 then isXDigit c
  else if base = 8 ∧ port = .unix then 48 ≤ c && c ≤ 55
  else isDigit c

def digitValue (c : UInt8) : Nat :=
  if isDigit c then c.toNat - 48 else if 97 ≤ c then c.toNat + 10 - 97 else c.toNat + 10 - 65

/-- The base, and what stands behind `0` or `0x`. -/
def numberBase : List UInt8 → Nat × List UInt8
  | [] => (10, [])
  | c :: rest =>
    if c = 48 then
      match rest with
      | [] => (8, [])
      | x :: more => if x = 120 ∨ x = 88 then (16, more) else (8, x :: more)
    else (10, c :: rest)

/-- In lwIP a number wraps at 32 bits. The C library refuses it, and an `x` without digits. -/
def number (port : Port) (text : List UInt8) : Option (Nat × List UInt8) :=
  if (text.head?.map isDigit).getD false then
    let (base, rest) := numberBase text
    let digits := rest.takeWhile (takesDigit port base)
    let value := digits.foldl (fun n d => n * base + digitValue d) 0
    let rest := rest.drop digits.length
    match port with
    | .stm32 => some (value % 4294967296, rest)
    | .unix =>
      if 4294967296 ≤ value ∨ base = 16 ∧ digits = [] then none else some (value, rest)
  else none

/-- The numbers in front of dots, the last one and what follows it; `left` dots may still come. -/
def numbers (port : Port) : Nat → List Nat → List UInt8 → Option (List Nat × Nat × List UInt8)
  | left, parts, text =>
    match number port text with
    | none => none
    | some (value, []) => some (parts, value, [])
    | some (value, c :: rest) =>
      if c = 46 then
        match left with
        | 0 => none
        | left + 1 => numbers port left (parts ++ [value]) rest
      else some (parts, value, c :: rest)

/-- The last number fills the bytes that the others leave. -/
def address : List Nat → Nat → Option Nat
  | [], v => some v
  | [a], v => if v ≤ 0xFFFFFF ∧ a ≤ 0xFF then some (a * 16777216 + v) else none
  | [a, b], v =>
    if v ≤ 0xFFFF ∧ a ≤ 0xFF ∧ b ≤ 0xFF then some (a * 16777216 + b * 65536 + v) else none
  | [a, b, c], v =>
    if v ≤ 0xFF ∧ a ≤ 0xFF ∧ b ≤ 0xFF ∧ c ≤ 0xFF then
      some (a * 16777216 + b * 65536 + c * 256 + v)
    else none
  | _, _ => none

/-- `ip4addr_aton` -/
def inetAton (port : Port) (cp : List UInt8) : Option Nat :=
  match numbers port 3 [] cp with
  | none => none
  | some (parts, value, rest) =>
    if (rest.head?.map isSpace).getD true then address parts value else none

/-- The address as a number, the first byte in front. -/
def inetAddr (port : Port) (cp : List UInt8) : Nat := (inetAton port cp).getD inaddrNone

/-! ## What a host says -/

/-- A number of one byte as it is usually written. -/
def octet (text : List UInt8) : Option Nat :=
  if text ≠ [] ∧ text.all isDigit ∧ (text.head? = some 48 → text = [48]) ∧ decimal text ≤ 0xFF then
    some (decimal text)
  else none

/-- The address that four decimal numbers with dots between them write. -/
def dottedQuad (host : List UInt8) : Option Nat :=
  match host.splitOn 46 with
  | [a, b, c, d] => do
    let a ← octet a
    let b ← octet b
    let c ← octet c
    let d ← octet d
    some (a * 16777216 + b * 65536 + c * 256 + d)
  | _ => none

section Quad
variable {port : Port} {text rest : List UInt8} {n : Nat}

theorem decimal_digits (h : text.all isDigit) :
    text.foldl (fun n d => n * 10 + digitValue d) 0 = decimal text := by
  have general : ∀ m, text.foldl (fun n d => n * 10 + digitValue d) m =
      text.foldl (fun n d => 10 * n + (d.toNat - 48)) m := by
    induction text with
    | nil => exact fun m => rfl
    | cons d text ih =>
      intro m
      rw [List.all_cons, Bool.and_eq_true] at h
      rw [List.foldl_cons, List.foldl_cons, ih h.2, Nat.mul_comm, digitValue, if_pos h.1]
  exact general 0

/-- A number of one byte is read as it is written, up to a dot or the end. -/
theorem number_octet (h : octet text = some n) (hrest : ∀ c ∈ rest.head?, c = 46) :
    number port (text ++ rest) = some (n, rest) ∧ n ≤ 0xFF := by
  unfold octet at h
  split at h
  · next hform =>
    obtain ⟨hne, hdigits, hzero, hsmall⟩ := hform
    cases h
    refine ⟨?_, hsmall⟩
    cases text with
    | nil => exact absurd rfl hne
    | cons d text =>
      have hd : isDigit d = true := by
        rw [List.all_cons, Bool.and_eq_true] at hdigits
        exact hdigits.1
      unfold number
      rw [if_pos (by simpa using hd)]
      by_cases hfirst : d = 48
      · -- a zero stands alone, and is read as an octal number without digits
        cases hfirst
        cases List.cons_eq_cons.mp (hzero rfl) |>.2
        have hbase : numberBase ([48] ++ rest) = (8, rest) := by
          cases rest with
          | nil => rfl
          | cons c rest =>
            cases hrest c rfl
            rfl
        have hnone : rest.takeWhile (takesDigit port 8) = [] := by
          cases rest with
          | nil => rfl
          | cons c rest =>
            cases hrest c rfl
            cases port <;> rfl
        rw [hbase]
        simp only [hnone]
        cases port <;> rfl
      · have hbase : numberBase (d :: text ++ rest) = (10, d :: text ++ rest) := if_neg hfirst
        have htakes : takesDigit port 10 = isDigit := by
          funext c
          unfold takesDigit
          simp
        have htake : (d :: text ++ rest).takeWhile isDigit = d :: text := by
          rw [List.takeWhile_append_of_pos (List.all_eq_true.mp hdigits)]
          cases rest with
          | nil => simp
          | cons c rest =>
            cases hrest c rfl
            rw [List.takeWhile_cons_of_neg (by decide), List.append_nil]
        rw [hbase]
        simp only [htakes, htake, List.drop_left, decimal_digits hdigits]
        cases port with
        | stm32 =>
          simp only
          rw [Nat.mod_eq_of_lt (by omega)]
        | unix =>
          simp only
          rw [if_neg (by omega)]
  · cases h

theorem numbers_last (h : octet text = some n) (left : Nat) (parts : List Nat) :
    numbers port left parts text = some (parts, n, []) := by
  have hread := (@number_octet port text [] n h nofun).1
  rw [List.append_nil] at hread
  unfold numbers
  rw [hread]

theorem numbers_dot (h : octet text = some n) (left : Nat) (parts : List Nat)
    (rest : List UInt8) :
    numbers port (left + 1) parts (text ++ 46 :: rest) =
      numbers port left (parts ++ [n]) rest := by
  have hread := (@number_octet port text (46 :: rest) n h (by simp)).1
  rw [numbers, hread]
  rfl

/-- On both ports four decimal numbers are the address that they write. -/
theorem inetAddr_dottedQuad {host : List UInt8} {a : Nat} (h : dottedQuad host = some a)
    (port : Port) : inetAddr port host = a := by
  unfold dottedQuad at h
  split at h
  · next p q r s hparts =>
    simp only [Option.bind_eq_bind, Option.bind_eq_some_iff, Option.some.injEq] at h
    obtain ⟨a₁, h₁, a₂, h₂, a₃, h₃, a₄, h₄, rfl⟩ := h
    have hhost : host = p ++ 46 :: (q ++ 46 :: (r ++ 46 :: s)) := by
      have hjoin : [46].intercalate (host.splitOn 46) = host := List.intercalate_splitOn 46
      rw [← hjoin, hparts]
      simp [List.intercalate]
    have hle : ∀ t n, octet t = some n → n ≤ 0xFF := fun t n ht =>
      (@number_octet port t [] n ht nofun).2
    have hall := And.intro (hle _ _ h₄)
      (And.intro (hle _ _ h₁) (And.intro (hle _ _ h₂) (hle _ _ h₃)))
    unfold inetAddr inetAton
    rw [hhost, numbers_dot h₁, numbers_dot h₂, numbers_dot h₃, numbers_last h₄]
    simp only [List.nil_append, List.cons_append, address, List.head?_nil,
      Option.map_none, Option.getD_none, if_true, if_pos hall, Option.getD_some]
  · cases h

end Quad

end JsEmbeddedPlatform.InetAddr
