import JsEmbeddedPlatform.CoapPacket

/-!
# The values of options

Integers without the zeros in front, blocks packed into one, queries cut at their
separators: what the writer makes of each is read as what it was.
-/

set_option autoImplicit false

namespace JsEmbeddedPlatform.Coap

open Lwm2mData (bigEndian)

/-! ## Integers -/

/-- What a mask of the upper bits leaves of a number. -/
theorem and_upper {w k n : Nat} (hk : k ≤ w) (hn : n < 2 ^ w) :
    (2 ^ (w - k) - 1) * 2 ^ k &&& n = 2 ^ k * (n / 2 ^ k) := by
  have hpos : 0 < 2 ^ k := Nat.two_pow_pos k
  have hdiv : ((2 ^ (w - k) - 1) * 2 ^ k &&& n) / 2 ^ k = n / 2 ^ k := by
    rw [Nat.and_div_two_pow, Nat.mul_div_cancel _ hpos, Nat.and_comm,
      Nat.and_two_pow_sub_one_eq_mod]
    apply Nat.mod_eq_of_lt
    rw [Nat.div_lt_iff_lt_mul hpos, ← Nat.pow_add, Nat.sub_add_cancel hk]
    exact hn
  have hmod : ((2 ^ (w - k) - 1) * 2 ^ k &&& n) % 2 ^ k = 0 := by
    rw [Nat.and_mod_two_pow, Nat.mul_mod_left, Nat.zero_and]
  rw [← hdiv, Nat.mul_div_cancel' (Nat.dvd_of_mod_eq_zero hmod)]

theorem mask_ne_zero_iff (mask v : UInt32) {k : Nat} (hk : k ≤ 32)
    (hmask : mask.toNat = (2 ^ (32 - k) - 1) * 2 ^ k) : mask &&& v ≠ 0 ↔ 2 ^ k ≤ v.toNat := by
  have hpos : 0 < 2 ^ k := Nat.two_pow_pos k
  have hv : v.toNat < 2 ^ 32 := v.toNat_lt
  rw [Ne, ← UInt32.toNat_inj, UInt32.toNat_and, hmask, and_upper hk hv, UInt32.toNat_zero,
    Nat.mul_eq_zero, Nat.div_eq_zero_iff]
  omega

theorem parseInt_step (var : UInt32) (b : UInt8) :
    (var <<< 8 ||| b.toUInt32).toNat = (256 * var.toNat + b.toNat) % 2 ^ 32 := by
  have hb : b.toNat < 2 ^ 8 := b.toNat_lt
  have hvar : var.toNat < 2 ^ 32 := var.toNat_lt
  have hshift : (var <<< 8).toNat = 2 ^ 8 * (var.toNat % 2 ^ 24) := by
    rw [UInt32.toNat_shiftLeft]
    simp only [UInt32.reduceToNat, Nat.reduceMod, Nat.shiftLeft_eq]
    omega
  rw [UInt32.toNat_or, hshift, UInt8.toNat_toUInt32, ← Nat.two_pow_add_eq_or_of_lt hb]
  omega

theorem parseInt_toNat (bytes : List UInt8) :
    (coapParseIntOption bytes).toNat = bigEndian bytes % 2 ^ 32 := by
  have hfold : ∀ (bytes : List UInt8) (var : UInt32) (n : Nat), var.toNat = n % 2 ^ 32 →
      (bytes.foldl (fun (var : UInt32) b => var <<< 8 ||| b.toUInt32) var).toNat =
        bytes.foldl (fun n b => 256 * n + b.toNat) n % 2 ^ 32 := by
    intro bytes
    induction bytes with
    | nil => exact fun _ _ h => h
    | cons b bytes ih =>
      intro var n h
      apply ih
      rw [parseInt_step, h]
      simp only
      omega
  exact hfold bytes 0 0 rfl

theorem bigEndian_intBytes (v : UInt32) : bigEndian (intBytes v) = v.toNat := by
  have hv : v.toNat < 2 ^ 32 := v.toNat_lt
  have h24 := mask_ne_zero_iff 0xFF000000 v (k := 24) (by decide) rfl
  have h16 := mask_ne_zero_iff 0xFFFF0000 v (k := 16) (by decide) rfl
  have h8 := mask_ne_zero_iff 0xFFFFFF00 v (k := 8) (by decide) rfl
  have h0 := mask_ne_zero_iff 0xFFFFFFFF v (k := 0) (by decide) rfl
  unfold intBytes bigEndian
  simp only [h24, h16, h8, h0]
  split_ifs <;>
    simp only [List.foldl_append, List.foldl_cons, List.foldl_nil, UInt32.toNat_toUInt8,
      UInt32.toNat_shiftRight, UInt32.reduceToNat, Nat.reduceMod, Nat.shiftRight_eq_div_pow] <;>
    omega

theorem parseInt_intBytes (v : UInt32) : coapParseIntOption (intBytes v) = v := by
  apply UInt32.toNat_inj.mp
  rw [parseInt_toNat, bigEndian_intBytes]
  exact Nat.mod_eq_of_lt v.toNat_lt

theorem intBytes_length (v : UInt32) : (intBytes v).length ≤ 4 := by
  unfold intBytes
  split_ifs <;> simp

/-! ## Blocks -/

/-- What can be written into the four bytes: a number of 20 bits and a size that is a power of two
from 16 to 2048. -/
structure Block.Valid (b : Block) : Prop where
  num : b.num ≤ 0x0FFFFF
  more : b.more = 0 ∨ b.more = 1
  size : ∃ k < 8, b.size = UInt16.ofNat (16 * 2 ^ k)

theorem log2_size {k : Nat} (hk : k < 8) :
    coapLog2 (UInt16.ofNat (16 * 2 ^ k) / 16) = k ∧ 0xF &&& k = k := by
  have all : ∀ k < 8, coapLog2 (UInt16.ofNat (16 * 2 ^ k) / 16) = k ∧ 0xF &&& k = k := by
    decide +kernel
  exact all k hk

theorem blockValue_toNat {b : Block} {k : Nat} (hnum : b.num ≤ 0x0FFFFF)
    (hmore : b.more = 0 ∨ b.more = 1) (hk : k < 8)
    (hsize : b.size = UInt16.ofNat (16 * 2 ^ k)) :
    (blockValue b).toNat = 16 * b.num.toNat + 8 * b.more.toNat + k := by
  have hn : b.num.toNat ≤ 0x0FFFFF := by simpa using UInt32.le_iff_toNat_le.mp hnum
  obtain ⟨hlog, hlow⟩ := log2_size hk
  have hshift : (b.num <<< 4).toNat = 2 ^ 4 * b.num.toNat := by
    rw [UInt32.toNat_shiftLeft]
    simp only [UInt32.reduceToNat, Nat.reduceMod, Nat.shiftLeft_eq]
    omega
  have hkNat : (UInt32.ofNat k).toNat = k := by
    rw [UInt32.toNat_ofNat']
    omega
  rw [blockValue, hsize, hlog, hlow, UInt32.toNat_or, hkNat]
  rcases hmore with hmore | hmore
  · rw [hmore, if_neg (by decide), hshift, ← Nat.two_pow_add_eq_or_of_lt (by omega)]
    rfl
  · have height : (b.num <<< 4 ||| 0x8).toNat = 2 ^ 3 * (2 * b.num.toNat + 1) := by
      rw [UInt32.toNat_or, hshift, show (0x8 : UInt32).toNat = 8 from rfl,
        ← Nat.two_pow_add_eq_or_of_lt (by decide)]
      omega
    rw [hmore, if_pos (by decide), height, ← Nat.two_pow_add_eq_or_of_lt hk]
    simp only [UInt8.reduceToNat]
    omega

/-- A block is read with its offset, which the writer does not have. -/
theorem parseBlock_blockValue {b : Block} (h : b.Valid) :
    parseBlock (intBytes (blockValue b)) = { b with offset := b.num * b.size.toUInt32 } := by
  obtain ⟨k, hk, hsize⟩ := h.size
  have hv := blockValue_toNat h.num h.more hk hsize
  have hn : b.num.toNat ≤ 0x0FFFFF := by simpa using UInt32.le_iff_toNat_le.mp h.num
  have hm : b.more.toNat ≤ 1 := by
    rcases h.more with hmore | hmore
    · rw [hmore]
      decide
    · rw [hmore]
      decide
  have hlow : blockValue b &&& 0x07 = UInt32.ofNat k := by
    have hand : (blockValue b).toNat &&& 7 = (blockValue b).toNat % 8 :=
      Nat.and_two_pow_sub_one_eq_mod _ 3
    apply UInt32.toNat_inj.mp
    rw [UInt32.toNat_and, UInt32.toNat_ofNat', show (0x07 : UInt32).toNat = 7 from rfl, hand, hv]
    omega
  have hmore : ((blockValue b &&& 0x08) >>> 3).toUInt8 = b.more := by
    have hbit : ((blockValue b).toNat &&& 8) / 2 ^ 3 = (blockValue b).toNat / 2 ^ 3 % 2 := by
      rw [Nat.and_div_two_pow]
      exact Nat.and_one_is_mod _
    apply UInt8.toNat_inj.mp
    rw [UInt32.toNat_toUInt8, UInt32.toNat_shiftRight, UInt32.toNat_and,
      show (0x08 : UInt32).toNat = 8 from rfl, show (3 : UInt32).toNat % 32 = 3 from rfl,
      Nat.shiftRight_eq_div_pow, hbit, hv]
    omega
  have hnum : blockValue b >>> 4 = b.num := by
    apply UInt32.toNat_inj.mp
    rw [UInt32.toNat_shiftRight, hv]
    simp only [UInt32.reduceToNat, Nat.reduceMod, Nat.shiftRight_eq_div_pow]
    omega
  have hoffset : (blockValue b &&& ~~~0x0000000F) <<< (UInt32.ofNat k) =
      b.num * b.size.toUInt32 := by
    have hupper : (blockValue b &&& ~~~0x0000000F).toNat = 2 ^ 4 * b.num.toNat := by
      rw [UInt32.toNat_and, Nat.and_comm,
        show (~~~0x0000000F : UInt32).toNat = (2 ^ (32 - 4) - 1) * 2 ^ 4 from rfl,
        and_upper (by decide) (blockValue b).toNat_lt, hv]
      omega
    have hwidth : b.size.toUInt32.toNat = 2 ^ 4 * 2 ^ k := by
      have all : ∀ k < 8, (UInt16.ofNat (16 * 2 ^ k)).toUInt32.toNat = 2 ^ 4 * 2 ^ k := by
        decide +kernel
      rw [hsize, all k hk]
    have hshift : k % 2 ^ 32 % 32 = k := by omega
    apply UInt32.toNat_inj.mp
    rw [UInt32.toNat_shiftLeft, hupper, UInt32.toNat_mul, hwidth, UInt32.toNat_ofNat',
      Nat.shiftLeft_eq, hshift, Nat.mul_comm (2 ^ 4) b.num.toNat, Nat.mul_assoc]
  have hshift : (16 : UInt16) <<< (UInt32.ofNat k).toUInt16 = b.size := by
    have all : ∀ k < 8, (16 : UInt16) <<< (UInt32.ofNat k).toUInt16 = UInt16.ofNat (16 * 2 ^ k) := by
      decide +kernel
    rw [hsize, all k hk]
  rw [parseBlock, parseInt_intBytes]
  simp only [hlow, hmore, hnum, hoffset, hshift]

/-! ## Queries -/

/-- What the reader has when all the parts have come. -/
def mergeParts (dst : List UInt8) (parts : List (List UInt8)) : List UInt8 :=
  parts.foldl (fun dst part => coapMergeMultiOption dst part 38) dst

theorem merge_append {dst : List UInt8} (part rest : List UInt8) :
    coapMergeMultiOption dst part 38 ++ rest = coapMergeMultiOption dst (part ++ rest) 38 := by
  unfold coapMergeMultiOption
  split
  · rw [List.append_assoc]
  · rfl

theorem merge_ne_nil {dst part : List UInt8} (h : dst ≠ [] ∨ part ≠ []) :
    coapMergeMultiOption dst part 38 ≠ [] := by
  unfold coapMergeMultiOption
  split
  · simp
  · next hdst =>
    have hnil : dst = [] := by simpa using hdst
    exact h.resolve_left (fun hne => hne hnil)

theorem merge_of_ne_nil {dst : List UInt8} (h : dst ≠ []) (part : List UInt8) :
    coapMergeMultiOption dst part 38 = dst ++ 38 :: part := by
  rw [coapMergeMultiOption, if_pos (List.length_pos_iff.mpr h), List.append_assoc,
    List.singleton_append]

/-- No separator is lost if none stands in front of the first part or behind the last one. -/
theorem mergeParts_splitFrom {dst part rest : List UInt8}
    (hstart : dst ≠ [] ∨ part ≠ [] ∨ rest.head? ≠ some 38) (hend : rest.getLast? ≠ some 38) :
    mergeParts dst (splitFrom 38 part rest) = coapMergeMultiOption dst (part ++ rest) 38 := by
  fun_induction splitFrom 38 part rest generalizing dst with
  | case1 part => rw [mergeParts, List.foldl_cons, List.foldl_nil, List.append_nil]
  | case2 part rest ih =>
    have hne : dst ≠ [] ∨ part ≠ [] := by
      rcases hstart with h | h | h
      · exact Or.inl h
      · exact Or.inr h
      · exact absurd rfl h
    cases rest with
    | nil => exact absurd rfl hend
    | cons d rest =>
      have hlast : rest.getLast? ≠ some 38 := by
        intro h
        rw [List.getLast?_cons_cons, List.getLast?_cons, h] at hend
        exact hend rfl
      have hrest := @ih (coapMergeMultiOption dst part 38) (Or.inr (Or.inl (by simp))) hlast
      rw [merge_of_ne_nil (merge_ne_nil hne), merge_append] at hrest
      exact hrest
  | case3 part c rest hc ih =>
    have hlast : rest.getLast? ≠ some 38 := by
      intro h
      rw [List.getLast?_cons, h] at hend
      exact hend rfl
    rw [ih (Or.inr (Or.inl (by simp))) hlast, List.append_assoc, List.singleton_append]

theorem mergeParts_query {query : List UInt8} (hstart : query.head? ≠ some 38)
    (hend : query.getLast? ≠ some 38) : mergeParts [] (splitFrom 38 [] query) = query :=
  mergeParts_splitFrom (Or.inr (Or.inr hstart)) hend

end JsEmbeddedPlatform.Coap
