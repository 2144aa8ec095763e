import XNMiner.Mining.Phc
import Mathlib.Data.BitVec

/-!
# Digests as text

`vendor/hashapi/HashApiEncoding.cpp` writes base64 without padding into a buffer of the caller, from
32-bit words.  It is the text that `base64Encode` makes of numbers, and it can be read back.
-/

namespace XNMiner.HashApi

/-! ## Writing -/

def base64EncodedLength (inLen : Nat) : Nat :=
  let fullGroups := inLen / 3
  let remaining := inLen % 3
  fullGroups * 4 + if remaining = 0 then 0 else remaining + 1

/-- `kBase64Chars[(value >> shift) & 0x3f]`. -/
def base64Digit (value : BitVec 32) (shift : Nat) : Char :=
  kBase64Chars.getD ((value >>> shift) &&& 0x3f).toNat 'A'

/-- What `base64EncodeTo` writes from some offset on. -/
def base64Digits : List (BitVec 8) → List Char
  | a :: b :: c :: rest =>
      let value : BitVec 32 := a.setWidth 32 <<< 16 ||| b.setWidth 32 <<< 8 ||| c.setWidth 32
      [base64Digit value 18, base64Digit value 12, base64Digit value 6, base64Digit value 0] ++
        base64Digits rest
  | [a] =>
      let value : BitVec 32 := a.setWidth 32 <<< 16
      [base64Digit value 18, base64Digit value 12]
  | [a, b] =>
      let value : BitVec 32 := a.setWidth 32 <<< 16 ||| b.setWidth 32 <<< 8
      [base64Digit value 18, base64Digit value 12, base64Digit value 6]
  | [] => []

/-- `base64EncodeTo`: what it writes; it returns how much that is. -/
def base64EncodeTo (outCap : Nat) (bytesToEncode : List (BitVec 8)) : List Char :=
  if outCap < base64EncodedLength bytesToEncode.length then [] else base64Digits bytesToEncode

/-! ## Reading -/

/-- The value of a base64 digit. -/
def base64Value (c : Char) : Option Nat := kBase64Chars.findIdx? (· = c)

/-- The bytes of a text without padding. -/
def base64Decode : List Char → Option (List Nat)
  | w :: x :: y :: z :: rest => do
      let value := 2 ^ 18 * (← base64Value w) + 2 ^ 12 * (← base64Value x) +
        2 ^ 6 * (← base64Value y) + (← base64Value z)
      let bytes ← base64Decode rest
      return value / 65536 :: value / 256 % 256 :: value % 256 :: bytes
  | [w, x, y] => do
      let value := 2 ^ 18 * (← base64Value w) + 2 ^ 12 * (← base64Value x) +
        2 ^ 6 * (← base64Value y)
      return [value / 65536, value / 256 % 256]
  | [w, x] => do
      let value := 2 ^ 18 * (← base64Value w) + 2 ^ 12 * (← base64Value x)
      return [value / 65536]
  | [_] => none
  | [] => some []

theorem base64Value_base64Char (i : Nat) : base64Value (base64Char i) = some (i % 64) := by
  have hall : ∀ k : Fin 64, base64Value (kBase64Chars.getD k 'A') = some k.val := by
    decide +kernel
  exact hall ⟨i % 64, Nat.mod_lt i (by decide)⟩

/-- **Base64 can be read back.** -/
theorem base64Decode_base64Encode {bs : List Nat} (h : ∀ b ∈ bs, b < 256) :
    base64Decode (base64Encode bs) = some bs := by
  induction bs using base64Encode.induct with
  | case1 a b c rest ih =>
    have ha : a < 256 := h a (by simp)
    have hb : b < 256 := h b (by simp)
    have hc : c < 256 := h c (by simp)
    have hrest := ih fun x hx ↦ h x (by simp [hx])
    simp only [base64Encode, List.cons_append, List.nil_append, base64Decode,
      base64Value_base64Char, hrest, Option.bind_eq_bind, Option.bind_some, Option.pure_def,
      Option.some.injEq, List.cons.injEq, and_true]
    omega
  | case2 a b =>
    have ha : a < 256 := h a (by simp)
    have hb : b < 256 := h b (by simp)
    simp only [base64Encode, base64Decode, base64Value_base64Char, Option.bind_eq_bind,
      Option.bind_some, Option.pure_def, Option.some.injEq, List.cons.injEq, and_true]
    omega
  | case3 a =>
    have ha : a < 256 := h a (by simp)
    simp only [base64Encode, base64Decode, base64Value_base64Char, Option.bind_eq_bind,
      Option.bind_some, Option.pure_def, Option.some.injEq, List.cons.injEq, and_true]
    omega
  | case4 => rfl

/-! ## The two encoders -/

theorem base64Digit_eq {value : BitVec 32} {n : Nat} (h : value.toNat = n) (shift : Nat) :
    base64Digit value shift = base64Char (n / 2 ^ shift) := by
  have hmask : ((value >>> shift) &&& 0x3f).toNat = n / 2 ^ shift % 64 := by
    rw [BitVec.toNat_and, BitVec.toNat_ushiftRight, h, Nat.shiftRight_eq_div_pow]
    exact Nat.and_two_pow_sub_one_eq_mod _ 6
  rw [base64Digit, hmask, base64Char]

/-- Three bytes as a number. -/
theorem toNat_three (a b c : BitVec 8) :
    (a.setWidth 32 <<< 16 ||| b.setWidth 32 <<< 8 ||| c.setWidth 32 : BitVec 32).toNat =
      65536 * a.toNat + 256 * b.toNat + c.toNat := by
  have ha := a.isLt
  have hb := b.isLt
  have hc := c.isLt
  have hbc : b.toNat <<< 8 ||| c.toNat = 256 * b.toNat + c.toNat := by
    rw [← Nat.shiftLeft_add_eq_or_of_lt (by omega), Nat.shiftLeft_eq, Nat.mul_comm]
  have habc : a.toNat <<< 16 ||| (256 * b.toNat + c.toNat) =
      65536 * a.toNat + (256 * b.toNat + c.toNat) := by
    rw [← Nat.shiftLeft_add_eq_or_of_lt (by omega), Nat.shiftLeft_eq, Nat.mul_comm]
  have hsmall {x : BitVec 8} {k : Nat} (hk : k ≤ 16) :
      (x.setWidth 32 <<< k : BitVec 32).toNat = x.toNat <<< k := by
    have hx := x.isLt
    have hlt : x.toNat * 2 ^ k < 2 ^ 32 :=
      calc x.toNat * 2 ^ k ≤ 255 * 2 ^ 16 :=
            Nat.mul_le_mul (by omega) (Nat.pow_le_pow_right (by decide) hk)
        _ < 2 ^ 32 := by decide
    rw [BitVec.toNat_shiftLeft, BitVec.toNat_setWidth, Nat.mod_eq_of_lt (a := x.toNat) (by omega),
      Nat.shiftLeft_eq, Nat.mod_eq_of_lt hlt]
  rw [BitVec.toNat_or, BitVec.toNat_or, hsmall (by decide), hsmall (by decide),
    BitVec.toNat_setWidth, Nat.mod_eq_of_lt (by omega), Nat.or_assoc, hbc, habc, Nat.add_assoc]

theorem base64Digits_eq (bytes : List (BitVec 8)) :
    base64Digits bytes = base64Encode (bytes.map BitVec.toNat) := by
  have hzero (a b : BitVec 8) : (a.setWidth 32 <<< 16 ||| b.setWidth 32 <<< 8 : BitVec 32) =
      a.setWidth 32 <<< 16 ||| b.setWidth 32 <<< 8 ||| (0 : BitVec 8).setWidth 32 := by simp
  induction bytes using base64Digits.induct with
  | case1 a b c rest ih =>
    have hvalue := toNat_three a b c
    simp only [base64Digits, List.map_cons, base64Encode, base64Digit_eq hvalue, ih, pow_zero,
      Nat.div_one]
  | case2 a =>
    have hvalue : (a.setWidth 32 <<< 16 : BitVec 32).toNat = 65536 * a.toNat := by
      have hthree := toNat_three a 0 0
      simpa using hthree
    simp only [base64Digits, List.map_cons, List.map_nil, base64Encode, base64Digit_eq hvalue]
  | case3 a b =>
    have hvalue : (a.setWidth 32 <<< 16 ||| b.setWidth 32 <<< 8 : BitVec 32).toNat =
        65536 * a.toNat + 256 * b.toNat := by
      have hthree := toNat_three a b 0
      rw [hzero, hthree]
      rfl
    simp only [base64Digits, List.map_cons, List.map_nil, base64Encode, base64Digit_eq hvalue]
  | case4 => rfl

theorem length_base64Encode (bs : List Nat) :
    (base64Encode bs).length = base64EncodedLength bs.length := by
  induction bs using base64Encode.induct with
  | case1 a b c rest ih =>
    have hmod : (rest.length + 1 + 1 + 1) % 3 = rest.length % 3 := by omega
    simp only [base64Encode, List.length_append, List.length_cons, List.length_nil, ih,
      base64EncodedLength, hmod]
    omega
  | case2 | case3 | case4 => simp [base64Encode, base64EncodedLength]

/-- **What `base64EncodeTo` writes fits its buffer, and is the text that the other encoder makes of
the bytes; they can be read from it.** -/
theorem base64EncodeTo_eq {outCap : Nat} {bytes : List (BitVec 8)}
    (h : base64EncodedLength bytes.length ≤ outCap) :
    base64EncodeTo outCap bytes = base64Encode (bytes.map BitVec.toNat) ∧
      (base64EncodeTo outCap bytes).length = base64EncodedLength bytes.length ∧
      base64Decode (base64EncodeTo outCap bytes) = some (bytes.map BitVec.toNat) := by
  have heq : base64EncodeTo outCap bytes = base64Encode (bytes.map BitVec.toNat) := by
    rw [base64EncodeTo, if_neg (Nat.not_lt.mpr h), base64Digits_eq]
  rw [heq]
  refine ⟨rfl, ?_, base64Decode_base64Encode ?_⟩
  · rw [length_base64Encode, List.length_map]
  · intro b hb
    obtain ⟨byte, -, rfl⟩ := List.mem_map.mp hb
    exact byte.isLt

theorem base64EncodeTo_eq_two : base64EncodeTo 88 [0x4d, 0x61] = base64Encode [0x4d, 0x61] ∧
    (base64EncodeTo 88 [0x4d, 0x61]).length = 3 ∧
    base64Decode (base64EncodeTo 88 [0x4d, 0x61]) = some [0x4d, 0x61] :=
  base64EncodeTo_eq (by decide)

end XNMiner.HashApi
