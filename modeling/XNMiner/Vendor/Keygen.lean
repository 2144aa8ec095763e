import XNMiner.Vendor.Matching
import XNMiner.Vendor.Validation
import Mathlib.Data.BitVec
import Mathlib.Tactic.Ring

/-!
# Keys that are drawn

`RandomHexKeyGenerator::fillMany` (`vendor/RandomHexKeyGenerator.h`) writes keys one after the
other: the prefix, then hex digits that are drawn from a counter by mixing it (splitmix64).  What
the counter starts from comes from another generator, of which nothing is known here.

The counter goes on from key to key, and mixing is one to one, so no key of a filling comes twice
(`nodup_fillMany`).
-/

namespace XNMiner.HashApi

/-! ## Draws -/

def kHexChars : List Char := "0123456789abcdef".toList

/-- What each draw adds to the counter. -/
def goldenGamma : BitVec 64 := 0x9E3779B97F4A7C15

/-- What is drawn when the counter is `s`. -/
def mix (s : BitVec 64) : BitVec 64 :=
  let z := (s ^^^ s >>> 30) * 0xBF58476D1CE4E5B9
  let z := (z ^^^ z >>> 27) * 0x94D049BB133111EB
  z ^^^ z >>> 31

/-- `kHexChars[z & 0x0f]`. -/
def hexChar (z : BitVec 64) : Char := kHexChars.getD (z &&& 0x0f).toNat '0'

/-- The first digits of a draw, lowest first. -/
def hexChars : Nat → BitVec 64 → List Char
  | 0, _ => []
  | n + 1, z => hexChar z :: hexChars n (z >>> 4)

/-- The last digits of a key, 16 from each draw, and the counter after them. -/
def randomDigits (left : Nat) (s : BitVec 64) : List Char × BitVec 64 :=
  if left = 0 then ([], s)
  else
    let s := s + goldenGamma
    let rest := randomDigits (left - 16) s
    (hexChars (min 16 left) (mix s) ++ rest.1, rest.2)
termination_by left

/-- `RandomHexKeyGenerator`, without the generator that starts the counter. -/
structure RandomHexKeyGenerator where
  keyPrefix : List Char
  totalLength : Nat

namespace RandomHexKeyGenerator

def setPrefix (g : RandomHexKeyGenerator) (newPrefix : List Char) : RandomHexKeyGenerator :=
  { g with keyPrefix := newPrefix.map Char.toLower }

/-- `pre`: how much of the prefix a key takes. -/
def pre (g : RandomHexKeyGenerator) : Nat := min g.keyPrefix.length g.totalLength

/-- The keys from some counter on. -/
def fillFrom (g : RandomHexKeyGenerator) : Nat → BitVec 64 → List (List Char)
  | 0, _ => []
  | count + 1, s =>
      let drawn := randomDigits (g.totalLength - g.pre) s
      (g.keyPrefix.take g.pre ++ drawn.1) :: g.fillFrom count drawn.2

/-- `fillMany`: the keys, in their order; `high` and `low` are what the other generator gave. -/
def fillMany (g : RandomHexKeyGenerator) (high low : BitVec 32) (count : Nat) :
    List (List Char) :=
  g.fillFrom count
    (high.setWidth 64 <<< 32 ^^^ low.setWidth 64 ^^^ BitVec.ofNat 64 count * goldenGamma)

end RandomHexKeyGenerator

/-! ## Mixing is one to one -/

/-- A word can be told from itself and its shift. -/
theorem xor_ushiftRight_injective {n : Nat} (hn : 0 < n) :
    Function.Injective fun z : BitVec 64 ↦ z ^^^ z >>> n := by
  intro z w h
  have hdiff : (z ^^^ w) = (z ^^^ w) >>> n := by
    have hsame : (z ^^^ w) ^^^ (z ^^^ w) >>> n = 0 := by
      rw [BitVec.ushiftRight_xor_distrib]
      calc z ^^^ w ^^^ (z >>> n ^^^ w >>> n) = (z ^^^ z >>> n) ^^^ (w ^^^ w >>> n) := by ac_rfl
        _ = 0 := by rw [show z ^^^ z >>> n = w ^^^ w >>> n from h, BitVec.xor_self]; rfl
    exact BitVec.xor_eq_zero_iff.mp hsame
  have hnat : (z ^^^ w).toNat = (z ^^^ w).toNat / 2 ^ n := by
    conv_lhs => rw [hdiff]
    rw [BitVec.toNat_ushiftRight, Nat.shiftRight_eq_div_pow]
  have hzero : (z ^^^ w).toNat = 0 := by
    by_contra hne
    have hlt := Nat.div_lt_self (Nat.pos_of_ne_zero hne) (Nat.one_lt_two_pow hn.ne')
    omega
  exact BitVec.xor_eq_zero_iff.mp (BitVec.eq_of_toNat_eq hzero)

/-- A word can be told from its product with a factor that has an inverse. -/
theorem mul_right_injective_of_inverse {c d : BitVec 64} (h : c * d = 1) :
    Function.Injective fun z : BitVec 64 ↦ z * c := by
  intro z w hzw
  have hback (x : BitVec 64) : x * c * d = x := by
    rw [BitVec.mul_assoc, h, mul_one]
  rw [← hback z, show z * c = w * c from hzw, hback w]

theorem mix_injective : Function.Injective mix := by
  have hfirst : (0xBF58476D1CE4E5B9 : BitVec 64) * 0x96DE1B173F119089 = 1 := by decide
  have hsecond : (0x94D049BB133111EB : BitVec 64) * 0x319642B2D24D8EC3 = 1 := by decide
  exact (xor_ushiftRight_injective (by decide)).comp
    ((mul_right_injective_of_inverse hsecond).comp
      ((xor_ushiftRight_injective (by decide)).comp
        ((mul_right_injective_of_inverse hfirst).comp (xor_ushiftRight_injective (by decide)))))

/-! ## The digits tell the draw -/

theorem toNat_and_fifteen (z : BitVec 64) : (z &&& 0x0f).toNat = z.toNat % 16 := by
  rw [BitVec.toNat_and]
  exact Nat.and_two_pow_sub_one_eq_mod z.toNat 4

theorem hexChar_inj {z w : BitVec 64} (h : hexChar z = hexChar w) :
    z.toNat % 16 = w.toNat % 16 := by
  have hall : ∀ i j : Fin 16, kHexChars.getD i '0' = kHexChars.getD j '0' → i = j := by decide
  rw [hexChar, hexChar, toNat_and_fifteen, toNat_and_fifteen] at h
  exact congrArg Fin.val (hall ⟨z.toNat % 16, Nat.mod_lt _ (by decide)⟩
    ⟨w.toNat % 16, Nat.mod_lt _ (by decide)⟩ h)

@[simp] theorem length_hexChars (n : Nat) (z : BitVec 64) : (hexChars n z).length = n := by
  induction n generalizing z with
  | zero => rfl
  | succ n ih => rw [hexChars, List.length_cons, ih]

theorem hexChars_inj {n : Nat} {z w : BitVec 64} (h : hexChars n z = hexChars n w) :
    z.toNat % 16 ^ n = w.toNat % 16 ^ n := by
  induction n generalizing z w with
  | zero => rw [Nat.pow_zero, Nat.mod_one, Nat.mod_one]
  | succ n ih =>
    obtain ⟨hfirst, hrest⟩ := List.cons.inj h
    have hlow := hexChar_inj hfirst
    have hhigh := ih hrest
    rw [BitVec.toNat_ushiftRight, BitVec.toNat_ushiftRight, Nat.shiftRight_eq_div_pow,
      Nat.shiftRight_eq_div_pow] at hhigh
    rw [Nat.pow_succ', Nat.mod_mul, Nat.mod_mul, hlow]
    exact congrArg (w.toNat % 16 + 16 * ·) hhigh

theorem mem_hexChars {n : Nat} {z : BitVec 64} {c : Char} (h : c ∈ hexChars n z) :
    isXDigit c = true := by
  have hall : ∀ i < 16, isXDigit (kHexChars.getD i '0') = true := by decide
  induction n generalizing z with
  | zero => cases h
  | succ n ih =>
    rcases List.mem_cons.mp h with rfl | hrest
    · exact hall _ (by rw [toNat_and_fifteen]; exact Nat.mod_lt _ (by decide))
    · exact ih hrest

/-! ## The digits of a key -/

@[simp] theorem length_randomDigits (left : Nat) (s : BitVec 64) :
    (randomDigits left s).1.length = left := by
  induction left using Nat.strongRecOn generalizing s with
  | ind left ih =>
    rw [randomDigits]
    split
    · next hzero => exact hzero.symm
    · next hpos =>
      rw [List.length_append, length_hexChars, ih _ (by omega)]
      omega

theorem mem_randomDigits {left : Nat} {s : BitVec 64} {c : Char}
    (h : c ∈ (randomDigits left s).1) : isXDigit c = true := by
  induction left using Nat.strongRecOn generalizing s with
  | ind left ih =>
    rw [randomDigits] at h
    split at h
    · cases h
    · next hpos =>
      rcases List.mem_append.mp h with hfirst | hrest
      · exact mem_hexChars hfirst
      · exact ih _ (by omega) hrest

/-- How many draws a key takes. -/
def draws (left : Nat) : Nat := (left + 15) / 16

theorem randomDigits_counter (left : Nat) (s : BitVec 64) :
    (randomDigits left s).2 = s + BitVec.ofNat 64 (draws left) * goldenGamma := by
  induction left using Nat.strongRecOn generalizing s with
  | ind left ih =>
    rw [randomDigits]
    split
    · next hzero =>
      rw [hzero]
      simp [draws]
    · next hpos =>
      have hdraws : draws left = draws (left - 16) + 1 := by
        rw [draws, draws]
        omega
      have hone : BitVec.ofNat 64 1 = 1 := rfl
      rw [ih _ (by omega), hdraws, BitVec.ofNat_add, hone]
      ring

/-- Where a key has 16 digits of its own, they tell the counter. -/
theorem randomDigits_inj {left : Nat} (hleft : 16 ≤ left) {s t : BitVec 64}
    (h : (randomDigits left s).1 = (randomDigits left t).1) : s = t := by
  have hpos : left ≠ 0 := by omega
  rw [randomDigits, randomDigits, if_neg hpos, if_neg hpos, Nat.min_eq_left hleft] at h
  have hfirst := (List.append_inj h (by rw [length_hexChars, length_hexChars])).1
  have hnat := hexChars_inj hfirst
  have hpow : 16 ^ 16 = 2 ^ 64 := by decide
  rw [hpow, Nat.mod_eq_of_lt (BitVec.isLt _), Nat.mod_eq_of_lt (BitVec.isLt _)] at hnat
  exact add_right_cancel (mix_injective (BitVec.eq_of_toNat_eq hnat))

/-! ## The keys of a filling -/

namespace RandomHexKeyGenerator

variable (g : RandomHexKeyGenerator)

/-- The key that is drawn when the counter is `s`. -/
def keyAt (s : BitVec 64) : List Char :=
  g.keyPrefix.take g.pre ++ (randomDigits (g.totalLength - g.pre) s).1

/-- Each key goes on with the counter where the one before it ended. -/
theorem fillFrom_eq (count : Nat) (s : BitVec 64) :
    g.fillFrom count s = (List.range count).map fun i ↦
      g.keyAt (s + BitVec.ofNat 64 (i * draws (g.totalLength - g.pre)) * goldenGamma) := by
  induction count generalizing s with
  | zero => rfl
  | succ count ih =>
    have hnext (i : Nat) : s + BitVec.ofNat 64 (draws (g.totalLength - g.pre)) * goldenGamma +
        BitVec.ofNat 64 (i * draws (g.totalLength - g.pre)) * goldenGamma =
        s + BitVec.ofNat 64 ((i + 1) * draws (g.totalLength - g.pre)) * goldenGamma := by
      rw [Nat.succ_mul, BitVec.ofNat_add]
      ring
    rw [fillFrom, List.range_succ_eq_map, List.map_cons, List.map_map]
    rw [randomDigits_counter, ih]
    congr 1
    · simp [keyAt]
    · exact List.map_congr_left fun i _ ↦ congrArg g.keyAt (hnext i)

@[simp] theorem length_fillMany (high low : BitVec 32) (count : Nat) :
    (g.fillMany high low count).length = count := by
  rw [fillMany, fillFrom_eq, List.length_map, List.length_range]

@[simp] theorem length_keyAt (s : BitVec 64) : (g.keyAt s).length = g.totalLength := by
  have hpre : g.pre ≤ g.totalLength := Nat.min_le_right _ _
  have hlen : g.pre ≤ g.keyPrefix.length := Nat.min_le_left _ _
  rw [keyAt, List.length_append, length_randomDigits, List.length_take, Nat.min_eq_left hlen]
  omega

/-- **No key of a filling comes twice**, as long as each has 16 digits of its own and the counter
does not come around. -/
theorem nodup_fillMany {g : RandomHexKeyGenerator} {count : Nat}
    (hdigits : g.keyPrefix.length + 16 ≤ g.totalLength)
    (hcount : count * draws (g.totalLength - g.keyPrefix.length) ≤ 2 ^ 64) (high low : BitVec 32) :
    (g.fillMany high low count).Nodup := by
  have hpre : g.pre = g.keyPrefix.length := Nat.min_eq_left (by omega)
  have hinverse : goldenGamma * 0xF1DE83E19937733D = 1 := by decide
  have hdraws : 0 < draws (g.totalLength - g.keyPrefix.length) := by
    rw [draws]
    omega
  rw [fillMany, fillFrom_eq, hpre]
  generalize high.setWidth 64 <<< 32 ^^^ low.setWidth 64 ^^^
    BitVec.ofNat 64 count * goldenGamma = s
  generalize draws (g.totalLength - g.keyPrefix.length) = d at hcount hdraws
  have hsmall {i : Nat} (hi : i < count) : i * d < 2 ^ 64 :=
    lt_of_lt_of_le (Nat.mul_lt_mul_of_pos_right hi hdraws) hcount
  refine List.Nodup.map_on ?_ List.nodup_range
  intro i hi j hj hkeys
  have hcounter := randomDigits_inj (by omega) (List.append_cancel_left hkeys)
  have hmul := mul_right_injective_of_inverse hinverse (add_left_cancel hcounter)
  have hnat := congrArg BitVec.toNat hmul
  rw [BitVec.toNat_ofNat, BitVec.toNat_ofNat, Nat.mod_eq_of_lt (hsmall (List.mem_range.mp hi)),
    Nat.mod_eq_of_lt (hsmall (List.mem_range.mp hj))] at hnat
  exact Nat.eq_of_mul_eq_mul_right hdraws hnat

theorem nodup_fillMany_hundred :
    ((setPrefix { keyPrefix := [], totalLength := 64 } ['A', 'b']).fillMany 7 8 100).Nodup :=
  nodup_fillMany (by decide) (by decide) 7 8

/-- What a worker of the pool fills with. -/
def ofPrefix (keyPrefix : List Char) : RandomHexKeyGenerator :=
  setPrefix { keyPrefix := [], totalLength := kHashApiKeyLength } keyPrefix

/-- A normalized prefix is taken as it is. -/
theorem ofPrefix_normalizeHex (value : List Char) :
    ofPrefix (normalizeHex value) =
      { keyPrefix := normalizeHex value, totalLength := kHashApiKeyLength } := by
  have hlower (text : List Char) :
      (text.map Char.toLower).map Char.toLower = text.map Char.toLower := by
    rw [List.map_map]
    exact List.map_congr_left fun c _ ↦ toLower_toLower c
  have hsame : (normalizeHex value).map Char.toLower = normalizeHex value := hlower _
  rw [ofPrefix, setPrefix, hsame]

/-- **The keys of a valid request are keys**: each has its 64 hex digits and begins with the prefix
that was asked for. -/
theorem fillMany_valid {request : Request} (h : request.Valid) {high low : BitVec 32} {count : Nat}
    {key : List Char}
    (hkey : key ∈ (ofPrefix (normalizeHex request.keyPrefix)).fillMany high low count) :
    isHex64KeyRaw key = true ∧ normalizeHex request.keyPrefix <+: key := by
  obtain ⟨hlength, hhex⟩ := h.keyPrefix
  rw [ofPrefix_normalizeHex, fillMany, fillFrom_eq, List.mem_map] at hkey
  obtain ⟨i, -, rfl⟩ := hkey
  generalize normalizeHex request.keyPrefix = keyPrefix at hlength hhex
  constructor
  · rw [isHex64KeyRaw_eq, isHex64Key, String.toList_ofList, length_keyAt]
    refine Bool.and_eq_true_iff.mpr ⟨rfl, List.all_eq_true.mpr fun c hc ↦ ?_⟩
    rcases List.mem_append.mp hc with hpre | hdigit
    · exact List.all_eq_true.mp hhex c (List.mem_of_mem_take hpre)
    · exact mem_randomDigits hdigit
  · have htake : keyPrefix.take (min keyPrefix.length kHashApiKeyLength) = keyPrefix := by
      rw [Nat.min_eq_left hlength, List.take_length]
    rw [keyAt, pre, htake]
    exact List.prefix_append _ _

theorem fillMany_valid_plain :
    ∃ key ∈ (ofPrefix (normalizeHex plainRequest.keyPrefix)).fillMany 7 8 2,
      isHex64KeyRaw key = true ∧ normalizeHex plainRequest.keyPrefix <+: key := by
  obtain ⟨key, keys, hkeys⟩ : ∃ key keys,
      (ofPrefix (normalizeHex plainRequest.keyPrefix)).fillMany 7 8 2 = key :: keys := ⟨_, _, rfl⟩
  have hmem := hkeys ▸ List.mem_cons_self (a := key) (l := keys)
  exact ⟨key, hmem, fillMany_valid plainRequest_valid hmem⟩

end RandomHexKeyGenerator

end XNMiner.HashApi
