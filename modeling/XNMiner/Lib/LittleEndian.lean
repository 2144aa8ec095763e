import Mathlib.Data.BitVec
import Mathlib.Data.List.GetD
import Mathlib.Data.List.OfFn

/-!
# Little-endian bytes

A word as a sequence of bytes, the least significant first, and back.
-/

namespace Lib.LittleEndian

variable {w : Nat}

/-- The first `n` bytes of a word, the least significant first. -/
def bytes (n : Nat) (x : BitVec w) : List (BitVec 8) :=
  (List.range n).map fun i ↦ x.extractLsb' (8 * i) 8

@[simp] theorem length_bytes (n : Nat) (x : BitVec w) : (bytes n x).length = n := by
  simp [bytes]

/-- The word with these bytes. -/
def word (w : Nat) : List (BitVec 8) → BitVec w
  | [] => 0
  | b :: bs => b.setWidth w ||| (word w bs <<< 8)

theorem getLsbD_word {bs : List (BitVec 8)} {k : Nat} (hk : k < w) :
    (word w bs).getLsbD k = (bs.getD (k / 8) 0).getLsbD (k % 8) := by
  induction bs generalizing k with
  | nil => simp [word]
  | cons b bs ih =>
    rw [word, BitVec.getLsbD_or, BitVec.getLsbD_setWidth, BitVec.getLsbD_shiftLeft]
    by_cases hlow : k < 8
    · simp [hk, hlow, Nat.div_eq_of_lt hlow, Nat.mod_eq_of_lt hlow]
    · obtain ⟨j, rfl⟩ : ∃ j, k = j + 8 := ⟨k - 8, by omega⟩
      rw [Nat.add_sub_cancel, ih (by omega), BitVec.getLsbD_of_ge _ _ (by omega)]
      simp [hk]

/-- The bytes of a word with these bytes. -/
theorem bytes_word {bs : List (BitVec 8)} {n : Nat} (hlen : bs.length = n) (hw : 8 * n ≤ w) :
    bytes n (word w bs) = bs := by
  refine List.ext_getElem (by simp [hlen]) fun i hi hlt ↦ BitVec.eq_of_getLsbD_eq fun k hk ↦ ?_
  simp only [bytes, List.getElem_map, List.getElem_range]
  rw [BitVec.getLsbD_extractLsb', getLsbD_word (by omega), show (8 * i + k) / 8 = i by omega,
    show (8 * i + k) % 8 = k by omega]
  simp [hlt, hk]

/-- The word with the bytes of a word. -/
theorem word_bytes {n : Nat} (hw : w = 8 * n) (x : BitVec w) : word w (bytes n x) = x := by
  refine BitVec.eq_of_getLsbD_eq fun k hk ↦ ?_
  rw [getLsbD_word hk]
  have hdiv : k / 8 < n := by omega
  simp [bytes, hdiv, Nat.mod_lt k (by decide : 8 > 0), Nat.div_add_mod]

/-! ## Pieces of one length -/

variable {α β : Type}

/-- The pieces of a list, put together again. -/
theorem flatten_pieces (m n : Nat) (l : List α) :
    (List.ofFn fun i : Fin n ↦ (l.drop (m * i)).take m).flatten = l.take (m * n) := by
  induction n with
  | zero => simp
  | succ n ih =>
    rw [List.ofFn_succ_last, List.flatten_append, Nat.mul_succ, List.take_add]
    simpa using ih

/-- A piece of what has been put together. -/
theorem take_drop_flatMap {m : Nat} {f : α → List β} (hf : ∀ x, (f x).length = m) {l : List α}
    {i : Nat} (h : i < l.length) : ((l.flatMap f).drop (m * i)).take m = f l[i] := by
  induction l generalizing i with
  | nil => exact absurd h (Nat.not_lt_zero i)
  | cons x l ih =>
    rw [List.flatMap_cons]
    cases i with
    | zero => rw [Nat.mul_zero, List.drop_zero, List.take_left' (hf x)]; rfl
    | succ i =>
      rw [Nat.mul_succ, Nat.add_comm, ← List.drop_drop, List.drop_left' (hf x),
        ih (Nat.lt_of_succ_lt_succ h)]
      rfl

end Lib.LittleEndian
