import XNMiner.Lib.Blake2b
import Mathlib.Algebra.BigOperators.Group.List.Defs
import Mathlib.Data.List.FinRange

/-!
# The BLAKE2b of the miner

`vendor/blake2b.cpp` hashes on the host, and `vendor/kernelrunner.cu` has the same functions for the
device.  Both take their input in any number of pieces and keep back up to one block of it, since
the last block is compressed with another flag.  Whatever the pieces are, the digest is that of the
standard (`final_pieces`).
-/

namespace XNMiner

open Lib.LittleEndian Lib.Blake2b

def blake2bIV : Vector (BitVec 64) 8 := #v[
  0x6a09e667f3bcc908, 0xbb67ae8584caa73b, 0x3c6ef372fe94f82b, 0xa54ff53a5f1d36f1,
  0x510e527fade682d1, 0x9b05688c2b3e6c1f, 0x1f83d9abfb41bd6b, 0x5be0cd19137e2179]

/-- `blake2b_sigma`, with its two more rows. -/
def blake2bSigma : List (List (Fin 16)) := [
  [0, 1, 2, 3, 4, 5, 6, 7, 8, 9, 10, 11, 12, 13, 14, 15],
  [14, 10, 4, 8, 9, 15, 13, 6, 1, 12, 0, 2, 11, 7, 5, 3],
  [11, 8, 12, 0, 5, 2, 15, 13, 10, 14, 3, 6, 7, 1, 9, 4],
  [7, 9, 3, 1, 13, 12, 11, 14, 2, 6, 5, 10, 4, 0, 15, 8],
  [9, 0, 5, 7, 2, 4, 10, 15, 14, 1, 11, 12, 6, 8, 3, 13],
  [2, 12, 6, 10, 0, 11, 8, 3, 4, 13, 7, 5, 15, 14, 1, 9],
  [12, 5, 1, 15, 14, 13, 4, 10, 0, 7, 6, 3, 9, 2, 8, 11],
  [13, 11, 7, 14, 12, 1, 3, 9, 5, 0, 15, 4, 8, 6, 2, 10],
  [6, 15, 14, 9, 11, 3, 0, 8, 12, 2, 13, 7, 1, 4, 10, 5],
  [10, 2, 8, 4, 7, 6, 1, 5, 15, 11, 9, 14, 3, 12, 13, 0],
  [0, 1, 2, 3, 4, 5, 6, 7, 8, 9, 10, 11, 12, 13, 14, 15],
  [14, 10, 4, 8, 9, 15, 13, 6, 1, 12, 0, 2, 11, 7, 5, 3]]

def rotr64 (x : BitVec 64) (n : Nat) : BitVec 64 := (x >>> n) ||| (x <<< (64 - n))

/-- `load64`: eight bytes, the first the least significant. -/
def load64 (src : List (BitVec 8)) : BitVec 64 :=
  let byte (i : Nat) : BitVec 64 := (src.getD i 0).setWidth 64
  byte 0 ||| byte 1 <<< 8 ||| byte 2 <<< 16 ||| byte 3 <<< 24 ||| byte 4 <<< 32 |||
    byte 5 <<< 40 ||| byte 6 <<< 48 ||| byte 7 <<< 56

def store64 (v : BitVec 64) : List (BitVec 8) :=
  (List.range 8).map fun i ↦ (v >>> (8 * i)).setWidth 8

/-- The macro `G`. -/
def blakeG (m : Vector (BitVec 64) 16) (r : Fin 12) (i : Fin 8) (v : Vector (BitVec 64) 16)
    (a b c d : Fin 16) : Vector (BitVec 64) 16 :=
  let v := put v a (v.get a + v.get b + m.get ((blake2bSigma.getD r []).getD (2 * i + 0) 0))
  let v := put v d (rotr64 (v.get d ^^^ v.get a) 32)
  let v := put v c (v.get c + v.get d)
  let v := put v b (rotr64 (v.get b ^^^ v.get c) 24)
  let v := put v a (v.get a + v.get b + m.get ((blake2bSigma.getD r []).getD (2 * i + 1) 0))
  let v := put v d (rotr64 (v.get d ^^^ v.get a) 16)
  let v := put v c (v.get c + v.get d)
  put v b (rotr64 (v.get b ^^^ v.get c) 63)

/-- The macro `ROUND`. -/
def blakeRound (m v : Vector (BitVec 64) 16) (r : Fin 12) : Vector (BitVec 64) 16 :=
  let v := blakeG m r 0 v 0 4 8 12
  let v := blakeG m r 1 v 1 5 9 13
  let v := blakeG m r 2 v 2 6 10 14
  let v := blakeG m r 3 v 3 7 11 15
  let v := blakeG m r 4 v 0 5 10 15
  let v := blakeG m r 5 v 1 6 11 12
  let v := blakeG m r 6 v 2 7 8 13
  blakeG m r 7 v 3 4 9 14

/-! ## The class -/

/-- The members of `Blake2b`; of `buf`, the bytes in use. -/
structure Blake2b where
  h : Vector (BitVec 64) 8
  t0 : BitVec 64
  t1 : BitVec 64
  buf : List (BitVec 8)

namespace Blake2b

def init (outLen : Nat) : Blake2b where
  h := put blake2bIV 0 (blake2bIV.get 0 ^^^ (BitVec.ofNat 64 outLen ||| 1 <<< 16 ||| 1 <<< 24))
  t0 := 0
  t1 := 0
  buf := []

def incrementCounter (s : Blake2b) (inc : Nat) : Blake2b :=
  let t0 := s.t0 + BitVec.ofNat 64 inc
  { s with t0, t1 := s.t1 + if t0.toNat < inc then 1 else 0 }

def compress (s : Blake2b) (block : List (BitVec 8)) (f0 : BitVec 64) : Blake2b :=
  let m : Vector (BitVec 64) 16 := Vector.ofFn fun i ↦ load64 ((block.drop (8 * i)).take 8)
  let v := #v[s.h.get 0, s.h.get 1, s.h.get 2, s.h.get 3, s.h.get 4, s.h.get 5, s.h.get 6,
    s.h.get 7, blake2bIV.get 0, blake2bIV.get 1, blake2bIV.get 2, blake2bIV.get 3,
    blake2bIV.get 4 ^^^ s.t0, blake2bIV.get 5 ^^^ s.t1, blake2bIV.get 6 ^^^ f0, blake2bIV.get 7]
  let v := (List.finRange 12).foldl (blakeRound m) v
  { s with h := Vector.ofFn fun i ↦
      s.h.get i ^^^ (v.get (Fin.ofNat 16 i) ^^^ v.get (Fin.ofNat 16 (i + 8))) }

/-- The loop of `update` over the input that is left. -/
def compressBlocks (s : Blake2b) (bs : List (BitVec 8)) : Blake2b × List (BitVec 8) :=
  if 128 < bs.length then
    compressBlocks ((s.incrementCounter 128).compress (bs.take 128) 0) (bs.drop 128)
  else (s, bs)
termination_by bs.length
decreasing_by
  rw [List.length_drop]
  omega

/-- `update`, where `bufLen + inLen` is a number of `w` bits. -/
def updateBits (w : Nat) (s : Blake2b) (bs : List (BitVec 8)) : Blake2b :=
  if 128 < (s.buf.length + bs.length) % 2 ^ w then
    let left := 128 - s.buf.length
    let s := (s.incrementCounter 128).compress (s.buf ++ bs.take left) 0
    let (s, bs) := compressBlocks { s with buf := [] } (bs.drop left)
    { s with buf := s.buf ++ bs }
  else { s with buf := s.buf ++ bs }

def update : Blake2b → List (BitVec 8) → Blake2b := updateBits 64

def final (s : Blake2b) (outLen : Nat) : List (BitVec 8) :=
  let s := s.incrementCounter s.buf.length
  let s := s.compress (s.buf ++ List.replicate (128 - s.buf.length) 0) 0xFFFFFFFFFFFFFFFF
  let out := s.h.toList.flatMap store64
  if outLen = 64 then out else out.take outLen

end Blake2b

/-! ## The functions for the device -/

def deviceBlake2bInit : Nat → Blake2b := Blake2b.init

def deviceBlake2bCompress : Blake2b → List (BitVec 8) → BitVec 64 → Blake2b := Blake2b.compress

/-- `device_blake2b_update`, whose lengths are of 32 bits. -/
def deviceBlake2bUpdate : Blake2b → List (BitVec 8) → Blake2b := Blake2b.updateBits 32

def deviceBlake2bFinal (s : Blake2b) (outLen : Nat) : List (BitVec 8) :=
  let s := s.incrementCounter s.buf.length
  let s := deviceBlake2bCompress s (s.buf ++ List.replicate (128 - s.buf.length) 0)
    0xFFFFFFFFFFFFFFFF
  (s.h.toList.flatMap store64).take outLen

/-! ## The compression is that of the standard -/

theorem blake2bIV_eq : blake2bIV = iv := by decide +kernel

theorem blake2bSigma_eq : ∀ (r : Fin 12) (k : Fin 16),
    (blake2bSigma.getD r []).getD k 0 = (sigma.get (Fin.ofNat 10 r)).get k := by
  decide

theorem rotr64_eq (x : BitVec 64) {n : Nat} (h : n < 64) : rotr64 x n = x.rotateRight n := by
  rw [BitVec.rotateRight_def, Nat.mod_eq_of_lt h]
  rfl

theorem load64_eq {bs : List (BitVec 8)} (h : bs.length = 8) : load64 bs = word 64 bs := by
  obtain ⟨a, b, c, d, e, f, g, i, rfl⟩ : ∃ a b c d e f g i, bs = [a, b, c, d, e, f, g, i] := by
    match bs, h with
    | [a, b, c, d, e, f, g, i], _ => exact ⟨a, b, c, d, e, f, g, i, rfl⟩
  refine BitVec.eq_of_getLsbD_eq fun k hk ↦ ?_
  simp only [load64, word, List.getD_cons_zero, List.getD_cons_succ]
  simp only [BitVec.getLsbD_or, BitVec.getLsbD_shiftLeft, BitVec.getLsbD_setWidth]
  grind

theorem store64_eq (v : BitVec 64) : store64 v = bytes 8 v := by
  refine List.map_congr_left fun i _ ↦ BitVec.eq_of_getLsbD_eq fun k hk ↦ ?_
  simp [BitVec.getLsbD_setWidth, BitVec.getLsbD_extractLsb']

theorem blakeRound_eq (m v : Vector (BitVec 64) 16) (r : Fin 12) :
    blakeRound m v r = round m v r := by
  have hmix (v : Vector (BitVec 64) 16) (i : Fin 8) (a b c d : Fin 16) :
      blakeG m r i v a b c d = mix v a b c d
        (m.get ((sigma.get (Fin.ofNat 10 r)).get (Fin.ofNat 16 (2 * i + 0))))
        (m.get ((sigma.get (Fin.ofNat 10 r)).get (Fin.ofNat 16 (2 * i + 1)))) := by
    have heven : (Fin.ofNat 16 (2 * i + 0)).val = 2 * i + 0 := Nat.mod_eq_of_lt (by omega)
    have hodd : (Fin.ofNat 16 (2 * i + 1)).val = 2 * i + 1 := Nat.mod_eq_of_lt (by omega)
    rw [← blake2bSigma_eq, ← blake2bSigma_eq, heven, hodd]
    unfold blakeG
    dsimp only
    rw [rotr64_eq _ (by decide), rotr64_eq _ (by decide), rotr64_eq _ (by decide),
      rotr64_eq _ (by decide)]
    rfl
  unfold blakeRound
  simp only [hmix]
  rfl

theorem foldl_blakeRound (m v : Vector (BitVec 64) 16) :
    (List.finRange 12).foldl (blakeRound m) v = (List.range 12).foldl (round m) v := by
  rw [← List.map_coe_finRange_eq_range, List.foldl_map]
  exact List.foldl_ext _ _ _ fun v r _ ↦ blakeRound_eq m v r

/-- The words of a block. -/
theorem blakeWords_eq {block : List (BitVec 8)} (h : block.length = 128) :
    (Vector.ofFn fun i : Fin 16 ↦ load64 ((block.drop (8 * i)).take 8)) = words block := by
  refine Vector.ext fun i hi ↦ ?_
  rw [words, Vector.getElem_ofFn, Vector.getElem_ofFn]
  refine load64_eq ?_
  rw [List.length_take, List.length_drop]
  omega

/-- The counter `t` holds the number of bytes that were compressed. -/
structure Blake2b.Counts (s : Blake2b) (count : Nat) : Prop where
  low : s.t0 = BitVec.ofNat 64 count
  high : s.t1 = BitVec.ofNat 64 (count / 2 ^ 64)

theorem Blake2b.Counts.incrementCounter {s : Blake2b} {count : Nat} (h : s.Counts count) {inc : Nat}
    (hinc : inc < 2 ^ 64) : (s.incrementCounter inc).Counts (count + inc) := by
  obtain ⟨hlow, hhigh⟩ := h
  have hsum : s.t0 + BitVec.ofNat 64 inc = BitVec.ofNat 64 (count + inc) := by
    rw [hlow, BitVec.ofNat_add]
  refine ⟨hsum, ?_⟩
  change s.t1 + (if (s.t0 + BitVec.ofNat 64 inc).toNat < inc then 1 else 0) = _
  rw [hsum, hhigh, BitVec.toNat_ofNat]
  refine BitVec.eq_of_toNat_eq ?_
  split
  · rw [BitVec.toNat_add, BitVec.toNat_ofNat, BitVec.toNat_ofNat]
    have : (1 : BitVec 64).toNat = 1 := rfl
    rw [this]
    omega
  · rw [BitVec.toNat_add, BitVec.toNat_ofNat, BitVec.toNat_ofNat]
    have : (0 : BitVec 64).toNat = 0 := rfl
    rw [this]
    omega

/-- The finalization flag. -/
def finalFlag (last : Bool) : BitVec 64 := if last then 0xFFFFFFFFFFFFFFFF else 0

/-- **The compression is that of the standard.** -/
theorem Blake2b.compress_h {s : Blake2b} {count : Nat} (hcount : s.Counts count)
    {block : List (BitVec 8)} (hblock : block.length = 128) (last : Bool) :
    (s.compress block (finalFlag last)).h = Lib.Blake2b.compress s.h (words block) count last := by
  have hwork : #v[s.h.get 0, s.h.get 1, s.h.get 2, s.h.get 3, s.h.get 4, s.h.get 5, s.h.get 6,
      s.h.get 7, blake2bIV.get 0, blake2bIV.get 1, blake2bIV.get 2, blake2bIV.get 3,
      blake2bIV.get 4 ^^^ s.t0, blake2bIV.get 5 ^^^ s.t1, blake2bIV.get 6 ^^^ finalFlag last,
      blake2bIV.get 7] = workVector s.h count last := by
    have hflag : iv.get 6 ^^^ finalFlag last = if last then ~~~iv.get 6 else iv.get 6 := by
      cases last with
      | true => exact BitVec.xor_allOnes
      | false => exact BitVec.xor_zero
    rw [blake2bIV_eq, hcount.low, hcount.high, hflag]
    rfl
  unfold Blake2b.compress Lib.Blake2b.compress
  dsimp only
  rw [hwork, blakeWords_eq hblock, foldl_blakeRound]
  generalize (List.range 12).foldl (round (words block)) (workVector s.h count last) = v
  have hget {i : Nat} (hi : i < 16) : v.get (Fin.ofNat 16 i) = v[i] := by
    change v[i % 16] = v[i]
    simp only [Nat.mod_eq_of_lt hi]
  refine Vector.ext fun i hi ↦ ?_
  rw [Vector.getElem_ofFn, Vector.getElem_ofFn, BitVec.xor_assoc,
    hget (Nat.lt_of_lt_of_le hi (by decide)), hget (Nat.add_lt_add_right hi 8)]
  rfl

/-! ## Pieces -/

namespace Blake2b

variable {s : Blake2b} {nn w : Nat} {data : List (BitVec 8)}

/-- **What the object holds after some data**: the state after all blocks that something follows,
their length, and the bytes that are kept back. -/
structure Absorbed (nn : Nat) (data : List (BitVec 8)) (s : Blake2b) : Prop where
  h : s.h = absorb nn data (fullBlocks data.length)
  count : s.Counts (128 * fullBlocks data.length)
  buf : s.buf = data.drop (128 * fullBlocks data.length)

theorem absorbed_init {nn : Nat} (hnn : nn ≤ 64) : Absorbed nn [] (init nn) := by
  refine ⟨?_, ⟨rfl, rfl⟩, rfl⟩
  have hparam : BitVec.ofNat 64 nn ||| 1 <<< 16 ||| 1 <<< 24 =
      0x01010000 ^^^ BitVec.ofNat 64 nn := by
    have hall : ∀ nn < 65, BitVec.ofNat 64 nn ||| 1 <<< 16 ||| 1 <<< 24 =
        0x01010000 ^^^ BitVec.ofNat 64 nn := by decide
    exact hall nn (by omega)
  change put blake2bIV 0 _ = initial nn
  rw [hparam, blake2bIV_eq, initial, BitVec.xor_assoc]

/-- The bytes that are kept back are at most one block. -/
theorem Absorbed.length_buf (h : Absorbed nn data s) :
    s.buf.length = data.length - 128 * fullBlocks data.length ∧ s.buf.length ≤ 128 := by
  rw [h.buf, List.length_drop, fullBlocks]
  exact ⟨rfl, by omega⟩

/-- One more block. -/
theorem compress_next {count : Nat} (hh : s.h = absorb nn data count)
    (hcount : s.Counts (128 * count)) {block : List (BitVec 8)}
    (hblock : block = (data.drop (128 * count)).take 128) (hlen : block.length = 128) :
    ((s.incrementCounter 128).compress block 0).h = absorb nn data (count + 1) ∧
      ((s.incrementCounter 128).compress block 0).Counts (128 * (count + 1)) := by
  have hnext : (s.incrementCounter 128).Counts (128 * (count + 1)) :=
    hcount.incrementCounter (by decide)
  refine ⟨?_, hnext.low, hnext.high⟩
  have hcompress := compress_h hnext hlen false
  rw [absorb_succ, ← hblock, ← hh]
  exact hcompress

/-- The loop leaves what `update` keeps back. -/
theorem compressBlocks_spec {bs : List (BitVec 8)} {count : Nat}
    (hh : s.h = absorb nn data count) (hcount : s.Counts (128 * count))
    (hbs : bs = data.drop (128 * count)) (hbuf : s.buf = []) (hne : bs ≠ []) :
    (compressBlocks s bs).1.h = absorb nn data (fullBlocks data.length) ∧
      (compressBlocks s bs).1.Counts (128 * fullBlocks data.length) ∧
      (compressBlocks s bs).1.buf = [] ∧
      (compressBlocks s bs).2 = data.drop (128 * fullBlocks data.length) := by
  have hlen : bs.length = data.length - 128 * count := by rw [hbs, List.length_drop]
  have hpos : 0 < bs.length := List.length_pos_of_ne_nil hne
  induction s, bs using compressBlocks.induct generalizing count with
  | case1 s bs hmore ih =>
      obtain ⟨hnext, hnextCount⟩ := compress_next hh hcount (congrArg (List.take 128) hbs)
        (by rw [List.length_take]; omega)
      have hdrop : bs.drop 128 = data.drop (128 * (count + 1)) := by
        rw [hbs, List.drop_drop, Nat.mul_succ]
      have hleft : (bs.drop 128).length = data.length - 128 * (count + 1) := by
        rw [hdrop, List.length_drop]
      rw [compressBlocks, if_pos hmore]
      exact ih hnext hnextCount hdrop hbuf (List.ne_nil_of_length_pos (by omega)) hleft (by omega)
  | case2 s bs hdone =>
      have hlast : fullBlocks data.length = count := by
        rw [fullBlocks]
        omega
      rw [compressBlocks, if_neg hdone, hlast]
      exact ⟨hh, hcount, hbuf, hbs⟩

/-- **`update` adds its input to the data.** -/
theorem Absorbed.updateBits (h : Absorbed nn data s) {bs : List (BitVec 8)}
    (hw : bs.length + 128 < 2 ^ w) : Absorbed nn (data ++ bs) (s.updateBits w bs) := by
  obtain ⟨hlen, hle⟩ := h.length_buf
  have hfull : 128 * fullBlocks data.length ≤ data.length := by
    rw [fullBlocks]
    omega
  rw [Blake2b.updateBits, Nat.mod_eq_of_lt (by omega)]
  split
  · next hmore =>
    have hdrop : (data ++ bs).drop (128 * fullBlocks data.length) = s.buf ++ bs := by
      rw [List.drop_append_of_le_length hfull, h.buf]
    have hh : s.h = absorb nn (data ++ bs) (fullBlocks data.length) :=
      h.h.trans (absorb_append hfull bs).symm
    have hblock : s.buf ++ bs.take (128 - s.buf.length) = (s.buf ++ bs).take 128 := by
      rw [List.take_append, List.take_of_length_le hle]
    obtain ⟨hnext, hcount⟩ := compress_next hh h.count (hblock.trans (by rw [hdrop]))
      (by rw [hblock, List.length_take, List.length_append]; omega)
    have hrest : bs.drop (128 - s.buf.length) =
        (data ++ bs).drop (128 * (fullBlocks data.length + 1)) := by
      rw [Nat.mul_succ, ← List.drop_drop, hdrop, List.drop_append, List.drop_of_length_le hle,
        List.nil_append]
    have hne : bs.drop (128 - s.buf.length) ≠ [] :=
      List.ne_nil_of_length_pos (by rw [List.length_drop]; omega)
    dsimp only
    generalize (s.incrementCounter 128).compress (s.buf ++ bs.take (128 - s.buf.length)) 0 = u
      at hnext hcount
    obtain ⟨hh', hcount', hbuf', hkept⟩ :=
      compressBlocks_spec (s := { u with buf := [] }) hnext ⟨hcount.low, hcount.high⟩ hrest rfl hne
    refine ⟨hh', ⟨hcount'.low, hcount'.high⟩, ?_⟩
    change _ ++ _ = _
    rw [hbuf', hkept]
    rfl
  · next hfits =>
    have hsame : fullBlocks (data ++ bs).length = fullBlocks data.length := by
      rw [List.length_append, fullBlocks, fullBlocks] at *
      omega
    refine ⟨?_, ?_, ?_⟩
    · rw [hsame, absorb_append hfull]
      exact h.h
    · rw [hsame]
      exact ⟨h.count.low, h.count.high⟩
    · rw [hsame, List.drop_append_of_le_length hfull, ← h.buf]

theorem length_flatMap_store64 (h : Vector (BitVec 64) 8) :
    (h.toList.flatMap store64).length = 64 := by
  rw [List.length_flatMap]
  simp [store64]

/-- Both ways to write the digest are one. -/
theorem final_eq_take (s : Blake2b) (outLen : Nat) :
    s.final outLen = (((s.incrementCounter s.buf.length).compress
      (s.buf ++ List.replicate (128 - s.buf.length) 0) (finalFlag true)).h.toList.flatMap
        store64).take outLen := by
  rw [final]
  split
  · next hfull =>
    rw [hfull, List.take_of_length_le (Nat.le_of_eq (length_flatMap_store64 _))]
    rfl
  · rfl

/-- **`final` makes the digest of the data.** -/
theorem Absorbed.final (h : Absorbed nn data s) : s.final nn = blake2b nn data := by
  obtain ⟨hlen, hle⟩ := h.length_buf
  have hcount : (s.incrementCounter s.buf.length).Counts data.length := by
    have hsum : 128 * fullBlocks data.length + s.buf.length = data.length := by
      rw [hlen, fullBlocks]
      omega
    exact hsum ▸ h.count.incrementCounter (by omega)
  have hblock : (s.buf ++ List.replicate (128 - s.buf.length) 0).length = 128 := by
    rw [List.length_append, List.length_replicate]
    omega
  rw [final_eq_take, compress_h hcount hblock true, funext store64_eq, blake2b, padBlock, ← h.buf,
    ← h.h]
  rfl

/-- **The digest does not depend on the pieces.**  The bound on a piece is that `bufLen + inLen`
does not wrap. -/
theorem final_pieces {nn : Nat} (hnn : nn ≤ 64) {pieces : List (List (BitVec 8))}
    (hw : ∀ piece ∈ pieces, piece.length + 128 < 2 ^ w) :
    (pieces.foldl (Blake2b.updateBits w) (init nn)).final nn = blake2b nn pieces.flatten := by
  have habsorbed (data : List (BitVec 8)) (s : Blake2b) (h : Absorbed nn data s) :
      Absorbed nn (data ++ pieces.flatten) (pieces.foldl (Blake2b.updateBits w) s) := by
    induction pieces generalizing data s with
    | nil => simpa using h
    | cons piece pieces ih =>
        rw [List.foldl_cons, List.flatten_cons, ← List.append_assoc]
        exact ih (fun p hp ↦ hw p (List.mem_cons_of_mem piece hp)) _ _
          (h.updateBits (hw piece List.mem_cons_self))
  exact (habsorbed [] _ (absorbed_init hnn)).final

theorem final_pieces_two : ([[1, 2], [3]].foldl (Blake2b.updateBits 32) (init 32)).final 32 =
    blake2b 32 [1, 2, 3] := final_pieces (by decide) (by decide)

end Blake2b

/-- The device's `final` is the host's. -/
theorem deviceBlake2bFinal_eq (s : Blake2b) (outLen : Nat) :
    deviceBlake2bFinal s outLen = s.final outLen := (s.final_eq_take outLen).symm

end XNMiner
