import XNMiner.Lib.Sha256
import Mathlib.Data.List.Basic

/-!
# SHA-256

`util/sha256.cpp` hashes the full blocks of the data where they are, and then one or two blocks
that it builds from the rest.  It never makes the padded message; this module shows that it hashes
it all the same (`sha256Hex_eq`).
-/

namespace XNMiner

open Lib.Sha256

def rotr (x : BitVec 32) (n : Nat) : BitVec 32 := (x >>> n) ||| (x <<< (32 - n))

def kK : List (BitVec 32) := [
  0x428a2f98, 0x71374491, 0xb5c0fbcf, 0xe9b5dba5, 0x3956c25b, 0x59f111f1, 0x923f82a4,
  0xab1c5ed5, 0xd807aa98, 0x12835b01, 0x243185be, 0x550c7dc3, 0x72be5d74, 0x80deb1fe,
  0x9bdc06a7, 0xc19bf174, 0xe49b69c1, 0xefbe4786, 0x0fc19dc6, 0x240ca1cc, 0x2de92c6f,
  0x4a7484aa, 0x5cb0a9dc, 0x76f988da, 0x983e5152, 0xa831c66d, 0xb00327c8, 0xbf597fc7,
  0xc6e00bf3, 0xd5a79147, 0x06ca6351, 0x14292967, 0x27b70a85, 0x2e1b2138, 0x4d2c6dfc,
  0x53380d13, 0x650a7354, 0x766a0abb, 0x81c2c92e, 0x92722c85, 0xa2bfe8a1, 0xa81a664b,
  0xc24b8b70, 0xc76c51a3, 0xd192e819, 0xd6990624, 0xf40e3585, 0x106aa070, 0x19a4c116,
  0x1e376c08, 0x2748774c, 0x34b0bcb5, 0x391c0cb3, 0x4ed8aa4a, 0x5b9cca4f, 0x682e6ff3,
  0x748f82ee, 0x78a5636f, 0x84c87814, 0x8cc70208, 0x90befffa, 0xa4506ceb, 0xbef9a3f7,
  0xc67178f2]

/-! ## `sha256_transform` -/

/-- The first loop: the words of the block. -/
def blockWords (block : List (BitVec 8)) : List (BitVec 32) :=
  (List.range 16).map fun i ↦
    ((block.getD (i * 4) 0).setWidth 32 <<< 24) |||
      ((block.getD (i * 4 + 1) 0).setWidth 32 <<< 16) |||
      ((block.getD (i * 4 + 2) 0).setWidth 32 <<< 8) ||| (block.getD (i * 4 + 3) 0).setWidth 32

/-- One round of the second loop: the next word. -/
def nextWord (w : List (BitVec 32)) (i : Nat) : List (BitVec 32) :=
  let s0 := rotr (w.getD (i - 15) 0) 7 ^^^ rotr (w.getD (i - 15) 0) 18 ^^^ (w.getD (i - 15) 0 >>> 3)
  let s1 := rotr (w.getD (i - 2) 0) 17 ^^^ rotr (w.getD (i - 2) 0) 19 ^^^ (w.getD (i - 2) 0 >>> 10)
  w ++ [w.getD (i - 16) 0 + s0 + w.getD (i - 7) 0 + s1]

/-- One round of the third loop. -/
def transformRound (w : List (BitVec 32)) (v : Hash) (i : Nat) : Hash :=
  let S1 := rotr v.e 6 ^^^ rotr v.e 11 ^^^ rotr v.e 25
  let ch := (v.e &&& v.f) ^^^ (~~~v.e &&& v.g)
  let t1 := v.h + S1 + ch + kK.getD i 0 + w.getD i 0
  let S0 := rotr v.a 2 ^^^ rotr v.a 13 ^^^ rotr v.a 22
  let maj := (v.a &&& v.b) ^^^ (v.a &&& v.c) ^^^ (v.b &&& v.c)
  let t2 := S0 + maj
  { h := v.g, g := v.f, f := v.e, e := v.d + t1, d := v.c, c := v.b, b := v.a, a := t1 + t2 }

def sha256Transform (state : Hash) (block : List (BitVec 8)) : Hash :=
  let w := (List.range' 16 48).foldl nextWord (blockWords block)
  let v := (List.range 64).foldl (transformRound w) state
  { a := state.a + v.a, b := state.b + v.b, c := state.c + v.c, d := state.d + v.d
    e := state.e + v.e, f := state.f + v.f, g := state.g + v.g, h := state.h + v.h }

/-! ## `sha256_hex` -/

/-- The first value of `state`. -/
def sha256State : Hash where
  a := 0x6a09e667
  b := 0xbb67ae85
  c := 0x3c6ef372
  d := 0xa54ff53a
  e := 0x510e527f
  f := 0x9b05688c
  g := 0x1f83d9ab
  h := 0x5be0cd19

/-- The loop over the full blocks, with the state and the offset it ends with. -/
def sha256Blocks (data : List (BitVec 8)) (state : Hash) (offset : Nat) : Hash × Nat :=
  if offset + 64 ≤ data.length then
    sha256Blocks data (sha256Transform state ((data.drop offset).take 64)) (offset + 64)
  else (state, offset)
termination_by data.length - offset

/-- The loop that writes the length into the last block. -/
def writeLength (block : List (BitVec 8)) (bitLen : BitVec 64) : List (BitVec 8) :=
  (List.range 8).foldl
    (fun block i ↦ block.set (63 - i) (((bitLen >>> (8 * i)) &&& 0xff).setWidth 8)) block

/-- The state after all blocks. -/
def sha256Final (data : List (BitVec 8)) : Hash :=
  let bitLen : BitVec 64 := BitVec.ofNat 64 data.length * 8
  let (state, offset) := sha256Blocks data sha256State 0
  let rem := data.length - offset
  let block := data.drop offset ++ List.replicate (64 - rem) 0
  let block := block.set rem 0x80
  let (state, block) :=
    if 56 ≤ rem then (sha256Transform state block, List.replicate 64 0) else (state, block)
  sha256Transform state (writeLength block bitLen)

/-- `oss << std::setw(2) << static_cast<int>(b)`, in hex and filled up with zeros. -/
def hexByte (b : BitVec 8) : List Char :=
  let digits := Nat.toDigits 16 b.toNat
  List.replicate (2 - digits.length) '0' ++ digits

def sha256Hex (data : List (BitVec 8)) (prefixBytes : Nat) : String :=
  let state := sha256Final data
  let prefixBytes := if prefixBytes = 0 then 32 else prefixBytes
  let prefixBytes := if 32 < prefixBytes then 32 else prefixBytes
  String.ofList ((List.range prefixBytes).flatMap fun i ↦
    let word := state.toList.getD (i / 4) 0
    hexByte (((word >>> (24 - 8 * (i % 4))) &&& 0xff).setWidth 8))

/-! ## The transform is the compression -/

theorem kK_eq : kK = k := by
  rw [k, primes_eq]
  decide +kernel

theorem sha256State_eq : sha256State = initial := by decide +kernel

/-- A word from its bytes. -/
theorem or_bytes (a b c d : BitVec 8) :
    (a.setWidth 32 <<< 24) ||| (b.setWidth 32 <<< 16) ||| (c.setWidth 32 <<< 8) |||
      d.setWidth 32 = a ++ b ++ c ++ d := by
  refine BitVec.eq_of_getLsbD_eq fun i hi ↦ ?_
  simp only [BitVec.getLsbD_or, BitVec.getLsbD_shiftLeft, BitVec.getLsbD_setWidth,
    BitVec.getLsbD_append]
  grind

/-- The first loop reads the words of the block. -/
theorem blockWords_eq {block : List (BitVec 8)} (h : block.length = 64) :
    blockWords block = words block := by
  rw [words, chunks_eq_map, List.map_map]
  refine List.map_congr_left fun i hi ↦ ?_
  rw [List.mem_range] at hi
  have hfour : (block.drop (i * 4)).take 4 = [block.getD (i * 4) 0, block.getD (i * 4 + 1) 0,
      block.getD (i * 4 + 2) 0, block.getD (i * 4 + 3) 0] := by
    rw [List.getD_eq_getElem _ _ (by omega), List.getD_eq_getElem _ _ (by omega),
      List.getD_eq_getElem _ _ (by omega), List.getD_eq_getElem _ _ (by omega),
      List.drop_eq_getElem_cons (by omega), List.drop_eq_getElem_cons (by omega),
      List.drop_eq_getElem_cons (by omega), List.drop_eq_getElem_cons (by omega)]
    rfl
  rw [Function.comp_apply, hfour, ofBits_ofBytes]
  exact or_bytes _ _ _ _

/-- The second loop fills in the schedule. -/
theorem foldl_nextWord {m : List (BitVec 32)} (h : m.length = 16) (n : Nat) :
    ((List.range' 16 n).foldl nextWord m).length = 16 + n ∧
      ∀ t < 16 + n, ((List.range' 16 n).foldl nextWord m).getD t 0 = schedule m t := by
  induction n with
  | zero =>
      refine ⟨h, fun t ht ↦ ?_⟩
      rw [schedule, if_pos ht]
      rfl
  | succ n ih =>
      obtain ⟨hlen, hw⟩ := ih
      rw [List.range'_1_concat, List.foldl_append, List.foldl_cons, List.foldl_nil]
      generalize (List.range' 16 n).foldl nextWord m = w at hlen hw
      have hnext : w.getD (16 + n - 16) 0 +
          (rotr (w.getD (16 + n - 15) 0) 7 ^^^ rotr (w.getD (16 + n - 15) 0) 18 ^^^
            (w.getD (16 + n - 15) 0 >>> 3)) + w.getD (16 + n - 7) 0 +
          (rotr (w.getD (16 + n - 2) 0) 17 ^^^ rotr (w.getD (16 + n - 2) 0) 19 ^^^
            (w.getD (16 + n - 2) 0 >>> 10)) = schedule m (16 + n) := by
        have hrec : schedule m (16 + n) = smallSigma1 (schedule m (16 + n - 2)) +
            schedule m (16 + n - 7) + smallSigma0 (schedule m (16 + n - 15)) +
            schedule m (16 + n - 16) := by
          rw [schedule, if_neg (by omega)]
        rw [hw _ (by omega), hw _ (by omega), hw _ (by omega), hw _ (by omega), hrec]
        change _ + smallSigma0 _ + _ + smallSigma1 _ = _
        ac_rfl
      refine ⟨by simp [nextWord, hlen, Nat.add_assoc], fun t ht ↦ ?_⟩
      rw [nextWord, hnext]
      by_cases hlast : t < 16 + n
      · rw [List.getD_append _ _ _ _ (by omega)]
        exact hw t hlast
      · obtain rfl : t = 16 + n := by omega
        rw [List.getD_append_right _ _ _ _ (by omega), hlen, Nat.sub_self]
        rfl

/-- **The transform is the compression of the standard.** -/
theorem sha256Transform_eq (state : Hash) {block : List (BitVec 8)} (h : block.length = 64) :
    sha256Transform state block = compress state (words block) := by
  have hlen : (words block).length = 16 := by rw [← blockWords_eq h, blockWords]; simp
  obtain ⟨-, hw⟩ := foldl_nextWord hlen 48
  have hrounds : (List.range 64).foldl
      (transformRound ((List.range' 16 48).foldl nextWord (words block))) state =
      (List.range 64).foldl (fun v t ↦ round v (k.getD t 0) (schedule (words block) t)) state := by
    refine List.foldl_ext _ _ _ fun v t ht ↦ ?_
    rw [← hw t (List.mem_range.mp ht), ← kK_eq]
    rfl
  rw [sha256Transform, blockWords_eq h, hrounds, compress, Hash.add]
  simp only [BitVec.add_comm]

/-! ## The blocks are those of the padded message -/

/-- The loop hashes the full blocks. -/
theorem sha256Blocks_eq (data : List (BitVec 8)) (state : Hash) (offset : Nat) :
    sha256Blocks data state offset =
      ((chunks 64 ((data.length - offset) / 64) (data.drop offset)).foldl sha256Transform state,
        offset + 64 * ((data.length - offset) / 64)) := by
  induction state, offset using sha256Blocks.induct data with
  | case1 state offset hmore ih =>
      have hcount : (data.length - offset) / 64 = (data.length - (offset + 64)) / 64 + 1 := by
        omega
      rw [sha256Blocks, if_pos hmore, ih, hcount, chunks, List.foldl_cons, List.drop_drop,
        Nat.mul_succ, Nat.add_assoc offset 64, Nat.add_comm 64]
  | case2 state offset hdone =>
      have hcount : (data.length - offset) / 64 = 0 := by omega
      rw [sha256Blocks, if_neg hdone, hcount]
      rfl

/-- The last eight bytes of the last block. -/
theorem writeLength_eq {l : List (BitVec 8)} (h : l.length = 56) (bitLen : BitVec 64) :
    writeLength (l ++ List.replicate 8 0) bitLen = l ++ bytes 8 bitLen := by
  have hset (r : List (BitVec 8)) (i : Nat) (b : BitVec 8) :
      (l ++ r).set (56 + i) b = l ++ r.set i b := by
    rw [List.set_append_right _ _ (by omega), h, Nat.add_sub_cancel_left]
  have hbyte (i : Nat) : ((bitLen >>> (8 * i)) &&& 0xff).setWidth 8 =
      bitLen.extractLsb' (8 * i) 8 := lowByte (by decide) bitLen _
  simp only [writeLength, hbyte]
  change ((((((((l ++ List.replicate 8 0).set (56 + 7) _).set (56 + 6) _).set (56 + 5) _).set
    (56 + 4) _).set (56 + 3) _).set (56 + 2) _).set (56 + 1) _).set (56 + 0) _ = _
  rw [hset, hset, hset, hset, hset, hset, hset, hset]
  rfl

/-- The block with the rest of the data and the first bit of the padding. -/
theorem set_rest {rest : List (BitVec 8)} (h : rest.length < 64) :
    (rest ++ List.replicate (64 - rest.length) 0).set rest.length 0x80 =
      rest ++ 0x80 :: List.replicate (63 - rest.length) 0 := by
  have hone : 64 - rest.length = (63 - rest.length) + 1 := by omega
  rw [List.set_append_right _ _ le_rfl, Nat.sub_self, hone, List.replicate_succ, List.set_cons_zero]

/-- The standard's hash value, in the words of the source. -/
theorem hashBytes_eq (data : List (BitVec 8)) : hashBytes data =
    (chunks 64 ((padBytes data).length / 64) (padBytes data)).foldl sha256Transform
      sha256State := by
  have hlen : (padBytes data).length = 64 * ((padBytes data).length / 64) := by
    have hmod := length_padBytes_mod data
    omega
  rw [hashBytes, List.foldl_map, ← sha256State_eq]
  refine List.foldl_ext _ _ _ fun state block hblock ↦ ?_
  exact (sha256Transform_eq state (length_of_mem_chunks hlen hblock)).symm

/-- The blocks of the padded message, if the rest leaves room for the length. -/
theorem chunks_padBytes_short {front rest : List (BitVec 8)} {count : Nat}
    (hfront : front.length = 64 * count) (hrest : rest.length < 56) :
    chunks 64 ((padBytes (front ++ rest)).length / 64) (padBytes (front ++ rest)) =
      chunks 64 count front ++ [rest ++ 0x80 :: List.replicate (55 - rest.length) 0 ++
        bytes 8 (BitVec.ofNat 64 (8 * (front ++ rest).length))] := by
  have hlen : (front ++ rest).length = 64 * count + rest.length := by
    rw [List.length_append, hfront]
  have hzero : zeroBytes (front ++ rest).length = 55 - rest.length := by
    rw [hlen]
    unfold zeroBytes
    omega
  have hcount : (padBytes (front ++ rest)).length / 64 = count + 1 := by
    rw [length_padBytes, hzero, hlen]
    omega
  rw [hcount, padBytes, hzero, List.append_assoc, chunks_append 64 front _ hfront, chunks_one]
  · rw [List.append_assoc, List.cons_append]
  · simp
    omega

/-- The blocks of the padded message, if the rest leaves no room for the length. -/
theorem chunks_padBytes_long {front rest : List (BitVec 8)} {count : Nat}
    (hfront : front.length = 64 * count) (hrest : 56 ≤ rest.length) (hlt : rest.length < 64) :
    chunks 64 ((padBytes (front ++ rest)).length / 64) (padBytes (front ++ rest)) =
      chunks 64 count front ++ [rest ++ 0x80 :: List.replicate (63 - rest.length) 0,
        List.replicate 56 0 ++ bytes 8 (BitVec.ofNat 64 (8 * (front ++ rest).length))] := by
  have hlen : (front ++ rest).length = 64 * count + rest.length := by
    rw [List.length_append, hfront]
  have hzero : zeroBytes (front ++ rest).length = (63 - rest.length) + 56 := by
    rw [hlen]
    unfold zeroBytes
    omega
  have hcount : (padBytes (front ++ rest)).length / 64 = count + (1 + 1) := by
    rw [length_padBytes, hzero, hlen]
    omega
  have hsplit : padBytes (front ++ rest) = front ++
      ((rest ++ 0x80 :: List.replicate (63 - rest.length) 0) ++
        (List.replicate 56 0 ++ bytes 8 (BitVec.ofNat 64 (8 * (front ++ rest).length)))) := by
    rw [padBytes, hzero, ← List.replicate_append_replicate]
    simp
  rw [hcount, hsplit, chunks_append 64 front _ hfront, chunks_append 64 _ _ (by simp; omega),
    chunks_one (by simp; omega), chunks_one (by simp)]
  rfl

/-- **The blocks that are hashed, the full ones and those of the rest, are the blocks of the padded
message.** -/
theorem sha256Final_eq (data : List (BitVec 8)) : sha256Final data = hashBytes data := by
  let count := data.length / 64
  obtain ⟨front, rest, hfront, hrest, hdata⟩ : ∃ front rest, front.length = 64 * count ∧
      rest = data.drop (64 * count) ∧ data = front ++ rest :=
    ⟨data.take (64 * count), data.drop (64 * count), by rw [List.length_take]; omega, rfl,
      (List.take_append_drop _ _).symm⟩
  have hrem : data.length - 64 * count = rest.length := by rw [hrest, List.length_drop]
  have hfull : chunks 64 count data = chunks 64 count front := by
    have happend : chunks 64 (count + 0) (front ++ rest) =
        chunks 64 count front ++ chunks 64 0 rest := chunks_append 64 front rest hfront
    rw [hdata]
    simpa [chunks] using happend
  have hlen : BitVec.ofNat 64 data.length * 8 = BitVec.ofNat 64 (8 * (front ++ rest).length) := by
    rw [← hdata, Nat.mul_comm, BitVec.ofNat_mul]
    rfl
  have hlt : rest.length < 64 := by omega
  unfold sha256Final
  rw [sha256Blocks_eq, Nat.sub_zero, List.drop_zero, Nat.zero_add, hfull, hlen]
  dsimp only
  rw [hrem, ← hrest, set_rest hlt, hashBytes_eq]
  by_cases hlong : 56 ≤ rest.length
  · have hzero : List.replicate 64 (0 : BitVec 8) = List.replicate 56 0 ++ List.replicate 8 0 := rfl
    rw [if_pos hlong, hzero, writeLength_eq (by simp), hdata,
      chunks_padBytes_long hfront hlong hlt, List.foldl_append]
    rfl
  · have hzero : rest ++ 0x80 :: List.replicate (63 - rest.length) 0 =
        (rest ++ 0x80 :: List.replicate (55 - rest.length) 0) ++ List.replicate 8 0 := by
      rw [show 63 - rest.length = (55 - rest.length) + 8 by omega,
        ← List.replicate_append_replicate]
      simp
    rw [if_neg hlong, hzero, writeLength_eq (by simp; omega), hdata,
      chunks_padBytes_short hfront (by omega), List.foldl_append]
    rfl

/-! ## The digits -/

theorem hexByte_eq (b : BitVec 8) :
    hexByte b = [(b.toNat / 16).digitChar, (b.toNat % 16).digitChar] := by
  have hall : ∀ n < 256, (let digits := Nat.toDigits 16 n
      List.replicate (2 - digits.length) '0' ++ digits) =
        [(n / 16).digitChar, (n % 16).digitChar] := by
    decide +kernel
  exact hall b.toNat b.isLt

theorem length_hexByte (b : BitVec 8) : (hexByte b).length = 2 := by
  rw [hexByte_eq]
  rfl

theorem length_flatMap_hexByte (digest : List (BitVec 8)) :
    (digest.flatMap hexByte).length = 2 * digest.length := by
  induction digest with
  | nil => rfl
  | cons b digest ih =>
      rw [List.flatMap_cons, List.length_append, length_hexByte, ih, List.length_cons]
      omega

/-- The bytes of the state, in the order of the loop that writes them. -/
theorem toList_flatMap_bytes (state : Hash) : state.toList.flatMap (bytes 4) =
    (List.range 32).map fun i ↦ (state.toList.getD (i / 4) 0).extractLsb' (24 - 8 * (i % 4)) 8 :=
  rfl

/-- What the last loop of `sha256_hex` writes. -/
theorem sha256Hex_toList (data : List (BitVec 8)) (prefixBytes : Nat) :
    (sha256Hex data prefixBytes).toList =
      ((digestBytes data).take
        (if prefixBytes = 0 ∨ 32 < prefixBytes then 32 else prefixBytes)).flatMap hexByte := by
  let count := if prefixBytes = 0 ∨ 32 < prefixBytes then 32 else prefixBytes
  have hcount : (if 32 < (if prefixBytes = 0 then 32 else prefixBytes) then 32
      else (if prefixBytes = 0 then 32 else prefixBytes)) = count := by
    unfold count
    split_ifs <;> omega
  have hle : count ≤ 32 := by
    unfold count
    split_ifs <;> omega
  have hbyte (word : BitVec 32) (i : Nat) :
      ((word >>> (24 - 8 * (i % 4))) &&& 0xff).setWidth 8 =
        word.extractLsb' (24 - 8 * (i % 4)) 8 := lowByte (by decide) word _
  unfold sha256Hex
  dsimp only
  rw [String.toList_ofList, hcount, digestBytes_eq, sha256Final_eq, toList_flatMap_bytes,
    ← List.map_take, List.take_range, min_eq_left hle, List.flatMap_map]
  simp only [hbyte]

/-- **`sha256_hex` is the hexadecimal text of the first bytes of SHA-256.** -/
theorem sha256Hex_eq (data : List (BitVec 8)) (prefixBytes : Nat) :
    sha256Hex data prefixBytes =
      hex ((digestBytes data).take
        (if prefixBytes = 0 ∨ 32 < prefixBytes then 32 else prefixBytes)) := by
  rw [← String.ofList_toList (s := sha256Hex data prefixBytes), sha256Hex_toList, hex,
    funext hexByte_eq]

end XNMiner
