import XNMiner.Lib.LittleEndian

/-!
# BLAKE2b

The hash function of RFC 7693 without a key: the mixing function (§3.1), the compression (§3.2) and
the hash of a message of bytes (§3.3).  The initialization vector is computed from the primes, as
the standard describes it.
-/

namespace Lib.Blake2b

open LittleEndian

abbrev Word := BitVec 64

abbrev Byte := BitVec 8

scoped instance neZero8 : NeZero 8 := ⟨by decide⟩

scoped instance neZero16 : NeZero 16 := ⟨by decide⟩

/-- The vector with another entry. -/
def put {α : Type} {n : Nat} (v : Vector α n) (i : Fin n) (x : α) : Vector α n :=
  Vector.ofFn fun j ↦ if i = j then x else v.get j

/-- The first 64 bits of the fractional parts of the square roots of the first eight primes. -/
def iv : Vector Word 8 :=
  #v[2, 3, 5, 7, 11, 13, 17, 19].map fun p ↦ BitVec.ofNat 64 (Nat.sqrt (p * 2 ^ 128))

/-- The permutations of the message schedule. -/
def sigma : Vector (Vector (Fin 16) 16) 10 := #v[
  #v[0, 1, 2, 3, 4, 5, 6, 7, 8, 9, 10, 11, 12, 13, 14, 15],
  #v[14, 10, 4, 8, 9, 15, 13, 6, 1, 12, 0, 2, 11, 7, 5, 3],
  #v[11, 8, 12, 0, 5, 2, 15, 13, 10, 14, 3, 6, 7, 1, 9, 4],
  #v[7, 9, 3, 1, 13, 12, 11, 14, 2, 6, 5, 10, 4, 0, 15, 8],
  #v[9, 0, 5, 7, 2, 4, 10, 15, 14, 1, 11, 12, 6, 8, 3, 13],
  #v[2, 12, 6, 10, 0, 11, 8, 3, 4, 13, 7, 5, 15, 14, 1, 9],
  #v[12, 5, 1, 15, 14, 13, 4, 10, 0, 7, 6, 3, 9, 2, 8, 11],
  #v[13, 11, 7, 14, 12, 1, 3, 9, 5, 0, 15, 4, 8, 6, 2, 10],
  #v[6, 15, 14, 9, 11, 3, 0, 8, 12, 2, 13, 7, 1, 4, 10, 5],
  #v[10, 2, 8, 4, 7, 6, 1, 5, 15, 11, 9, 14, 3, 12, 13, 0]]

/-- The mixing function, on the entries `a`, `b`, `c` and `d` of the working vector. -/
def mix (v : Vector Word 16) (a b c d : Fin 16) (x y : Word) : Vector Word 16 :=
  let v := put v a (v.get a + v.get b + x)
  let v := put v d ((v.get d ^^^ v.get a).rotateRight 32)
  let v := put v c (v.get c + v.get d)
  let v := put v b ((v.get b ^^^ v.get c).rotateRight 24)
  let v := put v a (v.get a + v.get b + y)
  let v := put v d ((v.get d ^^^ v.get a).rotateRight 16)
  let v := put v c (v.get c + v.get d)
  put v b ((v.get b ^^^ v.get c).rotateRight 63)

/-- A round of cryptographic mixing. -/
def round (m : Vector Word 16) (v : Vector Word 16) (i : Nat) : Vector Word 16 :=
  let s := sigma.get (Fin.ofNat 10 i)
  let v := mix v 0 4 8 12 m[s[0]] m[s[1]]
  let v := mix v 1 5 9 13 m[s[2]] m[s[3]]
  let v := mix v 2 6 10 14 m[s[4]] m[s[5]]
  let v := mix v 3 7 11 15 m[s[6]] m[s[7]]
  let v := mix v 0 5 10 15 m[s[8]] m[s[9]]
  let v := mix v 1 6 11 12 m[s[10]] m[s[11]]
  let v := mix v 2 7 8 13 m[s[12]] m[s[13]]
  mix v 3 4 9 14 m[s[14]] m[s[15]]

/-- The working vector before the rounds, for a block that ends at the offset `t`. -/
def workVector (h : Vector Word 8) (t : Nat) (last : Bool) : Vector Word 16 :=
  #v[h[0], h[1], h[2], h[3], h[4], h[5], h[6], h[7], iv[0], iv[1], iv[2], iv[3],
    iv[4] ^^^ BitVec.ofNat 64 t, iv[5] ^^^ BitVec.ofNat 64 (t / 2 ^ 64),
    if last then ~~~iv[6] else iv[6], iv[7]]

/-- The compression of a block. -/
def compress (h : Vector Word 8) (m : Vector Word 16) (t : Nat) (last : Bool) : Vector Word 8 :=
  let v := (List.range 12).foldl (round m) (workVector h t last)
  Vector.ofFn fun i ↦ h[i] ^^^ v[i] ^^^ v[i.val + 8]

/-- The sixteen words of a block. -/
def words (block : List Byte) : Vector Word 16 :=
  Vector.ofFn fun i ↦ word 64 ((block.drop (8 * i)).take 8)

/-- The state before the first block, for a digest of `nn` bytes. -/
def initial (nn : Nat) : Vector Word 8 :=
  put iv 0 (iv.get 0 ^^^ 0x01010000 ^^^ BitVec.ofNat 64 nn)

/-- The number of blocks before the last one, which is not empty unless the message is. -/
def fullBlocks (length : Nat) : Nat := (length - 1) / 128

/-- The state after the first `count` blocks. -/
def absorb (nn : Nat) (message : List Byte) (count : Nat) : Vector Word 8 :=
  (List.range count).foldl (fun h i ↦
    compress h (words ((message.drop (128 * i)).take 128)) (128 * (i + 1)) false) (initial nn)

/-- A block filled up with zeros. -/
def padBlock (bs : List Byte) : List Byte := bs ++ List.replicate (128 - bs.length) 0

/-- **BLAKE2b**, with a digest of `nn` bytes. -/
def blake2b (nn : Nat) (message : List Byte) : List Byte :=
  let full := fullBlocks message.length
  let h := compress (absorb nn message full) (words (padBlock (message.drop (128 * full))))
    message.length true
  (h.toList.flatMap (bytes 8)).take nn

/-! ## Blocks one after the other -/

variable {nn count : Nat} {message : List Byte}

theorem absorb_zero (nn : Nat) (message : List Byte) : absorb nn message 0 = initial nn := rfl

theorem absorb_succ (nn : Nat) (message : List Byte) (count : Nat) :
    absorb nn message (count + 1) = compress (absorb nn message count)
      (words ((message.drop (128 * count)).take 128)) (128 * (count + 1)) false := by
  rw [absorb, List.range_succ, List.foldl_append]
  rfl

/-- What follows the blocks does not matter to them. -/
theorem absorb_append (h : 128 * count ≤ message.length) (more : List Byte) :
    absorb nn (message ++ more) count = absorb nn message count := by
  induction count with
  | zero => rw [absorb_zero, absorb_zero]
  | succ count ih =>
      rw [absorb_succ, absorb_succ, ih (by omega), List.drop_append_of_le_length (by omega),
        List.take_append_of_le_length (by rw [List.length_drop]; omega)]

theorem length_blake2b {nn : Nat} (h : nn ≤ 64) (message : List Byte) :
    (blake2b nn message).length = nn := by
  rw [blake2b, List.length_take, List.length_flatMap]
  simp [h, List.map_const']

end Lib.Blake2b
