import Mathlib.Data.List.GetD
import Mathlib.Data.Nat.NthRoot.Defs
import Mathlib.Data.Nat.Prime.Basic

/-!
# SHA-256

The hash function of FIPS 180-4, on messages of bits: padding (§5.1.1), parsing into blocks
(§5.2.1), the initial hash value (§5.3.3), the message schedule and the compression (§6.2).  The
constants are computed from the primes, as the standard describes them, so that a table of them
can be checked against this.

The second part has the facts that an implementation on bytes needs: the padding of a message of
bytes is a padding by bytes (`pad_ofBytes`), a block has its words in four bytes each
(`blocks_ofBytes`), and so has the digest (`digestBytes_eq`).
-/

namespace Lib.Sha256

abbrev Word := BitVec 32

abbrev Byte := BitVec 8

/-! ## Functions and constants -/

def ch (x y z : Word) : Word := (x &&& y) ^^^ (~~~x &&& z)

def maj (x y z : Word) : Word := (x &&& y) ^^^ (x &&& z) ^^^ (y &&& z)

def bigSigma0 (x : Word) : Word := x.rotateRight 2 ^^^ x.rotateRight 13 ^^^ x.rotateRight 22

def bigSigma1 (x : Word) : Word := x.rotateRight 6 ^^^ x.rotateRight 11 ^^^ x.rotateRight 25

def smallSigma0 (x : Word) : Word := x.rotateRight 7 ^^^ x.rotateRight 18 ^^^ (x >>> 3)

def smallSigma1 (x : Word) : Word := x.rotateRight 17 ^^^ x.rotateRight 19 ^^^ (x >>> 10)

/-- The first sixty-four primes. -/
def primes : List Nat := (List.range 312).filter fun p ↦ p.Prime

/-- The first 32 bits of the fractional parts of their cube roots. -/
def k : List Word := primes.map fun p ↦ BitVec.ofNat 32 (Nat.nthRoot 3 (p * 2 ^ 96))

/-- Eight words: a hash value, or the working variables. -/
structure Hash where
  a : Word
  b : Word
  c : Word
  d : Word
  e : Word
  f : Word
  g : Word
  h : Word
deriving DecidableEq

def Hash.toList (s : Hash) : List Word := [s.a, s.b, s.c, s.d, s.e, s.f, s.g, s.h]

/-- The first 32 bits of the fractional part of the square root of the prime. -/
def rootBits (p : Nat) : Word := BitVec.ofNat 32 (Nat.sqrt (p * 2 ^ 64))

/-- The initial hash value, from the first eight primes. -/
def initial : Hash where
  a := rootBits 2
  b := rootBits 3
  c := rootBits 5
  d := rootBits 7
  e := rootBits 11
  f := rootBits 13
  g := rootBits 17
  h := rootBits 19

/-! ## Compression -/

/-- The message schedule of a block of sixteen words. -/
def schedule (m : List Word) (t : Nat) : Word :=
  if t < 16 then m.getD t 0
  else smallSigma1 (schedule m (t - 2)) + schedule m (t - 7) + smallSigma0 (schedule m (t - 15)) +
    schedule m (t - 16)
termination_by t

/-- One step of the compression, with the constant and the word of the schedule. -/
def round (s : Hash) (kt wt : Word) : Hash :=
  let t₁ := s.h + bigSigma1 s.e + ch s.e s.f s.g + kt + wt
  let t₂ := bigSigma0 s.a + maj s.a s.b s.c
  { a := t₁ + t₂, b := s.a, c := s.b, d := s.c, e := s.d + t₁, f := s.e, g := s.f, h := s.g }

/-- The sum of two hash values, word by word. -/
def Hash.add (s t : Hash) : Hash where
  a := s.a + t.a
  b := s.b + t.b
  c := s.c + t.c
  d := s.d + t.d
  e := s.e + t.e
  f := s.f + t.f
  g := s.g + t.g
  h := s.h + t.h

/-- The next hash value. -/
def compress (s : Hash) (m : List Word) : Hash :=
  ((List.range 64).foldl (fun v t ↦ round v (k.getD t 0) (schedule m t)) s).add s

/-! ## Messages -/

/-- The bits of a word, the most significant first. -/
def toBits {w : Nat} (x : BitVec w) : List Bool := (List.range w).map x.getMsbD

/-- The word with these bits. -/
def ofBits (w : Nat) (bits : List Bool) : BitVec w := (BitVec.ofBoolListBE bits).setWidth w

/-- The first `count` pieces of `n` entries each. -/
def chunks {α : Type*} (n : Nat) : Nat → List α → List (List α)
  | 0, _ => []
  | count + 1, l => l.take n :: chunks n count (l.drop n)

/-- The number of zeros of the padding: the least that makes the message 64 bits short of a
multiple of 512. -/
def zeros (length : Nat) : Nat := (959 - length % 512) % 512

theorem eq_zeros_iff {length count : Nat} (h : count < 512) :
    count = zeros length ↔ (length + 1 + count) % 512 = 448 := by
  unfold zeros
  omega

/-- The padding of a message. -/
def pad (message : List Bool) : List Bool :=
  message ++ true :: (List.replicate (zeros message.length) false ++
    toBits (BitVec.ofNat 64 message.length))

/-- The sixteen words of each block of a padded message. -/
def blocks (padded : List Bool) : List (List Word) :=
  (chunks 512 (padded.length / 512) padded).map fun block ↦ (chunks 32 16 block).map (ofBits 32)

/-- **SHA-256.** -/
def sha256 (message : List Bool) : List Bool :=
  ((blocks (pad message)).foldl compress initial).toList.flatMap toBits

/-! ## Messages of bytes -/

/-- The bits of a message of bytes. -/
def ofBytes (bytes : List Byte) : List Bool := bytes.flatMap toBits

/-- The digest of a message of bytes, in bytes. -/
def digestBytes (bytes : List Byte) : List Byte :=
  (chunks 8 32 (sha256 (ofBytes bytes))).map (ofBits 8)

/-- Bytes in lower-case hexadecimal digits. -/
def hex (bytes : List Byte) : String :=
  String.ofList (bytes.flatMap fun b ↦ [(b.toNat / 16).digitChar, (b.toNat % 16).digitChar])

/-! ## The primes -/

/-- The primes by trial division: a number under 312 that is none has a divisor under 18. -/
theorem primes_eq : primes =
    (List.range 312).filter fun p ↦ 2 ≤ p ∧ ∀ m < 18, 2 ≤ m → m < p → ¬m ∣ p := by
  refine List.filter_congr fun p hp ↦ decide_eq_decide.mpr ⟨fun h ↦ ?_, fun ⟨htwo, h⟩ ↦ ?_⟩
  · exact ⟨h.two_le, fun m _ ↦ (Nat.prime_def_lt'.mp h).2 m⟩
  · refine Nat.prime_def_le_sqrt.mpr ⟨htwo, fun m hm hroot ↦ ?_⟩
    have hlt : p < 312 := List.mem_range.mp hp
    have hsqrt : Nat.sqrt p < 18 := Nat.sqrt_lt.mpr (by omega)
    exact h m (by omega) hm (hroot.trans_lt (Nat.sqrt_lt_self htwo))

/-! ## Bits -/

@[simp] theorem length_toBits {w : Nat} (x : BitVec w) : (toBits x).length = w := by
  simp [toBits]

theorem getElem_toBits {w : Nat} (x : BitVec w) {i : Nat} (h : i < (toBits x).length) :
    (toBits x)[i] = x.getMsbD i := by
  simp [toBits]

theorem toBits_append {v w : Nat} (x : BitVec v) (y : BitVec w) :
    toBits (x ++ y) = toBits x ++ toBits y := by
  refine List.ext_getElem (by simp) fun i hi _ ↦ ?_
  rw [List.getElem_append, getElem_toBits, BitVec.getMsbD_append]
  simp only [length_toBits]
  split
  · rw [dif_neg (by omega), getElem_toBits]
  · rw [dif_pos (by omega), getElem_toBits]

theorem ofBits_toBits {w : Nat} (x : BitVec w) : ofBits w (toBits x) = x := by
  refine BitVec.eq_of_getLsbD_eq fun i hi ↦ ?_
  rw [ofBits, BitVec.getLsbD_setWidth, BitVec.getLsbD_ofBoolListBE, length_toBits]
  have hlast : w - 1 - i < (toBits x).length := by
    rw [length_toBits]
    omega
  rw [List.getD_eq_getElem _ _ hlast, getElem_toBits, BitVec.getLsbD_eq_getMsbD]
  simp [hi]

@[simp] theorem length_ofBytes (bytes : List Byte) : (ofBytes bytes).length = 8 * bytes.length := by
  induction bytes with
  | nil => rfl
  | cons b bytes ih =>
      rw [ofBytes, List.flatMap_cons, List.length_append, length_toBits, ← ofBytes, ih,
        List.length_cons]
      omega

theorem ofBytes_append (xs ys : List Byte) : ofBytes (xs ++ ys) = ofBytes xs ++ ofBytes ys :=
  List.flatMap_append

/-! ## Pieces -/

section Chunks

variable {α β : Type*} {n count : Nat} {l l' : List α}

theorem chunks_append (n : Nat) {count count' : Nat} (l l' : List α) (h : l.length = n * count) :
    chunks n (count + count') (l ++ l') = chunks n count l ++ chunks n count' l' := by
  induction count generalizing l with
  | zero =>
      obtain rfl : l = [] := List.eq_nil_of_length_eq_zero (by simpa using h)
      rw [Nat.zero_add]
      rfl
  | succ count ih =>
      have hn : n ≤ l.length := by
        rw [h, Nat.mul_succ]
        omega
      have hrest : (l.drop n).length = n * count := by
        rw [List.length_drop, h, Nat.mul_succ]
        omega
      rw [Nat.succ_add, chunks, chunks, List.take_append_of_le_length hn,
        List.drop_append_of_le_length hn, ih _ hrest]
      rfl

/-- A list of the length of a piece is one piece. -/
theorem chunks_one (h : l.length = n) : chunks n 1 l = [l] := by
  rw [chunks, chunks, List.take_of_length_le (by omega)]

/-- Where the pieces are. -/
theorem chunks_eq_map (n count : Nat) (l : List α) :
    chunks n count l = (List.range count).map fun i ↦ (l.drop (i * n)).take n := by
  induction count generalizing l with
  | zero => rfl
  | succ count ih =>
      rw [chunks, ih, List.range_succ_eq_map, List.map_cons, List.map_map, Nat.zero_mul,
        List.drop_zero]
      refine congrArg _ (List.map_congr_left fun i _ ↦ ?_)
      rw [Function.comp_apply, List.drop_drop, Nat.succ_mul, Nat.add_comm]

theorem length_of_mem_chunks (h : l.length = n * count) (hl : l' ∈ chunks n count l) :
    l'.length = n := by
  induction count generalizing l with
  | zero => simp [chunks] at hl
  | succ count ih =>
      have hn : n ≤ l.length := by
        rw [h, Nat.mul_succ]
        omega
      rcases List.mem_cons.mp hl with rfl | hl
      · rw [List.length_take, min_eq_left hn]
      · refine ih ?_ hl
        rw [List.length_drop, h, Nat.mul_succ]
        omega

/-- The first entries of what consists of `c` entries for each entry of the list. -/
theorem take_flatMap {c : Nat} {f : α → List β} (hf : ∀ x, (f x).length = c) (n : Nat)
    (l : List α) : (l.flatMap f).take (c * n) = (l.take n).flatMap f := by
  induction n generalizing l with
  | zero => simp
  | succ n ih =>
      cases l with
      | nil => simp
      | cons x l =>
          rw [List.flatMap_cons, List.take_append, hf, List.take_of_length_le (by rw [hf]; lia),
            Nat.mul_succ, Nat.add_sub_cancel, ih, List.take_succ_cons, List.flatMap_cons]

/-- And what follows them. -/
theorem drop_flatMap {c : Nat} {f : α → List β} (hf : ∀ x, (f x).length = c) (n : Nat)
    (l : List α) : (l.flatMap f).drop (c * n) = (l.drop n).flatMap f := by
  induction n generalizing l with
  | zero => simp
  | succ n ih =>
      cases l with
      | nil => simp
      | cons x l =>
          rw [List.flatMap_cons, List.drop_append, hf, List.drop_of_length_le (by rw [hf]; lia),
            Nat.mul_succ, Nat.add_sub_cancel, ih, List.drop_succ_cons, List.nil_append]

/-- Its pieces. -/
theorem chunks_flatMap {c : Nat} {f : α → List β} (hf : ∀ x, (f x).length = c) (n count : Nat)
    (l : List α) : chunks (c * n) count (l.flatMap f) = (chunks n count l).map (·.flatMap f) := by
  induction count generalizing l with
  | zero => rfl
  | succ count ih =>
      rw [chunks, chunks, take_flatMap hf, drop_flatMap hf, ih, List.map_cons]

end Chunks

/-! ## Bytes -/

/-- The `n` bytes of a word, the most significant first. -/
def bytes {w : Nat} (n : Nat) (x : BitVec w) : List Byte :=
  (List.range n).map fun i ↦ x.extractLsb' (8 * (n - 1 - i)) 8

@[simp] theorem length_bytes {w : Nat} (n : Nat) (x : BitVec w) : (bytes n x).length = n := by
  simp [bytes]

/-- The usual way to take a byte out of a word. -/
theorem lowByte {w : Nat} (hw : 8 ≤ w) (x : BitVec w) (n : Nat) :
    ((x >>> n) &&& 0xff).setWidth 8 = x.extractLsb' n 8 := by
  refine BitVec.eq_of_getLsbD_eq fun i hi ↦ ?_
  have hmask : (0xff : BitVec w).getLsbD i = true := by
    have hbit : Nat.testBit 255 i = true := by
      rw [show 255 = 2 ^ 8 - 1 from rfl, Nat.testBit_two_pow_sub_one, decide_eq_true hi]
    change (BitVec.ofNat w 255).getLsbD i = true
    rw [BitVec.getLsbD_ofNat, hbit, decide_eq_true (by omega)]
    rfl
  rw [BitVec.getLsbD_setWidth, BitVec.getLsbD_and, BitVec.getLsbD_ushiftRight, hmask,
    BitVec.getLsbD_extractLsb', Bool.and_true]

/-- The bits of a word are those of its bytes. -/
theorem toBits_eq_ofBytes (n : Nat) (x : BitVec (8 * n)) : toBits x = ofBytes (bytes n x) := by
  have hprefix (m : Nat) (hm : m ≤ n) : (List.range (8 * m)).map x.getMsbD =
      ofBytes ((List.range m).map fun i ↦ x.extractLsb' (8 * (n - 1 - i)) 8) := by
    induction m with
    | zero => rfl
    | succ m ih =>
        have hbyte : (List.range 8).map (x.getMsbD ∘ (8 * m + ·)) =
            toBits (x.extractLsb' (8 * (n - 1 - m)) 8) := by
          refine List.map_congr_left fun j hj ↦ ?_
          rw [List.mem_range] at hj
          have hin : 8 * m + j < 8 * n := by omega
          have hat : 8 * n - 1 - (8 * m + j) = 8 * (n - 1 - m) + (8 - 1 - j) := by omega
          rw [Function.comp_apply, BitVec.getMsbD, BitVec.getMsbD, BitVec.getLsbD_extractLsb', hat,
            decide_eq_true hin, decide_eq_true hj, decide_eq_true (by omega : 8 - 1 - j < 8),
            Bool.true_and, Bool.true_and]
        rw [Nat.mul_succ, List.range_add, List.map_append, ih (by omega), List.map_map, hbyte,
          List.range_succ, List.map_append, ofBytes_append]
        simp [ofBytes]
  exact hprefix n le_rfl

/-- The word in four bytes. -/
theorem ofBits_ofBytes (a b c d : Byte) : ofBits 32 (ofBytes [a, b, c, d]) = a ++ b ++ c ++ d := by
  have hbits : ofBytes [a, b, c, d] = toBits (a ++ b ++ c ++ d) := by
    rw [toBits_append, toBits_append, toBits_append]
    simp [ofBytes]
  rw [hbits]
  exact ofBits_toBits _

/-- Reading bytes. -/
theorem chunks_ofBytes (bs : List Byte) :
    (chunks 8 bs.length (ofBytes bs)).map (ofBits 8) = bs := by
  induction bs with
  | nil => rfl
  | cons b bs ih =>
      have hfirst : (toBits b ++ ofBytes bs).take 8 = toBits b := by
        rw [List.take_append_of_le_length (by simp), List.take_of_length_le (by simp)]
      have hrest : (toBits b ++ ofBytes bs).drop 8 = ofBytes bs :=
        List.drop_left' (length_toBits b)
      rw [ofBytes, List.flatMap_cons, ← ofBytes, List.length_cons, chunks, hfirst, hrest,
        List.map_cons, ih, ofBits_toBits]

/-! ## The padding of a message of bytes -/

/-- The number of zero bytes. -/
def zeroBytes (length : Nat) : Nat := (119 - length % 64) % 64

/-- The padding by bytes. -/
def padBytes (message : List Byte) : List Byte :=
  message ++ 0x80 :: (List.replicate (zeroBytes message.length) 0 ++
    bytes 8 (BitVec.ofNat 64 (8 * message.length)))

theorem ofBytes_zeros (n : Nat) : ofBytes (List.replicate n 0) = List.replicate (8 * n) false := by
  induction n with
  | zero => rfl
  | succ n ih =>
      rw [List.replicate_succ, ofBytes, List.flatMap_cons, ← ofBytes, ih, Nat.mul_succ,
        Nat.add_comm, ← List.replicate_append_replicate]
      rfl

/-- **The padding of a message of bytes is a padding by bytes.** -/
theorem pad_ofBytes (message : List Byte) : pad (ofBytes message) = ofBytes (padBytes message) := by
  have hzeros : 7 + 8 * zeroBytes message.length = zeros (8 * message.length) := by
    unfold zeroBytes
    rw [eq_zeros_iff (by omega)]
    omega
  have hone : ofBytes [0x80] = true :: List.replicate 7 false := by decide
  have hlast : toBits (BitVec.ofNat 64 (8 * message.length)) =
      ofBytes (bytes 8 (BitVec.ofNat 64 (8 * message.length))) := toBits_eq_ofBytes 8 _
  rw [padBytes, ofBytes_append, ← List.singleton_append, ofBytes_append, ofBytes_append,
    ofBytes_zeros, hone, ← hlast, pad, length_ofBytes, ← hzeros, ← List.replicate_append_replicate]
  simp

theorem length_padBytes (message : List Byte) :
    (padBytes message).length = message.length + 9 + zeroBytes message.length := by
  simp [padBytes]
  omega

/-- A padded message consists of blocks. -/
theorem length_padBytes_mod (message : List Byte) : (padBytes message).length % 64 = 0 := by
  rw [length_padBytes]
  unfold zeroBytes
  omega

/-- The words of a block of bytes. -/
def words (block : List Byte) : List Word :=
  (chunks 4 16 block).map fun bs ↦ ofBits 32 (ofBytes bs)

/-- The blocks of a message of bytes. -/
theorem blocks_ofBytes (padded : List Byte) :
    blocks (ofBytes padded) = (chunks 64 (padded.length / 64) padded).map words := by
  have hcount : (ofBytes padded).length / 512 = padded.length / 64 := by
    rw [length_ofBytes]
    omega
  have hblocks (count : Nat) : chunks 512 count (ofBytes padded) =
      (chunks 64 count padded).map ofBytes := chunks_flatMap length_toBits 64 count padded
  have hwords (block : List Byte) : chunks 32 16 (ofBytes block) =
      (chunks 4 16 block).map ofBytes := chunks_flatMap length_toBits 4 16 block
  rw [blocks, hcount, hblocks, List.map_map]
  refine List.map_congr_left fun block _ ↦ ?_
  rw [Function.comp_apply, hwords, List.map_map]
  rfl

/-- The hash value of a message of bytes. -/
def hashBytes (message : List Byte) : Hash :=
  ((chunks 64 ((padBytes message).length / 64) (padBytes message)).map words).foldl compress initial

@[simp] theorem length_digestBytes (message : List Byte) : (digestBytes message).length = 32 := by
  simp [digestBytes, chunks_eq_map]

/-- **The digest has the bytes of the hash value.** -/
theorem digestBytes_eq (message : List Byte) :
    digestBytes message = (hashBytes message).toList.flatMap (bytes 4) := by
  have hbits (ws : List Word) : ws.flatMap toBits = ofBytes (ws.flatMap (bytes 4)) := by
    induction ws with
    | nil => rfl
    | cons w ws ih =>
        have hw : toBits w = ofBytes (bytes 4 w) := toBits_eq_ofBytes 4 w
        rw [List.flatMap_cons, List.flatMap_cons, ofBytes_append, ih, hw]
  have hlen : ((hashBytes message).toList.flatMap (bytes 4)).length = 32 := by
    simp [Hash.toList]
  have hread := chunks_ofBytes ((hashBytes message).toList.flatMap (bytes 4))
  rw [hlen, ← hbits] at hread
  rw [digestBytes, sha256, pad_ofBytes, blocks_ofBytes]
  exact hread

end Lib.Sha256
