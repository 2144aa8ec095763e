import XNMiner.Lib.Blake2b
import Mathlib.Data.Fintype.Basic
import Mathlib.Tactic.FinCases

/-!
# Argon2

The memory-hard function of RFC 9106 (version 0x13), for any number of lanes and passes: the initial
hash H₀, the hash H′ of any length (§3.3), the filling of the memory with its indexing (§3.4), and
the compression G of two blocks with its permutation P (§3.5 and §3.6).

A block of 1024 bytes is held as its 128 words.
-/

namespace Lib.Argon2

open LittleEndian Blake2b

abbrev Block := Vector Word 128

scoped instance neZero4 : NeZero 4 := ⟨by decide⟩

scoped instance neZero128 : NeZero 128 := ⟨by decide⟩

/-! ## Vectors -/

section

variable {α : Type} {n : Nat}

theorem ext_getElem {v w : Vector α n} (h : ∀ i : Fin n, v[i] = w[i]) : v = w :=
  Vector.ext fun i hi ↦ h ⟨i, hi⟩

theorem ext_get {v w : Vector α n} (h : ∀ i, v.get i = w.get i) : v = w := ext_getElem h

@[simp] theorem get_ofFn (f : Fin n → α) (i : Fin n) : (Vector.ofFn f).get i = f i :=
  Vector.getElem_ofFn i.isLt

theorem get_map {β : Type} (f : α → β) (v : Vector α n) (i : Fin n) :
    (v.map f).get i = f (v.get i) := Vector.getElem_map ..

theorem get_put (v : Vector α n) (i j : Fin n) (x : α) :
    (put v i x).get j = if i = j then x else v.get j := get_ofFn _ j

@[simp] theorem fin_getElem_ofFn (f : Fin n → α) (i : Fin n) : (Vector.ofFn f)[i] = f i :=
  Vector.getElem_ofFn i.isLt

end

/-! ## The permutation -/

/-- Four words that are mixed. -/
@[ext] structure Quad where
  a : Word
  b : Word
  c : Word
  d : Word
deriving DecidableEq

/-- The entries in order. -/
def Quad.get (q : Quad) : Fin 4 → Word
  | 0 => q.a
  | 1 => q.b
  | 2 => q.c
  | 3 => q.d

theorem Quad.ext_get {x y : Quad} (h : ∀ r, x.get r = y.get r) : x = y :=
  Quad.ext (h 0) (h 1) (h 2) (h 3)

/-- The sum and twice the product of the low halves. -/
def mulAdd (x y : Word) : Word :=
  x + y + 2 * ((x.setWidth 32).setWidth 64 * (y.setWidth 32).setWidth 64)

/-- The function GB. -/
def gb (q : Quad) : Quad :=
  let a := mulAdd q.a q.b
  let d := (q.d ^^^ a).rotateRight 32
  let c := mulAdd q.c d
  let b := (q.b ^^^ c).rotateRight 24
  let a := mulAdd a b
  let d := (d ^^^ a).rotateRight 16
  let c := mulAdd c d
  let b := (b ^^^ c).rotateRight 63
  { a, b, c, d }

/-- GB on four entries of the sixteen. -/
def gbAt (v : Vector Word 16) (a b c d : Fin 16) : Vector Word 16 :=
  let q := gb { a := v.get a, b := v.get b, c := v.get c, d := v.get d }
  put (put (put (put v a q.a) b q.b) c q.c) d q.d

/-- The permutation P of eight registers of two words: first the columns of the matrix of sixteen
words, then its diagonals. -/
def permute (v : Vector Word 16) : Vector Word 16 :=
  let v := gbAt v 0 4 8 12
  let v := gbAt v 1 5 9 13
  let v := gbAt v 2 6 10 14
  let v := gbAt v 3 7 11 15
  let v := gbAt v 0 5 10 15
  let v := gbAt v 1 6 11 12
  let v := gbAt v 2 7 8 13
  gbAt v 3 4 9 14

/-! ### Columns and diagonals -/

/-- Four of the sixteen words. -/
def quadAt (v : Vector Word 16) (a b c d : Nat) : Quad :=
  { a := v.get (Fin.ofNat 16 a), b := v.get (Fin.ofNat 16 b), c := v.get (Fin.ofNat 16 c)
    d := v.get (Fin.ofNat 16 d) }

/-- The sixteen words after the columns are mixed. -/
def mixColumns (v : Vector Word 16) : Vector Word 16 :=
  Vector.ofFn fun i ↦
    let q := i.val % 4
    (gb (quadAt v q (4 + q) (8 + q) (12 + q))).get (Fin.ofNat 4 (i.val / 4))

/-- The sixteen words after the diagonals are mixed. -/
def mixDiagonals (v : Vector Word 16) : Vector Word 16 :=
  Vector.ofFn fun i ↦
    let q := (i.val + 3 * (i.val / 4)) % 4
    (gb (quadAt v q (4 + (q + 1) % 4) (8 + (q + 2) % 4) (12 + (q + 3) % 4))).get
      (Fin.ofNat 4 (i.val / 4))

theorem get_gbAt {v : Vector Word 16} {a b c d : Fin 16} (i : Fin 16) :
    (gbAt v a b c d).get i =
      let q := gb { a := v.get a, b := v.get b, c := v.get c, d := v.get d }
      if d = i then q.d else if c = i then q.c else if b = i then q.b else if a = i then q.a
      else v.get i := by
  simp only [gbAt, get_put]

theorem gbAt_columns (v : Vector Word 16) :
    gbAt (gbAt (gbAt (gbAt v 0 4 8 12) 1 5 9 13) 2 6 10 14) 3 7 11 15 = mixColumns v := by
  refine ext_get fun i ↦ ?_
  rw [mixColumns, get_ofFn]
  simp only [get_gbAt]
  fin_cases i <;> rfl

theorem gbAt_diagonals (v : Vector Word 16) :
    gbAt (gbAt (gbAt (gbAt v 0 5 10 15) 1 6 11 12) 2 7 8 13) 3 4 9 14 = mixDiagonals v := by
  refine ext_get fun i ↦ ?_
  rw [mixDiagonals, get_ofFn]
  simp only [get_gbAt]
  fin_cases i <;> rfl

theorem permute_eq (v : Vector Word 16) : permute v = mixDiagonals (mixColumns v) := by
  rw [permute, gbAt_columns, gbAt_diagonals]

/-! ## The compression -/

def Block.xor (x y : Block) : Block := Vector.zipWith (· ^^^ ·) x y

/-- A row of eight registers. -/
def row (x : Block) (r : Fin 8) : Vector Word 16 := Vector.ofFn fun i ↦ x[16 * r.val + i.val]

/-- A column of eight registers. -/
def column (x : Block) (c : Fin 8) : Vector Word 16 :=
  Vector.ofFn fun i ↦ x[16 * (i.val / 2) + 2 * c.val + i.val % 2]

/-- P on each row. -/
def permuteRows (x : Block) : Block :=
  let rows : Vector (Vector Word 16) 8 := Vector.ofFn fun r ↦ permute (row x r)
  Vector.ofFn fun k ↦ rows[k.val / 16][k.val % 16]

/-- P on each column. -/
def permuteColumns (x : Block) : Block :=
  let columns : Vector (Vector Word 16) 8 := Vector.ofFn fun c ↦ permute (column x c)
  Vector.ofFn fun k ↦ columns[k.val % 16 / 2][2 * (k.val / 16) + k.val % 2]

theorem row_permuteRows (x : Block) (r : Fin 8) : row (permuteRows x) r = permute (row x r) := by
  refine ext_getElem fun i ↦ ?_
  have hrow : (16 * r.val + i.val) / 16 = r := by omega
  have hplace : (16 * r.val + i.val) % 16 = i := by omega
  simp only [row, permuteRows, Fin.getElem_fin, Vector.getElem_ofFn, hrow, hplace]

theorem column_permuteColumns (x : Block) (c : Fin 8) :
    column (permuteColumns x) c = permute (column x c) := by
  refine ext_getElem fun i ↦ ?_
  have hcolumn : (16 * (i.val / 2) + 2 * c.val + i.val % 2) % 16 / 2 = c := by omega
  have hplace : 2 * ((16 * (i.val / 2) + 2 * c.val + i.val % 2) / 16) +
      (16 * (i.val / 2) + 2 * c.val + i.val % 2) % 2 = i := by omega
  simp only [column, permuteColumns, Fin.getElem_fin, Vector.getElem_ofFn, hcolumn, hplace]

/-- The compression function G. -/
def compress (x y : Block) : Block :=
  Block.xor (permuteColumns (permuteRows (Block.xor x y))) (Block.xor x y)

/-! ## Hashes -/

/-- A number in four bytes. -/
def le32 (n : Nat) : List Byte := bytes 4 (BitVec.ofNat 32 n)

/-- The last `count` pieces of H′, for what is left of the output. -/
def hPrimeTail (v : List Byte) (left : Nat) : List Byte :=
  if 64 < left then
    let v := blake2b 64 v
    v.take 32 ++ hPrimeTail v (left - 32)
  else blake2b left v
termination_by left

/-- The hash H′ with an output of `length` bytes. -/
def hPrime (length : Nat) (input : List Byte) : List Byte :=
  if length ≤ 64 then blake2b length (le32 length ++ input)
  else
    let v := blake2b 64 (le32 length ++ input)
    v.take 32 ++ hPrimeTail v (length - 32)

theorem length_hPrimeTail (v : List Byte) (left : Nat) : (hPrimeTail v left).length = left := by
  induction v, left using hPrimeTail.induct with
  | case1 v left hmore v' ih =>
    rw [hPrimeTail, if_pos hmore, List.length_append, ih, List.length_take,
      length_blake2b le_rfl]
    omega
  | case2 v left hlast => rw [hPrimeTail, if_neg hlast, length_blake2b (by omega)]

theorem length_hPrime (length : Nat) (input : List Byte) :
    (hPrime length input).length = length := by
  rw [hPrime]
  split
  · next hshort => exact length_blake2b hshort _
  · next hlong =>
    rw [List.length_append, length_hPrimeTail, List.length_take, length_blake2b le_rfl]
    omega

/-- The three types. -/
inductive Variant
  | d
  | i
  | id
deriving DecidableEq

/-- The number of a type. -/
def Variant.number : Variant → Nat
  | .d => 0
  | .i => 1
  | .id => 2

/-- All inputs but the message and the nonce. -/
structure Params where
  lanes : Nat
  tagLength : Nat
  memory : Nat
  passes : Nat
  variant : Variant
  secret : List Byte := []
  data : List Byte := []

/-- The initial hash H₀. -/
def Params.h0 (p : Params) (message nonce : List Byte) : List Byte :=
  blake2b 64 (le32 p.lanes ++ le32 p.tagLength ++ le32 p.memory ++ le32 p.passes ++ le32 0x13 ++
    le32 p.variant.number ++ le32 message.length ++ message ++ le32 nonce.length ++ nonce ++
    le32 p.secret.length ++ p.secret ++ le32 p.data.length ++ p.data)

theorem Params.length_h0 (p : Params) (message nonce : List (Byte)) :
    (p.h0 message nonce).length = 64 := length_blake2b le_rfl _

/-- The blocks of a segment. -/
def Params.segmentLength (p : Params) : Nat := p.memory / (4 * p.lanes)

/-- The blocks of a lane. -/
def Params.laneLength (p : Params) : Nat := 4 * p.segmentLength

/-! ## Blocks as bytes -/

def blockOfBytes (bs : List Byte) : Block :=
  Vector.ofFn fun i ↦ word 64 ((bs.drop (8 * i)).take 8)

def bytesOfBlock (x : Block) : List Byte := x.toList.flatMap (bytes 8)

theorem length_bytesOfBlock (x : Block) : (bytesOfBlock x).length = 1024 := by
  rw [bytesOfBlock, List.length_flatMap]
  simp

theorem bytesOfBlock_blockOfBytes {bs : List (BitVec 8)} (h : bs.length = 1024) :
    bytesOfBlock (blockOfBytes bs) = bs := by
  rw [bytesOfBlock, blockOfBytes, Vector.toList_ofFn, List.flatMap_def, List.map_ofFn]
  have hpiece (i : Fin 128) : bytes 8 (word 64 ((bs.drop (8 * i)).take 8)) =
      (bs.drop (8 * i)).take 8 := by
    refine bytes_word ?_ (by decide)
    rw [List.length_take, List.length_drop]
    omega
  calc _ = (List.ofFn fun i : Fin 128 ↦ (bs.drop (8 * i)).take 8).flatten :=
        congrArg (fun f ↦ (List.ofFn f).flatten) (funext hpiece)
    _ = bs := by rw [flatten_pieces, List.take_of_length_le (by omega)]

theorem blockOfBytes_bytesOfBlock (x : Block) : blockOfBytes (bytesOfBlock x) = x := by
  refine Vector.ext fun i hi ↦ ?_
  simp only [bytesOfBlock, blockOfBytes, Vector.getElem_ofFn]
  rw [take_drop_flatMap (length_bytes 8) (by simpa using hi), word_bytes (n := 8) rfl]
  exact Vector.getElem_toList _

/-! ## The filling of the memory -/

/-- The memory, by lane and column. -/
abbrev Memory := Nat → Nat → Block

/-- A position in the order of the filling. -/
structure Position where
  pass : Nat
  slice : Nat
  lane : Nat
  index : Nat

/-- The block of addresses with this counter. -/
def Params.addresses (p : Params) (at_ : Position) (counter : Nat) : Block :=
  let zero : Block := Vector.replicate 128 0
  let input : Block := Vector.ofFn fun k ↦ BitVec.ofNat 64
    ([at_.pass, at_.lane, at_.slice, p.lanes * p.laneLength, p.passes, p.variant.number,
      counter].getD k 0)
  compress zero (compress zero input)

/-- Whether the addresses of a segment do not depend on the message. -/
def Params.independent (p : Params) (at_ : Position) : Bool :=
  match p.variant with
  | .d => false
  | .i => true
  | .id => decide (at_.pass = 0 ∧ at_.slice < 2)

def Params.column (p : Params) (at_ : Position) : Nat := at_.slice * p.segmentLength + at_.index

/-- The block before a place, in its lane. -/
def Params.previous (p : Params) (mem : Memory) (at_ : Position) : Block :=
  mem at_.lane ((p.column at_ + p.laneLength - 1) % p.laneLength)

/-- The word that holds J₁ and J₂. -/
def Params.pseudoRandom (p : Params) (mem : Memory) (at_ : Position) : Word :=
  if p.independent at_ then
    (p.addresses at_ (at_.index / 128 + 1)).get (Fin.ofNat 128 at_.index)
  else (p.previous mem at_)[0]

/-- The lane that is referenced. -/
def Params.referenceLane (p : Params) (at_ : Position) (j₂ : Nat) : Nat :=
  if at_.pass = 0 ∧ at_.slice = 0 then at_.lane else j₂ % p.lanes

/-- The number of blocks that may be referenced. -/
def Params.areaSize (p : Params) (at_ : Position) (lane : Nat) : Nat :=
  let finished := if at_.pass = 0 then at_.slice * p.segmentLength else 3 * p.segmentLength
  if lane = at_.lane then finished + at_.index - 1
  else if at_.index = 0 then finished - 1 else finished

/-- The column that is referenced. -/
def Params.referenceColumn (p : Params) (at_ : Position) (area j₁ : Nat) : Nat :=
  let start := if at_.pass = 0 then 0 else (at_.slice + 1) % 4 * p.segmentLength
  let x := j₁ ^ 2 / 2 ^ 32
  let y := area * x / 2 ^ 32
  (start + (area - 1 - y)) % p.laneLength

/-- The block that is computed at a place. -/
def Params.newBlock (p : Params) (mem : Memory) (at_ : Position) : Block :=
  let j := p.pseudoRandom mem at_
  let lane := p.referenceLane at_ (j.toNat / 2 ^ 32)
  let column := p.referenceColumn at_ (p.areaSize at_ lane) (j.toNat % 2 ^ 32)
  let new := compress (p.previous mem at_) (mem lane column)
  if at_.pass = 0 then new else Block.xor new (mem at_.lane (p.column at_))

def Params.fillBlock (p : Params) (mem : Memory) (at_ : Position) : Memory :=
  let new := p.newBlock mem at_
  fun lane column ↦ if lane = at_.lane ∧ column = p.column at_ then new else mem lane column

/-- The first two blocks of each lane. -/
def Params.firstBlocks (p : Params) (message nonce : List Byte) : Memory :=
  let h0 := p.h0 message nonce
  fun lane column ↦ blockOfBytes (hPrime 1024 (h0 ++ le32 column ++ le32 lane))

/-- A segment.  The first two blocks of a lane are there before. -/
def Params.fillSegment (p : Params) (mem : Memory) (pass slice lane : Nat) : Memory :=
  let first := if pass = 0 ∧ slice = 0 then 2 else 0
  (List.range' first (p.segmentLength - first)).foldl
    (fun mem index ↦ p.fillBlock mem { pass, slice, lane, index }) mem

/-- All passes. -/
def Params.fill (p : Params) (mem : Memory) : Memory :=
  (List.range p.passes).foldl (fun mem pass ↦ (List.range 4).foldl (fun mem slice ↦
    (List.range p.lanes).foldl (fun mem lane ↦ p.fillSegment mem pass slice lane) mem) mem) mem

/-- **Argon2.** -/
def Params.argon2 (p : Params) (message nonce : List Byte) : List Byte :=
  let mem := p.fill (p.firstBlocks message nonce)
  let final := (List.range' 1 (p.lanes - 1)).foldl
    (fun x lane ↦ Block.xor x (mem lane (p.laneLength - 1))) (mem 0 (p.laneLength - 1))
  hPrime p.tagLength (bytesOfBlock final)

end Lib.Argon2
