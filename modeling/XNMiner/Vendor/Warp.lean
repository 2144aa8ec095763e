import XNMiner.Lib.Argon2
import XNMiner.Vendor.Blake2b

/-!
# A warp

The 32 threads that compute one Argon2 hash in `vendor/kernelrunner.cu`.  Each holds four words of a
block in its registers, and they compress the block together: what a thread needs of another it gets
by a shuffle, for which all of them wait.  Between two shuffles a thread reads and writes words of
its own only, so the warp is modelled as one: a vector with an entry for each thread.

The compression of the warp is that of the standard.  `permute` is the mixing of the columns and
then of the diagonals of sixteen words, and four threads hold such sixteen words: a row of the block
after `transpose`, a column before.
-/

namespace XNMiner.Device

open Lib.Argon2

/-- `block_th`: the words of a thread. -/
abbrev BlockTh := Quad

abbrev Warp := Vector BlockTh 32

scoped instance neZero32 : NeZero 32 := ⟨by decide⟩

/-- A register of a thread. -/
def register (block : Warp) (thread : Fin 32) (r : Fin 4) : BitVec 64 := block[thread].get r

/-! ## Words -/

def u64Build (hi lo : BitVec 32) : BitVec 64 := hi.setWidth 64 <<< 32 ||| lo.setWidth 64

def u64Lo (x : BitVec 64) : BitVec 32 := x.setWidth 32

def u64Hi (x : BitVec 64) : BitVec 32 := (x >>> 32).setWidth 32

def umulhi (x y : BitVec 32) : BitVec 32 := ((x.setWidth 64 * y.setWidth 64) >>> 32).setWidth 32

/-- The instruction `prmt.b32`: each hex digit of `c` picks one of the eight bytes of `b` and `a`,
or its sign. -/
def prmt (a b : BitVec 32) (c : Nat) : BitVec 32 :=
  let byte (i : Nat) : BitVec 8 :=
    let selector := c / 16 ^ i % 16
    let picked := (b ++ a).extractLsb' (8 * (selector % 8)) 8
    if selector < 8 then picked else picked.sshiftRight 7
  byte 3 ++ byte 2 ++ byte 1 ++ byte 0

/-- `g`, instruction by instruction: `x`, `s`, `l1`, `l2`, `h1` and `h2` are its registers. -/
def g (block : BlockTh) : BlockTh :=
  -- a = f(a, b)
  let s := block.a + block.b
  let l1 := u64Lo block.a
  let l2 := u64Lo block.b
  let h1 := umulhi l1 l2
  let l1 := l1 * l2
  let x : BitVec 64 := h1 ++ l1
  let x := x <<< 1
  let a := s + x
  -- d = rotr64(d ^ a, 32), which leaves its low half in `l2`
  let x := block.d ^^^ a
  let h2 := u64Lo x
  let l2 := u64Hi x
  let d : BitVec 64 := h2 ++ l2
  -- c = f(c, d)
  let s := block.c + d
  let l1 := u64Lo block.c
  let h1 := umulhi l1 l2
  let l1 := l1 * l2
  let x : BitVec 64 := h1 ++ l1
  let x := x <<< 1
  let c := s + x
  -- b = rotr64(b ^ c, 24)
  let x := block.b ^^^ c
  let l1 := u64Lo x
  let h1 := u64Hi x
  let l2 := prmt l1 h1 0x6543
  let h2 := prmt l1 h1 0x2107
  let b : BitVec 64 := h2 ++ l2
  -- a = f(a, b)
  let s := a + b
  let l1 := u64Lo a
  let h1 := umulhi l1 l2
  let l1 := l1 * l2
  let x : BitVec 64 := h1 ++ l1
  let x := x <<< 1
  let a := s + x
  -- d = rotr64(d ^ a, 16)
  let x := d ^^^ a
  let l1 := u64Lo x
  let h1 := u64Hi x
  let l2 := prmt l1 h1 0x5432
  let h2 := prmt l1 h1 0x1076
  let d : BitVec 64 := h2 ++ l2
  -- c = f(c, d)
  let s := c + d
  let l1 := u64Lo c
  let h1 := umulhi l1 l2
  let l1 := l1 * l2
  let x : BitVec 64 := h1 ++ l1
  let x := x <<< 1
  let c := s + x
  -- b = rotr64(b ^ c, 63)
  let x := b ^^^ c
  let s := x <<< 1
  let x := x >>> 63
  let b := s + x
  { a, b, c, d }

/-! ## Both ways to mix are the function of the standard -/

theorem u64Build_eq (hi lo : BitVec 32) : u64Build hi lo = hi ++ lo := by
  refine BitVec.eq_of_getLsbD_eq fun k hk ↦ ?_
  simp only [u64Build, BitVec.getLsbD_or, BitVec.getLsbD_shiftLeft, BitVec.getLsbD_setWidth,
    BitVec.getLsbD_append]
  grind

theorem append_halves (x : BitVec 64) : u64Hi x ++ u64Lo x = x := by
  refine BitVec.eq_of_getLsbD_eq fun k hk ↦ ?_
  simp only [u64Lo, u64Hi, BitVec.getLsbD_setWidth, BitVec.getLsbD_ushiftRight,
    BitVec.getLsbD_append]
  grind

theorem umulhi_append (x y : BitVec 32) :
    umulhi x y ++ x * y = x.setWidth 64 * y.setWidth 64 := by
  have hlo : x * y = u64Lo (x.setWidth 64 * y.setWidth 64) := by
    rw [u64Lo, BitVec.setWidth_mul _ _ (by decide)]
    simp
  rw [hlo]
  exact append_halves _

theorem shiftLeft_one (x : BitVec 64) : x <<< 1 = 2 * x := by
  rw [BitVec.shiftLeft_eq_mul_twoPow, BitVec.mul_comm]
  rfl

theorem swap_eq (x : BitVec 64) : u64Lo x ++ u64Hi x = x.rotateRight 32 := by
  refine BitVec.eq_of_getLsbD_eq fun k hk ↦ ?_
  simp only [u64Lo, u64Hi, BitVec.getLsbD_setWidth, BitVec.getLsbD_ushiftRight,
    BitVec.getLsbD_append, BitVec.getLsbD_rotateRight]
  grind

/-- The bits that `prmt` puts together, where its digits go round from `m`. -/
theorem getLsbD_prmt {m c : Nat} (hc : ∀ i < 4, c / 16 ^ i % 16 = (m + i) % 8) (x : BitVec 64)
    {k : Nat} (hk : k < 32) :
    (prmt (u64Lo x) (u64Hi x) c).getLsbD k = x.getLsbD ((8 * m + k) % 64) := by
  have hplace (i : Nat) (hi : k / 8 = i) : 8 * ((m + i) % 8 % 8) + k % 8 = (8 * m + k) % 64 := by
    omega
  simp only [prmt, append_halves, hc 0 (by decide), hc 1 (by decide), hc 2 (by decide),
    hc 3 (by decide), Nat.mod_lt _ (by decide : 8 > 0), if_true, BitVec.getLsbD_append,
    BitVec.getLsbD_extractLsb']
  obtain hk | hk | hk | hk : k / 8 = 0 ∨ k / 8 = 1 ∨ k / 8 = 2 ∨ k / 8 = 3 := by omega
  all_goals grind

/-- Two of them make a rotation by bytes. -/
theorem prmt_append {m c c' : Nat} (hm : m < 8) (hc : ∀ i < 4, c / 16 ^ i % 16 = (m + i) % 8)
    (hc' : ∀ i < 4, c' / 16 ^ i % 16 = (m + 4 + i) % 8) (x : BitVec 64) :
    prmt (u64Lo x) (u64Hi x) c' ++ prmt (u64Lo x) (u64Hi x) c = x.rotateRight (8 * m) := by
  refine BitVec.eq_of_getLsbD_eq fun k hk ↦ ?_
  rw [BitVec.getLsbD_append, BitVec.getLsbD_rotateRight]
  by_cases hlow : k < 32
  · rw [if_pos hlow, getLsbD_prmt hc x hlow]
    grind
  · rw [if_neg hlow, getLsbD_prmt hc' x (by omega)]
    grind

theorem add_rotate63 (x : BitVec 64) : x <<< 1 + x >>> 63 = x.rotateRight 63 := by
  rw [BitVec.add_eq_or_of_and_eq_zero]
  · exact (BitVec.or_comm _ _).trans (rotr64_eq x (by decide))
  · refine BitVec.eq_of_getLsbD_eq fun k hk ↦ ?_
    simp only [BitVec.getLsbD_and, BitVec.getLsbD_shiftLeft, BitVec.getLsbD_ushiftRight]
    grind

theorem prmt_rotate24 (x : BitVec 64) :
    prmt (u64Lo x) (u64Hi x) 0x2107 ++ prmt (u64Lo x) (u64Hi x) 0x6543 = x.rotateRight 24 :=
  prmt_append (m := 3) (by decide) (by decide) (by decide) x

theorem prmt_rotate16 (x : BitVec 64) :
    prmt (u64Lo x) (u64Hi x) 0x1076 ++ prmt (u64Lo x) (u64Hi x) 0x5432 = x.rotateRight 16 :=
  prmt_append (m := 2) (by decide) (by decide) (by decide) x

theorem u64Lo_append (hi lo : BitVec 32) : u64Lo (hi ++ lo) = lo := BitVec.setWidth_append_eq_right

theorem mulAdd_eq (x y : BitVec 64) :
    mulAdd x y = x + y + (umulhi (u64Lo x) (u64Lo y) ++ u64Lo x * u64Lo y) <<< 1 := by
  rw [umulhi_append, shiftLeft_one]
  rfl

theorem g_eq (block : BlockTh) : g block = gb block := by
  have hl24 (x : BitVec 64) : prmt (u64Lo x) (u64Hi x) 0x6543 = u64Lo (x.rotateRight 24) := by
    rw [← prmt_rotate24, u64Lo_append]
  have hl16 (x : BitVec 64) : prmt (u64Lo x) (u64Hi x) 0x5432 = u64Lo (x.rotateRight 16) := by
    rw [← prmt_rotate16, u64Lo_append]
  have hl32 (x : BitVec 64) : u64Hi x = u64Lo (x.rotateRight 32) := by
    rw [← swap_eq, u64Lo_append]
  rw [g]
  simp only [prmt_rotate24, prmt_rotate16, swap_eq, add_rotate63]
  simp only [hl24, hl16]
  simp only [hl32, ← mulAdd_eq]
  rfl

/-! ## Shuffles -/

/-- `__shfl_sync`: every thread gets the value of the thread it names. -/
def shfl {w : Nat} (v : Vector (BitVec w) 32) (src : Fin 32 → Nat) : Vector (BitVec w) 32 :=
  Vector.ofFn fun thread ↦ v[Fin.ofNat 32 (src thread)]

/-- `__shfl_xor_sync`. -/
def shflXor {w : Nat} (v : Vector (BitVec w) 32) (mask : Nat) : Vector (BitVec w) 32 :=
  shfl v fun thread ↦ thread.val ^^^ mask

/-- `u64_shuffle`, which sends the halves of a word. -/
def u64Shuffle (v : Vector (BitVec 64) 32) (threadSrc : Fin 32 → Nat) : Vector (BitVec 64) 32 :=
  let lo := shfl (v.map u64Lo) threadSrc
  let hi := shfl (v.map u64Hi) threadSrc
  Vector.ofFn fun thread ↦ u64Build hi[thread] lo[thread]

def cmpeqMask (test ref : Nat) : BitVec 64 :=
  let x : BitVec 32 := -if test = ref then 1 else 0
  u64Build x x

def blockThGet (b : BlockTh) (idx : Nat) : BitVec 64 :=
  0 ^^^ cmpeqMask idx 0 &&& b.a ^^^ cmpeqMask idx 1 &&& b.b ^^^ cmpeqMask idx 2 &&& b.c ^^^
    cmpeqMask idx 3 &&& b.d

def blockThGetUniform (b : BlockTh) (idx : Nat) : BitVec 64 :=
  match idx with
  | 0 => b.a
  | 1 => b.b
  | 2 => b.c
  | _ => b.d

def blockThSet (b : BlockTh) (idx : Nat) (v : BitVec 64) : BlockTh where
  a := b.a ^^^ cmpeqMask idx 0 &&& (v ^^^ b.a)
  b := b.b ^^^ cmpeqMask idx 1 &&& (v ^^^ b.b)
  c := b.c ^^^ cmpeqMask idx 2 &&& (v ^^^ b.c)
  d := b.d ^^^ cmpeqMask idx 3 &&& (v ^^^ b.d)

/-- The loop body of `transpose1`. -/
def transpose1Step (block : Warp) (i : Nat) : Warp :=
  let threadGroup (thread : Fin 32) : Nat := (thread.val &&& 0x0C) >>> 2
  let idx (thread : Fin 32) : Nat := threadGroup thread ^^^ i
  let v := Vector.ofFn fun thread : Fin 32 ↦ blockThGet block[thread] (idx thread)
  let v := u64Shuffle v fun thread ↦ i <<< 2 ^^^ thread.val
  Vector.ofFn fun thread ↦ blockThSet block[thread] (idx thread) v[thread]

def transpose1 (block : Warp) : Warp := [1, 2, 3].foldl transpose1Step block

def transpose (block : Warp) : Warp :=
  let g1 (thread : Fin 32) : Bool := thread.val &&& 0x4 != 0
  let g2 (thread : Fin 32) : Bool := thread.val &&& 0x8 != 0
  let x1 : Vector (BitVec 64) 32 := Vector.ofFn fun t ↦
    bif g2 t then bif g1 t then block[t].c else block[t].d
    else bif g1 t then block[t].a else block[t].b
  let x2 : Vector (BitVec 64) 32 := Vector.ofFn fun t ↦
    bif g2 t then bif g1 t then block[t].b else block[t].a
    else bif g1 t then block[t].d else block[t].c
  let x3 : Vector (BitVec 64) 32 := Vector.ofFn fun t ↦
    bif g2 t then bif g1 t then block[t].a else block[t].b
    else bif g1 t then block[t].c else block[t].d
  let x1 := shflXor x1 0x4
  let x2 := shflXor x2 0x8
  let x3 := shflXor x3 0xC
  Vector.ofFn fun t ↦
    { a := bif g2 t then bif g1 t then x3[t] else x2[t] else bif g1 t then x1[t] else block[t].a
      b := bif g2 t then bif g1 t then x2[t] else x3[t] else bif g1 t then block[t].b else x1[t]
      c := bif g2 t then bif g1 t then x1[t] else block[t].c else bif g1 t then x3[t] else x2[t]
      d := bif g2 t then bif g1 t then block[t].d else x1[t] else bif g1 t then x2[t] else x3[t] }

/-- What the four functions below share: `b` and `d` come from threads that are named, `c` from the
thread whose number differs in `mask`. -/
def shuffleRows (block : Warp) (srcThrB : Fin 32 → Nat) (mask : Nat) (srcThrD : Fin 32 → Nat) :
    Warp :=
  let bs := shfl (block.map Quad.b) srcThrB
  let cs := shflXor (block.map Quad.c) mask
  let ds := shfl (block.map Quad.d) srcThrD
  Vector.ofFn fun t ↦ { a := block[t].a, b := bs[t], c := cs[t], d := ds[t] }

def shift1Shuffle (block : Warp) : Warp :=
  shuffleRows block (fun thread ↦ thread.val &&& 0x1c ||| (thread.val + 1) &&& 0x3) 0x2
    fun thread ↦ thread.val &&& 0x1c ||| (thread.val + 3) &&& 0x3

def unshift1Shuffle (block : Warp) : Warp :=
  shuffleRows block (fun thread ↦ thread.val &&& 0x1c ||| (thread.val + 3) &&& 0x3) 0x2
    fun thread ↦ thread.val &&& 0x1c ||| (thread.val + 1) &&& 0x3

/-- `lo` in the functions below. -/
def lo2 (thread : Fin 32) : Nat := thread.val &&& 0x1 ||| (thread.val &&& 0x10) >>> 3

/-- The thread that has `lo + n` and the other bits of this one. -/
def srcThr2 (n : Nat) (thread : Fin 32) : Nat :=
  ((lo2 thread + n) &&& 0x2) <<< 3 ||| thread.val &&& 0xe ||| (lo2 thread + n) &&& 0x1

def shift2Shuffle (block : Warp) : Warp := shuffleRows block (srcThr2 1) 0x10 (srcThr2 3)

def unshift2Shuffle (block : Warp) : Warp := shuffleRows block (srcThr2 3) 0x10 (srcThr2 1)

def shuffleBlock (block : Warp) : Warp :=
  let block := transpose block
  let block := block.map g
  let block := shift1Shuffle block
  let block := block.map g
  let block := unshift1Shuffle block
  let block := transpose block
  let block := block.map g
  let block := shift2Shuffle block
  let block := block.map g
  unshift2Shuffle block

/-! ## Memory -/

/-- `load_block`, of the block that each thread names. -/
def loadBlock (src : Fin 32 → Block) : Warp :=
  Vector.ofFn fun thread ↦
    { a := (src thread)[0 * 32 + thread.val]
      b := (src thread)[1 * 32 + thread.val]
      c := (src thread)[2 * 32 + thread.val]
      d := (src thread)[3 * 32 + thread.val] }

def loadBlockXor (dst : Warp) (src : Fin 32 → Block) : Warp :=
  Vector.ofFn fun thread ↦
    { a := dst[thread].a ^^^ (src thread)[0 * 32 + thread.val]
      b := dst[thread].b ^^^ (src thread)[1 * 32 + thread.val]
      c := dst[thread].c ^^^ (src thread)[2 * 32 + thread.val]
      d := dst[thread].d ^^^ (src thread)[3 * 32 + thread.val] }

/-- What a thread does to its four places of an array. -/
def setFour {α : Type} (dst : Vector α 128) (thread : Fin 32) (a b c d : α) : Vector α 128 :=
  (((dst.set (0 * 32 + thread.val) a).set (1 * 32 + thread.val) b).set (2 * 32 + thread.val) c).set
    (3 * 32 + thread.val) d

/-- `store_block` by one thread. -/
def storeBlockThread (dst : Block) (src : BlockTh) (thread : Fin 32) : Block :=
  setFour dst thread src.a src.b src.c src.d

def storeBlock (dst : Block) (src : Warp) : Block :=
  (List.finRange 32).foldl (fun dst thread ↦ storeBlockThread dst src[thread] thread) dst

/-- `block_l`, in the memory that the threads of a job share. -/
structure BlockL where
  lo : Vector (BitVec 32) 128
  hi : Vector (BitVec 32) 128

/-- `block_l_store` by one thread. -/
def blockLStoreThread (dst : BlockL) (src : BlockTh) (thread : Fin 32) : BlockL where
  lo := setFour dst.lo thread (u64Lo src.a) (u64Lo src.b) (u64Lo src.c) (u64Lo src.d)
  hi := setFour dst.hi thread (u64Hi src.a) (u64Hi src.b) (u64Hi src.c) (u64Hi src.d)

def blockLStore (dst : BlockL) (src : Warp) : BlockL :=
  (List.finRange 32).foldl (fun dst thread ↦ blockLStoreThread dst src[thread] thread) dst

def blockLLoadXor (dst : Warp) (src : BlockL) : Warp :=
  Vector.ofFn fun thread ↦
    { a := dst[thread].a ^^^ u64Build src.hi[0 * 32 + thread.val] src.lo[0 * 32 + thread.val]
      b := dst[thread].b ^^^ u64Build src.hi[1 * 32 + thread.val] src.lo[1 * 32 + thread.val]
      c := dst[thread].c ^^^ u64Build src.hi[2 * 32 + thread.val] src.lo[2 * 32 + thread.val]
      d := dst[thread].d ^^^ u64Build src.hi[3 * 32 + thread.val] src.lo[3 * 32 + thread.val] }

end XNMiner.Device
