import XNMiner.Vendor.WarpShuffle

/-!
# The kernel that fills the memory

`argon2_kernel_oneshot` of `vendor/kernelrunner.cu`: a warp fills the memory of one hash, for one
lane and one pass of Argon2id.  The first two slices take their addresses from blocks that do not
depend on the key, the last two from the block before.

A turn of a job is one round of its loops (or what stands between the first two of them); the
memory of all jobs is one array of blocks.
-/

namespace XNMiner.Device

open Lib.Argon2

/-! ## Addresses -/

/-- `a ^= v` in each thread. -/
def xorA (block : Warp) (v : Vector (BitVec 64) 32) : Warp :=
  Vector.ofFn fun thread ↦ { block.get thread with a := (block.get thread).a ^^^ v.get thread }

/-- `next_addresses1`: the addresses, and `tmp` after it. -/
def nextAddresses1 (tmp : BlockL) (threadInput : Vector (BitVec 32) 32) : Warp × BlockL :=
  let input := threadInput.map (u64Build 0)
  let addr : Warp := input.map fun a ↦ { a, b := 0, c := 0, d := 0 }
  let addr := shuffleBlock addr
  let addr := xorA addr input
  let tmp := blockLStore tmp addr
  let addr := shuffleBlock addr
  (blockLLoadXor addr tmp, tmp)

def computeRefPos (segmentBlocks slice offset refIndex : BitVec 32) : BitVec 32 :=
  let refAreaSize := slice * segmentBlocks + offset - 1
  let index := umulhi refIndex refIndex
  refAreaSize - 1 - umulhi refAreaSize index

/-! ## Turns -/

/-- The variables of a warp; `memCurr` is the number of a block. -/
structure Job where
  memCurr : Nat
  prev : Warp
  addr : Warp
  tmp : BlockL
  threadInput : Vector (BitVec 32) 32

/-- `argon2_core`, with `++mem_curr` after it. -/
def argon2Core (base : Nat) (refIndex : Vector (BitVec 32) 32) (p : (Nat → Block) × Job) :
    (Nat → Block) × Job :=
  let (memory, job) := p
  let prev := loadBlockXor job.prev fun thread ↦ memory (base + (refIndex.get thread).toNat)
  let tmp := blockLStore job.tmp prev
  let prev := shuffleBlock prev
  let prev := blockLLoadXor prev tmp
  let stored := storeBlock (memory job.memCurr) prev
  (Function.update memory job.memCurr stored, { job with memCurr := job.memCurr + 1, prev, tmp })

/-- `if (thread == 6) ++*thread_input`. -/
def countUp (threadInput : Vector (BitVec 32) 32) : Vector (BitVec 32) 32 :=
  threadInput.set 6 (threadInput[6] + 1)

/-- What the threads 2 and 6 do before the second slice. -/
def startSlice (threadInput : Vector (BitVec 32) 32) : Vector (BitVec 32) 32 :=
  (threadInput.set 2 (threadInput[2] + 1)).set 6 0

/-- The part of `argon2_step_indexed` that makes new addresses. -/
def refreshAddresses (offset : Nat) (job : Job) : Job :=
  if offset % 128 = 0 then
    let threadInput := countUp job.threadInput
    let (addr, tmp) := nextAddresses1 job.tmp threadInput
    { job with threadInput, addr, tmp }
  else job

def argon2StepIndexed (base : Nat) (segmentBlocks : BitVec 32) (slice offset : Nat)
    (p : (Nat → Block) × Job) : (Nat → Block) × Job :=
  let addrIndex := offset % 128
  let job := refreshAddresses offset p.2
  let v := job.addr.map fun addr ↦ blockThGetUniform addr (addrIndex / 32)
  let v := u64Shuffle v fun _ ↦ addrIndex % 32
  let refIndex := v.map fun v ↦
    computeRefPos segmentBlocks (BitVec.ofNat 32 slice) (BitVec.ofNat 32 offset) (u64Lo v)
  argon2Core base refIndex (p.1, job)

def argon2StepDependent (base : Nat) (segmentBlocks : BitVec 32) (slice offset : Nat)
    (p : (Nat → Block) × Job) : (Nat → Block) × Job :=
  let v := u64Shuffle (p.2.prev.map Quad.a) fun _ ↦ 0
  let refIndex := v.map fun v ↦
    computeRefPos segmentBlocks (BitVec.ofNat 32 slice) (BitVec.ofNat 32 offset) (u64Lo v)
  argon2Core base refIndex p

/-! ## The kernel -/

inductive Turn
  /-- What comes before the first loop. -/
  | start
  /-- A round of the first or the second loop. -/
  | indexed (slice offset : Nat)
  /-- What comes between these loops. -/
  | nextSlice
  /-- A round of the last loop. -/
  | dependent (slice offset : Nat)
deriving DecidableEq

/-- The kernel before its first loop. -/
def oneshotStart (base : Nat) (segmentBlocks : BitVec 32) (memory : Nat → Block) (tmp : BlockL) :
    Job :=
  let laneBlocks := 4 * segmentBlocks
  let threadInput : Vector (BitVec 32) 32 := Vector.ofFn fun thread ↦
    (if thread = 3 then 1 else 0) * laneBlocks + (if thread = 4 then 1 else 0) +
      (if thread = 5 then 1 else 0) * 2 + (if thread = 6 then 1 else 0)
  let (addr, tmp) := nextAddresses1 tmp threadInput
  { memCurr := base + 2, prev := loadBlock fun _ ↦ memory (base + 1), addr, tmp, threadInput }

def Turn.run (base : Nat) (segmentBlocks : BitVec 32) (turn : Turn) (p : (Nat → Block) × Job) :
    (Nat → Block) × Job :=
  match turn with
  | .start => (p.1, oneshotStart base segmentBlocks p.1 p.2.tmp)
  | .indexed slice offset => argon2StepIndexed base segmentBlocks slice offset p
  | .nextSlice => (p.1, { p.2 with threadInput := startSlice p.2.threadInput })
  | .dependent slice offset => argon2StepDependent base segmentBlocks slice offset p

/-- The turns of a warp. -/
def oneshotTurns (segmentBlocks : Nat) : List Turn :=
  .start :: (List.range' 2 (segmentBlocks - 2)).map (.indexed 0) ++ [.nextSlice] ++
    (List.range segmentBlocks).map (.indexed 1) ++
    [2, 3].flatMap fun slice ↦ (List.range segmentBlocks).map (.dependent slice)

/-- `argon2_kernel_oneshot`, of one job whose memory begins at `base`.  The variables are not
initialized. -/
def argon2KernelOneshot (base : Nat) (segmentBlocks : BitVec 32) (p : (Nat → Block) × Job) :
    (Nat → Block) × Job :=
  (oneshotTurns segmentBlocks.toNat).foldl (fun p turn ↦ turn.run base segmentBlocks p) p

/-! ## References -/

theorem toNat_umulhi (x y : BitVec 32) : (umulhi x y).toNat = x.toNat * y.toNat / 2 ^ 32 := by
  have hlt : x.toNat * y.toNat < 2 ^ 32 * 2 ^ 32 := Nat.mul_lt_mul'' x.isLt y.isLt
  simp only [umulhi, BitVec.toNat_setWidth, BitVec.toNat_ushiftRight, BitVec.toNat_mul,
    Nat.shiftRight_eq_div_pow]
  rw [Nat.mod_eq_of_lt (a := x.toNat) (by omega), Nat.mod_eq_of_lt (a := y.toNat) (by omega),
    Nat.mod_eq_of_lt (a := x.toNat * y.toNat) (by omega), Nat.mod_eq_of_lt (by omega)]

theorem toNat_umulhi_lt {x : BitVec 32} (y : BitVec 32) (hx : 0 < x.toNat) :
    (umulhi x y).toNat < x.toNat := by
  rw [toNat_umulhi, Nat.div_lt_iff_lt_mul (by decide)]
  exact Nat.mul_lt_mul_of_pos_left y.isLt hx

/-- **The reference of `compute_ref_pos`.** -/
theorem toNat_computeRefPos {segmentBlocks : BitVec 32} {slice offset : Nat}
    (hlow : 2 ≤ slice * segmentBlocks.toNat + offset)
    (hhigh : slice * segmentBlocks.toNat + offset < 2 ^ 32) (refIndex : BitVec 32) :
    (computeRefPos segmentBlocks (BitVec.ofNat 32 slice) (BitVec.ofNat 32 offset) refIndex).toNat =
      slice * segmentBlocks.toNat + offset - 1 - 1 -
        (slice * segmentBlocks.toNat + offset - 1) * (refIndex.toNat ^ 2 / 2 ^ 32) / 2 ^ 32 := by
  have hsum : (BitVec.ofNat 32 slice * segmentBlocks + BitVec.ofNat 32 offset).toNat =
      slice * segmentBlocks.toNat + offset := by
    rw [BitVec.toNat_add, BitVec.toNat_mul, BitVec.toNat_ofNat, BitVec.toNat_ofNat, Nat.mod_mul_mod,
      ← Nat.add_mod, Nat.mod_eq_of_lt hhigh]
  have harea : (BitVec.ofNat 32 slice * segmentBlocks + BitVec.ofNat 32 offset - 1).toNat =
      slice * segmentBlocks.toNat + offset - 1 := by
    rw [BitVec.toNat_sub_of_le (by rw [BitVec.le_def, hsum]; exact Nat.le_of_succ_le hlow), hsum]
    rfl
  rw [computeRefPos]
  generalize BitVec.ofNat 32 slice * segmentBlocks + BitVec.ofNat 32 offset - 1 = area at harea
  have hpred : (area - 1).toNat = area.toNat - 1 :=
    BitVec.toNat_sub_of_le (by rw [BitVec.le_def, harea]; exact Nat.le_sub_of_add_le hlow)
  have hhi := toNat_umulhi_lt (x := area) (umulhi refIndex refIndex) (by omega)
  rw [BitVec.toNat_sub_of_le (by rw [BitVec.le_def]; omega), hpred, toNat_umulhi, toNat_umulhi,
    harea, Nat.pow_two]

theorem toNat_computeRefPos_fourth :
    (computeRefPos 275 (BitVec.ofNat 32 3) (BitVec.ofNat 32 100) 0x9e3779b9).toNat = 571 :=
  (toNat_computeRefPos (by decide) (by decide) 0x9e3779b9).trans (by decide)

/-- It is before the block that is made. -/
theorem toNat_computeRefPos_lt {segmentBlocks : BitVec 32} {slice offset : Nat}
    (hlow : 2 ≤ slice * segmentBlocks.toNat + offset)
    (hhigh : slice * segmentBlocks.toNat + offset < 2 ^ 32) (refIndex : BitVec 32) :
    (computeRefPos segmentBlocks (BitVec.ofNat 32 slice) (BitVec.ofNat 32 offset) refIndex).toNat <
      slice * segmentBlocks.toNat + offset - 1 := by
  rw [toNat_computeRefPos hlow hhigh]
  omega

/-! ## Addresses -/

/-- The block in which each thread has put its word of the input first. -/
def inputBlock (threadInput : Vector (BitVec 32) 32) : Block :=
  Vector.ofFn fun k ↦ if k.val < 32 then u64Build 0 (threadInput.get (Fin.ofNat 32 k)) else 0

theorem xor_zero_left (x : Block) : Block.xor (Vector.replicate 128 0) x = x := by
  refine ext_getElem fun k ↦ ?_
  simp [Block.xor]

theorem get_inputBlock (threadInput : Vector (BitVec 32) 32) (t : Fin 32) (r : Fin 4) :
    (inputBlock threadInput).get (place t r) =
      if r = 0 then u64Build 0 (threadInput.get t) else 0 := by
  have hfirst : ∀ (t : Fin 32) (r : Fin 4), (place t r).val < 32 ↔ r = 0 := by decide
  have hword : ∀ t : Fin 32, Fin.ofNat 32 (place t 0) = t := by decide
  rw [inputBlock, get_ofFn]
  simp only [hfirst]
  split
  · next hr => simp only [hr, hword]
  · rfl

theorem load_inputBlock (threadInput : Vector (BitVec 32) 32) :
    (threadInput.map (u64Build 0)).map (fun a ↦ { a, b := 0, c := 0, d := 0 }) =
      load (inputBlock threadInput) := by
  refine ext_register fun t r ↦ ?_
  rw [register_load, get_inputBlock, register]
  simp only [Fin.getElem_fin, Vector.getElem_map]
  fin_cases r <;> rfl

theorem register_xorA (block : Warp) (v : Vector (BitVec 64) 32) (t : Fin 32) (r : Fin 4) :
    register (xorA block v) t r = register block t r ^^^ if r = 0 then v.get t else 0 := by
  rw [register, xorA, fin_getElem_ofFn]
  fin_cases r
  · rfl
  all_goals exact BitVec.xor_zero.symm

theorem xorA_load (x : Block) (threadInput : Vector (BitVec 32) 32) :
    xorA (load x) (threadInput.map (u64Build 0)) = load (Block.xor x (inputBlock threadInput)) := by
  refine ext_register fun t r ↦ ?_
  have hxor : (Block.xor x (inputBlock threadInput)).get (place t r) =
      x.get (place t r) ^^^ (inputBlock threadInput).get (place t r) := Vector.getElem_zipWith _
  have hword : (threadInput.map (u64Build 0)).get t = u64Build 0 (threadInput.get t) :=
    Vector.getElem_map ..
  rw [register_xorA, register_load, register_load, hxor, get_inputBlock, hword]

/-- **The addresses of the warp.** -/
theorem nextAddresses1_eq (tmp : BlockL) (threadInput : Vector (BitVec 32) 32) :
    (nextAddresses1 tmp threadInput).1 =
      load (compress (Vector.replicate 128 0)
        (compress (Vector.replicate 128 0) (inputBlock threadInput))) := by
  have hzero (y : Block) : compress (Vector.replicate 128 0) y =
      Block.xor (permuteColumns (permuteRows y)) y := by
    rw [compress, xor_zero_left]
  have hagain (x : Block) := compress_load tmp (Vector.replicate 128 0) x
  simp only [xor_zero_left] at hagain
  rw [nextAddresses1]
  dsimp only
  rw [load_inputBlock, shuffleBlock_load, xorA_load, hagain, hzero (inputBlock _)]

end XNMiner.Device
