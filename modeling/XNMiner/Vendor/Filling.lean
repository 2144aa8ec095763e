import XNMiner.Vendor.Kernel

/-!
# The kernel fills the memory as the standard does

`Filled` says how far a warp has come: the blocks before a column are those of the standard, and it
keeps the last of them in its registers.  `Addressed` says the same of the addresses.  Each turn
keeps both (`Mined.indexed`, `Mined.dependent`), whatever the key, the salt and the memory cost.
-/

namespace XNMiner.Device

open Lib.Argon2

/-! ## The parameters of the kernel -/

/-- One lane and one pass of Argon2id, over a memory that is large enough and has a number of 32
bits. -/
structure Mined (p : Params) : Prop where
  lanes : p.lanes = 1
  passes : p.passes = 1
  variant : p.variant = .id
  low : 8 ≤ p.memory
  high : p.memory < 2 ^ 32

variable {p : Params}

theorem Mined.segmentLength (h : Mined p) : 2 ≤ p.segmentLength ∧ 4 * p.segmentLength < 2 ^ 32 := by
  have hlow := h.low
  have hhigh := h.high
  rw [Params.segmentLength, h.lanes]
  omega

/-- A place in the only pass and lane. -/
def placeAt (slice offset : Nat) : Position := { pass := 0, slice, lane := 0, index := offset }

/-- A place after the two blocks that are there before. -/
structure Inside (p : Params) (slice offset : Nat) : Prop where
  slice_lt : slice < 4
  offset_lt : offset < p.segmentLength
  third : 2 ≤ p.column (placeAt slice offset)

theorem Inside.column_lt {slice offset : Nat} (hin : Inside p slice offset) :
    p.column (placeAt slice offset) < p.laneLength := by
  have hslice : (slice + 1) * p.segmentLength ≤ 4 * p.segmentLength :=
    Nat.mul_le_mul_right _ hin.slice_lt
  rw [Nat.succ_mul] at hslice
  have hoffset := hin.offset_lt
  change slice * p.segmentLength + offset < 4 * p.segmentLength
  omega

theorem previous_eq {slice offset : Nat} (hin : Inside p slice offset) (mem : Memory) :
    p.previous mem (placeAt slice offset) = mem 0 (p.column (placeAt slice offset) - 1) := by
  have hlt := hin.column_lt
  have hthird := hin.third
  rw [Params.previous, Nat.sub_add_comm (by omega), Nat.add_mod_right, Nat.mod_eq_of_lt (by omega)]
  rfl

/-- The kernel's reference for a word is that of the standard. -/
theorem Mined.reference (h : Mined p) {slice offset : Nat} (hin : Inside p slice offset)
    (j : BitVec 64) :
    p.referenceColumn (placeAt slice offset) (p.areaSize (placeAt slice offset) 0)
      (j.toNat % 2 ^ 32) =
    (computeRefPos (BitVec.ofNat 32 p.segmentLength) (BitVec.ofNat 32 slice)
      (BitVec.ofNat 32 offset) (u64Lo j)).toNat := by
  have hlt := hin.column_lt
  have hthird := hin.third
  have hseg := h.segmentLength
  have hsegment : (BitVec.ofNat 32 p.segmentLength).toNat = p.segmentLength :=
    Nat.mod_eq_of_lt (by omega)
  have hcolumn : p.column (placeAt slice offset) =
      slice * (BitVec.ofNat 32 p.segmentLength).toNat + offset := by
    rw [hsegment]
    rfl
  have hlane : p.laneLength = 4 * p.segmentLength := rfl
  have hlo : (u64Lo j).toNat = j.toNat % 2 ^ 32 := BitVec.toNat_setWidth _ _
  have harea : p.areaSize (placeAt slice offset) 0 = p.column (placeAt slice offset) - 1 := rfl
  have hpass : (placeAt slice offset).pass = 0 := rfl
  rw [toNat_computeRefPos (hcolumn ▸ hthird) (by omega), ← hcolumn, hlo, harea,
    Params.referenceColumn, if_pos hpass, Nat.zero_add,
    Nat.mod_eq_of_lt (by omega)]

/-- The block that the standard puts at a place. -/
theorem Mined.newBlock (h : Mined p) {slice offset : Nat} (hin : Inside p slice offset)
    (mem : Memory) :
    p.newBlock mem (placeAt slice offset) =
      compress (mem 0 (p.column (placeAt slice offset) - 1))
        (mem 0 (computeRefPos (BitVec.ofNat 32 p.segmentLength) (BitVec.ofNat 32 slice)
          (BitVec.ofNat 32 offset) (u64Lo (p.pseudoRandom mem (placeAt slice offset)))).toNat) := by
  have hlane (j₂ : Nat) : p.referenceLane (placeAt slice offset) j₂ = 0 := by
    rw [Params.referenceLane, h.lanes, Nat.mod_one]
    exact ite_self 0
  rw [Params.newBlock, hlane, h.reference hin, previous_eq hin]
  exact if_pos rfl

/-! ## What a warp has filled -/

/-- The memory of a job up to a column, and what the warp has kept of it. -/
structure Filled (base : Nat) (mem : Memory) (column : Nat) (q : (Nat → Block) × Job) : Prop where
  memory : ∀ i < column, q.1 (base + i) = mem 0 i
  memCurr : q.2.memCurr = base + column
  prev : q.2.prev = load (mem 0 (column - 1))

/-- `argon2_core` makes the next block. -/
theorem Filled.core {base column : Nat} {mem : Memory} {q : (Nat → Block) × Job}
    (h : Filled base mem column q) {refIndex : Vector (BitVec 32) 32} {r : BitVec 32}
    (hr : r.toNat < column) (href : ∀ t, refIndex.get t = r) :
    Filled base (fun lane i ↦ if lane = 0 ∧ i = column then
      compress (mem 0 (column - 1)) (mem 0 r.toNat) else mem lane i) (column + 1)
      (argon2Core base refIndex q) := by
  have hprev : loadBlockXor q.2.prev (fun t ↦ q.1 (base + (refIndex.get t).toNat)) =
      load (Block.xor (mem 0 (column - 1)) (mem 0 r.toNat)) := by
    rw [h.prev, ← loadBlockXor_load]
    simp only [href, h.memory _ hr]
  refine ⟨fun i hi ↦ ?_, ?_, ?_⟩
  · rw [argon2Core]
    dsimp only
    rw [hprev, compress_load, storeBlock_load, h.memCurr]
    by_cases heq : i = column
    · rw [heq, Function.update_self, if_pos ⟨rfl, rfl⟩]
    · rw [Function.update_of_ne (by omega), if_neg (by simp [heq]), h.memory i (by omega)]
  · rw [argon2Core]
    exact congrArg (· + 1) h.memCurr
  · rw [argon2Core]
    dsimp only
    rw [hprev, compress_load, Nat.add_sub_cancel, if_pos ⟨rfl, rfl⟩]

/-- What the threads put into the block of the addresses. -/
def inputs (p : Params) (slice counter : Nat) : Vector (BitVec 32) 32 :=
  Vector.ofFn fun thread ↦
    BitVec.ofNat 32 ([0, 0, slice, p.laneLength, 1, 2, counter].getD thread 0)

theorem u64Build_ofNat {n : Nat} (h : n < 2 ^ 32) :
    u64Build 0 (BitVec.ofNat 32 n) = BitVec.ofNat 64 n := by
  rw [u64Build_eq]
  refine BitVec.eq_of_toNat_eq ?_
  rw [BitVec.toNat_append, BitVec.toNat_ofNat, BitVec.toNat_ofNat, Nat.mod_eq_of_lt h,
    Nat.mod_eq_of_lt (by omega)]
  simp

theorem Mined.addresses (h : Mined p) {slice counter : Nat} (hslice : slice < 2)
    (hcounter : counter < 2 ^ 32) (offset : Nat) :
    p.addresses (placeAt slice offset) counter = compress (Vector.replicate 128 0)
      (compress (Vector.replicate 128 0) (inputBlock (inputs p slice counter))) := by
  have hlist : [0, 0, slice, p.lanes * p.laneLength, p.passes, p.variant.number, counter] =
      [0, 0, slice, p.laneLength, 1, 2, counter] := by
    rw [h.lanes, h.passes, h.variant, Nat.one_mul]
    rfl
  have hsmall (k : Nat) : [0, 0, slice, p.laneLength, 1, 2, counter].getD k 0 < 2 ^ 32 := by
    have hlane : p.laneLength < 2 ^ 32 := h.segmentLength.2
    have hall : ∀ n ∈ [0, 0, slice, p.laneLength, 1, 2, counter], n < 2 ^ 32 := by
      simp
      omega
    rw [List.getD_eq_getElem?_getD]
    cases hget : [0, 0, slice, p.laneLength, 1, 2, counter][k]? with
    | none => decide
    | some n => exact hall n (List.mem_of_getElem? hget)
  have hinput : (Vector.ofFn fun k : Fin 128 ↦
      BitVec.ofNat 64 ([0, 0, slice, p.laneLength, 1, 2, counter].getD k 0)) =
      inputBlock (inputs p slice counter) := by
    refine ext_getElem fun k ↦ ?_
    rw [inputBlock, fin_getElem_ofFn, fin_getElem_ofFn]
    split
    · next hk =>
      rw [inputs, get_ofFn, u64Build_ofNat (hsmall _), Fin.val_ofNat, Nat.mod_eq_of_lt hk]
    · next hk =>
      rw [List.getD_eq_getElem?_getD, List.getElem?_eq_none (by simp; omega)]
      rfl
  rw [Params.addresses]
  dsimp only [placeAt]
  rw [hlist, hinput]

theorem addresses_placeAt (p : Params) (slice offset offset' counter : Nat) :
    p.addresses (placeAt slice offset) counter = p.addresses (placeAt slice offset') counter := rfl

/-- The warp's addresses before a turn. -/
structure Addressed (p : Params) (slice offset : Nat) (job : Job) : Prop where
  threadInput : job.threadInput = inputs p slice ((offset + 127) / 128)
  addr : offset % 128 ≠ 0 →
    job.addr = load (p.addresses (placeAt slice offset) ((offset + 127) / 128))

theorem inputs_next (p : Params) (slice counter : Nat) :
    countUp (inputs p slice counter) = inputs p slice (counter + 1) := by
  refine ext_getElem fun t ↦ ?_
  simp only [countUp, inputs, Fin.getElem_fin, Vector.getElem_set, Vector.getElem_ofFn]
  by_cases hsix : 6 = t.val
  · rw [if_pos hsix, ← hsix]
    exact (BitVec.ofNat_add counter 1).symm
  · rw [if_neg hsix]
    fin_cases t
    all_goals first | rfl | exact absurd rfl hsix

theorem inputs_nextSlice (p : Params) (counter : Nat) :
    startSlice (inputs p 0 counter) = inputs p 1 0 := by
  refine ext_getElem fun t ↦ ?_
  simp only [startSlice, inputs, Fin.getElem_fin, Vector.getElem_set, Vector.getElem_ofFn]
  fin_cases t <;> rfl

theorem get_u64Shuffle_const (v : Vector (BitVec 64) 32) (src : Nat) (t : Fin 32) :
    (u64Shuffle v fun _ ↦ src).get t = v.get (Fin.ofNat 32 src) := by
  rw [u64Shuffle_eq, shfl, get_ofFn]
  rfl

theorem Mined.refreshed (h : Mined p) {slice offset : Nat} (hslice : slice < 2)
    (hoffset : offset < 2 ^ 32) {job : Job} (ha : Addressed p slice offset job) :
    (refreshAddresses offset job).threadInput = inputs p slice (offset / 128 + 1) ∧
      (refreshAddresses offset job).addr =
        load (p.addresses (placeAt slice offset) (offset / 128 + 1)) := by
  rw [refreshAddresses]
  split
  · next hnew =>
    have hcounter : (offset + 127) / 128 = offset / 128 := by omega
    dsimp only
    rw [ha.threadInput, inputs_next, hcounter, nextAddresses1_eq, h.addresses hslice (by omega)]
    exact ⟨rfl, rfl⟩
  · next hold =>
    have hcounter : (offset + 127) / 128 = offset / 128 + 1 := by omega
    exact ⟨hcounter ▸ ha.threadInput, hcounter ▸ ha.addr hold⟩

theorem refreshAddresses_kept (offset : Nat) (job : Job) :
    (refreshAddresses offset job).memCurr = job.memCurr ∧
      (refreshAddresses offset job).prev = job.prev := by
  rw [refreshAddresses]
  split <;> exact ⟨rfl, rfl⟩

@[simp] theorem argon2Core_threadInput (base : Nat) (refIndex : Vector (BitVec 32) 32)
    (q : (Nat → Block) × Job) :
    (argon2Core base refIndex q).2.threadInput = q.2.threadInput := rfl

@[simp] theorem argon2Core_addr (base : Nat) (refIndex : Vector (BitVec 32) 32)
    (q : (Nat → Block) × Job) : (argon2Core base refIndex q).2.addr = q.2.addr := rfl

theorem blockThGetUniform_eq {b : BlockTh} {i : Nat} (hi : i < 4) :
    blockThGetUniform b i = b.get (Fin.ofNat 4 i) := by
  obtain rfl | rfl | rfl | rfl : i = 0 ∨ i = 1 ∨ i = 2 ∨ i = 3 := by omega
  all_goals rfl

theorem fillBlock_eq (h : Mined p) {slice offset : Nat} (hin : Inside p slice offset)
    (mem : Memory) :
    p.fillBlock mem (placeAt slice offset) = fun lane i ↦
      if lane = 0 ∧ i = p.column (placeAt slice offset) then
        compress (mem 0 (p.column (placeAt slice offset) - 1))
          (mem 0 (computeRefPos (BitVec.ofNat 32 p.segmentLength) (BitVec.ofNat 32 slice)
            (BitVec.ofNat 32 offset)
            (u64Lo (p.pseudoRandom mem (placeAt slice offset)))).toNat)
      else mem lane i := by
  rw [Params.fillBlock, h.newBlock hin]
  rfl

theorem Mined.reference_lt (h : Mined p) {slice offset : Nat} (hin : Inside p slice offset)
    (x : BitVec 32) :
    (computeRefPos (BitVec.ofNat 32 p.segmentLength) (BitVec.ofNat 32 slice)
      (BitVec.ofNat 32 offset) x).toNat < p.column (placeAt slice offset) := by
  have hlt := hin.column_lt
  have hthird := hin.third
  have hseg := h.segmentLength
  have hsegment : (BitVec.ofNat 32 p.segmentLength).toNat = p.segmentLength :=
    Nat.mod_eq_of_lt (by omega)
  have hcolumn : p.column (placeAt slice offset) =
      slice * (BitVec.ofNat 32 p.segmentLength).toNat + offset := by
    rw [hsegment]
    rfl
  have hlane : p.laneLength = 4 * p.segmentLength := rfl
  have hbefore := toNat_computeRefPos_lt (hcolumn ▸ hthird) (by omega) x
  omega

/-- **A turn of the last loop fills a block.** -/
theorem Mined.dependent (h : Mined p) {base slice offset : Nat} (hin : Inside p slice offset)
    (hslice : 2 ≤ slice) {mem : Memory} {q : (Nat → Block) × Job}
    (hq : Filled base mem (p.column (placeAt slice offset)) q) :
    Filled base (p.fillBlock mem (placeAt slice offset)) (p.column (placeAt slice offset) + 1)
      (argon2StepDependent base (BitVec.ofNat 32 p.segmentLength) slice offset q) := by
  have hindependent : p.independent (placeAt slice offset) = false := by
    rw [Params.independent, h.variant]
    exact decide_eq_false fun hboth ↦ absurd hboth.2 (Nat.not_lt.mpr hslice)
  have hword : p.pseudoRandom mem (placeAt slice offset) =
      (mem 0 (p.column (placeAt slice offset) - 1))[0] := by
    rw [Params.pseudoRandom, hindependent, previous_eq hin]
    rfl
  have hfirst (x : Block) : ((load x).map Quad.a).get (Fin.ofNat 32 0) = x[0] := by
    rw [get_map]
    exact register_load x 0 0
  rw [fillBlock_eq h hin, argon2StepDependent]
  refine hq.core (h.reference_lt hin _) fun t ↦ ?_
  rw [get_map, get_u64Shuffle_const, hq.prev, hfirst, hword]

/-- **A turn of the first loops fills a block**, and has the addresses for the next. -/
theorem Mined.indexed (h : Mined p) {base slice offset : Nat} (hin : Inside p slice offset)
    (hslice : slice < 2) {mem : Memory} {q : (Nat → Block) × Job}
    (hq : Filled base mem (p.column (placeAt slice offset)) q)
    (ha : Addressed p slice offset q.2) :
    Filled base (p.fillBlock mem (placeAt slice offset)) (p.column (placeAt slice offset) + 1)
      (argon2StepIndexed base (BitVec.ofNat 32 p.segmentLength) slice offset q) ∧
    Addressed p slice (offset + 1)
      (argon2StepIndexed base (BitVec.ofNat 32 p.segmentLength) slice offset q).2 := by
  have hoffset : offset < 2 ^ 32 := by
    have hseg := h.segmentLength
    have hlt := hin.offset_lt
    omega
  have hindependent : p.independent (placeAt slice offset) = true := by
    rw [Params.independent, h.variant]
    exact decide_eq_true ⟨rfl, hslice⟩
  have hword : p.pseudoRandom mem (placeAt slice offset) =
      (p.addresses (placeAt slice offset) (offset / 128 + 1)).get (Fin.ofNat 128 offset) := by
    have hindex : (placeAt slice offset).index = offset := rfl
    rw [Params.pseudoRandom, hindependent, if_pos rfl, hindex]
  have hplace : place (Fin.ofNat 32 (offset % 128 % 32)) (Fin.ofNat 4 (offset % 128 / 32)) =
      Fin.ofNat 128 offset := by
    refine Fin.ext ?_
    rw [val_place, Fin.val_ofNat, Fin.val_ofNat, Fin.val_ofNat]
    omega
  have hpick (x : Block) : ((load x).map fun addr ↦ blockThGetUniform addr (offset % 128 / 32)).get
      (Fin.ofNat 32 (offset % 128 % 32)) = x.get (Fin.ofNat 128 offset) := by
    rw [get_map, blockThGetUniform_eq (by omega), ← hplace]
    exact register_load x (Fin.ofNat 32 (offset % 128 % 32)) _
  obtain ⟨hinput, haddr⟩ := h.refreshed hslice hoffset ha
  have hq' : Filled base mem (p.column (placeAt slice offset))
      (q.1, refreshAddresses offset q.2) :=
    ⟨hq.memory, (refreshAddresses_kept offset q.2).1.trans hq.memCurr,
      (refreshAddresses_kept offset q.2).2.trans hq.prev⟩
  have hcounter : (offset + 1 + 127) / 128 = offset / 128 + 1 := by omega
  rw [argon2StepIndexed]
  refine ⟨?_, ⟨?_, fun _ ↦ ?_⟩⟩
  · rw [fillBlock_eq h hin]
    refine hq'.core (h.reference_lt hin _) fun t ↦ ?_
    rw [get_map, get_u64Shuffle_const, haddr, hpick, hword]
  · rw [argon2Core_threadInput, hcounter]
    exact hinput
  · rw [argon2Core_addr, hcounter, addresses_placeAt p slice (offset + 1) offset]
    exact haddr

/-! ## Runs -/

/-- The blocks of a segment from one of them on. -/
def fillFrom (p : Params) (slice first n : Nat) (mem : Memory) : Memory :=
  (List.range' first n).foldl (fun mem offset ↦ p.fillBlock mem (placeAt slice offset)) mem

/-- Turns of a warp. -/
def runTurns (base segmentBlocks : Nat) (turns : List Turn) (q : (Nat → Block) × Job) :
    (Nat → Block) × Job :=
  turns.foldl (fun q turn ↦ turn.run base (BitVec.ofNat 32 segmentBlocks) q) q

/-- One of the first two loops. -/
theorem Mined.indexedLoop (h : Mined p) {base slice : Nat} (hslice : slice < 2) (n : Nat) :
    ∀ {first : Nat} {mem : Memory} {q : (Nat → Block) × Job}, first + n = p.segmentLength →
      2 ≤ p.column (placeAt slice first) →
      Filled base mem (p.column (placeAt slice first)) q → Addressed p slice first q.2 →
      Filled base (fillFrom p slice first n mem) (p.column (placeAt slice p.segmentLength))
        (runTurns base p.segmentLength ((List.range' first n).map (.indexed slice)) q) ∧
      Addressed p slice p.segmentLength
        (runTurns base p.segmentLength ((List.range' first n).map (.indexed slice)) q).2 := by
  induction n with
  | zero =>
    intro first mem q hend _ hq ha
    obtain rfl : first = p.segmentLength := hend
    exact ⟨hq, ha⟩
  | succ n ih =>
    intro first mem q hend hthird hq ha
    have hin : Inside p slice first := ⟨by omega, by omega, hthird⟩
    have hcolumn : p.column (placeAt slice (first + 1)) = p.column (placeAt slice first) + 1 := rfl
    obtain ⟨hq', ha'⟩ := h.indexed hin hslice hq ha
    exact ih (by omega) (by omega) hq' ha'

/-- The last loop, for one slice. -/
theorem Mined.dependentLoop (h : Mined p) {base slice : Nat} (hlow : 2 ≤ slice) (hhigh : slice < 4)
    (n : Nat) : ∀ {first : Nat} {mem : Memory} {q : (Nat → Block) × Job},
      first + n = p.segmentLength → Filled base mem (p.column (placeAt slice first)) q →
      Filled base (fillFrom p slice first n mem) (p.column (placeAt slice p.segmentLength))
        (runTurns base p.segmentLength ((List.range' first n).map (.dependent slice)) q) := by
  have hseg := h.segmentLength.1
  have hslice : 2 * p.segmentLength ≤ slice * p.segmentLength := Nat.mul_le_mul_right _ hlow
  induction n with
  | zero =>
    intro first mem q hend hq
    obtain rfl : first = p.segmentLength := hend
    exact hq
  | succ n ih =>
    intro first mem q hend hq
    have hcolumn : p.column (placeAt slice first) = slice * p.segmentLength + first := rfl
    have hin : Inside p slice first := ⟨hhigh, by omega, by omega⟩
    exact ih (by omega) (h.dependent hin hlow hq)

/-- The filling of the standard, segment by segment. -/
theorem Mined.fill (h : Mined p) (mem : Memory) :
    p.fill mem = fillFrom p 3 0 p.segmentLength (fillFrom p 2 0 p.segmentLength
      (fillFrom p 1 0 p.segmentLength (fillFrom p 0 2 (p.segmentLength - 2) mem))) := by
  rw [Params.fill, h.passes, h.lanes]
  rfl

theorem column_next (p : Params) (slice : Nat) :
    p.column (placeAt slice p.segmentLength) = p.column (placeAt (slice + 1) 0) :=
  (Nat.succ_mul slice p.segmentLength).symm

/-- Before the first loop. -/
theorem Mined.start (h : Mined p) {base : Nat} {mem : Memory} {q : (Nat → Block) × Job}
    (hfirst : ∀ i < 2, q.1 (base + i) = mem 0 i) :
    Filled base mem 2 (Turn.start.run base (BitVec.ofNat 32 p.segmentLength) q) ∧
      Addressed p 0 2 (Turn.start.run base (BitVec.ofNat 32 p.segmentLength) q).2 := by
  have hinput : (Vector.ofFn fun thread : Fin 32 ↦
      (if thread = 3 then 1 else 0) * (4 * BitVec.ofNat 32 p.segmentLength) +
        (if thread = 4 then 1 else 0) + (if thread = 5 then 1 else 0) * 2 +
        (if thread = 6 then 1 else 0)) = inputs p 0 1 := by
    refine ext_getElem fun t ↦ ?_
    rw [inputs, fin_getElem_ofFn, fin_getElem_ofFn]
    have hlane : 4 * BitVec.ofNat 32 p.segmentLength = BitVec.ofNat 32 p.laneLength := by
      rw [Params.laneLength, BitVec.ofNat_mul]
      rfl
    rw [hlane]
    fin_cases t <;> simp
  refine ⟨⟨hfirst, rfl, congrArg (fun x ↦ load x) (hfirst 1 (by decide))⟩, hinput, fun _ ↦ ?_⟩
  rw [h.addresses (by decide) (by decide), ← nextAddresses1_eq q.2.tmp, ← hinput]
  rfl

/-- Between the first two loops. -/
theorem nextSlice_spec {base : Nat} {mem : Memory} {q : (Nat → Block) × Job}
    (hq : Filled base mem (p.column (placeAt 0 p.segmentLength)) q)
    (ha : Addressed p 0 p.segmentLength q.2) :
    Filled base mem (p.column (placeAt 1 0))
      (Turn.nextSlice.run base (BitVec.ofNat 32 p.segmentLength) q) ∧
    Addressed p 1 0 (Turn.nextSlice.run base (BitVec.ofNat 32 p.segmentLength) q).2 := by
  rw [column_next] at hq
  refine ⟨⟨hq.memory, hq.memCurr, hq.prev⟩, ⟨?_, fun hne ↦ absurd rfl hne⟩⟩
  rw [Turn.run, ha.threadInput]
  exact inputs_nextSlice p _

/-- **A warp fills the memory of its job as the standard does.** -/
theorem Mined.kernel (h : Mined p) {base : Nat} {mem : Memory} {q : (Nat → Block) × Job}
    (hfirst : ∀ i < 2, q.1 (base + i) = mem 0 i) :
    ∀ i < p.laneLength,
      (argon2KernelOneshot base (BitVec.ofNat 32 p.segmentLength) q).1 (base + i) =
        p.fill mem 0 i := by
  obtain ⟨hlow, hhigh⟩ := h.segmentLength
  have hsegment : (BitVec.ofNat 32 p.segmentLength).toNat = p.segmentLength :=
    Nat.mod_eq_of_lt (by omega)
  have hthird : p.column (placeAt 0 2) = 2 := by simp [Params.column, placeAt]
  have hsecond : p.column (placeAt 1 0) = p.segmentLength := by simp [Params.column, placeAt]
  obtain ⟨hq, ha⟩ := h.start hfirst
  obtain ⟨hq₀, ha₀⟩ := h.indexedLoop (by decide) (p.segmentLength - 2) (by omega) (by omega)
    (hthird.symm ▸ hq) ha
  obtain ⟨hq₁, ha₁⟩ := nextSlice_spec hq₀ ha₀
  obtain ⟨hq₂, -⟩ := h.indexedLoop (by decide) p.segmentLength (by omega) (by omega) hq₁ ha₁
  rw [column_next] at hq₂
  have hq₃ := h.dependentLoop (by decide) (by decide) p.segmentLength (by omega) hq₂
  rw [column_next] at hq₃
  have hq₄ := h.dependentLoop (by decide) (by decide) p.segmentLength (by omega) hq₃
  rw [column_next] at hq₄
  rw [argon2KernelOneshot, hsegment, h.fill]
  simp only [runTurns, oneshotTurns, List.cons_append, List.foldl_append, List.flatMap_cons,
    List.flatMap_nil, List.append_nil, List.range_eq_range', List.foldl_cons,
    List.foldl_nil] at hq₄ ⊢
  exact hq₄.memory

/-- The memory that the miner starts with. -/
def starting : Params :=
  { lanes := 1, tagLength := 64, memory := 1100, passes := 1, variant := .id }

/-- A memory of zeros, and a warp that has not begun. -/
def idleWarp : (Nat → Block) × Job :=
  let memory : Nat → Block := fun _ ↦ Vector.replicate 128 0
  (memory, oneshotStart 0 0 memory { lo := Vector.replicate 128 0, hi := Vector.replicate 128 0 })

theorem Mined.kernel_starting :
    (argon2KernelOneshot 0 (BitVec.ofNat 32 starting.segmentLength) idleWarp).1 (0 + 1000) =
      starting.fill (fun _ i ↦ idleWarp.1 (0 + i)) 0 1000 :=
  Mined.kernel ⟨rfl, rfl, rfl, by decide, by decide⟩ (fun _ _ ↦ rfl) 1000 (by decide)

end XNMiner.Device
