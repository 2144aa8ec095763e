import XNMiner.Lib.Confined
import XNMiner.Vendor.Argon2Params
import XNMiner.Vendor.Filling

/-!
# A batch on the device

`KernelRunner::run` starts three kernels one after the other: a thread for each job makes its first
two blocks, a warp fills its memory, a thread makes its digest.  The memory of the jobs is one
array.  Within a kernel the threads or warps take their turns in any order; each keeps to the blocks
of its job, so the digest of a job is Argon2id of its key (`Batch.digest`).
-/

namespace XNMiner.Device

open Lib Lib.Argon2

/-! ## Grids -/

/-- The jobs of a grid, thread by thread (or warp by warp), where a job's number has `w` bits and
whoever comes to none returns. -/
def gridJobs (w perBlock batchSize : Nat) : List Nat :=
  let grid := (batchSize + perBlock - 1) / perBlock
  (List.range grid).flatMap fun blockIdx ↦ (List.range perBlock).filterMap fun threadIdx ↦
    let jobId := (blockIdx * perBlock + threadIdx) % 2 ^ w
    if batchSize % 2 ^ w ≤ jobId then none else some jobId

theorem flatMap_filterMap_range {α : Type} (f : Nat → Option α) (n m : Nat) :
    (List.range n).flatMap (fun i ↦ (List.range m).filterMap fun j ↦ f (i * m + j)) =
      (List.range (n * m)).filterMap f := by
  induction n with
  | zero => simp
  | succ n ih =>
    rw [List.range_succ, List.flatMap_append, ih, Nat.succ_mul, List.range_add,
      List.filterMap_append, List.filterMap_map, List.flatMap_cons, List.flatMap_nil,
      List.append_nil]
    rfl

/-- **A grid comes to each job once.** -/
theorem gridJobs_eq {w perBlock batchSize : Nat} (hper : 0 < perBlock)
    (hw : batchSize + perBlock ≤ 2 ^ w) : gridJobs w perBlock batchSize = List.range batchSize := by
  let total := (batchSize + perBlock - 1) / perBlock * perBlock
  have hle : batchSize ≤ total := by
    have hmod := Nat.div_add_mod' (batchSize + perBlock - 1) perBlock
    have hlt := Nat.mod_lt (batchSize + perBlock - 1) hper
    change batchSize ≤ (batchSize + perBlock - 1) / perBlock * perBlock
    omega
  have htotal : total ≤ batchSize + perBlock - 1 := Nat.div_mul_le_self _ _
  have hbatch : batchSize % 2 ^ w = batchSize := Nat.mod_eq_of_lt (by omega)
  obtain ⟨extra, hextra⟩ := Nat.exists_eq_add_of_le hle
  have hrange : List.range ((batchSize + perBlock - 1) / perBlock * perBlock) =
      List.range batchSize ++ (List.range extra).map (batchSize + ·) := by
    rw [← List.range_add]
    exact congrArg List.range hextra
  have hfirst : (List.range batchSize).filterMap (fun id ↦
      if batchSize ≤ id % 2 ^ w then none else some (id % 2 ^ w)) = List.range batchSize := by
    refine (List.filterMap_congr fun id hid ↦ ?_).trans List.filterMap_some
    have hlt : id < batchSize := List.mem_range.mp hid
    rw [Nat.mod_eq_of_lt (by omega), if_neg (by omega)]
  have hrest : ((List.range extra).map (batchSize + ·)).filterMap (fun id ↦
      if batchSize ≤ id % 2 ^ w then none else some (id % 2 ^ w)) = [] := by
    refine List.filterMap_eq_nil_iff.mpr fun id hid ↦ ?_
    obtain ⟨k, hk, rfl⟩ := List.mem_map.mp hid
    have hlt : k < extra := List.mem_range.mp hk
    rw [Nat.mod_eq_of_lt (by omega), if_pos (by omega)]
  rw [gridJobs, flatMap_filterMap_range (fun id ↦
    if batchSize % 2 ^ w ≤ id % 2 ^ w then none else some (id % 2 ^ w)), hbatch, hrange,
    List.filterMap_append, hfirst, hrest, List.append_nil]

theorem gridJobs_five : gridJobs 32 4 5 = [0, 1, 2, 3, 4] := gridJobs_eq (by decide) (by decide)

/-! ## The kernels -/

/-- The arguments of the kernels.  `keys` holds the keys of all jobs, one after the other. -/
structure Batch where
  keys : List (BitVec 8)
  keyLength : Nat
  salt : List (BitVec 8)
  outputLength : Nat
  memoryCost : Nat
  timeCost : Nat
  version : Nat
  type : Variant
  lanes : Nat
  segmentBlocks : BitVec 32
  batchSize : Nat
  keys_length : keys.length = batchSize * keyLength

namespace Batch

def laneBlocks (b : Batch) : Nat := (4 * b.segmentBlocks).toNat

/-- The key of a job. -/
def key (b : Batch) (jobId : Nat) : List (BitVec 8) :=
  (b.keys.drop (jobId * b.keyLength)).take b.keyLength

/-- `argon2_first_blocks_kernel`, by the thread of a job. -/
def firstBlocksKernel (b : Batch) (jobId : Nat) (memory : Nat → Block) : Nat → Block :=
  let initHash := deviceInitialHash (b.key jobId) b.salt b.outputLength b.memoryCost b.timeCost
    b.version b.type b.lanes
  let output := jobId * b.laneBlocks
  let block (i : Nat) : Block :=
    blockOfBytes (deviceDigestLong 1024 (initHash ++ store32 i ++ store32 0))
  Function.update (Function.update memory output (block 0)) (output + 1) (block 1)

/-- `argon2_finalize_kernel`, by the thread of a job. -/
def finalizeKernel (b : Batch) (memory : Nat → Block) (jobId : Nat)
    (finalHashes : Nat → List (BitVec 8)) : Nat → List (BitVec 8) :=
  let blocksPerJob := 4 * b.segmentBlocks.toNat
  let finalBlock := memory (jobId * blocksPerJob + (blocksPerJob - 1))
  Function.update finalHashes jobId (deviceDigestLong 64 (bytesOfBlock finalBlock))

/-- What `runDeviceFirstBlockKernel` can do to the memory. -/
def FirstBlocks (b : Batch) : (Nat → Block) → (Nat → Block) → Prop :=
  Launched (L := Unit) (fun jobId (_ : Unit) p ↦ (b.firstBlocksKernel jobId p.1, p.2))
    (· ∈ gridJobs 64 256 b.batchSize) [()]

/-- What `runKernelOneshot` can do to the memory. -/
def Oneshot (b : Batch) (jobsPerBlock : Nat) : (Nat → Block) → (Nat → Block) → Prop :=
  Launched (fun jobId (turn : Turn) p ↦ turn.run (jobId * b.laneBlocks) b.segmentBlocks p)
    (· ∈ gridJobs 32 jobsPerBlock b.batchSize) (oneshotTurns b.segmentBlocks.toNat)

/-- What `runDeviceFinalizeKernel` can do to the digests. -/
def Finalize (b : Batch) (memory : Nat → Block) :
    (Nat → List (BitVec 8)) → (Nat → List (BitVec 8)) → Prop :=
  Launched (L := Unit) (fun jobId (_ : Unit) p ↦ (b.finalizeKernel memory jobId p.1, p.2))
    (· ∈ gridJobs 64 128 b.batchSize) [()]

end Batch

/-! ## A warp keeps to the memory of its job -/

/-- The turn fills a block. -/
def Turn.fills : Turn → Bool
  | .indexed .. | .dependent .. => true
  | .start | .nextSlice => false

theorem countP_oneshotTurns {segmentBlocks : Nat} (h : 2 ≤ segmentBlocks) :
    (oneshotTurns segmentBlocks).countP Turn.fills + 2 = 4 * segmentBlocks := by
  have hloop {turn : Nat → Turn} (hturn : ∀ o, (turn o).fills = true) (l : List Nat) :
      (l.map turn).countP Turn.fills = l.length := by
    rw [List.countP_map]
    exact List.countP_eq_length.mpr fun o _ ↦ hturn o
  have hindexed (slice : Nat) (l : List Nat) :
      (l.map (Turn.indexed slice)).countP Turn.fills = l.length := hloop (fun _ ↦ rfl) l
  have hdependent (slice : Nat) (l : List Nat) :
      (l.map (Turn.dependent slice)).countP Turn.fills = l.length := hloop (fun _ ↦ rfl) l
  simp only [oneshotTurns, List.countP_append, List.cons_append, List.countP_cons, hindexed,
    List.flatMap_cons, List.flatMap_nil, hdependent, List.length_range', List.length_range,
    List.countP_nil, Turn.fills]
  simp
  omega

/-- A turn that fills a block is one of the loops', and where the block is. -/
theorem fills_oneshotTurns {segmentBlocks : Nat} {turn : Turn} (hlow : 2 ≤ segmentBlocks)
    (h : turn ∈ oneshotTurns segmentBlocks) (hfills : turn.fills = true) : ∃ slice offset,
      (turn = .indexed slice offset ∨ turn = .dependent slice offset) ∧
      2 ≤ slice * segmentBlocks + offset ∧ slice * segmentBlocks + offset < 4 * segmentBlocks := by
  simp only [oneshotTurns, List.mem_append, List.mem_cons, List.mem_map, List.mem_range'_1,
    List.mem_range, List.mem_flatMap, List.not_mem_nil, or_false] at h
  rcases h with (((rfl | ⟨offset, ho, rfl⟩) | rfl) | ⟨offset, ho, rfl⟩)
    | ⟨slice, rfl | rfl, offset, ho, rfl⟩
  · cases hfills
  · exact ⟨0, offset, .inl rfl, by omega, by omega⟩
  · cases hfills
  · exact ⟨1, offset, .inl rfl, by omega, by omega⟩
  · exact ⟨2, offset, .inr rfl, by omega, by omega⟩
  · exact ⟨3, offset, .inr rfl, by omega, by omega⟩

/-- What such a turn does. -/
theorem Turn.run_fills {turn : Turn} {slice offset : Nat}
    (h : turn = .indexed slice offset ∨ turn = .dependent slice offset) (base : Nat)
    (segmentBlocks : BitVec 32) (job : Job) :
    ∃ (job' : Job) (words : Vector (BitVec 64) 32), job'.memCurr = job.memCurr ∧
      ∀ memory, turn.run base segmentBlocks (memory, job) =
        argon2Core base (words.map fun v ↦ computeRefPos segmentBlocks (BitVec.ofNat 32 slice)
          (BitVec.ofNat 32 offset) (u64Lo v)) (memory, job') := by
  rcases h with rfl | rfl
  · refine ⟨refreshAddresses offset job, u64Shuffle ((refreshAddresses offset job).addr.map fun
      addr ↦ blockThGetUniform addr (offset % 128 / 32)) fun _ ↦ offset % 128 % 32,
      (refreshAddresses_kept offset job).1, fun memory ↦ ?_⟩
    rw [Turn.run, argon2StepIndexed]
  · refine ⟨job, u64Shuffle (job.prev.map Quad.a) fun _ ↦ 0, rfl, fun memory ↦ ?_⟩
    rw [Turn.run, argon2StepDependent]

/-- What the variables of a job have to be for the turns that are left. -/
structure Job.Ready (base segmentBlocks : Nat) (left : List Turn) (job : Job) : Prop where
  suffix : left <:+ oneshotTurns segmentBlocks
  memCurr : left ≠ [] → Turn.start ∉ left →
    job.memCurr + left.countP Turn.fills = base + 4 * segmentBlocks

variable {base segmentBlocks : Nat} {turn : Turn} {left : List Turn} {job : Job}

/-- Only the first turn is the start. -/
theorem start_notMem (h : turn :: left <:+ oneshotTurns segmentBlocks) : Turn.start ∉ left := by
  have htail : left <:+ (oneshotTurns segmentBlocks).tail := by
    obtain ⟨done, hdone⟩ := h
    rw [← hdone]
    cases done with
    | nil => exact List.suffix_rfl
    | cons _ done => exact ⟨done ++ [turn], by simp⟩
  refine fun hmem ↦ absurd (htail.subset hmem) ?_
  simp [oneshotTurns]

theorem Job.Ready.start (h : job.Ready base segmentBlocks (.start :: left))
    (hlow : 2 ≤ segmentBlocks) : base + 2 + left.countP Turn.fills = base + 4 * segmentBlocks := by
  obtain ⟨done, hdone⟩ := h.suffix
  cases done with
  | nil =>
    have hall := countP_oneshotTurns hlow
    rw [← hdone, List.nil_append, List.countP_cons_of_neg (by exact Bool.false_ne_true)] at hall
    omega
  | cons first done =>
    have htail : (oneshotTurns segmentBlocks).tail = done ++ .start :: left := by rw [← hdone]; rfl
    have hmem : Turn.start ∈ (oneshotTurns segmentBlocks).tail := htail ▸ by simp
    refine absurd hmem ?_
    simp [oneshotTurns]

/-- The block that comes next. -/
theorem Job.Ready.fills (h : job.Ready base segmentBlocks (turn :: left)) (hlow : 2 ≤ segmentBlocks)
    (hturn : turn.fills = true) :
    (base ≤ job.memCurr ∧ job.memCurr < base + 4 * segmentBlocks) ∧
      job.memCurr + 1 + left.countP Turn.fills = base + 4 * segmentBlocks := by
  have hstart : Turn.start ∉ turn :: left := by
    rintro (_ | ⟨_, hmem⟩)
    · cases hturn
    · exact start_notMem h.suffix hmem
  have hcount := h.memCurr (List.cons_ne_nil _ _) hstart
  have hall := countP_oneshotTurns hlow
  have hle := h.suffix.sublist.countP_le (p := Turn.fills)
  rw [List.countP_cons_of_pos hturn] at hcount hle
  omega

/-- `argon2_core` reads the references and the block that it makes. -/
theorem argon2Core_congr {refIndex : Vector (BitVec 32) 32} {memory memory' : Nat → Block}
    (href : ∀ t, memory (base + (refIndex.get t).toNat) = memory' (base + (refIndex.get t).toNat))
    (hcurr : memory job.memCurr = memory' job.memCurr) :
    (argon2Core base refIndex (memory, job)).2 = (argon2Core base refIndex (memory', job)).2 ∧
      ∀ a, memory a = memory' a → (argon2Core base refIndex (memory, job)).1 a =
        (argon2Core base refIndex (memory', job)).1 a := by
  have hload : loadBlockXor job.prev (fun thread ↦ memory (base + (refIndex.get thread).toNat)) =
      loadBlockXor job.prev fun thread ↦ memory' (base + (refIndex.get thread).toNat) :=
    congrArg (loadBlockXor job.prev) (funext href)
  rw [argon2Core, argon2Core]
  dsimp only
  rw [hload, hcurr]
  refine ⟨rfl, fun a ha ↦ ?_⟩
  rw [Function.update_apply, Function.update_apply, ha]

section

variable (b : Batch)

/-- The blocks of a job. -/
def Batch.own (jobId a : Nat) : Prop :=
  jobId * b.laneBlocks ≤ a ∧ a < jobId * b.laneBlocks + b.laneBlocks

theorem Batch.own_disjoint {i j a : Nat} (hi : b.own i a) (hj : b.own j a) : i = j := by
  have hdiv {k : Nat} (hk : b.own k a) : a / b.laneBlocks = k :=
    Nat.div_eq_of_lt_le hk.1 (by rw [Nat.succ_mul]; exact hk.2)
  exact (hdiv hi).symm.trans (hdiv hj)

variable {b}

/-- **The warps keep to the memory of their jobs.** -/
theorem Batch.oneshot_confined (hlow : 2 ≤ b.segmentBlocks.toNat)
    (hhigh : 4 * b.segmentBlocks.toNat < 2 ^ 32) :
    Confined (fun jobId (turn : Turn) p ↦ turn.run (jobId * b.laneBlocks) b.segmentBlocks p) b.own
      (fun jobId left job ↦ job.Ready (jobId * b.laneBlocks) b.segmentBlocks.toNat left) := by
  have hlane : b.laneBlocks = 4 * b.segmentBlocks.toNat := by
    rw [Batch.laneBlocks, BitVec.toNat_mul]
    exact Nat.mod_eq_of_lt hhigh
  -- a turn that fills a block, of which everything else follows
  have hfill {i : Nat} {turn : Turn} {left : List Turn} {job : Job}
      (h : job.Ready (i * b.laneBlocks) b.segmentBlocks.toNat (turn :: left))
      (hfills : turn.fills = true) : ∃ job' refIndex, job'.memCurr = job.memCurr ∧
        (∀ t, b.own i (i * b.laneBlocks + (refIndex.get t).toNat)) ∧ ∀ memory,
          turn.run (i * b.laneBlocks) b.segmentBlocks (memory, job) =
            argon2Core (i * b.laneBlocks) refIndex (memory, job') := by
    obtain ⟨slice, offset, hturn, hthird, hlast⟩ :=
      fills_oneshotTurns hlow (h.suffix.subset List.mem_cons_self) hfills
    obtain ⟨job', words, hcurr, hrun⟩ := Turn.run_fills hturn (i * b.laneBlocks) b.segmentBlocks job
    refine ⟨job', _, hcurr, fun t ↦ ⟨Nat.le_add_right _ _, ?_⟩, hrun⟩
    have hbefore := toNat_computeRefPos_lt hthird (by omega) (u64Lo words[t.val])
    have hget : (words.map fun v ↦ computeRefPos b.segmentBlocks (BitVec.ofNat 32 slice)
        (BitVec.ofNat 32 offset) (u64Lo v)).get t = computeRefPos b.segmentBlocks
          (BitVec.ofNat 32 slice) (BitVec.ofNat 32 offset) (u64Lo words[t.val]) :=
      Vector.getElem_map ..
    rw [hget]
    omega
  refine ⟨fun hi hj ↦ b.own_disjoint hi hj, fun {i turn left job} memory h ↦ ?_,
    fun {i turn left job} memory a h ha ↦ ?_, fun {i turn left job memory memory'} h hmem ↦ ?_⟩
  · refine ⟨(List.suffix_cons turn left).trans h.suffix, fun _ _ ↦ ?_⟩
    cases turn with
    | start => exact h.start hlow
    | nextSlice =>
      exact h.memCurr (List.cons_ne_nil _ _)
        (List.not_mem_cons_of_ne_of_not_mem nofun (start_notMem h.suffix))
    | indexed | dependent =>
      obtain ⟨job', refIndex, hcurr, -, hrun⟩ := hfill h rfl
      rw [hrun, argon2Core, hcurr]
      exact (h.fills hlow rfl).2
  · cases turn with
    | start | nextSlice => rfl
    | indexed | dependent =>
      obtain ⟨job', refIndex, hcurr, -, hrun⟩ := hfill h rfl
      rw [hrun, argon2Core]
      refine Function.update_of_ne (fun heq ↦ ha ?_) _ _
      rw [heq, hcurr, Batch.own, hlane]
      exact hlane ▸ (h.fills hlow rfl).1
  · cases turn with
    | start =>
      have hsecond : b.own i (i * b.laneBlocks + 1) := ⟨by omega, by omega⟩
      refine ⟨?_, hmem⟩
      simp only [Turn.run, oneshotStart, hmem _ hsecond]
    | nextSlice => exact ⟨rfl, hmem⟩
    | indexed | dependent =>
      obtain ⟨job', refIndex, hcurr, href, hrun⟩ := hfill h rfl
      have hown : b.own i job'.memCurr := by
        rw [hcurr, Batch.own, hlane]
        exact hlane ▸ (h.fills hlow rfl).1
      obtain ⟨hjob, hblocks⟩ := argon2Core_congr (fun t ↦ hmem _ (href t)) (hmem _ hown)
      rw [hrun, hrun]
      exact ⟨hjob, fun a ha ↦ hblocks a (hmem a ha)⟩

/-! ## The digests -/

/-- The parameters of the standard. -/
def Batch.params (b : Batch) : Params :=
  { lanes := b.lanes, tagLength := b.outputLength, memory := b.memoryCost, passes := b.timeCost,
    variant := b.type }

/-- The hash is one that the kernels compute, and the sizes fit their types. -/
structure Batch.Prepared (b : Batch) : Prop where
  mined : Mined b.params
  outputLength : b.outputLength = 64
  version : b.version = 0x13
  segmentBlocks : b.segmentBlocks = BitVec.ofNat 32 b.params.segmentLength
  keyLength : b.keyLength + 128 < 2 ^ 32
  salt : b.salt.length + 128 < 2 ^ 32
  batchSize : b.batchSize + 256 ≤ 2 ^ 32

theorem Batch.Prepared.segment (h : b.Prepared) :
    b.segmentBlocks.toNat = b.params.segmentLength ∧ b.laneBlocks = b.params.laneLength := by
  have hseg := h.mined.segmentLength
  have hsegment : b.segmentBlocks.toNat = b.params.segmentLength := by
    rw [h.segmentBlocks]
    exact Nat.mod_eq_of_lt (by omega)
  refine ⟨hsegment, ?_⟩
  rw [Batch.laneBlocks, BitVec.toNat_mul, hsegment]
  exact Nat.mod_eq_of_lt hseg.2

theorem Batch.Prepared.mem_gridJobs (h : b.Prepared) {w perBlock jobId : Nat} (hw : 32 ≤ w)
    (hper : 0 < perBlock) (hlarge : perBlock ≤ 256) :
    jobId ∈ gridJobs w perBlock b.batchSize ↔ jobId < b.batchSize := by
  have hbatch := h.batchSize
  have hpow : 2 ^ 32 ≤ 2 ^ w := Nat.pow_le_pow_right (by decide) hw
  rw [gridJobs_eq hper (by omega), List.mem_range]

/-- The first two blocks of a job. -/
theorem Batch.firstBlocksKernel_eq (h : b.Prepared) {jobId : Nat} (memory : Nat → Block) {i : Nat}
    (hi : i < 2) : b.firstBlocksKernel jobId memory (jobId * b.laneBlocks + i) =
      b.params.firstBlocks (b.key jobId) b.salt 0 i := by
  have hkey : (b.key jobId).length + 128 < 2 ^ 32 := by
    have hlen := h.keyLength
    rw [Batch.key, List.length_take]
    omega
  have hhash := deviceInitialHash_eq b.params rfl rfl hkey h.salt
  have hblock (i : Nat) : blockOfBytes (deviceDigestLong 1024
      (b.params.h0 (b.key jobId) b.salt ++ store32 i ++ store32 0)) =
      b.params.firstBlocks (b.key jobId) b.salt 0 i := by
    rw [deviceDigestLong, digestLongBits_firstBlock (by decide), blockOfBytes_bytesOfBlock]
  have hfold : deviceInitialHash (b.key jobId) b.salt b.outputLength b.memoryCost b.timeCost
      b.version b.type b.lanes = b.params.h0 (b.key jobId) b.salt := by
    rw [h.version]
    exact hhash
  rw [Batch.firstBlocksKernel, hfold]
  dsimp only
  rw [hblock, hblock]
  obtain rfl | rfl : i = 0 ∨ i = 1 := by omega
  · rw [Function.update_of_ne (by omega), Nat.add_zero, Function.update_self]
  · rw [Function.update_self]

/-- A thread writes the first blocks of its job only. -/
theorem Batch.firstBlocks_confined (hlane : 2 ≤ b.laneBlocks) :
    Confined (L := Unit) (fun jobId (_ : Unit) p ↦ (b.firstBlocksKernel jobId p.1, p.2)) b.own
      (fun _ _ _ ↦ True) := by
  refine ⟨fun hi hj ↦ b.own_disjoint hi hj, fun _ _ ↦ trivial,
    fun {i turn left _} memory a _ ha ↦ ?_, fun {i turn left _ memory memory'} _ hmem ↦
      ⟨rfl, fun a ha ↦ ?_⟩⟩
  · have hoff {k : Nat} (hk : k < 2) : a ≠ i * b.laneBlocks + k := by
      rintro rfl
      exact ha ⟨by omega, by omega⟩
    exact (Function.update_of_ne (hoff (by decide)) _ _).trans
      (Function.update_of_ne (hoff (k := 0) (by decide)) _ _)
  · simp only [Batch.firstBlocksKernel, Function.update_apply, hmem a ha]

/-- A thread writes the digest of its job only. -/
theorem Batch.finalize_confined (memory : Nat → Block) :
    Confined (L := Unit) (fun jobId (_ : Unit) p ↦ (b.finalizeKernel memory jobId p.1, p.2))
      (fun jobId a ↦ a = jobId) (fun _ _ _ ↦ True) := by
  refine ⟨fun hi hj ↦ hi.symm.trans hj, fun _ _ ↦ trivial,
    fun _ _ _ ha ↦ Function.update_of_ne ha _ _, fun {i turn left _ hashes hashes'} _ _ ↦
      ⟨rfl, fun a ha ↦ ?_⟩⟩
  simp only [Batch.finalizeKernel, ha, Function.update_self]

/-- Behind the last job there is none. -/
theorem Batch.Prepared.behind (h : b.Prepared) {w perBlock jobId i : Nat} (hw : 32 ≤ w)
    (hper : 0 < perBlock) (hlarge : perBlock ≤ 256) (hi : b.batchSize * b.laneBlocks ≤ i)
    (hjob : jobId ∈ gridJobs w perBlock b.batchSize) : ¬b.own jobId i := by
  intro hown
  have hle : (jobId + 1) * b.laneBlocks ≤ b.batchSize * b.laneBlocks :=
    Nat.mul_le_mul_right _ ((h.mem_gridJobs hw hper hlarge).mp hjob)
  rw [Nat.succ_mul] at hle
  have hlt := hown.2
  omega

/-- After the first kernel the memory of each job begins with its first blocks. -/
theorem Batch.Prepared.first (h : b.Prepared) {memory memory' : Nat → Block}
    (hlaunch : b.FirstBlocks memory memory') :
    (∀ jobId < b.batchSize, ∀ i < 2, memory' (jobId * b.laneBlocks + i) =
      b.params.firstBlocks (b.key jobId) b.salt 0 i) ∧
    ∀ i, b.batchSize * b.laneBlocks ≤ i → memory' i = memory i := by
  have hlane : 2 ≤ b.laneBlocks := by
    have hseg := h.mined.segmentLength.1
    rw [h.segment.2, Params.laneLength]
    omega
  obtain ⟨hregions, hothers⟩ := (Batch.firstBlocks_confined hlane).launched
    (fun _ _ _ ↦ trivial) (fun _ _ ↦ trivial) hlaunch
  refine ⟨fun jobId hjob i hi ↦ ?_, fun i hi ↦ hothers i fun jobId ↦
    h.behind (by decide) (by decide) le_rfl hi⟩
  obtain ⟨_, hregion⟩ := hregions jobId
    ((h.mem_gridJobs (by decide) (by decide) le_rfl).mpr hjob)
  exact (hregion _ ⟨by omega, by omega⟩).trans (b.firstBlocksKernel_eq h memory hi)

/-- After the second it is filled. -/
theorem Batch.Prepared.filled (h : b.Prepared) {jobsPerBlock : Nat} (hper : 0 < jobsPerBlock)
    (hlarge : jobsPerBlock ≤ 256) {memory memory' : Nat → Block}
    (hlaunch : b.Oneshot jobsPerBlock memory memory') :
    (∀ jobId < b.batchSize, ∀ mem : Memory,
      (∀ i < 2, memory (jobId * b.laneBlocks + i) = mem 0 i) →
      ∀ i < b.params.laneLength, memory' (jobId * b.laneBlocks + i) = b.params.fill mem 0 i) ∧
    ∀ i, b.batchSize * b.laneBlocks ≤ i → memory' i = memory i := by
  obtain ⟨hlow, hhigh⟩ := h.mined.segmentLength
  obtain ⟨hsegment, hlane⟩ := h.segment
  have hready (jobId : Nat) (job : Job) : job.Ready (jobId * b.laneBlocks) b.segmentBlocks.toNat
      (oneshotTurns b.segmentBlocks.toNat) :=
    ⟨List.suffix_rfl, fun _ hstart ↦ absurd (by simp [oneshotTurns]) hstart⟩
  have hidle (jobId : Nat) (job : Job) :
      job.Ready (jobId * b.laneBlocks) b.segmentBlocks.toNat [] :=
    ⟨List.nil_suffix, fun hne ↦ absurd rfl hne⟩
  obtain ⟨hregions, hothers⟩ := (Batch.oneshot_confined (by omega) (by omega)).launched
    (fun jobId _ job ↦ hready jobId job) hidle hlaunch
  refine ⟨fun jobId hjob mem hfirst i hi ↦ ?_, fun i hi ↦ hothers i fun jobId ↦
    h.behind (by decide) hper hlarge hi⟩
  obtain ⟨job, hregion⟩ := hregions jobId ((h.mem_gridJobs le_rfl hper hlarge).mpr hjob)
  have hkernel := h.mined.kernel (q := (memory, job)) hfirst i hi
  rw [hregion _ ⟨by omega, by omega⟩]
  rw [argon2KernelOneshot, ← h.segmentBlocks] at hkernel
  exact hkernel

/-- The digest that a thread makes of a filled memory. -/
theorem Batch.finalizeKernel_eq (h : b.Prepared) {jobId : Nat} {memory : Nat → Block}
    {password : List (BitVec 8)} (hashes : Nat → List (BitVec 8))
    (hfilled : ∀ i < b.params.laneLength, memory (jobId * b.laneBlocks + i) =
      b.params.fill (b.params.firstBlocks password b.salt) 0 i) :
    b.finalizeKernel memory jobId hashes jobId = b.params.argon2 password b.salt := by
  have hlow := h.mined.segmentLength.1
  obtain ⟨hsegment, hlane⟩ := h.segment
  have hlength : b.params.laneLength = 4 * b.params.segmentLength := rfl
  have hblock : memory (jobId * (4 * b.segmentBlocks.toNat) + (4 * b.segmentBlocks.toNat - 1)) =
      b.params.fill (b.params.firstBlocks password b.salt) 0 (b.params.laneLength - 1) := by
    rw [hsegment, ← hlength, ← hfilled _ (by omega), hlane]
  have hdigest : deviceDigestLong 64 (bytesOfBlock (memory
      (jobId * (4 * b.segmentBlocks.toNat) + (4 * b.segmentBlocks.toNat - 1)))) =
      hPrime b.params.tagLength (bytesOfBlock
        (b.params.fill (b.params.firstBlocks password b.salt) 0 (b.params.laneLength - 1))) := by
    rw [hblock, deviceDigestLong, digestLongBits_eq (by decide)
      (by rw [length_bytesOfBlock]; decide), show b.params.tagLength = 64 from h.outputLength]
  rw [Batch.finalizeKernel, Function.update_self, hdigest, Params.argon2, h.mined.lanes]
  rfl

/-- **The digests of a batch are Argon2id of its keys**, in whatever order its threads and warps
come to their turns; and the kernels write nothing else. -/
theorem Batch.digest (h : b.Prepared) {jobsPerBlock : Nat} (hper : 0 < jobsPerBlock)
    (hlarge : jobsPerBlock ≤ 256) {memory₀ memory₁ memory₂ : Nat → Block}
    {hashes₀ hashes₁ : Nat → List (BitVec 8)} (hfirst : b.FirstBlocks memory₀ memory₁)
    (honeshot : b.Oneshot jobsPerBlock memory₁ memory₂)
    (hfinalize : b.Finalize memory₂ hashes₀ hashes₁) :
    (∀ jobId < b.batchSize, hashes₁ jobId = b.params.argon2 (b.key jobId) b.salt) ∧
      (∀ jobId, b.batchSize ≤ jobId → hashes₁ jobId = hashes₀ jobId) ∧
      ∀ i, b.batchSize * b.laneBlocks ≤ i → memory₂ i = memory₀ i := by
  obtain ⟨hfirsts, houtside₁⟩ := h.first hfirst
  obtain ⟨hfilled, houtside₂⟩ := h.filled hper hlarge honeshot
  obtain ⟨hdigests, hothers⟩ := (Batch.finalize_confined memory₂).launched
    (fun _ _ _ ↦ trivial) (fun _ _ ↦ trivial) hfinalize
  have hgrid {jobId : Nat} : jobId ∈ gridJobs 64 128 b.batchSize ↔ jobId < b.batchSize :=
    h.mem_gridJobs (by decide) (by decide) (by decide)
  refine ⟨fun jobId hjob ↦ ?_, fun jobId hjob ↦ hothers jobId fun i hi heq ↦ ?_, fun i hi ↦
    (houtside₂ i hi).trans (houtside₁ i hi)⟩
  · obtain ⟨_, hregion⟩ := hdigests jobId (hgrid.mpr hjob)
    exact (hregion jobId rfl).trans
      (b.finalizeKernel_eq h hashes₀ (hfilled jobId hjob _ (hfirsts jobId hjob)))
  · have hlt := hgrid.mp hi
    omega

/-- A batch can be hashed. -/
theorem Batch.exists_launches (b : Batch) (jobsPerBlock : Nat) (memory : Nat → Block)
    (hashes : Nat → List (BitVec 8)) : ∃ memory₁ memory₂ hashes₁, b.FirstBlocks memory memory₁ ∧
      b.Oneshot jobsPerBlock memory₁ memory₂ ∧ b.Finalize memory₂ hashes hashes₁ := by
  have : Nonempty Job :=
    ⟨oneshotStart 0 0 memory { lo := Vector.replicate 128 0, hi := Vector.replicate 128 0 }⟩
  obtain ⟨memory₁, hfirst⟩ := exists_launched (L := Unit) (fun jobId (_ : Unit) p ↦
    (b.firstBlocksKernel jobId p.1, p.2)) (gridJobs 64 256 b.batchSize) (fun _ h ↦ h) [()] memory
  obtain ⟨memory₂, honeshot⟩ := exists_launched
    (fun jobId (turn : Turn) p ↦ turn.run (jobId * b.laneBlocks) b.segmentBlocks p)
    (gridJobs 32 jobsPerBlock b.batchSize) (fun _ h ↦ h) (oneshotTurns b.segmentBlocks.toNat)
    memory₁
  obtain ⟨hashes₁, hfinalize⟩ := exists_launched (L := Unit) (fun jobId (_ : Unit) p ↦
    (b.finalizeKernel memory₂ jobId p.1, p.2)) (gridJobs 64 128 b.batchSize) (fun _ h ↦ h) [()]
    hashes
  exact ⟨memory₁, memory₂, hashes₁, hfirst, honeshot, hfinalize⟩

/-- A batch of two keys, of four bytes each. -/
def twoKeys : Batch where
  keys := [1, 2, 3, 4, 5, 6, 7, 8]
  keyLength := 4
  salt := [1, 2, 3, 4, 5, 6, 7, 8]
  outputLength := 64
  memoryCost := 8
  timeCost := 1
  version := 0x13
  type := .id
  lanes := 1
  segmentBlocks := 2
  batchSize := 2
  keys_length := rfl

theorem twoKeys_prepared : twoKeys.Prepared :=
  ⟨⟨rfl, rfl, rfl, by decide, by decide⟩, rfl, rfl, rfl, by decide, by decide, by decide⟩

theorem Batch.digest_twoKeys : ∃ memory₁ memory₂ hashes₁,
    twoKeys.FirstBlocks (fun _ ↦ Vector.replicate 128 0) memory₁ ∧
      twoKeys.Oneshot 4 memory₁ memory₂ ∧ twoKeys.Finalize memory₂ (fun _ ↦ []) hashes₁ ∧
      hashes₁ 1 = twoKeys.params.argon2 [5, 6, 7, 8] twoKeys.salt := by
  obtain ⟨memory₁, memory₂, hashes₁, hfirst, honeshot, hfinalize⟩ :=
    twoKeys.exists_launches 4 (fun _ ↦ Vector.replicate 128 0) fun _ ↦ []
  exact ⟨memory₁, memory₂, hashes₁, hfirst, honeshot, hfinalize,
    (Batch.digest twoKeys_prepared (by decide) (by decide) hfirst honeshot hfinalize).1 1
      (by decide)⟩

end

end XNMiner.Device
