import Mathlib.Algebra.Order.Floor.Ring
import Mathlib.Data.Rat.Floor
import Mathlib.Tactic.Linarith
import Mathlib.Tactic.Positivity

/-!
# Sizing a batch

`plan_cuda_batch` (`mining/vram_batch.cpp`) divides the memory a card may use among its lanes and
fills the share of each with hash attempts at the difficulty; `clamp_plan_to_caps` then shrinks the
batch by two percent at a time until the projection is within the caps.

Bytes are natural numbers, amounts in MiB and batch sizes integers, and `double` products and
quotients exact rationals; the casts of the source are taken to fit.
-/

namespace XNMiner

def cudaEngineReserveBytes : Nat := 100 * 1024 * 1024

def bytesPerAttemptFactor : Rat := 1001 / 1000

def kMaxCudaLanes : Int := 32

def bytesPerMib : Nat := 1024 * 1024

/-- `CudaVramPlan`. -/
structure VramPlan where
  batchSize : Int
  lanes : Nat
  batchPerLane : Int
  laneReserve : Int
  budgetBytes : Nat
  budgetMib : Int
  batchVramBytes : Nat
  batchVramMib : Int
  usedBeforeMib : Int
  projectedUsedMib : Int
  projectedHeadroomMib : Int
  runtimeOverheadMib : Int
  targetMib : Int
  effectiveTargetMib : Int
  desktopHeadroomMib : Int
  difficulty : Int
  one_le_lanes : 1 ≤ lanes
deriving DecidableEq

def VramPlan.withinLimits (plan : VramPlan) : Bool :=
  decide (plan.projectedUsedMib ≤ plan.targetMib) &&
    decide (plan.desktopHeadroomMib ≤ plan.projectedHeadroomMib)

def bytesPerAttempt (difficulty : Int) : Rat := difficulty * 1024 * bytesPerAttemptFactor

def cudaLaneCount (maxLanes : Int) : Nat := (max 1 (min kMaxCudaLanes maxLanes)).toNat

def estimateBatchVramBytes (batchSize difficulty : Int) : Nat :=
  if batchSize ≤ 0 ∨ difficulty ≤ 0 then 0 else ⌊batchSize * bytesPerAttempt difficulty⌋.toNat

def memoryLimitedBatchSize (freeVramBytes : Nat) (difficulty : Int) (reserveBytes : Nat) : Int :=
  if difficulty ≤ 0 ∨ freeVramBytes ≤ reserveBytes then 0
  else
    let available : Rat := (freeVramBytes - reserveBytes : Nat)
    let per := bytesPerAttempt difficulty
    if per ≤ 0 then 0 else ⌊available / per⌋

def selectBatchSize (budgetBytes : Nat) (difficulty explicitMaxBatch : Int) (fillVramCap : Bool) :
    Int :=
  let memoryLimit := memoryLimitedBatchSize (budgetBytes + cudaEngineReserveBytes) difficulty
    cudaEngineReserveBytes
  if memoryLimit ≤ 0 then 0
  else if 0 < explicitMaxBatch then min memoryLimit explicitMaxBatch
  else if fillVramCap = false ∧ difficulty ≤ 64 then
    let tuned := if difficulty ≤ 1 then 2048 else if difficulty ≤ 8 then 4096 else 3072
    min memoryLimit tuned
  else memoryLimit

/-- `project`: the bytes of all lanes, the same in MiB, and what would be used and free. -/
def project (totalMib : Int) (lanes : Nat) (batchPerLane difficulty runtimeOverheadMib : Int) :
    Nat × Int × Int × Int :=
  let bytes := estimateBatchVramBytes batchPerLane difficulty * lanes
  let mib : Int := (bytes / bytesPerMib : Nat)
  (bytes, mib, mib + runtimeOverheadMib, max 0 (totalMib - (mib + runtimeOverheadMib)))

/-- The loop of `clamp_plan_to_caps`, with the rounds that are left. -/
def shrinkToCaps (plan : VramPlan) (totalMib : Int) : Nat → Int → VramPlan
  | 0, _ => plan
  | rounds + 1, batchPerLane =>
      let (bytes, mib, used, headroom) :=
        project totalMib plan.lanes batchPerLane plan.difficulty plan.runtimeOverheadMib
      if used ≤ plan.targetMib ∧ plan.desktopHeadroomMib ≤ headroom then
        { plan with
          batchSize := batchPerLane
          batchPerLane
          batchVramBytes := bytes
          batchVramMib := mib
          projectedUsedMib := used
          projectedHeadroomMib := headroom }
      else if 1 < batchPerLane then
        shrinkToCaps plan totalMib rounds (max 1 ⌊(batchPerLane : Rat) * (98 / 100)⌋)
      else plan

def clampPlanToCaps (plan : VramPlan) : VramPlan :=
  if plan.withinLimits then plan
  else shrinkToCaps plan (plan.projectedUsedMib + plan.projectedHeadroomMib) 10000
    plan.batchPerLane

/-- The arguments of `plan_cuda_batch` but for the difficulty. -/
structure PlanArgs where
  totalBytes : Nat
  freeBytes : Nat
  targetMib : Int
  desktopHeadroomMib : Int
  maxLanes : Int := 4
  laneReserve : Int := 1
  explicitBatch : Int := 0
  explicitMaxBatch : Int := 0
  runtimeOverheadMib : Int := 2048

namespace PlanArgs

def totalMib (a : PlanArgs) : Int := (a.totalBytes / bytesPerMib : Nat)

/-- The memory that batches may use, in MiB. -/
def allowedMib (a : PlanArgs) : Int :=
  let capBatchMib := max 0 (a.targetMib - a.runtimeOverheadMib)
  let headroomLimitedMib := max 0 (a.totalMib - a.desktopHeadroomMib - a.runtimeOverheadMib)
  min capBatchMib headroomLimitedMib

def lanes (a : PlanArgs) : Nat := cudaLaneCount (max 1 a.maxLanes)

/-- The share of one lane. -/
def perLaneBudget (a : PlanArgs) : Nat :=
  max 1 (a.allowedMib.toNat * bytesPerMib / max 1 a.lanes)

theorem one_le_lanes (a : PlanArgs) : 1 ≤ a.lanes := by
  unfold lanes cudaLaneCount kMaxCudaLanes
  omega

/-- The batch of a lane, before the projection. -/
def batchPerLane (a : PlanArgs) (difficulty : Int) : Int :=
  let maxBatchPerLane := selectBatchSize a.perLaneBudget difficulty a.explicitMaxBatch true
  if 0 < maxBatchPerLane then
    if 0 < a.explicitBatch then min a.explicitBatch maxBatchPerLane else maxBatchPerLane
  else 0

end PlanArgs

def planCudaBatch (a : PlanArgs) (difficulty : Int) : VramPlan :=
  let batchPerLane := a.batchPerLane difficulty
  let (bytes, mib, used, headroom) :=
    project a.totalMib a.lanes batchPerLane difficulty a.runtimeOverheadMib
  clampPlanToCaps
    { batchSize := batchPerLane
      lanes := a.lanes
      batchPerLane
      laneReserve := max 0 a.laneReserve
      budgetBytes := a.allowedMib.toNat * bytesPerMib
      budgetMib := a.allowedMib
      batchVramBytes := bytes
      batchVramMib := mib
      usedBeforeMib := ((a.totalBytes - a.freeBytes) / bytesPerMib : Nat)
      projectedUsedMib := used
      projectedHeadroomMib := headroom
      runtimeOverheadMib := a.runtimeOverheadMib
      targetMib := a.targetMib
      effectiveTargetMib := a.targetMib
      desktopHeadroomMib := a.desktopHeadroomMib
      difficulty
      one_le_lanes := a.one_le_lanes }

/-! ## When a batch can be sized -/

theorem bytesPerAttempt_pos {difficulty : Int} (h : 0 < difficulty) :
    0 < bytesPerAttempt difficulty := by
  unfold bytesPerAttempt bytesPerAttemptFactor
  have hm : (0 : Rat) < difficulty := by exact_mod_cast h
  positivity

/-- Memory holds an attempt exactly when it is as large as one. -/
theorem memoryLimitedBatchSize_pos_iff {budget : Nat} (hbudget : 1 ≤ budget) (difficulty : Int)
    (reserve : Nat) : 0 < memoryLimitedBatchSize (budget + reserve) difficulty reserve ↔
      0 < difficulty ∧ bytesPerAttempt difficulty ≤ budget := by
  unfold memoryLimitedBatchSize
  by_cases hm : 0 < difficulty
  · have hper := bytesPerAttempt_pos hm
    rw [if_neg (by omega)]
    dsimp only
    rw [if_neg (not_le.mpr hper), Nat.add_sub_cancel, Int.floor_pos, one_le_div hper]
    exact (and_iff_right hm).symm
  · rw [if_pos (.inl (not_lt.mp hm))]
    exact iff_of_false (lt_irrefl 0) fun h ↦ hm h.1

/-- No limit that is set takes the last attempt away. -/
theorem selectBatchSize_pos_iff {budget : Nat} (hbudget : 1 ≤ budget)
    (difficulty explicitMaxBatch : Int) (fill : Bool) :
    0 < selectBatchSize budget difficulty explicitMaxBatch fill ↔
      0 < difficulty ∧ bytesPerAttempt difficulty ≤ budget := by
  rw [← memoryLimitedBatchSize_pos_iff hbudget difficulty cudaEngineReserveBytes]
  unfold selectBatchSize
  dsimp only
  split_ifs <;> omega

theorem PlanArgs.one_le_perLaneBudget (a : PlanArgs) : 1 ≤ a.perLaneBudget := le_max_left _ _

theorem PlanArgs.batchPerLane_pos_iff (a : PlanArgs) (difficulty : Int) :
    0 < a.batchPerLane difficulty ↔
      0 < difficulty ∧ bytesPerAttempt difficulty ≤ a.perLaneBudget := by
  rw [← selectBatchSize_pos_iff a.one_le_perLaneBudget difficulty a.explicitMaxBatch true]
  unfold PlanArgs.batchPerLane
  dsimp only
  split_ifs <;> omega

/-- Shrinking a batch leaves at least one attempt, and does not make one. -/
theorem shrinkToCaps_batch_pos_iff (plan : VramPlan) (totalMib : Int) (rounds : Nat) {batch : Int}
    (h : 0 < batch ↔ 0 < plan.batchPerLane) :
    0 < (shrinkToCaps plan totalMib rounds batch).batchPerLane ↔ 0 < plan.batchPerLane := by
  induction rounds generalizing batch with
  | zero => exact Iff.rfl
  | succ rounds ih =>
      unfold shrinkToCaps
      dsimp only
      split
      · exact h
      · split
        · next hbig => exact ih (iff_of_true (by omega) (h.mp (by omega)))
        · exact Iff.rfl

/-- **A batch can be sized exactly when the share of a lane holds an attempt.** -/
theorem planCudaBatch_pos_iff (a : PlanArgs) (difficulty : Int) :
    0 < (planCudaBatch a difficulty).batchPerLane ↔
      0 < difficulty ∧ bytesPerAttempt difficulty ≤ a.perLaneBudget := by
  rw [← a.batchPerLane_pos_iff difficulty]
  unfold planCudaBatch clampPlanToCaps
  dsimp only
  split
  · exact Iff.rfl
  · exact shrinkToCaps_batch_pos_iff _ _ _ Iff.rfl

end XNMiner
