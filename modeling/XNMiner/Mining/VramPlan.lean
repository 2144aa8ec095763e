import XNMiner.Mining.VramBatch
import XNMiner.Efficiency.VramPolicy

/-!
# Plans that stay within the caps

The memory a plan may use is whole MiB under both caps of the card; a lane gets the quotient by the
number of lanes, and its batch the quotient by the size of an attempt.  Every rounding on the way
goes down, so the batches of all lanes fit the budget, the projection is within the caps, and the
loop that shrinks a batch has nothing to do.
-/

namespace XNMiner

/-! ## The batch of a lane -/

/-- The smallest attempt is larger than a byte. -/
theorem one_lt_bytesPerAttempt {difficulty : Int} (h : 1 ≤ difficulty) :
    1 < bytesPerAttempt difficulty := by
  have hm : (1 : Rat) ≤ difficulty := by exact_mod_cast h
  unfold bytesPerAttempt bytesPerAttemptFactor
  linarith

/-- An attempt grows with the difficulty. -/
theorem bytesPerAttempt_mono {m m' : Int} (h : m ≤ m') :
    bytesPerAttempt m ≤ bytesPerAttempt m' := by
  have hm : (m : Rat) ≤ m' := by exact_mod_cast h
  unfold bytesPerAttempt bytesPerAttemptFactor
  linarith

namespace PlanArgs

variable (a : PlanArgs)

/-- The explicit limits, on a batch that fits the memory. -/
def limited (batch : Int) : Int :=
  let top := if 0 < a.explicitMaxBatch then min batch a.explicitMaxBatch else batch
  if 0 < a.explicitBatch then min a.explicitBatch top else top

theorem limited_le (batch : Int) : a.limited batch ≤ batch := by
  unfold limited
  dsimp only
  split_ifs <;> omega

theorem limited_mono {batch batch' : Int} (h : batch ≤ batch') :
    a.limited batch ≤ a.limited batch' := by
  unfold limited
  dsimp only
  split_ifs <;> omega

theorem limited_of_none (hbatch : a.explicitBatch ≤ 0) (hmax : a.explicitMaxBatch ≤ 0)
    (batch : Int) : a.limited batch = batch := by
  unfold limited
  dsimp only
  rw [if_neg (not_lt.mpr hbatch), if_neg (not_lt.mpr hmax)]

/-- **The batch of a lane** is what fits its share, under the explicit limits. -/
theorem batchPerLane_eq {difficulty : Int} (h : 1 ≤ difficulty) :
    a.batchPerLane difficulty = a.limited ⌊a.perLaneBudget / bytesPerAttempt difficulty⌋ := by
  have hper : 0 < bytesPerAttempt difficulty := bytesPerAttempt_pos (by omega)
  have hshare := a.one_le_perLaneBudget
  have hnonneg : 0 ≤ ⌊a.perLaneBudget / bytesPerAttempt difficulty⌋ :=
    Int.floor_nonneg.mpr (by positivity)
  have hmemory : memoryLimitedBatchSize (a.perLaneBudget + cudaEngineReserveBytes) difficulty
      cudaEngineReserveBytes = ⌊a.perLaneBudget / bytesPerAttempt difficulty⌋ := by
    unfold memoryLimitedBatchSize
    rw [if_neg (by omega)]
    dsimp only
    rw [if_neg (not_le.mpr hper), Nat.add_sub_cancel]
  generalize ⌊a.perLaneBudget / bytesPerAttempt difficulty⌋ = fits at hnonneg hmemory ⊢
  unfold batchPerLane selectBatchSize limited
  dsimp only
  rw [hmemory]
  simp only [Bool.true_eq_false, false_and, if_false]
  split_ifs <;> omega

/-- The batch of a lane does not grow with the difficulty. -/
theorem batchPerLane_antitone {m m' : Int} (hm : 1 ≤ m) (h : m ≤ m') :
    a.batchPerLane m' ≤ a.batchPerLane m := by
  have hper : 0 < bytesPerAttempt m := bytesPerAttempt_pos (by omega)
  rw [a.batchPerLane_eq hm, a.batchPerLane_eq (hm.trans h)]
  refine a.limited_mono (Int.floor_le_floor ?_)
  exact div_le_div_of_nonneg_left (by positivity) hper (bytesPerAttempt_mono h)

/-! ## The budget -/

/-- The batches of all lanes. -/
theorem size_le_share {difficulty : Int} (h : 1 ≤ difficulty) :
    a.batchPerLane difficulty * bytesPerAttempt difficulty ≤ a.perLaneBudget := by
  have hper : 0 < bytesPerAttempt difficulty := bytesPerAttempt_pos (by omega)
  rw [← le_div_iff₀ hper, ← Int.le_floor, a.batchPerLane_eq h]
  exact a.limited_le _

/-- Where a lane has a batch, its share is the whole quotient of the budget. -/
theorem perLaneBudget_eq {difficulty : Int} (h : 1 ≤ difficulty)
    (hbatch : 1 ≤ a.batchPerLane difficulty) :
    a.perLaneBudget = a.allowedMib.toNat * bytesPerMib / a.lanes := by
  have hfits := ((a.batchPerLane_pos_iff difficulty).mp hbatch).2
  have hone : 1 < a.perLaneBudget := by
    exact_mod_cast (one_lt_bytesPerAttempt h).trans_le hfits
  have hlanes : max 1 a.lanes = a.lanes := max_eq_right a.one_le_lanes
  unfold perLaneBudget at hone ⊢
  rw [hlanes] at hone ⊢
  omega

/-- The bytes of all lanes are within the budget. -/
theorem bytes_le_budget {difficulty : Int} (h : 1 ≤ difficulty)
    (hbatch : 1 ≤ a.batchPerLane difficulty) :
    estimateBatchVramBytes (a.batchPerLane difficulty) difficulty * a.lanes ≤
      a.allowedMib.toNat * bytesPerMib := by
  have hestimate : estimateBatchVramBytes (a.batchPerLane difficulty) difficulty ≤
      a.perLaneBudget := by
    have hfloor : ⌊a.batchPerLane difficulty * bytesPerAttempt difficulty⌋ ≤ a.perLaneBudget := by
      exact_mod_cast (Int.floor_le _).trans (a.size_le_share h)
    unfold estimateBatchVramBytes
    rw [if_neg (by omega)]
    omega
  calc
    _ ≤ a.perLaneBudget * a.lanes := Nat.mul_le_mul_right _ hestimate
    _ = a.allowedMib.toNat * bytesPerMib / a.lanes * a.lanes := by rw [a.perLaneBudget_eq h hbatch]
    _ ≤ a.allowedMib.toNat * bytesPerMib := Nat.div_mul_le_self _ _

/-- The batches of all lanes, before any rounding, are within the budget. -/
theorem size_le_budget {difficulty : Int} (h : 1 ≤ difficulty)
    (hbatch : 1 ≤ a.batchPerLane difficulty) :
    (a.lanes * a.batchPerLane difficulty * bytesPerAttempt difficulty : Rat) ≤
      (a.allowedMib.toNat * bytesPerMib : Nat) := by
  have hshares : a.lanes * a.perLaneBudget ≤ a.allowedMib.toNat * bytesPerMib := by
    rw [a.perLaneBudget_eq h hbatch]
    exact Nat.mul_div_le _ _
  calc
    _ = (a.lanes : Rat) * (a.batchPerLane difficulty * bytesPerAttempt difficulty) :=
        mul_assoc _ _ _
    _ ≤ a.lanes * a.perLaneBudget :=
        mul_le_mul_of_nonneg_left (a.size_le_share h) (Nat.cast_nonneg _)
    _ ≤ (a.allowedMib.toNat * bytesPerMib : Nat) := by exact_mod_cast hshares

/-- Where nothing else limits it, the batch of a lane is the largest that fits its share. -/
theorem batchPerLane_isGreatest {difficulty : Int} (h : 1 ≤ difficulty)
    (hnone : a.explicitBatch ≤ 0 ∧ a.explicitMaxBatch ≤ 0) :
    IsGreatest {batch : Int | batch * bytesPerAttempt difficulty ≤ a.perLaneBudget}
      (a.batchPerLane difficulty) := by
  have hper : 0 < bytesPerAttempt difficulty := bytesPerAttempt_pos (by omega)
  refine ⟨a.size_le_share h, fun batch hfits ↦ ?_⟩
  rw [a.batchPerLane_eq h, a.limited_of_none hnone.1 hnone.2, Int.le_floor, le_div_iff₀ hper]
  exact hfits

/-- A budget that holds a batch is what both caps leave. -/
theorem allowedMib_bounds {difficulty : Int} (h : 1 ≤ difficulty)
    (hbatch : 1 ≤ a.batchPerLane difficulty) :
    0 < a.allowedMib ∧ a.allowedMib ≤ a.targetMib - a.runtimeOverheadMib ∧
      a.allowedMib ≤ a.totalMib - a.desktopHeadroomMib - a.runtimeOverheadMib := by
  have hfits := ((a.batchPerLane_pos_iff difficulty).mp hbatch).2
  have hone : 1 < a.perLaneBudget := by
    exact_mod_cast (one_lt_bytesPerAttempt h).trans_le hfits
  have hpos : 0 < a.allowedMib := by
    by_contra hnot
    have hzero : a.allowedMib.toNat = 0 := by omega
    unfold perLaneBudget at hone
    rw [hzero, Nat.zero_mul, Nat.zero_div] at hone
    omega
  refine ⟨hpos, ?_⟩
  unfold allowedMib at hpos ⊢
  dsimp only at hpos ⊢
  omega

/-- The argument of `clamp_plan_to_caps`. -/
def unclamped (difficulty : Int) : VramPlan :=
  let batchPerLane := a.batchPerLane difficulty
  let (bytes, mib, used, headroom) :=
    project a.totalMib a.lanes batchPerLane difficulty a.runtimeOverheadMib
  { batchSize := batchPerLane
    lanes := a.lanes
    batchPerLane
    laneReserve := max 0 a.laneReserve
    budgetBytes := a.allowedMib.toNat * bytesPerMib
    budgetMib := a.allowedMib
    batchVramBytes := bytes
    batchVramMib := mib
    usedBeforeMib := ((a.totalBytes - a.freeBytes) / bytesPerMib : Nat)
    projectedUsedMib := used
    projectedHeadroomMib := headroom
    runtimeOverheadMib := a.runtimeOverheadMib
    targetMib := a.targetMib
    effectiveTargetMib := a.targetMib
    desktopHeadroomMib := a.desktopHeadroomMib
    difficulty
    one_le_lanes := a.one_le_lanes }

theorem planCudaBatch_eq_clamp (difficulty : Int) :
    planCudaBatch a difficulty = clampPlanToCaps (a.unclamped difficulty) := rfl

/-- **The projection of a batch is within the caps.** -/
theorem unclamped_within {difficulty : Int} (h : 1 ≤ difficulty)
    (hbatch : 1 ≤ a.batchPerLane difficulty) :
    (a.unclamped difficulty).projectedUsedMib ≤ a.targetMib ∧
      a.desktopHeadroomMib ≤ (a.unclamped difficulty).projectedHeadroomMib := by
  obtain ⟨hpos, htarget, hheadroom⟩ := a.allowedMib_bounds h hbatch
  have hmib : estimateBatchVramBytes (a.batchPerLane difficulty) difficulty * a.lanes /
      bytesPerMib ≤ a.allowedMib.toNat := by
    have hdiv := Nat.div_le_div_right (c := bytesPerMib) (a.bytes_le_budget h hbatch)
    rwa [Nat.mul_div_cancel _ (by decide)] at hdiv
  unfold unclamped project
  dsimp only
  omega

/-- A plan with a batch is not clamped. -/
theorem planCudaBatch_eq_unclamped {difficulty : Int} (h : 1 ≤ difficulty)
    (hbatch : 1 ≤ a.batchPerLane difficulty) :
    clampPlanToCaps (a.unclamped difficulty) = a.unclamped difficulty := by
  obtain ⟨hused, hhead⟩ := a.unclamped_within h hbatch
  have hwithin : (a.unclamped difficulty).withinLimits = true := by
    rw [VramPlan.withinLimits, Bool.and_eq_true, decide_eq_true_eq, decide_eq_true_eq]
    exact ⟨hused, hhead⟩
  rw [clampPlanToCaps, if_pos hwithin]

/-- A batch that cannot be halved is not shrunk. -/
theorem shrinkToCaps_of_le_one (plan : VramPlan) (totalMib : Int) (rounds : Nat)
    (hbatch : plan.batchPerLane ≤ 1) :
    (shrinkToCaps plan totalMib rounds plan.batchPerLane).batchPerLane = plan.batchPerLane := by
  cases rounds with
  | zero => rfl
  | succ rounds =>
      unfold shrinkToCaps
      dsimp only
      split
      · rfl
      · rw [if_neg (not_lt.mpr hbatch)]

/-- **The batch of a plan is the batch of a lane**: the loop takes nothing away. -/
theorem planCudaBatch_batchPerLane {difficulty : Int} (h : 1 ≤ difficulty) :
    (planCudaBatch a difficulty).batchPerLane = a.batchPerLane difficulty := by
  rw [planCudaBatch_eq_clamp]
  by_cases hbatch : 1 ≤ a.batchPerLane difficulty
  · rw [a.planCudaBatch_eq_unclamped h hbatch]
    rfl
  · rw [clampPlanToCaps]
    split
    · rfl
    · have hsmall : (a.unclamped difficulty).batchPerLane ≤ 1 := by
        change a.batchPerLane difficulty ≤ 1
        omega
      exact shrinkToCaps_of_le_one _ _ _ hsmall

end PlanArgs

/-! ## Plans for a card -/

/-- The caps of a card are in order. -/
theorem resolveVramCaps_bounds (totalMib : Int) (args : VramCapArgs) :
    let caps := resolveVramCaps totalMib args
    1 ≤ caps.targetMib ∧ caps.targetMib ≤ caps.emergencyMib ∧ caps.emergencyMib ≤ caps.totalMib ∧
      0 ≤ caps.headroomMib ∧ 0 ≤ caps.runtimeOverheadMib ∧ caps.totalMib = max 1 totalMib := by
  unfold resolveVramCaps clampInt
  dsimp only
  omega

/-- What is planned with on a card whose caps have been resolved. -/
def cardArgs (totalBytes freeBytes : Nat) (args : VramCapArgs)
    (maxLanes laneReserve explicitBatch explicitMaxBatch : Int) : PlanArgs :=
  let caps := resolveVramCaps (totalBytes / bytesPerMib : Nat) args
  { totalBytes
    freeBytes
    targetMib := caps.targetMib
    desktopHeadroomMib := caps.headroomMib
    maxLanes
    laneReserve
    explicitBatch
    explicitMaxBatch
    runtimeOverheadMib := caps.runtimeOverheadMib }

/-- **The casts to `int` of a plan fit**: no batch, and no amount in MiB, of a card under a tebibyte
is near `2 ^ 31`. -/
theorem planCudaBatch_int (a : PlanArgs) {difficulty : Int} (h : 1 ≤ difficulty)
    (hcard : a.totalBytes < 2 ^ 40) (hoverhead : 0 ≤ a.runtimeOverheadMib)
    (hheadroom : 0 ≤ a.desktopHeadroomMib) :
    a.totalMib < 2 ^ 20 ∧ a.perLaneBudget < 2 ^ 40 ∧
      ⌊a.perLaneBudget / bytesPerAttempt difficulty⌋ < 2 ^ 31 := by
  have htotal : a.totalMib < 2 ^ 20 := by
    unfold PlanArgs.totalMib bytesPerMib
    omega
  have hallowed : a.allowedMib < 2 ^ 20 := by
    unfold PlanArgs.allowedMib
    dsimp only
    omega
  have hshare : a.perLaneBudget < 2 ^ 40 := by
    have hdiv : a.allowedMib.toNat * bytesPerMib / max 1 a.lanes ≤
        a.allowedMib.toNat * bytesPerMib := Nat.div_le_self _ _
    unfold PlanArgs.perLaneBudget bytesPerMib at *
    omega
  refine ⟨htotal, hshare, ?_⟩
  have hm : (1 : Rat) ≤ difficulty := by exact_mod_cast h
  have hper : (1024 : Rat) ≤ bytesPerAttempt difficulty := by
    unfold bytesPerAttempt bytesPerAttemptFactor
    linarith
  have hbytes : (a.perLaneBudget : Rat) < 2 ^ 40 := by exact_mod_cast hshare
  rw [Int.floor_lt, div_lt_iff₀ (by linarith)]
  push_cast
  linarith

end XNMiner
