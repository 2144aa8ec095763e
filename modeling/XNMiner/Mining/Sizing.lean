import XNMiner.Efficiency.ThermalPolicy
import XNMiner.Efficiency.VramPolicy
import XNMiner.Mining.EngineFrames
import XNMiner.Mining.VramBatch

/-!
# A change of difficulty

`set_difficulty` sizes the batch anew.  `replan` throws when the share of a lane does not hold a
single attempt; the supervisor logs that and goes on mining.  The plan, the lanes and the batch are
assigned after the check and stay as they were, but the difficulty has been assigned by then, twice.
So the engine hashes at the new difficulty with the batch of the old one, and since the difficulty
is the new one, a second call returns at once.

`SizedEngine` is the engine with what it sizes batches by; its calls are those of `CudaEngine` with
the plan worked out (`setDifficulty_engine`).
-/

namespace XNMiner

/-- The engine, and what it sizes batches by. -/
structure SizedEngine where
  engine : CudaEngine
  vramPlan : Option VramPlan := none
  vramCaps : Option VramCaps := none
  totalVramBytes : Nat
  workPatches : Int := 2
  hashPatch : Int := 0
  thermalBatchScale : Rat := 1
  thermalHunt : ThermalHuntState := {}
  thermalIdleMs : Int := 0
  -- settings
  capArgs : VramCapArgs := {}
  cudaLaneReserve : Int := 1
  cudaBatchSize : Int := 0
  cudaMaxBatchSize : Int := 0
  workPatchesSetting : Int := 2
  /-- The engine knows the lanes of the plan. -/
  planLanes : engine.planLanes = vramPlan.map VramPlan.lanes

namespace SizedEngine

/-! ## The two functions -/

/-- Another state of the engine, under the same plan. -/
def withEngine (s : SizedEngine) (e : CudaEngine) (h : e.planLanes = s.engine.planLanes) :
    SizedEngine :=
  { s with engine := e, planLanes := h.trans s.planLanes }

/-- `vram_caps_`, which `replan` resolves when nobody has. -/
def caps (s : SizedEngine) : VramCaps :=
  s.vramCaps.getD (resolveVramCaps (s.totalVramBytes / bytesPerMib : Nat) s.capArgs)

/-- What `replan` plans with, when `freeBytes` are free on the card. -/
def planArgs (s : SizedEngine) (freeBytes : Nat) : PlanArgs where
  totalBytes := s.totalVramBytes
  freeBytes
  targetMib := s.caps.targetMib
  desktopHeadroomMib := s.caps.headroomMib
  maxLanes := s.engine.maxLanesCap
  laneReserve := s.cudaLaneReserve
  explicitBatch := s.cudaBatchSize
  explicitMaxBatch := s.cudaMaxBatchSize
  runtimeOverheadMib := s.caps.runtimeOverheadMib

/-- What a plan means for the engine: its batch is scaled down by the thermal control. -/
def cudaPlan (s : SizedEngine) (plan : VramPlan) : CudaVramPlan where
  lanes := plan.lanes
  plannedBatchPerLane := plan.batchPerLane
  batchPerLane := applyBatchScale plan.batchPerLane s.thermalBatchScale
  one_le_lanes := plan.one_le_lanes

theorem planLanes_replan (e : CudaEngine) (m : Int) (plan : CudaVramPlan) :
    (e.replan m plan).planLanes = some plan.lanes := by
  unfold CudaEngine.replan
  dsimp only
  split <;> rfl

theorem planLanes_ensureLaneWorkers (e : CudaEngine) :
    (e.ensureLaneWorkers .ready).planLanes = e.planLanes := by
  unfold CudaEngine.ensureLaneWorkers
  split_ifs <;> rfl

/-- `difficulty_ = difficulty`. -/
def assign (s : SizedEngine) (m : Int) : SizedEngine :=
  s.withEngine { s.engine with difficulty := m } rfl

/-- The caps have been resolved. -/
def resolved (s : SizedEngine) : SizedEngine := { s with vramCaps := some s.caps }

/-- The assignments at the end of `replan`. -/
def adopt (s : SizedEngine) (m : Int) (plan : VramPlan) : SizedEngine :=
  { s with
    engine := s.engine.replan m (s.cudaPlan plan)
    vramPlan := some plan
    workPatches := max 2 (min 3 s.workPatchesSetting)
    hashPatch := 0
    thermalHunt := {}
    thermalIdleMs := 0
    planLanes := planLanes_replan _ _ _ }

/-- The text of the exception. -/
def replanError (m : Int) : String := "Could not size CUDA batch for difficulty " ++ toString m

/-- `replan`: the text of the exception, if it throws, and the state it leaves behind. -/
def replan (s : SizedEngine) (m : Int) (freeBytes : Nat) : Option String × SizedEngine :=
  let s := (s.assign m).resolved
  let plan := planCudaBatch (s.planArgs freeBytes) m
  if plan.batchPerLane ≤ 0 then (some (replanError m), s) else (none, s.adopt m plan)

def ensureLaneWorkers (s : SizedEngine) : SizedEngine :=
  s.withEngine (s.engine.ensureLaneWorkers .ready) (planLanes_ensureLaneWorkers _)

def setDifficulty (s : SizedEngine) (m : Int) (freeBytes : Nat) : Option String × SizedEngine :=
  if m = s.engine.difficulty ∧ s.engine.started = true then (none, s)
  else
    let s := s.assign m
    if s.engine.started then
      match s.replan m freeBytes with
      | (some what, s) => (some what, s)
      | (none, s) => (none, s.ensureLaneWorkers)
    else (none, s)

/-! ## The engine under it -/

/-- The memory that a lane may use. -/
def perLaneBudget (s : SizedEngine) : Nat := (s.planArgs 0).perLaneBudget

/-- The plan that `set_difficulty` looks at. -/
def planFor (s : SizedEngine) (m : Int) (freeBytes : Nat) : VramPlan :=
  planCudaBatch (s.planArgs freeBytes) m

/-- **A batch can be sized exactly when the share of a lane holds an attempt**, whatever is free. -/
theorem planFor_pos_iff (s : SizedEngine) (m : Int) (freeBytes : Nat) :
    0 < (s.planFor m freeBytes).batchPerLane ↔
      0 < m ∧ bytesPerAttempt m ≤ s.perLaneBudget :=
  planCudaBatch_pos_iff (s.planArgs freeBytes) m

/-- What the engine is given: a plan, or `none` where no batch can be sized. -/
def planOf (s : SizedEngine) (m : Int) (freeBytes : Nat) : Option CudaVramPlan :=
  if (s.planFor m freeBytes).batchPerLane ≤ 0 then none
  else some (s.cudaPlan (s.planFor m freeBytes))

/-- What `replan` is left with when it throws. -/
def failed (s : SizedEngine) (m : Int) : SizedEngine := ((s.assign m).assign m).resolved

variable {s : SizedEngine} {m : Int} {freeBytes : Nat}

/-- A call that changes nothing. -/
theorem setDifficulty_same (h : m = s.engine.difficulty ∧ s.engine.started = true) :
    s.setDifficulty m freeBytes = (none, s) := if_pos h

/-- A call before the engine has started. -/
theorem setDifficulty_stopped (h : ¬s.engine.started = true) :
    s.setDifficulty m freeBytes = (none, s.assign m) := by
  unfold setDifficulty
  rw [if_neg fun hs ↦ h hs.2]
  exact if_neg h

/-- **A call that cannot size a batch throws, and leaves the new difficulty behind.** -/
theorem setDifficulty_throws (h : s.engine.started = true) (hne : m ≠ s.engine.difficulty)
    (hplan : (s.planFor m freeBytes).batchPerLane ≤ 0) :
    s.setDifficulty m freeBytes = (some (replanError m), s.failed m) := by
  have hreplan : (s.assign m).replan m freeBytes = (some (replanError m), s.failed m) :=
    if_pos hplan
  unfold setDifficulty
  rw [if_neg fun hs ↦ hne hs.1]
  change (if s.engine.started = true then _ else _) = _
  rw [if_pos h, hreplan]

/-- A call that sizes a batch adopts it. -/
theorem setDifficulty_plans (h : s.engine.started = true) (hne : m ≠ s.engine.difficulty)
    (hplan : ¬(s.planFor m freeBytes).batchPerLane ≤ 0) :
    s.setDifficulty m freeBytes =
      (none, ((s.failed m).adopt m (s.planFor m freeBytes)).ensureLaneWorkers) := by
  have hreplan : (s.assign m).replan m freeBytes =
      (none, (s.failed m).adopt m (s.planFor m freeBytes)) := if_neg hplan
  unfold setDifficulty
  rw [if_neg fun hs ↦ hne hs.1]
  change (if s.engine.started = true then _ else _) = _
  rw [if_pos h, hreplan]

/-- **The engine goes by the plan that is worked out.** -/
theorem setDifficulty_engine (s : SizedEngine) (m : Int) (freeBytes : Nat) :
    (s.setDifficulty m freeBytes).2.engine = s.engine.setDifficulty m (s.planOf m freeBytes) := by
  unfold CudaEngine.setDifficulty
  by_cases hstarted : s.engine.started = true
  · by_cases hsame : m = s.engine.difficulty
    · rw [setDifficulty_same ⟨hsame, hstarted⟩, if_pos ⟨hsame, hstarted⟩]
    · rw [if_neg fun hs ↦ hsame hs.1, if_pos hstarted]
      unfold planOf
      by_cases hplan : (s.planFor m freeBytes).batchPerLane ≤ 0
      · rw [setDifficulty_throws hstarted hsame hplan, if_pos hplan]
        rfl
      · rw [setDifficulty_plans hstarted hsame hplan, if_neg hplan]
        rfl
  · rw [setDifficulty_stopped hstarted, if_neg fun hs ↦ hstarted hs.2, if_neg hstarted]
    rfl

/-! ## Atomicity -/

/-- What a change of difficulty sizes is the same. -/
structure SameSizing (s t : SizedEngine) : Prop where
  difficulty : t.engine.difficulty = s.engine.difficulty
  lanes : t.engine.lanes = s.engine.lanes
  batchPerLane : t.engine.batchPerLane = s.engine.batchPerLane
  plannedBatchPerLane : t.engine.plannedBatchPerLane = s.engine.plannedBatchPerLane
  vramPlan : t.vramPlan = s.vramPlan

/-- The batch was planned for the difficulty the engine hashes at. -/
def PlanFits (s : SizedEngine) : Prop :=
  ∀ plan, s.vramPlan = some plan → plan.difficulty = s.engine.difficulty

/-- A call with this difficulty gets as far as `replan`. -/
def Tries (s : SizedEngine) (m : Int) : Prop :=
  s.engine.started = true ∧ m ≠ s.engine.difficulty

/-- A call that throws leaves the sizing as it was, keeps a plan that fits, and can be repeated. -/
structure Atomic (s : SizedEngine) (m : Int) (freeBytes : Nat) : Prop where
  same : ∀ what, (s.setDifficulty m freeBytes).1 = some what →
    SameSizing s (s.setDifficulty m freeBytes).2
  fits : ∀ what, (s.setDifficulty m freeBytes).1 = some what →
    PlanFits s → PlanFits (s.setDifficulty m freeBytes).2
  again : ∀ what, (s.setDifficulty m freeBytes).1 = some what →
    Tries (s.setDifficulty m freeBytes).2 m

/-- After a call that throws the requests have the new difficulty and the old batch. -/
theorem failed_request (s : SizedEngine) (m : Int) (proto : Proto) {i : Nat}
    (hi : i < s.engine.lanes) :
    (((s.failed m).engine.publish proto).mailboxes i).difficulty = toUint32 m ∧
      (((s.failed m).engine.publish proto).mailboxes i).batchSize =
        s.engine.batchPerLane.toNat := by
  have hask (box : LaneMailbox) (difficulty batchSize : Nat) :
      (box.ask proto difficulty batchSize).difficulty = difficulty ∧
        (box.ask proto difficulty batchSize).batchSize = batchSize := by
    unfold LaneMailbox.ask
    split
    · exact ⟨rfl, rfl⟩
    · next h =>
      unfold LaneMailbox.Changed at h
      simp only [not_or, not_not] at h
      exact ⟨h.2.1, h.2.2.1⟩
  have hbox : ((s.failed m).engine.publish proto).mailboxes i =
      (s.engine.mailboxes i).ask proto (toUint32 m) s.engine.batchPerLane.toNat := if_pos hi
  rw [hbox]
  exact hask _ _ _

/-- **A change of difficulty is atomic exactly when it does not throw**: the engine has not
started, the difficulty is not changed, or the share of a lane holds an attempt. -/
theorem atomic_iff (s : SizedEngine) (m : Int) (freeBytes : Nat) : Atomic s m freeBytes ↔
    s.engine.started = false ∨ m = s.engine.difficulty ∨
      (0 < m ∧ bytesPerAttempt m ≤ s.perLaneBudget) := by
  have hquiet (h : (s.setDifficulty m freeBytes).1 = none) : Atomic s m freeBytes := by
    constructor <;>
    · intro what hwhat
      rw [h] at hwhat
      cases hwhat
  rw [← planFor_pos_iff s m freeBytes]
  by_cases hstarted : s.engine.started = true
  · by_cases hsame : m = s.engine.difficulty
    · exact iff_of_true (hquiet (by rw [setDifficulty_same ⟨hsame, hstarted⟩])) (.inr (.inl hsame))
    · by_cases hplan : (s.planFor m freeBytes).batchPerLane ≤ 0
      · refine iff_of_false ?_ ?_
        · intro hatomic
          have hthrows := setDifficulty_throws hstarted hsame hplan
          have hbad := (hatomic.same _ (by rw [hthrows])).difficulty
          rw [hthrows] at hbad
          exact hsame hbad
        · rintro (h | h | h)
          · exact absurd hstarted (by simp [h])
          · exact hsame h
          · exact absurd h (not_lt.mpr hplan)
      · exact iff_of_true (hquiet (by rw [setDifficulty_plans hstarted hsame hplan]))
          (.inr (.inr (not_le.mp hplan)))
  · exact iff_of_true (hquiet (by rw [setDifficulty_stopped hstarted]))
      (.inl (by simpa using hstarted))

/-- A card of 8 GiB with two lanes. -/
def smallCard : SizedEngine where
  engine := CudaEngine.create Settings.defaults 2
  totalVramBytes := 8 * 1024 * 1024 * 1024
  planLanes := rfl

/-- The same card when it mines at the difficulty of its settings. -/
def miningCard : SizedEngine :=
  let s := smallCard.adopt 1100 (smallCard.planFor 1100 0)
  s.withEngine { s.engine.syncLanes with started := true } rfl

/-- The network asks for more than a lane of the card holds. -/
theorem not_atomic_miningCard :
    ¬∀ (s : SizedEngine) (m : Int) (freeBytes : Nat), Atomic s m freeBytes := by
  intro hall
  have hatomic := hall miningCard 5000000 0
  have hplan : (miningCard.planFor 5000000 0).batchPerLane ≤ 0 := by
    rw [← not_lt, planFor_pos_iff]
    decide +kernel
  have hthrows := setDifficulty_throws (s := miningCard) rfl (by decide) hplan
  have hbad := (hatomic.same _ (by rw [hthrows])).difficulty
  rw [hthrows] at hbad
  exact absurd hbad (by decide)

end SizedEngine

end XNMiner
