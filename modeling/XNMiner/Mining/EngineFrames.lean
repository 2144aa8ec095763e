import XNMiner.Mining.EngineSteps

/-!
# What the calls leave alone

Most of what the mining thread does changes neither the lanes nor the workers nor their
mailboxes.  `SameWork` is what the choice of blocks and payouts keeps, `SameFlow` what remains
when also the difficulty and the number of lanes may change.  The calls that deal with the
workers come to a few things each (`ensureLaneWorkers_cases`, `joined_cases`,
`mineBatch_cases`).  `ControlRule` packages the calls that only change the plan: an invariant
that survives the three things they do survives each of them.
-/

namespace XNMiner

open Lib

namespace CudaEngine

variable {s t u : CudaEngine}

/-- What is hashed, on its way, and returned is the same. -/
structure SameFlow (s t : CudaEngine) : Prop where
  settings : t.settings = s.settings
  lanesImpl : t.lanesImpl = s.lanesImpl
  workers : t.workers = s.workers
  workersStop : t.workersStop = s.workersStop
  mailboxes : t.mailboxes = s.mailboxes
  pc : t.pc = s.pc
  waves : t.waves = s.waves
  hashed : t.hashed = s.hashed
  returned : t.returned = s.returned
  asked : t.asked = s.asked
  drained : t.drained = s.drained

/-- The two states differ only in what chooses blocks and payouts. -/
structure SameWork (s t : CudaEngine) : Prop extends SameFlow s t where
  started : t.started = s.started
  difficulty : t.difficulty = s.difficulty
  lanes : t.lanes = s.lanes
  batchPerLane : t.batchPerLane = s.batchPerLane

theorem SameFlow.refl (s : CudaEngine) : SameFlow s s := by constructor <;> rfl

theorem SameWork.refl (s : CudaEngine) : SameWork s s := by
  constructor
  · exact .refl s
  all_goals rfl

theorem SameFlow.trans (h : SameFlow s t) (h' : SameFlow t u) : SameFlow s u where
  settings := h'.settings.trans h.settings
  lanesImpl := h'.lanesImpl.trans h.lanesImpl
  workers := h'.workers.trans h.workers
  workersStop := h'.workersStop.trans h.workersStop
  mailboxes := h'.mailboxes.trans h.mailboxes
  pc := h'.pc.trans h.pc
  waves := h'.waves.trans h.waves
  hashed := h'.hashed.trans h.hashed
  returned := h'.returned.trans h.returned
  asked := h'.asked.trans h.asked
  drained := h'.drained.trans h.drained

theorem SameWork.trans (h : SameWork s t) (h' : SameWork t u) : SameWork s u where
  toSameFlow := h.toSameFlow.trans h'.toSameFlow
  started := h'.started.trans h.started
  difficulty := h'.difficulty.trans h.difficulty
  lanes := h'.lanes.trans h.lanes
  batchPerLane := h'.batchPerLane.trans h.batchPerLane

/-! ## The choice of blocks and payouts -/

theorem sameWork_computeAllowXuniBase (s : CudaEngine) (minute taperMinute : Nat) :
    SameWork s (s.computeAllowXuniBase minute taperMinute).2 := by
  unfold computeAllowXuniBase
  dsimp only
  split_ifs <;> exact ⟨by constructor <;> rfl, rfl, rfl, rfl, rfl⟩

theorem sameWork_selectPayoutSalt (s : CudaEngine) : SameWork s s.selectPayoutSalt := by
  unfold selectPayoutSalt
  split_ifs <;> exact ⟨by constructor <;> rfl, rfl, rfl, rfl, rfl⟩

theorem sameWork_stampAndCountHits (s : CudaEngine) (n : Nat) :
    SameWork s (s.stampAndCountHits n) := by
  unfold stampAndCountHits
  dsimp only
  split_ifs <;> exact ⟨by constructor <;> rfl, rfl, rfl, rfl, rfl⟩

theorem sameWork_protoOf (s : CudaEngine) (minutes : Nat × Nat × Nat) :
    SameWork s (s.protoOf minutes).2 := by
  have hxuni := s.sameWork_computeAllowXuniBase minutes.1 minutes.2.1
  have hlast : SameWork (s.computeAllowXuniBase minutes.1 minutes.2.1).2
      { (s.computeAllowXuniBase minutes.1 minutes.2.1).2 with
        lastAllowXuni := (s.computeAllowXuniBase minutes.1 minutes.2.1).1 } :=
    ⟨by constructor <;> rfl, rfl, rfl, rfl, rfl⟩
  exact (hxuni.trans hlast).trans (sameWork_selectPayoutSalt _)

/-- The end of `mine_batch`: the call returns, and the rest is as before. -/
theorem finishMine_flow (s : CudaEngine) (out : MineBatchResult) (totalHs : Rat) :
    ∃ t, SameWork s t ∧ ∃ out', s.finishMine out totalHs = t.returnResult out' ∧
      out'.hits.Perm
        (out.hits.map fun f : Found ↦ { f with hit := { f.hit with hps := totalHs } }) := by
  have hrate : SameWork s { s with lastHashrate := totalHs } :=
    ⟨by constructor <;> rfl, rfl, rfl, rfl, rfl⟩
  exact ⟨_, hrate.trans (sameWork_stampAndCountHits _ _), _, rfl, List.perm_insertionSort _ _⟩

/-- The end of `drain_pipeline`, likewise. -/
theorem finishDrain_flow (s : CudaEngine) (out : MineBatchResult) :
    ∃ t, SameWork s t ∧ ∃ out', s.finishDrain out = t.returnResult out' ∧ out'.hits = out.hits :=
  ⟨_, sameWork_stampAndCountHits _ _, _, rfl, rfl⟩

/-! ## What the calls come to -/

/-- The engine when its workers have returned. -/
def dismissed (s : CudaEngine) : CudaEngine :=
  { s with workers := [], workerTargetLanes := 0, workersStop := false }

/-- `ensure_lane_workers` goes on at once, or stops the workers first. -/
theorem ensureLaneWorkers_cases (s : CudaEngine) (next : AfterJoin) :
    s.ensureLaneWorkers next = s.resume next ∨
      s.ensureLaneWorkers next = s.stopLaneWorkers next := by
  unfold ensureLaneWorkers
  split_ifs
  · exact .inl rfl
  · exact .inr rfl
  · exact .inl rfl
  · exact .inr rfl

/-- After the joins the thread goes on without workers, or with new ones. -/
theorem joined_cases (s : CudaEngine) (next : AfterJoin) :
    s.joined next = s.dismissed.resume next ∨
      next ≠ .stopped ∧ 1 < s.lanes ∧ s.joined next = s.dismissed.respawn.resume next := by
  by_cases hone : s.lanes ≤ 1
  · left
    cases next with
    | stopped => rfl
    | ready | mine => exact if_pos hone
  · cases next with
    | stopped => exact .inl rfl
    | ready | mine => exact .inr ⟨by simp, Nat.lt_of_not_le hone, if_neg hone⟩

/-- The call of `mine_batch` goes on to mine. -/
def CanMine (s : CudaEngine) : Prop :=
  ¬ (s.started = false ∨ s.batchPerLane ≤ 0 ∨ s.lanesImpl = [])

/-- `mine_batch` returns at once, hashes the wave of the only lane, or goes on to the workers. -/
theorem mineBatch_cases (s : CudaEngine) (minutes : Nat × Nat × Nat) (now : String)
    (outcome : Outcome) :
    s.mineBatch minutes now outcome = s.returnResult {} ∨
      s.CanMine ∧ s.lanes = 1 ∧ s.mineBatch minutes now outcome =
        (s.protoOf minutes).2.mineOneLane (s.protoOf minutes).1 now outcome ∨
      s.CanMine ∧ s.lanes ≠ 1 ∧ s.mineBatch minutes now outcome =
        (s.protoOf minutes).2.ensureLaneWorkers (.mine (s.protoOf minutes).1) := by
  have hlanes : (s.protoOf minutes).2.lanes = s.lanes := (s.sameWork_protoOf minutes).lanes
  by_cases hmine : s.started = false ∨ s.batchPerLane ≤ 0 ∨ s.lanesImpl = []
  · exact .inl (if_pos hmine)
  refine .inr ?_
  unfold mineBatch
  rw [if_neg hmine]
  dsimp only
  by_cases hone : s.lanes = 1
  · exact .inl ⟨hmine, hone, if_pos (hlanes.trans hone)⟩
  · exact .inr ⟨hmine, hone, if_neg (hlanes ▸ hone)⟩

/-! ## Calls that change the plan -/

/-- A call that changes only the plan. -/
def Act.Control : Act → Prop
  | .start .. | .setDifficulty .. | .restoreLaneCap _ | .reduceLaneCap | .addLaneCap
  | .setBatch _ | .setQueueCounts _ => True
  | .stop | .mineBatch .. | .drainPipeline | .proceed _ | .worker .. => False

/-- What survives the things that such a call does to an idle engine. -/
structure ControlRule (I : CudaEngine → Prop) : Prop where
  flow {s t : CudaEngine} : s.pc = .idle → SameFlow s t → I s → I t
  sync {s : CudaEngine} : s.pc = .idle → I s → I s.syncLanes
  join {s : CudaEngine} : s.pc = .idle → I s → I (s.stopLaneWorkers .ready)

variable {I : CudaEngine → Prop}

theorem ControlRule.ensureLaneWorkers (rule : ControlRule I) (hpc : s.pc = .idle) (h : I s) :
    I (s.ensureLaneWorkers .ready) := by
  have hready : I (s.resume .ready) :=
    rule.flow hpc ⟨rfl, rfl, rfl, rfl, rfl, hpc.symm, rfl, rfl, rfl, rfl, rfl⟩ h
  rcases s.ensureLaneWorkers_cases .ready with heq | heq <;> rw [heq]
  · exact hready
  · exact rule.join hpc h

theorem ControlRule.ensureIfStarted (rule : ControlRule I) (hpc : s.pc = .idle) (h : I s) :
    I s.ensureIfStarted := by
  unfold CudaEngine.ensureIfStarted
  split
  · exact rule.ensureLaneWorkers hpc h
  · exact h

/-- A new plan, which leaves the engine idle. -/
theorem ControlRule.replan (rule : ControlRule I) (hpc : s.pc = .idle) (h : I s) (m : Int)
    (plan : CudaVramPlan) : I (s.replan m plan) ∧ (s.replan m plan).pc = .idle := by
  let u : CudaEngine := { s with
    difficulty := m
    planLanes := some plan.lanes
    lanes := plan.lanes
    plannedBatchPerLane := plan.plannedBatchPerLane
    batchPerLane := plan.batchPerLane }
  have hplan : I u := rule.flow hpc (by constructor <;> rfl) h
  unfold CudaEngine.replan
  dsimp only
  split
  · exact ⟨rule.sync hpc hplan, hpc⟩
  · exact ⟨hplan, hpc⟩

/-- **What survives the three things survives every call that changes only the plan.** -/
theorem ControlRule.call (rule : ControlRule I) (hpc : s.pc = .idle) (h : I s) {a : Act}
    (ha : a.Control) : I (s.call a) := by
  cases a with
  | start configLanes plan =>
      simp only [CudaEngine.call, CudaEngine.start]
      split
      · exact h
      let u : CudaEngine :=
        { s with configMaxLanes := max 1 configLanes, maxLanesCap := max 1 configLanes }
      have hcap : I u := rule.flow hpc (by constructor <;> rfl) h
      cases plan with
      | none => exact hcap
      | some plan =>
          obtain ⟨hplan, hidle⟩ := rule.replan (s := u) hpc hcap s.difficulty plan
          have hsync : I (u.replan s.difficulty plan).syncLanes := rule.sync hidle hplan
          refine rule.ensureLaneWorkers hidle ?_
          refine rule.flow (s := (u.replan s.difficulty plan).syncLanes) hidle ?_ hsync
          constructor <;> rfl
  | setDifficulty m plan =>
      simp only [CudaEngine.call, CudaEngine.setDifficulty]
      split
      · exact h
      split
      · cases plan with
        | none => exact rule.flow hpc (by constructor <;> rfl) h
        | some plan =>
            obtain ⟨hplan, hidle⟩ := rule.replan hpc h m plan
            exact rule.ensureLaneWorkers hidle hplan
      · exact rule.flow hpc (by constructor <;> rfl) h
  | restoreLaneCap plan =>
      simp only [CudaEngine.call]
      split
      · exact h
      let u : CudaEngine := { s with maxLanesCap := s.configMaxLanes }
      have hcap : I u := rule.flow hpc (by constructor <;> rfl) h
      split
      · cases plan with
        | none => exact hcap
        | some plan =>
            obtain ⟨hplan, hidle⟩ := rule.replan (s := u) hpc hcap s.difficulty plan
            exact rule.ensureLaneWorkers hidle hplan
      · exact hcap
  | reduceLaneCap =>
      refine rule.ensureIfStarted hpc ?_
      exact rule.flow hpc (by constructor <;> rfl) h
  | addLaneCap =>
      simp only [CudaEngine.call, CudaEngine.addLaneCap]
      split
      · exact h
      · refine rule.ensureIfStarted hpc ?_
        exact rule.flow hpc (by constructor <;> rfl) h
  | setBatch batch => exact rule.flow hpc (by constructor <;> rfl) h
  | setQueueCounts pendingXuni => exact rule.flow hpc (by constructor <;> rfl) h
  | stop | mineBatch _ _ _ | drainPipeline | proceed _ | worker _ _ => exact ha.elim

end CudaEngine

end XNMiner
