import XNMiner.Mining.EngineMoves

/-!
# Lanes and their workers

An engine that is not started has no lanes.  Outside of `stop_lane_workers` there is either no
worker, or one for each lane and more than one lane: `ensure_lane_workers` sees to that whenever
the number of lanes has changed.
-/

namespace XNMiner

open Lib

namespace CudaEngine

variable {s t : CudaEngine} {i : Nat}

/-- The lanes have the workers that they should have. -/
structure Staffed (s : CudaEngine) : Prop where
  lanes : s.started = false → s.lanesImpl = []
  workers : (∀ next, s.pc ≠ .joining next) →
    s.workers = [] ∨ s.started = true ∧ s.workers.length = s.lanes ∧ 1 < s.lanes
  joining : ∀ next, s.pc = .joining next →
    s.workersStop = true ∧ (next = .stopped ∨ s.started = true)

theorem staffed_create (settings : Settings) (maxLanes : Nat) :
    Staffed (create settings maxLanes) :=
  ⟨fun _ ↦ rfl, fun _ ↦ .inl rfl, by simp [create]⟩

namespace Staffed

/-- Neither the lanes nor the number of workers changes. -/
theorem of_same (h : Staffed s) (hstarted : t.started = s.started)
    (hlanesImpl : t.lanesImpl.length = s.lanesImpl.length) (hlanes : t.lanes = s.lanes)
    (hworkers : t.workers.length = s.workers.length) (hstop : t.workersStop = s.workersStop)
    (hpc : ∀ next, t.pc = .joining next ↔ s.pc = .joining next) : Staffed t where
  lanes := fun hst ↦ by
    have hnil := h.lanes (hstarted ▸ hst)
    exact List.eq_nil_of_length_eq_zero (by rw [hlanesImpl, hnil]; rfl)
  workers := fun hne ↦ by
    rcases h.workers fun next hs ↦ hne next ((hpc next).mpr hs) with hnil | hsome
    · exact .inl (List.eq_nil_of_length_eq_zero (by rw [hworkers, hnil]; rfl))
    · exact .inr (by rwa [hstarted, hworkers, hlanes])
  joining := fun next hj ↦ by
    rw [hstop, hstarted]
    exact h.joining next ((hpc next).mp hj)

theorem sameWork (h : Staffed s) (hst : SameWork s t) : Staffed t :=
  h.of_same hst.started (by rw [hst.lanesImpl]) hst.lanes (by rw [hst.workers]) hst.workersStop
    fun next ↦ by rw [hst.pc]

/-- The engine is idle before and after, and nothing that matters has changed. -/
theorem of_idle (h : Staffed s) (hpc : s.pc = .idle) (hpc' : t.pc = .idle)
    (hstarted : t.started = s.started) (hlanesImpl : t.lanesImpl = s.lanesImpl)
    (hworkers : t.workers = s.workers) (hlanes : s.started = true → t.lanes = s.lanes) :
    Staffed t where
  lanes := fun hst ↦ hlanesImpl ▸ h.lanes (hstarted ▸ hst)
  workers := fun _ ↦ by
    rcases h.workers (by simp [hpc]) with hnil | ⟨hst, hlen, hlt⟩
    · exact .inl (hworkers ▸ hnil)
    · exact .inr ⟨hstarted ▸ hst, by rw [hworkers, hlanes hst, hlen], by rwa [hlanes hst]⟩
  joining := fun next hj ↦ by simp [hpc'] at hj

/-- The right workers are there, and the thread goes on. -/
theorem resume (hstarted : s.started = true)
    (hworkers : s.workers = [] ∨ s.workers.length = s.lanes ∧ 1 < s.lanes) {next : AfterJoin}
    (hnext : next ≠ .stopped) : Staffed (s.resume next) := by
  cases next with
  | ready =>
      exact ⟨fun hst ↦ absurd (hstarted.symm.trans hst) (by simp),
        fun _ ↦ hworkers.imp_right fun hlen ↦ ⟨hstarted, hlen⟩, by simp [CudaEngine.resume]⟩
  | mine proto =>
      exact ⟨fun hst ↦ absurd (hstarted.symm.trans hst) (by simp),
        fun _ ↦ hworkers.imp_right fun hlen ↦ ⟨hstarted, hlen⟩,
        by simp [CudaEngine.resume, publish]⟩
  | stopped => exact absurd rfl hnext

/-- `ensure_lane_workers` does what it says, whatever the workers were. -/
theorem ensureLaneWorkers (hstarted : s.started = true) {next : AfterJoin}
    (hnext : next ≠ .stopped) : Staffed (s.ensureLaneWorkers next) := by
  have hjoin : Staffed (s.stopLaneWorkers next) := by
    refine ⟨fun hst ↦ absurd (hstarted.symm.trans hst) (by simp), fun hne ↦ absurd rfl (hne next),
      fun next' hj ↦ ⟨rfl, .inr hstarted⟩⟩
  unfold CudaEngine.ensureLaneWorkers
  split_ifs with hone hnone hall
  · exact resume hstarted (.inl (List.isEmpty_iff.mp hnone)) hnext
  · exact hjoin
  · exact resume hstarted (.inr ⟨hall.1, by omega⟩) hnext
  · exact hjoin

theorem ensureIfStarted (h : Staffed s) : Staffed s.ensureIfStarted := by
  unfold CudaEngine.ensureIfStarted
  split
  · next hstarted => exact ensureLaneWorkers hstarted (by simp)
  · exact h

theorem joined (h : Staffed s) {next : AfterJoin} (hpc : s.pc = .joining next) :
    Staffed (s.joined next) := by
  obtain ⟨-, hwhy⟩ := h.joining next hpc
  rcases s.joined_cases next with heq | ⟨hnext, hmany, heq⟩ <;> rw [heq]
  · by_cases hnext : next = .stopped
    · subst hnext
      exact ⟨fun _ ↦ rfl, fun _ ↦ .inl rfl, by simp [CudaEngine.resume]⟩
    · exact resume (s := s.dismissed) (hwhy.resolve_left hnext) (.inl rfl) hnext
  · exact resume (s := s.dismissed.respawn) (hwhy.resolve_left hnext)
      (.inr ⟨List.length_replicate, hmany⟩) hnext

theorem replan_started (m : Int) (plan : CudaVramPlan) :
    (s.replan m plan).started = s.started := by
  unfold replan
  dsimp only
  split <;> rfl

theorem returnResult (h : Staffed s) (hne : ∀ next, s.pc ≠ .joining next)
    (out : MineBatchResult) : Staffed (s.returnResult out) :=
  h.of_same rfl rfl rfl rfl rfl fun next ↦ by simp [CudaEngine.returnResult, hne]

/-- The wave of the only lane changes neither the number of lanes nor the workers. -/
theorem oneLaneMove (h : Staffed s) (hpc : s.pc = .idle) {proto : Proto} {now : String}
    {outcome : Outcome} (hm : OneLaneMove s proto now outcome t) : Staffed t := by
  cases hm with
  | lacks _ => exact h
  | throws b b' rest origin result err what hlanes _ _ _ =>
      exact h.of_same rfl (by simp [hashedOneLane, abandon, hlanes]) rfl rfl rfl
        (by simp [abandon, hpc])
  | returns b b' rest origin result err hps totalHs out hlanes _ _ _ _ =>
      obtain ⟨u, hsame, out', heq, -⟩ := finishMine_flow _ _ totalHs
      rw [heq]
      refine h.of_same hsame.started ?_ hsame.lanes ?_ hsame.workersStop
        (by simp [CudaEngine.returnResult, hpc])
      · change u.lanesImpl.length = _
        rw [hsame.lanesImpl]
        simp [hashedOneLane, hlanes]
      · change u.workers.length = _
        rw [hsame.workers]
        rfl

theorem mineBatch (h : Staffed s) (hpc : s.pc = .idle) (minutes : Nat × Nat × Nat) (now : String)
    (outcome : Outcome) : Staffed (s.mineBatch minutes now outcome) := by
  have hproto := s.sameWork_protoOf minutes
  rcases s.mineBatch_cases minutes now outcome with heq | ⟨-, -, heq⟩ | ⟨hmine, -, heq⟩ <;>
    rw [heq]
  · exact h.returnResult (by simp [hpc]) {}
  · exact (h.sameWork hproto).oneLaneMove (hproto.pc.trans hpc) (mineOneLane_cases ..)
  · have hstarted : s.started = true := by
      cases hst : s.started with
      | true => rfl
      | false => exact absurd (.inl hst) hmine
    exact ensureLaneWorkers (hproto.started.trans hstarted) (by simp)

/-- **A call leaves the lanes with their workers.** -/
theorem call (h : Staffed s) (hpc : s.pc = .idle) (a : Act) : Staffed (s.call a) := by
  have hnone : ∀ next, s.pc ≠ .joining next := by simp [hpc]
  cases a with
  | start configLanes plan =>
      simp only [CudaEngine.call, CudaEngine.start]
      split
      · exact h
      cases plan with
      | none => exact h.of_idle hpc hpc rfl rfl rfl fun _ ↦ rfl
      | some plan => exact ensureLaneWorkers rfl (by simp)
  | stop =>
      exact ⟨h.lanes, fun hne ↦ absurd rfl (hne .stopped), fun next hj ↦ ⟨rfl, by
        obtain rfl := MiningPc.joining.inj hj
        exact .inl rfl⟩⟩
  | setDifficulty m plan =>
      simp only [CudaEngine.call, CudaEngine.setDifficulty]
      split
      · exact h
      split
      · next hstarted =>
          cases plan with
          | none => exact h.of_idle hpc hpc rfl rfl rfl fun _ ↦ rfl
          | some plan =>
              refine ensureLaneWorkers ((replan_started m plan).trans hstarted) ?_
              simp
      · exact h.of_idle hpc hpc rfl rfl rfl fun _ ↦ rfl
  | restoreLaneCap plan =>
      simp only [CudaEngine.call]
      split
      · exact h
      split
      · next hstarted =>
          cases plan with
          | none => exact h.of_idle hpc hpc rfl rfl rfl fun _ ↦ rfl
          | some plan =>
              refine ensureLaneWorkers ?_ ?_
              · exact (replan_started _ plan).trans hstarted
              · simp
      · exact h.of_idle hpc hpc rfl rfl rfl fun _ ↦ rfl
  | reduceLaneCap =>
      simp only [CudaEngine.call, CudaEngine.reduceLaneCap]
      by_cases hstarted : s.started = true
      · simp only [CudaEngine.ensureIfStarted, hstarted, if_true]
        exact ensureLaneWorkers rfl (by simp)
      · refine ensureIfStarted (h.of_idle hpc hpc rfl rfl rfl fun hst ↦ absurd hst hstarted)
  | addLaneCap =>
      simp only [CudaEngine.call, CudaEngine.addLaneCap]
      split
      · exact h
      by_cases hstarted : s.started = true
      · simp only [CudaEngine.ensureIfStarted, hstarted, if_true]
        exact ensureLaneWorkers rfl (by simp)
      · refine ensureIfStarted (h.of_idle hpc hpc rfl rfl rfl fun hst ↦ absurd hst hstarted)
  | setBatch batch => exact h.of_idle hpc hpc rfl rfl rfl fun _ ↦ rfl
  | setQueueCounts pendingXuni => exact h.of_idle hpc hpc rfl rfl rfl fun _ ↦ rfl
  | mineBatch minutes now outcome => exact h.mineBatch hpc minutes now outcome
  | drainPipeline =>
      simp only [CudaEngine.call]
      split
      · exact h.returnResult hnone {}
      · exact h.of_same rfl rfl rfl rfl rfl (by simp [hpc])
  | proceed now => exact h
  | worker lane outcome => exact h

/-- Inside a call as well. -/
theorem workerMove (h : Staffed s) {w : LaneWorker} {outcome : Outcome}
    (hm : WorkerMove s i w outcome t) : Staffed t := by
  have hlen (u : CudaEngine) (w' : LaneWorker) :
      (u.setWorker i w').workers.length = u.workers.length := List.length_set
  cases hm with
  | hashes req b b' origin result err _ _ _ _ =>
      exact h.of_same rfl List.length_set rfl (hlen _ _) rfl fun _ ↦ Iff.rfl
  | ends | skips | takes | leaves | enters | lacks | publishes =>
      exact h.of_same rfl rfl rfl (hlen _ _) rfl fun _ ↦ Iff.rfl

theorem miningMove (h : Staffed s) {now : String} (hm : MiningMove s now t) : Staffed t := by
  cases hm with
  | joins next hpc _ => exact h.joined hpc
  | reads hpc _ => exact h.of_same rfl rfl rfl rfl rfl (by simp [hpc])
  | absorbs lane out totalHs hps out' totalHs' hpc _ _ _ =>
      exact h.of_same rfl rfl rfl rfl rfl (by simp [hpc])
  | throws lane out totalHs what hpc _ _ =>
      exact h.of_same rfl rfl rfl rfl rfl (by simp [hpc, abandon])
  | finishes lane out totalHs hpc _ =>
      obtain ⟨u, hsame, out', heq, -⟩ := s.finishMine_flow out totalHs
      rw [heq]
      exact (h.sameWork hsame).returnResult (by simp [hsame.pc, hpc]) out'
  | drains lane out backend attempts out' hpc _ _ =>
      exact h.of_same rfl List.length_set rfl rfl rfl (by simp [hpc, emptyLane])
  | drained lane out hpc _ =>
      obtain ⟨u, hsame, out', heq, -⟩ := s.finishDrain_flow out
      rw [heq]
      exact (h.sameWork hsame).returnResult (by simp [hsame.pc, hpc]) out'

/-- **The lanes keep their workers**, over a step. -/
theorem step (h : Staffed s) {a : Act} (hs : Step s a t) : Staffed t := by
  cases step_inv hs with
  | worker _ hm => exact h.workerMove hm
  | proceed hm => exact h.miningMove hm
  | call a hpc _ => exact h.call hpc a

/-- **The lanes have their workers in every state that can be reached.** -/
theorem run {as : List Act} {settings : Settings} {maxLanes : Nat}
    (hr : Run Step (create settings maxLanes) as s) : Staffed s :=
  hr.preserves (fun _ _ _ h hs ↦ h.step hs) (staffed_create settings maxLanes)

end Staffed

end CudaEngine

end XNMiner
