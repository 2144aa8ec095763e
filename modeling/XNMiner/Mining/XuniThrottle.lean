import XNMiner.Lib.Throttle
import XNMiner.Mining.HitsLabelled

/-!
# The XUNI throttle

Inside the mine window `compute_allow_xuni_base` is a throttle on the queue of XUNI blocks: it
pauses at the soft cap until the queue is down to the resume level, and of the batches in between it
lets every N-th look for XUNI.  Nothing else in the engine touches the pause or the counter of
batches, so what the throttle answers over a run of the engine is the log of a throttle, whatever
the engine does between two batches.
-/

namespace XNMiner

open Lib

/-- `load_settings`, the limits on XUNI: what the ini file says, in range. -/
def Settings.loadXuni (s : Settings) (enabled : Bool) (softCap resume everyN maxLanes : Int) :
    Settings :=
  { s with
    xuniMiningEnabled := enabled
    xuniQueueSoftCap := softCap
    xuniQueueResume := if softCap < resume then max 0 (softCap.tdiv 2) else resume
    xuniEveryNBatches := if everyN < 1 then 1 else everyN
    xuniMaxLanes := if enabled = false then 0 else if maxLanes < 0 then 0 else maxLanes }

/-- Settings that have been loaded. -/
def Settings.XuniLoaded (s : Settings) : Prop :=
  ∃ base enabled softCap resume everyN maxLanes,
    s = Settings.loadXuni base enabled softCap resume everyN maxLanes

/-- Loaded settings that leave a lane to XUNI have it enabled. -/
theorem Settings.XuniLoaded.enabled {s : Settings} (h : s.XuniLoaded)
    (hlanes : 1 ≤ s.xuniMaxLanes) : s.xuniMiningEnabled = true := by
  obtain ⟨base, enabled, softCap, resume, everyN, maxLanes, rfl⟩ := h
  cases enabled with
  | true => rfl
  | false =>
      have hzero : (Settings.loadXuni base false softCap resume everyN maxLanes).xuniMaxLanes = 0 :=
        rfl
      omega

namespace CudaEngine

variable {s t : CudaEngine}

/-! ## The throttle -/

/-- The throttle that the settings describe. -/
def throttle (s : CudaEngine) : Throttle where
  cap := max 0 s.settings.xuniQueueSoftCap
  resume := max 0 s.settings.xuniQueueResume
  every := (max 1 s.settings.xuniEveryNBatches).toNat

/-- What the engine keeps of it. -/
def throttleState (s : CudaEngine) : Throttle.State where
  paused := s.xuniQueuePaused
  seq := s.batchSeq

/-- **In the window, outside the taper minute, `compute_allow_xuni_base` is a throttle.** -/
theorem computeAllowXuniBase_eq (henabled : s.settings.xuniMiningEnabled = true)
    (hlanes : 1 ≤ s.settings.xuniMaxLanes) {minute taperMinute : Nat}
    (hwindow : inXuniWindow minute = true) (htaper : inXuniTaperWindow taperMinute = false) :
    let out := s.computeAllowXuniBase minute taperMinute
    out.1 = (s.throttle.verdict s.throttleState s.pendingXuni).allowed ∧
      out.2.throttleState = s.throttle.next s.throttleState s.pendingXuni := by
  have hpauses : (if max 0 s.settings.xuniQueueSoftCap ≤ s.pendingXuni then true
      else if s.xuniQueuePaused = true ∧ s.pendingXuni ≤ max 0 s.settings.xuniQueueResume then false
      else s.xuniQueuePaused) = s.throttle.pauses s.throttleState s.pendingXuni := rfl
  have hevery : max 1 s.settings.xuniEveryNBatches = (s.throttle.every : Int) := by
    change _ = ((max 1 s.settings.xuniEveryNBatches).toNat : Int)
    omega
  unfold computeAllowXuniBase
  rw [if_neg (by simp [henabled]), if_neg (by simp [hwindow])]
  dsimp only
  rw [hpauses]
  unfold Throttle.verdict Throttle.next
  cases h : s.throttle.pauses s.throttleState s.pendingXuni with
  | true => exact ⟨rfl, rfl⟩
  | false =>
      rw [if_neg Bool.false_ne_true, if_neg (by omega), if_neg (by simp [htaper]), hevery]
      refine ⟨?_, rfl⟩
      dsimp only
      rw [Bool.not_false, Bool.true_and, decide_eq_decide]
      change ((s.batchSeq + 1 : Nat) : Int) % (s.throttle.every : Int) = 0 ↔
        (s.batchSeq + 1) % s.throttle.every = 0
      exact_mod_cast Iff.rfl

/-- Outside the window the pause is over. -/
theorem computeAllowXuniBase_outside (henabled : s.settings.xuniMiningEnabled = true)
    {minute : Nat} (hwindow : inXuniWindow minute = false) (taperMinute : Nat) :
    (s.computeAllowXuniBase minute taperMinute).1 = false ∧
      (s.computeAllowXuniBase minute taperMinute).2.xuniQueuePaused = false := by
  unfold computeAllowXuniBase
  rw [if_neg (by simp [henabled]), if_pos hwindow]
  exact ⟨rfl, rfl⟩

/-! ## What leaves the throttle alone -/

theorem throttleState_resume (s : CudaEngine) (next : AfterJoin) :
    (s.resume next).throttleState = s.throttleState := by
  cases next <;> rfl

theorem throttleState_joined (s : CudaEngine) (next : AfterJoin) :
    (s.joined next).throttleState = s.throttleState := by
  rcases s.joined_cases next with heq | ⟨-, -, heq⟩ <;> rw [heq]
  · exact throttleState_resume s.dismissed next
  · exact throttleState_resume s.dismissed.respawn next

theorem throttleState_ensureLaneWorkers (s : CudaEngine) (next : AfterJoin) :
    (s.ensureLaneWorkers next).throttleState = s.throttleState := by
  rcases s.ensureLaneWorkers_cases next with heq | heq <;> rw [heq]
  · exact throttleState_resume s next
  · rfl

theorem throttleState_ensureIfStarted (s : CudaEngine) :
    s.ensureIfStarted.throttleState = s.throttleState := by
  unfold ensureIfStarted
  split
  · exact throttleState_ensureLaneWorkers s .ready
  · rfl

theorem throttleState_replan (s : CudaEngine) (m : Int) (plan : CudaVramPlan) :
    (s.replan m plan).throttleState = s.throttleState := by
  unfold CudaEngine.replan
  dsimp only
  split <;> rfl

theorem throttleState_replan_ensure (s : CudaEngine) (m : Int) (plan : CudaVramPlan) :
    ((s.replan m plan).ensureLaneWorkers .ready).throttleState = s.throttleState :=
  (throttleState_ensureLaneWorkers _ _).trans (throttleState_replan s m plan)

theorem throttleState_stampAndCountHits (s : CudaEngine) (n : Nat) :
    (s.stampAndCountHits n).throttleState = s.throttleState := by
  unfold stampAndCountHits
  dsimp only
  split_ifs <;> rfl

theorem throttleState_selectPayoutSalt (s : CudaEngine) :
    s.selectPayoutSalt.throttleState = s.throttleState := by
  unfold selectPayoutSalt
  split_ifs <;> rfl

/-- No worker touches the throttle. -/
theorem WorkerMove.throttleState {i : Nat} {w : LaneWorker} {outcome : Outcome}
    (hm : WorkerMove s i w outcome t) : t.throttleState = s.throttleState := by
  cases hm <;> rfl

/-- Nor does the mining thread on its way through a call. -/
theorem MiningMove.throttleState {now : String} (hm : MiningMove s now t) :
    t.throttleState = s.throttleState := by
  cases hm with
  | joins next _ _ => exact throttleState_joined s next
  | finishes | drained => exact throttleState_stampAndCountHits _ _
  | reads | absorbs | throws | drains => rfl

theorem OneLaneMove.throttleState {proto : Proto} {now : String} {outcome : Outcome}
    (hm : OneLaneMove s proto now outcome t) : t.throttleState = s.throttleState := by
  cases hm with
  | returns => exact throttleState_stampAndCountHits _ _
  | lacks | throws => rfl

/-- Nor a call that changes only the plan. -/
theorem throttleState_control {a : Act} (ha : a.Control) :
    (s.call a).throttleState = s.throttleState := by
  cases a with
  | start configLanes plan =>
      simp only [CudaEngine.call, CudaEngine.start]
      split
      · rfl
      cases plan with
      | none => rfl
      | some plan =>
          let u : CudaEngine :=
            { s with configMaxLanes := max 1 configLanes, maxLanesCap := max 1 configLanes }
          have hplan : (u.replan s.difficulty plan).throttleState = s.throttleState :=
            throttleState_replan u _ plan
          exact (throttleState_ensureLaneWorkers
            { (u.replan s.difficulty plan).syncLanes with started := true } .ready).trans hplan
  | setDifficulty m plan =>
      simp only [CudaEngine.call, CudaEngine.setDifficulty]
      split
      · rfl
      split
      · cases plan with
        | none => rfl
        | some plan => exact throttleState_replan_ensure s m plan
      · rfl
  | restoreLaneCap plan =>
      simp only [CudaEngine.call]
      split
      · rfl
      split
      · cases plan with
        | none => rfl
        | some plan => exact throttleState_replan_ensure _ s.difficulty plan
      · rfl
  | reduceLaneCap => exact throttleState_ensureIfStarted _
  | addLaneCap =>
      simp only [CudaEngine.call, CudaEngine.addLaneCap]
      split
      · rfl
      · exact throttleState_ensureIfStarted _
  | setBatch | setQueueCounts => rfl
  | stop | mineBatch | drainPipeline | proceed | worker => exact ha.elim

/-! ## What the engine answers -/

/-- The clock is in the mine window, and not in its taper minute, when a batch asks. -/
def MinesInWindow (_ : CudaEngine) : Act → Prop
  | .mineBatch minutes _ _ =>
      inXuniWindow minutes.1 = true ∧ inXuniTaperWindow minutes.2.1 = false
  | _ => True

instance (s : CudaEngine) (a : Act) : Decidable (s.MinesInWindow a) :=
  match a with
  | .mineBatch minutes _ _ =>
      decidable_of_iff ((inXuniWindow minutes.1 && !inXuniTaperWindow minutes.2.1) = true)
        (by rw [Bool.and_eq_true, Bool.not_eq_true']; rfl)
  | .start .. | .stop | .setDifficulty .. | .restoreLaneCap _ | .reduceLaneCap | .addLaneCap
  | .setBatch _ | .setQueueCounts _ | .drainPipeline | .proceed _ | .worker .. => .isTrue trivial

instance : Decidable s.CanMine := inferInstanceAs (Decidable (¬ _))

/-- What a `mine_batch` that goes on to mine decides about XUNI. -/
def xuniVerdict (s : CudaEngine) : Act → List Throttle.Verdict
  | .mineBatch minutes _ _ =>
      if s.CanMine then
        [{ count := s.pendingXuni
           paused := (s.protoOf minutes).2.xuniQueuePaused
           allowed := (s.protoOf minutes).1.allowXuniBase }]
      else []
  | _ => []

/-- Everything that is decided about XUNI in a run. -/
def xuniLog (s : CudaEngine) : List Act → List Throttle.Verdict :=
  logOf CudaEngine.step CudaEngine.xuniVerdict s

/-- The throttle after a `mine_batch`. -/
theorem throttleState_mineBatch (s : CudaEngine) (minutes : Nat × Nat × Nat) (now : String)
    (outcome : Outcome) : (s.mineBatch minutes now outcome).throttleState =
      if s.CanMine then (s.computeAllowXuniBase minutes.1 minutes.2.1).2.throttleState
      else s.throttleState := by
  have hproto : (s.protoOf minutes).2.throttleState =
      (s.computeAllowXuniBase minutes.1 minutes.2.1).2.throttleState :=
    throttleState_selectPayoutSalt _
  unfold mineBatch
  by_cases hmine : s.CanMine
  · rw [if_pos hmine, if_neg hmine, ← hproto]
    dsimp only
    split
    · exact (mineOneLane_cases _ _ now outcome).throttleState
    · exact throttleState_ensureLaneWorkers _ _
  · rw [if_neg hmine, if_pos (not_not.mp hmine)]
    rfl

theorem throttle_step {a : Act} (hs : Step s a t) : t.throttle = s.throttle := by
  rw [throttle, throttle, settings_step hs]

/-- **Only a `mine_batch` that goes on to mine touches the throttle.** -/
theorem throttleState_step {a : Act} (hs : Step s a t) (hnone : s.xuniVerdict a = []) :
    t.throttleState = s.throttleState := by
  cases step_inv hs with
  | worker _ hm => exact hm.throttleState
  | proceed hm => exact hm.throttleState
  | call a hpc hout =>
      cases a with
      | mineBatch minutes now outcome =>
          have hmine : ¬s.CanMine := fun hmine ↦ by
            rw [xuniVerdict, if_pos hmine] at hnone
            cases hnone
          exact (throttleState_mineBatch s minutes now outcome).trans (if_neg hmine)
      | drainPipeline =>
          simp only [CudaEngine.call]
          split <;> rfl
      | stop => rfl
      | proceed | worker => exact absurd trivial hout
      | start | setDifficulty | restoreLaneCap | reduceLaneCap | addLaneCap | setBatch
        | setQueueCounts => exact throttleState_control trivial

/-- **In the window, a step that decides about XUNI is a step of the throttle.** -/
theorem xuniVerdict_step (henabled : s.settings.xuniMiningEnabled = true)
    (hlanes : 1 ≤ s.settings.xuniMaxLanes) {a : Act} (hs : Guarded Step MinesInWindow s a t) :
    (s.xuniVerdict a = [] ∧ t.throttleState = s.throttleState) ∨
      s.xuniVerdict a = [s.throttle.verdict s.throttleState s.pendingXuni] ∧
        t.throttleState = s.throttle.next s.throttleState s.pendingXuni := by
  by_cases hnone : s.xuniVerdict a = []
  · exact .inl ⟨hnone, throttleState_step hs.1 hnone⟩
  right
  obtain ⟨hs, hwindow⟩ := hs
  cases a with
  | mineBatch minutes now outcome =>
      have hmine : s.CanMine := by
        by_contra hmine
        exact hnone (if_neg hmine)
      obtain ⟨-, rfl⟩ := begin_inv id hs
      obtain ⟨hallowed, hnext⟩ := computeAllowXuniBase_eq henabled hlanes hwindow.1 hwindow.2
      have hpaused : (s.protoOf minutes).2.xuniQueuePaused =
          (s.throttle.next s.throttleState s.pendingXuni).paused := by
        rw [← hnext]
        exact congrArg Throttle.State.paused (throttleState_selectPayoutSalt _)
      refine ⟨?_, ?_⟩
      · rw [xuniVerdict, if_pos hmine, hpaused]
        exact congrArg (fun b ↦ [Throttle.Verdict.mk s.pendingXuni _ b]) hallowed
      · exact (throttleState_mineBatch s minutes now outcome).trans ((if_pos hmine).trans hnext)
  | start | stop | setDifficulty | restoreLaneCap | reduceLaneCap | addLaneCap | setBatch
    | setQueueCounts | drainPipeline | proceed | worker => exact absurd rfl hnone

/-- **In the window, what is decided about XUNI in a run is the log of a throttle.** -/
theorem xuniLog_eq (henabled : s.settings.xuniMiningEnabled = true)
    (hlanes : 1 ≤ s.settings.xuniMaxLanes) {as : List Act}
    (hrun : Run (Guarded Step MinesInWindow) s as t) :
    ∃ counts, s.xuniLog as = s.throttle.log s.throttleState counts := by
  induction hrun with
  | nil => exact ⟨[], rfl⟩
  | @cons s u t a as hs hrun ih =>
      have hsettings := settings_step hs.1
      obtain ⟨counts, hrest⟩ := ih (hsettings ▸ henabled) (hsettings ▸ hlanes)
      have hlog : s.xuniLog (a :: as) = s.xuniVerdict a ++ u.xuniLog as :=
        logOf_cons _ hs.1 as
      rw [hlog, hrest, throttle_step hs.1]
      rcases xuniVerdict_step henabled hlanes hs with ⟨hnone, hstate⟩ | ⟨hone, hstate⟩
      · refine ⟨counts, ?_⟩
        rw [hnone, hstate]
        rfl
      · refine ⟨s.pendingXuni :: counts, ?_⟩
        rw [hone, hstate]
        rfl

/-- Outside the window a `mine_batch` ends the pause. -/
theorem xuniQueuePaused_mineBatch (henabled : s.settings.xuniMiningEnabled = true)
    (hmine : s.CanMine) {minutes : Nat × Nat × Nat} (hwindow : inXuniWindow minutes.1 = false)
    (now : String) (outcome : Outcome) :
    (s.mineBatch minutes now outcome).xuniQueuePaused = false := by
  have hstate := (throttleState_mineBatch s minutes now outcome).trans (if_pos hmine)
  have hpaused := congrArg Throttle.State.paused hstate
  exact hpaused.trans (computeAllowXuniBase_outside henabled hwindow minutes.2.1).2

/-! ## The law of the throttle -/

/-- A miner that looks for XUNI in every second batch. -/
def xuniSettings : Settings := Settings.loadXuni minerSettings true 8 3 2 1

/-- A batch in the third minute of the window, with `n` blocks in the queue. -/
def batchWith (n : Int) : List Act :=
  [.setQueueCounts n, .mineBatch (2, 2, 2) "" (.hashed [] 0)]

/-- Some batches around a pause: the queue fills up, and is down to the resume level in the
fourth batch. -/
def aroundPause : List Act :=
  .start 1 (some oneLane) ::
    (batchWith 0 ++ batchWith 8 ++ batchWith 5 ++ batchWith 3 ++ batchWith 4)

end CudaEngine

end XNMiner
