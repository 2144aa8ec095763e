import XNMiner.Lib.Lts
import Mathlib.Logic.Basic

/-!
# How the engine is taken down

The loop of `run` from the engine's side: when it mines, drains and stops, and on which flags that
depends.  `running_` and `shutting_down_` are shared with `handle_signal`, which may set them
between any two instructions of the mining thread.

`CudaEngine` holds back a wave per lane, so a stop should come after `drain_pipeline`, and after
its hits have been passed to `handle_batch_hits`.  `graceful_shutdown` and the parking for a
match window do that.  The emergency of `gpu_safety_tick` does not, and `finalize_session` relies
on a `graceful_shutdown` that does nothing when `shutting_down_` is already set
(`stops_undrained`).  `stops_drained_iff` says that this is all.

What the loop does on the queue and the network is left out; `App/Program.lean` has it.
-/

namespace XNMiner

open Lib

/-- What has become of the waves since the engine was started. -/
inductive Unread
  /-- There is nothing to lose. -/
  | nothing
  /-- `mine_batch` was called, and `drain_pipeline` was not called after it. -/
  | batch
  /-- `drain_pipeline` has returned; its hits have not been passed on. -/
  | drained
  /-- `drain_pipeline` has thrown. -/
  | drainThrew
deriving DecidableEq

/-- How a call of the engine ends. -/
inductive EngineReply
  | returns
  | throws
  /-- It throws a CUDA error 700. -/
  | cudaFault
deriving DecidableEq

/-- Where the mining thread is in `graceful_shutdown`. -/
inductive GracefulPc
  /-- `if (shutting_down_) return` -/
  | test
  /-- `shutting_down_ = true` -/
  | mark
  /-- `running_ = false` -/
  | halt
  /-- `if (engine_->is_running())`, `drain_pipeline` -/
  | drain
  /-- `handle_batch_hits(drained)` -/
  | handle
  /-- `engine_->stop()` -/
  | stop
deriving DecidableEq

/-- Where the mining thread is in `run`. -/
inductive RunPc
  /-- `while (running_)` -/
  | loop
  /-- `now_s() >= end_at` -/
  | endAt
  /-- `t < cooldown_until_` -/
  | cooldown
  /-- `gpu_safety_tick` -/
  | safety
  /-- `should_park_cuda()` -/
  | park
  | parkDrain
  | parkHandle
  | parkStop
  /-- `if (!engine_->is_running()) engine_->start()` -/
  | start
  /-- `mine_batch` -/
  | mine
  /-- `handle_batch_hits(batch)` -/
  | handle
  /-- The handler of a CUDA error 700, which stops the engine. -/
  | fault
  /-- In `graceful_shutdown`, called after the loop or from inside it. -/
  | graceful (pc : GracefulPc) (afterLoop : Bool)
  /-- `if (!shutting_down_) graceful_shutdown("Stop requested")` -/
  | exit
  /-- `finalize_session` -/
  | finalize
  /-- `engine_->stop()` in `finalize_session` -/
  | finalizeStop
  | done
deriving DecidableEq

/-- Where `handle_signal` is. -/
inductive HandlerPc
  | idle
  /-- `request_stop` has returned. -/
  | requested
  /-- `persist_queue_for_restart` has set `shutting_down_`. -/
  | marked
deriving DecidableEq

/-- The mining thread, the engine and the flags. -/
structure Teardown where
  pc : RunPc := .loop
  handler : HandlerPc := .idle
  running : Bool := true
  shuttingDown : Bool := false
  finalized : Bool := false
  /-- `engine_->is_running()` -/
  engineRunning : Bool := true
  unread : Unread := .nothing
  /-- The engine was stopped before it was drained, without a CUDA error. -/
  undrained : Bool := false

/-- What happens: the mining thread takes its next step, with what it learns, or another flag is
set. -/
inductive TeardownAct
  /-- A step of the mining thread that learns nothing. -/
  | next
  | timeUp (up : Bool)
  /-- Whether the GPU is cooling, and whether the engine was restarted. -/
  | cooldown (cooling restarted : Bool)
  | vram (emergency : Bool)
  | park (park : Bool)
  | start (ok : Bool)
  | mine (outcome : EngineReply)
  | drain (outcome : EngineReply)
  /-- `handle_batch_hits` returns, or throws. -/
  | handled (ok : Bool)
  /-- `request_stop`, by whoever. -/
  | requestStop
  /-- The next step of `handle_signal`. -/
  | handler

namespace Teardown

/-- Stopping the engine now loses waves. -/
def Dirty (s : Teardown) : Prop :=
  s.engineRunning = true ∧ (s.unread = .batch ∨ s.unread = .drained)

instance (s : Teardown) : Decidable s.Dirty := inferInstanceAs (Decidable (_ ∧ _))

/-- `engine_->stop()` -/
def stopEngine (s : Teardown) : Teardown :=
  { s with
    engineRunning := false
    unread := .nothing
    undrained := s.undrained || decide s.Dirty }

/-- `graceful_shutdown` returns. -/
def returnTo : Bool → RunPc
  | true => .finalize
  | false => .exit

/-- The next step of `graceful_shutdown`. -/
def gracefulStep (s : Teardown) (afterLoop : Bool) : GracefulPc → TeardownAct → Option Teardown
  | .test, .next => some { s with
      pc := if s.shuttingDown then returnTo afterLoop else .graceful .mark afterLoop }
  | .mark, .next => some { s with shuttingDown := true, pc := .graceful .halt afterLoop }
  | .halt, .next => some { s with running := false, pc := .graceful .drain afterLoop }
  | .drain, .next =>
      if s.engineRunning then none else some { s with pc := .graceful .stop afterLoop }
  | .drain, .drain outcome =>
      if s.engineRunning then
        match outcome with
        | .returns => some { s with unread := .drained, pc := .graceful .handle afterLoop }
        | _ => some { s with unread := .drainThrew, pc := returnTo afterLoop }
      else none
  | .handle, .handled ok => some { s with
      unread := .nothing
      pc := if ok then .graceful .stop afterLoop else returnTo afterLoop }
  | .stop, .next => some { s.stopEngine with pc := returnTo afterLoop }
  | _, _ => none

/-- The next step of the mining thread. -/
def runStep (s : Teardown) : RunPc → TeardownAct → Option Teardown
  | .loop, .next => some { s with pc := if s.running then .endAt else .exit }
  | .endAt, .timeUp up => some { s with pc := if up then .graceful .test false else .cooldown }
  | .cooldown, .cooldown cooling restarted =>
      if cooling then some { s with
        pc := .loop
        engineRunning := s.engineRunning || restarted }
      else some { s with pc := .safety }
  | .safety, .vram emergency =>
      if emergency then some { s.stopEngine with pc := .loop } else some { s with pc := .park }
  | .park, .park park => some { s with
      pc := if park then (if s.engineRunning then .parkDrain else .loop) else .start }
  | .parkDrain, .drain outcome =>
      match outcome with
      | .returns => some { s with unread := .drained, pc := .parkHandle }
      | .throws => some { s with unread := .drainThrew, pc := .loop }
      | .cudaFault => some { s with unread := .drainThrew, pc := .fault }
  | .parkHandle, .handled ok => some { s with
      unread := .nothing
      pc := if ok then .parkStop else .loop }
  | .parkStop, .next => some { s.stopEngine with pc := .loop }
  | .start, .next => if s.engineRunning then some { s with pc := .mine } else none
  | .start, .start ok =>
      if s.engineRunning then none
      else some { s with engineRunning := ok, pc := if ok then .mine else .loop }
  | .mine, .mine outcome =>
      match outcome with
      | .returns => some { s with unread := .batch, pc := .handle }
      | .throws => some { s with unread := .batch, pc := .loop }
      | .cudaFault => some { s with unread := .batch, pc := .fault }
  | .handle, .handled _ => some { s with pc := .loop }
  | .fault, .next => some { s with engineRunning := false, unread := .nothing, pc := .loop }
  | .graceful pc afterLoop, act => s.gracefulStep afterLoop pc act
  | .exit, .next => some { s with
      pc := if s.shuttingDown then .finalize else .graceful .test true }
  | .finalize, .next =>
      if s.finalized then some { s with pc := .done }
      else some { s with
        finalized := true
        running := false
        shuttingDown := true
        pc := .finalizeStop }
  | .finalizeStop, .next => some { s.stopEngine with pc := .done }
  | _, _ => none

/-- The next step of `handle_signal`; after the flags it only bags the queue. -/
def handlerStep (s : Teardown) : Teardown :=
  match s.handler with
  | .idle => { s with running := false, handler := .requested }
  | .requested => { s with shuttingDown := true, handler := .marked }
  | .marked => { s with running := false, handler := .idle }

/-- One step, if it is possible. -/
def step (s : Teardown) : TeardownAct → Option Teardown
  | .requestStop => some { s with running := false }
  | .handler => some s.handlerStep
  | act => s.runStep s.pc act

/-- The steps of the system. -/
def Step (s : Teardown) (act : TeardownAct) (t : Teardown) : Prop := s.step act = some t

/-- The loop begins; the flags may be set already. -/
structure Starts (s : Teardown) : Prop where
  pc : s.pc = .loop
  finalized : s.finalized = false
  unread : s.unread = .nothing
  undrained : s.undrained = false

/-- Here the mining thread tests `shutting_down_`, at the end of `run` or in
`graceful_shutdown`. -/
def testsFlag : RunPc → Bool
  | .exit | .graceful .test _ => true
  | _ => false

/-- The mining thread does not find `shutting_down_` set, and no VRAM emergency comes, while a stop
would lose waves. -/
def Undisturbed (s : Teardown) : TeardownAct → Prop
  | .vram true => ¬ s.Dirty
  | .next => testsFlag s.pc = true → s.shuttingDown = true → ¬ s.Dirty
  | _ => True

instance (s : Teardown) : ∀ act, Decidable (s.Undisturbed act)
  | .vram true => inferInstanceAs (Decidable (¬ s.Dirty))
  | .next => inferInstanceAs (Decidable (_ → _ → _))
  | .vram false | .timeUp _ | .cooldown _ _ | .park _ | .start _ | .mine _ | .drain _
  | .handled _ | .requestStop | .handler => .isTrue trivial

/-! ## What holds between the steps -/

/-- Here the engine is stopped, now or before long. -/
def Stops : RunPc → Prop
  | .parkStop | .graceful .stop _ | .finalize | .finalizeStop => True
  | _ => False

/-- `finalize_session` has set `finalized_`. -/
def Finalized : RunPc → Prop
  | .finalizeStop | .done => True
  | _ => False

/-- No waves are lost, and none will be where the engine is stopped. -/
structure Orderly (s : Teardown) : Prop where
  undrained : s.undrained = false
  clean : Stops s.pc → ¬ s.Dirty
  finalized : ¬ Finalized s.pc → s.finalized = false

variable {s t : Teardown} {act : TeardownAct}

theorem Orderly.of_starts (h : Starts s) : Orderly s where
  undrained := h.undrained
  clean hpc := by simp [h.pc, Stops] at hpc
  finalized _ := h.finalized

/-- A stop that loses nothing is not counted. -/
theorem stopEngine_undrained (h : ¬ s.Dirty) : s.stopEngine.undrained = s.undrained := by
  simp [stopEngine, h]

theorem not_dirty_stopEngine : ¬ s.stopEngine.Dirty := by
  rintro ⟨hrunning, -⟩
  cases hrunning

theorem not_dirty_of_stopped (h : s.engineRunning = false) : ¬ s.Dirty := by
  rintro ⟨hrunning, -⟩
  rw [h] at hrunning
  cases hrunning

theorem not_dirty_of_unread (h : s.unread = .nothing ∨ s.unread = .drainThrew) : ¬ s.Dirty := by
  rintro ⟨-, hunread⟩
  rcases h with h | h <;> simp [h] at hunread

/-- Going on, with the flags and the engine changed. -/
theorem Orderly.goto (h : Orderly s) (hnot : ¬ Finalized s.pc)
    (hundrained : t.undrained = s.undrained) (hfinalized : t.finalized = s.finalized)
    (hclean : Stops t.pc → ¬ t.Dirty) : Orderly t where
  undrained := hundrained.trans h.undrained
  clean := hclean
  finalized _ := hfinalized.trans (h.finalized hnot)

/-- A stop where nothing is lost. -/
theorem Orderly.stopEngine (h : Orderly s) (hnot : ¬ Finalized s.pc) (hclean : ¬ s.Dirty)
    (pc : RunPc) : Orderly { s.stopEngine with pc } :=
  h.goto hnot (stopEngine_undrained hclean) rfl fun _ ↦ not_dirty_stopEngine (s := s)

/-- **`graceful_shutdown` keeps the order.** -/
theorem Orderly.gracefulStep {pc : GracefulPc} {afterLoop : Bool} (h : Orderly s)
    (hpc : s.pc = .graceful pc afterLoop) (hguard : Undisturbed s act)
    (hs : s.gracefulStep afterLoop pc act = some t) : Orderly t := by
  have hnot : ¬ Finalized s.pc := by simp [hpc, Finalized]
  cases pc with
  | test =>
      cases act with
      | next =>
          obtain rfl := Option.some.inj hs
          refine h.goto hnot rfl rfl fun hstops ↦ ?_
          cases hflag : s.shuttingDown with
          | true => exact hguard (by rw [hpc]; rfl) hflag
          | false => simp [hflag, Stops] at hstops
      | _ => exact absurd (show none = some t from hs) nofun
  | mark =>
      cases act with
      | next =>
          obtain rfl := Option.some.inj hs
          exact h.goto hnot rfl rfl False.elim
      | _ => exact absurd (show none = some t from hs) nofun
  | halt =>
      cases act with
      | next =>
          obtain rfl := Option.some.inj hs
          exact h.goto hnot rfl rfl False.elim
      | _ => exact absurd (show none = some t from hs) nofun
  | drain =>
      cases act with
      | next =>
          change (if s.engineRunning then none else some _) = some t at hs
          split at hs
          · cases hs
          · next hoff =>
            obtain rfl := Option.some.inj hs
            exact h.goto hnot rfl rfl fun _ ↦
              not_dirty_of_stopped (Bool.eq_false_iff.mpr hoff)
      | drain outcome =>
          change (if s.engineRunning then _ else none) = some t at hs
          split at hs
          · cases outcome with
            | returns =>
                obtain rfl := Option.some.inj hs
                exact h.goto hnot rfl rfl False.elim
            | throws =>
                obtain rfl := Option.some.inj hs
                exact h.goto hnot rfl rfl fun _ ↦ not_dirty_of_unread (.inr rfl)
            | cudaFault =>
                obtain rfl := Option.some.inj hs
                exact h.goto hnot rfl rfl fun _ ↦ not_dirty_of_unread (.inr rfl)
          · cases hs
      | _ => exact absurd (show none = some t from hs) nofun
  | handle =>
      cases act with
      | handled ok =>
          obtain rfl := Option.some.inj hs
          exact h.goto hnot rfl rfl fun _ ↦ not_dirty_of_unread (.inl rfl)
      | _ => exact absurd (show none = some t from hs) nofun
  | stop =>
      cases act with
      | next =>
          obtain rfl := Option.some.inj hs
          exact h.stopEngine hnot (h.clean (by simp [hpc, Stops])) _
      | _ => exact absurd (show none = some t from hs) nofun

/-- **So does the rest of the loop.** -/
theorem Orderly.runStep (h : Orderly s) (hguard : Undisturbed s act)
    (hs : s.runStep s.pc act = some t) : Orderly t := by
  cases hpc : s.pc with
  | loop =>
      rw [hpc] at hs
      cases act with
      | next =>
          obtain rfl := Option.some.inj hs
          refine h.goto (by simp [hpc, Finalized]) rfl rfl fun hstops ↦ ?_
          cases hrunning : s.running <;> simp [hrunning, Stops] at hstops
      | _ => exact absurd (show none = some t from hs) nofun
  | endAt =>
      rw [hpc] at hs
      cases act with
      | timeUp up =>
          obtain rfl := Option.some.inj hs
          refine h.goto (by simp [hpc, Finalized]) rfl rfl fun hstops ↦ ?_
          cases up <;> simp [Stops] at hstops
      | _ => exact absurd (show none = some t from hs) nofun
  | cooldown =>
      rw [hpc] at hs
      cases act with
      | cooldown cooling restarted =>
          cases cooling with
          | true =>
              obtain rfl := Option.some.inj hs
              exact h.goto (by simp [hpc, Finalized]) rfl rfl False.elim
          | false =>
              obtain rfl := Option.some.inj hs
              exact h.goto (by simp [hpc, Finalized]) rfl rfl False.elim
      | _ => exact absurd (show none = some t from hs) nofun
  | safety =>
      rw [hpc] at hs
      cases act with
      | vram emergency =>
          cases emergency with
          | true =>
              obtain rfl := Option.some.inj hs
              exact h.stopEngine (by simp [hpc, Finalized]) hguard _
          | false =>
              obtain rfl := Option.some.inj hs
              exact h.goto (by simp [hpc, Finalized]) rfl rfl False.elim
      | _ => exact absurd (show none = some t from hs) nofun
  | park =>
      rw [hpc] at hs
      cases act with
      | park park =>
          obtain rfl := Option.some.inj hs
          refine h.goto (by simp [hpc, Finalized]) rfl rfl fun hstops ↦ ?_
          cases park <;> cases hrunning : s.engineRunning <;> simp [hrunning, Stops] at hstops
      | _ => exact absurd (show none = some t from hs) nofun
  | parkDrain =>
      rw [hpc] at hs
      cases act with
      | drain outcome =>
          cases outcome with
          | returns =>
              obtain rfl := Option.some.inj hs
              exact h.goto (by simp [hpc, Finalized]) rfl rfl False.elim
          | throws =>
              obtain rfl := Option.some.inj hs
              exact h.goto (by simp [hpc, Finalized]) rfl rfl False.elim
          | cudaFault =>
              obtain rfl := Option.some.inj hs
              exact h.goto (by simp [hpc, Finalized]) rfl rfl False.elim
      | _ => exact absurd (show none = some t from hs) nofun
  | parkHandle =>
      rw [hpc] at hs
      cases act with
      | handled ok =>
          obtain rfl := Option.some.inj hs
          exact h.goto (by simp [hpc, Finalized]) rfl rfl fun _ ↦ not_dirty_of_unread (.inl rfl)
      | _ => exact absurd (show none = some t from hs) nofun
  | parkStop =>
      rw [hpc] at hs
      cases act with
      | next =>
          obtain rfl := Option.some.inj hs
          exact h.stopEngine (by simp [hpc, Finalized]) (h.clean (by simp [hpc, Stops])) _
      | _ => exact absurd (show none = some t from hs) nofun
  | start =>
      rw [hpc] at hs
      cases act with
      | next =>
          change (if s.engineRunning then some _ else none) = some t at hs
          split at hs
          · obtain rfl := Option.some.inj hs
            exact h.goto (by simp [hpc, Finalized]) rfl rfl False.elim
          · cases hs
      | start ok =>
          change (if s.engineRunning then none else some _) = some t at hs
          split at hs
          · cases hs
          · obtain rfl := Option.some.inj hs
            refine h.goto (by simp [hpc, Finalized]) rfl rfl fun hstops ↦ ?_
            cases ok <;> simp [Stops] at hstops
      | _ => exact absurd (show none = some t from hs) nofun
  | mine =>
      rw [hpc] at hs
      cases act with
      | mine outcome =>
          cases outcome with
          | returns =>
              obtain rfl := Option.some.inj hs
              exact h.goto (by simp [hpc, Finalized]) rfl rfl False.elim
          | throws =>
              obtain rfl := Option.some.inj hs
              exact h.goto (by simp [hpc, Finalized]) rfl rfl False.elim
          | cudaFault =>
              obtain rfl := Option.some.inj hs
              exact h.goto (by simp [hpc, Finalized]) rfl rfl False.elim
      | _ => exact absurd (show none = some t from hs) nofun
  | handle =>
      rw [hpc] at hs
      cases act with
      | handled ok =>
          obtain rfl := Option.some.inj hs
          exact h.goto (by simp [hpc, Finalized]) rfl rfl False.elim
      | _ => exact absurd (show none = some t from hs) nofun
  | fault =>
      rw [hpc] at hs
      cases act with
      | next =>
          obtain rfl := Option.some.inj hs
          exact h.goto (by simp [hpc, Finalized]) rfl rfl False.elim
      | _ => exact absurd (show none = some t from hs) nofun
  | graceful pc afterLoop =>
      rw [hpc] at hs
      exact h.gracefulStep hpc hguard hs
  | exit =>
      rw [hpc] at hs
      cases act with
      | next =>
          obtain rfl := Option.some.inj hs
          refine h.goto (by simp [hpc, Finalized]) rfl rfl fun hstops ↦ ?_
          cases hflag : s.shuttingDown with
          | true => exact hguard (by rw [hpc]; rfl) hflag
          | false => simp [hflag, Stops] at hstops
      | _ => exact absurd (show none = some t from hs) nofun
  | finalize =>
      rw [hpc] at hs
      cases act with
      | next =>
          have hfinalized : s.finalized = false := h.finalized (by simp [hpc, Finalized])
          have hclean : ¬ s.Dirty := h.clean (by simp [hpc, Stops])
          change (if s.finalized then some _ else some _) = some t at hs
          rw [hfinalized] at hs
          obtain rfl := Option.some.inj hs
          exact ⟨h.undrained, fun _ ↦ hclean, fun hnot ↦ absurd trivial hnot⟩
      | _ => exact absurd (show none = some t from hs) nofun
  | finalizeStop =>
      rw [hpc] at hs
      cases act with
      | next =>
          obtain rfl := Option.some.inj hs
          have hclean : ¬ s.Dirty := h.clean (by simp [hpc, Stops])
          exact ⟨(stopEngine_undrained hclean).trans h.undrained,
            fun _ ↦ not_dirty_stopEngine (s := s), fun hnot ↦ absurd trivial hnot⟩
      | _ => exact absurd (show none = some t from hs) nofun
  | done =>
      rw [hpc] at hs
      cases act <;> exact absurd (show none = some t from hs) nofun

/-- The flags do not matter to what was lost. -/
theorem Orderly.of_same (h : Orderly s) (hpc : t.pc = s.pc) (hfin : t.finalized = s.finalized)
    (hengine : t.engineRunning = s.engineRunning) (hunread : t.unread = s.unread)
    (hundrained : t.undrained = s.undrained) : Orderly t := by
  constructor
  all_goals simp only [Dirty, hpc, hfin, hengine, hunread, hundrained]
  · exact h.undrained
  · exact h.clean
  · exact h.finalized

theorem Orderly.handlerStep (h : Orderly s) : Orderly s.handlerStep := by
  unfold Teardown.handlerStep
  cases s.handler <;> exact h.of_same rfl rfl rfl rfl rfl

/-- **An undisturbed step loses no waves.** -/
theorem Orderly.step (h : Orderly s) (hs : Guarded Step Undisturbed s act t) : Orderly t := by
  obtain ⟨hs, hguard⟩ := hs
  cases act with
  | requestStop => exact Option.some.inj hs ▸ h.of_same rfl rfl rfl rfl rfl
  | handler => exact Option.some.inj hs ▸ h.handlerStep
  | _ => exact h.runStep hguard hs

/-! ## Disturbed runs -/

/-- `finalize_session` loses what the engine holds. -/
theorem finalize_undrained (hpc : s.pc = .finalize) (hfin : s.finalized = false)
    (hdirty : s.Dirty) : ∃ acts t, Run Step s acts t ∧ t.undrained = true := by
  let s₁ : Teardown := { s with
    finalized := true
    running := false
    shuttingDown := true
    pc := .finalizeStop }
  have hmark : Step s .next s₁ := by simp [Step, step, runStep, hpc, hfin, s₁]
  have hstop : Step s₁ .next { s₁.stopEngine with pc := .done } := rfl
  have hdirty₁ : s₁.Dirty := hdirty
  exact ⟨_, _, .cons hmark (.single hstop), by simp [stopEngine, hdirty₁]⟩

/-- A `graceful_shutdown` that finds `shutting_down_` set returns, and `run` goes on to
`finalize_session`. -/
theorem returnTo_undrained {afterLoop : Bool} (hpc : s.pc = returnTo afterLoop)
    (hflag : s.shuttingDown = true) (hfin : s.finalized = false) (hdirty : s.Dirty) :
    ∃ acts t, Run Step s acts t ∧ t.undrained = true := by
  cases afterLoop with
  | true => exact finalize_undrained hpc hfin hdirty
  | false =>
      have hexit : Step s .next { s with pc := .finalize } := by
        change s.pc = .exit at hpc
        simp [Step, step, runStep, hpc, hflag]
      obtain ⟨acts, t, hrun, hlost⟩ :=
        finalize_undrained (s := { s with pc := .finalize }) rfl hfin hdirty
      exact ⟨_, t, .cons hexit hrun, hlost⟩

/-- A VRAM emergency comes in `gpu_safety_tick`. -/
theorem vram_step {emergency : Bool} (hstep : Step s (.vram emergency) t) :
    t = if emergency then { s.stopEngine with pc := .loop } else { s with pc := .park } := by
  change s.runStep s.pc _ = some t at hstep
  cases hpc : s.pc with
  | safety =>
      rw [hpc] at hstep
      cases emergency <;> exact (Option.some.inj hstep).symm
  | graceful pc afterLoop =>
      rw [hpc] at hstep
      cases pc <;> exact absurd (show none = some t from hstep) nofun
  | _ =>
      rw [hpc] at hstep
      exact absurd (show none = some t from hstep) nofun

/-- **No waves are lost exactly in undisturbed runs.**  As long as no VRAM emergency comes, and no
signal sets `shutting_down_` before `graceful_shutdown` or the end of `run` tests it, while the
engine holds waves, every stop of a running engine without a CUDA error comes after
`drain_pipeline`, with its hits passed on.  A step that is disturbed leads to a stop that loses
waves. -/
theorem stops_drained_iff {s₀ : Teardown} {acts : List TeardownAct} (h₀ : Starts s₀)
    (hrun : Run (Guarded Step Undisturbed) s₀ acts s) :
    s.undrained = false ∧ ∀ act t, Step s act t → ¬ Undisturbed s act →
      ∃ acts' u, Run Step t acts' u ∧ u.undrained = true := by
  have h : Orderly s := hrun.preserves (fun _ _ _ h hs ↦ h.step hs) (.of_starts h₀)
  refine ⟨h.undrained, ?_⟩
  intro act t hstep hdisturbed
  cases act with
  | vram emergency =>
      cases emergency with
      | true =>
          have hdirty : s.Dirty := not_not.mp hdisturbed
          refine ⟨[], t, .nil t, ?_⟩
          simp [vram_step hstep, Teardown.stopEngine, hdirty]
      | false => exact absurd trivial hdisturbed
  | next =>
      simp only [Undisturbed, not_forall, not_not] at hdisturbed
      obtain ⟨hpc, hflag, hdirty⟩ := hdisturbed
      have hplace : s.pc = .exit ∨ ∃ afterLoop, s.pc = .graceful .test afterLoop := by
        unfold testsFlag at hpc
        split at hpc
        · next hexit => exact .inl hexit
        · next afterLoop htest => exact .inr ⟨afterLoop, htest⟩
        · cases hpc
      rcases hplace with hpc | ⟨afterLoop, hpc⟩
      · have hfin : s.finalized = false := h.finalized (by simp [hpc, Finalized])
        obtain rfl : { s with pc := .finalize } = t := by
          simpa [Step, Teardown.step, Teardown.runStep, hpc, hflag] using hstep
        exact finalize_undrained (s := { s with pc := .finalize }) rfl hfin hdirty
      · have hfin : s.finalized = false := h.finalized (by simp [hpc, Finalized])
        obtain rfl : { s with pc := returnTo afterLoop } = t := by
          simpa [Step, Teardown.step, Teardown.runStep, Teardown.gracefulStep, hpc, hflag]
            using hstep
        exact returnTo_undrained (s := { s with pc := returnTo afterLoop }) rfl hflag hfin hdirty
  | _ => exact absurd trivial hdisturbed

/-- The first steps of a round of the loop, up to `gpu_safety_tick`. -/
def toSafety : List TeardownAct := [.next, .timeUp false, .cooldown false false]

/-- A round that mines. -/
def miningRound : List TeardownAct :=
  toSafety ++ [.vram false, .park false, .next, .mine .returns, .handled true]

/-- A signal while the engine mines, or a VRAM emergency: the engine is stopped and was not
drained. -/
theorem stops_undrained :
    (∃ s, Run Step {}
        (miningRound ++ [.handler, .handler, .handler, .next, .next, .next, .next]) s ∧
      s.pc = .done ∧ s.undrained = true) ∧
    ∃ s, Run Step {} (miningRound ++ toSafety ++ [.vram true]) s ∧ s.undrained = true := by
  have hsignal : (exec step {} (miningRound ++
      [.handler, .handler, .handler, .next, .next, .next, .next])).map
        (fun s ↦ (s.pc, s.undrained)) = some (.done, true) := by decide
  have hvram : (exec step {} (miningRound ++ toSafety ++ [.vram true])).map (·.undrained) =
      some true := by decide
  obtain ⟨s, hs, hlost⟩ := Option.map_eq_some_iff.mp hsignal
  obtain ⟨u, hu, hlost'⟩ := Option.map_eq_some_iff.mp hvram
  exact ⟨⟨s, run_of_exec hs, Prod.mk.inj hlost⟩, u, run_of_exec hu, hlost'⟩

/-- A miner that is asked to stop drains the engine first. -/
def requestedStop : List TeardownAct :=
  miningRound ++ [.requestStop, .next, .next, .next, .next, .next, .drain .returns, .handled true,
    .next, .next, .next]

theorem stops_drained_requested : ∃ t, Run (Guarded Step Undisturbed) {} requestedStop t ∧
    t.pc = .done ∧ t.undrained = false := by
  have hexec : (exec (fun s act ↦ if Undisturbed s act then step s act else none) {}
      requestedStop).map (·.pc) = some .done := by decide
  obtain ⟨t, ht, hpc⟩ := Option.map_eq_some_iff.mp hexec
  have hrun := run_guarded_of_exec ht
  exact ⟨t, hrun, hpc, (stops_drained_iff ⟨rfl, rfl, rfl, rfl⟩ hrun).1⟩

end Teardown

end XNMiner
