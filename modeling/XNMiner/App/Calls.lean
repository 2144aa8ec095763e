import XNMiner.App.World

/-!
# Gates that lock several times, polls, and the window, as programs

`refresh_network` and `update_match_drain` are called by the mining thread and by the submit
worker.  `Calls.steps` has them as they run, one step for each lock they take; `Calls.atomic`
has each as a single step (the functions of `App/MatchWindow.lean`).  The programs that call
them take the pair as a parameter, so that a result can say which of the two it is about.
-/

namespace XNMiner

open Lib

namespace Sup

def submitTargetM : Sup Int := do
  let bag ← get (·.bagTargetM)
  if ← get (·.oracleSaysM bag) then pure bag
  else get (·.knownDifficulty)

def liveSubmitAllowed : Sup Bool := do
  let t ← query .clock
  get (·.liveSubmitAllowed t)

def flushSubmitAllowed : Sup Bool := do
  let t ← query .clock
  get (·.flushSubmitAllowed t)

def canSubmitHitM (hitM : Int) : Sup Bool := do
  if ← liveSubmitAllowed then get (·.networkMatchesHitM hitM) else pure false

/-- What `verify_ready_to_push` knows without a probe. -/
def readyWithoutProbe (t : Rat) (s : Supervisor) : Option Bool :=
  if s.networkOk then some true
  else if 0 < s.verifyProbeAt ∧ t - s.verifyProbeAt < kVerifyProbeTtlS then some s.verifyAlive
  else none

def verifyReadyToPush : Sup Bool := do
  let t ← query .clock
  match ← get (readyWithoutProbe t) with
  | some ready => pure ready
  | none =>
      let ok ← query .probe
      let t' ← query .clock
      set fun s ↦ { s with verifyAlive := ok, verifyProbeAt := t' }
      pure ok

/-- `match_drain_active_ || oracle_says_m(bag_target_m())`. -/
def isDraining : Sup Bool := do
  if ← get (·.matchDrainActive) then pure true
  else
    let bag ← get (·.bagTargetM)
    get (·.oracleSaysM bag)

def inXuniSubmitWindow : Sup Bool := do
  let minute ← query .minute
  pure (XNMiner.inXuniSubmitWindow minute)

def noteSubmitTransportFailure (status : Int) : Sup Unit := do
  let hybridMatch ← get fun s ↦ s.forceMineMode && s.networkMatchesHitM s.forcedMineM
  let draining ← get (·.matchDrainActive)
  let t ← query .clock
  set fun s ↦
    let rateLimit := decide (status = 401 ∨ status = 403 ∨ status = 429)
    { s with
      submitBackoffUntil := t +
        ({ s with matchDrainActive := draining } : Supervisor).transportBackoff hybridMatch status
      networkOk := if hybridMatch || rateLimit || draining then s.networkOk else false }

/-! ## The two shared calls -/

/-- The calls whose steps matter to what can be said about an interleaving. -/
structure Calls where
  /-- `update_match_drain`. -/
  updateMatchDrain : Rat → Sup Unit
  /-- `refresh_network`. -/
  refreshNetwork : Bool → Bool → Sup Bool

/-- `update_match_drain`, step by step. -/
def updateMatchDrainSteps (now : Rat) : Sup Unit := do
  if ← get (·.drainDisabled) then
    if ← get (·.matchDrainActive) then set (·.stopWindow) else pure ()
  else
    let bagM ← get (·.bagTargetM)
    let lastGoodMatches ← get (·.oracleSaysM bagM)
    let confirmedMismatch ← get (·.oracleLeftM bagM)
    let bagQ ← get (·.store.pendingMatchingM bagM bagM)
    if ← get (·.matchDrainActive) then
      let timedOut ← get (·.windowTimedOut now)
      if (lastGoodMatches && decide (bagQ = 0)) || timedOut || confirmedMismatch then
        set fun s ↦ { s.stopWindow with matchDrainUntil := 0 }
        store .flush
      else pure ()
    else
      let minQ ← get (·.settings.matchDrainMinQueue)
      if lastGoodMatches && decide (minQ ≤ (bagQ : Int)) then set (·.openWindow now)
      else pure ()

/-- The known difficulty moves in classic mode, so that the engine is to be replanned. -/
def replanTo (s : Supervisor) (raw : Int) : Option Int :=
  let diff := acceptNetworkDifficulty raw (s.networkDifficulty.getD s.settings.memoryCost)
  if s.networkDifficulty.isSome ∧ s.networkDifficulty ≠ some diff ∧ s.forceMineMode = false then
    some diff
  else none

/-- The critical section of `refresh_network` after a poll that gave a number: the answer is the
difficulty to replan to, and the ghost remembers the number that is now known. -/
def applyPoll (raw : Int) (t₁ t₂ : Rat) (w : World) : Option Int × World :=
  let sup := w.sup.applyDifficulty raw t₁ t₂
  (replanTo w.sup raw, { w with sup, held := w.held ++ [sup.networkDifficulty] })

/-- `engine_->set_difficulty`, where `refresh_network` calls it. -/
def replanEngineTo : Option Int → Sup Unit
  | none => pure ()
  | some diff => do
      let m ← query (.replan diff)
      set fun s ↦ { s with engineDifficulty := m }

/-- `refresh_network`, step by step. -/
def refreshNetworkSteps (blocking replanEngine : Bool) : Sup Bool := do
  let st ← query (.poll blocking)
  let stale ← Prog.atomically fun w ↦
    if w.sup.staleSnapshot blocking st then
      (some (w.sup.networkOk && w.sup.networkDifficulty.isSome), w)
    else (none, { w with sup := w.sup.noteSeq st })
  match stale with
  | some answer => pure answer
  | none => match st.difficulty with
      | some raw =>
          let t₁ ← query .clock
          let t₂ ← query .clock
          let replan ← Prog.atomically (applyPoll raw t₁ t₂)
          if replanEngine then replanEngineTo replan else pure ()
          let t₃ ← query .clock
          updateMatchDrainSteps t₃
          pure true
      | none =>
          let t ← query .clock
          set (·.applyPollFailure t)
          get (·.networkOk)

/-- `refresh_network` as one step, from the snapshot to `update_match_drain`. -/
def refreshOnce (blocking : Bool) (st : NetworkStatus) (t₁ t₂ t₃ : Rat) (w : World) :
    (Bool × Option Int) × World :=
  let (answer, sup) := w.sup.refreshNetwork blocking st t₁ t₂ t₃
  let replan := if w.sup.staleSnapshot blocking st then none
    else st.difficulty.bind (replanTo w.sup)
  ((answer, replan), { w with sup, held := w.held ++ [sup.networkDifficulty] })

/-- `refresh_network` with that step, and the replanning of the engine after it. -/
def refreshNetworkAtomic (blocking replanEngine : Bool) : Sup Bool := do
  let st ← query (.poll blocking)
  let t₁ ← query .clock
  let t₂ ← query .clock
  let t₃ ← query .clock
  let (answer, replan) ← Prog.atomically (refreshOnce blocking st t₁ t₂ t₃)
  if replanEngine then replanEngineTo replan else pure ()
  pure answer

/-- Every lock is a step. -/
def Calls.steps : Calls where
  updateMatchDrain := updateMatchDrainSteps
  refreshNetwork := refreshNetworkSteps

/-- Each call is a step. -/
def Calls.atomic : Calls where
  updateMatchDrain now := set (·.updateMatchDrain now)
  refreshNetwork := refreshNetworkAtomic

end Sup

end XNMiner
