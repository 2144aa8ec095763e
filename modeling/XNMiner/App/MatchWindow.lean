import XNMiner.App.State

/-!
# Difficulty polls and the match window, as single functions

The state changes of `refresh_network`, `update_match_drain`, `note_submit_transport_failure`
and an accepted `POST`.  Each function here is the change one critical section makes, or, for
`refreshNetwork` and `updateMatchDrain`, the whole call taken as one step.
`App/Calls.lean` has the two calls as programs with their steps apart.
-/

namespace XNMiner

namespace Supervisor

/-! ## The window -/

/-- The window is switched off by the settings. -/
def drainDisabled (s : Supervisor) : Bool :=
  s.bagOnly || !s.settings.matchDrainEnabled || !s.forceMineMode

/-- `bag_q`: the rows of the pinned cost. -/
def bagQ (s : Supervisor) : Nat := s.store.pendingMatchingM s.bagTargetM s.bagTargetM

/-- `match_q`: those rows, while the difficulty is the pinned one. -/
def matchQ (s : Supervisor) : Nat := if s.oracleSaysM s.bagTargetM then s.bagQ else 0

/-- `timed_out`. -/
def windowTimedOut (s : Supervisor) (now : Rat) : Bool :=
  decide (0 < s.settings.matchDrainMaxS ∧ 0 < s.matchDrainUntil ∧ s.matchDrainUntil ≤ now)

/-- `empty || timed_out || confirmed_mismatch`. -/
def windowEnds (s : Supervisor) (now : Rat) : Bool :=
  (s.oracleSaysM s.bagTargetM && decide (s.bagQ = 0)) || s.windowTimedOut now ||
    s.oracleLeftM s.bagTargetM

/-- `m_match && match_q >= min_q`. -/
def windowOpens (s : Supervisor) : Bool :=
  s.oracleSaysM s.bagTargetM && decide (s.settings.matchDrainMinQueue ≤ s.matchQ)

/-- The window is switched off. -/
def stopWindow (s : Supervisor) : Supervisor :=
  { s with matchDrainActive := false, matchDrainGpuParked := false }

/-- The window closes: its time limit is reset and the store flushed. -/
def endWindow (s : Supervisor) : Supervisor :=
  { s.stopWindow with matchDrainUntil := 0, store := s.store.flush }

/-- The window opens. -/
def openWindow (s : Supervisor) (now : Rat) : Supervisor :=
  { s with
    matchDrainActive := true
    matchDrainGpuParked := false
    matchDrainUntil := if 0 < s.settings.matchDrainMaxS then now + s.settings.matchDrainMaxS else 0
    matchDrainFlushed := 0
    matchDrainCleared := 0
    flushSkipBeforeId := 0 }

def updateMatchDrain (s : Supervisor) (now : Rat) : Supervisor :=
  if s.drainDisabled then
    if s.matchDrainActive then s.stopWindow else s
  else if s.matchDrainActive then
    if s.windowEnds now then s.endWindow else s
  else if s.windowOpens then s.openWindow now
  else s

/-! ## Polls -/

/-- The critical section of `refresh_network` after a poll that gave a number.  `t₁` and `t₂`
are its two clock readings. -/
def applyDifficulty (s : Supervisor) (raw : Int) (t₁ t₂ : Rat) : Supervisor :=
  let fallback := s.networkDifficulty.getD s.settings.memoryCost
  let diff := acceptNetworkDifficulty raw fallback
  { s with
    deferSubmitUntil :=
      if s.networkDifficulty.isSome ∧ s.networkDifficulty ≠ some diff then
        t₁ + max 5 s.settings.sampleIntervalS
      else s.deferSubmitUntil
    networkDifficulty := some diff
    networkOk := true
    difficultyStale := false
    difficultyFailStreak := 0
    lastDifficultyOkAt := t₂
    submitBackoffUntil := 0 }

/-- The critical section of `refresh_network` after a poll that gave none: the last good number
is kept, and the network counts as down only after a streak. -/
def applyPollFailure (s : Supervisor) (t : Rat) : Supervisor :=
  let streak := s.difficultyFailStreak + 1
  let haveLastGood := s.networkDifficulty.isSome
  let age : Rat := if 0 < s.lastDifficultyOkAt then t - s.lastDifficultyOkAt else 1000000000
  let matchingHybrid := s.forceMineMode && decide (s.networkDifficulty = some s.forcedMineM)
  let failBudget := if matchingHybrid then 6 else 3
  let ageBudget : Rat := if matchingHybrid then 120 else 60
  let softStale := decide (haveLastGood ∧ age < 180 ∧ streak < 8)
  { s with
    difficultyFailStreak := streak
    difficultyStale := if softStale then true else haveLastGood
    networkOk := if softStale then decide (streak < failBudget ∧ age < ageBudget) else false }

/-- A snapshot that a non-blocking call has seen before, or no snapshot yet. -/
def staleSnapshot (s : Supervisor) (blocking : Bool) (st : NetworkStatus) : Bool :=
  !blocking && (decide (st.seq = 0) || decide (st.seq = s.lastPollSeq))

/-- The snapshot is noted as seen. -/
def noteSeq (s : Supervisor) (st : NetworkStatus) : Supervisor :=
  { s with lastPollSeq := if st.seq ≠ 0 then st.seq else s.lastPollSeq }

/-- `refresh_network` as one step, on the snapshot `st` and with the clock readings the call
makes; the replanning of the engine is left to the mining thread's program. -/
def refreshNetwork (s : Supervisor) (blocking : Bool) (st : NetworkStatus) (t₁ t₂ t₃ : Rat) :
    Bool × Supervisor :=
  if s.staleSnapshot blocking st then (s.networkOk && s.networkDifficulty.isSome, s)
  else
    let s := s.noteSeq st
    match st.difficulty with
    | some raw => (true, (s.applyDifficulty raw t₁ t₂).updateMatchDrain t₃)
    | none =>
        let s := s.applyPollFailure t₁
        (s.networkOk, s)

/-! ## Starting -/

/-- The last part of the startup probe: without a difficulty, `memory_cost` is put in its place. -/
def startupFallback (s : Supervisor) : Supervisor :=
  match s.networkDifficulty with
  | some _ => s
  | none => { s with networkDifficulty := some s.settings.memoryCost, networkOk := false }

/-- The startup probe of `run`: `refresh_network` on some snapshots, each with its clock readings,
and the fallback.  The threads start after it. -/
def startupProbe (s : Supervisor) (polls : List (NetworkStatus × Rat × Rat × Rat)) : Supervisor :=
  (polls.foldl (fun s p ↦ (s.refreshNetwork false p.1 p.2.1 p.2.2.1 p.2.2.2).2) s).startupFallback

/-! ## Submits -/

/-- The length of the pause after a submit that did not get through. -/
def transportBackoff (s : Supervisor) (hybridMatch : Bool) (status : Int) : Rat :=
  if s.matchDrainActive then 15 / 100
  else if hybridMatch || decide (status = 401 ∨ status = 403 ∨ status = 429) then 3
  else max 15 s.settings.networkDownPollIntervalS

/-- The lock-free reads and the critical section of `note_submit_transport_failure`, as one
step. -/
def noteSubmitTransportFailure (s : Supervisor) (status : Int) (t : Rat) : Supervisor :=
  let hybridMatch := s.forceMineMode && s.networkMatchesHitM s.forcedMineM
  let rateLimit := decide (status = 401 ∨ status = 403 ∨ status = 429)
  let keepNet := hybridMatch || rateLimit || s.matchDrainActive
  { s with
    submitBackoffUntil := t + s.transportBackoff hybridMatch status
    networkOk := if keepNet then s.networkOk else false }

/-- The critical section after an accepted `POST`. -/
def noteAccepted (s : Supervisor) : Supervisor :=
  { s with submitBackoffUntil := 0, networkOk := true }

/-- What a wave that ended with no accept writes: a pause outside a match, and the id the next
wave starts from. -/
def noteZeroAccepts (s : Supervisor) (draining : Bool) (t : Rat) (lastId : Int) : Supervisor :=
  { s with
    submitBackoffUntil := if draining then s.submitBackoffUntil else t + 2
    flushSkipBeforeId := lastId + 1 }

end Supervisor

end XNMiner
