import XNMiner.Config.Settings
import XNMiner.Network.Pool
import XNMiner.Queue.FlushBatch

/-!
# The supervisor: state and gates

`Supervisor` (`app/supervisor.hpp`) is shared by the mining thread, the submit worker and the
console handler.  The record below has the fields their control flow depends on; what is only
shown or counted (logger, dashboard, metrics, wallet, reporters) is left out.  Times are exact
rationals, in seconds.

The gates are the `const` member functions of the source.  Each reads the fields under one lock
of `state_mu_`, so each is one function of the state; those that lock several times are programs
(`App/Calls.lean`).
-/

namespace XNMiner

/-- A prepared hit on its way from the mining thread to the submit worker. -/
structure LiveSubmitJob where
  hit : BlockHit
  kind : String
deriving DecidableEq

/-- The shared state of the miner. -/
structure Supervisor where
  settings : Settings := {}
  /-- `cpu::flush_http_cap()`: the most flush workers this machine may run. -/
  flushHttpCap : Int := 512
  shuttingDown : Bool := false
  running : Bool := true
  finalized : Bool := false
  -- network and submit state
  networkOk : Bool := false
  difficultyStale : Bool := false
  networkDifficulty : Option Int := none
  lastDifficultyOkAt : Rat := 0
  difficultyFailStreak : Nat := 0
  lastPollSeq : Nat := 0
  deferSubmitUntil : Rat := 0
  submitBackoffUntil : Rat := 0
  verifyAlive : Bool := false
  verifyProbeAt : Rat := 0
  -- the match window
  matchDrainActive : Bool := false
  matchDrainGpuParked : Bool := false
  matchDrainUntil : Rat := 0
  matchDrainFlushed : Int := 0
  matchDrainCleared : Int := 0
  flushSkipBeforeId : Int := 0
  -- the submit worker
  liveSubmitQ : List LiveSubmitJob := []
  submitWorkerRunning : Bool := true
  submitThreadJoinable : Bool := true
  wasInXuniWindow : Bool := false
  lastQueueFlush : Rat := 0
  lastXuniFlush : Rat := 0
  -- what the supervisor owns
  store : BlockStore := {}
  /-- `engine_->difficulty()`. -/
  engineDifficulty : Int := 0

def kVerifyProbeTtlS : Rat := 2

namespace Supervisor

/-! ## Settings in force -/

def forceMineMode (s : Supervisor) : Bool := decide (0 < s.settings.forceMineMemoryCost)

def forcedMineM (s : Supervisor) : Int := s.settings.forceMineMemoryCost

def bagOnly (s : Supervisor) : Bool := !s.settings.submitEnabled

/-- `should_store`: keep a hit that cannot be submitted now. -/
def shouldStore (s : Supervisor) : Bool := s.settings.storeBlocks || s.bagOnly

/-! ## Gates -/

def miningDifficulty (s : Supervisor) : Int :=
  if s.forceMineMode then s.forcedMineM else s.engineDifficulty

/-- The last `/verify` probe is fresh and failed. -/
def probeSaysDown (s : Supervisor) (t : Rat) : Bool :=
  decide (0 < s.verifyProbeAt ∧ t - s.verifyProbeAt < kVerifyProbeTtlS) && !s.verifyAlive

/-- A difficulty is known and positive. -/
def knowsDifficulty (s : Supervisor) : Bool :=
  match s.networkDifficulty with
  | some m => decide (0 < m)
  | none => false

/-- `live_submit_allowed`, with the clock at `t`. -/
def liveSubmitAllowed (s : Supervisor) (t : Rat) : Bool :=
  if s.bagOnly then false
  else if t < s.submitBackoffUntil then false
  else if !s.forceMineMode && decide (t < s.deferSubmitUntil) then false
  else if !s.knowsDifficulty then false
  else if s.networkOk then true
  else !s.probeSaysDown t

/-- `flush_submit_allowed`, with the clock at `t`: a match window ignores the backoff. -/
def flushSubmitAllowed (s : Supervisor) (t : Rat) : Bool :=
  if s.bagOnly then false
  else if !s.matchDrainActive && decide (t < s.submitBackoffUntil) then false
  else if !s.forceMineMode && decide (t < s.deferSubmitUntil) then false
  else if !s.knowsDifficulty then false
  else if s.networkOk then true
  else !s.probeSaysDown t

/-- `oracle_says_m`: the live or last-good difficulty is `m`. -/
def oracleSaysM (s : Supervisor) (m : Int) : Bool :=
  if m ≤ 0 then false else decide (s.networkDifficulty = some m)

/-- `oracle_left_m`: the live difficulty is known to be another than `m`. -/
def oracleLeftM (s : Supervisor) (m : Int) : Bool :=
  if m ≤ 0 then false
  else if !(s.networkOk && s.knowsDifficulty) then false
  else decide (s.networkDifficulty ≠ some m)

def networkMatchesHitM (s : Supervisor) (hitM : Int) : Bool := s.oracleSaysM hitM

/-- `bag_target_m`: the cost the bag is for. -/
def bagTargetM (s : Supervisor) : Int :=
  if s.forceMineMode then s.forcedMineM
  else s.networkDifficulty.getD s.settings.memoryCost

/-- The last part of `submit_target_m`. -/
def knownDifficulty (s : Supervisor) : Int :=
  match s.networkDifficulty with
  | some m => if 0 < m then m else 0
  | none => 0

def bruteDrainParallel (cap configured bagQ : Int) : Int :=
  let par :=
    if configured ≤ 0 then
      let par := if 5000 ≤ bagQ then max cap (min 1024 cap) else cap
      if 25000 ≤ bagQ then max par cap else par
    else configured
  let par := if cap < par then cap else par
  let par := if par < 1 then 1 else par
  if 4096 < par then 4096 else par

/-! ## Facts about the gates -/

theorem oracleSaysM_iff {s : Supervisor} {m : Int} :
    s.oracleSaysM m = true ↔ 0 < m ∧ s.networkDifficulty = some m := by
  unfold oracleSaysM
  split
  · simp; omega
  · simp; omega

/-- A window that matches is not confirmed to have left. -/
theorem oracleLeftM_iff {s : Supervisor} {m : Int} :
    s.oracleLeftM m = true ↔
      0 < m ∧ s.networkOk = true ∧ ∃ d, 0 < d ∧ s.networkDifficulty = some d ∧ d ≠ m := by
  unfold oracleLeftM
  split
  · next h => simp; omega
  · next h =>
    cases hd : s.networkDifficulty with
    | none => simp [knowsDifficulty, hd]
    | some d =>
        by_cases hpos : 0 < d <;> cases hok : s.networkOk <;> simp [knowsDifficulty, hd, hpos]
        omega

end Supervisor

end XNMiner
