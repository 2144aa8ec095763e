import XNMiner.Lib.Mutexes

/-!
# What the threads lock

The functions of the supervisor, of the store, of the counters and of the log, reduced to the
mutexes they take and to the length of `live_submit_q_`.  Every `lock_guard` of the source is
there, in its place; a condition on anything else is a choice (`either`, `perhaps`), a loop runs
any number of times, and an exception is a choice to go on behind it.

The other components (engine, dashboard, wallet, poller, reporters) have mutexes of their own.
They call nothing of this while they hold them, and are left out.  `notify_all` takes none.
-/

namespace XNMiner

open Lib Locked

/-- The mutexes of `Supervisor`, of what it stores, counts and logs with, and `acc_mu` of
`try_flush_pending`. -/
inductive Mutex
  | persist
  | submit
  | state
  | acc
  | store
  | metrics
  | logger
deriving DecidableEq

/-- A function; the shared data are the number of jobs in `live_submit_q_`. -/
abbrev Code (α : Type) := Locked Mutex Nat α

namespace Locks

/-- A function, or a block, that holds a mutex and calls nothing. -/
def guarded (m : Mutex) : Code Unit := holding m (pure ())

/-! ## The store, the counters, the log -/

def enqueue : Code Unit := guarded .store
def recordRejection : Code Unit := enqueue
def flush : Code Unit := guarded .store
def markSubmittedMany : Code Unit := guarded .store
def markSubmitted : Code Unit := markSubmittedMany
def markPendingReason : Code Unit := guarded .store
def pendingCount : Code Unit := guarded .store
def pendingMatchingM : Code Unit := guarded .store
def pendingByType : Code Unit := guarded .store
def listFlushBatch : Code Unit := guarded .store
def deferAllToNextStart : Code Unit := guarded .store

def recordHashes : Code Unit := guarded .metrics
def recordFound : Code Unit := guarded .metrics
def recordEnqueued : Code Unit := guarded .metrics
def recordAcceptedLive : Code Unit := guarded .metrics
def recordAcceptedFlush : Code Unit := guarded .metrics
def recordRejectedLive : Code Unit := guarded .metrics
def recordRejectedFlush : Code Unit := guarded .metrics
def recordResubmission : Code Unit := guarded .metrics
def syncPending : Code Unit := guarded .metrics
def setActiveLanes : Code Unit := guarded .metrics
def stats : Code Unit := guarded .metrics

/-- `SessionLogger::write`, and what calls only that. -/
def log : Code Unit := guarded .logger

/-! ## The handler -/

/-- `running_` is atomic. -/
def requestStop : Code Unit := pure ()

/-- `batch.swap(live_submit_q_)`, with the length of the batch. -/
def swapLiveQueue : Code Nat := .step (fun _ ↦ 0) .ret

def bagLiveQueueToStore : Code Nat := do
  let n ← holding .submit swapLiveQueue
  times (do enqueue; recordEnqueued) n
  (if n ≠ 0 then (do pendingCount; syncPending) else pure ())
  pure n

def persistQueueForRestart : Code Unit :=
  holding .persist do
    let _ ← bagLiveQueueToStore
    deferAllToNextStart
    pendingCount
    log

def handleSignal : Code Unit := do
  requestStop
  persistQueueForRestart

/-! ## Gates -/

def miningDifficulty : Code Unit := perhaps (guarded .state)
def liveSubmitAllowed : Code Unit := perhaps (guarded .state)
def flushSubmitAllowed : Code Unit := perhaps (guarded .state)
def oracleSaysM : Code Unit := perhaps (guarded .state)
def oracleLeftM : Code Unit := perhaps (guarded .state)
def networkMatchesHitM : Code Unit := oracleSaysM
def bagTargetM : Code Unit := perhaps (guarded .state)
def networkDifficultyForPublic : Code Unit := guarded .state

def canSubmitHitM : Code Unit := do
  liveSubmitAllowed
  perhaps networkMatchesHitM

def submitTargetM : Code Unit := do
  bagTargetM
  oracleSaysM
  perhaps (guarded .state)

def verifyReadyToPush : Code Unit := do
  guarded .state
  perhaps do
    guarded .state
    perhaps log

def noteSubmitTransportFailure : Code Unit := do
  perhaps networkMatchesHitM
  guarded .state
  log

/-- Matching the queue against the window, with what is logged. -/
def updateMatchDrain : Code Unit :=
  either (perhaps log) do
    guarded .state
    bagTargetM
    oracleSaysM
    oracleLeftM
    perhaps pendingMatchingM
    perhaps do
      log
      perhaps flush

def refreshNetwork : Code Unit := do
  guarded .state
  perhaps <| either
    (do
      guarded .state
      perhaps do
        log
        perhaps log
      -- `power_->set_difficulty` logs where the target changes
      perhaps log
      updateMatchDrain)
    (do
      guarded .state
      guarded .state
      perhaps do
        guarded .state
        perhaps log)

/-! ## Hits -/

def queueHit : Code Unit := do
  enqueue
  perhaps do
    recordEnqueued
    pendingCount
    syncPending
    log

def enqueueLiveSubmit : Code Unit := holding .submit (.step (· + 1) fun _ ↦ .ret ())

def handleHit : Code Unit :=
  either (perhaps log) do
    recordFound
    log
    miningDifficulty
    either log do
      perhaps miningDifficulty
      either (perhaps queueHit) do
        canSubmitHitM
        either enqueueLiveSubmit <| perhaps do
          guarded .state
          queueHit

def handleBatchHits : Code Unit := repeatedly handleHit

def processLiveSubmit : Code Unit := do
  perhaps miningDifficulty
  either (perhaps queueHit) do
    refreshNetwork
    canSubmitHitM
    either
      (perhaps do
        liveSubmitAllowed
        perhaps networkMatchesHitM
        queueHit) do
      verifyReadyToPush
      either (perhaps queueHit) do
        -- `submitter_->submit`, which logs without a dashboard
        perhaps log
        either
          (do
            guarded .state
            perhaps log
            recordAcceptedLive
            log
            perhaps miningDifficulty) <|
          either
            (do
              perhaps noteSubmitTransportFailure
              perhaps queueHit)
            (do
              recordRejection
              perhaps recordRejectedLive
              recordResubmission
              pendingCount
              syncPending
              log)

/-! ## The flush of the queue -/

def handleOne : Code Unit := do
  either
    (do
      guarded .acc
      recordAcceptedFlush
      perhaps miningDifficulty
      guarded .state) <|
    perhaps <| either (guarded .acc) do
      perhaps recordRejectedFlush
      markPendingReason
  perhaps do
    pendingCount
    pendingCount
    log

def logFlushSkip : Code Unit := perhaps log

/-- The threads of the pool run `handleOne` themselves. -/
def tryFlushPending : Code Unit := do
  verifyReadyToPush
  either logFlushSkip do
    perhaps updateMatchDrain
    perhaps do
      bagTargetM
      oracleSaysM
    perhaps flushSubmitAllowed
    perhaps (guarded .state)
    perhaps do
      refreshNetwork
      perhaps deferAllToNextStart
      perhaps flushSubmitAllowed
      perhaps updateMatchDrain
      bagTargetM
    submitTargetM
    perhaps bagTargetM
    either logFlushSkip do
      pendingCount
      bagTargetM
      listFlushBatch
      repeatedly do
        perhaps miningDifficulty
        perhaps bagTargetM
        perhaps markSubmitted
      either (do pendingCount; logFlushSkip) do
        perhaps do
          pendingCount
          log
        perhaps pendingCount
        repeatedly handleOne
        guarded .acc
        perhaps markSubmittedMany
        perhaps pendingCount
        pendingCount
        syncPending
        perhaps log
        perhaps log
        perhaps (guarded .state)
        perhaps log

def servicePendingQueue : Code Unit := do
  pendingByType
  pendingCount
  perhaps do
    log
    tryFlushPending
  perhaps do
    bagTargetM
    oracleSaysM
  perhaps tryFlushPending

/-! ## The submit worker -/

/-- One round of `submit_worker_loop`, or its end. -/
def submitWorkerLoop : Code Unit := do
  let n ← holding .submit do
    repeatedly (waitOn .submit)
    swapLiveQueue
  perhaps do
    refreshNetwork
    updateMatchDrain
  either
    (do
      times (do enqueue; recordEnqueued) n
      perhaps do
        pendingCount
        syncPending
      perhaps servicePendingQueue)
    (do
      perhaps verifyReadyToPush
      either (times (perhaps queueHit) n) (times processLiveSubmit n)
      servicePendingQueue)
  perhaps do
    let _ ← bagLiveQueueToStore
    deferAllToNextStart
    perhaps liveSubmitAllowed
    either tryFlushPending do
      perhaps pendingCount
      perhaps do
        pendingCount
        log
    log

/-! ## The mining thread -/

def applyVramPolicy : Code Unit := perhaps log

def uiRefresh : Code Unit := do
  perhaps log
  perhaps do
    stats
    pendingByType
    pendingByType
  perhaps do
    guarded .state
    stats
    pendingCount
  perhaps do
    stats
    guarded .state

def maybeReloadConfig : Code Unit := perhaps log

def gpuSafetyTick : Code Unit := do
  perhaps log
  -- `power_->tick`
  repeatedly log
  perhaps log

def stopSubmitWorker : Code Unit := pure ()

def gracefulShutdown : Code Unit := perhaps do
  log
  perhaps do
    handleBatchHits
    perhaps recordHashes
  let _ ← bagLiveQueueToStore
  deferAllToNextStart
  flush
  stopSubmitWorker

def finalizeSession : Code Unit := perhaps do
  let _ ← bagLiveQueueToStore
  deferAllToNextStart
  stopSubmitWorker
  log

/-- `run`, up to its loop. -/
def runStart : Code Unit := do
  repeatedly log
  repeatedly refreshNetwork
  holding .state log
  repeatedly log
  either
    (do
      applyVramPolicy
      applyVramPolicy
      perhaps (guarded .state)
      repeatedly log
      repeatedly log
      pendingCount
      perhaps do
        pendingCount
        log
      log)
    (do
      log
      finalizeSession)

/-- One round of the loop of `run`. -/
def runLoop : Code Unit := do
  refreshNetwork
  updateMatchDrain
  maybeReloadConfig
  either
    (do
      perhaps uiRefresh
      perhaps do
        perhaps log
        perhaps (guarded .state)
        perhaps log)
    (do
      gpuSafetyTick
      perhaps <| either
        (do
          perhaps do
            perhaps recordHashes
            handleBatchHits
            log
          perhaps uiRefresh)
        (do
          perhaps log
          perhaps pendingByType
          perhaps do
            perhaps log
            setActiveLanes
            perhaps recordHashes
            handleBatchHits
          perhaps do
            log
            perhaps log
          perhaps do
            uiRefresh
            stats
            pendingCount
            log))

/-- The end of `run`. -/
def runEnd : Code Unit := do
  gracefulShutdown
  finalizeSession

/-! ## Threads -/

/-- The threads of the process; the last ones take none of these mutexes. -/
inductive Thread
  | mining
  | submit
  | flush (worker : Nat)
  | woodyminer
  | other (n : Nat)
deriving DecidableEq

/-- What a thread runs, again and again. -/
def body : Thread → Code Unit
  | .mining => either runLoop (either runStart runEnd)
  | .submit => submitWorkerLoop
  | .flush _ => handleOne
  | .woodyminer => do
      stats
      networkDifficultyForPublic
      perhaps log
  | .other _ => pure ()

end Locks

end XNMiner
