import XNMiner.App.Calls
import XNMiner.App.Wave

/-!
# The threads of the supervisor

`handle_hit` and the shutdown path (mining thread), `process_live_submit`, `try_flush_pending`
and `submit_worker_loop` (submit worker), and `persist_queue_for_restart` (console handler), as
programs.  Branches are in the order of the source.  What only logs, counts or draws is left
out, and so are the condition variables: a wait with a timeout is a step that may come at any
time.

The programs that call `refresh_network` or `update_match_drain` take them as a parameter
`c : Calls`.
-/

namespace XNMiner

open Lib

namespace Sup

variable (c : Calls)

/-! ## Queueing -/

/-- `queue_hit`, or `store_->enqueue` where nothing depends on its answer. -/
def queueHit (hit : BlockHit) (reason : String) : Sup Unit := do
  let stamp ← query .stamp
  store (.enqueue stamp hit reason)

def enqueueLiveSubmit (job : LiveSubmitJob) : Sup Unit :=
  set fun s ↦ { s with liveSubmitQ := s.liveSubmitQ ++ [job] }

/-- `batch.swap(live_submit_q_)`; the ghost remembers what the thread holds. -/
def swapLiveQueue (i : Thread) : Sup (List LiveSubmitJob) :=
  Prog.atomically fun w ↦ (w.sup.liveSubmitQ,
    { w with
      sup := { w.sup with liveSubmitQ := [] }
      batches := Function.update w.batches i w.sup.liveSubmitQ })

/-- The thread is done with its batch. -/
def finishBatch (i : Thread) : Sup Unit :=
  Prog.modify fun w ↦ { w with batches := Function.update w.batches i [] }

/-- `for (auto& job : batch) store_->enqueue(job.hit, reason)`. -/
def queueAll (reason : String) : List LiveSubmitJob → Sup Unit
  | [] => pure ()
  | job :: rest => do
      queueHit job.hit reason
      queueAll reason rest

def bagLiveQueueToStore (i : Thread) (reason : String) : Sup Unit := do
  let batch ← swapLiveQueue i
  queueAll reason batch
  finishBatch i

/-- `store_->defer_all_to_next_start()`. -/
def deferAllToNextStart : Sup Unit := do
  let minute ← query .minute
  store (.deferAllToNextStart minute)

/-! ## The mining thread -/

/-- Whether the known difficulty is another than the hit's, as the reason of a queued hit. -/
def deferReason (hitM : Int) (s : Supervisor) : Option String :=
  let netM := s.networkDifficulty.getD 0
  if s.networkOk = true ∧ 0 < netM ∧ netM ≠ hitM then some difficultyChangeReason else none

/-- `handle_hit` from the prepared hit on. -/
def handOff (hit : BlockHit) : Sup Unit := do
  let kind := hit.blockType
  if ← get (·.bagOnly) then queueHit hit "bag_only"
  else
    let miningM ← get (·.miningDifficulty)
    let hitM := hit.memoryCost.getD miningM
    if ← get (·.shuttingDown) then
      let inWindow ← inXuniSubmitWindow
      queueHit hit
        (if kind = "XUNI" ∧ inWindow = false then outsideXuniWindowReason
          else shutdownPendingReason)
    else
      let inWindow ← inXuniSubmitWindow
      if kind = "XUNI" ∧ inWindow = false then
        if ← get (·.shouldStore) then queueHit hit outsideXuniWindowReason else pure ()
      else if ← get (·.matchDrainActive) then queueHit hit matchWindowNewReason
      else if ← canSubmitHitM hitM then enqueueLiveSubmit { hit, kind }
      else if ← get (·.shouldStore) then
        let wrongM ← get (deferReason hitM)
        match wrongM with
        | some reason => queueHit hit reason
        | none =>
            let deferUntil ← get (·.deferSubmitUntil)
            let t ← query .clock
            let forced ← get (·.forceMineMode)
            queueHit hit
              (if forced = false ∧ t < deferUntil then difficultyChangeReason else "network_down")
      else pure ()

/-- The kind `handle_hit` tests before it prepares a hit.  No proof looks inside. -/
@[irreducible] def hitKind (hit : BlockHit) : String :=
  let kind := classifyBlock hit.hashStr hit.blockType
  if kind = "OTHER" then if hit.blockType = "" then "OTHER" else hit.blockType else kind

/-- `handle_hit`.  The answer is the prepared hit, for the ghost of what was handed over. -/
def handleHit (hit : BlockHit) : Sup (Option BlockHit) := do
  if isHex64Key hit.key = false then pure none
  else
    let keep ← get (·.shouldStore)
    let xuniOn ← get (·.settings.xuniMiningEnabled)
    let inWindow ← inXuniSubmitWindow
    if hitKind hit = "XUNI" ∧ keep = false ∧ (xuniOn = false ∨ inWindow = false) then pure none
    else
      let settings ← get (·.settings)
      let miningM ← get (·.miningDifficulty)
      match prepareHitForSubmit hit (hitSalt settings hit) miningM settings.timeCost
          settings.parallelism with
      | none => pure none
      | some prepared =>
          handOff prepared
          pure (some prepared)

/-- The ghost of what `handle_hit` has handed over. -/
def noteDelivered : Option BlockHit → Sup Unit
  | none => pure ()
  | some hit => Prog.modify fun w ↦ { w with delivered := w.delivered ++ [hit.hashStr] }

def handleBatchHits : List BlockHit → Sup Unit
  | [] => pure ()
  | hit :: rest => do
      let prepared ← handleHit hit
      noteDelivered prepared
      handleBatchHits rest

/-- `stop_submit_worker`: ask the worker to stop, and join it. -/
def stopSubmitWorker : Sup Unit := do
  let joinable ← get (·.submitThreadJoinable)
  let workerRunning ← get (·.submitWorkerRunning)
  if workerRunning = false ∧ joinable = false then pure ()
  else
    set fun s ↦ { s with submitWorkerRunning := false }
    if joinable then
      Prog.await (·.workerDone)
      set fun s ↦ { s with submitThreadJoinable := false }
    else pure ()

def gracefulShutdown : Sup Unit := do
  if ← get (·.shuttingDown) then pure ()
  else
    set fun s ↦ { s with shuttingDown := true }
    set fun s ↦ { s with running := false }
    match ← query .drain with
    | some hits => handleBatchHits hits
    | none => pure ()
    bagLiveQueueToStore .mining shutdownPendingReason
    deferAllToNextStart
    store .flush
    stopSubmitWorker

def finalizeSession : Sup Unit := do
  if ← get (·.finalized) then pure ()
  else
    set fun s ↦ { s with finalized := true }
    set fun s ↦ { s with running := false }
    set fun s ↦ { s with shuttingDown := true }
    bagLiveQueueToStore .mining shutdownPendingReason
    deferAllToNextStart
    stopSubmitWorker

/-- The end of `run`. -/
def endRun : Sup Bool := do
  gracefulShutdown
  finalizeSession
  pure false

/-- One round of the loop in `run`. -/
def miningBody : Sup Bool := do
  if ← get (·.running) then
    match ← query .round with
    | .poll =>
        let t ← query .clock
        let _ ← c.refreshNetwork false true
        c.updateMatchDrain t
        pure true
    | .hits hits =>
        handleBatchHits hits
        pure true
    | .maxSeconds => endRun
  else endRun

/-! ## Submitting -/

/-- A call that may post begins: the ghost forgets what was known before. -/
def beginCall : Sup Unit :=
  Prog.modify fun w ↦ { w with held := [w.sup.networkDifficulty] }

/-- `submitter_->submit`. -/
def submit (hit : BlockHit) : Sup SubmitResult := do
  Prog.modify fun w ↦ { w with posted := w.posted ++ [⟨hit.hashStr, w.held⟩] }
  let answer ← query (.verify hit)
  let result := SubmitResult.ofAnswer answer.1 answer.2
  if result.ok then
    Prog.modify fun w ↦ { w with accepted := w.accepted ++ [hit.hashStr] }
    pure result
  else pure result

/-- What `process_live_submit` does with the answer of the pool. -/
def settleLive (hit : BlockHit) (result : SubmitResult) : Sup Unit := do
  if result.ok then
    set (·.noteAccepted)
    if ← get (·.matchDrainActive) then
      set fun s ↦ { s with matchDrainFlushed := s.matchDrainFlushed + 1 }
    else pure ()
  else if isDifficultyMismatch result.status result.body then
    if ← get (·.shouldStore) then queueHit hit difficultyChangeReason else pure ()
  else if isPoolHold result.status result.body then queueHit hit difficultyChangeReason
  else if result.status = 0 ∨ isTransientSubmitFailure result.status result.body then
    noteSubmitTransportFailure result.status
    queueHit hit "network_down"
  else if isXuniWindowReject result.status result.body then queueHit hit outsideXuniWindowReason
  else
    let stamp ← query .stamp
    store (.recordRejection stamp hit result.status result.body "live")

/-- `process_live_submit` from the poll on. -/
def submitLive (hit : BlockHit) (hitM : Int) : Sup Unit := do
  let _ ← c.refreshNetwork false false
  if ← canSubmitHitM hitM then
    if ← verifyReadyToPush then
      let result ← submit hit
      settleLive hit result
    else if ← get (·.shouldStore) then queueHit hit "network_down"
    else pure ()
  else if ← get (·.shouldStore) then
    let allowed ← liveSubmitAllowed
    let matching ← get (·.networkMatchesHitM hitM)
    queueHit hit (if allowed = true ∧ matching = false then difficultyChangeReason
      else "network_down")
  else pure ()

def processLiveSubmit (hit : BlockHit) (kind : String) : Sup Unit := do
  beginCall
  if ← get (·.bagOnly) then queueHit hit "bag_only"
  else
    let miningM ← get (·.miningDifficulty)
    let hitM := hit.memoryCost.getD miningM
    if ← get (·.shuttingDown) then queueHit hit shutdownPendingReason
    else if kind = "XUNI" then
      let keep ← get (·.shouldStore)
      let xuniOn ← get (·.settings.xuniMiningEnabled)
      let inWindow ← inXuniSubmitWindow
      if keep = false ∧ (xuniOn = false ∨ inWindow = false) then pure ()
      else if inWindow = false then queueHit hit outsideXuniWindowReason
      else submitLive c hit hitM
    else submitLive c hit hitM

end Sup

end XNMiner
