import XNMiner.App.Program

/-!
# The flush of the bag

`try_flush_pending`, `service_pending_queue` and `submit_worker_loop`, which run on the submit
worker, and `persist_queue_for_restart`.

A wave posts its rows one after another, or with up to 4096 flush workers that fetch the index
of their next row from a shared counter.  The workers are programs side by side
(`Prog.interleave`).
-/

namespace XNMiner

open Lib

namespace Sup

variable (c : Calls)

/-! ## The gates -/

/-- `update_match_drain(now_s())`, except on shutdown. -/
def updateUnless (onShutdown : Bool) : Sup Unit := do
  if onShutdown then pure ()
  else
    let t ← query .clock
    c.updateMatchDrain t

/-- `!on_shutdown && !draining && !flush_submit_allowed()`. -/
def flushBlocked (onShutdown draining : Bool) : Sup Bool := do
  if onShutdown || draining then pure false
  else
    let allowed ← flushSubmitAllowed
    pure !allowed

/-- The pause after a difficulty change, in classic mode. -/
def flushDeferred (onShutdown : Bool) : Sup Bool := do
  if onShutdown then pure false
  else if ← get (·.forceMineMode) then pure false
  else
    let t ← query .clock
    get fun s ↦ decide (t < s.deferSubmitUntil)

/-- The gates after the poll: the answer is `draining`, or `none` where the call returns. -/
def regate (onShutdown : Bool) : Sup (Option Bool) := do
  updateUnless c onShutdown
  let draining ← isDraining
  let blocked ← flushBlocked onShutdown draining
  pure (if blocked then none else some draining)

/-- The poll of a call that is not draining. -/
def pollGate (onShutdown : Bool) : Sup (Option Bool) := do
  let refreshed ← c.refreshNetwork onShutdown false
  if refreshed then regate c onShutdown
  else if onShutdown then
    deferAllToNextStart
    pure none
  else if ← flushSubmitAllowed then
    let bagM ← get (·.bagTargetM)
    let matching ← get (·.networkMatchesHitM bagM)
    if matching then regate c onShutdown else pure none
  else pure none

/-- The gates of `try_flush_pending`: the answer is `draining`, or `none` where the call
returns. -/
def flushGates (onShutdown : Bool) : Sup (Option Bool) := do
  if ← get (·.bagOnly) then pure none
  else if ← verifyReadyToPush then
    updateUnless c onShutdown
    let draining ← isDraining
    let blocked ← flushBlocked onShutdown draining
    if blocked then pure none
    else
      let deferred ← flushDeferred onShutdown
      if deferred then pure none
      else if draining then pure (some true)
      else pollGate c onShutdown
  else pure none

/-! ## The work list -/

/-- `net_m`. -/
def flushTarget (draining : Bool) : Sup Int := do
  let netM ← submitTargetM
  if draining then
    let bag ← get (·.bagTargetM)
    pure (if 0 < bag then bag else netM)
  else pure netM

/-- The selection loop.  It reads `bag_target_m()` for every row, but uses it only while
draining. -/
def selectRows (settings : Settings) (onShutdown draining : Bool) (netM wave : Int) :
    List PendingBlock → List WorkItem → Sup (List WorkItem)
  | [], work => pure work
  | pb :: rest, work => do
      let minute ← query .minute
      let miningM ← get (·.miningDifficulty)
      let bagM ← get (·.bagTargetM)
      match chooseRow settings draining netM (readyToFlush minute pb.hit.blockType).1 miningM bagM
          pb with
      | .skip => selectRows settings onShutdown draining netM wave rest work
      | .drop =>
          store (.markSubmitted pb.id)
          selectRows settings onShutdown draining netM wave rest work
      | .take hit =>
          let work := work ++ [{ id := pb.id, hit }]
          if waveFull onShutdown wave work then pure work
          else selectRows settings onShutdown draining netM wave rest work

/-! ## The wave -/

def handleOne (draining : Bool) (item : WorkItem) (result : SubmitResult) : Sup Unit := do
  if result.ok then
    setWave fun v ↦ { v with acceptedIds := v.acceptedIds ++ [item.id] }
    setWave fun v ↦ { v with flushed := v.flushed + 1 }
    if draining then
      set fun s ↦ { s with matchDrainFlushed := s.matchDrainFlushed + 1 }
      set fun s ↦ { s with matchDrainCleared := s.matchDrainCleared + 1 }
      set (·.noteAccepted)
    else set (·.noteAccepted)
  else if result.status = 0 ∨ isTransientSubmitFailure result.status result.body then
    setWave fun v ↦ { v with transients := v.transients + 1 }
  else if isPoolHold result.status result.body ∨ isDifficultyMismatch result.status result.body ∨
      isXuniWindowReject result.status result.body then
    setWave fun v ↦ { v with holds := v.holds + 1 }
  else
    let stamp ← query .stamp
    set fun s ↦ { s with
      store := s.store.logRejection stamp item.hit result.status result.body "flush" }
    store (.markPendingReason item.id "resubmission")

/-- The loop that posts the rows one after another. -/
def postAll (onShutdown draining : Bool) : List WorkItem → Sup Unit
  | [] => pure ()
  | item :: rest => do
      let stopping ← get (·.shuttingDown)
      if stopping = true ∧ onShutdown = false then pure ()
      else
        let result ← submit item.hit
        handleOne draining item result
        postAll onShutdown draining rest

/-- `next.fetch_add(1)`. -/
def fetchNext : Sup Nat :=
  Prog.atomically fun w ↦ (w.wave.next, { w with wave := { w.wave with next := w.wave.next + 1 } })

/-- A flush worker, for at most `fuel` rounds.  A worker of a wave of `n` rows needs at most
`n + 1`, because each round takes another index. -/
def flushWorker (draining : Bool) (work : List WorkItem) : Nat → Sup Unit
  | 0 => pure ()
  | fuel + 1 => do
      if ← get (·.shuttingDown) then pure ()
      else
        let i ← fetchNext
        match work[i]? with
        | none => pure ()
        | some item =>
            let result ← submit item.hit
            handleOne draining item result
            flushWorker draining work fuel

/-- Post the whole wave: one after another, or with the workers that could be started. -/
def postWave (onShutdown draining : Bool) (parallel : Int) (work : List WorkItem) : Sup Unit := do
  setWave fun _ ↦ {}
  if onShutdown = true ∨ parallel ≤ 1 then postAll onShutdown draining work
  else
    let wanted := min parallel.toNat work.length
    let started ← query (.spawn wanted)
    if min started wanted = 0 then postAll onShutdown draining work
    else
      Prog.interleaveAll (A := Answer) .turn (fun first : Bool ↦ first)
        (List.replicate (min started wanted) (flushWorker draining work (work.length + 1)))

/-- The end of `try_flush_pending`: accepted rows leave the bag, and a wave with no accept makes
the next one start behind its last row. -/
def settleWave (onShutdown draining : Bool) (lastId : Int) : Sup Nat := do
  let ids ← Prog.atomically fun w ↦
    (w.wave.acceptedIds, { w with wave := { w.wave with acceptedIds := [] } })
  if ids = [] then pure () else store (.markSubmittedMany ids)
  let v ← Prog.read (·.wave)
  if v.flushed = 0 ∧ onShutdown = false ∧ (0 < v.holds ∨ 0 < v.transients) then
    let t ← query .clock
    set (·.noteZeroAccepts draining t lastId)
    pure v.flushed
  else pure v.flushed

/-- `try_flush_pending` after its gates. -/
def flushBag (onShutdown draining : Bool) : Sup Nat := do
  let netM ← flushTarget draining
  if netM ≤ 0 then pure 0
  else
    let bagQ ← get (·.store.pendingCount)
    let settings ← get (·.settings)
    let cap ← get (·.flushHttpCap)
    let wave := waveLimit settings onShutdown draining
    let parallel := if onShutdown then 1
      else if draining then Supervisor.bruteDrainParallel cap settings.matchDrainParallel bagQ
      else 4
    let bagM ← get (·.bagTargetM)
    let skip ← get (·.flushSkipBeforeId)
    let minute ← query .minute
    let pending ← get (·.store.listFlushBatch minute netM bagM (fetchLimit onShutdown wave) skip)
    match pending.getLast? with
    | none => pure 0
    | some lastRow =>
        let work ← selectRows settings onShutdown draining netM wave pending []
        match work.getLast? with
        | none =>
            set fun s ↦ { s with flushSkipBeforeId := lastRow.id + 1 }
            pure 0
        | some lastItem =>
            postWave onShutdown draining parallel work
            settleWave onShutdown draining lastItem.id

def tryFlushPending (onShutdown : Bool) : Sup Nat := do
  beginCall
  match ← flushGates c onShutdown with
  | none => pure 0
  | some draining => flushBag onShutdown draining

/-! ## The submit worker -/

/-- The rows of a kind, `pending_by_type()[kind]`. -/
def pendingOfKind (kind : String) (s : Supervisor) : Nat :=
  s.store.pending.countP fun pb ↦ decide (pb.hit.blockType = kind)

/-- `flush_every`, the pause between two flushes. -/
def flushEvery (pendingTotal : Nat) (draining taper : Bool) (pendingXuni : Nat) : Rat :=
  let every : Rat := if 500 < pendingTotal then 1 else if 50 < pendingTotal then 2 else 5
  let every : Rat := if draining then 0 else every
  if taper = true ∧ 0 < pendingXuni then min every (1 / 4) else every

/-- The flush when the submit window for XUNI opens. -/
def openXuniWindow (now : Rat) (submitWin : Bool) (pendingXuni : Nat) : Sup Unit := do
  let was ← get (·.wasInXuniWindow)
  if submitWin = true ∧ was = false then
    set fun s ↦ { s with wasInXuniWindow := true }
    if 0 < pendingXuni then
      let _ ← tryFlushPending c false
      set fun s ↦ { s with lastXuniFlush := now, lastQueueFlush := now }
    else pure ()
  else if submitWin = false then set fun s ↦ { s with wasInXuniWindow := false }
  else pure ()

def servicePendingQueue (now : Rat) : Sup Unit := do
  let minute ← query .minute
  let submitWin := XNMiner.inXuniSubmitWindow minute
  let minute' ← query .minute
  let taper := inXuniTaperWindow minute'
  let pendingXuni ← get (pendingOfKind "XUNI")
  let pendingTotal ← get (·.store.pendingCount)
  openXuniWindow c now submitWin pendingXuni
  let draining ← isDraining
  let lastQueueFlush ← get (·.lastQueueFlush)
  if flushEvery pendingTotal draining taper pendingXuni ≤ now - lastQueueFlush then
    let _ ← tryFlushPending c false
    set fun s ↦ { s with lastQueueFlush := now }
  else if submitWin = true ∧ 0 < pendingXuni then
    let lastXuniFlush ← get (·.lastXuniFlush)
    if (if taper then 1 / 2 else 2 : Rat) ≤ now - lastXuniFlush then
      let _ ← tryFlushPending c false
      set fun s ↦ { s with lastXuniFlush := now }
    else pure ()
  else pure ()

/-- `process_live_submit` on the whole batch. -/
def processBatch : List LiveSubmitJob → Sup Unit
  | [] => pure ()
  | job :: rest => do
      processLiveSubmit c job.hit job.kind
      processBatch rest

/-- The batch while the pool does not answer. -/
def queueBatchDown : List LiveSubmitJob → Sup Unit
  | [] => pure ()
  | job :: rest => do
      if ← get (·.shouldStore) then
        queueHit job.hit "network_down"
        queueBatchDown rest
      else queueBatchDown rest

/-- `refresh_network` and `update_match_drain` at the start of a round. -/
def submitPoll : Sup Unit := do
  if ← get (·.shuttingDown) then pure ()
  else if ← get (·.bagOnly) then pure ()
  else
    let _ ← c.refreshNetwork false false
    let t ← query .clock
    c.updateMatchDrain t

/-- `service_pending_queue(now_s())`. -/
def serviceNow : Sup Unit := do
  let t ← query .clock
  servicePendingQueue c t

/-- A batch outside shutdown and match window. -/
def liveBatch (batch : List LiveSubmitJob) : Sup Unit := do
  if batch = [] then pure ()
  else
    let ready ← verifyReadyToPush
    if ready then processBatch c batch else queueBatchDown batch

/-- What a round of the worker does with its batch. -/
def submitBatch (batch : List LiveSubmitJob) : Sup Unit := do
  if ← get (·.shuttingDown) then queueAll shutdownPendingReason batch
  else if ← get (·.bagOnly) then queueAll "bag_only" batch
  else if ← get (·.matchDrainActive) then
    queueAll matchWindowNewReason batch
    serviceNow c
  else
    liveBatch c batch
    serviceNow c

/-- The last flush of the worker. -/
def lastFlush : Sup Unit := do
  if ← get (·.bagOnly) then pure ()
  else
    let stopping ← get (·.shuttingDown)
    if stopping then
      if ← liveSubmitAllowed then
        let _ ← tryFlushPending c true
      else pure ()
    else
      let _ ← tryFlushPending c true

/-- One round of `submit_worker_loop`. -/
def submitBody : Sup Bool := do
  let batch ← swapLiveQueue .submit
  submitPoll c
  submitBatch c batch
  finishBatch .submit
  if ← get (·.submitWorkerRunning) then pure true
  else
    bagLiveQueueToStore .submit shutdownPendingReason
    deferAllToNextStart
    lastFlush c
    Prog.modify fun w ↦ { w with workerDone := true }
    pure false

/-! ## The console handler -/

/-- `persist_queue_for_restart`. -/
def consoleBody : Sup Bool := do
  set fun s ↦ { s with shuttingDown := true }
  set fun s ↦ { s with running := false }
  set fun s ↦ { s with submitWorkerRunning := false }
  bagLiveQueueToStore .console shutdownPendingReason
  deferAllToNextStart
  pure true

/-- What each thread does over and over. -/
def body : Thread → Sup Bool
  | .mining => miningBody c
  | .submit => submitBody c
  | .console => consoleBody

end Sup

end XNMiner
