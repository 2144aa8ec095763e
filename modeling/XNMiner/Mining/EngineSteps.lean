import XNMiner.Mining.Engine

/-!
# The CUDA engine: steps

One step is what a thread does between two points where another thread can be noticed: a
critical section of `worker_mu_`, a `runBatch` or `drainPipeline` under the mutex of its lane, or
one access to a ring.  `CudaEngine.step s act` is the state after that step, or `none` where the
thread has to wait.

The source frees a lane while its worker may still be in `runBatch`, when a new plan has fewer
lanes; what happens then is undefined.  Here the worker gets an error.
-/

namespace XNMiner

open Lib

namespace CudaEngine

/-! ## Lanes and workers -/

def syncLanes (s : CudaEngine) : CudaEngine :=
  { s with
    lanesImpl := s.lanesImpl.take s.lanes ++ List.replicate (s.lanes - s.lanesImpl.length) {} }

/-- `replan`, after `plan_cuda_batch` has found a plan. -/
def replan (s : CudaEngine) (m : Int) (plan : CudaVramPlan) : CudaEngine :=
  let s := { s with
    difficulty := m
    planLanes := some plan.lanes
    lanes := plan.lanes
    plannedBatchPerLane := plan.plannedBatchPerLane
    batchPerLane := plan.batchPerLane }
  if s.started then s.syncLanes else s

/-- The loop of `mine_batch` that changes the requests. -/
def publish (s : CudaEngine) (proto : Proto) : CudaEngine :=
  { s with
    mailboxes := fun i ↦
      if i < s.lanes then
        (s.mailboxes i).ask proto (toUint32 s.difficulty) s.batchPerLane.toNat
      else s.mailboxes i
    pc := .waiting
    asked := some (proto.salt, toUint32 s.difficulty)
    drained := fun _ ↦ false }

/-- What follows when the workers are as they should be.  The requests end with the lanes. -/
def resume (s : CudaEngine) : AfterJoin → CudaEngine
  | .ready => { s with pc := .idle }
  | .mine proto => s.publish proto
  | .stopped => { s with
      lanesImpl := []
      started := false
      planLanes := none
      mailboxes := fun i ↦ { s.mailboxes i with epoch := (s.mailboxes i).epoch + 1 }
      pc := .idle }

/-- `stop_lane_workers`, up to the joins. -/
def stopLaneWorkers (s : CudaEngine) (next : AfterJoin) : CudaEngine :=
  { s with workersStop := true, pc := .joining next }

/-- `ensure_lane_workers`, up to the joins where there are any. -/
def ensureLaneWorkers (s : CudaEngine) (next : AfterJoin) : CudaEngine :=
  if s.lanes ≤ 1 then
    if s.workers.isEmpty then s.resume next else s.stopLaneWorkers next
  else if s.workers.length = s.lanes ∧ s.workerTargetLanes = s.lanes then s.resume next
  else s.stopLaneWorkers next

/-- The end of `ensure_lane_workers`, with more than one lane: new workers. -/
def respawn (s : CudaEngine) : CudaEngine :=
  { s with
    workerTargetLanes := s.lanes
    mailboxes := fun i ↦ (s.mailboxes i).reset
    workers := List.replicate s.lanes {} }

/-- The joins are over. -/
def joined (s : CudaEngine) (next : AfterJoin) : CudaEngine :=
  let s := { s with workers := [], workerTargetLanes := 0, workersStop := false }
  match next with
  | .stopped => s.resume .stopped
  | next => if s.lanes ≤ 1 then s.resume next else s.respawn.resume next

/-! ## The calls of the mining thread -/

/-- `start`, on a device with room for `configLanes` lanes. -/
def start (s : CudaEngine) (configLanes : Nat) (plan : Option CudaVramPlan) : CudaEngine :=
  if s.started then s
  else
    let s := { s with configMaxLanes := max 1 configLanes, maxLanesCap := max 1 configLanes }
    match plan with
    | none => s
    | some plan =>
        -- the order of the last two does not matter: nobody else reads `started_`
        ({ (s.replan s.difficulty plan).syncLanes with started := true }).ensureLaneWorkers .ready

/-- `set_difficulty`.  Without a plan `replan` throws, but the difficulty has been set. -/
def setDifficulty (s : CudaEngine) (m : Int) (plan : Option CudaVramPlan) : CudaEngine :=
  if m = s.difficulty ∧ s.started = true then s
  else if s.started then
    match plan with
    | none => { s with difficulty := m }
    | some plan => (s.replan m plan).ensureLaneWorkers .ready
  else { s with difficulty := m }

/-- `ensure_lane_workers` of an engine that runs. -/
def ensureIfStarted (s : CudaEngine) : CudaEngine :=
  if s.started then s.ensureLaneWorkers .ready else s

def reduceLaneCap (s : CudaEngine) : CudaEngine :=
  let cap := max 1 (s.maxLanesCap - 1)
  ({ s with maxLanesCap := cap, lanes := min s.lanes cap }).ensureIfStarted

def addLaneCap (s : CudaEngine) : CudaEngine :=
  if s.configMaxLanes ≤ s.maxLanesCap then s
  else
    let cap := s.maxLanesCap + 1
    let lanes := min (max s.lanes cap) s.configMaxLanes
    let lanes := match s.planLanes with
      | some planLanes => if 0 < planLanes then min lanes planLanes else lanes
      | none => lanes
    ({ s with maxLanesCap := cap, lanes := min lanes cap }).ensureIfStarted

/-- The wave of the only lane. -/
def mineOneLane (s : CudaEngine) (proto : Proto) (now : String) (outcome : Outcome) :
    CudaEngine :=
  match s.lanesImpl with
  | [] => s
  | lane :: rest =>
      let req : HashApiRequest := {
        saltHex := proto.salt
        keyPrefix := lanePrefix 0
        difficulty := toUint32 s.difficulty
        batchSize := s.batchPerLane.toNat
        arenaBatchSize := (max s.plannedBatchPerLane s.batchPerLane).toNat
        allowXuni := proto.allowXuniBase && decide (0 < proto.xuniLanes) }
      let origin : Origin := { lane := 0, wave := s.waves, epoch := (s.mailboxes 0).epoch, req }
      let (answer, lane) := lane.runBatch req origin outcome
      let s := { s with
        lanesImpl := lane :: rest
        waves := s.waves + 1
        hashed := s.hashed ++ outcome.found origin
        asked := some (proto.salt, toUint32 s.difficulty)
        drained := fun _ ↦ false }
      match answer with
      | .error what => s.abandon what
      | .ok result =>
          match s.absorb now result {} 0 with
          | .error what => s.abandon what
          | .ok (out, totalHs) => s.finishMine out totalHs

/-- The salt and the XUNI settings of a `mine_batch`, with the clock in the three minutes in
which it is read. -/
def protoOf (s : CudaEngine) (minutes : Nat × Nat × Nat) : Proto × CudaEngine :=
  let (allowXuniBase, s) := s.computeAllowXuniBase minutes.1 minutes.2.1
  let xuniLanes := max 0 s.settings.xuniMaxLanes
  let s := ({ s with lastAllowXuni := allowXuniBase }).selectPayoutSalt
  ({ salt := if s.activeSalt = "" then s.settings.saltHex else s.activeSalt
     allowXuniBase
     xuniLanes := if allowXuniBase = true ∧ inXuniTaperWindow minutes.2.2 = true
       then min xuniLanes 1 else xuniLanes }, s)

/-- `mine_batch`, up to where it waits for the lanes. -/
def mineBatch (s : CudaEngine) (minutes : Nat × Nat × Nat) (now : String) (outcome : Outcome) :
    CudaEngine :=
  if s.started = false ∨ s.batchPerLane ≤ 0 ∨ s.lanesImpl = [] then s.returnResult {}
  else
    let (proto, s) := s.protoOf minutes
    if s.lanes = 1 then s.mineOneLane proto now outcome else s.ensureLaneWorkers (.mine proto)

/-- One round of the loop over the lanes: read the oldest result of the lane. -/
def absorbLane (s : CudaEngine) (now : String) (lane : Nat) (out : MineBatchResult)
    (totalHs : Rat) : CudaEngine :=
  let box := s.mailboxes lane
  let (result, err) := box.ring.oldest
  if err ≠ "" then s.abandon err
  else
    match s.absorb now result out totalHs with
    | .error what => s.abandon what
    | .ok (out, totalHs) =>
        { s with
          mailboxes := Function.update s.mailboxes lane { box with ring := box.ring.pop }
          pc := .absorbing (lane + 1) out totalHs }

/-- One round of the loop of `drain_pipeline`, which is over after the last lane. -/
def drainLane (s : CudaEngine) (now : String) (lane : Nat) (out : MineBatchResult) : CudaEngine :=
  match s.lanesImpl[lane]? with
  | none => s.finishDrain out
  | some backend =>
      let (result, backend) := backend.drainPipeline
      let s := { s with
        lanesImpl := s.lanesImpl.set lane backend
        drained := Function.update s.drained lane true }
      if result.ok = false ∧ result.error ≠ "" then { s with pc := .draining (lane + 1) out }
      else
        let out := { out with hashesDone := out.hashesDone + result.attempts }
        let out := s.addMatches now result.attempts s.lastHashrate result.matches out
        { s with pc := .draining (lane + 1) out }

/-- The mining thread goes on with the call it is in. -/
def proceed (s : CudaEngine) (now : String) : Option CudaEngine :=
  match s.pc with
  | .idle => none
  | .joining next =>
      if s.workers.all fun w ↦ match w.pc with
          | .returned => true
          | _ => false then
        some (s.joined next)
      else none
  | .waiting =>
      if ∀ i < s.lanes, (s.mailboxes i).Ready then some { s with pc := .absorbing 0 {} 0 }
      else none
  | .absorbing lane out totalHs =>
      some (if lane < s.lanes then s.absorbLane now lane out totalHs else s.finishMine out totalHs)
  | .draining lane out => some (s.drainLane now lane out)

/-! ## The workers -/

def setWorker (s : CudaEngine) (i : Nat) (w : LaneWorker) : CudaEngine :=
  { s with workers := s.workers.set i w }

/-- A worker that waits: it ends, or takes the request of its mailbox. -/
def workerWaiting (s : CudaEngine) (i : Nat) (w : LaneWorker) : Option CudaEngine :=
  let box := s.mailboxes i
  if s.workersStop then some (s.setWorker i { w with pc := .returned })
  else if box.seq = w.seen then none
  else
    let w := { w with seen := box.seq, epoch := box.epoch }
    let req := box.request i
    if req.batchSize = 0 ∨ req.difficulty = 0 ∨ req.saltHex = "" then some (s.setWorker i w)
    else if s.lanesImpl.length ≤ i then some (s.setWorker i w)
    else some (s.setWorker i { w with pc := .looping req })

/-- The head of the inner loop: it waits while the ring is full. -/
def workerLooping (s : CudaEngine) (i : Nat) (w : LaneWorker) (req : HashApiRequest) :
    Option CudaEngine :=
  let box := s.mailboxes i
  if s.workersStop = true ∨ box.seq ≠ w.seen then some (s.setWorker i { w with pc := .waiting })
  else if box.ring.HasRoom then some (s.setWorker i { w with pc := .running req })
  else none

/-- `runBatch`, under the mutex of the lane. -/
def workerRunning (s : CudaEngine) (i : Nat) (w : LaneWorker) (req : HashApiRequest)
    (outcome : Outcome) : CudaEngine :=
  match s.lanesImpl[i]? with
  | none => s.setWorker i { w with pc := .publishing req {} "lane worker failed" }
  | some backend =>
      let origin : Origin := { lane := i, wave := s.waves, epoch := w.epoch, req }
      let (answer, backend) := backend.runBatch req origin outcome
      let (result, err) := match answer with
        | .ok result => (result, "")
        | .error what => ({}, what)
      ({ s with
        lanesImpl := s.lanesImpl.set i backend
        waves := s.waves + 1
        hashed := s.hashed ++ outcome.found origin }).setWorker i
        { w with pc := .publishing req result err }

/-- The result goes into the ring. -/
def workerPublishing (s : CudaEngine) (i : Nat) (w : LaneWorker) (req : HashApiRequest)
    (result : HashApiResult) (err : String) : CudaEngine :=
  let box := s.mailboxes i
  ({ s with
    mailboxes := Function.update s.mailboxes i { box with ring := box.ring.push (result, err) } }
    : CudaEngine).setWorker i { w with pc := .looping req }

/-- One step of `lane_worker_loop`. -/
def workerStep (s : CudaEngine) (i : Nat) (outcome : Outcome) : Option CudaEngine :=
  match s.workers[i]? with
  | none => none
  | some w => match w.pc with
      | .waiting => s.workerWaiting i w
      | .looping req => s.workerLooping i w req
      | .running req => some (s.workerRunning i w req outcome)
      | .publishing req result err => some (s.workerPublishing i w req result err)
      | .returned => none

/-! ## The system -/

/-- What can happen next. -/
inductive Act
  | start (configLanes : Nat) (plan : Option CudaVramPlan)
  | stop
  | setDifficulty (m : Int) (plan : Option CudaVramPlan)
  /-- `restore_lane_cap_if_cool`, on a GPU that is cool. -/
  | restoreLaneCap (plan : Option CudaVramPlan)
  | reduceLaneCap
  | addLaneCap
  /-- The thermal control has changed `batch_per_lane_`. -/
  | setBatch (batch : Int)
  | setQueueCounts (pendingXuni : Int)
  | mineBatch (minutes : Nat × Nat × Nat) (now : String) (outcome : Outcome)
  | drainPipeline
  /-- The mining thread goes on. -/
  | proceed (now : String)
  /-- The worker of the lane goes on. -/
  | worker (lane : Nat) (outcome : Outcome)

/-- A call of the mining thread begins. -/
def call (s : CudaEngine) : Act → CudaEngine
  | .start configLanes plan => s.start configLanes plan
  | .stop => s.stopLaneWorkers .stopped
  | .setDifficulty m plan => s.setDifficulty m plan
  | .restoreLaneCap plan =>
      if s.configMaxLanes ≤ s.maxLanesCap then s
      else
        let s := { s with maxLanesCap := s.configMaxLanes }
        if s.started then
          match plan with
          | none => s
          | some plan => (s.replan s.difficulty plan).ensureLaneWorkers .ready
        else s
  | .reduceLaneCap => s.reduceLaneCap
  | .addLaneCap => s.addLaneCap
  | .setBatch batch => { s with batchPerLane := batch }
  | .setQueueCounts pendingXuni => { s with pendingXuni := max 0 pendingXuni }
  | .mineBatch minutes now outcome => s.mineBatch minutes now outcome
  | .drainPipeline =>
      if s.started = false ∨ s.lanesImpl = [] then s.returnResult {}
      else { s with pc := .draining 0 {} }
  | .proceed _ | .worker .. => s

/-- One step of the engine. -/
def step (s : CudaEngine) : Act → Option CudaEngine
  | .worker lane outcome => s.workerStep lane outcome
  | .proceed now => s.proceed now
  | act => match s.pc with
      | .idle => some (s.call act)
      | _ => none

/-- The constructor, where the settings allow `maxLanes` lanes. -/
def create (settings : Settings) (maxLanes : Nat) : CudaEngine where
  settings
  difficulty := settings.memoryCost
  maxLanesCap := maxLanes
  configMaxLanes := maxLanes

/-- The steps of the engine. -/
def Step (s : CudaEngine) (act : Act) (t : CudaEngine) : Prop := s.step act = some t

end CudaEngine

end XNMiner
