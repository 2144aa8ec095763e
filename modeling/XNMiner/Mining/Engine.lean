import XNMiner.Config.Settings
import XNMiner.Lib.Lts
import XNMiner.Lib.Ring
import XNMiner.Mining.HashApi
import XNMiner.Mining.Phc
import XNMiner.Queue.Policy
import Mathlib.Data.List.Sort

/-!
# The CUDA engine: state

`CudaEngine` (`mining/cuda_engine.cpp`) is driven by the mining thread alone.  With one lane
`mine_batch` runs a wave itself.  With more, each lane has a worker thread that goes on hashing
the request in the mailbox of the lane and puts its results into a ring of four slots; there
`mine_batch` only changes the requests, waits for one result of each lane, and reads them.

This module has the data and the functions that run without a pause; `Mining/EngineSteps.lean`
puts them together into the steps of the mining thread and of the workers.  `replan` takes what
`plan_cuda_batch` has found, or `none` where it throws.  `done_seq`, the lane groups and what is
only displayed are left out: no result depends on them.
-/

namespace XNMiner

open Lib

def kRing : Nat := 4

def kDevFeePct : Nat := 1

/-- What `mine_batch` asks of every lane. -/
structure Proto where
  salt : String
  allowXuniBase : Bool
  xuniLanes : Int
deriving DecidableEq

/-- `lane_prefix`: the lane as four hex digits. -/
def lanePrefix (lane : Nat) : String :=
  let digits := Nat.toDigits 16 lane
  String.ofList (List.replicate (4 - digits.length) '0' ++ digits)

/-! ## The lanes -/

/-- `LaneMailbox`.  Two counters share the ring with `ring_err`.  As ghosts it has the request that
was made last, with `difficulty` and `batch_size`, which is not forgotten when the mailbox is
emptied; `epoch` counts how often that has changed, and `asks` how often a request was put in. -/
structure LaneMailbox where
  seq : Nat := 0
  difficulty : Nat := 0
  batchSize : Nat := 0
  arenaBatchSize : Nat := 0
  xuniLanes : Int := 0
  allowXuniBase : Bool := false
  salt : String := ""
  /-- `ring` and `ring_err`. -/
  ring : Ring (HashApiResult × String) kRing := .empty ({}, "")
  -- ghosts
  last : Option (Proto × Nat × Nat) := none
  epoch : Nat := 0
  asks : Nat := 0

namespace LaneMailbox

/-- The request a worker makes of its mailbox. -/
def request (box : LaneMailbox) (lane : Nat) : HashApiRequest where
  saltHex := box.salt
  keyPrefix := lanePrefix lane
  difficulty := box.difficulty
  batchSize := box.batchSize
  arenaBatchSize := box.arenaBatchSize
  allowXuni := box.allowXuniBase && decide ((lane : Int) < box.xuniLanes)

/-- `box.produced - box.consumed >= 1`: a result is unread. -/
abbrev Ready (box : LaneMailbox) : Prop := box.ring.Ready

/-- The matches in the results that are unread. -/
def unread (box : LaneMailbox) : List HashApiMatch :=
  box.ring.unread.flatMap fun entry ↦ entry.1.matches

/-- The mailbox holds another request than the one `mine_batch` makes. -/
def Changed (box : LaneMailbox) (proto : Proto) (difficulty batchSize : Nat) : Prop :=
  box.salt ≠ proto.salt ∨ box.difficulty ≠ difficulty ∨ box.batchSize ≠ batchSize ∨
    box.xuniLanes ≠ proto.xuniLanes ∨ box.allowXuniBase ≠ proto.allowXuniBase ∨ box.seq = 0

instance (box : LaneMailbox) (proto : Proto) (difficulty batchSize : Nat) :
    Decidable (box.Changed proto difficulty batchSize) :=
  inferInstanceAs (Decidable (_ ∨ _ ∨ _ ∨ _ ∨ _ ∨ _))

/-- A request goes into the mailbox, if it is another one; the results of the old one that are
unread are skipped. -/
def ask (box : LaneMailbox) (proto : Proto) (difficulty batchSize : Nat) : LaneMailbox :=
  if box.Changed proto difficulty batchSize then
    { seq := box.seq + 1
      difficulty
      batchSize
      arenaBatchSize := batchSize
      xuniLanes := proto.xuniLanes
      allowXuniBase := proto.allowXuniBase
      salt := proto.salt
      ring := box.ring.clear
      last := some (proto, difficulty, batchSize)
      epoch :=
        if box.seq = 0 ∧ box.last = some (proto, difficulty, batchSize) then box.epoch
        else box.epoch + 1
      asks := box.asks + 1 }
  else box

/-- The mailbox is emptied for another generation of workers. -/
def reset (box : LaneMailbox) : LaneMailbox where
  ring := { box.ring with produced := 0, consumed := 0 }
  last := box.last
  epoch := box.epoch
  asks := box.asks

end LaneMailbox

/-- Where a worker is in `lane_worker_loop`. -/
inductive WorkerPc
  /-- Waiting for a request that it has not seen. -/
  | waiting
  /-- At the head of the inner loop. -/
  | looping (req : HashApiRequest)
  /-- On its way into `runBatch`. -/
  | running (req : HashApiRequest)
  /-- It has a result for the ring. -/
  | publishing (req : HashApiRequest) (result : HashApiResult) (err : String)
  /-- The thread has ended. -/
  | returned

/-- A worker: its local `seen`, and as a ghost the epoch of the request it works on. -/
structure LaneWorker where
  seen : Nat := 0
  pc : WorkerPc := .waiting
  -- ghost
  epoch : Nat := 0

/-- The matches a worker has in its hands. -/
def LaneWorker.held (w : LaneWorker) : List HashApiMatch :=
  match w.pc with
  | .publishing _ result _ => result.matches
  | _ => []

/-! ## The mining thread -/

/-- A returned hit; the origin of its match is a ghost. -/
structure Found where
  hit : BlockHit
  origin : Origin

structure MineBatchResult where
  hashesDone : Int := 0
  hits : List Found := []
  hit : Option BlockHit := none

/-- What follows when all workers have returned. -/
inductive AfterJoin
  /-- The end of `ensure_lane_workers`. -/
  | ready
  /-- `mine_batch`, after `ensure_lane_workers`. -/
  | mine (proto : Proto)
  /-- `stop`. -/
  | stopped

/-- Where the mining thread is. -/
inductive MiningPc
  /-- Outside the engine. -/
  | idle
  /-- `stop_lane_workers`, joining the workers. -/
  | joining (next : AfterJoin)
  /-- `mine_batch`, waiting for a result of each lane. -/
  | waiting
  /-- `mine_batch`, in the loop over the lanes. -/
  | absorbing (lane : Nat) (out : MineBatchResult) (totalHs : Rat)
  /-- `drain_pipeline`, in the loop over the lanes. -/
  | draining (lane : Nat) (out : MineBatchResult)

/-- How the last call of `mine_batch` or `drain_pipeline` has ended. -/
inductive CallEnd
  | none
  | returned (out : MineBatchResult)
  | threw (what : String)

/-- What `plan_cuda_batch` has found, and the batch size after the thermal scale. -/
structure CudaVramPlan where
  lanes : Nat
  plannedBatchPerLane : Int
  batchPerLane : Int
  one_le_lanes : 1 ≤ lanes

structure CudaEngine where
  settings : Settings := {}
  started : Bool := false
  difficulty : Int := 1100
  /-- `lanes_`. -/
  lanes : Nat := 1
  maxLanesCap : Nat := 32
  configMaxLanes : Nat := 32
  /-- `vram_plan_->lanes`. -/
  planLanes : Option Nat := none
  plannedBatchPerLane : Int := 0
  batchPerLane : Int := 0
  /-- `lanes_impl_`. -/
  lanesImpl : List CudaHashBackend := []
  /-- `lane_workers_`. -/
  workers : List LaneWorker := []
  workersStop : Bool := false
  workerTargetLanes : Nat := 0
  mailboxes : Nat → LaneMailbox := fun _ ↦ {}
  -- XUNI
  pendingXuni : Int := 0
  batchSeq : Nat := 0
  xuniQueuePaused : Bool := false
  lastAllowXuni : Bool := false
  -- payout
  miningFee : Bool := false
  userFindsInCycle : Nat := 0
  feeFindsInCycle : Nat := 0
  activePayout : String := ""
  activeSalt : String := ""
  lastHashrate : Rat := 0
  -- control
  pc : MiningPc := .idle
  -- ghosts
  waves : Nat := 0
  hashed : List HashApiMatch := []
  returned : List Found := []
  lastCall : CallEnd := .none
  asked : Option (String × Nat) := none
  drained : Nat → Bool := fun _ ↦ false

namespace CudaEngine

/-! ## Which blocks are mined, and for whom -/

/-- `compute_allow_xuni_base`, with the clock in minute `minute`, and then in `taperMinute`. -/
def computeAllowXuniBase (s : CudaEngine) (minute taperMinute : Nat) : Bool × CudaEngine :=
  if s.settings.xuniMiningEnabled = false then (false, s)
  else if inXuniWindow minute = false then (false, { s with xuniQueuePaused := false })
  else
    let soft := max 0 s.settings.xuniQueueSoftCap
    let resume := max 0 s.settings.xuniQueueResume
    let paused :=
      if soft ≤ s.pendingXuni then true
      else if s.xuniQueuePaused = true ∧ s.pendingXuni ≤ resume then false
      else s.xuniQueuePaused
    let s := { s with xuniQueuePaused := paused }
    if paused then (false, s)
    else if s.settings.xuniMaxLanes ≤ 0 then (false, s)
    else
      let s := { s with batchSeq := s.batchSeq + 1 }
      let every := max 1 s.settings.xuniEveryNBatches
      let every := if inXuniTaperWindow taperMinute then max (every * 3) 6 else every
      (decide ((s.batchSeq : Int) % every = 0), s)

/-- The dev fee goes to the wallet that mines anyway. -/
def sameWallet (s : CudaEngine) : Bool :=
  decide (s.settings.address ≠ "") && decide (Settings.devFeeSaltHex = s.settings.saltHex)

def selectPayoutSalt (s : CudaEngine) : CudaEngine :=
  if s.settings.devFee = false ∨ s.sameWallet = true then
    { s with
      miningFee := false
      activePayout := s.settings.address
      activeSalt := s.settings.saltHex }
  else if s.miningFee then
    { s with activePayout := kDevFeeAddress, activeSalt := Settings.devFeeSaltHex }
  else { s with activePayout := s.settings.address, activeSalt := s.settings.saltHex }

/-- `stamp_and_count_hits`, with the number of hits. -/
def stampAndCountHits (s : CudaEngine) (n : Nat) : CudaEngine :=
  if n = 0 ∨ s.settings.devFee = false then s
  else if s.miningFee then
    let fee := s.feeFindsInCycle + n
    if kDevFeePct ≤ fee then
      { s with miningFee := false, userFindsInCycle := 0, feeFindsInCycle := 0 }
    else { s with feeFindsInCycle := fee }
  else
    let user := s.userFindsInCycle + n
    { s with userFindsInCycle := user, miningFee := decide (100 - kDevFeePct ≤ user) }

/-! ## From matches to hits -/

end CudaEngine

/-- The kind of block `hit_from_match` makes of a match. -/
def HashApiMatch.kind (m : HashApiMatch) : String := classifyBlock m.hash m.matchedPattern

/-- `hit_from_match` makes a hit of the match. -/
def HashApiMatch.isHit (m : HashApiMatch) : Bool := decide (m.kind ≠ "OTHER") && isHex64Key m.key

def hitRank (hit : BlockHit) : Nat :=
  if hit.blockType = "XNM" then 0
  else if hit.blockType = "XBLK" then 1
  else if hit.blockType = "XUNI" then 2
  else 3

/-- `!out.hit || hit_rank(*hit) < hit_rank(*out.hit)`. -/
def betterHit (best : Option BlockHit) (hit : BlockHit) : Option BlockHit :=
  match best with
  | none => some hit
  | some b => if hitRank hit < hitRank b then some hit else some b

/-- The order of the returned hits. -/
def hitLe (a b : Found) : Bool :=
  if hitRank a.hit ≠ hitRank b.hit then decide (hitRank a.hit < hitRank b.hit)
  else decide (a.hit.key ≤ b.hit.key)

namespace CudaEngine

/-- `hit_from_match`, with the clock at `now`. -/
def hitFromMatch (s : CudaEngine) (now : String) (m : HashApiMatch) (attempts : Nat) (hps : Rat) :
    Option BlockHit :=
  if m.kind = "OTHER" then none
  else if isHex64Key m.key = false then none
  else some {
    key := m.key
    hashStr := m.hash
    blockType := m.kind
    attempts := attempts
    strategy := s.settings.strategy
    hps := hps
    foundAt := now
    memoryCost := some s.difficulty
    payoutAccount := s.activePayout
    saltHex := s.activeSalt
    feeBlock := s.miningFee }

/-- The loop over the matches of a result. -/
def addMatches (s : CudaEngine) (now : String) (attempts : Nat) (hps : Rat) :
    List HashApiMatch → MineBatchResult → MineBatchResult
  | [], out => out
  | m :: rest, out =>
      match s.hitFromMatch now m attempts hps with
      | none => addMatches s now attempts hps rest out
      | some hit => addMatches s now attempts hps rest
          { out with
            hits := out.hits ++ [{ hit, origin := m.origin }]
            hit := betterHit out.hit hit }

section

variable {s : CudaEngine} {now : String} {attempts : Nat} {hps : Rat} {m : HashApiMatch}
  {ms : List HashApiMatch} {out : MineBatchResult}

-- whether a match makes a hit is not to be computed here
attribute [local irreducible] hitFromMatch

/-- A match that makes no hit is passed over. -/
theorem addMatches_of_none (h : s.hitFromMatch now m attempts hps = none) :
    s.addMatches now attempts hps (m :: ms) out = s.addMatches now attempts hps ms out := by
  change (match s.hitFromMatch now m attempts hps with
    | none => s.addMatches now attempts hps ms out
    | some hit => _) = _
  rw [h]

/-- A match that makes a hit is collected. -/
theorem addMatches_of_some {hit : BlockHit} (h : s.hitFromMatch now m attempts hps = some hit) :
    s.addMatches now attempts hps (m :: ms) out = s.addMatches now attempts hps ms
      { out with
        hits := out.hits ++ [{ hit, origin := m.origin }]
        hit := betterHit out.hit hit } := by
  change (match s.hitFromMatch now m attempts hps with
    | none => _
    | some hit => _) = _
  rw [h]

end

/-- The text of the exception for a result that is not `ok`. -/
def batchError (error : String) : String := if error = "" then "CUDA batch failed" else error

/-- The lambda `absorb` of `mine_batch`: it throws, or gives the result so far. -/
def absorb (s : CudaEngine) (now : String) (result : HashApiResult) (out : MineBatchResult)
    (totalHs : Rat) : Except String (MineBatchResult × Rat) :=
  if result.ok = false then .error (batchError result.error)
  else
    let totalHs := totalHs + result.hashrate
    let hps := if 0 < totalHs then totalHs else result.hashrate
    let out := { out with hashesDone := out.hashesDone + result.attempts }
    .ok (s.addMatches now result.attempts hps result.matches out, totalHs)

/-! ## The ends of a call -/

/-- The call throws: what it has collected is gone. -/
def abandon (s : CudaEngine) (what : String) : CudaEngine :=
  { s with pc := .idle, lastCall := .threw what }

/-- The call returns. -/
def returnResult (s : CudaEngine) (out : MineBatchResult) : CudaEngine :=
  { s with pc := .idle, returned := s.returned ++ out.hits, lastCall := .returned out }

/-- The end of `mine_batch`. -/
def finishMine (s : CudaEngine) (out : MineBatchResult) (totalHs : Rat) : CudaEngine :=
  let hits := out.hits.map fun f : Found ↦ { f with hit := { f.hit with hps := totalHs } }
  let out := { out with
    hits := hits.insertionSort (fun a b ↦ hitLe a b = true)
    hit := out.hit.map fun hit : BlockHit ↦ { hit with hps := totalHs } }
  (({ s with lastHashrate := totalHs }).stampAndCountHits out.hits.length).returnResult out

/-- The end of `drain_pipeline`. -/
def finishDrain (s : CudaEngine) (out : MineBatchResult) : CudaEngine :=
  let out := { out with hit := out.hit.map fun hit : BlockHit ↦ { hit with hps := s.lastHashrate } }
  (s.stampAndCountHits out.hits.length).returnResult out

end CudaEngine

end XNMiner
