import XNMiner.Common

/-!
# One lane of the GPU

`CudaHashBackend` (`vendor/hashapi/CudaHashBackend.cpp`) hashes a wave of keys for a
`HashApiRequest`.  It works one wave ahead of its answers: `runBatch` hashes the wave it was
asked for, keeps a snapshot of its outputs in `pending_`, and answers with the matches of the
snapshot it had kept before.  `drainPipeline` answers with the snapshot that is kept.

What the GPU finds is an `Outcome`, chosen by the environment.  Timings, device numbers and the
fields of a request that are the same for every wave are left out.

A match carries a ghost, its `Origin`: the wave in which its key was really hashed.
-/

namespace XNMiner

/-- What a wave is hashed with. -/
structure HashApiRequest where
  saltHex : String := ""
  keyPrefix : String := ""
  difficulty : Nat := 0
  batchSize : Nat := 0
  arenaBatchSize : Nat := 0
  allowXuni : Bool := false
deriving DecidableEq

/-- Where a match comes from: the lane, the wave (counted over all lanes), its place among the
matches of the wave, and the request of the wave.  `epoch` counts how often the request of the
lane had changed when the wave was asked for. -/
structure Origin where
  lane : Nat
  wave : Nat
  pos : Nat := 0
  epoch : Nat
  req : HashApiRequest
deriving DecidableEq

structure HashApiMatch where
  key : String
  hash : String
  matchedPattern : String
  -- ghost
  origin : Origin
deriving DecidableEq

structure HashApiResult where
  ok : Bool := false
  error : String := ""
  attempts : Nat := 0
  hashrate : Rat := 0
  «matches» : List HashApiMatch := []

/-- What becomes of a `runBatch`. -/
inductive Outcome
  /-- The wave was hashed; these keys, hashes and patterns will match. -/
  | hashed (found : List (String × String × String)) (hashrate : Rat)
  /-- The wave was hashed, but its snapshot is not usable. -/
  | unready (hashrate : Rat)
  /-- An exception that `runBatch` catches. -/
  | failed (error : String)
  /-- The request is not valid. -/
  | refused (error : String)
  /-- An exception that leaves `runBatch`. -/
  | threw (what : String)

/-- `PipelinedBatch`: the snapshot of a wave, as the matches that finalizing it finds. -/
structure PipelinedBatch where
  attempts : Nat
  «matches» : List HashApiMatch

structure CudaHashBackend where
  pending : Option PipelinedBatch := none

namespace CudaHashBackend

/-- The matches of the snapshot that is kept. -/
def buffered (b : CudaHashBackend) : List HashApiMatch :=
  match b.pending with
  | none => []
  | some slot => slot.matches

end CudaHashBackend

/-- The matches of a wave, with where they come from. -/
def waveMatches (origin : Origin) (found : List (String × String × String)) : List HashApiMatch :=
  found.mapIdx fun pos (key, hash, matchedPattern) ↦
    { key, hash, matchedPattern, origin := { origin with pos } }

/-- The matches of the wave that a `runBatch` with this outcome hashes. -/
def Outcome.found (outcome : Outcome) (origin : Origin) : List HashApiMatch :=
  match outcome with
  | .hashed found _ => waveMatches origin found
  | _ => []

namespace CudaHashBackend

/-- `runBatch`, for a full wave: the answer, or what an exception says; and the backend after
it.  A caught exception drops the snapshot. -/
def runBatch (b : CudaHashBackend) (req : HashApiRequest) (origin : Origin) (outcome : Outcome) :
    Except String HashApiResult × CudaHashBackend :=
  match outcome with
  | .hashed _ hashrate =>
      (.ok { ok := true, attempts := req.batchSize, hashrate, «matches» := b.buffered },
        { pending := some { attempts := req.batchSize, «matches» := outcome.found origin } })
  | .unready hashrate =>
      (.ok { ok := true, attempts := req.batchSize, hashrate, «matches» := b.buffered },
        { pending := none })
  | .failed error => (.ok { error }, { pending := none })
  | .refused error => (.ok { error }, b)
  | .threw what => (.error what, b)

def drainPipeline (b : CudaHashBackend) : HashApiResult × CudaHashBackend :=
  match b.pending with
  | none => ({ ok := true }, b)
  | some slot => ({ ok := true, attempts := slot.attempts, «matches» := slot.matches }, {})

/-- Draining gives the matches of the snapshot, and leaves none. -/
theorem drainPipeline_spec (b : CudaHashBackend) :
    b.drainPipeline.1.ok = true ∧ b.drainPipeline.1.matches = b.buffered ∧
      b.drainPipeline.2.buffered = [] := by
  unfold drainPipeline buffered
  cases hb : b.pending with
  | none => exact ⟨rfl, rfl, by simp [hb]⟩
  | some slot => exact ⟨rfl, rfl, rfl⟩

end CudaHashBackend

end XNMiner
