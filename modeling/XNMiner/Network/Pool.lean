import XNMiner.Common

/-!
# What the pool answers

`network/submitter.cpp` sorts the answers to `POST /verify` into overlapping classes by status
and by words in the body; `network/difficulty.cpp` bounds the number `GET /difficulty` gives.
Status `0` is a request that got no answer.
-/

namespace XNMiner

def submitAccepted (status : Int) (body : String) : Bool :=
  decide (200 ≤ status ∧ status < 300) || hasSubstr (lower body) "already exists"

/-- `is_difficulty_mismatch`: the pool wants another `m=`. -/
def isDifficultyMismatch (status : Int) (body : String) : Bool :=
  let l := lower body
  if status = 0 then false
  else if hasSubstr l "hash does not contain 'm=" then true
  else if hasSubstr l "does not contain" && hasSubstr l "m=" then true
  else hasSubstr l "memory_cost" && hasSubstr l "does not contain"

def isXuniWindowReject (status : Int) (body : String) : Bool :=
  let l := lower body
  if status = 0 then false
  else hasSubstr l "outside of time window" || hasSubstr l "outside of proper time frame" ||
    hasSubstr l "time frame" || hasSubstr l "time window"

def isTransientSubmitFailure (status : Int) (body : String) : Bool :=
  let l := lower body
  if status = 0 then true
  else hasSubstr l "timed out" || hasSubstr l "timeout" || hasSubstr l "connection"

def isPoolHold (status : Int) (body : String) : Bool :=
  if isDifficultyMismatch status body then false
  else if status = 401 ∨ status = 403 ∨ status = 429 then true
  else hasSubstr (lower body) "hash verification failed"

def countsAsReject (status : Int) (body : String) : Bool :=
  !submitAccepted status body && !isDifficultyMismatch status body &&
    !isXuniWindowReject status body && !isTransientSubmitFailure status body &&
    !isPoolHold status body

/-- The result `Submitter::submit` makes of an answer. -/
def SubmitResult.ofAnswer (status : Int) (body : String) : SubmitResult :=
  { ok := submitAccepted status body, status, body }

/-- `accept_network_difficulty`: a number out of range is replaced by the fallback. -/
def acceptNetworkDifficulty (raw fallback : Int) : Int :=
  if raw ≤ 0 then if 0 < fallback then fallback else 1100
  else if 10000000 < raw then if 0 < fallback then fallback else 1100
  else raw

/-- An accepted difficulty is positive. -/
theorem acceptNetworkDifficulty_pos (raw fallback : Int) :
    0 < acceptNetworkDifficulty raw fallback := by
  unfold acceptNetworkDifficulty
  split
  · split <;> omega
  · split
    · split <;> omega
    · omega

end XNMiner
