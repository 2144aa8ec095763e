import XNMiner.Common

/-!
# Settings

The fields of `Settings` (`config/settings.hpp`) that the modelled parts read, with the defaults
of the source.  They do not change while the miner runs.  `load_settings` raises a smaller
`match_drain_min_queue` to `1`, so the record carries that bound.
-/

namespace XNMiner

def kDevFeeAddress : String := "0x739f7feC65196EE6351072fEFc5d319EF62FB831"

structure Settings where
  address : String := ""
  strategy : String := "random"
  /-- 99 blocks to the user, the 100th to `kDevFeeAddress`. -/
  devFee : Bool := true
  networkDownPollIntervalS : Int := 1
  memoryCost : Int := 1100
  timeCost : Int := 1
  parallelism : Int := 1
  /-- If positive, the cost CUDA always mines at; `0` follows the network. -/
  forceMineMemoryCost : Int := 0
  submitEnabled : Bool := true
  storeBlocks : Bool := false
  matchDrainEnabled : Bool := true
  matchDrainMinQueue : Int := 1
  /-- Longest flush window in seconds; `0` is no limit. -/
  matchDrainMaxS : Int := 0
  matchDrainParallel : Int := 512
  matchDrainBatch : Int := 512
  xuniMiningEnabled : Bool := true
  xuniQueueSoftCap : Int := 100
  xuniQueueResume : Int := 40
  xuniEveryNBatches : Int := 3
  xuniMaxLanes : Int := 2
  sampleIntervalS : Int := 5
  one_le_matchDrainMinQueue : 1 ≤ matchDrainMinQueue := by decide
deriving DecidableEq

namespace Settings

/-- The settings of a fresh install. -/
def defaults : Settings := {}

def saltHexFromAddress (addr : String) : String :=
  match addr.toList with
  | '0' :: x :: c :: rest => if x = 'x' ∨ x = 'X' then String.ofList (c :: rest) else addr
  | _ => addr

def saltHex (s : Settings) : String := saltHexFromAddress s.address

def devFeeSaltHex : String := saltHexFromAddress kDevFeeAddress

end Settings

end XNMiner
