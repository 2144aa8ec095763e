import XNMiner.App.MatchWindow
import XNMiner.Queue.StoreInv
import XNMiner.Lib.Prog

/-!
# The supervisor at run time

Three threads work on the supervisor: the mining thread, the submit worker, and the console
handler that may call `persist_queue_for_restart` at any time.  A function of the source is a
program over their shared `World`; everything it learns from outside (clocks, the pool, the
poller, the GPU engine, the scheduler of the flush workers) is a question.

Next to the supervisor the world has ghosts that no program reads.  They say what has become of
a hit: the digests the pool has accepted, every hash that was posted, the hits `handle_hit` has
handed over, and the batches that a thread has taken out of the live queue and not finished.
-/

namespace XNMiner

open Lib

inductive Thread where
  | mining
  | submit
  | console
deriving DecidableEq

/-- A `POST /verify` that went out: its hash, and the values `network_difficulty_` had held since
the call that made it began. -/
structure Post where
  hash : String
  held : List (Option Int)

/-- What the flush workers of a wave share: locals of `try_flush_pending` that they capture by
reference. -/
structure Wave where
  /-- The index of the next item to submit. -/
  next : Nat := 0
  acceptedIds : List Int := []
  flushed : Nat := 0
  holds : Nat := 0
  transients : Nat := 0

/-- The shared state of a run. -/
structure World where
  sup : Supervisor := {}
  wave : Wave := {}
  /-- `submit_thread_` has returned. -/
  workerDone : Bool := false
  -- ghosts
  accepted : List String := []
  posted : List Post := []
  delivered : List String := []
  batches : Thread → List LiveSubmitJob := fun _ ↦ []
  held : List (Option Int) := []

/-- What the mining loop does in one round. -/
inductive MiningRound where
  /-- `refresh_network` and `update_match_drain`. -/
  | poll
  /-- `handle_batch_hits` on what a batch, or draining the engine, has found. -/
  | hits (hits : List BlockHit)
  /-- The time is up: `graceful_shutdown`, then `finalize_session`. -/
  | maxSeconds

/-- The questions a program puts. -/
inductive Query where
  /-- `now_s()`. -/
  | clock
  /-- `now_iso_local()`. -/
  | stamp
  /-- `local_minute_of_hour()`. -/
  | minute
  /-- `POST /verify`: the status and the body of the answer. -/
  | verify (hit : BlockHit)
  /-- `Submitter::probe`. -/
  | probe
  /-- `poll_once` or `get_status` of the poller. -/
  | poll (blocking : Bool)
  /-- `engine_->set_difficulty`: the difficulty of the engine afterwards. -/
  | replan (m : Int)
  /-- `drain_pipeline`: the hits, or an exception. -/
  | drain
  /-- How many flush workers could be started, of those wanted. -/
  | spawn (wanted : Nat)
  /-- Whether the first of two flush workers moves next. -/
  | turn
  /-- What the mining loop does next. -/
  | round

abbrev Answer : Query → Type
  | .clock => Rat
  | .stamp => String
  | .minute => Nat
  | .verify _ => Int × String
  | .probe => Bool
  | .poll _ => NetworkStatus
  | .replan _ => Int
  | .drain => Option (List BlockHit)
  | .spawn _ => Nat
  | .turn => Bool
  | .round => MiningRound

/-- Programs of the supervisor. -/
abbrev Sup (α : Type) := Prog World Query Answer α

namespace Sup

/-- One atomic read of the supervisor. -/
def get {α : Type} (f : Supervisor → α) : Sup α := Prog.read fun w ↦ f w.sup

/-- One atomic write of the supervisor. -/
def set (f : Supervisor → Supervisor) : Sup Unit := Prog.modify fun w ↦ { w with sup := f w.sup }

/-- One atomic write of what a wave shares. -/
def setWave (f : Wave → Wave) : Sup Unit := Prog.modify fun w ↦ { w with wave := f w.wave }

/-- One operation of the store. -/
def store (op : BlockStore.Op) : Sup Unit :=
  set fun s ↦ { s with store := s.store.exec op }

/-- One question. -/
def query (q : Query) : Sup (Answer q) := Prog.query q

end Sup

end XNMiner
