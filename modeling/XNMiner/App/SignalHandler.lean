import XNMiner.App.Locks

/-!
# The signal handler and the mutexes of the thread it interrupts

On Linux `handle_signal` runs on top of whatever the interrupted thread is doing, and calls
`persist_queue_for_restart` there.  `std::mutex` is not recursive: where the thread was inside a
function of the store, say, the handler waits for the mutex of the store, and nobody will ever
give it back.

The handler always takes `persist_mu_`, `submit_mu_`, and the mutexes of the store and of the log;
that of the counters it takes only if it finds jobs in `live_submit_q_`.
`handle_signal_safe_iff` says that this is all there is to it.
-/

namespace XNMiner

open Lib Locked Threads

/-- The two signals that the miner handles. -/
inductive Signal
  | int
  | term
deriving DecidableEq

namespace Locks

/-- The process. -/
abbrev Process := Threads Mutex Nat Signal Thread

/-- The miner when it starts to run, with nothing to submit. -/
def running : Process := start 0 body

/-- The steps of its threads, and the signals. -/
abbrev Step : Process → ThreadAct Signal Thread → Process → Prop := Threads.Step body handleSignal

/-! ## What the handler takes -/

/-- `handle_signal` takes it in any case. -/
def Always (m : Mutex) : Prop := m = .persist ∨ m = .submit ∨ m = .store ∨ m = .logger

/-- `handle_signal` takes it as well, with that many jobs in `live_submit_q_`. -/
def Added (jobs : Nat) (m : Mutex) : Prop := jobs ≠ 0 ∧ m = .metrics

/-- `persist_queue_for_restart`, from where it has bagged the live queue. -/
def persistRest : Code Unit := do
  deferAllToNextStart
  pendingCount
  log
  .unlock .persist (pure ())

/-- `handle_signal`, from where it has swapped out a batch of `n` jobs. -/
def afterSwap (n : Nat) : Code Unit := .unlock .submit do
  times (do enqueue; recordEnqueued) n
  (if n ≠ 0 then (do pendingCount; syncPending) else pure ())
  persistRest

theorem handleSignal_eq : handleSignal =
    .lock .persist (.lock .submit (.step (fun _ ↦ 0) fun n ↦ afterSwap n)) := by
  simp only [handleSignal, requestStop, persistQueueForRestart, bagLiveQueueToStore, holding,
    swapLiveQueue, afterSwap, persistRest, pure_eq, ret_bind, lock_bind, unlock_bind, step_bind,
    bind_assoc]

/-! ### Its mutexes -/

theorem plain_bagJob : (do enqueue; recordEnqueued : Code Unit).Plain := trivial

theorem plain_countBag (n : Nat) :
    (if n ≠ 0 then (do pendingCount; syncPending) else pure () : Code Unit).Plain := by
  split <;> trivial

theorem plain_afterSwap (n : Nat) : (afterSwap n).Plain :=
  plain_bind (plain_times plain_bagJob n) fun _ ↦ plain_bind (plain_countBag n) fun _ ↦ trivial

theorem takes_afterSwap (n : Nat) (m : Mutex) :
    (afterSwap n).Takes m ↔ m = .store ∨ m = .logger ∨ Added n m := by
  have hjob : (do enqueue; recordEnqueued : Code Unit).Takes m ↔ m = .store ∨ m = .metrics := by
    simp [Takes, enqueue, recordEnqueued, guarded, holding, eq_comm]
  have hcount : (if n ≠ 0 then (do pendingCount; syncPending) else pure () : Code Unit).Takes m ↔
      n ≠ 0 ∧ (m = .store ∨ m = .metrics) := by
    split
    · next hn => simp [Takes, pendingCount, syncPending, guarded, holding, hn, eq_comm]
    · next hn => simp [Takes, hn]
  have hrest : persistRest.Takes m ↔ m = .store ∨ m = .logger := by
    simp [Takes, persistRest, deferAllToNextStart, pendingCount, log, guarded, holding, eq_comm]
  change Takes m (times _ n >>= _) ↔ _
  rw [takes_bind (plain_times plain_bagJob n), takes_times plain_bagJob,
    takes_bind (plain_countBag n), hjob, hcount, hrest]
  constructor
  · rintro (⟨hn, rfl | rfl⟩ | ⟨hn, rfl | rfl⟩ | rfl | rfl) <;> simp [Added, *]
  · rintro (rfl | rfl | ⟨hn, rfl⟩) <;> simp [*]

theorem tidy_afterSwap (n : Nat) : (afterSwap n).Tidy [] [.submit, .persist] := by
  have hguarded : ∀ m, m ≠ .persist → Tidy [.persist] [.persist] (guarded m) := fun m hm ↦
    tidy_holding (by simpa using hm) rfl
  have hstore := hguarded .store (by decide)
  have hjob : Tidy [.persist] [.persist] (do enqueue; recordEnqueued : Code Unit) :=
    tidy_bind hstore fun _ ↦ hguarded .metrics (by decide)
  have hcount : Tidy [.persist] [.persist]
      (if n ≠ 0 then (do pendingCount; syncPending) else pure () : Code Unit) := by
    split
    · exact tidy_bind hstore fun _ ↦ hguarded .metrics (by decide)
    · exact rfl
  have hrest : Tidy [] [.persist] persistRest :=
    tidy_bind hstore fun _ ↦ tidy_bind hstore fun _ ↦
      tidy_bind (hguarded .logger (by decide)) fun _ ↦ ⟨[], rfl, rfl⟩
  exact ⟨[.persist], rfl, tidy_bind (tidy_times hjob n) fun _ ↦ tidy_bind hcount fun _ ↦ hrest⟩

theorem takes_handleSignal (m : Mutex) : handleSignal.Takes m ↔ Always m := by
  rw [handleSignal_eq]
  constructor
  · rintro (rfl | rfl | h)
    · exact .inl rfl
    · exact .inr (.inl rfl)
    · rcases (takes_afterSwap 0 m).mp (h 0) with rfl | rfl | hadded
      · exact .inr (.inr (.inl rfl))
      · exact .inr (.inr (.inr rfl))
      · exact absurd rfl hadded.1
  · rintro (rfl | rfl | rfl | rfl)
    · exact .inl rfl
    · exact .inr (.inl rfl)
    · exact .inr (.inr fun n ↦ (takes_afterSwap n _).mpr (.inl rfl))
    · exact .inr (.inr fun n ↦ (takes_afterSwap n _).mpr (.inr (.inl rfl)))

/-- **What is said of the handler**: it is tidy, and only the length of the live queue decides
what it takes. -/
theorem handler_handleSignal : Handler Always Added handleSignal where
  tidy := by
    rw [handleSignal_eq]
    exact ⟨by simp, by decide, fun n ↦ tidy_afterSwap n⟩
  settled := by
    rw [handleSignal_eq]
    refine fun n ↦ ⟨fun m ↦ ?_, settled_of_plain (plain_afterSwap n)⟩
    constructor
    · intro h
      rcases (takes_afterSwap n m).mp h with rfl | rfl | hadded
      · exact .inl fun n' ↦ (takes_afterSwap n' _).mpr (.inl rfl)
      · exact .inl fun n' ↦ (takes_afterSwap n' _).mpr (.inr (.inl rfl))
      · exact .inr hadded
    · rintro (h | h)
      · exact h n
      · exact (takes_afterSwap n m).mpr (.inr (.inr h))
  takes_iff := takes_handleSignal

/-! ## When it is safe -/

/-- A signal comes to a thread that holds nothing of what `handle_signal` always takes.  And where
the handler finds jobs in `live_submit_q_`, the thread did not hold the mutex of the counters
when the signal came. -/
def Undisturbed (s : Process) : ThreadAct Signal Thread → Prop
  | .signal t _ => s.owner .persist ≠ some t ∧ s.owner .submit ≠ some t ∧
      s.owner .store ≠ some t ∧ s.owner .logger ≠ some t
  | .run t _ => ∀ f below act after, s.frames t = f :: below → f.Handles →
      f.prog = .step act after → s.data ≠ 0 → f.below .metrics = false

variable {s u : Process} {as : List (ThreadAct Signal Thread)}

theorem undisturbed_iff (a : ThreadAct Signal Thread) :
    Undisturbed s a ↔ Harmless Always Added s a := by
  cases a with
  | signal t sig =>
      constructor
      · rintro ⟨hpersist, hsubmit, hstore, hlogger⟩ m (rfl | rfl | rfl | rfl)
        · exact hpersist
        · exact hsubmit
        · exact hstore
        · exact hlogger
      · exact fun h ↦ ⟨h _ (.inl rfl), h _ (.inr (.inl rfl)), h _ (.inr (.inr (.inl rfl))),
          h _ (.inr (.inr (.inr rfl)))⟩
  | run t n =>
      constructor
      · rintro h f below act after hfs hhandles hp m ⟨hjobs, rfl⟩
        exact h f below act after hfs hhandles hp hjobs
      · exact fun h f below act after hfs hhandles hp hjobs ↦
          h f below act after hfs hhandles hp .metrics ⟨hjobs, rfl⟩

/-- **When the signal handler is safe**: as long as signals come to threads that hold nothing the
handler takes, no handler waits for its own thread; the first that comes to another thread makes
a handler that never returns. -/
theorem handle_signal_safe_iff (hr : Run (Guarded Step Undisturbed) running as s) :
    (∀ t, ¬ WaitsForItself s t) ∧
      ∀ a u, Step s a u → ¬ Undisturbed s a → ∃ t, NeverReturns Step u t := by
  have hok : Undisturbed = Harmless Always Added :=
    funext fun s ↦ funext fun a ↦ propext (undisturbed_iff a)
  rw [hok] at hr ⊢
  exact run_harmless handler_handleSignal hr

/-- SIGINT comes to the mining thread before it has done anything. -/
theorem handle_signal_safe_early : ∃ s, Run (Guarded Step Undisturbed) running
    [.signal .mining .int] s ∧ ∀ t, ¬ WaitsForItself s t := by
  have hr : Run (Guarded Step Undisturbed) running [.signal .mining .int] _ :=
    .single ⟨rfl, by decide, by decide, by decide, by decide⟩
  exact ⟨_, hr, (handle_signal_safe_iff hr).1⟩

/-- What decides a round of the loop of `run` that finds a hit, up to inside `enqueue`. -/
def hitRound : List Nat :=
  [0, 0, 0, 0, 0, 0, 0, 1, 0, 0, 0, 1, 1, 0, 0, 1, 0, 0, 0, 0, 1, 1, 0, 0, 0, 0, 0, 1, 0, 0, 1, 0]

/-- The mining thread is in the critical section of `enqueue` when SIGINT comes. -/
theorem handle_signal_not_safe : ∃ as s, Run Step running as s ∧ WaitsForItself s .mining := by
  let as : List (ThreadAct Signal Thread) := hitRound.map (.run .mining) ++
    .signal .mining .int :: List.replicate 4 (.run .mining 0)
  obtain ⟨s, hs⟩ : ∃ s, exec (next body handleSignal) running as = some s := ⟨_, rfl⟩
  have hwaits : ∀ t, exec (next body handleSignal) running as = some t →
      WaitsForItself t .mining := by
    rintro t ht
    obtain rfl := Option.some.inj ht
    exact ⟨_, _, .store, _, rfl, Option.some_ne_none _, rfl, rfl⟩
  exact ⟨as, s, run_of_exec hs, hwaits s hs⟩

end Locks

end XNMiner
