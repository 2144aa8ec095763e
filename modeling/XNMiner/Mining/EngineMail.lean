import XNMiner.Mining.EngineRings

/-!
# Mailboxes and the workers that read them

`seq` counts the requests of a mailbox, and a worker compares it with the number that it has
`seen`.  `MailInv` says what that is good for: a worker never works on a request that was not
made, and a mailbox without a request has no results.
-/

namespace XNMiner

open Lib

/-- The worker has a request in its hands. -/
def LaneWorker.AtWork (w : LaneWorker) : Prop :=
  match w.pc with
  | .looping _ | .running _ | .publishing .. => True
  | .waiting | .returned => False

namespace CudaEngine

variable {s t : CudaEngine} {i : Nat}

/-- What holds of the mailboxes at any moment. -/
structure MailInv (s : CudaEngine) : Prop where
  /-- Where no request was made there is no result. -/
  fresh : ∀ i, (s.mailboxes i).seq = 0 → ¬ (s.mailboxes i).Ready
  seen : ∀ (i : Nat) (w : LaneWorker), s.workers[i]? = some w → w.seen ≤ (s.mailboxes i).seq
  working : ∀ (i : Nat) (w : LaneWorker), s.workers[i]? = some w → w.AtWork →
    (s.mailboxes i).seq ≠ 0

namespace MailInv

theorem create (settings : Settings) (maxLanes : Nat) : MailInv (create settings maxLanes) :=
  ⟨fun _ _ ↦ Nat.lt_irrefl 0, by simp [CudaEngine.create], by simp [CudaEngine.create]⟩

/-- Where no request was made nothing is unread. -/
theorem unread_eq_nil (h : MailInv s) (hseq : (s.mailboxes i).seq = 0) :
    (s.mailboxes i).unread = [] := by
  have hle : (s.mailboxes i).ring.produced ≤ (s.mailboxes i).ring.consumed :=
    Nat.le_of_not_lt (h.fresh i hseq)
  simp [LaneMailbox.unread, Ring.unread, Nat.sub_eq_zero_of_le hle]

/-- The workers and the mailboxes are the same. -/
theorem of_same (h : MailInv s) (hboxes : t.mailboxes = s.mailboxes)
    (hworkers : t.workers = s.workers) : MailInv t :=
  ⟨hboxes ▸ h.fresh, hboxes ▸ hworkers ▸ h.seen, hboxes ▸ hworkers ▸ h.working⟩

/-! ## Calls -/

/-- Each request gets a new number. -/
theorem publish (h : MailInv s) (proto : Proto) : MailInv (s.publish proto) := by
  have hask : ∀ i, (s.publish proto).mailboxes i = s.mailboxes i ∨
      ((s.publish proto).mailboxes i).seq = (s.mailboxes i).seq + 1 := by
    intro i
    simp only [CudaEngine.publish, LaneMailbox.ask]
    split
    · split
      · exact .inr rfl
      · exact .inl rfl
    · exact .inl rfl
  refine ⟨fun i hseq ↦ ?_, fun i w hw ↦ ?_, fun i w hw hwork ↦ ?_⟩
  · rcases hask i with heq | heq
    · rw [heq] at hseq ⊢
      exact h.fresh i hseq
    · omega
  · have hseen := h.seen i w hw
    rcases hask i with heq | heq <;> rw [heq]
    · exact hseen
    · exact Nat.le_succ_of_le hseen
  · rcases hask i with heq | heq <;> rw [heq]
    · exact h.working i w hw hwork
    · exact Nat.succ_ne_zero _

theorem resume (h : MailInv s) (next : AfterJoin) : MailInv (s.resume next) := by
  cases next with
  | ready => exact h.of_same rfl rfl
  | mine proto => exact h.publish proto
  | stopped => exact ⟨h.fresh, h.seen, h.working⟩

theorem ensureLaneWorkers (h : MailInv s) (next : AfterJoin) :
    MailInv (s.ensureLaneWorkers next) := by
  rcases s.ensureLaneWorkers_cases next with heq | heq <;> rw [heq]
  · exact h.resume next
  · exact h.of_same rfl rfl

/-- New workers find mailboxes without requests. -/
theorem respawn (s : CudaEngine) : MailInv s.respawn := by
  have hnew : ∀ (i : Nat) (w : LaneWorker), s.respawn.workers[i]? = some w → w = {} :=
    fun i w hw ↦ (List.mem_replicate.mp (List.mem_of_getElem? hw)).2
  refine ⟨fun i _ ↦ Nat.lt_irrefl 0, fun i w hw ↦ ?_, fun i w hw hwork ↦ ?_⟩
  · rw [hnew i w hw]
    exact Nat.zero_le _
  · rw [hnew i w hw] at hwork
    exact hwork.elim

theorem dismissed (h : MailInv s) : MailInv s.dismissed :=
  ⟨h.fresh, by simp [CudaEngine.dismissed], by simp [CudaEngine.dismissed]⟩

theorem joined (h : MailInv s) (next : AfterJoin) : MailInv (s.joined next) := by
  rcases s.joined_cases next with heq | ⟨-, -, heq⟩ <;> rw [heq]
  · exact h.dismissed.resume next
  · exact (respawn s.dismissed).resume next

theorem control : ControlRule MailInv where
  flow := fun _ hsame h ↦ h.of_same hsame.mailboxes hsame.workers
  sync := fun _ h ↦ h.of_same rfl rfl
  join := fun _ h ↦ h.of_same rfl rfl

theorem call (h : MailInv s) (hpc : s.pc = .idle) (a : Act) : MailInv (s.call a) := by
  by_cases ha : a.Control
  · exact control.call hpc h ha
  cases a with
  | stop => exact h.of_same rfl rfl
  | mineBatch minutes now outcome =>
      have hproto := s.sameWork_protoOf minutes
      have h' := h.of_same hproto.mailboxes hproto.workers
      change MailInv (s.mineBatch minutes now outcome)
      rcases s.mineBatch_cases minutes now outcome with heq | ⟨-, -, heq⟩ | ⟨-, -, heq⟩ <;>
        rw [heq]
      · exact h.of_same rfl rfl
      · have hmove := (mineOneLane_cases (s.protoOf minutes).2 (s.protoOf minutes).1 now
          outcome).same
        exact h'.of_same hmove.1 hmove.2.1
      · exact h'.ensureLaneWorkers _
  | drainPipeline =>
      simp only [CudaEngine.call]
      split
      · exact h.of_same rfl rfl
      · exact h.of_same rfl rfl
  | proceed | worker => exact h
  | start | setDifficulty | restoreLaneCap | reduceLaneCap | addLaneCap | setBatch
    | setQueueCounts => exact absurd trivial ha

/-! ## Steps -/

/-- A worker that goes on, and leaves the mailboxes alone. -/
theorem setWorker (h : MailInv s) {w : LaneWorker} (hseen : w.seen ≤ (s.mailboxes i).seq)
    (hwork : w.AtWork → (s.mailboxes i).seq ≠ 0) : MailInv (s.setWorker i w) where
  fresh := h.fresh
  seen := fun j v hv ↦ by
    rcases workers_setWorker hv with ⟨rfl, rfl⟩ | ⟨-, hv⟩
    · exact hseen
    · exact h.seen j v hv
  working := fun j v hv hat ↦ by
    rcases workers_setWorker hv with ⟨rfl, rfl⟩ | ⟨-, hv⟩
    · exact hwork hat
    · exact h.working j v hv hat

theorem workerMove (h : MailInv s) {w : LaneWorker} {outcome : Outcome}
    (hw : s.workers[i]? = some w) (hm : WorkerMove s i w outcome t) : MailInv t := by
  have hseen := h.seen i w hw
  have hworking := h.working i w hw
  cases hm with
  | ends _ _ => exact h.setWorker hseen False.elim
  | skips hpc _ =>
      exact h.setWorker (Nat.le_refl _) fun hat ↦ by simp [LaneWorker.AtWork, hpc] at hat
  | takes _ _ hseq => exact h.setWorker (Nat.le_refl _) fun _ ↦ by omega
  | leaves _ _ => exact h.setWorker hseen False.elim
  | enters _ hpc _ _ _ =>
      exact h.setWorker hseen fun _ ↦ hworking (by simp [LaneWorker.AtWork, hpc])
  | lacks _ hpc _ =>
      exact h.setWorker hseen fun _ ↦ hworking (by simp [LaneWorker.AtWork, hpc])
  | hashes _ _ _ _ _ _ hpc _ _ _ =>
      refine MailInv.setWorker ?_ hseen fun _ ↦ hworking (by simp [LaneWorker.AtWork, hpc])
      exact h.of_same rfl rfl
  | publishes req result err hpc =>
      have hseq := hworking (by simp [LaneWorker.AtWork, hpc])
      have hbox : ∀ j, ((s.workerPublishing i w req result err).mailboxes j).seq =
          (s.mailboxes j).seq := by
        intro j
        change (Function.update s.mailboxes i _ j).seq = _
        by_cases hj : j = i
        · subst hj
          rw [Function.update_self]
        · rw [Function.update_of_ne hj]
      refine ⟨fun j hzero ↦ ?_, fun j v hv ↦ ?_, fun j v hv hat ↦ ?_⟩
      · rw [hbox] at hzero
        have hj : j ≠ i := fun hj ↦ hseq (hj ▸ hzero)
        have hsame : (s.workerPublishing i w req result err).mailboxes j = s.mailboxes j :=
          Function.update_of_ne hj ..
        rw [hsame]
        exact h.fresh j hzero
      · rw [hbox]
        rcases workers_setWorker hv with ⟨rfl, rfl⟩ | ⟨-, hv⟩
        · exact hseen
        · exact h.seen j v hv
      · rw [hbox]
        rcases workers_setWorker hv with ⟨rfl, rfl⟩ | ⟨-, hv⟩
        · exact hseq
        · exact h.working j v hv hat

theorem miningMove (h : MailInv s) {now : String} (hm : MiningMove s now t) : MailInv t := by
  cases hm with
  | joins next _ _ => exact h.joined next
  | reads _ _ => exact h.of_same rfl rfl
  | absorbs lane out totalHs hps out' totalHs' _ _ _ _ =>
      refine ⟨fun i hzero ↦ ?_, fun i w hw ↦ ?_, fun i w hw hat ↦ ?_⟩
      · by_cases hi : i = lane
        · subst hi
          have hnone := h.fresh i (by simpa using hzero)
          simp only [Function.update_self, LaneMailbox.Ready, Ring.Ready, Ring.consumed_pop,
            Ring.produced_pop] at hnone ⊢
          omega
        · simpa [hi] using h.fresh i (by simpa [hi] using hzero)
      · by_cases hi : i = lane
        · subst hi
          simpa using h.seen i w hw
        · simpa [hi] using h.seen i w hw
      · by_cases hi : i = lane
        · subst hi
          simpa using h.working i w hw hat
        · simpa [hi] using h.working i w hw hat
  | throws => exact h.of_same rfl rfl
  | finishes lane out totalHs _ _ =>
      obtain ⟨u, hsame, out', heq, -⟩ := s.finishMine_flow out totalHs
      rw [heq]
      exact h.of_same hsame.mailboxes hsame.workers
  | drains => exact h.of_same rfl rfl
  | drained lane out _ _ =>
      obtain ⟨u, hsame, out', heq, -⟩ := s.finishDrain_flow out
      rw [heq]
      exact h.of_same hsame.mailboxes hsame.workers

/-- **The mailboxes stay in order**, over a step. -/
theorem step (h : MailInv s) {a : Act} (hs : Step s a t) : MailInv t := by
  cases step_inv hs with
  | worker hw hm => exact h.workerMove hw hm
  | proceed hm => exact h.miningMove hm
  | call a hpc _ => exact h.call hpc a

end MailInv

end CudaEngine

end XNMiner
