import XNMiner.Mining.EngineMoves

/-!
# The rings of the lanes

The counters of a ring are written without a lock, `produced_` by the worker of the lane and
`consumed_` by the mining thread.  `RingInv` says why that is enough: a worker that has passed its
check still has a free slot when it writes, because all others only make room; and when
`mine_batch` reads a lane, its result is still there.
-/

namespace XNMiner

open Lib

/-- The worker has passed the check for a free slot, and not yet written. -/
def LaneWorker.Producing (w : LaneWorker) : Prop :=
  match w.pc with
  | .running _ | .publishing .. => True
  | _ => False

namespace CudaEngine

variable {s t : CudaEngine} {i : Nat}

/-- What holds of the rings at any moment. -/
structure RingInv (s : CudaEngine) : Prop where
  sound : ∀ i, (s.mailboxes i).ring.Sound
  /-- A worker that is about to write has a free slot. -/
  room : ∀ i w, s.workers[i]? = some w → w.Producing → (s.mailboxes i).ring.HasRoom
  /-- The lanes that `mine_batch` has yet to read have a result. -/
  ready : ∀ lane out totalHs, s.pc = .absorbing lane out totalHs → ∀ i, lane ≤ i → i < s.lanes →
    (s.mailboxes i).Ready

theorem ringInv_create (settings : Settings) (maxLanes : Nat) :
    RingInv (create settings maxLanes) :=
  ⟨fun _ ↦ Ring.sound_empty _, nofun, nofun⟩

/-- A ring on which there is nothing to read has room. -/
theorem hasRoom_clear (r : Ring (HashApiResult × String) kRing) : r.clear.HasRoom :=
  Nat.lt_add_of_pos_right (by decide)

/-- A step that leaves the rings and the workers alone, and reads no lane. -/
theorem RingInv.of_same (h : RingInv s)
    (hring : ∀ i, (t.mailboxes i).ring = (s.mailboxes i).ring) (hworkers : t.workers = s.workers)
    (hpc : ∀ lane out totalHs, t.pc ≠ .absorbing lane out totalHs) : RingInv t where
  sound := fun i ↦ by rw [hring]; exact h.sound i
  room := fun i w hw hp ↦ by rw [hring]; exact h.room i w (hworkers ▸ hw) hp
  ready := fun lane out totalHs habs ↦ absurd habs (hpc lane out totalHs)

/-! ## Calls -/

/-- Changing requests makes room. -/
theorem RingInv.publish (h : RingInv s) (proto : Proto) : RingInv (s.publish proto) := by
  have hask : ∀ i, (((s.publish proto).mailboxes i).ring = (s.mailboxes i).ring ∨
      ((s.publish proto).mailboxes i).ring = (s.mailboxes i).ring.clear) := by
    intro i
    simp only [CudaEngine.publish, LaneMailbox.ask]
    split
    · split
      · exact .inr rfl
      · exact .inl rfl
    · exact .inl rfl
  refine ⟨fun i ↦ ?_, fun i w hw hp ↦ ?_, nofun⟩
  · rcases hask i with hr | hr <;> rw [hr]
    · exact h.sound i
    · exact Ring.Sound.clear _
  · rcases hask i with hr | hr <;> rw [hr]
    · exact h.room i w hw hp
    · exact hasRoom_clear _

theorem RingInv.resume (h : RingInv s) (next : AfterJoin) : RingInv (s.resume next) := by
  cases next with
  | ready => exact h.of_same (fun _ ↦ rfl) rfl nofun
  | mine proto => exact h.publish proto
  | stopped => exact h.of_same (fun _ ↦ rfl) rfl nofun

theorem RingInv.ensureLaneWorkers (h : RingInv s) (next : AfterJoin) :
    RingInv (s.ensureLaneWorkers next) := by
  rcases s.ensureLaneWorkers_cases next with heq | heq <;> rw [heq]
  · exact h.resume next
  · exact h.of_same (fun _ ↦ rfl) rfl nofun

/-- New workers find empty rings. -/
theorem ringInv_respawn (hpc : ∀ lane out totalHs, s.pc ≠ .absorbing lane out totalHs) :
    RingInv s.respawn where
  sound := fun _ ↦ ⟨Nat.le_refl _, Nat.zero_le _⟩
  room := fun i w hw hp ↦ by
    obtain rfl := (List.mem_replicate.mp (List.mem_of_getElem? hw)).2
    exact hp.elim
  ready := fun lane out totalHs habs ↦ absurd habs (hpc lane out totalHs)

theorem RingInv.joined (h : RingInv s) {next : AfterJoin} (hpc : s.pc = .joining next) :
    RingInv (s.joined next) := by
  have hnone : RingInv s.dismissed :=
    ⟨h.sound, nofun, fun _ _ _ habs ↦ by simp [dismissed, hpc] at habs⟩
  have hnew : RingInv s.dismissed.respawn := ringInv_respawn (by simp [dismissed, hpc])
  rcases s.joined_cases next with heq | ⟨-, -, heq⟩ <;> rw [heq]
  · exact hnone.resume next
  · exact hnew.resume next

theorem RingInv.sameWork (h : RingInv s) (hst : SameWork s t) : RingInv t where
  sound := by rw [hst.mailboxes]; exact h.sound
  room := by rw [hst.mailboxes, hst.workers]; exact h.room
  ready := by rw [hst.mailboxes, hst.pc, hst.lanes]; exact h.ready

theorem RingInv.abandon (h : RingInv s) (what : String) : RingInv (s.abandon what) :=
  h.of_same (fun _ ↦ rfl) rfl nofun

theorem RingInv.returnResult (h : RingInv s) (out : MineBatchResult) :
    RingInv (s.returnResult out) :=
  h.of_same (fun _ ↦ rfl) rfl nofun

theorem RingInv.finishMine (h : RingInv s) (out : MineBatchResult) (totalHs : Rat) :
    RingInv (s.finishMine out totalHs) := by
  obtain ⟨u, hsame, out', heq, -⟩ := s.finishMine_flow out totalHs
  exact heq ▸ (h.sameWork hsame).returnResult out'

theorem RingInv.finishDrain (h : RingInv s) (out : MineBatchResult) :
    RingInv (s.finishDrain out) := by
  obtain ⟨u, hsame, out', heq, -⟩ := s.finishDrain_flow out
  exact heq ▸ (h.sameWork hsame).returnResult out'

/-- The wave of the only lane ends the call, and touches no ring. -/
theorem OneLaneMove.same {proto : Proto} {now : String} {outcome : Outcome}
    (hm : OneLaneMove s proto now outcome t) :
    t.mailboxes = s.mailboxes ∧ t.workers = s.workers ∧ (s.pc = .idle → t.pc = .idle) := by
  cases hm with
  | lacks _ => exact ⟨rfl, rfl, id⟩
  | throws b b' rest origin result err what _ _ _ _ => exact ⟨rfl, rfl, fun _ ↦ rfl⟩
  | returns b b' rest origin result err hps totalHs out _ _ _ _ _ =>
      obtain ⟨u, hsame, out', heq, -⟩ := finishMine_flow _ _ totalHs
      rw [heq]
      exact ⟨hsame.mailboxes, hsame.workers, fun _ ↦ rfl⟩

theorem mineBatch_oneLane (hpc : s.pc = .idle) (hlanes : s.lanes = 1)
    (minutes : Nat × Nat × Nat) (now : String) (outcome : Outcome) :
    (s.mineBatch minutes now outcome).mailboxes = s.mailboxes ∧
      (s.mineBatch minutes now outcome).workers = s.workers ∧
      (s.mineBatch minutes now outcome).pc = .idle := by
  have hproto := s.sameWork_protoOf minutes
  rcases s.mineBatch_cases minutes now outcome with heq | ⟨-, -, heq⟩ | ⟨-, hmany, -⟩
  · rw [heq]
    exact ⟨rfl, rfl, rfl⟩
  · obtain ⟨hboxes, hworkers, hend⟩ :=
      (mineOneLane_cases (s.protoOf minutes).2 (s.protoOf minutes).1 now outcome).same
    rw [heq]
    exact ⟨hboxes.trans hproto.mailboxes, hworkers.trans hproto.workers,
      hend (hproto.pc.trans hpc)⟩
  · exact absurd hlanes hmany

theorem RingInv.mineBatch (h : RingInv s) (hpc : s.pc = .idle) (minutes : Nat × Nat × Nat)
    (now : String) (outcome : Outcome) : RingInv (s.mineBatch minutes now outcome) := by
  rcases s.mineBatch_cases minutes now outcome with heq | ⟨-, hlanes, -⟩ | ⟨-, -, heq⟩
  · exact heq ▸ h.returnResult {}
  · obtain ⟨hboxes, hworkers, hend⟩ := mineBatch_oneLane hpc hlanes minutes now outcome
    exact h.of_same (fun i ↦ by rw [hboxes]) hworkers (by simp [hend])
  · exact heq ▸ (h.sameWork (s.sameWork_protoOf minutes)).ensureLaneWorkers _

theorem ringInv_control : ControlRule RingInv where
  flow := fun {s t} hpc hst h ↦
    h.of_same (fun i ↦ by rw [hst.mailboxes]) hst.workers (by simp [hst.pc, hpc])
  sync := fun hpc h ↦ h.of_same (fun _ ↦ rfl) rfl (by simp [syncLanes, hpc])
  join := fun _ h ↦ h.of_same (fun _ ↦ rfl) rfl (by simp [stopLaneWorkers])

/-- **A call keeps the rings in order.** -/
theorem RingInv.call (h : RingInv s) (hpc : s.pc = .idle) (a : Act) : RingInv (s.call a) := by
  by_cases ha : a.Control
  · exact ringInv_control.call hpc h ha
  cases a with
  | stop => exact h.of_same (fun _ ↦ rfl) rfl (by simp [CudaEngine.call, stopLaneWorkers])
  | mineBatch minutes now outcome => exact h.mineBatch hpc minutes now outcome
  | drainPipeline =>
      simp only [CudaEngine.call]
      split
      · exact h.returnResult {}
      · exact h.of_same (fun _ ↦ rfl) rfl (by simp)
  | proceed now => exact h
  | worker lane outcome => exact h
  | start | setDifficulty | restoreLaneCap | reduceLaneCap | addLaneCap | setBatch
    | setQueueCounts => exact absurd trivial ha

/-! ## Steps -/

/-- A worker that moves on, without writing: it must be able to write later. -/
theorem RingInv.setWorker (h : RingInv s) {w : LaneWorker}
    (hroom : w.Producing → (s.mailboxes i).ring.HasRoom) : RingInv (s.setWorker i w) where
  sound := h.sound
  room := fun j v hv hp ↦ by
    rcases workers_setWorker hv with ⟨rfl, rfl⟩ | ⟨-, hv⟩
    · exact hroom hp
    · exact h.room j v hv hp
  ready := h.ready

/-- A worker that goes on keeps the rings in order. -/
theorem RingInv.workerMove (h : RingInv s) {w : LaneWorker} {outcome : Outcome}
    (hw : s.workers[i]? = some w) (hm : WorkerMove s i w outcome t) : RingInv t := by
  have hproducing : w.Producing → (s.mailboxes i).ring.HasRoom := h.room i w hw
  cases hm with
  | ends _ _ => exact h.setWorker False.elim
  | skips hpc _ => exact h.setWorker fun hp ↦ by simp [LaneWorker.Producing, hpc] at hp
  | takes _ _ _ => exact h.setWorker False.elim
  | leaves _ _ => exact h.setWorker False.elim
  | enters _ _ _ _ hroom => exact h.setWorker fun _ ↦ hroom
  | lacks req hpc _ =>
      exact h.setWorker fun _ ↦ hproducing (by simp [LaneWorker.Producing, hpc])
  | hashes req b b' origin result err hpc _ _ _ =>
      refine RingInv.setWorker ?_ fun _ ↦ hproducing (by simp [LaneWorker.Producing, hpc])
      exact ⟨h.sound, h.room, h.ready⟩
  | publishes req result err hpc =>
      have hroom := hproducing (by simp [LaneWorker.Producing, hpc])
      have hring : ∀ j, j ≠ i → ((s.workerPublishing i w req result err).mailboxes j) =
          s.mailboxes j := fun j hj ↦ Function.update_of_ne hj ..
      have hself : ((s.workerPublishing i w req result err).mailboxes i).ring =
          (s.mailboxes i).ring.push (result, err) := by
        change (Function.update s.mailboxes i _ i).ring = _
        rw [Function.update_self]
      refine ⟨fun j ↦ ?_, fun j v hv hp ↦ ?_, fun lane out totalHs habs j hle hlt ↦ ?_⟩
      · by_cases hj : j = i
        · rw [hj, hself]
          exact (h.sound i).push hroom _
        · rw [hring j hj]
          exact h.sound j
      · rcases workers_setWorker hv with ⟨rfl, rfl⟩ | ⟨hj, hv⟩
        · exact hp.elim
        · rw [hring j hj]
          exact h.room j v hv hp
      · have hready := h.ready lane out totalHs habs j hle hlt
        by_cases hj : j = i
        · subst hj
          rw [LaneMailbox.Ready, hself]
          exact Nat.lt_succ_of_lt hready
        · rw [hring j hj]
          exact hready

/-- The mining thread keeps the rings in order, in a call as well. -/
theorem RingInv.miningMove (h : RingInv s) {now : String} (hm : MiningMove s now t) :
    RingInv t := by
  cases hm with
  | joins next hpc _ => exact h.joined hpc
  | reads hpc hready =>
      exact ⟨h.sound, h.room, fun _ _ _ _ i _ hlt ↦ hready i hlt⟩
  | absorbs lane out totalHs hps out' totalHs' hpc hlane _ _ =>
      have hready := h.ready lane out totalHs hpc lane (Nat.le_refl _) hlane
      refine ⟨fun j ↦ ?_, fun j v hv hp ↦ ?_, fun lane' _ _ habs j hle hlt ↦ ?_⟩
      · by_cases hj : j = lane
        · subst hj
          simpa using (h.sound j).pop hready
        · simpa [hj] using h.sound j
      · have hroom := h.room j v hv hp
        by_cases hj : j = lane
        · subst hj
          have : (s.mailboxes j).ring.pop.HasRoom := Nat.lt_of_lt_of_le hroom (by simp)
          simpa using this
        · simpa [hj] using hroom
      · obtain ⟨rfl, -, -⟩ := MiningPc.absorbing.inj habs
        have hj : j ≠ lane := by omega
        simpa [hj] using h.ready lane out totalHs hpc j (by omega) hlt
  | throws lane out totalHs what _ _ _ => exact h.abandon what
  | finishes lane out totalHs _ _ => exact h.finishMine out totalHs
  | drains lane out backend attempts out' _ _ _ =>
      exact h.of_same (fun _ ↦ rfl) rfl (by simp)
  | drained lane out _ _ => exact h.finishDrain out

/-- **The rings stay in order**, over a step. -/
theorem RingInv.step (h : RingInv s) {a : Act} (hs : Step s a t) : RingInv t := by
  cases step_inv hs with
  | worker hw hm => exact h.workerMove hw hm
  | proceed hm => exact h.miningMove hm
  | call a hpc _ => exact h.call hpc a

/-- **The rings are in order in every state that can be reached.** -/
theorem ringInv_run {as : List Act} {settings : Settings} {maxLanes : Nat}
    (hr : Run Step (create settings maxLanes) as s) : RingInv s :=
  hr.preserves (fun _ _ _ h hs ↦ h.step hs) (ringInv_create settings maxLanes)

end CudaEngine

end XNMiner
