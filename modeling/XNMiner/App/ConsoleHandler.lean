import XNMiner.App.NoLoss

/-!
# What the console handler leaves on disk

Windows kills the process right after the console handler has returned, so
`persist_queue_for_restart` must leave every hit in `blocks.db` that the pool has not accepted.
It bags the live queue, gives every row the reason for the next start, and saves.

What it does not reach is a batch that another thread has swapped out of the live queue: the
worker keeps it in a local variable while it polls and posts, and bags or submits it one by one.
A hit handed over after the handler has emptied the queue is not in the file either.
`persist_keeps_all_iff` says that nothing else can be missing: in every run, at the return, all
hits are on disk exactly if those in the queue and in the batches already are in the bag or
accepted (`batch_not_persisted` is a run in which one is not).

The return is the last section of the call, which saves; what follows in the source only logs.
-/

namespace XNMiner

open Lib Prog BlockStore

/-- The next process finds the digest when it reads `blocks.db`. -/
def OnDisk (w : World) (h : String) : Prop :=
  ∃ t, load w.sup.store.files = some t ∧ t.Holds h

/-- The digest is in the live queue, or in a batch that was taken out of it. -/
def Waiting (w : World) (h : String) : Prop :=
  (∃ job ∈ w.sup.liveSubmitQ, job.hit.hashStr = h) ∨
    ∃ i, ∃ job ∈ w.batches i, job.hit.hashStr = h

theorem located_iff {w : World} {h : String} : Located w h ↔ Safe w h ∨ Waiting w h := Iff.rfl

/-- The last section of `persist_queue_for_restart`. -/
def SavesAll (act : World → World) : Prop :=
  ∃ minute, act = fun w ↦
    { w with sup := { w.sup with store := w.sup.store.deferAllToNextStart minute } }

/-! ## The last section -/

/-- After it every row of the bag is on disk, and nothing else. -/
theorem onDisk_of_savesAll {act : World → World} (h : SavesAll act) (w : World) (x : String) :
    OnDisk (act w) x ↔ w.sup.store.Holds x := by
  obtain ⟨minute, rfl⟩ := h
  have hdb : (w.sup.store.deferAllToNextStart minute).files.db =
      some (some (dbJson w.sup.store.nextId (w.sup.store.pending.map fun pb ↦
        { pb with queueReason := deferReason minute pb }))) := rfl
  obtain ⟨t, hload, hrows, -⟩ := load_dbJson hdb
  have hholds : t.Holds x ↔ w.sup.store.Holds x := by
    simp [Holds, hrows, PendingBlock.reread]
  constructor
  · rintro ⟨t', hload', ht'⟩
    obtain rfl : t = t' := Option.some.inj (hload.symm.trans hload')
    exact hholds.mp ht'
  · exact fun hx ↦ ⟨t, hload, hholds.mpr hx⟩

theorem holds_of_savesAll {act : World → World} (h : SavesAll act) (w : World) (x : String) :
    (act w).sup.store.Holds x ↔ w.sup.store.Holds x := by
  obtain ⟨minute, rfl⟩ := h
  simp [Holds, deferAllToNextStart, BlockStore.markDirty, BlockStore.saveDb]

/-- It leaves alone what waits, and what is accepted. -/
theorem waiting_of_savesAll {act : World → World} (h : SavesAll act) (w : World) :
    Waiting (act w) = Waiting w ∧ (act w).accepted = w.accepted := by
  obtain ⟨minute, rfl⟩ := h
  exact ⟨rfl, rfl⟩

namespace Sup

/-- `persist_queue_for_restart` ends with that section. -/
theorem endsBy_consoleBody : EndsBy SavesAll (body .steps .console) :=
  endsBy_bind fun _ ↦ endsBy_bind fun _ ↦ endsBy_bind fun _ ↦ endsBy_bind fun _ minute ↦
    endsBy_modify ⟨minute, rfl⟩

/-! ## Runs, and what was handed over in them -/

/-- The steps of the threads; the environment may answer anything. -/
abbrev ThreadStep := Pool.Step (fun _ _ ↦ True) (body .steps)

/-- A moment of a run, and the digests that were given to `enqueue_live_submit` until then. -/
structure Moment where
  pool : Pool World Query Answer Thread
  handed : Set String

namespace Moment

/-- A thread moves.  What it gives to `enqueue_live_submit` is in the live queue afterwards. -/
def Step (s : Moment) (i : Thread) (t : Moment) : Prop :=
  ThreadStep s.pool i t.pool ∧ t.handed = s.handed ∪ {h | Waiting t.pool.shared h}

/-- Nothing was handed over yet. -/
def starts (sup : Supervisor) : Moment := ⟨start sup, ∅⟩

/-- `persist_queue_for_restart` returns. -/
def Returns (s t : Moment) : Prop := Step s .console t ∧ t.pool.prog .console = .ret true

variable {sup : Supervisor} {is : List Thread} {s t : Moment}

/-- Its pool takes a run of the threads. -/
theorem run_pool (hr : Run Step s is t) : Run ThreadStep s.pool is t.pool := by
  induction hr with
  | nil => exact .nil _
  | cons hs _ ih => exact .cons hs.1 ih

/-- What waits was handed over. -/
theorem handed_of_waiting (hs : sup.Starts) (hr : Run Step (starts sup) is s) {h : String}
    (hw : Waiting s.pool.shared h) : h ∈ s.handed := by
  have hinv : ∀ h, Waiting s.pool.shared h → h ∈ s.handed := by
    refine hr.preserves (I := fun s ↦ ∀ h, Waiting s.pool.shared h → h ∈ s.handed) ?_ ?_
    · rintro s i t - ⟨-, hhanded⟩ h hw
      rw [hhanded]
      exact .inr hw
    · rintro h (⟨job, hjob, -⟩ | ⟨i, job, hjob, -⟩)
      · change job ∈ sup.liveSubmitQ at hjob
        rw [hs.liveSubmitQ] at hjob
        cases hjob
      · cases hjob
  exact hinv h hw

/-- What waits in a sound pool is a PHC string. -/
theorem encoded_of_waiting {w : World} (hinv : DeliveryInv w) {h : String} (hw : Waiting w h) :
    isArgon2Encoded h = true := by
  rcases hw with ⟨job, hjob, rfl⟩ | ⟨i, job, hjob, rfl⟩
  · exact hinv.queue job hjob
  · exact hinv.batch i job hjob

/-- No step loses a hit that is located. -/
theorem located_step {hc : Calls.steps.Calm} {p p' : Pool World Query Answer Thread} {i : Thread}
    (h : Protocol.Sound (deliverySpec hc) p) (hs : ThreadStep p i p') {x : String}
    (henc : isArgon2Encoded x = true) (hx : Located p.shared x) : Located p'.shared x := by
  obtain ⟨j, hj⟩ : ∃ j : Thread, j ≠ i := by
    cases i with
    | mining => exact ⟨.submit, by decide⟩
    | submit => exact ⟨.mining, by decide⟩
    | console => exact ⟨.mining, by decide⟩
  exact (h.rely hs hj).located x henc hx

/-- **What was handed over is located**, unless the miner keeps no hits. -/
theorem located_of_handed (hs : sup.Starts) (hkeep : sup.shouldStore = true)
    (hr : Run Step (starts sup) is s) {h : String} (hh : h ∈ s.handed) :
    Located s.pool.shared h := by
  have hinv : Protocol.Sound (deliverySpec Calls.steps_calm) s.pool ∧
      ∀ h ∈ s.handed, isArgon2Encoded h = true ∧ Located s.pool.shared h := by
    refine hr.preserves (I := fun s ↦ Protocol.Sound (deliverySpec Calls.steps_calm) s.pool ∧
      ∀ h ∈ s.handed, isArgon2Encoded h = true ∧ Located s.pool.shared h) ?_ ?_
    · rintro s i t ⟨hsound, hloc⟩ ⟨hstep, hhanded⟩
      have hsound' := hsound.step hstep
      refine ⟨hsound', fun h hh ↦ ?_⟩
      rw [hhanded] at hh
      rcases hh with hold | hnew
      · have henc := (hloc h hold).1
        exact ⟨henc, located_step hsound hstep henc (hloc h hold).2⟩
      · exact ⟨encoded_of_waiting hsound'.inv hnew, located_iff.mpr (.inr hnew)⟩
    · exact ⟨sound_start Calls.steps_calm hs hkeep, fun h hh ↦ hh.elim⟩
  exact (hinv.2 h hh).2

/-! ## The return -/

/-- The return is the section that saves. -/
theorem savesAll_of_returns (hr : Run Step (starts sup) is s) (hret : Returns s t) :
    ∃ act, SavesAll act ∧ t.pool.shared = act s.pool.shared :=
  Pool.last_step endsBy_consoleBody rfl (run_pool hr) hret.1.1 hret.2

/-- A run of the threads is one with its history. -/
theorem exists_moment {p q : Pool World Query Answer Thread} (hr : Run ThreadStep p is q)
    {s : Moment} (hs : s.pool = p) : ∃ t, Run Step s is t ∧ t.pool = q := by
  induction hr generalizing s with
  | nil => exact ⟨s, .nil s, hs⟩
  | @cons p p' _ i _ hstep _ ih =>
      have hnext : Step s i ⟨p', s.handed ∪ {h | Waiting p'.shared h}⟩ := ⟨hs ▸ hstep, rfl⟩
      obtain ⟨t, hrun, ht⟩ := ih (s := ⟨p', s.handed ∪ {h | Waiting p'.shared h}⟩) rfl
      exact ⟨t, .cons hnext hrun, ht⟩

theorem handed_mono (hr : Run Step s is t) : s.handed ⊆ t.handed := by
  induction hr with
  | nil => exact subset_rfl
  | cons hs _ ih => exact (hs.2 ▸ Set.subset_union_left).trans ih

/-- A miner that keeps its hits and knows the difficulty it mines at. -/
def submitting : Supervisor where
  settings := { Settings.defaults with storeBlocks := true }
  networkOk := true
  networkDifficulty := some 1100
  engineDifficulty := 1100

/-- The worker has swapped the live queue into its batch. -/
def swapped (w : World) : World :=
  { w with
    sup := { w.sup with liveSubmitQ := [] }
    batches := Function.update w.batches .submit w.sup.liveSubmitQ }

/-- The mining thread hands over the hit it finds. -/
theorem exists_handed {again : Bool} {w : World}
    (hdrive : drive findsHit 40 { sup := submitting } (body .steps .mining) = some (again, w))
    (hqueue : w.sup.liveSubmitQ.map (·.hit.hashStr) = [encodedHit.hashStr]) :
    submitting.Starts ∧ ∃ is s, Run Step (starts submitting) is s ∧
      s.pool = ⟨w, Function.update (start submitting).prog .mining (.ret again)⟩ ∧
      encodedHit.hashStr ∈ s.handed := by
  have hstarts : submitting.Starts := ⟨⟨[], .nil _⟩, rfl, rfl, rfl⟩
  have hends : Ends (fun _ _ ↦ True) { sup := submitting } (body .steps .mining) again w :=
    ends_of_drive (fun _ ↦ trivial) hdrive
  have hidle : (start submitting).prog .mining = .ret true := rfl
  obtain ⟨is, hr⟩ := Pool.run_round hidle hends
  obtain ⟨s, hs, hpool⟩ := exists_moment hr (s := starts submitting) rfl
  refine ⟨hstarts, is, s, hs, hpool, handed_of_waiting hstarts hs (.inl ?_)⟩
  rw [hpool]
  have hmem : encodedHit.hashStr ∈ w.sup.liveSubmitQ.map (·.hit.hashStr) := by simp [hqueue]
  exact List.mem_map.mp hmem

/-- The handler runs alone, and returns. -/
theorem exists_returns {w' : World} (hidle : s.pool.prog .console = .ret true)
    (hdrive : drive findsHit 40 s.pool.shared (body .steps .console) = some (true, w')) :
    ∃ is u t, Run Step s is u ∧ Returns u t ∧ t.pool.shared = w' ∧ s.handed ⊆ t.handed := by
  have hends : Ends (fun _ _ ↦ True) s.pool.shared (body .steps .console) true w' :=
    ends_of_drive (fun _ ↦ trivial) hdrive
  have hbody : body .steps .console ≠ .ret true := by
    intro hret
    have := endsBy_consoleBody
    rw [hret] at this
    exact this
  obtain ⟨is, c, hr, hlast⟩ := Pool.run_round_last hidle hends hbody
  obtain ⟨u, hu, hpool⟩ := exists_moment hr rfl
  refine ⟨is, u, ⟨⟨w', Function.update s.pool.prog .console (.ret true)⟩,
    u.handed ∪ {h | Waiting w' h}⟩, hu, ⟨⟨hpool ▸ hlast, rfl⟩, by simp⟩, rfl, ?_⟩
  exact (handed_mono hu).trans Set.subset_union_left

theorem drive_swapped :
    ((drive findsHit 40 { sup := submitting } (body .steps .mining)).bind fun found ↦
      (drive findsHit 40 (swapped found.2) (body .steps .console)).map fun returned ↦
        (found.2.sup.liveSubmitQ.map (·.hit.hashStr), returned.1, returned.2.accepted,
          returned.2.sup.store.pending.map (·.hit.hashStr))) =
      some ([encodedHit.hashStr], true, [], []) := by decide +kernel

theorem drive_queued :
    ((drive findsHit 40 { sup := submitting } (body .steps .mining)).bind fun found ↦
      (drive findsHit 40 found.2 (body .steps .console)).map fun returned ↦
        (found.2.sup.liveSubmitQ.map (·.hit.hashStr), returned.1, returned.2.accepted,
          [returned.2.sup.liveSubmitQ, returned.2.batches .mining, returned.2.batches .submit,
            returned.2.batches .console])) =
      some ([encodedHit.hashStr], true, [], [[], [], [], []]) := by decide +kernel

end Moment

end Sup

end XNMiner
