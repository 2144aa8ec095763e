import XNMiner.Mining.EngineCustody
import XNMiner.Mining.EngineFrames

/-!
# What a step can do

The step function of the engine, read backwards: `WorkerMove` has a constructor for each thing
that a worker can do, and `MiningMove` one for each thing that the mining thread can do while it
is in a call.  Invariants are proved from these.
-/

namespace XNMiner

open Lib

namespace CudaEngine

variable {s t : CudaEngine}

/-- A worker after `setWorker` is the new one, or an old one of another lane. -/
theorem workers_setWorker {i j : Nat} {w v : LaneWorker}
    (h : (s.setWorker i w).workers[j]? = some v) :
    (j = i ∧ v = w) ∨ (j ≠ i ∧ s.workers[j]? = some v) := by
  by_cases hj : i = j
  · subst hj
    have hlt : i < s.workers.length := by
      have := (List.getElem?_eq_some_iff.mp h).1
      simpa [setWorker] using this
    rw [setWorker, List.getElem?_set_self hlt] at h
    exact .inl ⟨rfl, (Option.some.inj h).symm⟩
  · rw [setWorker, List.getElem?_set_ne hj] at h
    exact .inr ⟨fun hji ↦ hj hji.symm, h⟩

/-- What a `runBatch` can give: an answer, an exception and the backend after it. -/
inductive Answered (b : CudaHashBackend) (outcome : Outcome) (origin : Origin) :
    HashApiResult → String → CudaHashBackend → Prop
  /-- The matches of the wave before, and those of the new one in the snapshot. -/
  | hashed {result : HashApiResult} {b' : CudaHashBackend} : result.ok = true →
      result.matches = b.buffered → b'.buffered = outcome.found origin →
      Answered b outcome origin result "" b'
  /-- No matches, and the snapshot is dropped. -/
  | failed {result : HashApiResult} {b' : CudaHashBackend} (error : String) :
      outcome = .failed error → result.ok = false → result.matches = [] → b'.buffered = [] →
      Answered b outcome origin result "" b'
  /-- No matches, and the snapshot is kept. -/
  | kept {result : HashApiResult} {err : String} : outcome.found origin = [] →
      result.ok = false → result.matches = [] → Answered b outcome origin result err b

/-- What the caller of `runBatch` has in its hands. -/
def inHands : Except String HashApiResult → HashApiResult × String
  | .ok result => (result, "")
  | .error what => ({}, what)

theorem runBatch_answered (b : CudaHashBackend) (req : HashApiRequest) (origin : Origin)
    (outcome : Outcome) :
    Answered b outcome origin (inHands (b.runBatch req origin outcome).1).1
      (inHands (b.runBatch req origin outcome).1).2 (b.runBatch req origin outcome).2 := by
  cases outcome with
  | hashed found hashrate => exact .hashed rfl rfl rfl
  | unready hashrate => exact .hashed rfl rfl rfl
  | failed error => exact .failed error rfl rfl rfl rfl
  | refused error => exact .kept rfl rfl rfl
  | threw what => exact .kept rfl rfl rfl

/-! ## The moves of a worker -/

/-- What the worker `w` of the lane can do. -/
inductive WorkerMove (s : CudaEngine) (i : Nat) (w : LaneWorker) (outcome : Outcome) :
    CudaEngine → Prop
  | ends : w.pc = .waiting → s.workersStop = true →
      WorkerMove s i w outcome (s.setWorker i { w with pc := .returned })
  /-- A request that it cannot work on. -/
  | skips : w.pc = .waiting → s.workersStop = false →
      WorkerMove s i w outcome (s.setWorker i
        { w with seen := (s.mailboxes i).seq, epoch := (s.mailboxes i).epoch })
  | takes : w.pc = .waiting → s.workersStop = false → (s.mailboxes i).seq ≠ w.seen →
      WorkerMove s i w outcome (s.setWorker i
        { seen := (s.mailboxes i).seq
          epoch := (s.mailboxes i).epoch
          pc := .looping ((s.mailboxes i).request i) })
  | leaves (req : HashApiRequest) : w.pc = .looping req →
      WorkerMove s i w outcome (s.setWorker i { w with pc := .waiting })
  | enters (req : HashApiRequest) : w.pc = .looping req → s.workersStop = false →
      (s.mailboxes i).seq = w.seen → (s.mailboxes i).ring.HasRoom →
      WorkerMove s i w outcome (s.setWorker i { w with pc := .running req })
  /-- The lane is gone. -/
  | lacks (req : HashApiRequest) : w.pc = .running req → s.lanesImpl.length ≤ i →
      WorkerMove s i w outcome
        (s.setWorker i { w with pc := .publishing req {} "lane worker failed" })
  | hashes (req : HashApiRequest) (b b' : CudaHashBackend) (origin : Origin)
      (result : HashApiResult) (err : String) : w.pc = .running req →
      s.lanesImpl[i]? = some b → origin = { lane := i, wave := s.waves, epoch := w.epoch, req } →
      Answered b outcome origin result err b' →
      WorkerMove s i w outcome (({ s with
        lanesImpl := s.lanesImpl.set i b'
        waves := s.waves + 1
        hashed := s.hashed ++ outcome.found origin } : CudaEngine).setWorker i
          { w with pc := .publishing req result err })
  | publishes (req : HashApiRequest) (result : HashApiResult) (err : String) :
      w.pc = .publishing req result err →
      WorkerMove s i w outcome (s.workerPublishing i w req result err)

/-- **The step of a worker is one of its moves.** -/
theorem workerStep_inv {i : Nat} {outcome : Outcome} (h : s.workerStep i outcome = some t) :
    ∃ w, s.workers[i]? = some w ∧ WorkerMove s i w outcome t := by
  unfold workerStep at h
  cases hw : s.workers[i]? with
  | none =>
      rw [hw] at h
      cases h
  | some w =>
      rw [hw] at h
      refine ⟨w, rfl, ?_⟩
      cases hpc : w.pc with
      | waiting =>
          simp only [hpc, workerWaiting] at h
          split at h
          · next hstop =>
              obtain rfl := Option.some.inj h
              exact .ends hpc hstop
          · next hstop =>
              have hgo : s.workersStop = false := by simpa using hstop
              split at h
              · cases h
              · next hseq =>
                  split at h
                  · obtain rfl := Option.some.inj h
                    rw [← hpc]
                    exact .skips hpc hgo
                  split at h
                  · obtain rfl := Option.some.inj h
                    rw [← hpc]
                    exact .skips hpc hgo
                  · obtain rfl := Option.some.inj h
                    exact .takes hpc hgo hseq
      | looping req =>
          simp only [hpc, workerLooping] at h
          split at h
          · obtain rfl := Option.some.inj h
            exact .leaves req hpc
          · next hgo =>
              split at h
              · next hroom =>
                  obtain rfl := Option.some.inj h
                  obtain ⟨hstop, hseq⟩ := not_or.mp hgo
                  exact .enters req hpc (by simpa using hstop) (by simpa using hseq) hroom
              · cases h
      | running req =>
          simp only [hpc] at h
          obtain rfl := Option.some.inj h
          unfold workerRunning
          split
          · next hnone => exact .lacks req hpc (List.getElem?_eq_none_iff.mp hnone)
          · next b hb =>
              exact .hashes req b _ _ _ _ hpc hb rfl (runBatch_answered b req _ outcome)
      | publishing req result err =>
          simp only [hpc] at h
          obtain rfl := Option.some.inj h
          exact .publishes req result err hpc
      | returned =>
          simp only [hpc] at h
          cases h

/-- What no worker touches. -/
structure SameCall (s t : CudaEngine) : Prop where
  settings : t.settings = s.settings
  difficulty : t.difficulty = s.difficulty
  activePayout : t.activePayout = s.activePayout
  activeSalt : t.activeSalt = s.activeSalt
  miningFee : t.miningFee = s.miningFee
  lanes : t.lanes = s.lanes
  pc : t.pc = s.pc
  returned : t.returned = s.returned
  lastCall : t.lastCall = s.lastCall
  asked : t.asked = s.asked
  drained : t.drained = s.drained

variable {i : Nat} {w : LaneWorker} {outcome : Outcome}

theorem WorkerMove.sameCall (hm : WorkerMove s i w outcome t) : SameCall s t := by
  cases hm <;> constructor <;> rfl

/-- A worker changes a mailbox only where it writes its result into the ring of its lane. -/
theorem WorkerMove.mailboxes (hm : WorkerMove s i w outcome t) :
    t.mailboxes = s.mailboxes ∨ ∃ req result err, w.pc = .publishing req result err ∧
      t.mailboxes = Function.update s.mailboxes i
        { s.mailboxes i with ring := (s.mailboxes i).ring.push (result, err) } := by
  cases hm with
  | publishes req result err hpc => exact .inr ⟨req, result, err, hpc, rfl⟩
  | ends | skips | takes | leaves | enters | lacks | hashes => exact .inl rfl

/-! ## The moves of the mining thread in a call -/

/-- The result can be read without an exception. -/
def Good (entry : HashApiResult × String) : Prop := entry.2 = "" ∧ entry.1.ok = true

instance (entry : HashApiResult × String) : Decidable (Good entry) :=
  inferInstanceAs (Decidable (_ ∧ _))

/-- The lane after `drain_pipeline` has taken its snapshot. -/
def emptyLane (s : CudaEngine) (lane : Nat) (backend : CudaHashBackend) : CudaEngine :=
  { s with
    lanesImpl := s.lanesImpl.set lane backend.drainPipeline.2
    drained := Function.update s.drained lane true }

/-- What the mining thread can do inside a call. -/
inductive MiningMove (s : CudaEngine) (now : String) : CudaEngine → Prop
  | joins (next : AfterJoin) : s.pc = .joining next → (∀ w ∈ s.workers, w.pc = .returned) →
      MiningMove s now (s.joined next)
  | reads : s.pc = .waiting → (∀ i < s.lanes, (s.mailboxes i).Ready) →
      MiningMove s now { s with pc := .absorbing 0 {} 0 }
  | absorbs (lane : Nat) (out : MineBatchResult) (totalHs : Rat) (hps : Rat)
      (out' : MineBatchResult) (totalHs' : Rat) :
      s.pc = .absorbing lane out totalHs → lane < s.lanes →
      Good (s.mailboxes lane).ring.oldest → out'.hits = out.hits →
      MiningMove s now { s with
        mailboxes := Function.update s.mailboxes lane
          { s.mailboxes lane with ring := (s.mailboxes lane).ring.pop }
        pc := .absorbing (lane + 1) (s.addMatches now (s.mailboxes lane).ring.oldest.1.attempts hps
          (s.mailboxes lane).ring.oldest.1.matches out') totalHs' }
  | throws (lane : Nat) (out : MineBatchResult) (totalHs : Rat) (what : String) :
      s.pc = .absorbing lane out totalHs → lane < s.lanes →
      ¬ Good (s.mailboxes lane).ring.oldest → MiningMove s now (s.abandon what)
  | finishes (lane : Nat) (out : MineBatchResult) (totalHs : Rat) :
      s.pc = .absorbing lane out totalHs → s.lanes ≤ lane →
      MiningMove s now (s.finishMine out totalHs)
  | drains (lane : Nat) (out : MineBatchResult) (backend : CudaHashBackend) (attempts : Nat)
      (out' : MineBatchResult) :
      s.pc = .draining lane out → s.lanesImpl[lane]? = some backend → out'.hits = out.hits →
      MiningMove s now { s.emptyLane lane backend with
        pc := .draining (lane + 1) ((s.emptyLane lane backend).addMatches now attempts
          s.lastHashrate backend.buffered out') }
  | drained (lane : Nat) (out : MineBatchResult) :
      s.pc = .draining lane out → s.lanesImpl.length ≤ lane →
      MiningMove s now (s.finishDrain out)

/-- A result that is read advances the ring, or the call throws. -/
theorem absorbLane_cases {now : String} {lane : Nat} {out : MineBatchResult} {totalHs : Rat}
    (hpc : s.pc = .absorbing lane out totalHs) (hlane : lane < s.lanes) :
    MiningMove s now (s.absorbLane now lane out totalHs) := by
  unfold absorbLane
  dsimp only
  split
  · next herr => exact .throws lane out totalHs _ hpc hlane fun hgood ↦ herr hgood.1
  · next herr =>
      rcases s.absorb_cases now (s.mailboxes lane).ring.oldest.1 out totalHs with
        ⟨hok, heq⟩ | ⟨hok, hps, out', totalHs', heq, hhits⟩
      · rw [heq]
        exact .throws lane out totalHs _ hpc hlane fun hgood ↦ by
          rw [hgood.2] at hok
          cases hok
      · rw [heq]
        exact .absorbs lane out totalHs hps out' totalHs' hpc hlane
          ⟨by simpa using herr, hok⟩ hhits

/-- Draining a lane never fails. -/
theorem drainLane_cases {now : String} {lane : Nat} {out : MineBatchResult}
    (hpc : s.pc = .draining lane out) : MiningMove s now (s.drainLane now lane out) := by
  unfold drainLane
  split
  · next hnone =>
      exact .drained lane out hpc (List.getElem?_eq_none_iff.mp hnone)
  · next backend hsome =>
      obtain ⟨hok, hmatches, -⟩ := backend.drainPipeline_spec
      dsimp only
      rw [hok, hmatches, if_neg (by simp)]
      exact .drains lane out backend _ _ hpc hsome rfl

/-- **The step of the mining thread in a call is one of its moves.** -/
theorem proceed_inv {now : String} (h : s.proceed now = some t) : MiningMove s now t := by
  unfold proceed at h
  cases hpc : s.pc with
  | idle =>
      rw [hpc] at h
      cases h
  | joining next =>
      simp only [hpc] at h
      split at h
      · next hall =>
          obtain rfl := Option.some.inj h
          refine .joins next hpc fun w hw ↦ ?_
          have hret := List.all_eq_true.mp hall w hw
          split at hret
          · assumption
          · cases hret
      · cases h
  | waiting =>
      simp only [hpc] at h
      split at h
      · next hready =>
          obtain rfl := Option.some.inj h
          exact .reads hpc hready
      · cases h
  | absorbing lane out totalHs =>
      simp only [hpc] at h
      obtain rfl := Option.some.inj h
      split
      · next hlane => exact absorbLane_cases hpc hlane
      · next hlane => exact .finishes lane out totalHs hpc (Nat.le_of_not_lt hlane)
  | draining lane out =>
      simp only [hpc] at h
      obtain rfl := Option.some.inj h
      exact drainLane_cases hpc

/-! ## Steps -/

/-- What happens from the start of a call to the next. -/
def Act.Inside : Act → Prop
  | .proceed _ | .worker .. => True
  | _ => False

/-- What a step can be. -/
inductive Moves (s : CudaEngine) : Act → CudaEngine → Prop
  | worker {i : Nat} {w : LaneWorker} {outcome : Outcome} {t : CudaEngine} :
      s.workers[i]? = some w → WorkerMove s i w outcome t → Moves s (.worker i outcome) t
  | proceed {now : String} {t : CudaEngine} : MiningMove s now t → Moves s (.proceed now) t
  /-- A call begins. -/
  | call (a : Act) : s.pc = .idle → ¬ a.Inside → Moves s a (s.call a)

/-- A call begins only when the last one has ended. -/
theorem begin_inv {a : Act} (hout : ¬ a.Inside) (hs : Step s a t) :
    s.pc = .idle ∧ s.call a = t := by
  cases a with
  | proceed | worker => exact absurd trivial hout
  | start | stop | setDifficulty | restoreLaneCap | reduceLaneCap | addLaneCap | setBatch
    | setQueueCounts | mineBatch | drainPipeline =>
      unfold Step CudaEngine.step at hs
      dsimp only at hs
      split at hs
      · next hpc => exact ⟨hpc, Option.some.inj hs⟩
      · cases hs

/-- **A step is a move of a worker, of the mining thread in a call, or the beginning of a call.** -/
theorem step_inv {a : Act} (hs : Step s a t) : Moves s a t := by
  by_cases hin : a.Inside
  · cases a with
    | proceed now => exact .proceed (proceed_inv hs)
    | worker i outcome =>
        obtain ⟨w, hw, hm⟩ := workerStep_inv hs
        exact .worker hw hm
    | start | stop | setDifficulty | restoreLaneCap | reduceLaneCap | addLaneCap | setBatch
      | setQueueCounts | mineBatch | drainPipeline => exact hin.elim
  · obtain ⟨hpc, rfl⟩ := begin_inv hin hs
    exact .call a hpc hin

/-- A step inside a call is a move of a worker or of the mining thread. -/
theorem step_inside {a : Act} (ha : a.Inside) (hs : Step s a t) :
    (∃ i w outcome, s.workers[i]? = some w ∧ WorkerMove s i w outcome t) ∨
      ∃ now, MiningMove s now t := by
  cases step_inv hs with
  | worker hw hm => exact .inl ⟨_, _, _, hw, hm⟩
  | proceed hm => exact .inr ⟨_, hm⟩
  | call a _ hout => exact absurd ha hout

/-! ## The wave of the only lane -/

/-- The only lane has hashed a wave. -/
def hashedOneLane (s : CudaEngine) (proto : Proto) (lanesImpl : List CudaHashBackend)
    (found : List HashApiMatch) : CudaEngine :=
  { s with
    lanesImpl
    waves := s.waves + 1
    hashed := s.hashed ++ found
    asked := some (proto.salt, toUint32 s.difficulty)
    drained := fun _ ↦ false }

/-- What `mine_batch` can do with its only lane. -/
inductive OneLaneMove (s : CudaEngine) (proto : Proto) (now : String) (outcome : Outcome) :
    CudaEngine → Prop
  | lacks : s.lanesImpl = [] → OneLaneMove s proto now outcome s
  | throws (b b' : CudaHashBackend) (rest : List CudaHashBackend) (origin : Origin)
      (result : HashApiResult) (err what : String) : s.lanesImpl = b :: rest →
      (origin.req.saltHex, origin.req.difficulty) = (proto.salt, toUint32 s.difficulty) →
      Answered b outcome origin result err b' → result.ok = false →
      OneLaneMove s proto now outcome
        ((s.hashedOneLane proto (b' :: rest) (outcome.found origin)).abandon what)
  | returns (b b' : CudaHashBackend) (rest : List CudaHashBackend) (origin : Origin)
      (result : HashApiResult) (err : String) (hps totalHs : Rat) (out : MineBatchResult) :
      s.lanesImpl = b :: rest →
      (origin.req.saltHex, origin.req.difficulty) = (proto.salt, toUint32 s.difficulty) →
      Answered b outcome origin result err b' → result.ok = true → out.hits = [] →
      OneLaneMove s proto now outcome
        ((s.hashedOneLane proto (b' :: rest) (outcome.found origin)).finishMine
          ((s.hashedOneLane proto (b' :: rest) (outcome.found origin)).addMatches now
            result.attempts hps result.matches out) totalHs)

theorem absorb_error {now : String} {result : HashApiResult} {out : MineBatchResult}
    {totalHs : Rat} {what : String} (h : s.absorb now result out totalHs = .error what) :
    result.ok = false := by
  rcases s.absorb_cases now result out totalHs with ⟨hok, -⟩ | ⟨-, hps, out', totalHs', heq, -⟩
  · exact hok
  · rw [heq] at h
    cases h

theorem absorb_ok {now : String} {result : HashApiResult} {out out₁ : MineBatchResult}
    {totalHs totalHs₁ : Rat} (h : s.absorb now result out totalHs = .ok (out₁, totalHs₁)) :
    result.ok = true ∧ ∃ hps out', out₁ = s.addMatches now result.attempts hps result.matches out' ∧
      out'.hits = out.hits := by
  rcases s.absorb_cases now result out totalHs with
    ⟨-, heq⟩ | ⟨hok, hps, out', totalHs', heq, hhits⟩
  · rw [heq] at h
    cases h
  · rw [heq] at h
    exact ⟨hok, hps, out', (Prod.mk.inj (Except.ok.inj h)).1.symm, hhits⟩

theorem mineOneLane_cases (s : CudaEngine) (proto : Proto) (now : String) (outcome : Outcome) :
    OneLaneMove s proto now outcome (s.mineOneLane proto now outcome) := by
  unfold mineOneLane
  split
  · next hnil => exact .lacks hnil
  · next b rest hlanes =>
      let req : HashApiRequest := {
        saltHex := proto.salt
        keyPrefix := lanePrefix 0
        difficulty := toUint32 s.difficulty
        batchSize := s.batchPerLane.toNat
        arenaBatchSize := (max s.plannedBatchPerLane s.batchPerLane).toNat
        allowXuni := proto.allowXuniBase && decide (0 < proto.xuniLanes) }
      let origin : Origin := { lane := 0, wave := s.waves, epoch := (s.mailboxes 0).epoch, req }
      have hanswer := runBatch_answered b req origin outcome
      dsimp only
      split
      · next what hrun =>
          rw [hrun] at hanswer
          exact .throws b _ rest origin _ _ what hlanes rfl hanswer rfl
      · next result hrun =>
          rw [hrun] at hanswer
          split
          · next what habs =>
              exact .throws b _ rest origin _ _ what hlanes rfl hanswer (absorb_error habs)
          · next out totalHs habs =>
              obtain ⟨hok, hps, out', rfl, hhits⟩ := absorb_ok habs
              exact .returns b _ rest origin _ _ hps totalHs out' hlanes rfl hanswer hok hhits

/-! ## A miner with two lanes -/

/-- The settings of a miner that has an account. -/
def minerSettings : Settings :=
  { Settings.defaults with address := "0x1111111111111111111111111111111111111111" }

def twoLanes : CudaVramPlan where
  lanes := 2
  plannedBatchPerLane := 64
  batchPerLane := 64
  one_le_lanes := by decide

/-- A key that makes a block. -/
def aMatch : String × String × String :=
  ("00000000000000000000000000000000000000000000000000000000000000ab", "XEN11", "XEN11")

/-- The call of `mine_batch` in the middle of an hour, without XUNI blocks. -/
def mineOnce : Act := .mineBatch (30, 30, 30) "" (.hashed [] 0)

/-- The workers start, and both lanes are asked. -/
def twoLanesAsked : List Act :=
  [.start 2 (some twoLanes), .proceed "", mineOnce, .worker 0 (.hashed [] 0),
    .worker 1 (.hashed [] 0)]

/-- A worker enters a wave, hashes it, and writes the result. -/
def oneWave (lane : Nat) (outcome : Outcome) : List Act :=
  [.worker lane outcome, .worker lane outcome, .worker lane outcome]

end CudaEngine

end XNMiner
