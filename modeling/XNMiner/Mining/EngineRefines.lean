import XNMiner.Mining.EngineMail
import XNMiner.Mining.EngineStaff

/-!
# What a step does to the matches

Each step of the engine is a step of the system of `Lib/Custody.lean`, or a few.  Where requests
change or end, matches are discarded with them (`Discards`); a worker passes on what its lane had
kept and finds new matches; and the mining thread collects, returns, or abandons.
-/

namespace XNMiner

open Lib

namespace CudaEngine

variable {s t u : CudaEngine} {i : Nat}

/-! ## Requests that end -/

/-- Matches are lost only together with the request of their lane, or in the places `L`. -/
structure Discards (L : Place → Prop) (s t : CudaEngine) : Prop where
  epoch : ∀ i, (s.mailboxes i).epoch ≤ (t.mailboxes i).epoch
  hashed : t.hashed = s.hashed
  waves : t.waves = s.waves
  /-- The workers are the same, or new. -/
  workers : ∀ (i : Nat) (w : LaneWorker), t.workers[i]? = some w → s.workers[i]? = some w ∨ w = {}
  custody : ∀ p, t.custody p = s.custody p ∨ t.custody p ≤ s.custody p ∧
    (L p ∨ ∃ i, p.lane = some i ∧ (s.mailboxes i).epoch < (t.mailboxes i).epoch)

/-- What is lost in a step although the requests stay.  A plan with fewer lanes drops the snapshots
of the others, new workers start with empty rings, a `mine_batch` that throws drops what it has
read, and a wave that fails drops the snapshot of its lane. -/
def Loses (s : CudaEngine) : Act → Place → Prop
  | .setDifficulty m (some plan), .buffered i => m ≠ s.difficulty ∧ plan.lanes ≤ i
  | .restoreLaneCap (some plan), .buffered i =>
      s.maxLanesCap < s.configMaxLanes ∧ plan.lanes ≤ i
  | .proceed _, .unread _ => 1 < s.lanes ∧ ∃ next, s.pc = .joining next ∧ next ≠ .stopped
  | .proceed _, .absorbed => ∃ lane out totalHs, s.pc = .absorbing lane out totalHs ∧
      lane < s.lanes ∧ ¬ Good (s.mailboxes lane).ring.oldest
  | .worker i (.failed _), .buffered j =>
      j = i ∧ ∃ w req, s.workers[i]? = some w ∧ w.pc = .running req
  | _, _ => False

namespace Discards

variable {L : Place → Prop}

theorem trans (h : Discards L s t) (h' : Discards L t u) : Discards L s u where
  epoch := fun i ↦ (h.epoch i).trans (h'.epoch i)
  hashed := h'.hashed.trans h.hashed
  waves := h'.waves.trans h.waves
  workers := fun i w hw ↦ (h'.workers i w hw).elim (h.workers i w) .inr
  custody := fun p ↦ by
    rcases h.custody p with heq | ⟨hle, hwhy⟩
    · rcases h'.custody p with heq' | ⟨hle', hL | ⟨i, hi, hlt⟩⟩
      · exact .inl (heq'.trans heq)
      · exact .inr ⟨heq ▸ hle', .inl hL⟩
      · exact .inr ⟨heq ▸ hle', .inr ⟨i, hi, Nat.lt_of_le_of_lt (h.epoch i) hlt⟩⟩
    · refine .inr ⟨?_, hwhy.imp id fun ⟨i, hi, hlt⟩ ↦ ⟨i, hi, Nat.lt_of_lt_of_le hlt (h'.epoch i)⟩⟩
      rcases h'.custody p with heq' | ⟨hle', -⟩
      · exact heq' ▸ hle
      · exact hle'.trans hle

/-- Nothing is lost where every match stays in its place. -/
theorem of_custody (hepoch : ∀ i, (s.mailboxes i).epoch ≤ (t.mailboxes i).epoch)
    (hhashed : t.hashed = s.hashed) (hwaves : t.waves = s.waves)
    (hworkers : ∀ (i : Nat) (w : LaneWorker), t.workers[i]? = some w →
      s.workers[i]? = some w ∨ w = {})
    (hc : t.custody = s.custody) : Discards L s t :=
  ⟨hepoch, hhashed, hwaves, hworkers, fun p ↦ .inl (congrFun hc p)⟩

theorem refl (s : CudaEngine) : Discards L s s :=
  of_custody (fun _ ↦ Nat.le_refl _) rfl rfl (fun _ _ ↦ .inl) rfl

/-- Neither the lanes nor the workers nor the mailboxes change. -/
theorem of_same (hlanes : t.lanesImpl = s.lanesImpl) (hworkers : t.workers = s.workers)
    (hboxes : t.mailboxes = s.mailboxes) (hhashed : t.hashed = s.hashed)
    (hwaves : t.waves = s.waves) (hreturned : t.returned = s.returned)
    (hfound : t.pc.found = s.pc.found) : Discards L s t := by
  refine of_custody (fun i ↦ by rw [hboxes]) hhashed hwaves (fun i w hw ↦ .inl (hworkers ▸ hw)) ?_
  refine custody_ext (fun i ↦ ?_) (fun i ↦ ?_) (fun i ↦ by rw [hboxes]) hfound hreturned
  · rw [buffered, buffered, hlanes]
  · rw [held, held, hworkers]

theorem flow (h : SameFlow s t) : Discards L s t :=
  of_same h.lanesImpl h.workers h.mailboxes h.hashed h.waves h.returned (by rw [h.pc])

/-- A lane that goes takes its snapshot with it. -/
theorem syncLanes (hL : ∀ i, s.lanes ≤ i → i < s.lanesImpl.length → L (.buffered i)) :
    Discards L s s.syncLanes := by
  have hbuffered : ∀ i, s.syncLanes.buffered i = s.buffered i ∨
      s.syncLanes.buffered i = [] ∧ L (.buffered i) := by
    intro i
    by_cases hi : i < s.lanes
    · left
      simp only [buffered, CudaEngine.syncLanes, List.getElem?_append, List.getElem?_take,
        List.length_take, List.getElem?_replicate]
      by_cases hlen : i < s.lanesImpl.length
      · simp [hi, hlen]
      · have hnone : s.lanesImpl[i]? = none := List.getElem?_eq_none (Nat.le_of_not_lt hlen)
        have hnew : i - min s.lanes s.lanesImpl.length < s.lanes - s.lanesImpl.length := by omega
        simp [hi, hlen, hnew, CudaHashBackend.buffered]
    · have hgone : s.syncLanes.lanesImpl[i]? = none := by
        refine List.getElem?_eq_none ?_
        simp only [CudaEngine.syncLanes, List.length_append, List.length_take,
          List.length_replicate]
        omega
      have hnil : s.syncLanes.buffered i = [] := by
        rw [buffered, hgone]
      by_cases hlen : i < s.lanesImpl.length
      · exact .inr ⟨hnil, hL i (Nat.le_of_not_lt hi) hlen⟩
      · have hnone : s.lanesImpl[i]? = none := List.getElem?_eq_none (Nat.le_of_not_lt hlen)
        left
        rw [hnil, buffered, hnone]
  refine ⟨fun i ↦ Nat.le_refl _, rfl, rfl, fun _ _ ↦ .inl, fun p ↦ ?_⟩
  cases p with
  | buffered i =>
      rcases hbuffered i with heq | ⟨hnil, hi⟩
      · exact .inl (congrArg origins heq)
      · exact .inr ⟨le_of_eq_of_le (congrArg origins hnil) (Multiset.zero_le _), .inl hi⟩
  | unread | held | absorbed | returned => exact .inl rfl

/-- A request that changes takes the unread results with it. -/
theorem publish (hmail : MailInv s) (hfound : s.pc.found = []) (proto : Proto) :
    Discards L s (s.publish proto) := by
  have hask : ∀ i, (s.publish proto).mailboxes i = s.mailboxes i ∨
      ((s.publish proto).mailboxes i).unread = [] ∧
        (((s.publish proto).mailboxes i).epoch = (s.mailboxes i).epoch ∧
            (s.mailboxes i).unread = [] ∨
          ((s.publish proto).mailboxes i).epoch = (s.mailboxes i).epoch + 1) := by
    intro i
    simp only [CudaEngine.publish, LaneMailbox.ask]
    split
    · split
      · refine .inr ⟨by simp [LaneMailbox.unread], ?_⟩
        dsimp only
        split
        · next hagain => exact .inl ⟨rfl, hmail.unread_eq_nil hagain.1⟩
        · exact .inr rfl
      · exact .inl rfl
    · exact .inl rfl
  refine ⟨fun i ↦ ?_, rfl, rfl, fun _ _ ↦ .inl, fun p ↦ ?_⟩
  · rcases hask i with heq | ⟨-, ⟨hepoch, -⟩ | hepoch⟩
    · rw [heq]
    · rw [hepoch]
    · rw [hepoch]
      exact Nat.le_succ _
  cases p with
  | unread i =>
      rcases hask i with heq | ⟨hnil, ⟨-, hnone⟩ | hepoch⟩
      · exact .inl (congrArg (fun box : LaneMailbox ↦ origins box.unread) heq)
      · exact .inl (congrArg origins (hnil.trans hnone.symm))
      · refine .inr ⟨le_of_eq_of_le (congrArg origins hnil) (Multiset.zero_le _), .inr ⟨i, rfl, ?_⟩⟩
        rw [hepoch]
        exact Nat.lt_succ_self _
  | absorbed => exact .inl (congrArg foundOrigins hfound.symm)
  | buffered | held | returned => exact .inl rfl

theorem resume (hmail : MailInv s) (hfound : s.pc.found = []) (next : AfterJoin) :
    Discards L s (s.resume next) := by
  cases next with
  | ready => exact of_same rfl rfl rfl rfl rfl rfl hfound.symm
  | mine proto => exact publish hmail hfound proto
  | stopped =>
      refine ⟨fun i ↦ Nat.le_succ _, rfl, rfl, fun _ _ ↦ .inl, fun p ↦ ?_⟩
      cases p with
      | buffered i => exact .inr ⟨Multiset.zero_le _, .inr ⟨i, rfl, Nat.lt_succ_self _⟩⟩
      | absorbed => exact .inl (congrArg foundOrigins hfound.symm)
      | held | unread | returned => exact .inl rfl

theorem stopLaneWorkers (hfound : s.pc.found = []) (next : AfterJoin) :
    Discards L s (s.stopLaneWorkers next) := of_same rfl rfl rfl rfl rfl rfl hfound.symm

theorem ensureLaneWorkers (hmail : MailInv s) (hfound : s.pc.found = []) (next : AfterJoin) :
    Discards L s (s.ensureLaneWorkers next) := by
  rcases s.ensureLaneWorkers_cases next with heq | heq <;> rw [heq]
  · exact resume hmail hfound next
  · exact stopLaneWorkers hfound next

/-- New workers start with empty rings. -/
theorem respawn (hworkers : s.workers = []) (hL : ∀ i, L (.unread i)) :
    Discards L s s.respawn := by
  refine ⟨fun i ↦ Nat.le_refl _, rfl, rfl, fun i w hw ↦ .inr ?_, fun p ↦ ?_⟩
  · exact (List.mem_replicate.mp (List.mem_of_getElem? hw)).2
  cases p with
  | unread i =>
      have hnil : (s.respawn.mailboxes i).unread = [] := by
        simp [CudaEngine.respawn, LaneMailbox.reset, LaneMailbox.unread, Ring.unread]
      exact .inr ⟨le_of_eq_of_le (congrArg origins hnil) (Multiset.zero_le _), .inl (hL i)⟩
  | held i =>
      left
      have hheld : s.respawn.held i = [] := by
        unfold held
        split
        · rfl
        · next w hw =>
            obtain rfl := (List.mem_replicate.mp (List.mem_of_getElem? hw)).2
            rfl
      simp only [CudaEngine.custody, hheld, origins_nil]
      simp [held, hworkers]
  | buffered | absorbed | returned => exact .inl rfl

/-- Workers that have returned have nothing in their hands. -/
theorem joined (hmail : MailInv s) {next : AfterJoin} (hpc : s.pc = .joining next)
    (hreturned : ∀ w ∈ s.workers, w.pc = .returned)
    (hL : next ≠ .stopped → 1 < s.lanes → ∀ i, L (.unread i)) : Discards L s (s.joined next) := by
  have hfound : s.dismissed.pc.found = [] := by simp [dismissed, hpc, MiningPc.found]
  have hnone : Discards L s s.dismissed := by
    refine of_custody (fun _ ↦ Nat.le_refl _) rfl rfl (by simp [dismissed]) ?_
    refine custody_ext (fun _ ↦ rfl) (fun i ↦ ?_) (fun _ ↦ rfl) rfl rfl
    have hheld : s.held i = [] := by
      unfold held
      split
      · rfl
      · next w hw => simp [LaneWorker.held, hreturned w (List.mem_of_getElem? hw)]
    rw [hheld]
    rfl
  rcases s.joined_cases next with heq | ⟨hnext, hmany, heq⟩ <;> rw [heq]
  · exact hnone.trans (resume hmail.dismissed hfound next)
  · exact (hnone.trans (respawn rfl (hL hnext hmany))).trans
      (resume (s := s.dismissed.respawn) (MailInv.respawn _) hfound next)

theorem sameFlow_replan (hstarted : ¬ s.started = true) (m : Int) (plan : CudaVramPlan) :
    SameFlow s (s.replan m plan) := by
  unfold CudaEngine.replan
  dsimp only
  rw [if_neg hstarted]
  constructor <;> rfl

/-- A new plan may have fewer lanes. -/
theorem replan {plan : CudaVramPlan}
    (hL : ∀ i, plan.lanes ≤ i → i < s.lanesImpl.length → L (.buffered i)) (m : Int) :
    Discards L s (s.replan m plan) := by
  let u : CudaEngine := { s with
    difficulty := m
    planLanes := some plan.lanes
    lanes := plan.lanes
    plannedBatchPerLane := plan.plannedBatchPerLane
    batchPerLane := plan.batchPerLane }
  have hplan : Discards L s u := of_same rfl rfl rfl rfl rfl rfl rfl
  unfold CudaEngine.replan
  dsimp only
  split
  · exact hplan.trans (syncLanes (s := u) hL)
  · exact hplan

theorem ensureIfStarted (hmail : MailInv s) (hfound : s.pc.found = []) :
    Discards L s s.ensureIfStarted := by
  unfold CudaEngine.ensureIfStarted
  split
  · exact ensureLaneWorkers hmail hfound .ready
  · exact refl s

/-- An engine that is not started has no lane to lose. -/
theorem start (hpc : s.pc = .idle) (hmail : MailInv s) (hstaff : Staffed s) (configLanes : Nat)
    (plan : Option CudaVramPlan) : Discards L s (s.start configLanes plan) := by
  unfold CudaEngine.start
  split
  · exact refl s
  next hstarted =>
    let u : CudaEngine :=
      { s with configMaxLanes := max 1 configLanes, maxLanesCap := max 1 configLanes }
    have hcap : Discards L s u := of_same rfl rfl rfl rfl rfl rfl rfl
    cases plan with
    | none => exact hcap
    | some plan =>
        have hnone : s.lanesImpl = [] := hstaff.lanes (by simpa using hstarted)
        have hflow : SameFlow u (u.replan s.difficulty plan) :=
          sameFlow_replan (s := u) hstarted _ plan
        let v : CudaEngine := { (u.replan s.difficulty plan).syncLanes with started := true }
        have hlost : Discards L (u.replan s.difficulty plan)
            (u.replan s.difficulty plan).syncLanes := by
          refine syncLanes fun i _ hi ↦ absurd hi ?_
          rw [hflow.lanesImpl]
          simp [u, hnone]
        have hsync : Discards L s v :=
          ((hcap.trans (flow hflow)).trans hlost).trans (of_same rfl rfl rfl rfl rfl rfl rfl)
        have hmail₁ : MailInv v := hmail.of_same hflow.mailboxes hflow.workers
        have hidle : v.pc.found = [] := by
          rw [show v.pc = .idle from hflow.pc.trans hpc]
          rfl
        exact hsync.trans (ensureLaneWorkers hmail₁ hidle .ready)

/-- **A call loses matches only with the requests of lanes, or by a plan with fewer lanes**, except
that of an only lane. -/
theorem call (hpc : s.pc = .idle) (hmail : MailInv s) (hstaff : Staffed s) {a : Act}
    (hlanes : ∀ minutes now outcome, a = .mineBatch minutes now outcome → s.lanes ≠ 1) :
    Discards (s.Loses a) s (s.call a) := by
  have hidle {u : CudaEngine} (h : u.pc = .idle) : u.pc.found = [] := by
    rw [h]
    rfl
  have hfound := hidle hpc
  have hreturn (L : Place → Prop) : Discards L s (s.returnResult {}) :=
    of_same rfl rfl rfl rfl rfl (List.append_nil _) hfound.symm
  cases a with
  | start configLanes plan => exact start hpc hmail hstaff configLanes plan
  | setDifficulty m plan =>
      simp only [CudaEngine.call, CudaEngine.setDifficulty]
      split
      · exact refl s
      next hnew =>
        split
        · next hstarted =>
          cases plan with
          | none => exact of_same rfl rfl rfl rfl rfl rfl rfl
          | some plan =>
              have hm : m ≠ s.difficulty := fun hm ↦ hnew ⟨hm, hstarted⟩
              obtain ⟨hmail₁, hpc₁⟩ := MailInv.control.replan hpc hmail m plan
              exact (replan (fun i hi _ ↦ ⟨hm, hi⟩) m).trans
                (ensureLaneWorkers hmail₁ (hidle hpc₁) .ready)
        · exact of_same rfl rfl rfl rfl rfl rfl rfl
  | restoreLaneCap plan =>
      simp only [CudaEngine.call]
      split
      · exact refl s
      next hcap =>
        let u : CudaEngine := { s with maxLanesCap := s.configMaxLanes }
        have hu {L : Place → Prop} : Discards L s u := of_same rfl rfl rfl rfl rfl rfl rfl
        split
        · cases plan with
          | none => exact hu
          | some plan =>
              have hmail₀ : MailInv u := hmail.of_same rfl rfl
              obtain ⟨hmail₁, hpc₁⟩ := MailInv.control.replan (s := u) hpc hmail₀ s.difficulty plan
              exact (hu.trans (replan (fun i hi _ ↦ ⟨Nat.lt_of_not_le hcap, hi⟩) _)).trans
                (ensureLaneWorkers hmail₁ (hidle hpc₁) .ready)
        · exact hu
  | reduceLaneCap =>
      let cap := max 1 (s.maxLanesCap - 1)
      let u : CudaEngine := { s with maxLanesCap := cap, lanes := min s.lanes cap }
      have hu {L : Place → Prop} : Discards L s u := of_same rfl rfl rfl rfl rfl rfl rfl
      exact hu.trans (ensureIfStarted (hmail.of_same rfl rfl) hfound)
  | addLaneCap =>
      simp only [CudaEngine.call, CudaEngine.addLaneCap]
      split
      · exact refl s
      · refine Discards.trans ?_ (ensureIfStarted (hmail.of_same rfl rfl) hfound)
        exact of_same rfl rfl rfl rfl rfl rfl rfl
  | setBatch batch => exact of_same rfl rfl rfl rfl rfl rfl rfl
  | setQueueCounts pendingXuni => exact of_same rfl rfl rfl rfl rfl rfl rfl
  | stop => exact stopLaneWorkers hfound .stopped
  | mineBatch minutes now outcome =>
      have hproto := s.sameWork_protoOf minutes
      change Discards _ s (s.mineBatch minutes now outcome)
      rcases s.mineBatch_cases minutes now outcome with heq | ⟨-, hone, -⟩ | ⟨-, -, heq⟩
      · exact heq ▸ hreturn _
      · exact absurd hone (hlanes minutes now outcome rfl)
      · rw [heq]
        exact (flow hproto.toSameFlow).trans (ensureLaneWorkers
          (hmail.of_same hproto.mailboxes hproto.workers) (hproto.pc ▸ hfound) _)
  | drainPipeline =>
      simp only [CudaEngine.call]
      split
      · exact hreturn _
      · exact of_same rfl rfl rfl rfl rfl rfl hfound.symm
  | proceed | worker => exact refl s

end Discards

/-! ## What a worker does -/

variable {w : LaneWorker} {outcome : Outcome}

/-- What the step of a worker does to the matches. -/
inductive WorkerEffect (s : CudaEngine) (i : Nat) (w : LaneWorker) (outcome : Outcome)
    (t : CudaEngine) : Prop
  | rests : t.custody = s.custody → t.hashed = s.hashed → s.waves ≤ t.waves →
      WorkerEffect s i w outcome t
  /-- It answers with the snapshot of its lane, and finds what the next one will have. -/
  | hashes (req : HashApiRequest) (origin : Origin) : w.pc = .running req →
      i < s.lanesImpl.length →
      origin = { lane := i, wave := s.waves, epoch := w.epoch, req } →
      Run Custody.Step s.custody [.pass (.buffered i) (.held i) (s.custody (.buffered i)),
        .find (.buffered i) (origins (outcome.found origin))] t.custody →
      t.hashed = s.hashed ++ outcome.found origin → t.waves = s.waves + 1 →
      WorkerEffect s i w outcome t
  /-- The snapshot is dropped. -/
  | drops (req : HashApiRequest) (error : String) : w.pc = .running req →
      outcome = .failed error →
      Custody.Step s.custody
        (.lose (Function.update (fun _ ↦ 0) (.buffered i) (s.custody (.buffered i)))) t.custody →
      t.hashed = s.hashed → s.waves ≤ t.waves → WorkerEffect s i w outcome t
  | writes : Custody.Step s.custody (.pass (.held i) (.unread i) (s.custody (.held i)))
      t.custody → t.hashed = s.hashed → t.waves = s.waves → WorkerEffect s i w outcome t

/-- A worker with empty hands keeps them empty. -/
theorem WorkerEffect.of_setWorker {w' : LaneWorker} (hw : s.workers[i]? = some w)
    (hheld : w.held = []) (hheld' : w'.held = []) :
    WorkerEffect s i w outcome (s.setWorker i w') :=
  .rests (custody_setWorker_of_held hw (hheld'.trans hheld.symm)) rfl (Nat.le_refl _)

/-- What is in the hands of the worker of the lane. -/
theorem custody_held (hw : s.workers[i]? = some w) : s.custody (.held i) = origins w.held := by
  simp [custody, held, hw]

/-- What is in the snapshot of the lane. -/
theorem custody_buffered {b : CudaHashBackend} (hb : s.lanesImpl[i]? = some b) :
    s.custody (.buffered i) = origins b.buffered := by
  simp [custody, buffered, hb]

/-- A `runBatch`, in three steps: the answer, the new snapshot, and the wave in the books. -/
theorem custody_runBatch {b : CudaHashBackend} (hw : s.workers[i]? = some w)
    (hb : s.lanesImpl[i]? = some b) (b' : CudaHashBackend) (w' : LaneWorker)
    (found : List HashApiMatch) :
    (({ s with
      lanesImpl := s.lanesImpl.set i b'
      waves := s.waves + 1
      hashed := s.hashed ++ found } : CudaEngine).setWorker i w').custody =
      Function.update (Function.update s.custody (.buffered i) (origins b'.buffered)) (.held i)
        (origins w'.held) := by
  have hi : i < s.workers.length := (List.getElem?_eq_some_iff.mp hw).1
  have hb : i < s.lanesImpl.length := (List.getElem?_eq_some_iff.mp hb).1
  let u : CudaEngine := { s with
    lanesImpl := s.lanesImpl.set i b'
    waves := s.waves + 1
    hashed := s.hashed ++ found }
  have hset : u.custody = Function.update s.custody (.buffered i) (origins b'.buffered) :=
    custody_setLane hb
  rw [custody_setWorker (s := u) hi, hset]

/-- **What a `runBatch` does to the matches.** -/
theorem WorkerEffect.of_runBatch {req : HashApiRequest} {b b' : CudaHashBackend} {origin : Origin}
    {result : HashApiResult} {err : String} (hw : s.workers[i]? = some w)
    (hpc : w.pc = .running req) (hb : s.lanesImpl[i]? = some b)
    (horigin : origin = { lane := i, wave := s.waves, epoch := w.epoch, req })
    (hanswer : Answered b outcome origin result err b') :
    WorkerEffect s i w outcome (({ s with
      lanesImpl := s.lanesImpl.set i b'
      waves := s.waves + 1
      hashed := s.hashed ++ outcome.found origin } : CudaEngine).setWorker i
        { w with pc := .publishing req result err }) := by
  have hheld : s.custody (.held i) = 0 := by
    rw [custody_held hw]
    simp [LaneWorker.held, hpc]
  have hbuffered := custody_buffered hb
  have hne : Place.buffered i ≠ .held i := by simp
  have hcustody := custody_runBatch hw hb b' { w with pc := .publishing req result err }
    (outcome.found origin)
  cases hanswer with
  | hashed _ hmatches hfound =>
      refine .hashes req origin hpc (List.getElem?_eq_some_iff.mp hb).1 horigin ?_ rfl rfl
      rw [hcustody]
      have hpass : Custody.Step s.custody
          (.pass (.buffered i) (.held i) (s.custody (.buffered i)))
          (Function.update (Function.update s.custody (.buffered i) 0) (.held i)
            (s.custody (.held i) + s.custody (.buffered i))) :=
        Custody.pass_update hne (Multiset.add_zero _).symm
      refine .cons hpass (.single (.find ?_ fun p hp ↦ ?_))
      · rw [Function.update_of_ne hne, Function.update_of_ne hne, Function.update_self,
          Function.update_self, hfound, Multiset.zero_add]
      · by_cases hph : p = .held i
        · subst hph
          rw [Function.update_self, Function.update_self, hheld, Multiset.zero_add, hbuffered]
          exact congrArg origins hmatches
        · rw [Function.update_of_ne hph, Function.update_of_ne hph,
            Function.update_of_ne hp, Function.update_of_ne hp]
  | failed error houtcome _ hmatches hdropped =>
      have hnone : outcome.found origin = [] := by
        rw [houtcome]
        rfl
      refine .drops req error hpc houtcome ?_ (by simp [hnone, setWorker]) (Nat.le_succ _)
      have hsame : Function.update (Function.update s.custody (.buffered i) 0) (.held i) 0 =
          Function.update s.custody (.buffered i) 0 := by
        refine (Function.update_eq_self_iff ..).mpr ?_
        rw [Function.update_of_ne hne.symm, hheld]
      rw [hcustody, hdropped]
      have hempty : LaneWorker.held { w with pc := .publishing req result "" } = [] := hmatches
      rw [hempty, origins_nil, hsame]
      exact Custody.lose_update (Multiset.add_zero _).symm
  | kept hfound _ hmatches =>
      refine .rests ?_ (by simp [hfound, setWorker]) (Nat.le_succ _)
      have hempty : LaneWorker.held { w with pc := .publishing req result err } = [] := hmatches
      rw [hcustody, hempty, origins_nil, ← hbuffered, Function.update_eq_self]
      exact (Function.update_eq_self_iff ..).mpr hheld.symm

/-- The result goes into the ring, and the matches with it. -/
theorem custody_workerPublishing (h : RingInv s) (hw : s.workers[i]? = some w)
    {req : HashApiRequest} {result : HashApiResult} {err : String}
    (hpc : w.pc = .publishing req result err) :
    Custody.Step s.custody (.pass (.held i) (.unread i) (s.custody (.held i)))
      (s.workerPublishing i w req result err).custody := by
  have hi : i < s.workers.length := (List.getElem?_eq_some_iff.mp hw).1
  have hroom := h.room i w hw (by simp [LaneWorker.Producing, hpc])
  have hheld : s.custody (.held i) = origins result.matches := by
    rw [custody_held hw]
    simp [LaneWorker.held, hpc]
  have hunread : origins ({ s.mailboxes i with
      ring := (s.mailboxes i).ring.push (result, err) } : LaneMailbox).unread =
        s.custody (.unread i) + s.custody (.held i) := by
    rw [hheld, LaneMailbox.unread, Ring.unread_push (h.sound i) hroom, List.flatMap_append,
      origins_append]
    simp [custody, LaneMailbox.unread]
  have hcustody : (s.workerPublishing i w req result err).custody = Function.update
      (Function.update s.custody (.unread i) (s.custody (.unread i) + s.custody (.held i)))
      (.held i) 0 := by
    let u : CudaEngine := { s with
      mailboxes := Function.update s.mailboxes i
        { s.mailboxes i with ring := (s.mailboxes i).ring.push (result, err) } }
    have hset : u.custody = Function.update s.custody (.unread i)
        (s.custody (.unread i) + s.custody (.held i)) := by
      rw [← hunread]
      exact custody_setBox
    rw [← hset]
    exact custody_setWorker (s := u) hi
  rw [hcustody, Function.update_comm (by simp)]
  exact Custody.pass_update (by simp) (Multiset.add_zero _).symm

theorem WorkerMove.effect (hm : WorkerMove s i w outcome t) (h : RingInv s)
    (hw : s.workers[i]? = some w) : WorkerEffect s i w outcome t := by
  cases hm with
  | ends hpc _ => exact .of_setWorker hw (by simp [LaneWorker.held, hpc]) rfl
  | skips hpc _ =>
      exact .of_setWorker hw (by simp [LaneWorker.held, hpc]) (by simp [LaneWorker.held, hpc])
  | takes hpc _ _ => exact .of_setWorker hw (by simp [LaneWorker.held, hpc]) rfl
  | leaves req hpc => exact .of_setWorker hw (by simp [LaneWorker.held, hpc]) rfl
  | enters req hpc _ _ _ => exact .of_setWorker hw (by simp [LaneWorker.held, hpc]) rfl
  | lacks req hpc _ => exact .of_setWorker hw (by simp [LaneWorker.held, hpc]) rfl
  | hashes req b b' origin result err hpc hb horigin hanswer =>
      exact .of_runBatch hw hpc hb horigin hanswer
  | publishes req result err hpc => exact .writes (custody_workerPublishing h hw hpc) rfl rfl

/-! ## What the mining thread does -/

variable {now : String}

/-- The books and the requests stay as they are. -/
structure SameBooks (s t : CudaEngine) : Prop where
  hashed : t.hashed = s.hashed
  waves : t.waves = s.waves
  workers : t.workers = s.workers
  epoch : ∀ i, (t.mailboxes i).epoch = (s.mailboxes i).epoch

/-- What the mining thread does to the matches while it is in a call. -/
inductive MiningEffect (s : CudaEngine) (now : String) (t : CudaEngine) : Prop
  | discards : Discards (s.Loses (.proceed now)) s t → MiningEffect s now t
  | reads (lane : Nat) (out out' : MineBatchResult) (totalHs totalHs' : Rat)
      (ts : Multiset Origin) : s.pc = .absorbing lane out totalHs →
      t.pc = .absorbing (lane + 1) out' totalHs' →
      Custody.Step s.custody (.pass (.unread lane) .absorbed ts) t.custody → SameBooks s t →
      MiningEffect s now t
  | drains (lane : Nat) (out out' : MineBatchResult) : s.pc = .draining lane out →
      t.pc = .draining (lane + 1) out' →
      Custody.Step s.custody (.pass (.buffered lane) .absorbed (s.custody (.buffered lane)))
        t.custody → SameBooks s t → MiningEffect s now t
  | throws (lane : Nat) (out : MineBatchResult) (totalHs : Rat) :
      s.pc = .absorbing lane out totalHs → lane < s.lanes →
      ¬ Good (s.mailboxes lane).ring.oldest →
      Custody.Step s.custody
        (.lose (Function.update (fun _ ↦ 0) .absorbed (s.custody .absorbed))) t.custody →
      SameBooks s t → MiningEffect s now t
  | returns : t.pc = .idle →
      Custody.Step s.custody (.pass .absorbed .returned (s.custody .absorbed)) t.custody →
      SameBooks s t → MiningEffect s now t

/-- What a call has collected is returned. -/
theorem custody_returnResult {out : MineBatchResult}
    (hout : foundOrigins out.hits = s.custody .absorbed) :
    Custody.Step s.custody (.pass .absorbed .returned (s.custody .absorbed))
      (s.returnResult out).custody := by
  refine .pass (by simp) ?_ ?_ fun p hp hq ↦ ?_
  · exact (Multiset.add_zero _).symm
  · change foundOrigins (s.returned ++ out.hits) = _
    rw [foundOrigins_append, hout]
    rfl
  · cases p with
    | absorbed => exact absurd rfl hp
    | returned => exact absurd rfl hq
    | buffered | held | unread => rfl

theorem custody_sameFlow (h : SameFlow s t) : t.custody = s.custody := by
  refine custody_ext (fun i ↦ ?_) (fun i ↦ ?_) (fun i ↦ ?_) (by rw [h.pc]) h.returned
  · rw [buffered, buffered, h.lanesImpl]
  · rw [held, held, h.workers]
  · rw [h.mailboxes]

/-- A call that returns what it has collected, after some more bookkeeping. -/
theorem MiningEffect.of_return {out : MineBatchResult} (hsame : SameFlow s u)
    (heq : t = u.returnResult out) (hout : foundOrigins out.hits = s.custody .absorbed) :
    MiningEffect s now t := by
  have hcustody := custody_sameFlow hsame
  subst heq
  refine .returns rfl ?_ ⟨hsame.hashed, hsame.waves, hsame.workers, fun i ↦ ?_⟩
  · rw [← hcustody]
    exact custody_returnResult (hout.trans (by rw [hcustody]))
  · change (u.mailboxes i).epoch = _
    rw [hsame.mailboxes]

/-- What is taken out of a place goes to what the call has collected. -/
theorem custody_collect {p : Place} {ts rest : Multiset Origin} {pc : MiningPc}
    (hne : p ≠ .absorbed) (hp : s.custody p = ts + rest)
    (hu : u.custody = Function.update s.custody p rest)
    (hfound : foundOrigins pc.found = s.custody .absorbed + ts) :
    Custody.Step s.custody (.pass p .absorbed ts) ({ u with pc } : CudaEngine).custody := by
  have hcustody : ({ u with pc } : CudaEngine).custody =
      Function.update (Function.update s.custody p rest) .absorbed (s.custody .absorbed + ts) := by
    rw [← hu, ← hfound]
    exact custody_setPc
  rw [hcustody]
  exact Custody.pass_update hne hp

theorem MiningMove.effect (hm : MiningMove s now t) (h : RingInv s) (hmail : MailInv s) :
    MiningEffect s now t := by
  cases hm with
  | joins next hpc hreturned =>
      exact .discards (.joined hmail hpc hreturned fun hnext hmany i ↦ ⟨hmany, next, hpc, hnext⟩)
  | reads hpc _ =>
      refine .discards (.of_same rfl rfl rfl rfl rfl rfl ?_)
      rw [hpc]
      rfl
  | absorbs lane out totalHs hps out' totalHs' hpc hlane hgood hhits =>
      have hready := h.ready lane out totalHs hpc lane (Nat.le_refl _) hlane
      let box := { s.mailboxes lane with ring := (s.mailboxes lane).ring.pop }
      let u : CudaEngine := { s with mailboxes := Function.update s.mailboxes lane box }
      let pc' : MiningPc := .absorbing (lane + 1) (s.addMatches now
        (s.mailboxes lane).ring.oldest.1.attempts hps
        (s.mailboxes lane).ring.oldest.1.matches out') totalHs'
      have hunread : s.custody (.unread lane) =
          origins (s.mailboxes lane).ring.oldest.1.matches + origins box.unread := by
        simp only [custody, LaneMailbox.unread, box, Ring.unread_eq_cons hready,
          List.flatMap_cons, origins_append]
      have hfound : foundOrigins pc'.found = s.custody .absorbed +
          origins (s.mailboxes lane).ring.oldest.1.matches := by
        simp only [pc', MiningPc.found, foundOrigins_addMatches, hhits, custody, hpc]
      refine .reads lane out _ totalHs totalHs' (origins (s.mailboxes lane).ring.oldest.1.matches)
        hpc rfl ?_ ⟨rfl, rfl, rfl, fun j ↦ ?_⟩
      · exact custody_collect (u := u) (by simp) hunread custody_setBox hfound
      · by_cases hj : j = lane
        · subst hj
          simp
        · simp [hj]
  | throws lane out totalHs what hpc hlane hbad =>
      refine .throws lane out totalHs hpc hlane hbad ?_ ⟨rfl, rfl, rfl, fun _ ↦ rfl⟩
      have hcustody : ({ s with pc := .idle } : CudaEngine).custody =
          Function.update s.custody .absorbed 0 := custody_setPc
      change Custody.Step _ _ ({ s with pc := .idle } : CudaEngine).custody
      rw [hcustody]
      exact Custody.lose_update (Multiset.add_zero _).symm
  | finishes lane out totalHs hpc _ =>
      obtain ⟨u, hsame, out', heq, hperm⟩ := s.finishMine_flow out totalHs
      refine .of_return hsame.toSameFlow heq ?_
      have horigins : (out.hits.map fun f : Found ↦ { f with
          hit := { f.hit with hps := totalHs } }).map Found.origin = out.hits.map Found.origin := by
        rw [List.map_map]
        rfl
      simp only [custody, hpc, MiningPc.found, foundOrigins, ← horigins]
      exact Multiset.coe_eq_coe.mpr (hperm.map _)
  | drains lane out backend attempts out' hpc hb hhits =>
      obtain ⟨-, -, hempty⟩ := backend.drainPipeline_spec
      have hlane : lane < s.lanesImpl.length := (List.getElem?_eq_some_iff.mp hb).1
      let u := s.emptyLane lane backend
      let pc' : MiningPc := .draining (lane + 1)
        (u.addMatches now attempts s.lastHashrate backend.buffered out')
      have hfound : foundOrigins pc'.found = s.custody .absorbed + s.custody (.buffered lane) := by
        simp only [pc', MiningPc.found, foundOrigins_addMatches, hhits, custody_buffered hb]
        simp only [custody, hpc, MiningPc.found]
      refine .drains lane out _ hpc rfl ?_ ⟨rfl, rfl, rfl, fun _ ↦ rfl⟩
      have hlaneEmpty : u.custody = Function.update s.custody (.buffered lane) 0 := by
        rw [← origins_nil, ← hempty]
        exact custody_setLane hlane
      exact custody_collect (u := u) (by simp) (Multiset.add_zero _).symm hlaneEmpty hfound
  | drained lane out hpc _ =>
      obtain ⟨u, hsame, out', heq, hhits⟩ := s.finishDrain_flow out
      refine .of_return hsame.toSameFlow heq ?_
      simp only [custody, hpc, MiningPc.found, hhits]

end CudaEngine

end XNMiner
