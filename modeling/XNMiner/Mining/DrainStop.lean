import XNMiner.Mining.EngineBooks

/-!
# Draining before a stop

`drain_pipeline` takes the snapshots of the lanes, one after the other.  What is in a ring, or in
the hands of a worker, stays where it is, and so does what a worker puts there while the drain is
on its way; a `stop` that follows leaves it there for good.

`Behind` are the places that a drain does not come to any more.  They are `Clean` of matches of
value when the drain is over exactly if they were when it began and every wave since then was
`Tidy` (`clean_iff`); and then, and only then, everything of value has been returned.
-/

namespace XNMiner

open Lib

/-- The wave is hashed, so that `runBatch` answers with the snapshot. -/
def Outcome.answers : Outcome → Bool
  | .hashed .. | .unready _ => true
  | .failed _ | .refused _ | .threw _ => false

namespace CudaEngine

variable {s t u v : CudaEngine} {i : Nat}

/-! ## Behind a drain -/

/-- The drain has been at this lane. -/
def Passed (s : CudaEngine) (i : Nat) : Prop := ∀ lane out, s.pc = .draining lane out → i < lane

/-- The drain does not come to this place any more. -/
def Behind (s : CudaEngine) : Place → Prop
  | .held _ | .unread _ => True
  | .buffered i => s.Passed i
  | .absorbed | .returned => False

/-- Nothing of value is behind the drain. -/
def Clean (s : CudaEngine) : Prop := ∀ p, s.Behind p → s.Clear p

/-- A worker whose wave is answered gets what was in the snapshot, and leaves there what the wave
finds: neither may leave a match of value behind. -/
def Tidy (s : CudaEngine) : Act → Prop
  | .worker i outcome => outcome.answers = true → i < s.lanesImpl.length →
      ∀ w req, s.workers[i]? = some w → w.pc = .running req →
        s.Clear (.buffered i) ∧ (s.Passed i → ∀ o ∈ origins (outcome.found
          { lane := i, wave := s.waves, epoch := w.epoch, req }), ¬ s.Current o)
  | _ => True

/-- The places and the requests are the same. -/
theorem clean_congr (hpc : t.pc = s.pc)
    (hepoch : ∀ j, (t.mailboxes j).epoch = (s.mailboxes j).epoch)
    (hc : t.custody = s.custody) : Clean t ↔ Clean s := by
  have hbehind : ∀ p, t.Behind p ↔ s.Behind p := fun p ↦ by
    cases p <;> simp only [Behind, Passed, hpc]
  have hclear : ∀ p, t.Clear p ↔ s.Clear p := fun p ↦ by
    simp only [Clear, Current, hepoch, hc]
  simp only [Clean, hbehind, hclear]

/-- What is behind the drain, the hands of a worker and the snapshot of its lane apart. -/
theorem clean_split (i : Nat) : Clean s ↔
    (∀ p, p ≠ .held i → p ≠ .buffered i → s.Behind p → s.Clear p) ∧
      s.Clear (.held i) ∧ (s.Passed i → s.Clear (.buffered i)) := by
  constructor
  · exact fun h ↦ ⟨fun p _ _ hp ↦ h p hp, h _ trivial, fun hp ↦ h (.buffered i) hp⟩
  · rintro ⟨hrest, hheld, hbuffered⟩ p hp
    by_cases hpi : p = .held i
    · exact hpi ▸ hheld
    by_cases hpb : p = .buffered i
    · subst hpb
      exact hbuffered hp
    · exact hrest p hpi hpb hp

/-! ## Workers -/

section Worker

variable {w : LaneWorker} {outcome : Outcome} {req : HashApiRequest}

/-- The worker of a lane that is gone. -/
theorem workerStep_of_lacks (hw : s.workers[i]? = some w) (hpc : w.pc = .running req)
    (hlane : ¬ i < s.lanesImpl.length) (hs : s.workerStep i outcome = some t) :
    t.custody = s.custody := by
  have hnone : s.lanesImpl[i]? = none := List.getElem?_eq_none (Nat.le_of_not_lt hlane)
  simp only [workerStep, hw, hpc, workerRunning, hnone, Option.some.injEq] at hs
  subst hs
  exact custody_setWorker_of_held hw (by simp [LaneWorker.held, hpc])

/-- A `runBatch`: what the worker gets, and what the snapshot is afterwards. -/
theorem workerStep_of_running {b : CudaHashBackend} (hw : s.workers[i]? = some w)
    (hpc : w.pc = .running req) (hb : s.lanesImpl[i]? = some b)
    (hs : s.workerStep i outcome = some t) :
    ∃ after taken, t.custody =
        Function.update (Function.update s.custody (.buffered i) after) (.held i) taken ∧
      (outcome.answers = true ∧ taken = s.custody (.buffered i) ∧ after = origins (outcome.found
          { lane := i, wave := s.waves, epoch := w.epoch, req }) ∨
        outcome.answers = false ∧ taken = 0 ∧
          (after = s.custody (.buffered i) ∨ after = 0 ∧ ∃ error, outcome = .failed error)) := by
  have hbuffered := custody_buffered hb
  simp only [workerStep, hw, hpc, workerRunning, hb, Option.some.injEq] at hs
  subst hs
  refine ⟨_, _, custody_runBatch hw hb _ _ _, ?_⟩
  cases outcome with
  | hashed found hashrate => exact .inl ⟨rfl, hbuffered.symm, rfl⟩
  | unready hashrate => exact .inl ⟨rfl, hbuffered.symm, rfl⟩
  | failed error => exact .inr ⟨rfl, rfl, .inr ⟨rfl, error, rfl⟩⟩
  | refused error => exact .inr ⟨rfl, rfl, .inl hbuffered.symm⟩
  | threw what => exact .inr ⟨rfl, rfl, .inl hbuffered.symm⟩

/-- What it is for a wave that is answered to be tidy. -/
theorem tidy_running (hw : s.workers[i]? = some w) (hpc : w.pc = .running req)
    (hlane : i < s.lanesImpl.length) (hans : outcome.answers = true) :
    Tidy s (.worker i outcome) ↔ s.Clear (.buffered i) ∧ (s.Passed i →
      ∀ o ∈ origins (outcome.found { lane := i, wave := s.waves, epoch := w.epoch, req }),
        ¬ s.Current o) := by
  constructor
  · exact fun h ↦ h hans hlane w req hw hpc
  · rintro h - - w' req' hw' hpc'
    obtain rfl := Option.some.inj (hw.symm.trans hw')
    obtain rfl := WorkerPc.running.inj (hpc.symm.trans hpc')
    exact h

/-- A wave keeps the places behind the drain clean exactly if it is tidy. -/
theorem clean_running (hw : s.workers[i]? = some w) (hpc : w.pc = .running req)
    (hs : s.workerStep i outcome = some t) (hpc' : t.pc = s.pc)
    (hepoch : ∀ j, (t.mailboxes j).epoch = (s.mailboxes j).epoch)
    (hkept : Kept s (.worker i outcome)) :
    Clean t ↔ Clean s ∧ Tidy s (.worker i outcome) := by
  by_cases hlane : i < s.lanesImpl.length
  swap
  · rw [clean_congr hpc' hepoch (workerStep_of_lacks hw hpc hlane hs)]
    exact (and_iff_left fun _ hi ↦ absurd hi hlane).symm
  have hb := List.getElem?_eq_getElem hlane
  obtain ⟨after, taken, hc, hcases⟩ := workerStep_of_running hw hpc hb hs
  have hheld : s.Clear (.held i) := by
    intro o ho
    rw [custody_held hw] at ho
    simp [LaneWorker.held, hpc] at ho
  have hcur : ∀ o, t.Current o ↔ s.Current o := fun o ↦ by rw [Current, Current, hepoch]
  have hpassed : ∀ j, t.Passed j ↔ s.Passed j := fun j ↦ by rw [Passed, Passed, hpc']
  have htaken : t.Clear (.held i) ↔ ∀ o ∈ taken, ¬ s.Current o := by
    simp only [Clear, hcur, hc, Function.update_self]
  have hafter : t.Clear (.buffered i) ↔ ∀ o ∈ after, ¬ s.Current o := by
    simp only [Clear, hcur, hc, Function.update_of_ne (show Place.buffered i ≠ .held i by simp),
      Function.update_self]
  have hother : ∀ p, p ≠ .held i → p ≠ .buffered i → (t.Clear p ↔ s.Clear p) := by
    intro p hp hp'
    simp only [Clear, hcur, hc, Function.update_of_ne hp, Function.update_of_ne hp']
  have hbehind : ∀ p, t.Behind p ↔ s.Behind p := fun p ↦ by
    cases p <;> simp only [Behind, hpassed]
  have hrest : (∀ p, p ≠ .held i → p ≠ .buffered i → t.Behind p → t.Clear p) ↔
      ∀ p, p ≠ .held i → p ≠ .buffered i → s.Behind p → s.Clear p :=
    forall_congr' fun p ↦ forall₂_congr fun hp hp' ↦
      imp_congr (hbehind p) (hother p hp hp')
  -- what matters is what the worker gets, and what the snapshot is afterwards
  rw [clean_split (s := t) i, clean_split (s := s) i, hrest, htaken, hpassed, hafter]
  rcases hcases with ⟨hans, rfl, rfl⟩ | ⟨hans, rfl, hkeep⟩
  · rw [tidy_running hw hpc hlane hans]
    constructor
    · rintro ⟨hrest, hclear, hfound⟩
      exact ⟨⟨hrest, hheld, fun _ ↦ hclear⟩, hclear, hfound⟩
    · rintro ⟨⟨hrest, -, -⟩, hclear, hfound⟩
      exact ⟨hrest, hclear, hfound⟩
  · have htidy : Tidy s (.worker i outcome) := fun hno ↦ by rw [hans] at hno; cases hno
    rw [and_iff_left htidy]
    refine and_congr_right fun _ ↦ and_congr (iff_of_true (by simp) hheld) ?_
    rcases hkeep with rfl | ⟨rfl, error, rfl⟩
    · exact Iff.rfl
    · have hclear : s.Clear (.buffered i) := hkept.clear _ ⟨rfl, w, req, hw, hpc⟩
      exact iff_of_true (by simp) fun _ ↦ hclear

/-- The same of any step of a worker; the others only hand on what they have in their hands. -/
theorem clean_worker (hr : RingInv s) (hs : Step s (.worker i outcome) t)
    (hkept : Kept s (.worker i outcome)) : Clean t ↔ Clean s ∧ Tidy s (.worker i outcome) := by
  have hs : s.workerStep i outcome = some t := hs
  obtain ⟨w, hw, hm⟩ := workerStep_inv hs
  by_cases hrunning : ∃ req, w.pc = .running req
  · obtain ⟨req, hpc⟩ := hrunning
    exact clean_running hw hpc hs hm.sameCall.pc hm.epoch hkept
  have htidy : Tidy s (.worker i outcome) := by
    rintro - - w' req hw' hpc
    obtain rfl := Option.some.inj (hw.symm.trans hw')
    exact absurd ⟨req, hpc⟩ hrunning
  rw [and_iff_left htidy]
  cases hm.effect hr hw with
  | rests hc _ _ => exact clean_congr hm.sameCall.pc hm.epoch hc
  | hashes req _ hpc => exact absurd ⟨req, hpc⟩ hrunning
  | drops req _ hpc => exact absurd ⟨req, hpc⟩ hrunning
  | writes hpass _ _ =>
      have hcur : ∀ o, t.Current o ↔ s.Current o := fun o ↦ by rw [Current, Current, hm.epoch]
      have hbehind : ∀ p, t.Behind p ↔ s.Behind p := fun p ↦ by
        cases p <;> simp only [Behind, Passed, hm.sameCall.pc]
      constructor
      · intro h p hp o ho hocur
        rcases Custody.mem_of_pass hpass ho with hmem | ⟨-, hmem⟩
        · exact h p ((hbehind p).mpr hp) o hmem ((hcur o).mpr hocur)
        · exact h (.unread i) trivial o hmem ((hcur o).mpr hocur)
      · intro h p hp o ho hocur
        have hholds : ∀ p, ∀ o ∈ t.custody p, s.Behind p → ¬ s.Current o :=
          Custody.step_holds hpass (fun _ _ ho _ ↦ ho trivial) fun p o ho hp ↦ h p hp o ho
        exact hholds p o ho ((hbehind p).mp hp) ((hcur o).mp hocur)

end Worker

/-! ## The drain -/

/-- From the call of `drain_pipeline` to the next call. -/
def Drains (s : CudaEngine) : Prop := s.pc = .idle ∨ ∃ lane out, s.pc = .draining lane out

/-- A lane that does not exist has no snapshot. -/
theorem clear_buffered (h : s.lanesImpl.length ≤ i) : s.Clear (.buffered i) := by
  intro o ho
  have hnone : s.lanesImpl[i]? = none := List.getElem?_eq_none h
  simp [custody, buffered, hnone] at ho

/-- The snapshot of a lane is taken. -/
theorem clean_drains {lane : Nat} {out : MineBatchResult} {backend : CudaHashBackend}
    (hpc : s.pc = .draining lane out) (hb : s.lanesImpl[lane]? = some backend)
    (out' : MineBatchResult) :
    Clean { s.emptyLane lane backend with pc := .draining (lane + 1) out' } ↔ Clean s := by
  obtain ⟨-, -, hempty⟩ := backend.drainPipeline_spec
  have hlane : lane < s.lanesImpl.length := (List.getElem?_eq_some_iff.mp hb).1
  let t : CudaEngine := { s.emptyLane lane backend with pc := .draining (lane + 1) out' }
  have hset (j : Nat) : t.custody (.buffered j) = Function.update s.custody (.buffered lane)
      (origins backend.drainPipeline.2.buffered) (.buffered j) :=
    congrFun (custody_setLane hlane) (.buffered j)
  have htaken : t.Clear (.buffered lane) := by
    intro o ho
    rw [hset, Function.update_self, hempty] at ho
    exact absurd ho (Multiset.notMem_zero _)
  have hrest {j : Nat} (hj : j ≠ lane) : t.Clear (.buffered j) ↔ s.Clear (.buffered j) := by
    have heq : t.custody (.buffered j) = s.custody (.buffered j) := by
      rw [hset, Function.update_of_ne fun heq ↦ hj (Place.buffered.inj heq)]
    simp only [Clear, heq]
    exact Iff.rfl
  have hs (j : Nat) : s.Passed j ↔ j < lane := by
    simp only [Passed, hpc, MiningPc.draining.injEq]
    exact ⟨fun h ↦ h lane out ⟨rfl, rfl⟩, fun h _ _ heq ↦ heq.1 ▸ h⟩
  have ht (j : Nat) : t.Passed j ↔ j < lane + 1 :=
    ⟨fun h ↦ h (lane + 1) out' rfl, fun h _ _ heq ↦ (MiningPc.draining.inj heq).1 ▸ h⟩
  change Clean t ↔ Clean s
  constructor
  · intro h p hp
    cases p with
    | buffered j =>
        have hj : j < lane := (hs j).mp hp
        exact (hrest (by omega)).mp (h (.buffered j) ((ht j).mpr (by omega)))
    | held j => exact h (.held j) trivial
    | unread j => exact h (.unread j) trivial
    | absorbed | returned => exact hp.elim
  · intro h p hp
    cases p with
    | buffered j =>
        have hj : j < lane + 1 := (ht j).mp hp
        by_cases hjl : j = lane
        · exact hjl ▸ htaken
        · exact (hrest hjl).mpr (h (.buffered j) ((hs j).mpr (by omega)))
    | held j => exact h (.held j) trivial
    | unread j => exact h (.unread j) trivial
    | absorbed | returned => exact hp.elim

/-- The end of the drain: it has been at every lane. -/
theorem clean_drained {lane : Nat} {out : MineBatchResult} (hpc : s.pc = .draining lane out)
    (hle : s.lanesImpl.length ≤ lane) : Clean (s.finishDrain out) ↔ Clean s := by
  obtain ⟨u, hsame, out', heq, -⟩ := s.finishDrain_flow out
  have hclear (p : Place) (hp : p ≠ .absorbed ∧ p ≠ .returned) :
      (s.finishDrain out).Clear p ↔ s.Clear p := by
    have hc : (s.finishDrain out).custody p = s.custody p := by
      rw [heq, ← custody_sameFlow hsame.toSameFlow]
      cases p with
      | absorbed => exact absurd rfl hp.1
      | returned => exact absurd rfl hp.2
      | buffered | held | unread => rfl
    have hboxes : (s.finishDrain out).mailboxes = s.mailboxes := by
      rw [heq]
      exact hsame.mailboxes
    simp only [Clear, Current, hc, hboxes]
  have hpassed (j : Nat) : (s.finishDrain out).Passed j := fun _ _ hpc' ↦ by
    rw [heq] at hpc'
    cases hpc'
  constructor
  · intro h p hp
    cases p with
    | buffered j => exact (hclear _ (by simp)).mp (h (.buffered j) (hpassed j))
    | held j => exact (hclear _ (by simp)).mp (h (.held j) trivial)
    | unread j => exact (hclear _ (by simp)).mp (h (.unread j) trivial)
    | absorbed | returned => exact hp.elim
  · intro h p hp
    cases p with
    | buffered j =>
        refine (hclear _ (by simp)).mpr ?_
        by_cases hj : j < lane
        · refine h (.buffered j) fun lane' out' hpc' ↦ ?_
          obtain ⟨rfl, -⟩ := MiningPc.draining.inj (hpc.symm.trans hpc')
          exact hj
        · exact clear_buffered (by omega)
    | held j => exact (hclear _ (by simp)).mpr (h (.held j) trivial)
    | unread j => exact (hclear _ (by simp)).mpr (h (.unread j) trivial)
    | absorbed | returned => exact hp.elim

/-- The mining thread leaves the places behind the drain as they are. -/
theorem clean_mining {now : String} (hm : MiningMove s now t) (hd : Drains s) :
    (Clean t ↔ Clean s) ∧ Drains t := by
  rcases hd with hpc | ⟨lane, out, hpc⟩
  · cases hm with
    | joins _ hpc' _ | reads hpc' _ | drains _ _ _ _ _ hpc' _ _ | drained _ _ hpc' _
    | absorbs _ _ _ _ _ _ hpc' _ _ _ | throws _ _ _ _ hpc' _ _ | finishes _ _ _ hpc' _ =>
        rw [hpc] at hpc'
        cases hpc'
  · cases hm with
    | drains lane' _ backend attempts out' hpc' hb _ =>
        obtain ⟨rfl, -⟩ := MiningPc.draining.inj (hpc.symm.trans hpc')
        exact ⟨clean_drains hpc hb _, .inr ⟨_, _, rfl⟩⟩
    | drained lane' _ hpc' hle =>
        obtain ⟨rfl, rfl⟩ := MiningPc.draining.inj (hpc.symm.trans hpc')
        exact ⟨clean_drained hpc hle, .inl (by
          obtain ⟨u, -, out', heq, -⟩ := s.finishDrain_flow out
          rw [heq]
          rfl)⟩
    | joins _ hpc' _ | reads hpc' _ | absorbs _ _ _ _ _ _ hpc' _ _ _ | throws _ _ _ _ hpc' _ _
    | finishes _ _ _ hpc' _ =>
        rw [hpc] at hpc'
        cases hpc'

/-- What a drain finds behind it when it begins: what is in the rings and in the hands of the
workers. -/
theorem clean_begin (hs : Step s .drainPipeline v) (hstaff : Staffed s) :
    (Clean v ↔ ∀ i, s.Clear (.held i) ∧ s.Clear (.unread i)) ∧ Drains v := by
  obtain rfl : s.call .drainPipeline = v := by
    cases step_inv hs with
    | call => rfl
  simp only [CudaEngine.call]
  split
  · next hnone =>
      have hlanes : s.lanesImpl = [] := hnone.elim hstaff.lanes id
      refine ⟨⟨fun h i ↦ ⟨h (.held i) trivial, h (.unread i) trivial⟩, fun h p hp ↦ ?_⟩, .inl rfl⟩
      cases p with
      | buffered j => exact clear_buffered (s := s) (by simp [hlanes])
      | held j => exact (h j).1
      | unread j => exact (h j).2
      | absorbed | returned => exact hp.elim
  · refine ⟨⟨fun h i ↦ ⟨h (.held i) trivial, h (.unread i) trivial⟩, fun h p hp ↦ ?_⟩,
      .inr ⟨0, {}, rfl⟩⟩
    cases p with
    | buffered j => exact absurd (hp 0 {} rfl) (Nat.not_lt_zero j)
    | held j => exact (h j).1
    | unread j => exact (h j).2
    | absorbed | returned => exact hp.elim

/-- **What is behind a drain**, over a run inside its call: it is clean in the end exactly if it
was in the beginning, and every step was tidy. -/
theorem clean_iff {bs : List Act} (hrun : Run (Guarded Step Kept) v bs t)
    (hbs : ∀ b ∈ bs, b.Inside) (hr : RingInv v) (hd : Drains v) :
    Clean t ↔ Clean v ∧ Run (Guarded Step Tidy) v bs t := by
  induction hrun with
  | nil v => exact (and_iff_left (.nil v)).symm
  | @cons v u t a bs hs _ ih =>
      have hinside := hbs a List.mem_cons_self
      have hstep : (Clean u ↔ Clean v ∧ Tidy v a) ∧ Drains u := by
        cases a with
        | proceed now =>
            obtain ⟨hclean, hd'⟩ := clean_mining (proceed_inv hs.1) hd
            exact ⟨hclean.trans (and_iff_left trivial).symm, hd'⟩
        | worker i outcome =>
            obtain ⟨w, hw, hm⟩ := workerStep_inv hs.1
            have hpc := hm.sameCall.pc
            exact ⟨clean_worker hr hs.1 hs.2, by rwa [Drains, hpc]⟩
        | start | stop | setDifficulty | restoreLaneCap | reduceLaneCap | addLaneCap | setBatch
          | setQueueCounts | mineBatch | drainPipeline => exact hinside.elim
      rw [ih (fun b hb ↦ hbs b (List.mem_cons_of_mem _ hb)) (hr.step hs.1) hstep.2, hstep.1,
        and_assoc]
      refine and_congr_right fun _ ↦ ⟨fun ⟨htidy, hrest⟩ ↦ .cons ⟨hs.1, htidy⟩ hrest, fun h ↦ ?_⟩
      obtain ⟨u', hs', hrest⟩ := h.head
      obtain rfl : u' = u := Option.some.inj (hs'.1.symm.trans hs.1)
      exact ⟨hs'.2, hrest⟩

/-! ## What has been returned -/

/-- Outside a call, what is of value has been returned exactly if it is nowhere else. -/
theorem Books.returned_iff (h : Books s) (hpc : s.pc = .idle) :
    (∀ m ∈ s.hashed, m.isHit = true → s.Current m.origin →
      (foundOrigins s.returned).count m.origin = 1) ↔ Clean s := by
  change (∀ m ∈ s.hashed, m.isHit = true → s.Current m.origin →
    (s.custody .returned).count m.origin = 1) ↔ Clean s
  have hbehind (i : Nat) : s.Behind (.buffered i) := fun lane out hd ↦ by
    rw [hpc] at hd
    cases hd
  constructor
  · intro hall p hp o ho hcur
    obtain ⟨m, hm, hhit, rfl⟩ := (h.place p o ho).source
    obtain ⟨q, hq, hno⟩ := h.once m hm hhit hcur
    have hreturned := Multiset.count_pos.mp (show 0 < (s.custody .returned).count m.origin by
      rw [hall m hm hhit hcur]
      exact Nat.one_pos)
    have hqr : q = .returned := by_contra fun hne ↦ hno _ (Ne.symm hne) hreturned
    have hpq : p = q := by_contra fun hne ↦ hno p hne ho
    rw [hpq, hqr] at hp
    exact hp
  · intro hclean m hm hhit hcur
    refine (h.once m hm hhit hcur).count_eq fun p hp hmem ↦ ?_
    cases p with
    | buffered i => exact hclean (.buffered i) (hbehind i) _ hmem hcur
    | held i => exact hclean (.held i) trivial _ hmem hcur
    | unread i => exact hclean (.unread i) trivial _ hmem hcur
    | absorbed => simp [custody, hpc, MiningPc.found] at hmem
    | returned => exact hp rfl

/-- **Draining before a stop.**  In a run that loses no match otherwise, every match of a wave that
was hashed under the request that its lane still has has been returned exactly once by the call of
`stop` if and only if none was unread or in the hands of a worker when `drain_pipeline` was called,
and no worker has carried one past the drain since then. -/
theorem drain_stop_iff {settings : Settings} {maxLanes : Nat} {as bs : List Act}
    (hbefore : Run (Guarded Step Kept) (create settings maxLanes) as s)
    (hdrain : Step s .drainPipeline v) (hafter : Run (Guarded Step Kept) v bs t)
    (hbs : ∀ b ∈ bs, b.Inside) (hstop : Step t .stop u) :
    (∀ m ∈ t.hashed, m.isHit = true → t.Current m.origin →
        (foundOrigins u.returned).count m.origin = 1) ↔
      (∀ i, s.Clear (.held i) ∧ s.Clear (.unread i)) ∧ Run (Guarded Step Tidy) v bs t := by
  have hs : Sound s := (sound_create settings maxLanes).run hbefore
  have hv : Sound v := hs.step ⟨hdrain, nofun, nofun⟩
  have ht : Sound t := hv.run hafter
  have hend : t.pc = .idle ∧ u.returned = t.returned := by
    cases step_inv hstop with
    | call _ hpc _ => exact ⟨hpc, rfl⟩
  obtain ⟨hbegin, hd⟩ := clean_begin hdrain hs.staff
  rw [hend.2, ht.books.returned_iff hend.1, clean_iff hafter hbs hv.rings hd, hbegin]

/-! ### A match that is drained, and one that is lost -/

/-- A step that has nothing to lose. -/
def Plain (s : CudaEngine) : Act → Prop
  | .worker _ outcome => outcome.answers = true
  | .mineBatch .. => s.lanes ≠ 1
  | .proceed _ => match s.pc with
      | .joining _ => False
      | .absorbing lane _ _ => lane < s.lanes → Good (s.mailboxes lane).ring.oldest
      | _ => True
  | .drainPipeline => True
  | _ => False

instance (s : CudaEngine) (a : Act) : Decidable (s.Plain a) := by
  unfold Plain
  cases a <;> try infer_instance
  dsimp only
  split <;> infer_instance

theorem Plain.kept {a : Act} (h : s.Plain a) : Kept s a where
  clear := fun p hp ↦ by
    cases a with
    | proceed now =>
        simp only [Plain] at h
        cases p with
        | unread i =>
            obtain ⟨-, next, hpc, -⟩ := hp
            simp [hpc] at h
        | absorbed =>
            obtain ⟨lane, out, totalHs, hpc, hlane, hbad⟩ := hp
            simp only [hpc] at h
            exact absurd (h hlane) hbad
        | buffered | held | returned => exact hp.elim
    | worker i outcome =>
        cases outcome with
        | failed error => cases h
        | hashed | unready | refused | threw => exact hp.elim
    | mineBatch | drainPipeline => exact hp.elim
    | start | stop | setDifficulty | restoreLaneCap | reduceLaneCap | addLaneCap | setBatch
      | setQueueCounts => exact h.elim
  lanes := by
    rintro minutes now outcome rfl
    exact h

/-- The engine as far as its steps are plain. -/
def plainStep (s : CudaEngine) (a : Act) : Option CudaEngine := if s.Plain a then s.step a else none

theorem run_plain {as : List Act} (h : exec plainStep s as = some t) :
    Run (Guarded Step Kept) s as t := by
  have hrun : Run (Guarded Step Plain) s as t := run_guarded_of_exec h
  clear h
  induction hrun with
  | nil => exact .nil _
  | cons hs _ ih => exact .cons ⟨hs.1, hs.2.kept⟩ ih

/-- Two lanes start: there is nothing to lose yet. -/
theorem run_start : ∃ s,
    exec step (create minerSettings 2) [.start 2 (some twoLanes), .proceed ""] = some s ∧
    Run (Guarded Step Kept) (create minerSettings 2) [.start 2 (some twoLanes), .proceed ""] s := by
  refine ⟨_, rfl, .cons ⟨rfl, nofun, nofun⟩ (.single ⟨rfl, fun p hp o ho ↦ ?_, nofun⟩)⟩
  cases p with
  | unread i => exact absurd ho (Multiset.notMem_zero o)
  | absorbed => exact absurd ho (Multiset.notMem_zero o)
  | buffered | held | returned => exact hp.elim

/-- The first wave of the first lane has found a block, and `mine_batch` has read both lanes. -/
def blockBuffered : List Act :=
  [mineOnce, .worker 0 (.hashed [] 0), .worker 1 (.hashed [] 0)] ++
    oneWave 0 (.hashed [aMatch] 1) ++ oneWave 1 (.hashed [] 1) ++
    [.proceed "", .proceed "", .proceed "", .proceed ""]

/-- A drain of two lanes. -/
def drainAll : List Act := [.proceed "", .proceed "", .proceed ""]

/-- The block is in the snapshot when `drain_pipeline` is called, and is returned. -/
theorem drain_stop_iff_block : ∃ s v t u : CudaEngine, ∃ as,
    Run (Guarded Step Kept) (create minerSettings 2) as s ∧ Step s .drainPipeline v ∧
      Run (Guarded Step Kept) v drainAll t ∧ Step t .stop u ∧
      (t.hashed.map fun m ↦ (m.isHit, (foundOrigins u.returned).count m.origin)) = [(true, 1)] ∧
      (∀ i, s.Clear (.held i) ∧ s.Clear (.unread i)) ∧ Run (Guarded Step Tidy) v drainAll t := by
  obtain ⟨r, hr, hstart⟩ := run_start
  let go (as : List Act) : Option CudaEngine :=
    (exec step (create minerSettings 2) [.start 2 (some twoLanes), .proceed ""]).bind
      fun r ↦ exec plainStep r as
  have hgo (as : List Act) : go as = exec plainStep r as := by
    simp only [go, hr, Option.bind_some]
  have hend : ((go (blockBuffered ++ [.drainPipeline] ++ drainAll)).bind fun t ↦
      (t.step .stop).map fun u ↦
        t.hashed.map fun m ↦ (m.isHit, (foundOrigins u.returned).count m.origin)) =
      some [(true, 1)] := by decide +kernel
  obtain ⟨s, hs⟩ := Option.isSome_iff_exists.mp
    (show (go blockBuffered).isSome = true by decide +kernel)
  obtain ⟨v, hv⟩ := Option.isSome_iff_exists.mp
    (show (go (blockBuffered ++ [.drainPipeline])).isSome = true by decide +kernel)
  obtain ⟨t, ht, hstop⟩ := Option.bind_eq_some_iff.mp hend
  obtain ⟨u, hu, hcount⟩ := Option.map_eq_some_iff.mp hstop
  rw [hgo] at hs hv ht
  have hdrain : Run (Guarded Step Kept) s [.drainPipeline] v := run_plain (exec_append hs ▸ hv)
  have hafter : Run (Guarded Step Kept) v drainAll t := run_plain (exec_append hv ▸ ht)
  have hbefore := hstart.append (run_plain hs)
  refine ⟨s, v, t, u, _, hbefore, hdrain.singleton_inv.1, hafter, hu, hcount, ?_⟩
  refine (drain_stop_iff hbefore hdrain.singleton_inv.1 hafter (by simp [drainAll, Act.Inside])
    hu).mp fun m hm hhit _ ↦ ?_
  have hmem := List.mem_map_of_mem (f := fun m : HashApiMatch ↦
    (m.isHit, (foundOrigins u.returned).count m.origin)) hm
  rw [hcount, List.mem_singleton] at hmem
  exact congrArg Prod.snd hmem

/-- The match of the first wave is in the ring, with the answer to the second. -/
def blockUnread : List Act :=
  twoLanesAsked ++ oneWave 0 (.hashed [aMatch] 1) ++ oneWave 1 (.hashed [] 1) ++
    oneWave 0 (.hashed [] 1) ++ [.proceed "", .proceed "", .proceed "", .proceed ""]

/-- It is still there when the engine stops after a drain, and has not been returned. -/
theorem drain_loses_unread : ∃ t u : CudaEngine,
    Run Step (create minerSettings 2) (blockUnread ++ .drainPipeline :: drainAll) t ∧
      Step t .stop u ∧ t.lanes = 2 ∧ ∃ m ∈ t.hashed, m.isHit = true ∧ t.Current m.origin ∧
        (foundOrigins u.returned).count m.origin = 0 := by
  have hend : ((exec step (create minerSettings 2)
      (blockUnread ++ .drainPipeline :: drainAll)).bind fun t ↦ (t.step .stop).map fun u ↦
        (t.lanes, t.hashed.map fun m ↦ (m.isHit,
          decide (m.origin.epoch = (t.mailboxes m.origin.lane).epoch),
          (foundOrigins u.returned).count m.origin))) =
      some (2, [(true, true, 0)]) := by decide +kernel
  obtain ⟨t, ht, hstop⟩ := Option.bind_eq_some_iff.mp hend
  obtain ⟨u, hu, hcount⟩ := Option.map_eq_some_iff.mp hstop
  obtain ⟨hlanes, hcount⟩ := Prod.mk.inj hcount
  obtain ⟨m, hm, hval⟩ := List.exists_of_mem_map (hcount ▸ List.mem_singleton_self (true, true, 0))
  simp only [Prod.mk.injEq, decide_eq_true_eq] at hval
  exact ⟨t, u, run_of_exec ht, hu, hlanes, m, hm, hval⟩

end CudaEngine

end XNMiner
