import XNMiner.Mining.EngineRings

/-!
# A `mine_batch` that throws

`mine_batch` reads the oldest result of each lane in turn.  Where one is an error it throws, at
the place where it stands: what it has read from the lanes before is gone, and the error has not
been consumed, so that the next call finds it again.
-/

namespace XNMiner

open Lib

namespace LaneMailbox

/-- The oldest unread result can be read. -/
def OldestGood (box : LaneMailbox) : Prop := box.Ready ∧ CudaEngine.Good box.ring.oldest

/-- The oldest unread result is an error. -/
def OldestFails (box : LaneMailbox) : Prop := box.Ready ∧ ¬ CudaEngine.Good box.ring.oldest

end LaneMailbox

namespace CudaEngine

/-- A `mine_batch` comes to its results, and `bs` is what happens from there on.  With more than
one lane this is the moment when every lane has one, and otherwise the call itself. -/
inductive Reading : CudaEngine → List Act → Prop
  | lanes {s : CudaEngine} {bs : List Act} :
      s.pc = .absorbing 0 {} 0 → (∀ b ∈ bs, b.Inside) → Reading s bs
  | oneLane {s : CudaEngine} {bs : List Act} {minutes : Nat × Nat × Nat} {now : String}
      {outcome : Outcome} : s.pc = .idle → s.lanes = 1 → (∀ b ∈ bs, b.Inside) →
      Reading s (.mineBatch minutes now outcome :: bs)

/-- If the call that came to its results in `s` has thrown, then the matches of the good results
are still there, and the results that are errors are not.  The result of the only lane is in no
ring. -/
def OnError (s t : CudaEngine) : Prop :=
  ∀ what, t.lastCall = .threw what →
    (∀ i < s.lanes, (s.mailboxes i).OldestGood → ∀ m ∈ (s.mailboxes i).ring.oldest.1.matches,
      m ∈ (t.mailboxes i).unread ∨ ∃ f ∈ t.returned, f.origin = m.origin) ∧
    (s.lanes ≠ 1 → ∀ i < s.lanes, (s.mailboxes i).OldestFails →
      (s.mailboxes i).ring.consumed < (t.mailboxes i).ring.consumed)

/-! ## Reading the lanes -/

variable {s t u : CudaEngine} {as bs : List Act}

/-- How far the call that came to its results in `s` has got in `u`. -/
inductive Progress (s u : CudaEngine) : Prop
  | reading (lane : Nat) (out : MineBatchResult) (totalHs : Rat) :
      u.pc = .absorbing lane out totalHs → u.lanes = s.lanes →
      (∀ i < lane, i < s.lanes → Good (s.mailboxes i).ring.oldest) →
      (∀ i, lane ≤ i → i < s.lanes → (u.mailboxes i).ring.oldest = (s.mailboxes i).ring.oldest ∧
        (u.mailboxes i).ring.consumed = (s.mailboxes i).ring.consumed) → Progress s u
  | returned (out : MineBatchResult) : u.pc = .idle → u.lastCall = .returned out →
      (∀ i < s.lanes, Good (s.mailboxes i).ring.oldest) → Progress s u
  | threw (lane : Nat) (what : String) : u.pc = .idle → u.lastCall = .threw what →
      lane < s.lanes → ¬ Good (s.mailboxes lane).ring.oldest →
      (u.mailboxes lane).ring.consumed = (s.mailboxes lane).ring.consumed → Progress s u

/-- A worker does not disturb the reader. -/
theorem WorkerMove.oldest {i : Nat} {w : LaneWorker} {outcome : Outcome}
    (hm : WorkerMove s i w outcome t) (h : RingInv s) (hw : s.workers[i]? = some w) (j : Nat) :
    (t.mailboxes j).ring.consumed = (s.mailboxes j).ring.consumed ∧
      ((s.mailboxes j).Ready → (t.mailboxes j).ring.oldest = (s.mailboxes j).ring.oldest) := by
  rcases hm.mailboxes with heq | ⟨req, result, err, hpc, heq⟩
  · rw [heq]
    exact ⟨rfl, fun _ ↦ rfl⟩
  · by_cases hj : j = i
    · subst hj
      have hroom := h.room j w hw (by simp [LaneWorker.Producing, hpc])
      rw [heq, Function.update_self]
      exact ⟨rfl, fun hready ↦ Ring.oldest_push (h.sound j) hroom hready _⟩
    · rw [heq, Function.update_of_ne hj]
      exact ⟨rfl, fun _ ↦ rfl⟩

/-- A worker does not lose what is unread. -/
theorem WorkerMove.mem_unread {i : Nat} {w : LaneWorker} {outcome : Outcome}
    (hm : WorkerMove s i w outcome t) (h : RingInv s) (hw : s.workers[i]? = some w) (j : Nat)
    {m : HashApiMatch} (hmem : m ∈ (s.mailboxes j).unread) : m ∈ (t.mailboxes j).unread := by
  rcases hm.mailboxes with heq | ⟨req, result, err, hpc, heq⟩
  · rw [heq]
    exact hmem
  · by_cases hj : j = i
    · subst hj
      have hroom := h.room j w hw (by simp [LaneWorker.Producing, hpc])
      rw [heq, Function.update_self, LaneMailbox.unread, Ring.unread_push (h.sound j) hroom,
        List.flatMap_append]
      exact List.mem_append_left _ hmem
    · rw [heq, Function.update_of_ne hj]
      exact hmem

theorem Progress.workerMove (hp : Progress s u) (h : RingInv u) {i : Nat} {w : LaneWorker}
    {outcome : Outcome} (hw : u.workers[i]? = some w) (hm : WorkerMove u i w outcome t) :
    Progress s t := by
  have hsame := hm.sameCall
  have hold := hm.oldest h hw
  cases hp with
  | reading lane out totalHs hpc hlanes hgood hrest =>
      refine .reading lane out totalHs (hsame.pc.trans hpc) (hsame.lanes.trans hlanes) hgood
        fun j hle hlt ↦ ?_
      have hready := h.ready lane out totalHs hpc j hle (hlanes ▸ hlt)
      obtain ⟨holdest, hconsumed⟩ := hrest j hle hlt
      exact ⟨((hold j).2 hready).trans holdest, (hold j).1.trans hconsumed⟩
  | returned out hpc hcall hgood =>
      exact .returned out (hsame.pc.trans hpc) (hsame.lastCall.trans hcall) hgood
  | threw lane what hpc hcall hlane hbad hconsumed =>
      exact .threw lane what (hsame.pc.trans hpc) (hsame.lastCall.trans hcall) hlane hbad
        ((hold lane).1.trans hconsumed)

theorem Progress.miningMove (hp : Progress s u) {now : String} (hm : MiningMove u now t) :
    Progress s t := by
  cases hp with
  | reading lane out totalHs hpc hlanes hgood hrest =>
      cases hm with
      | absorbs lane' out' totalHs' hps out'' totalHs'' hpc' hlane hread _ =>
          obtain ⟨rfl, -, -⟩ := MiningPc.absorbing.inj (hpc.symm.trans hpc')
          refine .reading (lane + 1) _ _ rfl hlanes (fun i hi hlt ↦ ?_) fun i hle hlt ↦ ?_
          · by_cases hil : i = lane
            · subst hil
              rw [← (hrest i (Nat.le_refl _) hlt).1]
              exact hread
            · exact hgood i (by omega) hlt
          · have hil : i ≠ lane := by omega
            simpa [hil] using hrest i (by omega) hlt
      | throws lane' _ _ what hpc' hlane hbad =>
          obtain ⟨rfl, -, -⟩ := MiningPc.absorbing.inj (hpc.symm.trans hpc')
          obtain ⟨holdest, hconsumed⟩ := hrest lane (Nat.le_refl _) (hlanes ▸ hlane)
          exact .threw lane what rfl rfl (hlanes ▸ hlane) (holdest ▸ hbad) hconsumed
      | finishes lane' _ _ hpc' hle =>
          obtain ⟨rfl, -, -⟩ := MiningPc.absorbing.inj (hpc.symm.trans hpc')
          exact .returned _ rfl rfl fun i hi ↦ hgood i (by omega) hi
      | joins _ hpc' _ | reads hpc' _ | drains _ _ _ _ _ hpc' _ _ | drained _ _ hpc' _ =>
          rw [hpc] at hpc'
          cases hpc'
  | returned _ hidle _ _ | threw _ _ hidle _ _ _ _ =>
      cases hm with
      | joins _ hpc' _ | reads hpc' _ | drains _ _ _ _ _ hpc' _ _ | drained _ _ hpc' _
      | absorbs _ _ _ _ _ _ hpc' _ _ _ | throws _ _ _ _ hpc' _ _ | finishes _ _ _ hpc' _ =>
          rw [hidle] at hpc'
          cases hpc'

/-- **How far a call gets**, over a run. -/
theorem Progress.run (hr : Run Step u bs t) (hbs : ∀ b ∈ bs, b.Inside) (h : RingInv u)
    (hp : Progress s u) : Progress s t := by
  induction hr with
  | nil => exact hp
  | cons hs _ ih =>
      refine ih (fun b hb ↦ hbs b (List.mem_cons_of_mem _ hb)) (h.step hs) ?_
      rcases step_inside (hbs _ List.mem_cons_self) hs with ⟨i, w, outcome, hw, hm⟩ | ⟨now, hm⟩
      · exact hp.workerMove h hw hm
      · exact hp.miningMove hm

/-- Once the engine is idle, what happens inside calls is up to the workers, who lose nothing. -/
theorem unread_of_idle (hr : Run Step u bs t) (hbs : ∀ b ∈ bs, b.Inside) (h : RingInv u)
    (hpc : u.pc = .idle) {i : Nat} {m : HashApiMatch} (hmem : m ∈ (u.mailboxes i).unread) :
    m ∈ (t.mailboxes i).unread := by
  induction hr with
  | nil => exact hmem
  | cons hs _ ih =>
      have hrest := fun b hb ↦ hbs b (List.mem_cons_of_mem _ hb)
      rcases step_inside (hbs _ List.mem_cons_self) hs with ⟨j, w, outcome, hw, hm⟩ | ⟨now, hm⟩
      · exact ih hrest (h.step hs) (hm.sameCall.pc.trans hpc) (hm.mem_unread h hw i hmem)
      · cases hm with
        | joins _ hpc' _ | reads hpc' _ | drains _ _ _ _ _ hpc' _ _ | drained _ _ hpc' _
        | absorbs _ _ _ _ _ _ hpc' _ _ _ | throws _ _ _ _ hpc' _ _ | finishes _ _ _ hpc' _ =>
            rw [hpc] at hpc'
            cases hpc'

/-! ## When a call that throws leaves everything in order -/

/-- With one lane no result is in a ring: `mine_batch` leaves the rings as they are. -/
theorem onError_oneLane (h : RingInv s) (hpc : s.pc = .idle) (hlanes : s.lanes = 1)
    {minutes : Nat × Nat × Nat} {now : String} {outcome : Outcome}
    (hr : Run Step s (.mineBatch minutes now outcome :: bs) t) (hbs : ∀ b ∈ bs, b.Inside) :
    OnError s t := by
  obtain ⟨u, hs, hrest⟩ := hr.head
  have hu : u = s.mineBatch minutes now outcome := by
    cases step_inv hs with
    | call => rfl
  obtain ⟨hboxes, -, hidle⟩ := mineBatch_oneLane hpc hlanes minutes now outcome
  intro what _
  refine ⟨fun i _ hgood m hm ↦ .inl ?_, fun hne ↦ absurd hlanes hne⟩
  refine unread_of_idle hrest hbs (h.step hs) (hu ▸ hidle) ?_
  rw [hu, hboxes, LaneMailbox.unread, List.mem_flatMap]
  exact ⟨_, Ring.oldest_mem_unread hgood.1, hm⟩

/-- A call that reads the lanes leaves everything in order only if it need not throw. -/
theorem Progress.caught_iff (hp : Progress s t) (hend : t.pc = .idle)
    (hready : ∀ i < s.lanes, (s.mailboxes i).Ready) :
    OnError s t ↔ s.lanes = 1 ∨ ∀ i < s.lanes, ¬ (s.mailboxes i).OldestFails := by
  cases hp with
  | reading _ _ _ hpc _ _ _ =>
      rw [hend] at hpc
      cases hpc
  | returned out _ hcall hgood =>
      refine iff_of_true (fun what hthrew ↦ ?_) (.inr fun i hi hfails ↦ hfails.2 (hgood i hi))
      rw [hcall] at hthrew
      cases hthrew
  | threw lane what _ hcall hlane hbad hconsumed =>
      have hfails : (s.mailboxes lane).OldestFails := ⟨hready lane hlane, hbad⟩
      constructor
      · intro honce
        by_contra hcond
        obtain ⟨hne, -⟩ := not_or.mp hcond
        have := (honce what hcall).2 hne lane hlane hfails
        omega
      · rintro (hone | hall)
        · -- the only lane is the one that fails
          refine fun what' _ ↦ ⟨fun i hi hgood ↦ absurd hgood.2 ?_, fun hne ↦ absurd hone hne⟩
          obtain rfl : i = lane := by omega
          exact hbad
        · exact absurd hfails (hall lane hlane)

/-- **A `mine_batch` that throws leaves everything in order if and only if** there is only one
lane or no oldest result is an error, so that it throws because of no ring at all. -/
theorem onError_iff {settings : Settings} {maxLanes : Nat}
    (hreach : Run Step (create settings maxLanes) as s) (hread : Reading s bs)
    (hr : Run Step s bs t) (hend : t.pc = .idle) :
    OnError s t ↔ s.lanes = 1 ∨ ∀ i < s.lanes, ¬ (s.mailboxes i).OldestFails := by
  have h := ringInv_run hreach
  cases hread with
  | lanes hpc hbs =>
      have hready := fun i ↦ h.ready 0 {} 0 hpc i (Nat.zero_le i)
      have hstart : Progress s s :=
        .reading 0 {} 0 hpc rfl (fun _ hi ↦ absurd hi (Nat.not_lt_zero _)) fun _ _ _ ↦ ⟨rfl, rfl⟩
      exact (hstart.run hr hbs h).caught_iff hend hready
  | oneLane hpc hlanes hbs => exact iff_of_true (onError_oneLane h hpc hlanes hr hbs) (.inl hlanes)

/-- Both lanes have hashed a wave, and `mine_batch` is about to read them. -/
def goodLanesRead : List Act :=
  twoLanesAsked ++ oneWave 0 (.hashed [aMatch] 1) ++ oneWave 1 (.hashed [] 1) ++ [.proceed ""]

/-- A call in which both lanes can be read. -/
theorem onError_goodLanes : ∃ s t : CudaEngine, ∃ bs,
    Run Step (create minerSettings 2) goodLanesRead s ∧ Reading s bs ∧ Run Step s bs t ∧
      t.pc = .idle ∧ OnError s t := by
  let bs : List Act := [.proceed "", .proceed "", .proceed ""]
  obtain ⟨s, hs⟩ : ∃ s, exec step (create minerSettings 2) goodLanesRead = some s := ⟨_, rfl⟩
  obtain ⟨t, ht⟩ : ∃ t, exec step (create minerSettings 2) (goodLanesRead ++ bs) = some t :=
    ⟨_, rfl⟩
  have hpc : (exec step (create minerSettings 2) goodLanesRead).map pc =
      some (.absorbing 0 {} 0) := rfl
  have hgood : (exec step (create minerSettings 2) goodLanesRead).map (fun s ↦
      decide (∀ i < s.lanes, Good (s.mailboxes i).ring.oldest)) = some true := by decide +kernel
  have hend : (exec step (create minerSettings 2) (goodLanesRead ++ bs)).map pc = some .idle := rfl
  rw [ht] at hend
  rw [exec_append hs] at ht
  rw [hs] at hpc hgood
  have hgood := of_decide_eq_true (Option.some.inj hgood)
  have hread : Reading s bs := .lanes (Option.some.inj hpc) (by simp [bs, Act.Inside])
  refine ⟨s, t, bs, run_of_exec hs, hread, run_of_exec ht, Option.some.inj hend, ?_⟩
  exact (onError_iff (run_of_exec hs) hread (run_of_exec ht) (Option.some.inj hend)).mpr
    (.inr fun i hi hfails ↦ hfails.2 (hgood i hi))

/-- The first lane has found a block, and the second wave of the other has failed, when
`mine_batch` reads them for the second time. -/
def badLaneRead : List Act :=
  twoLanesAsked ++ oneWave 0 (.hashed [aMatch] 1) ++ oneWave 1 (.hashed [] 1) ++
    oneWave 0 (.hashed [] 1) ++ oneWave 1 (.failed "CUDA error") ++
    [.proceed "", .proceed "", .proceed "", .proceed "", mineOnce, .proceed ""]

/-- The call throws.  The match that it has read is neither unread nor returned, and the error is
what the next call reads. -/
theorem not_onError_badLane : ∃ s t : CudaEngine, ∃ bs,
    Run Step (create minerSettings 2) badLaneRead s ∧ Reading s bs ∧ Run Step s bs t ∧
      t.pc = .idle ∧ ((s.mailboxes 0).unread.map (·.isHit) = [true] ∧
        (t.mailboxes 0).unread = [] ∧ t.returned.length = 0) ∧
      (t.mailboxes 1).ring.consumed = (s.mailboxes 1).ring.consumed ∧ ¬ OnError s t := by
  let bs : List Act := [.proceed "", .proceed ""]
  obtain ⟨s, hs⟩ : ∃ s, exec step (create minerSettings 2) badLaneRead = some s := ⟨_, rfl⟩
  obtain ⟨t, ht⟩ : ∃ t, exec step (create minerSettings 2) (badLaneRead ++ bs) = some t :=
    ⟨_, rfl⟩
  have hpc : (exec step (create minerSettings 2) badLaneRead).map pc =
      some (.absorbing 0 {} 0) := rfl
  have hread : (exec step (create minerSettings 2) badLaneRead).map (fun s ↦
      (s.lanes, (s.mailboxes 0).unread.map (·.isHit), (s.mailboxes 1).ring.consumed,
        decide ((s.mailboxes 1).Ready ∧ ¬ Good (s.mailboxes 1).ring.oldest))) =
      some (2, [true], 1, true) := by decide +kernel
  have hthrew : (exec step (create minerSettings 2) (badLaneRead ++ bs)).map (fun t ↦
      (t.pc, t.lastCall)) = some (.idle, .threw "CUDA error") := rfl
  have hlost : (exec step (create minerSettings 2) (badLaneRead ++ bs)).map (fun t ↦
      ((t.mailboxes 0).unread, t.returned.length, (t.mailboxes 1).ring.consumed)) =
      some ([], 0, 1) := by decide +kernel
  rw [ht] at hthrew hlost
  rw [exec_append hs] at ht
  rw [hs] at hpc hread
  simp only [Option.map_some, Option.some.injEq, Prod.mk.injEq] at hthrew hlost hread
  obtain ⟨hidle, hcall⟩ := hthrew
  obtain ⟨hunread, hreturned, hconsumed⟩ := hlost
  obtain ⟨hlanes, hhit, hconsumed₀, hfails⟩ := hread
  have hfails := of_decide_eq_true hfails
  refine ⟨s, t, bs, run_of_exec hs, .lanes (Option.some.inj hpc) (by simp [bs, Act.Inside]),
    run_of_exec ht, hidle, ⟨hhit, hunread, hreturned⟩, by omega, fun honce ↦ ?_⟩
  have := (honce _ hcall).2 (by omega) 1 (by omega) hfails
  omega

end CudaEngine

end XNMiner
