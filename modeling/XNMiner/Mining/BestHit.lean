import XNMiner.Mining.EngineMoves

/-!
# The best hit of a result

A result of `mine_batch` or `drain_pipeline` has all its hits, and one of them apart: the first of
the best kind.  Only its rate may differ, as `drain_pipeline` sets the rate of that one alone.
-/

namespace XNMiner

open Lib

/-- The hit of a result is one of its hits, and none is of a better kind. -/
structure Picked (out : MineBatchResult) : Prop where
  isNone : out.hit = none → out.hits = []
  mem : ∀ hit, out.hit = some hit → ∃ f ∈ out.hits, ∃ hps, hit = { f.hit with hps }
  rank_le : ∀ hit, out.hit = some hit → ∀ f ∈ out.hits, hitRank hit ≤ hitRank f.hit

theorem picked_nothing (hashesDone : Int) : Picked { hashesDone } where
  isNone := fun _ ↦ rfl
  mem := nofun
  rank_le := nofun

@[simp] theorem hitRank_hps (hit : BlockHit) (hps : Rat) :
    hitRank { hit with hps } = hitRank hit := rfl

namespace Picked

variable {out : MineBatchResult}

/-- One more hit. -/
theorem add (h : Picked out) (hit : BlockHit) (origin : Origin) :
    Picked { out with
      hits := out.hits ++ [{ hit, origin }]
      hit := betterHit out.hit hit } := by
  have hlast : (⟨hit, origin⟩ : Found) ∈ out.hits ++ [⟨hit, origin⟩] :=
    List.mem_append_right _ List.mem_cons_self
  cases hbest : out.hit with
  | none =>
      have hempty := h.isNone hbest
      refine ⟨nofun, ?_, ?_⟩
      · rintro _ ⟨⟩
        exact ⟨_, hlast, hit.hps, rfl⟩
      · rintro _ ⟨⟩ f hf
        rw [hempty] at hf
        rw [List.mem_singleton.mp hf]
  | some best =>
      have hcases : betterHit (some best) hit = some hit ∧ hitRank hit < hitRank best ∨
          betterHit (some best) hit = some best ∧ hitRank best ≤ hitRank hit := by
        change (if hitRank hit < hitRank best then some hit else some best) = some hit ∧ _ ∨
          (if hitRank hit < hitRank best then some hit else some best) = some best ∧ _
        split_ifs with hlt
        · exact .inl ⟨rfl, hlt⟩
        · exact .inr ⟨rfl, Nat.le_of_not_lt hlt⟩
      rcases hcases with ⟨heq, hlt⟩ | ⟨heq, hle⟩
      · refine ⟨fun hno ↦ absurd (heq.symm.trans hno) nofun, fun b hb ↦ ?_, fun b hb f hf ↦ ?_⟩
        · obtain rfl := Option.some.inj (heq.symm.trans hb)
          exact ⟨_, hlast, hit.hps, rfl⟩
        · obtain rfl := Option.some.inj (heq.symm.trans hb)
          rcases List.mem_append.mp hf with hf | hf
          · exact hlt.le.trans (h.rank_le best hbest f hf)
          · rw [List.mem_singleton.mp hf]
      · refine ⟨fun hno ↦ absurd (heq.symm.trans hno) nofun, fun b hb ↦ ?_, fun b hb f hf ↦ ?_⟩
        · obtain rfl := Option.some.inj (heq.symm.trans hb)
          obtain ⟨f, hf, hsame⟩ := h.mem best hbest
          exact ⟨f, List.mem_append_left _ hf, hsame⟩
        · obtain rfl := Option.some.inj (heq.symm.trans hb)
          rcases List.mem_append.mp hf with hf | hf
          · exact h.rank_le best hbest f hf
          · rw [List.mem_singleton.mp hf]
            exact hle

theorem hashesDone (h : Picked out) (hashesDone : Int) : Picked { out with hashesDone } :=
  ⟨h.isNone, h.mem, h.rank_le⟩

/-- Another rate for the hit. -/
theorem rate (h : Picked out) (hps : Rat) :
    Picked { out with hit := out.hit.map fun hit : BlockHit ↦ { hit with hps } } where
  isNone := fun hno ↦ h.isNone (Option.map_eq_none_iff.mp hno)
  mem := by
    intro hit hhit
    obtain ⟨best, hbest, rfl⟩ := Option.map_eq_some_iff.mp hhit
    obtain ⟨f, hf, rate, rfl⟩ := h.mem best hbest
    exact ⟨f, hf, hps, rfl⟩
  rank_le := by
    intro hit hhit
    obtain ⟨best, hbest, rfl⟩ := Option.map_eq_some_iff.mp hhit
    exact h.rank_le best hbest

/-- Another rate for all hits, in another order. -/
theorem rates (h : Picked out) (hps : Rat) {hits : List Found}
    (hperm : hits.Perm (out.hits.map fun f : Found ↦ { f with hit := { f.hit with hps } })) :
    Picked { out with hits } where
  isNone := fun hno ↦ by
    have hnil := hperm
    rw [h.isNone hno] at hnil
    exact hnil.eq_nil
  mem := by
    intro hit hhit
    obtain ⟨f, hf, rate, rfl⟩ := h.mem hit hhit
    exact ⟨_, hperm.mem_iff.mpr (List.mem_map_of_mem hf), rate, rfl⟩
  rank_le := by
    intro hit hhit f hf
    obtain ⟨g, hg, rfl⟩ := List.mem_map.mp (hperm.mem_iff.mp hf)
    exact h.rank_le hit hhit g hg

end Picked

/-- What a call has collected so far. -/
def MiningPc.collected : MiningPc → Option MineBatchResult
  | .absorbing _ out _ | .draining _ out => some out
  | _ => none

namespace CudaEngine

variable {s t : CudaEngine} {now : String} {out : MineBatchResult}

theorem picked_addMatches (h : Picked out) (attempts : Nat) (hps : Rat) (ms : List HashApiMatch) :
    Picked (s.addMatches now attempts hps ms out) := by
  induction ms generalizing out with
  | nil => exact h
  | cons m ms ih =>
      cases hm : s.hitFromMatch now m attempts hps with
      | none =>
          rw [addMatches_of_none hm]
          exact ih h
      | some hit =>
          rw [addMatches_of_some hm]
          exact ih (h.add hit m.origin)

/-- The lambda `absorb`, where it returns. -/
theorem picked_absorb {result : HashApiResult} {totalHs total : Rat} {out' : MineBatchResult}
    (h : Picked out) (hout : s.absorb now result out totalHs = .ok (out', total)) :
    Picked out' := by
  unfold absorb at hout
  split at hout
  · cases hout
  · dsimp only at hout
    obtain ⟨rfl, -⟩ := Prod.mk.inj (Except.ok.inj hout)
    exact picked_addMatches (h.hashesDone _) _ _ _

/-! ## Runs -/

/-- What the call has collected, and what the last one has returned, have their best hit apart. -/
structure Picks (s : CudaEngine) : Prop where
  collected : ∀ out, s.pc.collected = some out → Picked out
  lastCall : ∀ out, s.lastCall = .returned out → Picked out

namespace Picks

/-- The thread is outside the loops over the lanes. -/
theorem outside (h : Picks s) (hpc : t.pc.collected = none)
    (hcall : t.lastCall = s.lastCall) : Picks t where
  collected := fun _ hout ↦ absurd (hpc.symm.trans hout) nofun
  lastCall := fun out hout ↦ h.lastCall out (hcall.symm.trans hout)

theorem same (h : Picks s) (hpc : t.pc = s.pc) (hcall : t.lastCall = s.lastCall) : Picks t :=
  ⟨hpc ▸ h.collected, hcall ▸ h.lastCall⟩

theorem returnResult (s : CudaEngine) (h : Picked out) : Picks (s.returnResult out) where
  collected := nofun
  lastCall := by
    rintro _ ⟨⟩
    exact h

theorem abandon (s : CudaEngine) (what : String) : Picks (s.abandon what) where
  collected := fun out hout ↦ by cases hout
  lastCall := fun out hout ↦ by cases hout

theorem finishMine (s : CudaEngine) (h : Picked out) (totalHs : Rat) :
    Picks (s.finishMine out totalHs) :=
  returnResult _ ((h.rates totalHs (List.perm_insertionSort _ _)).rate totalHs)

theorem finishDrain (s : CudaEngine) (h : Picked out) : Picks (s.finishDrain out) :=
  returnResult _ (h.rate s.lastHashrate)

/-! ### Calls -/

theorem resume (h : Picks s) (next : AfterJoin) : Picks (s.resume next) := by
  cases next <;> exact h.outside rfl rfl

theorem ensureLaneWorkers (h : Picks s) (next : AfterJoin) : Picks (s.ensureLaneWorkers next) := by
  rcases s.ensureLaneWorkers_cases next with heq | heq <;> rw [heq]
  · exact h.resume next
  · exact h.outside rfl rfl

theorem joined (h : Picks s) (next : AfterJoin) : Picks (s.joined next) := by
  have hnone : Picks s.dismissed := h.same rfl rfl
  have hnew : Picks s.dismissed.respawn := h.same rfl rfl
  rcases s.joined_cases next with heq | ⟨-, -, heq⟩ <;> rw [heq]
  · exact hnone.resume next
  · exact hnew.resume next

theorem replan (h : Picks s) (m : Int) (plan : CudaVramPlan) : Picks (s.replan m plan) := by
  unfold CudaEngine.replan
  dsimp only
  split <;> exact h.same rfl rfl

theorem ensureIfStarted (h : Picks s) : Picks s.ensureIfStarted := by
  unfold CudaEngine.ensureIfStarted
  split
  · exact h.ensureLaneWorkers .ready
  · exact h

theorem protoOf (h : Picks s) (minutes : Nat × Nat × Nat) : Picks (s.protoOf minutes).2 := by
  refine h.same (sameWork_protoOf s minutes).pc ?_
  have hxuni : (s.computeAllowXuniBase minutes.1 minutes.2.1).2.lastCall = s.lastCall := by
    unfold computeAllowXuniBase
    dsimp only
    split_ifs <;> rfl
  rw [← hxuni]
  unfold CudaEngine.protoOf selectPayoutSalt
  dsimp only
  split_ifs <;> rfl

theorem mineOneLane (h : Picks s) (proto : Proto) (outcome : Outcome) :
    Picks (s.mineOneLane proto now outcome) := by
  unfold CudaEngine.mineOneLane
  split
  · exact h
  · dsimp only
    split
    · exact abandon _ _
    · split
      · exact abandon _ _
      · next habsorb => exact finishMine _ (picked_absorb (picked_nothing 0) habsorb) _

theorem absorbLane (h : Picks s) (hout : Picked out) {lane : Nat} {totalHs : Rat} :
    Picks (s.absorbLane now lane out totalHs) := by
  unfold CudaEngine.absorbLane
  dsimp only
  split
  · exact abandon _ _
  · split
    · exact abandon _ _
    · next habsorb =>
      refine ⟨?_, h.lastCall⟩
      rintro _ ⟨⟩
      exact picked_absorb hout habsorb

theorem drainLane (h : Picks s) (hout : Picked out) {lane : Nat} :
    Picks (s.drainLane now lane out) := by
  unfold CudaEngine.drainLane
  split
  · exact finishDrain s hout
  · dsimp only
    split <;> refine ⟨?_, h.lastCall⟩
    · rintro _ ⟨⟩
      exact hout
    · rintro _ ⟨⟩
      exact picked_addMatches (hout.hashesDone _) _ _ _

/-- A call begins. -/
theorem call (h : Picks s) (a : Act) : Picks (s.call a) := by
  cases a with
  | start configLanes plan =>
      simp only [CudaEngine.call, CudaEngine.start]
      split
      · exact h
      · cases plan with
        | none => exact h.same rfl rfl
        | some plan =>
            have hnew : Picks { s with
                configMaxLanes := max 1 configLanes
                maxLanesCap := max 1 configLanes } := h.same rfl rfl
            refine ensureLaneWorkers ?_ .ready
            exact (hnew.replan s.difficulty plan).same rfl rfl
  | stop => exact h.outside rfl rfl
  | setDifficulty m plan =>
      simp only [CudaEngine.call, CudaEngine.setDifficulty]
      split_ifs
      · exact h
      · cases plan with
        | none => exact h.same rfl rfl
        | some plan => exact (h.replan m plan).ensureLaneWorkers .ready
      · exact h.same rfl rfl
  | restoreLaneCap plan =>
      simp only [CudaEngine.call]
      have hnew : Picks { s with maxLanesCap := s.configMaxLanes } := h.same rfl rfl
      split_ifs
      · exact h
      · cases plan with
        | none => exact hnew
        | some plan => exact (hnew.replan _ plan).ensureLaneWorkers .ready
      · exact hnew
  | reduceLaneCap => exact ensureIfStarted (h.same rfl rfl)
  | addLaneCap =>
      simp only [CudaEngine.call, CudaEngine.addLaneCap]
      split_ifs
      · exact h
      · exact ensureIfStarted (h.same rfl rfl)
  | setBatch | setQueueCounts => exact h.same rfl rfl
  | mineBatch minutes now outcome =>
      rcases s.mineBatch_cases minutes now outcome with heq | ⟨-, -, heq⟩ | ⟨-, -, heq⟩ <;>
        rw [CudaEngine.call, heq]
      · exact returnResult s (picked_nothing 0)
      · exact (h.protoOf minutes).mineOneLane _ outcome
      · exact (h.protoOf minutes).ensureLaneWorkers _
  | drainPipeline =>
      simp only [CudaEngine.call]
      split_ifs
      · exact returnResult s (picked_nothing 0)
      · refine ⟨?_, h.lastCall⟩
        rintro _ ⟨⟩
        exact picked_nothing 0
  | proceed | worker => exact h

/-- A call goes on. -/
theorem proceed (h : Picks s) (hs : s.proceed now = some t) : Picks t := by
  unfold CudaEngine.proceed at hs
  split at hs
  · cases hs
  · split at hs
    · obtain rfl := Option.some.inj hs
      exact h.joined _
    · cases hs
  · split at hs
    · obtain rfl := Option.some.inj hs
      refine ⟨?_, h.lastCall⟩
      rintro _ ⟨⟩
      exact picked_nothing 0
    · cases hs
  · next lane out totalHs hpc =>
    have hout : Picked out := h.collected out (by rw [hpc]; rfl)
    obtain rfl := Option.some.inj hs
    split
    · exact h.absorbLane hout
    · exact finishMine s hout totalHs
  · next lane out hpc =>
    obtain rfl := Option.some.inj hs
    exact h.drainLane (h.collected out (by rw [hpc]; rfl))

theorem step (h : Picks s) {a : Act} (hs : Step s a t) : Picks t := by
  cases step_inv hs with
  | worker _ hm => exact h.same hm.sameCall.pc hm.sameCall.lastCall
  | proceed _ => exact h.proceed hs
  | call a _ _ => exact h.call a

end Picks

/-- **Every result that is returned** has one of its hits apart, and none of a better kind. -/
theorem picked_returned {settings : Settings} {maxLanes : Nat} {as : List Act}
    (hrun : Run Step (create settings maxLanes) as s) (hcall : s.lastCall = .returned out) :
    Picked out := by
  have hstart : Picks (create settings maxLanes) :=
    ⟨(fun out hout ↦ by cases hout), fun out hout ↦ by cases hout⟩
  exact (hrun.preserves (fun _ _ _ h hs ↦ h.step hs) hstart).lastCall out hcall

end CudaEngine

end XNMiner
