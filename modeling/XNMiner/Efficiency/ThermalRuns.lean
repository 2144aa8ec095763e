import XNMiner.Efficiency.ThermalHunt

/-!
# Bounds and settle times over runs

Two promises of the thermal controller about every sequence of readings.

The first is about where the batch can be: between its floor and the planned batch, with a floor
that only rises, raises of at most a step, and cuts that stay above the floor.  It is carried by one
invariant, `InRange`, which every call keeps whatever the temperature limits of that call are.

The second is about when the batch can move.  A call normalises two settle times, one for cuts and
one for raises, but `apply` compares with the first only.  So every move waits for the settle time
of a cut, and a raise comes too early exactly on a cool reading between the two times.
-/

namespace XNMiner

namespace HuntLimits

variable {lim : HuntLimits} {st : ThermalHuntState}

/-! ## Bounds -/

/-- The batch is between its floor and the planned batch, and the floor is not under the minimum. -/
structure InRange (minBatch planned : Int) (st : ThermalHuntState) : Prop where
  min_le_floor : minBatch ≤ st.floor
  floor_le_batch : st.floor ≤ st.batch
  batch_le_planned : st.batch ≤ planned

/-- The wave idle is a time of at most 80 ms. -/
def IdleInRange (idleMs : Int) : Prop := 0 ≤ idleMs ∧ idleMs ≤ 80

/-- **What a call promises about the batch**, from the state before it to the state and the result
after it. -/
structure CallBounds (minBatch planned step : Int) (st : ThermalHuntState)
    (out : ThermalHuntState × ThermalHuntResult) : Prop where
  inRange : InRange minBatch planned out.1
  floor_le : st.floor ≤ out.1.floor
  result_batch : out.2.batch = out.1.batch
  result_idle : IdleInRange out.2.idleMs
  state_idle : IdleInRange st.idleMs → IdleInRange out.1.idleMs
  raised : out.2.action = .raise → st.batch + 1 ≤ out.1.batch ∧ out.1.batch ≤ st.batch + step
  cut : out.2.action = .cut → out.1.batch < st.batch ∧ st.floor < out.1.batch
  held : out.2.action = .hold → out.1.batch = st.batch

theorem wantIdle_inRange (lim : HuntLimits) (temp : Int) : IdleInRange (lim.wantIdle temp) := by
  unfold wantIdle IdleInRange
  split <;> omega

/-- The state that is ready for a reading has the batch and the floor of before. -/
theorem InRange.ready (h : InRange lim.minBatch lim.planned st) (temp : Int) :
    (lim.ready st temp).batch = st.batch ∧ (lim.ready st temp).floor = st.floor ∧
      (lim.ready st temp).idleMs = lim.wantIdle temp := by
  have hmin := lim.one_le_minBatch
  have hfloor := h.min_le_floor
  unfold HuntLimits.ready HuntLimits.watermarks
  dsimp only
  rw [if_neg (by omega), if_neg (by omega)]
  exact ⟨rfl, rfl, rfl⟩

/-- The first reading moves nothing. -/
theorem InRange.firstReading (h : InRange lim.minBatch lim.planned st)
    (hfirst : st.lastAdjustS ≤ 0) (r : HuntReading) :
    CallBounds lim.minBatch lim.planned lim.step st (lim.hunt st r) := by
  have hmin := lim.one_le_minBatch
  obtain ⟨hfloor, hbatch, hplanned⟩ := h
  obtain ⟨hstate, haction, hresult, hidle⟩ := hunt_first hfirst r
  rw [clampBatch_eq_self (by omega) hplanned] at hstate
  have hkeeps : (lim.hunt st r).1.floor = st.floor := by
    rw [hstate]
    exact if_neg (by omega)
  have hsame : (lim.hunt st r).1.batch = st.batch := by rw [hstate]; rfl
  exact {
    inRange := ⟨by omega, by omega, by omega⟩
    floor_le := hkeeps.ge
    result_batch := hresult
    result_idle := by rw [hidle]; exact ⟨le_rfl, by decide⟩
    state_idle := by rw [hstate]; exact id
    raised := by rw [haction]; simp
    cut := by rw [haction]; simp
    held := fun _ ↦ hsame }

/-- **A call keeps the batch in range.** -/
theorem InRange.call (h : InRange lim.minBatch lim.planned st) (r : HuntReading) :
    CallBounds lim.minBatch lim.planned lim.step st (lim.hunt st r) := by
  rcases le_or_gt st.lastAdjustS 0 with hfirst | hadjusted
  · exact h.firstReading hfirst r
  have hstep := lim.one_le_step
  obtain ⟨hfloor, hbatch, hplanned⟩ := id h
  obtain ⟨hstate, haction, hresult, hidle⟩ := hunt_of_adjusted hadjusted r
  rw [clampBatch_eq_self (hfloor.trans hbatch) hplanned] at hstate haction hidle
  obtain ⟨hub, huf, hui⟩ := h.ready (lim.believed st r.control.1)
  have hwant := wantIdle_inRange lim (lim.believed st r.control.1)
  set u := lim.ready st (lim.believed st r.control.1)
  have hmove : ReactMove lim u r (lim.heat st r) (lim.react u r (lim.heat st r)) :=
    react_move (by omega) (by omega) r _
  generalize lim.react u r (lim.heat st r) = out at hstate haction hidle hmove
  generalize lim.heat st r = heat at hmove
  generalize lim.hunt st r = call at hstate haction hresult hidle ⊢
  obtain ⟨after, result⟩ := call
  dsimp only at hstate haction hresult hidle
  subst hstate
  cases hmove with
  | hold heat floor lastOk cool hf hok hwhy =>
      exact {
        inRange := ⟨by dsimp only; omega, by dsimp only; omega, by dsimp only; omega⟩
        floor_le := by dsimp only; omega
        result_batch := hresult
        result_idle := by rw [hidle]; exact hui ▸ hwant
        state_idle := fun _ ↦ hui ▸ hwant
        raised := by rw [haction]; simp
        cut := by rw [haction]; simp
        held := fun _ ↦ hub }
  | raise cool hsettled hroom =>
      exact {
        inRange := ⟨by dsimp only; omega, by dsimp only; omega, by dsimp only; omega⟩
        floor_le := huf.ge
        result_batch := hresult
        result_idle := by rw [hidle]; exact hui ▸ hwant
        state_idle := fun _ ↦ hui ▸ hwant
        raised := fun _ ↦ ⟨by dsimp only; omega, by dsimp only; omega⟩
        cut := by rw [haction]; simp
        held := by rw [haction]; simp }
  | cut cool hsettled hdrop =>
      have habove := floor_lt_hotDrop (by omega) hdrop
      exact {
        inRange := ⟨by dsimp only; omega, by dsimp only; omega, by dsimp only; omega⟩
        floor_le := by dsimp only; omega
        result_batch := hresult
        result_idle := by rw [hidle]; exact hui ▸ hwant
        state_idle := fun _ ↦ hui ▸ hwant
        raised := by rw [haction]; simp
        cut := fun _ ↦ ⟨by dsimp only; omega, by dsimp only; omega⟩
        held := by rw [haction]; simp }

end HuntLimits

/-! ## Sequences of calls -/

/-- A call with a reading and the temperature limits that hold for it. -/
structure HuntCall where
  reading : HuntReading
  targetC : Int
  capC : Int

/-- `hunt_thermal_scale` for a card with these bounds of the batch. -/
def HuntCall.hunt (c : HuntCall) (planned step minBatch : Int) (st : ThermalHuntState) :
    ThermalHuntState × ThermalHuntResult :=
  huntThermalScale st c.reading c.targetC c.capC planned step minBatch

/-- The state after a sequence of calls. -/
def huntCalls (planned step minBatch : Int) (st : ThermalHuntState) :
    List HuntCall → ThermalHuntState
  | [] => st
  | c :: rest => huntCalls planned step minBatch (c.hunt planned step minBatch st).1 rest

open HuntLimits

variable {planned step minBatch : Int}

/-- The smallest batch of a card. -/
theorem minBatch_ofArgs (target cap minBatch : Int) (hplanned : 1 ≤ planned) (hstep : 1 ≤ step) :
    let lim := ofArgs target cap planned step minBatch
    lim.minBatch = min (max minBatch step) planned ∧ lim.planned = planned ∧ lim.step = step := by
  unfold ofArgs
  dsimp only
  refine ⟨?_, ?_, ?_⟩ <;> split_ifs <;> omega

/-- A call, whatever its temperature limits. -/
theorem HuntLimits.InRange.huntCall (hplanned : 1 ≤ planned) (hstep : 1 ≤ step)
    {st : ThermalHuntState} (h : InRange (min (max minBatch step) planned) planned st)
    (c : HuntCall) :
    CallBounds (min (max minBatch step) planned) planned step st
      (c.hunt planned step minBatch st) := by
  obtain ⟨hm, hp, hs⟩ := minBatch_ofArgs c.targetC c.capC minBatch hplanned hstep
  have hrange : InRange (ofArgs c.targetC c.capC planned step minBatch).minBatch
      (ofArgs c.targetC c.capC planned step minBatch).planned st := by
    rwa [hm, hp]
  have hcall := hrange.call c.reading
  rwa [hm, hp, hs] at hcall

/-- **Every run keeps the batch in range.** -/
theorem HuntLimits.InRange.huntCalls (hplanned : 1 ≤ planned) (hstep : 1 ≤ step)
    {st : ThermalHuntState} (h : InRange (min (max minBatch step) planned) planned st)
    (calls : List HuntCall) :
    InRange (min (max minBatch step) planned) planned
        (huntCalls planned step minBatch st calls) ∧
      (IdleInRange st.idleMs → IdleInRange (huntCalls planned step minBatch st calls).idleMs) := by
  induction calls generalizing st with
  | nil => exact ⟨h, id⟩
  | cons c rest ih =>
      have hcall := h.huntCall hplanned hstep c
      exact (ih hcall.inRange).imp id fun hrest hidle ↦ hrest (hcall.state_idle hidle)

/-- **The bounds of the thermal controller.**  From a state whose floor is its batch, after any
sequence of readings, every call keeps the floor over the smallest batch and under the batch, the
batch under the planned one, and the idle in range; the floor does not fall, a raise is of at most a
step, and a cut lands between the floor before it and the batch before it. -/
theorem thermal_bounds {b₀ : Int} (hplanned : 1 ≤ planned) (hstep : 1 ≤ step)
    (hlo : min (max minBatch step) planned ≤ b₀) (hhi : b₀ ≤ planned) {start : ThermalHuntState}
    (hbatch : start.batch = b₀) (hfloor : start.floor = b₀) (calls : List HuntCall)
    (c : HuntCall) :
    let st := huntCalls planned step minBatch start calls
    let out := c.hunt planned step minBatch st
    CallBounds (min (max minBatch step) planned) planned step st out ∧
      (IdleInRange start.idleMs → IdleInRange out.1.idleMs) := by
  have hstart : InRange (min (max minBatch step) planned) planned start :=
    ⟨by omega, by omega, by omega⟩
  obtain ⟨hrange, hidle⟩ := hstart.huntCalls hplanned hstep calls
  have hcall := hrange.huntCall hplanned hstep c
  exact ⟨hcall, fun hfirst ↦ hcall.state_idle (hidle hfirst)⟩

/-- A card that starts at 500 of 1000, on its second reading of 70 C. -/
theorem thermal_bounds_half :
    let start : ThermalHuntState := { batch := 500, floor := 500, lastOk := 500 }
    let st := huntCalls 1000 100 100 start [⟨{ gpuC := 50, memC := 70, nowS := 1 }, 80, 84⟩]
    let c : HuntCall := ⟨{ gpuC := 50, memC := 70, nowS := 100 }, 80, 84⟩
    let out := c.hunt 1000 100 100 st
    out.2.action = .raise ∧ CallBounds 100 1000 100 st out ∧ IdleInRange out.1.idleMs := by
  intro start st c out
  obtain ⟨hcall, hidle⟩ := @thermal_bounds 1000 100 100 500 (by decide) (by decide) (by decide)
    (by decide) start rfl rfl [⟨{ gpuC := 50, memC := 70, nowS := 1 }, 80, 84⟩] c
  exact ⟨by decide +kernel, hcall, hidle ⟨le_rfl, by decide⟩⟩

/-! ## Settle times -/

namespace HuntLimits

variable {lim : HuntLimits} {st : ThermalHuntState}

/-- Every later call that moves the batch has settled: a cut for its own time, a raise for the
normalised `raise_settle_s`.  `changed` is when the batch last changed, or the first reading. -/
def SettleTimes (lim : HuntLimits) (st : ThermalHuntState) (changed : Rat) :
    List HuntReading → Prop
  | [] => True
  | r :: rest =>
      ((lim.hunt st r).2.action = .cut → r.cutSettle ≤ r.nowS - changed) ∧
      ((lim.hunt st r).2.action = .raise → r.raiseSettle ≤ r.nowS - changed) ∧
      SettleTimes lim (lim.hunt st r).1
        (if (lim.hunt st r).2.batch ≠ st.batch then r.nowS else changed) rest

/-- The settle times of a sequence: the first reading moves nothing, and the others have settled. -/
def Settled (lim : HuntLimits) (st : ThermalHuntState) : List HuntReading → Prop
  | [] => True
  | first :: rest =>
      (lim.hunt st first).2.action = .hold ∧
        SettleTimes lim (lim.hunt st first).1 first.nowS rest

/-- A cool reading with room for a raise comes after the settle time of a cut, and before that of a
raise. -/
def EarlyCool (lim : HuntLimits) (st : ThermalHuntState) (r : HuntReading) : Prop :=
  lim.heat st r = .cool ∧ st.batch < lim.planned ∧
    r.cutSettle ≤ r.nowS - st.lastAdjustS ∧ r.nowS - st.lastAdjustS < r.raiseSettle

/-- No reading of the sequence is such a cool one. -/
def NoEarlyCool (lim : HuntLimits) (st : ThermalHuntState) : List HuntReading → Prop
  | [] => True
  | r :: rest => ¬lim.EarlyCool st r ∧ NoEarlyCool lim (lim.hunt st r).1 rest

/-- What holds between calls: the batch is in range, and its last change is what the code takes it
for. -/
structure Observed (lim : HuntLimits) (st : ThermalHuntState) (changed : Rat) : Prop where
  min_le_batch : lim.minBatch ≤ st.batch
  batch_le_planned : st.batch ≤ lim.planned
  adjusted : 0 < st.lastAdjustS
  lastAdjustS : st.lastAdjustS = changed

/-- The first reading starts the observe window. -/
theorem observed_first (hstart : st.lastAdjustS ≤ 0) {first : HuntReading}
    (hpos : 0 < first.nowS) :
    Observed lim (lim.hunt st first).1 first.nowS ∧ (lim.hunt st first).2.action = .hold := by
  obtain ⟨hlo, hhi⟩ := clampBatch_bounds lim st
  obtain ⟨hstate, haction, -⟩ := hunt_first hstart first
  rw [hstate]
  exact ⟨⟨hlo, hhi, hpos, rfl⟩, haction⟩

/-- **One call**: what it keeps, that a cut has settled, and which readings raise. -/
theorem Observed.call {changed : Rat} (h : Observed lim st changed) (r : HuntReading) :
    Observed lim (lim.hunt st r).1
        (if (lim.hunt st r).2.batch ≠ st.batch then r.nowS else changed) ∧
      ((lim.hunt st r).2.action = .cut → r.cutSettle ≤ r.nowS - changed) ∧
      ((lim.hunt st r).2.action = .raise ↔
        lim.heat st r = .cool ∧ st.batch < lim.planned ∧ r.cutSettle ≤ r.nowS - changed) := by
  have hstep := lim.one_le_step
  obtain ⟨hlo, hhi, hadjusted, hchanged⟩ := h
  obtain ⟨hstate, haction, hresult, -⟩ := hunt_of_adjusted hadjusted r
  rw [clampBatch_eq_self hlo hhi] at hstate haction
  have hub : (lim.ready st (lim.believed st r.control.1)).batch = st.batch := rfl
  have hua : (lim.ready st (lim.believed st r.control.1)).lastAdjustS = changed := hchanged
  set u := lim.ready st (lim.believed st r.control.1)
  have hmove : ReactMove lim u r (lim.heat st r) (lim.react u r (lim.heat st r)) :=
    react_move (by omega) (by omega) r _
  have hfive : (5 : Rat) ≤ r.cutSettle := le_max_left _ _
  have hlater : r.cutSettle ≤ r.nowS - changed → 0 < r.nowS := fun hsettled ↦ by linarith
  have hdrop : lim.minBatch ≤ lim.hotDrop u ∧ lim.hotDrop u ≤ u.batch := hotDrop_mem (by omega)
  obtain ⟨hdroplo, hdrophi⟩ := hdrop
  rw [hresult, haction]
  generalize lim.react u r (lim.heat st r) = out at hstate hmove ⊢
  generalize lim.heat st r = heat at hmove ⊢
  rw [hstate]
  cases hmove with
  | hold heat floor lastOk cool hf hok hwhy =>
      have hsame : ¬u.batch ≠ st.batch := not_not.mpr hub
      refine ⟨?_, by simp, iff_of_false (by simp) ?_⟩
      · dsimp only
        rw [if_neg hsame]
        exact ⟨by dsimp only; omega, by dsimp only; omega, hua ▸ hchanged ▸ hadjusted, hua⟩
      · rintro ⟨hcool, hroom, hsettled⟩
        rcases hwhy hcool with hearly | hfull
        · rw [hua] at hearly
          exact absurd hsettled (not_le.mpr hearly)
        · omega
  | raise cool hsettled hroom =>
      rw [hua] at hsettled
      refine ⟨?_, by simp, iff_of_true rfl ⟨rfl, by omega, hsettled⟩⟩
      dsimp only
      rw [if_pos (by omega)]
      exact ⟨by dsimp only; omega, by dsimp only; omega, hlater hsettled, rfl⟩
  | cut cool hsettled hdrop =>
      rw [hua] at hsettled
      refine ⟨?_, fun _ ↦ hsettled, iff_of_false (by simp) (by simp)⟩
      dsimp only
      rw [if_pos (by omega)]
      exact ⟨by dsimp only; omega, by dsimp only; omega, hlater hsettled, rfl⟩

/-- A run has settled exactly where no cool reading comes too early. -/
theorem Observed.settleTimes_iff {changed : Rat} (h : Observed lim st changed)
    (readings : List HuntReading) :
    SettleTimes lim st changed readings ↔ NoEarlyCool lim st readings := by
  induction readings generalizing st changed with
  | nil => exact Iff.rfl
  | cons r rest ih =>
      obtain ⟨hnext, hcut, hraise⟩ := h.call r
      have hone : ((lim.hunt st r).2.action = .raise → r.raiseSettle ≤ r.nowS - changed) ↔
          ¬lim.EarlyCool st r := by
        rw [hraise, EarlyCool, h.lastAdjustS]
        constructor
        · rintro hlate ⟨hcool, hroom, hsettled, hearly⟩
          exact absurd (hlate ⟨hcool, hroom, hsettled⟩) (not_le.mpr hearly)
        · rintro hnot ⟨hcool, hroom, hsettled⟩
          exact not_lt.mp fun hearly ↦ hnot ⟨hcool, hroom, hsettled, hearly⟩
      rw [SettleTimes, NoEarlyCool, ih hnext, hone]
      exact and_iff_right hcut

/-- **The settle times are kept exactly where no cool reading with room for a raise comes between
the settle time of a cut and that of a raise.** -/
theorem settled_iff (target cap planned step minBatch : Int) (st : ThermalHuntState)
    (hstart : st.lastAdjustS ≤ 0) (first : HuntReading) (hpos : 0 < first.nowS)
    (readings : List HuntReading) :
    let lim := ofArgs target cap planned step minBatch
    lim.Settled st (first :: readings) ↔ lim.NoEarlyCool (lim.hunt st first).1 readings := by
  intro lim
  have hfirst : Observed lim (lim.hunt st first).1 first.nowS ∧
      (lim.hunt st first).2.action = .hold := observed_first hstart hpos
  obtain ⟨hobserved, haction⟩ := hfirst
  rw [Settled, hobserved.settleTimes_iff]
  exact and_iff_right haction

/-- A card that is raised once it has waited for the time of a raise. -/
theorem settled_iff_patient :
    (ofArgs 80 84 1000 100 100).Settled { batch := 500, floor := 500, lastOk := 500 }
      [{ gpuC := 50, memC := 70, nowS := 1 }, { gpuC := 50, memC := 70, nowS := 76 }] :=
  (settled_iff 80 84 1000 100 100 { batch := 500, floor := 500, lastOk := 500 } le_rfl
    { gpuC := 50, memC := 70, nowS := 1 } (by decide) [{ gpuC := 50, memC := 70, nowS := 76 }]).mpr
    ⟨fun h ↦ absurd h.2.2.2 (by decide +kernel), trivial⟩

/-- With settle times of 60 and 75 s, a card is raised 60 s after its first reading. -/
theorem not_settled :
    ¬∀ (target cap planned step minBatch : Int) (st : ThermalHuntState)
      (cutSettleS raiseSettleS : Rat) (readings : List HuntReading), st.lastAdjustS ≤ 0 →
      (∀ r ∈ readings, r.cutSettleS = cutSettleS ∧ r.raiseSettleS = raiseSettleS ∧ 0 < r.nowS) →
      readings.Pairwise (fun r r' ↦ r.nowS ≤ r'.nowS) →
        (ofArgs target cap planned step minBatch).Settled st readings := by
  intro hall
  have h := hall 80 84 1000 100 100 { batch := 500, floor := 500, lastOk := 500 } 60 75
    [{ gpuC := 50, memC := 70, nowS := 1 }, { gpuC := 50, memC := 70, nowS := 61 }] le_rfl
    (by decide +kernel) (by decide +kernel)
  exact absurd (h.2.2.1 (by decide +kernel)) (by decide +kernel)

end HuntLimits

end XNMiner
