import XNMiner.Common
import Mathlib.Algebra.Order.Ring.Rat

/-!
# The thermal controller

`hunt_thermal_scale` (`efficiency/thermal_policy.cpp`) moves the batch size of a card by a fixed
step: up while the temperature is at or under the hold and does not rise, down when it is too hot,
and never sooner than the settle time after the last move.  It remembers the last temperature it
believed, the last batch at which the card was cool, and a floor below which no cut goes.

The temperatures, the clock and the settle times of a call are its `HuntReading`; what a card
keeps from call to call are the `HuntLimits`, which every call brings into range first.  Times are
exact rationals.  `over_floor_streak`, which nothing reads, is left out.
-/

namespace XNMiner

/-! ## Data -/

structure ThermalHuntState where
  batch : Int := 0
  lastAdjustS : Rat := 0
  lastTempC : Int := 0
  consecutiveCool : Int := 0
  idleMs : Int := 0
  /-- Rising low watermark.  Cuts never go to or below this. -/
  floor : Int := 0
  /-- Last job count while junction was at or under the hold. -/
  lastOk : Int := 0
deriving DecidableEq

inductive HuntAction
  | hold
  | cut
  | raise
deriving DecidableEq

inductive HuntSensor
  | gpu
  | mem
deriving DecidableEq

structure ThermalHuntResult where
  batch : Int := 0
  scale : Rat := 1
  action : HuntAction := .hold
  controlC : Int := 0
  sensor : HuntSensor := .gpu
  idleMs : Int := 0
  laneDelta : Int := 0

/-- What a call reads, and when. -/
structure HuntReading where
  gpuC : Int
  memC : Int := 0
  useMem : Bool := true
  gpuCapC : Int := 0
  nowS : Rat := 0
  cutSettleS : Rat := 60
  raiseSettleS : Rat := 75

/-- The limits of a card, in range. -/
structure HuntLimits where
  planned : Int
  step : Int
  minBatch : Int
  target : Int
  cap : Int
  one_le_step : 1 ≤ step
  one_le_minBatch : 1 ≤ minBatch
  minBatch_le_planned : minBatch ≤ planned
  forty_le_target : 40 ≤ target
  target_lt_cap : target < cap

namespace HuntLimits

/-- The limits a caller passes, brought into range. -/
def ofArgs (target cap planned step minBatch : Int) : HuntLimits :=
  let step₁ := if step < 1 then 1000 else step
  let planned₁ := if planned < 1 then 1 else planned
  let minBatch₁ := if minBatch < step₁ then step₁ else minBatch
  let minBatch₂ := if planned₁ < minBatch₁ then planned₁ else minBatch₁
  let target₁ := if target < 40 then 40 else target
  { planned := planned₁
    step := step₁
    minBatch := minBatch₂
    target := target₁
    cap := if cap ≤ target₁ then target₁ + 3 else cap
    one_le_step := by grind
    one_le_minBatch := by grind
    minBatch_le_planned := by grind
    forty_le_target := by grind
    target_lt_cap := by grind }

/-! ## The steps of a call -/

/-- The batch, brought into range. -/
def clampBatch (lim : HuntLimits) (st : ThermalHuntState) : ThermalHuntState :=
  let batch := if st.batch ≤ 0 then lim.planned else st.batch
  let batch := if lim.planned < batch then lim.planned else batch
  let batch := if batch < lim.minBatch then lim.minBatch else batch
  { st with batch }

end HuntLimits

/-- The control temperature of a reading, and the sensor it is from: the memory junction where it
is used and reported, and the die where that is over its own cap and hotter. -/
def HuntReading.control (r : HuntReading) : Int × HuntSensor :=
  let junction := r.useMem && decide (0 < r.memC)
  let controlC := if junction then r.memC else r.gpuC
  let sensor := if junction then HuntSensor.mem else .gpu
  if 0 < r.gpuCapC ∧ r.gpuCapC ≤ r.gpuC ∧ controlC < r.gpuC then (r.gpuC, .gpu)
  else (controlC, sensor)

/-- The normalised `cut_settle_s`. -/
def HuntReading.cutSettle (r : HuntReading) : Rat := max 5 r.cutSettleS

/-- The normalised `raise_settle_s`, which the code computes and then reads nowhere. -/
def HuntReading.raiseSettle (r : HuntReading) : Rat := max (r.cutSettle + 5) r.raiseSettleS

/-- How a temperature is classed. -/
inductive HeatClass
  | cool
  | hot
  | neutral
deriving DecidableEq

namespace HuntLimits

/-- The filter of glitches takes a temperature for a miss of the sensor. -/
def Glitch (lim : HuntLimits) (st : ThermalHuntState) (temp : Int) : Prop :=
  lim.target ≤ st.lastTempC ∧ 0 < temp ∧ 12 ≤ st.lastTempC - temp

instance (lim : HuntLimits) (st : ThermalHuntState) (temp : Int) :
    Decidable (lim.Glitch st temp) := inferInstanceAs (Decidable (_ ∧ _ ∧ _))

/-- The temperature that is believed. -/
def believed (lim : HuntLimits) (st : ThermalHuntState) (temp : Int) : Int :=
  if lim.Glitch st temp then st.lastTempC else temp

/-- The first reading starts the observe window; nothing moves yet. -/
def firstReading (st : ThermalHuntState) (now : Rat) (temp : Int) : ThermalHuntState :=
  { st with
    lastAdjustS := now
    lastTempC := temp
    floor := if st.floor ≤ 0 then st.batch else st.floor
    lastOk := if st.lastOk ≤ 0 then st.batch else st.lastOk }

/-- The two watermarks, brought into range. -/
def watermarks (lim : HuntLimits) (st : ThermalHuntState) : ThermalHuntState :=
  let floor := if st.floor ≤ 0 then st.batch else st.floor
  { st with
    floor := if floor < lim.minBatch then lim.minBatch else floor
    lastOk := if st.lastOk ≤ 0 then st.batch else st.lastOk }

/-- How long the card is to idle between waves. -/
def wantIdle (lim : HuntLimits) (temp : Int) : Int :=
  if lim.target ≤ temp then min 80 (12 * (temp - lim.target + 1)) else 0

/-- How the code classes a temperature that it believes. -/
def classify (lim : HuntLimits) (st : ThermalHuntState) (temp : Int) : HeatClass :=
  let dT := if 0 < st.lastTempC then temp - st.lastTempC else 0
  if temp ≤ lim.target ∧ dT ≤ 0 then .cool
  else if lim.cap ≤ temp ∨ lim.target + 2 ≤ temp ∨ (lim.target ≤ temp ∧ 0 < dT) then .hot
  else .neutral

/-- The lambda `apply`: move the batch, when the last move has settled. -/
def applyBatch (lim : HuntLimits) (st : ThermalHuntState) (r : HuntReading) (next : Int)
    (action : HuntAction) : ThermalHuntState × HuntAction :=
  if r.nowS - st.lastAdjustS < r.cutSettle then (st, .hold)
  else
    let next := if lim.planned < next then lim.planned else next
    let next := if next < lim.minBatch then lim.minBatch else next
    if next = st.batch then (st, .hold)
    else ({ st with batch := next, lastAdjustS := r.nowS }, action)

/-- Where a cut goes: to the last good batch, but always above the previous low. -/
def hotDrop (lim : HuntLimits) (st : ThermalHuntState) : Int :=
  let drop := st.lastOk
  let drop := if drop ≤ st.floor then st.floor + lim.step else drop
  let drop := if st.batch ≤ drop then st.batch - lim.step else drop
  let drop := if drop ≤ st.floor then st.floor + lim.step else drop
  let drop := if drop < lim.minBatch then lim.minBatch else drop
  if st.batch < drop then st.batch else drop

/-- The reaction to a temperature, by its class. -/
def react (lim : HuntLimits) (st : ThermalHuntState) (r : HuntReading) :
    HeatClass → ThermalHuntState × HuntAction
  | .cool =>
      let st := { st with lastOk := st.batch, consecutiveCool := st.consecutiveCool + 1 }
      lim.applyBatch st r (st.batch + lim.step) .raise
  | .hot =>
      let st := { st with consecutiveCool := 0 }
      let drop := lim.hotDrop st
      if drop ≠ st.batch then
        let (st, action) := lim.applyBatch st r drop .cut
        -- also when `apply` has returned without a move
        ({ st with floor := if st.floor < st.batch then st.batch else st.floor }, action)
      else (st, .hold)
  | .neutral => ({ st with consecutiveCool := 0 }, .hold)

/-- The state in which a reading is classed. -/
def ready (lim : HuntLimits) (st : ThermalHuntState) (temp : Int) : ThermalHuntState :=
  { lim.watermarks st with idleMs := lim.wantIdle temp }

/-- `hunt_thermal_scale`, with limits that are in range. -/
def hunt (lim : HuntLimits) (st : ThermalHuntState) (r : HuntReading) :
    ThermalHuntState × ThermalHuntResult :=
  let st := lim.clampBatch st
  let temp := lim.believed st r.control.1
  let result (st : ThermalHuntState) (action : HuntAction) (idleMs : Int) : ThermalHuntResult :=
    { batch := st.batch
      scale := st.batch / lim.planned
      action
      controlC := temp
      sensor := r.control.2
      idleMs }
  if st.lastAdjustS ≤ 0 then
    let st := firstReading st r.nowS temp
    (st, result st .hold 0)
  else
    let st := lim.ready st temp
    let (st, action) := lim.react st r (lim.classify st temp)
    let st := { st with lastTempC := temp }
    (st, result st action st.idleMs)

/-- How the code classes a reading. -/
def heat (lim : HuntLimits) (st : ThermalHuntState) (r : HuntReading) : HeatClass :=
  lim.classify st (lim.believed st r.control.1)

/-- The state after a sequence of readings. -/
def run (lim : HuntLimits) (st : ThermalHuntState) : List HuntReading → ThermalHuntState
  | [] => st
  | r :: rest => run lim (lim.hunt st r).1 rest

/-- How the readings of a sequence are classed. -/
def heats (lim : HuntLimits) (st : ThermalHuntState) : List HuntReading → List HeatClass
  | [] => []
  | r :: rest => lim.heat st r :: heats lim (lim.hunt st r).1 rest

/-- No reading of the sequence moves the batch. -/
def Quiet (lim : HuntLimits) (st : ThermalHuntState) : List HuntReading → Prop
  | [] => True
  | r :: rest => (lim.hunt st r).2.action = .hold ∧ Quiet lim (lim.hunt st r).1 rest

end HuntLimits

def applyBatchScale (batch : Int) (scale : Rat) : Int :=
  if batch ≤ 0 then 0 else max 1 (llround (batch * max 0 (min 1 scale)))

def huntThermalScale (st : ThermalHuntState) (r : HuntReading)
    (target cap planned step minBatch : Int) : ThermalHuntState × ThermalHuntResult :=
  (HuntLimits.ofArgs target cap planned step minBatch).hunt st r

namespace HuntLimits

variable {lim : HuntLimits} {st u : ThermalHuntState} {r : HuntReading}

/-! ## What a call remembers -/

/-- A call answers the temperature it believes, and remembers it. -/
theorem hunt_temp (lim : HuntLimits) (st : ThermalHuntState) (r : HuntReading) :
    (lim.hunt st r).1.lastTempC = lim.believed st r.control.1 ∧
      (lim.hunt st r).2.controlC = lim.believed st r.control.1 := by
  unfold hunt
  dsimp only
  split <;> exact ⟨rfl, rfl⟩

/-- A temperature is believed when it is no glitch. -/
theorem believed_eq_iff {temp : Int} : lim.believed st temp = temp ↔ ¬lim.Glitch st temp := by
  unfold believed
  split
  · next h =>
    refine iff_of_false ?_ (by simpa using h)
    obtain ⟨-, -, hdrop⟩ := h
    omega
  · next h => exact iff_of_true rfl h

/-- A temperature that has been believed is no glitch the next time. -/
theorem not_glitch_of_lastTempC {temp : Int} (h : st.lastTempC = temp) : ¬lim.Glitch st temp := by
  rintro ⟨-, -, hdrop⟩
  omega

/-! ## First call and later calls -/

theorem clampBatch_bounds (lim : HuntLimits) (st : ThermalHuntState) :
    lim.minBatch ≤ (lim.clampBatch st).batch ∧ (lim.clampBatch st).batch ≤ lim.planned := by
  have hplan := lim.minBatch_le_planned
  unfold clampBatch
  dsimp only
  split_ifs <;> omega

/-- A batch in range stays as it is. -/
theorem clampBatch_eq_self (hlo : lim.minBatch ≤ st.batch) (hhi : st.batch ≤ lim.planned) :
    lim.clampBatch st = st := by
  have hmin := lim.one_le_minBatch
  unfold clampBatch
  dsimp only
  rw [if_neg (by omega), if_neg (by omega), if_neg (by omega)]

/-- The first call starts the observe window. -/
theorem hunt_first (hfirst : st.lastAdjustS ≤ 0) (r : HuntReading) :
    (lim.hunt st r).1 =
        firstReading (lim.clampBatch st) r.nowS (lim.believed st r.control.1) ∧
      (lim.hunt st r).2.action = .hold ∧ (lim.hunt st r).2.batch = (lim.hunt st r).1.batch ∧
      (lim.hunt st r).2.idleMs = 0 := by
  have hclamp : (lim.clampBatch st).lastAdjustS = st.lastAdjustS := rfl
  unfold hunt
  dsimp only
  rw [hclamp, if_pos hfirst]
  exact ⟨rfl, rfl, rfl, rfl⟩

/-- A call once the observe window has started is its reaction, in the state that is ready for
it. -/
theorem hunt_of_adjusted (hadjusted : 0 < st.lastAdjustS) (r : HuntReading) :
    let temp := lim.believed st r.control.1
    let u := lim.ready (lim.clampBatch st) temp
    (lim.hunt st r).1 = { (lim.react u r (lim.heat st r)).1 with lastTempC := temp } ∧
      (lim.hunt st r).2.action = (lim.react u r (lim.heat st r)).2 ∧
      (lim.hunt st r).2.batch = (lim.hunt st r).1.batch ∧
      (lim.hunt st r).2.idleMs = (lim.react u r (lim.heat st r)).1.idleMs := by
  have hclamp : (lim.clampBatch st).lastAdjustS = st.lastAdjustS := rfl
  intro temp u
  unfold hunt
  dsimp only
  rw [hclamp, if_neg (not_le.mpr hadjusted)]
  exact ⟨rfl, rfl, rfl, rfl⟩

/-! ## Between calls -/

/-- What holds of the state once the observe window has started. -/
structure Running (lim : HuntLimits) (st : ThermalHuntState) : Prop where
  min_le_batch : lim.minBatch ≤ st.batch
  batch_le_planned : st.batch ≤ lim.planned
  adjusted : 0 < st.lastAdjustS
  min_le_floor : lim.minBatch ≤ st.floor
  lastOk : 0 < st.lastOk

theorem Running.watermarks (h : Running lim st) : lim.watermarks st = st := by
  have hmin := lim.one_le_minBatch
  have hfloor := h.min_le_floor
  have hok := h.lastOk
  unfold HuntLimits.watermarks
  dsimp only
  rw [if_neg (by omega), if_neg (by omega), if_neg (by omega)]

/-- A call on a running state is its reaction. -/
theorem Running.hunt (h : Running lim st) (r : HuntReading) :
    let u := { st with idleMs := lim.wantIdle (lim.believed st r.control.1) }
    (lim.hunt st r).1 = { (lim.react u r (lim.heat st r)).1 with
        lastTempC := lim.believed st r.control.1 } ∧
      (lim.hunt st r).2.action = (lim.react u r (lim.heat st r)).2 ∧
      (lim.hunt st r).2.batch = (lim.hunt st r).1.batch := by
  intro u
  obtain ⟨hstate, haction, hresult, -⟩ := hunt_of_adjusted h.adjusted r
  rw [clampBatch_eq_self h.min_le_batch h.batch_le_planned, HuntLimits.ready, h.watermarks]
    at hstate haction
  exact ⟨hstate, haction, hresult⟩

/-- `apply` leaves everything as it was, for one of two reasons, or it moves the batch. -/
theorem applyBatch_cases (lim : HuntLimits) (st : ThermalHuntState) (r : HuntReading) (next : Int)
    (action : HuntAction) :
    ((r.nowS - st.lastAdjustS < r.cutSettle ∨ max lim.minBatch (min next lim.planned) = st.batch) ∧
        lim.applyBatch st r next action = (st, .hold)) ∨
      ∃ batch, r.cutSettle ≤ r.nowS - st.lastAdjustS ∧ batch ≠ st.batch ∧
        batch = max lim.minBatch (min next lim.planned) ∧
        lim.applyBatch st r next action =
          ({ st with batch, lastAdjustS := r.nowS }, action) := by
  have hclamp : (if (if lim.planned < next then lim.planned else next) < lim.minBatch
      then lim.minBatch else if lim.planned < next then lim.planned else next) =
      max lim.minBatch (min next lim.planned) := by
    split_ifs <;> omega
  unfold applyBatch
  dsimp only
  rw [hclamp]
  split
  · next hearly => exact .inl ⟨.inl hearly, rfl⟩
  · next hsettled =>
    split
    · next heq => exact .inl ⟨.inr heq, rfl⟩
    · next hne => exact .inr ⟨_, not_lt.mp hsettled, hne, rfl, rfl⟩

/-! ## Where a cut can go -/

/-- There is nothing left to cut: the floor is within a step of the batch, and the last good count
is under it or no help. -/
def Stuck (lim : HuntLimits) (st : ThermalHuntState) : Prop :=
  st.batch ≤ st.floor + lim.step ∧ (st.lastOk ≤ st.floor ∨ st.batch ≤ st.lastOk)

/-- Where a cut goes is in range. -/
theorem hotDrop_mem (hlo : lim.minBatch ≤ st.batch) :
    lim.minBatch ≤ lim.hotDrop st ∧ lim.hotDrop st ≤ st.batch := by
  unfold hotDrop
  dsimp only
  split_ifs <;> omega

/-- A cut that moves the batch stays above the floor. -/
theorem floor_lt_hotDrop (hfloor : lim.minBatch ≤ st.floor) (hcut : lim.hotDrop st < st.batch) :
    st.floor < lim.hotDrop st := by
  have hstep := lim.one_le_step
  unfold hotDrop at hcut ⊢
  dsimp only at hcut ⊢
  split_ifs at hcut ⊢ <;> omega

/-- **A hot reading has no cut to make exactly in a stuck state.** -/
theorem hotDrop_eq_batch_iff (hmin : lim.minBatch < st.batch) :
    lim.hotDrop st = st.batch ↔ lim.Stuck st := by
  have hstep := lim.one_le_step
  unfold hotDrop Stuck
  dsimp only
  split_ifs <;> omega

/-! ## What a reaction can do -/

/-- **What the reaction to a temperature can do**, by its class: state and action after it. -/
inductive ReactMove (lim : HuntLimits) (u : ThermalHuntState) (r : HuntReading) :
    HeatClass → ThermalHuntState × HuntAction → Prop
  /-- Nothing moves; a cool reading that moves nothing comes too early, or there is no room. -/
  | hold (heat : HeatClass) (floor lastOk consecutiveCool : Int)
      (hfloor : floor = u.floor ∨ floor = max u.floor u.batch)
      (hok : lastOk = u.lastOk ∨ lastOk = u.batch)
      (hwhy : heat = .cool →
        r.nowS - u.lastAdjustS < r.cutSettle ∨ u.batch = lim.planned) :
      ReactMove lim u r heat ({ u with floor, lastOk, consecutiveCool }, .hold)
  | raise (consecutiveCool : Int) (hsettled : r.cutSettle ≤ r.nowS - u.lastAdjustS)
      (hroom : u.batch < lim.planned) :
      ReactMove lim u r .cool
        ({ u with
            batch := min (u.batch + lim.step) lim.planned
            lastAdjustS := r.nowS
            lastOk := u.batch
            consecutiveCool }, .raise)
  | cut (consecutiveCool : Int) (hsettled : r.cutSettle ≤ r.nowS - u.lastAdjustS)
      (hdrop : lim.hotDrop u < u.batch) :
      ReactMove lim u r .hot
        ({ u with
            batch := lim.hotDrop u
            lastAdjustS := r.nowS
            floor := max u.floor (lim.hotDrop u)
            consecutiveCool }, .cut)

/-- The reaction to a hot reading, in one equation. -/
theorem react_hot (lim : HuntLimits) (u : ThermalHuntState) (r : HuntReading) :
    lim.react u r .hot =
      let moved := lim.applyBatch { u with consecutiveCool := 0 } r (lim.hotDrop u) .cut
      if lim.hotDrop u ≠ u.batch then
        ({ moved.1 with
            floor := if moved.1.floor < moved.1.batch then moved.1.batch else moved.1.floor },
          moved.2)
      else ({ u with consecutiveCool := 0 }, .hold) := rfl

theorem react_move (hlo : lim.minBatch ≤ u.batch) (hhi : u.batch ≤ lim.planned) (r : HuntReading)
    (heat : HeatClass) : ReactMove lim u r heat (lim.react u r heat) := by
  have hstep := lim.one_le_step
  obtain ⟨hdroplo, hdrophi⟩ := hotDrop_mem hlo
  cases heat with
  | neutral => exact .hold .neutral _ _ _ (.inl rfl) (.inl rfl) (by simp)
  | cool =>
      unfold react
      dsimp only
      rcases lim.applyBatch_cases
        { u with lastOk := u.batch, consecutiveCool := u.consecutiveCool + 1 } r
        (u.batch + lim.step) .raise with ⟨hwhy, heq⟩ | ⟨batch, hsettled, hne, hbatch, heq⟩
      · rw [heq]
        refine .hold .cool _ _ _ (.inl rfl) (.inr rfl) fun _ ↦ hwhy.imp id fun hsame ↦ ?_
        change max lim.minBatch (min (u.batch + lim.step) lim.planned) = u.batch at hsame
        omega
      · rw [heq]
        change batch ≠ u.batch at hne
        have hmin : batch = min (u.batch + lim.step) lim.planned := by omega
        subst hmin
        exact .raise _ hsettled (by omega)
  | hot =>
      rw [react_hot]
      dsimp only
      split
      · next hne =>
        rcases lim.applyBatch_cases { u with consecutiveCool := 0 } r (lim.hotDrop u) .cut with
          ⟨-, heq⟩ | ⟨batch, hsettled, -, hbatch, heq⟩
        · rw [heq]
          refine .hold .hot _ _ _ (.inr ?_) (.inl rfl) (by simp)
          dsimp only
          split <;> omega
        · have hgoes : batch = lim.hotDrop u := by omega
          rw [heq, hgoes]
          have hmax : (if u.floor < lim.hotDrop u then lim.hotDrop u else u.floor) =
              max u.floor (lim.hotDrop u) := by
            split <;> omega
          dsimp only
          rw [hmax]
          exact .cut _ hsettled (by omega)
      · exact .hold .hot _ _ _ (.inl rfl) (.inl rfl) (by simp)

end HuntLimits

end XNMiner
