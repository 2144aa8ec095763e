import XNMiner.Efficiency.ThermalPolicy
import Mathlib.Tactic.Linarith

/-!
# Sustained temperatures, and taking back a raise

Two promises of the thermal controller about what it does over several calls.

A temperature that stays is believed, from the second reading on.  The filter of glitches compares
with the last temperature that was believed, and a reading it rejects does not become that
temperature; so where it rejects a reading once it rejects the same reading for ever.

A raise can be taken back: when the card turns hot after it, the first reading that has settled is
answered with a cut.  A hot reading that comes before the raise has settled moves nothing, but it
lifts the floor to the batch, and from then on no cut is left.
-/

namespace XNMiner

namespace HuntLimits

variable {lim : HuntLimits} {st : ThermalHuntState}

/-! ## A sustained temperature -/

/-- The state before the `n`-th call, when the same reading comes again and again. -/
def again (lim : HuntLimits) (st : ThermalHuntState) (r : HuntReading) (now : Nat → Rat) :
    Nat → ThermalHuntState
  | 0 => st
  | n + 1 => (lim.hunt (again lim st r now n) { r with nowS := now n }).1

/-- The temperature the `n`-th call answers. -/
def controlAt (lim : HuntLimits) (st : ThermalHuntState) (r : HuntReading) (now : Nat → Rat)
    (n : Nat) : Int :=
  (lim.hunt (lim.again st r now n) { r with nowS := now n }).2.controlC

/-- The temperature a call answers is the one it remembers. -/
theorem controlAt_eq (lim : HuntLimits) (st : ThermalHuntState) (r : HuntReading)
    (now : Nat → Rat) (n : Nat) :
    lim.controlAt st r now n = (lim.again st r now (n + 1)).lastTempC := by
  rw [controlAt, again, (hunt_temp lim _ _).1, (hunt_temp lim _ _).2]

/-- **A reading that is rejected once is rejected for ever.** -/
theorem again_of_glitch {r : HuntReading} (h : lim.Glitch st r.control.1) (now : Nat → Rat)
    (n : Nat) : (lim.again st r now n).lastTempC = st.lastTempC := by
  induction n with
  | zero => rfl
  | succ n ih =>
      have hstill : lim.Glitch (lim.again st r now n) r.control.1 := by
        unfold Glitch
        rw [ih]
        exact h
      rw [again, (hunt_temp lim _ _).1]
      exact (if_pos hstill).trans ih

/-- A reading that is believed once is believed for ever. -/
theorem again_of_not_glitch {r : HuntReading} (h : ¬lim.Glitch st r.control.1) (now : Nat → Rat)
    (n : Nat) : (lim.again st r now (n + 1)).lastTempC = r.control.1 := by
  have hstill : ¬lim.Glitch (lim.again st r now n) r.control.1 := by
    induction n with
    | zero => exact h
    | succ n ih =>
        refine not_glitch_of_lastTempC ?_
        rw [again, (hunt_temp lim _ _).1]
        exact believed_eq_iff.mpr ih
  rw [again, (hunt_temp lim _ _).1]
  exact believed_eq_iff.mpr hstill

/-- The temperature of a reading is positive when both sensors report. -/
theorem control_pos {r : HuntReading} (hgpu : 0 < r.gpuC) (hmem : 0 < r.memC) :
    0 < r.control.1 := by
  unfold HuntReading.control
  dsimp only
  split_ifs <;> assumption

/-- **A sustained temperature is believed exactly where its first reading is no glitch**: where
the temperature that was believed last is under the hold, or less than 12 C higher. -/
theorem sustained_iff (target cap planned step minBatch : Int) (st : ThermalHuntState)
    {r : HuntReading} (hgpu : 0 < r.gpuC) (hmem : 0 < r.memC) (now : Nat → Rat) :
    (∀ n, 1 ≤ n →
        (ofArgs target cap planned step minBatch).controlAt st r now n = r.control.1) ↔
      st.lastTempC < max target 40 ∨ st.lastTempC < r.control.1 + 12 := by
  set lim := ofArgs target cap planned step minBatch with hlim
  have htarget : lim.target = max target 40 := by
    change (if target < 40 then 40 else target) = _
    split <;> omega
  have hcond : (st.lastTempC < max target 40 ∨ st.lastTempC < r.control.1 + 12) ↔
      ¬lim.Glitch st r.control.1 := by
    have hpos := control_pos hgpu hmem
    unfold Glitch
    rw [htarget]
    omega
  rw [hcond]
  constructor
  · intro hall hglitch
    have hstuck := (controlAt_eq lim st r now 1).symm.trans (hall 1 le_rfl)
    rw [again_of_glitch hglitch] at hstuck
    exact not_glitch_of_lastTempC hstuck hglitch
  · intro hbelieved n _
    rw [controlAt_eq, again_of_not_glitch hbelieved]

/-- A reading of 64 C after one of 70 C is believed. -/
theorem sustained_iff_warm :
    (ofArgs 80 90 1000 100 100).controlAt { lastTempC := 70 } { gpuC := 50, memC := 64 }
      (fun n ↦ n) 3 = 64 :=
  (sustained_iff 80 90 1000 100 100 _ (by decide) (by decide) fun n ↦ n).mpr (.inl (by decide)) 3
    (by decide)

/-- After one reading of 90 C a card at 60 C is taken to be at 90 C for ever. -/
theorem not_sustained :
    ¬∀ (target cap planned step minBatch : Int) (readings : List HuntReading) (r : HuntReading)
      (now : Nat → Rat), 0 < r.gpuC → 0 < r.memC → ∀ n, 1 ≤ n →
        (ofArgs target cap planned step minBatch).controlAt
          ((ofArgs target cap planned step minBatch).run {} readings) r now n = r.control.1 := by
  intro hall
  have h := hall 80 84 1000 100 100 [{ gpuC := 60, memC := 90, nowS := 1 }]
    { gpuC := 50, memC := 60 } (fun n ↦ n + 2) (by decide) (by decide) 1 le_rfl
  have hlast : ((ofArgs 80 84 1000 100 100).run {}
      [{ gpuC := 60, memC := 90, nowS := 1 }]).lastTempC = 90 := (hunt_temp _ _ _).1
  have hglitch : (ofArgs 80 84 1000 100 100).Glitch ((ofArgs 80 84 1000 100 100).run {}
      [{ gpuC := 60, memC := 90, nowS := 1 }]) 60 := by
    unfold Glitch
    rw [hlast]
    decide
  rw [controlAt_eq, again_of_glitch (r := { gpuC := 50, memC := 60 }) hglitch, hlast] at h
  exact absurd h (by decide)

/-! ## A raise -/

/-- **What a raise leaves behind.** -/
structure Raised (lim : HuntLimits) (st : ThermalHuntState) (r : HuntReading)
    (t : ThermalHuntState) : Prop where
  running : Running lim t
  lastOk : t.lastOk = (lim.clampBatch st).batch
  lt_batch : (lim.clampBatch st).batch < t.batch
  batch_le : t.batch ≤ (lim.clampBatch st).batch + lim.step
  lastAdjustS : t.lastAdjustS = r.nowS

theorem min_le_watermarks (lim : HuntLimits) (st : ThermalHuntState) :
    lim.minBatch ≤ (lim.watermarks st).floor := by
  unfold watermarks
  dsimp only
  split_ifs <;> omega

/-- A call that raises has met a cool reading, after the last move has settled. -/
theorem raised_of_action {r : HuntReading} (h : (lim.hunt st r).2.action = .raise) :
    Raised lim st r (lim.hunt st r).1 := by
  rcases le_or_gt st.lastAdjustS 0 with hfirst | hadjusted
  · rw [(hunt_first hfirst r).2.1] at h
    cases h
  obtain ⟨hmin, hmax⟩ := clampBatch_bounds lim st
  have hone := lim.one_le_minBatch
  have hstep := lim.one_le_step
  obtain ⟨hstate, haction, -⟩ := hunt_of_adjusted hadjusted r
  rw [haction] at h
  rw [hstate]
  have hbatch : (lim.ready (lim.clampBatch st) (lim.believed st r.control.1)).batch =
      (lim.clampBatch st).batch := rfl
  have hadjust : (lim.ready (lim.clampBatch st) (lim.believed st r.control.1)).lastAdjustS =
      st.lastAdjustS := rfl
  have hfloor : lim.minBatch ≤
      (lim.ready (lim.clampBatch st) (lim.believed st r.control.1)).floor :=
    min_le_watermarks lim (lim.clampBatch st)
  set u := lim.ready (lim.clampBatch st) (lim.believed st r.control.1)
  have hmove : ReactMove lim u r (lim.heat st r) (lim.react u r (lim.heat st r)) :=
    react_move (by omega) (by omega) r _
  generalize lim.react u r (lim.heat st r) = out at h hmove ⊢
  generalize lim.heat st r = heat at hmove
  cases hmove with
  | hold => cases h
  | cut => cases h
  | raise cool hsettled hroom =>
      have hfive : (5 : Rat) ≤ r.cutSettle := le_max_left _ _
      have hnow : 0 < r.nowS := by linarith
      exact {
        running := ⟨by dsimp only; omega, by dsimp only; omega, hnow, hfloor,
          by change 0 < u.batch; omega⟩
        lastOk := hbatch
        lt_batch := by dsimp only; omega
        batch_le := by dsimp only; omega
        lastAdjustS := rfl }

/-! ## Calls that move nothing -/

/-- What a call that holds the batch does to the state, by the class of its reading. -/
inductive QuietMove (lim : HuntLimits) (st : ThermalHuntState) :
    HeatClass → ThermalHuntState → Prop
  /-- The batch is good. -/
  | cool (consecutiveCool idleMs lastTempC : Int) : QuietMove lim st .cool
      { st with lastOk := st.batch, consecutiveCool, idleMs, lastTempC }
  /-- Nothing to do, or nothing that can be done. -/
  | still (heat : HeatClass) (hcool : heat ≠ .cool) (hhot : heat = .hot → lim.Stuck st)
      (consecutiveCool idleMs lastTempC : Int) : QuietMove lim st heat
      { st with consecutiveCool, idleMs, lastTempC }
  /-- A cut that has not been made lifts the floor. -/
  | lift (consecutiveCool idleMs lastTempC : Int) : QuietMove lim st .hot
      { st with
        floor := if st.floor < st.batch then st.batch else st.floor
        consecutiveCool, idleMs, lastTempC }

theorem quietMove_of_hold (h : Running lim st) (hmin : lim.minBatch < st.batch) {r : HuntReading}
    (hhold : (lim.hunt st r).2.action = .hold) :
    QuietMove lim st (lim.heat st r) (lim.hunt st r).1 := by
  obtain ⟨hstate, haction, -⟩ := h.hunt r
  rw [hstate]
  rw [haction] at hhold
  generalize lim.heat st r = heat at hhold ⊢
  cases heat with
  | neutral => exact .still .neutral (by simp) (by simp) _ _ _
  | cool =>
      unfold react at hhold ⊢
      dsimp only at hhold ⊢
      rcases lim.applyBatch_cases _ r _ .raise with ⟨-, heq⟩ | ⟨batch, -, -, -, heq⟩
      · rw [heq]
        exact .cool _ _ _
      · rw [heq] at hhold
        cases hhold
  | hot =>
      rw [react_hot] at hhold ⊢
      dsimp only at hhold ⊢
      split at hhold
      · next hdrop =>
        rw [if_pos hdrop]
        rcases lim.applyBatch_cases _ r _ .cut with ⟨-, heq⟩ | ⟨batch, -, -, -, heq⟩
        · rw [heq]
          exact .lift _ _ _
        · rw [heq] at hhold
          cases hhold
      · next hdrop =>
        rw [if_neg hdrop]
        exact .still .hot (by simp)
          (fun _ ↦ (hotDrop_eq_batch_iff hmin).mp (not_not.mp hdrop)) _ _ _

/-- **A hot reading that has settled is answered with a cut, unless the state is stuck.** -/
theorem cut_iff_not_stuck (h : Running lim st) (hmin : lim.minBatch < st.batch) {r : HuntReading}
    (hhot : lim.heat st r = .hot) (hsettled : r.cutSettle ≤ r.nowS - st.lastAdjustS) :
    ((lim.hunt st r).2.action = .cut ∧ (lim.hunt st r).2.batch < st.batch) ↔ ¬lim.Stuck st := by
  obtain ⟨hstate, haction, hresult⟩ := h.hunt r
  obtain ⟨hlow, hhigh⟩ := hotDrop_mem h.min_le_batch
  have hplan := h.batch_le_planned
  rw [hresult, hstate, haction, hhot, ← hotDrop_eq_batch_iff hmin, react_hot]
  set u := { st with idleMs := lim.wantIdle (lim.believed st r.control.1) }
  have hgoes : lim.hotDrop u = lim.hotDrop st := rfl
  have hbatch : u.batch = st.batch := rfl
  have hadjust : u.lastAdjustS = st.lastAdjustS := rfl
  rw [hgoes, hbatch]
  dsimp only
  split
  · next hdrop =>
    refine iff_of_true ?_ hdrop
    rcases lim.applyBatch_cases { u with consecutiveCool := 0 } r (lim.hotDrop st) .cut with
      ⟨hwhy, -⟩ | ⟨batch, -, -, hnext, heq⟩
    · dsimp only at hwhy
      rw [hadjust] at hwhy
      rcases hwhy with hearly | hsame
      · exact absurd hsettled (not_le.mpr hearly)
      · omega
    · rw [heq]
      refine ⟨rfl, ?_⟩
      dsimp only
      omega
  · next hdrop => exact iff_of_false (by simp) hdrop

/-! ## Runs without a move -/

/-- What is left of a state `t` after readings of these classes that have moved nothing. -/
structure Held (lim : HuntLimits) (t : ThermalHuntState) (seen : List HeatClass)
    (u : ThermalHuntState) : Prop where
  running : Running lim u
  batch : u.batch = t.batch
  lastAdjustS : u.lastAdjustS = t.lastAdjustS
  stuck : HeatClass.hot ∈ seen → lim.Stuck u
  kept : HeatClass.hot ∉ seen →
    u.floor = t.floor ∧ u.lastOk = if HeatClass.cool ∈ seen then t.batch else t.lastOk

/-- **A call that moves nothing keeps what is left.** -/
theorem Held.step {t u v : ThermalHuntState} {seen : List HeatClass} {heat : HeatClass}
    (h : Held lim t seen u) (hmove : QuietMove lim u heat v) : Held lim t (seen ++ [heat]) v := by
  have hrun := h.running
  have hone := lim.one_le_minBatch
  have hlo := hrun.min_le_batch
  have hstep := lim.one_le_step
  cases hmove with
  | cool c i T =>
      refine ⟨⟨hlo, hrun.batch_le_planned, hrun.adjusted, hrun.min_le_floor, ?_⟩, h.batch,
        h.lastAdjustS, fun hhot ↦ ?_, fun hhot ↦ ?_⟩
      · change 0 < u.batch
        omega
      · have hold : HeatClass.hot ∈ seen := by simpa using hhot
        exact ⟨(h.stuck hold).1, .inr le_rfl⟩
      · have hold : HeatClass.hot ∉ seen := by simpa using hhot
        refine ⟨(h.kept hold).1, ?_⟩
        rw [if_pos (by simp)]
        exact h.batch
  | still _ hcool hhot c i T =>
      refine ⟨⟨hlo, hrun.batch_le_planned, hrun.adjusted, hrun.min_le_floor, hrun.lastOk⟩, h.batch,
        h.lastAdjustS, fun hin ↦ ?_, fun hout ↦ ?_⟩
      · rcases List.mem_append.mp hin with hold | hnew
        · exact h.stuck hold
        · exact hhot (List.mem_singleton.mp hnew).symm
      · have hold : HeatClass.hot ∉ seen := fun hin ↦ hout (List.mem_append_left _ hin)
        have hiff : HeatClass.cool ∈ seen ++ [heat] ↔ HeatClass.cool ∈ seen := by
          simp [Ne.symm hcool]
        simp only [hiff]
        exact h.kept hold
  | lift c i T =>
      have hfloor : u.batch ≤ if u.floor < u.batch then u.batch else u.floor := by
        split <;> omega
      refine ⟨⟨hlo, hrun.batch_le_planned, hrun.adjusted, ?_, hrun.lastOk⟩, h.batch,
        h.lastAdjustS, fun _ ↦ ⟨?_, ?_⟩, fun hout ↦ absurd (by simp) hout⟩
      · dsimp only
        omega
      · dsimp only
        omega
      · dsimp only
        by_cases hok : u.batch ≤ u.lastOk
        · exact .inr hok
        · exact .inl (by omega)

/-- The same for a whole sequence of readings. -/
theorem Held.run {t u : ThermalHuntState} {seen : List HeatClass} (h : Held lim t seen u)
    (hmin : lim.minBatch < t.batch) {readings : List HuntReading} (hq : lim.Quiet u readings) :
    Held lim t (seen ++ lim.heats u readings) (lim.run u readings) := by
  induction readings generalizing u seen with
  | nil => simpa [HuntLimits.run, heats] using h
  | cons r rest ih =>
      obtain ⟨hhold, hrest⟩ := hq
      have hmove := quietMove_of_hold h.running (by rw [h.batch]; exact hmin) hhold
      have hnext := ih (h.step hmove) hrest
      rwa [List.append_assoc] at hnext

/-- **A raise can be taken back exactly while nothing hot has come too early.**  After a raise from
`b` to `b'`, and readings that move nothing, a hot reading that has settled is answered with a cut
exactly when the floor was under `b`, no reading in between was hot, and, if one was cool, a step
above the floor is still under `b'`. -/
theorem cut_after_raise_iff (target cap planned step minBatch : Int) (st : ThermalHuntState)
    (r : HuntReading) (readings : List HuntReading) (last : HuntReading) :
    let lim := ofArgs target cap planned step minBatch
    let t := (lim.hunt st r).1
    let u := lim.run t readings
    (lim.hunt st r).2.action = .raise → lim.Quiet t readings → lim.heat u last = .hot →
    last.cutSettle ≤ last.nowS - r.nowS →
      (((lim.hunt u last).2.action = .cut ∧ (lim.hunt u last).2.batch < t.batch) ↔
        t.floor < (lim.clampBatch st).batch ∧ HeatClass.hot ∉ lim.heats t readings ∧
          (HeatClass.cool ∈ lim.heats t readings → t.floor + lim.step < t.batch)) := by
  intro lim t u hraise hq hhot hsettled
  have hup := raised_of_action hraise
  have hlt : (lim.clampBatch st).batch < t.batch := hup.lt_batch
  have hle : t.batch ≤ (lim.clampBatch st).batch + lim.step := hup.batch_le
  have hmin : lim.minBatch < t.batch := (clampBatch_bounds lim st).1.trans_lt hlt
  have hheld : Held lim t (lim.heats t readings) u := by
    have hstart : Held lim t [] t :=
      ⟨hup.running, rfl, rfl, fun h ↦ absurd h List.not_mem_nil, fun _ ↦ ⟨rfl, by simp⟩⟩
    simpa using hstart.run hmin hq
  have hcut := cut_iff_not_stuck hheld.running (by rw [hheld.batch]; exact hmin) hhot
    (by rw [hheld.lastAdjustS, hup.lastAdjustS]; exact hsettled)
  rw [hheld.batch] at hcut
  rw [hcut]
  by_cases hseen : HeatClass.hot ∈ lim.heats t readings
  · exact iff_of_false (not_not.mpr (hheld.stuck hseen)) fun h ↦ h.2.1 hseen
  · obtain ⟨hfloor, hok⟩ := hheld.kept hseen
    unfold Stuck
    rw [hheld.batch, hfloor, hok]
    by_cases hcool : HeatClass.cool ∈ lim.heats t readings
    · simp only [hseen, not_false_eq_true, true_and, hcool, if_true, forall_true_left]
      omega
    · have hb : t.lastOk = (lim.clampBatch st).batch := hup.lastOk
      simp only [hseen, not_false_eq_true, hcool, if_false, false_implies, and_true, hb]
      omega

/-- A card that is cool at 500, a step of 100 above its floor. -/
def coolCard : ThermalHuntState where
  batch := 500
  lastAdjustS := 1
  lastTempC := 70
  floor := 400
  lastOk := 500

/-- A reading of the junction at a time. -/
def junctionAt (memC : Int) (nowS : Rat) : HuntReading := { gpuC := 50, memC, nowS }

/-- A card that turns hot a minute after its raise gets the last good batch back. -/
theorem cut_after_raise_iff_coolCard :
    let lim := ofArgs 80 84 1000 100 100
    let t := (lim.hunt coolCard (junctionAt 70 100)).1
    (lim.hunt t (junctionAt 95 160)).2.action = .cut ∧
      (lim.hunt t (junctionAt 95 160)).2.batch < t.batch :=
  (cut_after_raise_iff 80 84 1000 100 100 coolCard (junctionAt 70 100) [] (junctionAt 95 160)
    (by decide +kernel) trivial (by decide +kernel) (by decide +kernel)).mpr
    ⟨by decide +kernel, by simp [heats], by simp [heats]⟩

/-- A card that is hot one second after its raise and again a minute after it is not cut. -/
theorem not_cut_after_raise :
    ¬∀ (target cap planned step minBatch : Int) (st : ThermalHuntState) (r : HuntReading)
      (readings : List HuntReading) (last : HuntReading),
      let lim := ofArgs target cap planned step minBatch
      let t := (lim.hunt st r).1
      let u := lim.run t readings
      (lim.hunt st r).2.action = .raise → t.floor < (lim.clampBatch st).batch →
      lim.Quiet t readings → (∀ x ∈ readings, x.nowS - r.nowS < x.cutSettle) →
      lim.heat u last = .hot → last.cutSettle ≤ last.nowS - r.nowS →
        (lim.hunt u last).2.action = .cut ∧ (lim.hunt u last).2.batch < t.batch := by
  intro hall
  have h := hall 80 84 1000 100 100 coolCard (junctionAt 70 100) [junctionAt 95 101]
    (junctionAt 95 160) (by decide +kernel) (by decide +kernel) ⟨by decide +kernel, trivial⟩
    (by decide +kernel) (by decide +kernel) (by decide +kernel)
  exact absurd h.1 (by decide +kernel)

end HuntLimits

end XNMiner
