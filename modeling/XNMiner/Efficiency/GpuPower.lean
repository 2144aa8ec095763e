import XNMiner.Efficiency.VramPolicy
import XNMiner.Lib.Blend

/-!
# The power limit of the card

`GpuPowerBooster` (`efficiency/gpu_power.cpp`) keeps the power limit of the card at a percentage of
its maximum.  The percentage is derated twice, each time by a blend that is rounded to an integer:
from the target towards the minimum as the difficulty grows over its reference, which gives the
effective target, and from there towards the minimum as a sensor gets from its warn limit to its
max limit.

What the monitor and the driver answer during a call is its `MonitorAnswers`.  Log messages, and the
power plan of the operating system, are left out.  Quotients are exact rationals.
-/

namespace XNMiner

/-! ## Percentages -/

/-- A target and a minimum in range. -/
@[ext]
structure PowerRange where
  targetPct : Int
  minPct : Int
  fifty_le_min : 50 ≤ minPct
  min_le_target : minPct ≤ targetPct
  target_le_hundred : targetPct ≤ 100

def normalizePowerRange (targetPct minPct : Int) : PowerRange where
  targetPct := clampInt targetPct 50 100
  minPct := clampInt minPct 50 (clampInt targetPct 50 100)
  fifty_le_min := le_max_left _ _
  min_le_target := max_le (le_max_left _ _) (min_le_right _ _)
  target_le_hundred := max_le (by decide) (min_le_right _ _)

def clampFloat (v lo hi : Rat) : Rat := max lo (min hi v)

def difficultyPowerTargetPct (targetPct difficulty referenceDifficulty minPct : Int)
    (fullDerateRatio : Rat) : Int :=
  let range := normalizePowerRange targetPct minPct
  if referenceDifficulty ≤ 0 ∨ difficulty ≤ referenceDifficulty then range.targetPct
  else
    let ratio : Rat := difficulty / referenceDifficulty
    let span := max (101 / 100) fullDerateRatio - 1
    let t := clampFloat ((ratio - 1) / span) 0 1
    llround (range.targetPct - t * (range.targetPct - range.minPct))

/-! ## The booster -/

/-- What `GpuSnapshot` has for the booster. -/
structure GpuSnapshot where
  temperatureC : Int := 0
  /-- 0 when the sensor is unavailable. -/
  memoryJunctionC : Int := 0

def GpuSnapshot.hasMemoryJunction (snap : GpuSnapshot) : Bool := decide (0 < snap.memoryJunctionC)

structure PowerLimits where
  currentMw : Nat := 0
  minMw : Nat := 0
  maxMw : Nat := 0

/-- What the monitor and the driver answer during a call. -/
structure MonitorAnswers where
  available : Bool := true
  powerLimits : Option PowerLimits := none
  /-- `set_power_limit_mw`, called by `apply`. -/
  appliesLimit : Bool := true
  /-- `nvidia-smi -pl`, where the monitor could not set the limit. -/
  smiAppliesLimit : Bool := false
  /-- `set_power_limit_mw`, called by `tick`. -/
  setsLimit : Bool := true

/-- The arguments of the constructor. -/
structure PowerArgs where
  targetPct : Int
  warnTempC : Int
  maxTempC : Int
  minPct : Int
  difficultyPowerEnabled : Bool
  referenceDifficulty : Int
  fullDerateRatio : Rat
  warnMemTempC : Int := 76
  maxMemTempC : Int := 80
  useMemoryJunction : Bool := true

/-- The members that the constructor sets for good. -/
structure PowerConfig where
  range : PowerRange
  warnTempC : Int
  maxTempC : Int
  warnMemTempC : Int
  maxMemTempC : Int
  useMemoryJunction : Bool
  difficultyPowerEnabled : Bool
  referenceDifficulty : Int
  fullDerateRatio : Rat

structure GpuPowerBooster where
  config : PowerConfig
  difficulty : Int
  effectiveTargetPct : Int
  originalLimitMw : Option Nat := none
  minLimitMw : Nat := 0
  maxLimitMw : Nat := 0
  currentLimitMw : Option Nat := none
  applied : Bool := false

def PowerConfig.ofArgs (args : PowerArgs) : PowerConfig where
  range := normalizePowerRange args.targetPct args.minPct
  warnTempC := args.warnTempC
  maxTempC := args.maxTempC
  warnMemTempC := args.warnMemTempC
  maxMemTempC := args.maxMemTempC
  useMemoryJunction := args.useMemoryJunction
  difficultyPowerEnabled := args.difficultyPowerEnabled
  referenceDifficulty := max 1 args.referenceDifficulty
  fullDerateRatio := max (101 / 100) args.fullDerateRatio

/-- The effective target of a configuration at a difficulty (`compute_effective_target_pct`). -/
def PowerConfig.effectiveTargetPct (config : PowerConfig) (difficulty : Int) : Int :=
  if config.difficultyPowerEnabled then
    difficultyPowerTargetPct config.range.targetPct difficulty config.referenceDifficulty
      config.range.minPct config.fullDerateRatio
  else config.range.targetPct

namespace GpuPowerBooster

/-- The constructor. -/
def create (args : PowerArgs) : GpuPowerBooster where
  config := .ofArgs args
  difficulty := max 1 args.referenceDifficulty
  effectiveTargetPct := (PowerConfig.ofArgs args).range.targetPct

def computeEffectiveTargetPct (b : GpuPowerBooster) : Int :=
  b.config.effectiveTargetPct b.difficulty

def setDifficulty (b : GpuPowerBooster) (difficulty : Int) : GpuPowerBooster :=
  let b := { b with difficulty := max 1 difficulty }
  let newPct := b.computeEffectiveTargetPct
  if newPct ≠ b.effectiveTargetPct then { b with effectiveTargetPct := newPct } else b

/-- The limit for a percentage, in the range of the card. -/
def desiredMw (b : GpuPowerBooster) (pct : Int) : Nat :=
  max b.minLimitMw (min (llround (b.maxLimitMw * (pct / 100))).toNat b.maxLimitMw)

def apply (b : GpuPowerBooster) (m : MonitorAnswers) : GpuPowerBooster :=
  if m.available then
    match m.powerLimits with
    | none => b
    | some limits =>
        let b := { b with
          originalLimitMw := some limits.currentMw
          minLimitMw := limits.minMw
          maxLimitMw := limits.maxMw }
        if m.appliesLimit || m.smiAppliesLimit then
          { b with currentLimitMw := some (b.desiredMw b.effectiveTargetPct), applied := true }
        else b
  else b

/-- How hot the card is: 0 is cool, 1 is at a max limit or over it. -/
def heat (config : PowerConfig) (snap : GpuSnapshot) : Rat :=
  let heat := Lib.ramp config.warnTempC config.maxTempC snap.temperatureC
  if config.useMemoryJunction && snap.hasMemoryJunction then
    max heat (Lib.ramp config.warnMemTempC config.maxMemTempC snap.memoryJunctionC)
  else heat

/-- The percentage that `tick` works out. -/
def tickPct (b : GpuPowerBooster) : Option GpuSnapshot → Int
  | none => b.effectiveTargetPct
  | some snap =>
      let heat := heat b.config snap
      if 1 ≤ heat then b.config.range.minPct
      else if 0 < heat then
        llround (b.effectiveTargetPct - heat * (b.effectiveTargetPct - b.config.range.minPct))
      else b.effectiveTargetPct

/-- `tick`: the state after it, and the percentage it used if it did not return before. -/
def tick (b : GpuPowerBooster) (m : MonitorAnswers) (snap : Option GpuSnapshot) :
    GpuPowerBooster × Option Int :=
  if m.available then
    let b := if b.applied then b else b.apply m
    if b.applied then
      let pct := b.tickPct snap
      let desired := b.desiredMw pct
      if b.currentLimitMw ≠ some desired ∧ m.setsLimit = true then
        ({ b with currentLimitMw := some desired }, some pct)
      else (b, some pct)
    else (b, none)
  else (b, none)

/-- `restore`, up to the limit that it sets. -/
def restore (b : GpuPowerBooster) : GpuPowerBooster := { b with applied := false }

/-- A call of the supervisor. -/
inductive Call
  | setDifficulty (difficulty : Int)
  | apply (m : MonitorAnswers)
  | tick (m : MonitorAnswers) (snap : Option GpuSnapshot)
  | restore

def call (b : GpuPowerBooster) : Call → GpuPowerBooster
  | .setDifficulty difficulty => b.setDifficulty difficulty
  | .apply m => b.apply m
  | .tick m snap => (b.tick m snap).1
  | .restore => b.restore

/-- The booster after a history of calls. -/
def after (args : PowerArgs) (calls : List Call) : GpuPowerBooster := calls.foldl call (create args)

end GpuPowerBooster

/-! ## The effective target -/

/-- The code rounds a blend. -/
theorem llround_blend (lo hi : Int) (t : Rat) :
    llround ((hi : Rat) - t * (hi - lo)) = Lib.blend lo hi t :=
  (round_eq _).symm

/-- A range stays as it is. -/
theorem normalizePowerRange_eq (range : PowerRange) :
    normalizePowerRange range.targetPct range.minPct = range := by
  have hfifty := range.fifty_le_min
  have hle := range.min_le_target
  have hhundred := range.target_le_hundred
  unfold normalizePowerRange clampInt
  ext <;> dsimp only <;> omega

/-- The fraction by which a difficulty derates the target. -/
def derateFraction (difficulty referenceDifficulty : Int) (fullDerateRatio : Rat) : Rat :=
  clampFloat
    (((difficulty : Rat) / referenceDifficulty - 1) / (max (101 / 100) fullDerateRatio - 1)) 0 1

theorem derateFraction_mem (difficulty referenceDifficulty : Int) (fullDerateRatio : Rat) :
    0 ≤ derateFraction difficulty referenceDifficulty fullDerateRatio ∧
      derateFraction difficulty referenceDifficulty fullDerateRatio ≤ 1 :=
  ⟨le_max_left _ _, max_le zero_le_one (min_le_left _ _)⟩

theorem derateFraction_mono {referenceDifficulty d d' : Int} (href : 1 ≤ referenceDifficulty)
    (h : d ≤ d') (fullDerateRatio : Rat) :
    derateFraction d referenceDifficulty fullDerateRatio ≤
      derateFraction d' referenceDifficulty fullDerateRatio := by
  have hspan : (0 : Rat) ≤ max (101 / 100) fullDerateRatio - 1 := by
    have hmin : (101 / 100 : Rat) ≤ max (101 / 100) fullDerateRatio := le_max_left _ _
    linarith
  have hpos : (0 : Rat) ≤ referenceDifficulty := by exact_mod_cast zero_le_one.trans href
  have hcast : (d : Rat) ≤ d' := by exact_mod_cast h
  have hratio : (d : Rat) / referenceDifficulty ≤ d' / referenceDifficulty :=
    div_le_div_of_nonneg_right hcast hpos
  exact max_le_max_left 0 (min_le_min_left 1
    (div_le_div_of_nonneg_right (sub_le_sub_right hratio 1) hspan))

namespace PowerConfig

variable {config : PowerConfig}

/-- The effective target is the target, or a blend. -/
theorem effectiveTargetPct_eq (config : PowerConfig) (difficulty : Int) :
    config.effectiveTargetPct difficulty =
      if config.difficultyPowerEnabled = true ∧ 1 ≤ config.referenceDifficulty ∧
          config.referenceDifficulty < difficulty then
        Lib.blend config.range.minPct config.range.targetPct
          (derateFraction difficulty config.referenceDifficulty config.fullDerateRatio)
      else config.range.targetPct := by
  unfold effectiveTargetPct difficultyPowerTargetPct
  rw [normalizePowerRange_eq]
  dsimp only
  rw [llround_blend, ← derateFraction]
  by_cases hcheap : config.referenceDifficulty ≤ 0 ∨ difficulty ≤ config.referenceDifficulty
  · rw [if_pos hcheap, ite_self, if_neg (by omega)]
  · rw [if_neg hcheap]
    by_cases henabled : config.difficultyPowerEnabled = true
    · rw [if_pos henabled, if_pos ⟨henabled, by omega, by omega⟩]
    · rw [if_neg henabled, if_neg fun h ↦ henabled h.1]

/-- **The effective target is in range.** -/
theorem effectiveTargetPct_mem (config : PowerConfig) (difficulty : Int) :
    config.range.minPct ≤ config.effectiveTargetPct difficulty ∧
      config.effectiveTargetPct difficulty ≤ config.range.targetPct := by
  have hrange := config.range.min_le_target
  rw [effectiveTargetPct_eq]
  split
  · obtain ⟨h0, h1⟩ :=
      derateFraction_mem difficulty config.referenceDifficulty config.fullDerateRatio
    exact Lib.blend_mem hrange h0 h1
  · exact ⟨hrange, le_rfl⟩

/-- **It does not grow with the difficulty.** -/
theorem effectiveTargetPct_antitone {d d' : Int} (h : d ≤ d') :
    config.effectiveTargetPct d' ≤ config.effectiveTargetPct d := by
  by_cases hd : config.difficultyPowerEnabled = true ∧ 1 ≤ config.referenceDifficulty ∧
      config.referenceDifficulty < d
  · obtain ⟨henabled, href, hlt⟩ := hd
    rw [effectiveTargetPct_eq config d', effectiveTargetPct_eq config d,
      if_pos ⟨henabled, href, hlt.trans_le h⟩, if_pos ⟨henabled, href, hlt⟩]
    exact Lib.blend_antitone config.range.min_le_target (derateFraction_mono href h _)
  · have htarget : config.effectiveTargetPct d = config.range.targetPct := by
      rw [effectiveTargetPct_eq, if_neg hd]
    rw [htarget]
    exact (effectiveTargetPct_mem config d').2

end PowerConfig

namespace GpuPowerBooster

variable {b b' : GpuPowerBooster} {args : PowerArgs}

/-! ## Heat -/

/-- One snapshot is nowhere colder than the other, and lacks no sensor of it. -/
structure Hotter (config : PowerConfig) (snap snap' : GpuSnapshot) : Prop where
  die : snap.temperatureC ≤ snap'.temperatureC
  junction : config.useMemoryJunction = true → snap.hasMemoryJunction = true →
    snap.memoryJunctionC ≤ snap'.memoryJunctionC

/-- A sensor that is used is at its max limit. -/
def AtMax (config : PowerConfig) (snap : GpuSnapshot) : Prop :=
  config.maxTempC ≤ snap.temperatureC ∨
    config.useMemoryJunction = true ∧ snap.hasMemoryJunction = true ∧
      config.maxMemTempC ≤ snap.memoryJunctionC

/-- Every sensor that is used is under both of its limits. -/
structure Cool (config : PowerConfig) (snap : GpuSnapshot) : Prop where
  die : snap.temperatureC < config.warnTempC ∧ snap.temperatureC < config.maxTempC
  junction : config.useMemoryJunction = true → snap.hasMemoryJunction = true →
    snap.memoryJunctionC < config.warnMemTempC ∧ snap.memoryJunctionC < config.maxMemTempC

variable {config : PowerConfig} {snap snap' : GpuSnapshot}

theorem heat_mem (config : PowerConfig) (snap : GpuSnapshot) :
    0 ≤ heat config snap ∧ heat config snap ≤ 1 := by
  unfold heat
  dsimp only
  split
  · exact ⟨(Lib.ramp_nonneg _ _ _).trans (le_max_left _ _),
      max_le (Lib.ramp_le_one _ _ _) (Lib.ramp_le_one _ _ _)⟩
  · exact ⟨Lib.ramp_nonneg _ _ _, Lib.ramp_le_one _ _ _⟩

theorem Hotter.heat_le (h : Hotter config snap snap') : heat config snap ≤ heat config snap' := by
  have hdie : (Lib.ramp config.warnTempC config.maxTempC snap.temperatureC : Rat) ≤
      Lib.ramp config.warnTempC config.maxTempC snap'.temperatureC := Lib.ramp_mono _ _ h.die
  unfold heat
  dsimp only
  by_cases hjunction : config.useMemoryJunction = true ∧ snap.hasMemoryJunction = true
  · obtain ⟨huse, hhas⟩ := hjunction
    have hle := h.junction huse hhas
    have hhas' : snap'.hasMemoryJunction = true :=
      decide_eq_true ((of_decide_eq_true hhas).trans_le hle)
    rw [huse, hhas, hhas']
    exact max_le_max hdie (Lib.ramp_mono _ _ hle)
  · rw [← Bool.and_eq_true] at hjunction
    rw [if_neg hjunction]
    split
    · exact hdie.trans (le_max_left _ _)
    · exact hdie

theorem AtMax.heat_eq (h : AtMax config snap) : heat config snap = 1 := by
  refine (heat_mem config snap).2.antisymm ?_
  unfold heat
  dsimp only
  rcases h with hdie | ⟨huse, hhas, hjunction⟩
  · rw [Lib.ramp_of_le hdie]
    split
    · exact le_max_left _ _
    · exact le_rfl
  · rw [huse, hhas, Lib.ramp_of_le hjunction]
    exact le_max_right _ _

theorem Cool.heat_eq (h : Cool config snap) : heat config snap = 0 := by
  unfold heat
  dsimp only
  rw [Lib.ramp_of_lt h.die.1 h.die.2]
  split
  · next hjunction =>
    rw [Bool.and_eq_true] at hjunction
    obtain ⟨hwarn, hmax⟩ := h.junction hjunction.1 hjunction.2
    rw [Lib.ramp_of_lt hwarn hmax, max_self]
  · rfl

/-- **What `tick` works out is a blend by the heat.** -/
theorem tickPct_some (b : GpuPowerBooster) (snap : GpuSnapshot) :
    b.tickPct (some snap) =
      Lib.blend b.config.range.minPct b.effectiveTargetPct (heat b.config snap) := by
  obtain ⟨h0, h1⟩ := heat_mem b.config snap
  unfold tickPct
  dsimp only
  split
  · next hfull =>
    rw [h1.antisymm hfull, Lib.blend_one]
  · split
    · exact llround_blend _ _ _
    · next hnone =>
      rw [(not_lt.mp hnone).antisymm h0, Lib.blend_zero]

/-! ## What a call leaves alone -/

/-- `apply` sets limits only. -/
theorem apply_same (b : GpuPowerBooster) (m : MonitorAnswers) :
    (b.apply m).config = b.config ∧ (b.apply m).difficulty = b.difficulty ∧
      (b.apply m).effectiveTargetPct = b.effectiveTargetPct := by
  unfold apply
  split
  · cases m.powerLimits with
    | none => exact ⟨rfl, rfl, rfl⟩
    | some limits =>
        dsimp only
        split <;> exact ⟨rfl, rfl, rfl⟩
  · exact ⟨rfl, rfl, rfl⟩

theorem tickPct_congr (hconfig : b'.config = b.config)
    (heffective : b'.effectiveTargetPct = b.effectiveTargetPct) (snap : Option GpuSnapshot) :
    b'.tickPct snap = b.tickPct snap := by
  cases snap with
  | none => exact heffective
  | some snap => rw [tickPct_some, tickPct_some, hconfig, heffective]

/-- **The percentage that `tick` uses** is worked out from the state before it. -/
theorem tick_pct {m : MonitorAnswers} {snap : Option GpuSnapshot} {pct : Int}
    (h : (b.tick m snap).2 = some pct) : pct = b.tickPct snap := by
  have happlied : (if b.applied then b else b.apply m).tickPct snap = b.tickPct snap := by
    split
    · rfl
    · obtain ⟨hconfig, -, heffective⟩ := apply_same b m
      exact tickPct_congr hconfig heffective snap
  unfold tick at h
  split at h
  · dsimp only at h
    generalize (if b.applied then b else b.apply m) = u at h happlied
    split at h
    · rw [← happlied]
      split at h <;> exact (Option.some.inj h).symm
    · cases h
  · cases h

/-- `tick` uses one where the card can be read, and its limit is set or can be. -/
theorem tick_isSome_iff (b : GpuPowerBooster) (m : MonitorAnswers) (snap : Option GpuSnapshot) :
    (b.tick m snap).2.isSome = true ↔ m.available = true ∧ (b.applied = true ∨
      m.powerLimits.isSome = true ∧ (m.appliesLimit || m.smiAppliesLimit) = true) := by
  have happlied : (if b.applied then b else b.apply m).applied = true ↔ b.applied = true ∨
      m.available = true ∧ m.powerLimits.isSome = true ∧
        (m.appliesLimit || m.smiAppliesLimit) = true := by
    cases hb : b.applied with
    | true => simp [hb]
    | false =>
        unfold apply
        cases m.available <;> cases m.powerLimits <;>
          cases m.appliesLimit || m.smiAppliesLimit <;> simp [hb]
  unfold tick
  split
  · next havailable =>
    dsimp only
    rw [havailable] at happlied ⊢
    simp only [true_and] at happlied ⊢
    rw [← happlied]
    generalize (if b.applied then b else b.apply m) = u
    cases hu : u.applied with
    | true =>
        refine iff_of_true ?_ rfl
        rw [if_pos rfl]
        split <;> rfl
    | false => exact iff_of_false (by simp) (by simp)
  · next hgone => exact iff_of_false (by simp) fun h ↦ hgone h.1

/-! ## Every history -/

/-- **What every call keeps**: the configuration, and that the effective target is the one of the
difficulty. -/
structure Derated (config : PowerConfig) (b : GpuPowerBooster) : Prop where
  config_eq : b.config = config
  effective : b.effectiveTargetPct = config.effectiveTargetPct b.difficulty

/-- At the reference nothing is derated. -/
theorem derated_create (args : PowerArgs) : Derated (.ofArgs args) (create args) := by
  refine ⟨rfl, ?_⟩
  have href : ¬(PowerConfig.ofArgs args).referenceDifficulty < max 1 args.referenceDifficulty :=
    lt_irrefl _
  change _ = (PowerConfig.ofArgs args).effectiveTargetPct (max 1 args.referenceDifficulty)
  rw [PowerConfig.effectiveTargetPct_eq, if_neg fun h ↦ href h.2.2]
  rfl

namespace Derated

theorem of_same (h : Derated config b) (hconfig : b'.config = b.config)
    (hdifficulty : b'.difficulty = b.difficulty)
    (heffective : b'.effectiveTargetPct = b.effectiveTargetPct) : Derated config b' :=
  ⟨hconfig.trans h.config_eq, by rw [heffective, hdifficulty, h.effective]⟩

theorem setDifficulty (h : Derated config b) (difficulty : Int) :
    Derated config (b.setDifficulty difficulty) := by
  obtain ⟨rfl, -⟩ := h
  unfold GpuPowerBooster.setDifficulty
  dsimp only
  split
  · exact ⟨rfl, rfl⟩
  · next hsame => exact ⟨rfl, (not_not.mp hsame).symm⟩

theorem apply (h : Derated config b) (m : MonitorAnswers) : Derated config (b.apply m) := by
  obtain ⟨hconfig, hdifficulty, heffective⟩ := apply_same b m
  exact h.of_same hconfig hdifficulty heffective

theorem tick (h : Derated config b) (m : MonitorAnswers) (snap : Option GpuSnapshot) :
    Derated config (b.tick m snap).1 := by
  have happlied : Derated config (if b.applied then b else b.apply m) := by
    split
    · exact h
    · exact h.apply m
  unfold GpuPowerBooster.tick
  split
  · dsimp only
    generalize (if b.applied then b else b.apply m) = u at happlied
    split
    · split
      · exact happlied.of_same rfl rfl rfl
      · exact happlied
    · exact happlied
  · exact h

theorem call (h : Derated config b) (c : Call) : Derated config (b.call c) := by
  cases c with
  | setDifficulty difficulty => exact h.setDifficulty difficulty
  | apply m => exact h.apply m
  | tick m snap => exact h.tick m snap
  | restore => exact h.of_same rfl rfl rfl

end Derated

theorem derated_after (args : PowerArgs) (calls : List Call) :
    Derated (.ofArgs args) (after args calls) := by
  unfold after
  generalize create args = start, derated_create args = h
  induction calls generalizing start with
  | nil => exact h
  | cons c calls ih => exact ih _ (h.call c)

/-- What `tick` uses on a snapshot, after any history. -/
theorem tick_after {calls : List Call} {m : MonitorAnswers} {snap : GpuSnapshot} {pct : Int}
    (h : ((after args calls).tick m (some snap)).2 = some pct) :
    pct = Lib.blend (PowerConfig.ofArgs args).range.minPct
      ((PowerConfig.ofArgs args).effectiveTargetPct (after args calls).difficulty)
      (heat (.ofArgs args) snap) := by
  obtain ⟨hconfig, heffective⟩ := derated_after args calls
  rw [tick_pct h, tickPct_some, hconfig, heffective]

/-- **The power of the card is controlled**, whatever the calls before: `tick` uses a percentage
wherever the card can be read and its limit is set or can be; the percentage is in range; it does
not grow where the card is hotter or the difficulty higher; it is the minimum at a max limit, and
the effective target where every sensor is cool. -/
theorem power_controlled (args : PowerArgs) (calls : List Call) :
    let config := PowerConfig.ofArgs args
    let b := after args calls
    (∀ m snap, (b.tick m snap).2.isSome = true ↔ m.available = true ∧ (b.applied = true ∨
      m.powerLimits.isSome = true ∧ (m.appliesLimit || m.smiAppliesLimit) = true)) ∧
    (∀ m snap pct, (b.tick m snap).2 = some pct →
      config.range.minPct ≤ pct ∧ pct ≤ config.range.targetPct) ∧
    (∀ calls' m m' snap snap' pct pct', (b.tick m (some snap)).2 = some pct →
      ((after args calls').tick m' (some snap')).2 = some pct' →
      b.difficulty ≤ (after args calls').difficulty → Hotter config snap snap' → pct' ≤ pct) ∧
    (∀ m snap pct, (b.tick m (some snap)).2 = some pct → AtMax config snap →
      pct = config.range.minPct) ∧
    ∀ m snap pct, (b.tick m (some snap)).2 = some pct → Cool config snap →
      pct = b.computeEffectiveTargetPct := by
  intro config b
  obtain ⟨hconfig, heffective⟩ := derated_after args calls
  have hmem (calls : List Call) := config.effectiveTargetPct_mem (after args calls).difficulty
  refine ⟨tick_isSome_iff b, fun m snap pct hused ↦ ?_,
    fun calls' m m' snap snap' pct pct' hused hused' hd hhot ↦ ?_,
    fun m snap pct hused hmax ↦ ?_, fun m snap pct hused hcool ↦ ?_⟩
  · cases snap with
    | none =>
        have hpct : pct = config.effectiveTargetPct b.difficulty :=
          (tick_pct hused).trans heffective
        rw [hpct]
        exact hmem calls
    | some snap =>
        obtain ⟨h0, h1⟩ := heat_mem config snap
        obtain ⟨hlow, hhigh⟩ := Lib.blend_mem (hmem calls).1 h0 h1
        rw [tick_after hused]
        exact ⟨hlow, hhigh.trans (hmem calls).2⟩
  · rw [tick_after hused, tick_after hused']
    calc Lib.blend config.range.minPct
          (config.effectiveTargetPct (after args calls').difficulty) (heat config snap')
        ≤ Lib.blend config.range.minPct
          (config.effectiveTargetPct (after args calls').difficulty) (heat config snap) :=
          Lib.blend_antitone (hmem calls').1 hhot.heat_le
      _ ≤ Lib.blend config.range.minPct
          (config.effectiveTargetPct b.difficulty) (heat config snap) :=
          Lib.blend_mono (heat_mem config snap).2 (PowerConfig.effectiveTargetPct_antitone hd)
  · rw [tick_after hused, hmax.heat_eq, Lib.blend_one]
  · rw [tick_after hused, hcool.heat_eq, Lib.blend_zero, computeEffectiveTargetPct, hconfig]

/-- A card that the booster can set, derated for the difficulty: it is at the minimum when the die
is too hot, and at the effective target, which is no less, when it is cool. -/
theorem power_controlled_derated :
    let args : PowerArgs :=
      { targetPct := 90, warnTempC := 70, maxTempC := 80, minPct := 60,
        difficultyPowerEnabled := true, referenceDifficulty := 1000, fullDerateRatio := 2 }
    let b := after args [.setDifficulty 1500]
    let m : MonitorAnswers := { powerLimits := some { minMw := 100000, maxMw := 320000 } }
    (b.tick m (some { temperatureC := 85 })).2 = some 60 ∧
      (b.tick m (some { temperatureC := 65 })).2 = some b.computeEffectiveTargetPct ∧
      60 ≤ b.computeEffectiveTargetPct := by
  intro args b m
  obtain ⟨hused, -, hmono, hmax, hcool⟩ := power_controlled args [.setDifficulty 1500]
  obtain ⟨hot, hhot⟩ := Option.isSome_iff_exists.mp
    ((hused m (some { temperatureC := 85 })).mpr ⟨rfl, .inr ⟨rfl, rfl⟩⟩)
  obtain ⟨mild, hmild⟩ := Option.isSome_iff_exists.mp
    ((hused m (some { temperatureC := 65 })).mpr ⟨rfl, .inr ⟨rfl, rfl⟩⟩)
  have hsixty : hot = 60 := hmax _ _ _ hhot (.inl (by decide))
  have htarget := hcool _ _ _ hmild ⟨⟨by decide, by decide⟩, fun _ h ↦ absurd h (by decide)⟩
  have hle := hmono [.setDifficulty 1500] _ _ _ _ _ _ hmild hhot le_rfl
    ⟨by decide, fun _ h ↦ absurd h (by decide)⟩
  exact ⟨hsixty ▸ hhot, htarget ▸ hmild, htarget ▸ hsixty ▸ hle⟩

end GpuPowerBooster

end XNMiner
