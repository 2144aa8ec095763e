import XNMiner.Lib.Champion
import XNMiner.Efficiency.ThermalPolicy
import Mathlib.Data.List.MinMax
import Mathlib.Tactic.Linarith

/-!
# The GPU hardware test

`run_gpu_hardware_test` (`mining/gpu_test.cpp`) tries every lane split in phase A, then smaller
batches on the best split and on a close second one in phase B, and reports the best trial of all.
What a trial measures is up to the card: `run` answers the trials one by one.

`better` compares two trials: by their hash rates, but within three percent by the temperature of
the memory and then by the number of lanes.  That comparison is not transitive.  A scan with it can
drift away from the fastest trial, three percent at a time.

Hash rates are exact rationals.  What a trial only prints is left out.
-/

namespace XNMiner

/-- `TrialSpec`; a batch of `0` is the automatic one. -/
structure TrialSpec where
  lanes : Int := 1
  batchPerLane : Int := 0

/-- `TrialResult`: a trial is only successful with a hash rate. -/
structure TrialResult where
  plannedLanes : Int := 0
  plannedBatch : Int := 0
  wallHs : Rat := 0
  memTemp : Int := 0
  ok : Bool := false
  wallHs_pos : ok = true → 0 < wallHs := by decide

def alignJobs (n : Int) : Int := if n ≤ 0 then 0 else if n < 4 then n else n / 4 * 4

def suggestedMaxLanes (totalVramMib : Int) : Int :=
  if 112 * 1024 ≤ totalVramMib then 32
  else if 56 * 1024 ≤ totalVramMib then 16
  else if 28 * 1024 ≤ totalVramMib then 8
  else if 14 * 1024 ≤ totalVramMib then 4
  else if 7 * 1024 ≤ totalVramMib then 2
  else 1

def better (a b : TrialResult) : Bool :=
  if a.ok ≠ b.ok then a.ok
  else if a.ok = false then false
  else
    let hi := max a.wallHs b.wallHs
    if hi ≤ 0 then false
    else if 3 / 100 < |a.wallHs - b.wallHs| / hi then decide (b.wallHs < a.wallHs)
    else if a.memTemp ≠ b.memTemp ∧ 0 < a.memTemp ∧ 0 < b.memTemp then
      decide (a.memTemp < b.memTemp)
    else if a.plannedLanes ≠ b.plannedLanes then decide (a.plannedLanes < b.plannedLanes)
    else decide (b.wallHs < a.wallHs)

/-- The test of the two scans for the best trial. -/
def replaces (r best : TrialResult) : Bool := !best.ok || better r best

/-- The loop that keeps the best trial. -/
def scanBest (best : TrialResult) (results : List TrialResult) : TrialResult :=
  Lib.champion replaces best results

/-- The loop for the best trial with another lane split. -/
def scanSecond (best : TrialResult) (results : List TrialResult) : TrialResult :=
  results.foldl
    (fun second r ↦
      if r.ok = false ∨ r.plannedLanes = best.plannedLanes then second
      else if second.plannedLanes = best.plannedLanes ∨ better r second then r else second)
    best

/-- What the card answers to a trial, after those before it. -/
abbrev TrialRun := List TrialResult → TrialSpec → TrialResult

/-- Phase A. -/
def phaseA (run : TrialRun) (vramLanes : Int) : List TrialResult :=
  ([1, 2, 4, 8, 16, 32].filter fun lanes ↦ decide (lanes ≤ vramLanes)).foldl
    (fun results lanes ↦ results ++ [run results { lanes }]) []

/-- One scale of a sweep: another trial, unless there is nothing to try or it was made. -/
def sweepScale (run : TrialRun) (lanes autoBatch : Int) (results : List TrialResult)
    (scale : Rat) : List TrialResult :=
  let b := alignJobs (applyBatchScale autoBatch scale)
  let dup := results.any fun prev ↦
    prev.ok && decide (prev.plannedLanes = lanes) && decide (prev.plannedBatch = b)
  if b < 1 then results
  -- made in phase A
  else if b = autoBatch ∧ |scale - 1| < 1 / 1000 then results
  else if dup then results
  else results ++ [run results { lanes, batchPerLane := b }]

/-- The lambda `enqueue_batch_sweep`: the trials it adds to the results. -/
def enqueueBatchSweep (run : TrialRun) (lanes autoBatch : Int) (results : List TrialResult) :
    List TrialResult :=
  if autoBatch ≤ 0 then results
  else [55 / 100, 70 / 100, 85 / 100, 1].foldl (sweepScale run lanes autoBatch) results

/-- Phases B and B2: all results. -/
def phaseB (run : TrialRun) (resultsA : List TrialResult) : List TrialResult :=
  let best := scanBest {} resultsA
  let second := scanSecond best resultsA
  let results := enqueueBatchSweep run best.plannedLanes best.plannedBatch resultsA
  if second.ok = true ∧ second.plannedLanes ≠ best.plannedLanes ∧
      best.wallHs * (92 / 100) ≤ second.wallHs then
    enqueueBatchSweep run second.plannedLanes second.plannedBatch results
  else results

/-- The trial that is reported, by the results of phase A and those of both phases. -/
def reported (resultsA results : List TrialResult) : TrialResult :=
  scanBest (scanBest {} resultsA) results

/-- `run_gpu_hardware_test`: the trial that is reported as the best, if a trial of phase A was
successful. -/
def runGpuHardwareTest (run : TrialRun) (totalMib : Int) : Option TrialResult :=
  let resultsA := phaseA run (suggestedMaxLanes totalMib)
  if (scanBest {} resultsA).ok = false then none
  else some (reported resultsA (phaseB run resultsA))

/-! ## What the phases add -/

theorem prefix_sweepScale (run : TrialRun) (lanes autoBatch : Int) (results : List TrialResult)
    (scale : Rat) : results <+: sweepScale run lanes autoBatch results scale := by
  unfold sweepScale
  dsimp only
  split_ifs
  · exact List.prefix_rfl
  · exact List.prefix_rfl
  · exact List.prefix_rfl
  · exact List.prefix_append _ _

/-- A sweep only adds trials. -/
theorem prefix_enqueueBatchSweep (run : TrialRun) (lanes autoBatch : Int)
    (results : List TrialResult) : results <+: enqueueBatchSweep run lanes autoBatch results := by
  have hscales (scales : List Rat) (results : List TrialResult) :
      results <+: scales.foldl (sweepScale run lanes autoBatch) results := by
    induction scales generalizing results with
    | nil => exact List.prefix_rfl
    | cons scale rest ih => exact (prefix_sweepScale run lanes autoBatch results scale).trans (ih _)
  unfold enqueueBatchSweep
  split
  · exact List.prefix_rfl
  · exact hscales _ _

/-- Phase B keeps the results of phase A. -/
theorem prefix_phaseB (run : TrialRun) (resultsA : List TrialResult) :
    resultsA <+: phaseB run resultsA := by
  unfold phaseB
  dsimp only
  split
  · exact (prefix_enqueueBatchSweep _ _ _ _).trans (prefix_enqueueBatchSweep _ _ _ _)
  · exact prefix_enqueueBatchSweep _ _ _ _

/-! ## Trials within three percent of the fastest -/

/-- A successful trial within three percent of every successful one. -/
def Near (results : List TrialResult) (x : TrialResult) : Prop :=
  x.ok = true ∧ ∀ r ∈ results, r.ok = true → 97 / 100 * r.wallHs ≤ x.wallHs

/-- A champion that a trial does not replace is within three percent of it. -/
theorem wallHs_le_of_not_replaces {r c : TrialResult} (hr : r.ok = true)
    (h : replaces r c = false) : c.ok = true ∧ 97 / 100 * r.wallHs ≤ c.wallHs := by
  have hrpos := r.wallHs_pos hr
  rw [replaces, Bool.or_eq_false_iff, Bool.not_eq_false'] at h
  obtain ⟨hc, hbetter⟩ := h
  have hcpos := c.wallHs_pos hc
  refine ⟨hc, ?_⟩
  by_contra hlow
  rw [not_le] at hlow
  have hmax : max r.wallHs c.wallHs = r.wallHs := max_eq_left (by linarith)
  have habs : |r.wallHs - c.wallHs| = r.wallHs - c.wallHs := abs_of_pos (by linarith)
  unfold better at hbetter
  dsimp only at hbetter
  rw [hmax, habs, if_neg (by simp [hr, hc]), if_neg (by simp [hr]), if_neg (not_le.mpr hrpos),
    if_pos ((lt_div_iff₀ hrpos).mpr (by linarith)), decide_eq_false_iff_not] at hbetter
  linarith

/-- A list with a successful trial has a fastest one. -/
theorem exists_fastest {results : List TrialResult} (h : ∃ r ∈ results, r.ok = true) :
    ∃ before top after, results = before ++ top :: after ∧ top.ok = true ∧
      ∀ r ∈ results, r.ok = true → r.wallHs ≤ top.wallHs := by
  have hmax : ∃ top ∈ results, top.ok = true ∧
      ∀ r ∈ results, r.ok = true → r.wallHs ≤ top.wallHs := by
    obtain ⟨r, hr, hok⟩ := h
    have hmem : r ∈ results.filter (·.ok) := List.mem_filter.mpr ⟨hr, hok⟩
    obtain ⟨top, htop⟩ := Option.ne_none_iff_exists'.mp fun hnone ↦
      List.ne_nil_of_mem hmem (List.argmax_eq_none (f := TrialResult.wallHs) |>.mp hnone)
    obtain ⟨htopmem, htopok⟩ := List.mem_filter.mp (List.argmax_mem htop)
    exact ⟨top, htopmem, htopok, fun r hr hok ↦
      List.le_of_mem_argmax (List.mem_filter.mpr ⟨hr, hok⟩) htop⟩
  obtain ⟨top, htop, hok, hle⟩ := hmax
  obtain ⟨before, after, rfl⟩ := List.append_of_mem htop
  exact ⟨before, top, after, rfl, hok, hle⟩

/-- Whatever the scan has kept, after the fastest trial it keeps one that is near. -/
theorem near_after_fastest {results before : List TrialResult} {top c : TrialResult}
    (hok : top.ok = true) (htop : ∀ r ∈ results, r.ok = true → r.wallHs ≤ top.wallHs) :
    Near results (scanBest c (before ++ [top])) := by
  have hnear {x : TrialResult} (hx : x.ok = true) (hwall : 97 / 100 * top.wallHs ≤ x.wallHs) :
      Near results x := by
    refine ⟨hx, fun r hr hrok ↦ ?_⟩
    have hle := htop r hr hrok
    linarith
  rw [scanBest, Lib.champion_concat]
  cases hreplaces : replaces top (Lib.champion replaces c before) with
  | true =>
      rw [if_pos rfl]
      have hpos := top.wallHs_pos hok
      exact hnear hok (by linarith)
  | false =>
      rw [if_neg Bool.false_ne_true]
      obtain ⟨hc, hwall⟩ := wallHs_le_of_not_replaces hok hreplaces
      exact hnear hc hwall

/-- Both scans, one after the other. -/
theorem reported_eq (resultsA results : List TrialResult) :
    reported resultsA results = Lib.champion replaces {} (resultsA ++ results) :=
  Lib.champion_append.symm

/-- The scans meet no trial but those of the two phases. -/
theorem mem_of_scanned {resultsA resultsB : List TrialResult} {r : TrialResult}
    (h : r ∈ resultsA ++ (resultsA ++ resultsB)) : r ∈ resultsA ++ resultsB := by
  rcases List.mem_append.mp h with hA | hall
  · exact List.mem_append_left _ hA
  · exact hall

/-- After the fastest trial the scans hold one that is near, and go on from it. -/
theorem exists_near_scanned {resultsA resultsB : List TrialResult}
    (hok : ∃ r ∈ resultsA ++ resultsB, r.ok = true) :
    ∃ c ∈ resultsA ++ resultsB, Near (resultsA ++ resultsB) c ∧
      ∃ after ⊆ resultsA ++ resultsB,
        reported resultsA (resultsA ++ resultsB) = Lib.champion replaces c after := by
  obtain ⟨before, top, after, hsplit, htopok, htop⟩ := exists_fastest hok
  have horder : resultsA ++ (resultsA ++ resultsB) = resultsA ++ (before ++ [top]) ++ after := by
    rw [hsplit]
    simp
  have hnear : Near (resultsA ++ resultsB)
      (Lib.champion replaces {} (resultsA ++ (before ++ [top]))) := by
    rw [← List.append_assoc]
    exact near_after_fastest htopok htop
  refine ⟨_, mem_of_scanned ?_, hnear, after, fun x hx ↦ ?_, ?_⟩
  · rw [horder]
    rcases @Lib.champion_mem TrialResult replaces {} (resultsA ++ (before ++ [top])) with
      hempty | hin
    · have hfalse := hnear.1
      rw [hempty] at hfalse
      cases hfalse
    · exact List.mem_append_left _ hin
  · rw [hsplit]
    exact List.mem_append_right _ (List.mem_cons_of_mem _ hx)
  · rw [reported_eq, horder, Lib.champion_append]

/-- **The reported trial is within three percent of the fastest where the trials do not drift**: a
trial that `better` prefers to one near the fastest is near it too. -/
theorem reported_near_of_no_drift {resultsA resultsB : List TrialResult}
    (hok : ∃ r ∈ resultsA ++ resultsB, r.ok = true)
    (hdrift : ∀ c ∈ resultsA ++ resultsB, ∀ x ∈ resultsA ++ resultsB,
      Near (resultsA ++ resultsB) c → better x c = true → Near (resultsA ++ resultsB) x) :
    let results := resultsA ++ resultsB
    let best := reported resultsA results
    best ∈ results ∧ best.ok = true ∧
      ∀ r ∈ results, r.ok = true → 97 / 100 * r.wallHs ≤ best.wallHs := by
  intro results best
  obtain ⟨c, hc, hnear, after, hafter, hbest⟩ := exists_near_scanned hok
  have hstart : c ∈ results ∧ Near results c := ⟨hc, hnear⟩
  have hstep : ∀ x ∈ after, ∀ d, d ∈ results ∧ Near results d → replaces x d = true →
      x ∈ results ∧ Near results x := by
    rintro x hx d ⟨hd, hnear⟩ hbeats
    have hbetter : better x d = true := by
      rw [replaces, hnear.1] at hbeats
      simpa using hbeats
    exact ⟨hafter hx, hdrift d hd x (hafter hx) hnear hbetter⟩
  have hkept := @Lib.good_champion _ _ (fun d ↦ d ∈ results ∧ Near results d) _ _ hstart hstep
  rwa [← hbest] at hkept

/-- What the hardware test reports is the end of that scan. -/
theorem runGpuHardwareTest_eq {run : TrialRun} {totalMib : Int} {best : TrialResult}
    (h : runGpuHardwareTest run totalMib = some best) :
    ∃ resultsB, let resultsA := phaseA run (suggestedMaxLanes totalMib)
      (∃ r ∈ resultsA ++ resultsB, r.ok = true) ∧
        best = reported resultsA (resultsA ++ resultsB) := by
  unfold runGpuHardwareTest at h
  dsimp only at h
  split at h
  · cases h
  · next hfirst =>
    obtain ⟨resultsB, hB⟩ := prefix_phaseB run (phaseA run (suggestedMaxLanes totalMib))
    refine ⟨resultsB, ?_, by rw [hB]; exact (Option.some.inj h).symm⟩
    rw [Bool.not_eq_false] at hfirst
    rcases @Lib.champion_mem TrialResult replaces {} (phaseA run (suggestedMaxLanes totalMib)) with
      hempty | hin
    · rw [scanBest, hempty] at hfirst
      cases hfirst
    · exact ⟨_, List.mem_append_left _ hin, hfirst⟩

/-! ## A drift -/

/-- A trial by its lanes, its rate and the temperature of its memory. -/
def trialOf (lanes : Int) (wallHs : Rat) (memTemp : Int) (h : 0 < wallHs := by decide) :
    TrialResult :=
  { plannedLanes := lanes, plannedBatch := 1000, wallHs, memTemp, ok := true,
    wallHs_pos := fun _ ↦ h }

/-- Two lane splits that are two percent apart. -/
def closeTrials : List TrialResult := [trialOf 1 1000 80, trialOf 2 980 79]

/-- Either of them is near, so they do not drift. -/
theorem reported_near_of_no_drift_close :
    reported closeTrials (closeTrials ++ []) ∈ closeTrials ++ [] ∧
      (reported closeTrials (closeTrials ++ [])).ok = true ∧
      ∀ r ∈ closeTrials ++ [], r.ok = true →
        97 / 100 * r.wallHs ≤ (reported closeTrials (closeTrials ++ [])).wallHs := by
  have hall : ∀ x ∈ closeTrials ++ [], Near (closeTrials ++ []) x := by
    have hwall : ∀ x ∈ closeTrials ++ [], ∀ r ∈ closeTrials ++ [],
        97 / 100 * r.wallHs ≤ x.wallHs := by
      decide +kernel
    have hok : ∀ x ∈ closeTrials ++ [], x.ok = true := by decide +kernel
    exact fun x hx ↦ ⟨hok x hx, fun r hr _ ↦ hwall x hx r hr⟩
  exact reported_near_of_no_drift ⟨trialOf 1 1000 80, List.mem_cons_self, rfl⟩
    fun _ _ x hx _ _ ↦ hall x hx

/-- Three lane splits: the second is preferred to the first, though it is four percent under the
third. -/
def returningTrials : List TrialResult :=
  [trialOf 2 980 85, trialOf 4 960 70, trialOf 1 1000 80]

-- a drift that the last trial ends, so the condition is not necessary
example : better (trialOf 4 960 70) (trialOf 2 980 85) = true ∧
    (reported returningTrials (returningTrials ++ [])).wallHs = 1000 := by decide +kernel

/-- Three lane splits, each a little slower and a little cooler than the one before. -/
def driftingTrials : List TrialResult :=
  [trialOf 1 1000 80, trialOf 2 975 79, trialOf 4 951 78]

/-- The slowest of them is reported, almost five percent under the fastest. -/
theorem reported_not_near :
    ¬∀ resultsA resultsB : List TrialResult, (∃ r ∈ resultsA ++ resultsB, r.ok = true) →
      let results := resultsA ++ resultsB
      let best := reported resultsA results
      best ∈ results ∧ best.ok = true ∧
        ∀ r ∈ results, r.ok = true → 97 / 100 * r.wallHs ≤ best.wallHs := by
  intro hall
  obtain ⟨-, -, hnear⟩ := hall driftingTrials []
    ⟨trialOf 1 1000 80, List.mem_cons_self, rfl⟩
  exact absurd (hnear (trialOf 1 1000 80) List.mem_cons_self rfl) (by decide +kernel)

end XNMiner
