import XNMiner.Lib.Slices

/-!
# Which processors a thread runs on

`init_layout` (`util/cpu_affinity.cpp`, on Linux) shares the physical cores out between five roles.
The threads that host CUDA spin, so they have the last cores for themselves.  The keygen threads
have the first ones; the bag, the flush and the dashboard get cores of their own from what is not
the CUDA host's, by one cursor, as long as there are some, and the keygen cores if they got none.

Whatever the counts are that are asked for, and whatever the loop that shrinks them leaves, no list
but the CUDA host's reaches the last cores (`layout_separates`).  Where the loop has run, every role
gets as many cores as its count says (`ownCpus_counts`).

A core is the list of its logical processors.  Counts are exact integers.
-/

namespace XNMiner

open Lib

inductive Role
  | bag
  | flush
  | dashboard
  | cudaHost
  | keygen
deriving DecidableEq

/-! ## The counts -/

/-- How many cores the bag, the flush and the dashboard ask for. -/
structure CoreCounts where
  bag : Int
  flush : Int
  dash : Int
deriving DecidableEq

/-- A count that is not positive asks for the default. -/
def countOr (count default : Int) : Int := if count ≤ 0 then default else count

/-- The defaults, by the number of cores. -/
def CoreCounts.withDefaults (nphys : Nat) (c : CoreCounts) : CoreCounts :=
  if 8 ≤ nphys then
    { bag := countOr c.bag 0, flush := countOr c.flush 6, dash := countOr c.dash 0 }
  else
    { bag := countOr c.bag (if 6 ≤ nphys then 1 else 0)
      flush := countOr c.flush 1
      dash := countOr c.dash (if 6 ≤ nphys then 1 else 0) }

/-- The loop that takes from the dashboard, then from the bag, then from the flush, until the counts
fit. -/
def CoreCounts.shrink (nonCuda : Int) (c : CoreCounts) : CoreCounts :=
  if nonCuda < c.bag + c.flush + c.dash ∧ 0 < nonCuda then
    if 0 < c.dash then CoreCounts.shrink nonCuda { c with dash := c.dash - 1 }
    else if 0 < c.bag then CoreCounts.shrink nonCuda { c with bag := c.bag - 1 }
    else if 1 < c.flush then CoreCounts.shrink nonCuda { c with flush := c.flush - 1 }
    else c
  else c
termination_by c.bag.toNat + c.flush.toNat + c.dash.toNat
decreasing_by all_goals omega

/-- How many cores host CUDA. -/
def cudaPhys (nphys : Nat) : Nat :=
  let cuda := if 4 ≤ nphys then 2 else 1
  let cuda := if nphys ≤ cuda then nphys - 1 else cuda
  if cuda < 1 then 1 else cuda

/-- How many cores the keygen threads have. -/
def keygenPhys (nphys : Nat) : Nat := min 6 (max 1 (nphys - cudaPhys nphys))

/-! ## The lists -/

def appendCore (dest lps : List Nat) : List Nat := dest ++ lps

/-- `for (int p = first; p < first + count; ++p) append_core(dest, cores[p]);` -/
def appendCores (cores : List (List Nat)) (first count : Nat) : List Nat :=
  (List.range' first count).foldl (fun dest p ↦ appendCore dest (cores.getD p [])) []

/-- The loop of `take_phys`: the list and the cursor after it. -/
def takePhys (cores : List (List Nat)) (limit : Nat) : Nat → List Nat → Nat → List Nat × Nat
  | 0, dest, idx => (dest, idx)
  | count + 1, dest, idx =>
      if idx < limit then takePhys cores limit count (appendCore dest (cores.getD idx [])) (idx + 1)
      else (dest, idx)

/-- What the three calls of `take_phys` give. -/
structure OwnCpus where
  bag : List Nat
  flush : List Nat
  dash : List Nat
deriving DecidableEq

def ownCpus (cores : List (List Nat)) (limit : Nat) (c : CoreCounts) : OwnCpus :=
  let (bag, idx) := takePhys cores limit c.bag.toNat [] 0
  let (flush, idx) := takePhys cores limit c.flush.toNat [] idx
  let (dash, _) := takePhys cores limit c.dash.toNat [] idx
  { bag, flush, dash }

/-- `if (cpus.empty()) cpus = fallback;` -/
def ifEmpty (cpus fallback : List Nat) : List Nat := if cpus = [] then fallback else cpus

/-- What `init_layout` leaves behind. -/
structure CpuLayout where
  physicalCores : Nat
  desktopN : Int
  counts : CoreCounts
  cudaN : Nat
  keygenN : Nat
  /-- What `take_phys` gave, before the fallbacks. -/
  own : OwnCpus
  cpus : Role → List Nat

/-- `init_layout`, for the cores that were detected. -/
def initLayout (cores : List (List Nat)) (desktopCores : Int) (asked : CoreCounts) : CpuLayout :=
  let nphys := max 1 cores.length
  let cuda := cudaPhys nphys
  let keygen := keygenPhys nphys
  let desktop := if desktopCores < 0 then 0 else desktopCores
  let desktop := if (nphys / 2 : Nat) < desktop then ((nphys / 2 : Nat) : Int) else desktop
  let counts := (asked.withDefaults nphys).shrink (nphys - cuda : Nat)
  let cudaCpus := appendCores cores (nphys - cuda) cuda
  let keygenCpus := appendCores cores 0 keygen
  let own := ownCpus cores (nphys - cuda) counts
  let bagCpus := ifEmpty own.bag keygenCpus
  let flushCpus := ifEmpty own.flush keygenCpus
  { physicalCores := nphys
    desktopN := desktop
    counts
    cudaN := cuda
    keygenN := keygen
    own
    cpus := fun
      | .bag => bagCpus
      | .flush => flushCpus
      | .dashboard => ifEmpty own.dash keygenCpus
      | .cudaHost => ifEmpty cudaCpus flushCpus
      | .keygen => ifEmpty keygenCpus bagCpus }

/-- The processors that `pin_this_thread` pins to. -/
def CpuLayout.pinned (l : CpuLayout) : Role → List Nat
  | .bag => ifEmpty (l.cpus .bag) (l.cpus .keygen)
  | .flush => ifEmpty (l.cpus .flush) (l.cpus .keygen)
  | .dashboard => ifEmpty (l.cpus .dashboard) (l.cpus .keygen)
  | .cudaHost => l.cpus .cudaHost
  | .keygen => ifEmpty (l.cpus .keygen) (l.cpus .bag)

/-! ## What the loops do -/

variable {cores : List (List Nat)} {limit : Nat}

theorem appendCores_eq (cores : List (List Nat)) (first count : Nat) :
    appendCores cores first count = slice cores first count := by
  have hfold (dest : List Nat) : (List.range' first count).foldl
      (fun dest p ↦ appendCore dest (cores.getD p [])) dest = dest ++ slice cores first count := by
    induction count generalizing first dest with
    | zero => simp
    | succ count ih =>
        rw [List.range'_succ, List.foldl_cons, ih, slice_succ, appendCore, List.append_assoc]
  exact hfold []

/-- **`take_phys` takes a slice**, as far as there are cores. -/
theorem takePhys_eq (cores : List (List Nat)) {idx : Nat} (h : idx ≤ limit) (count : Nat)
    (dest : List Nat) : takePhys cores limit count dest idx =
      (dest ++ slice cores idx (min count (limit - idx)), idx + min count (limit - idx)) := by
  induction count generalizing dest idx with
  | zero => simp [takePhys]
  | succ count ih =>
      rw [takePhys]
      split
      · next hlt =>
        have hnext : idx + 1 ≤ limit := hlt
        have hmin : min (count + 1) (limit - idx) = min count (limit - (idx + 1)) + 1 := by omega
        rw [ih hnext, hmin, slice_succ, appendCore, List.append_assoc, Nat.add_assoc idx,
          Nat.add_comm 1]
      · next hend =>
        have hmin : min (count + 1) (limit - idx) = 0 := by omega
        rw [hmin, slice_zero, List.append_nil, Nat.add_zero]

/-- **The three calls take slices one after the other.** -/
theorem ownCpus_eq (cores : List (List Nat)) (limit : Nat) (c : CoreCounts) :
    ∃ bag flush dash, bag = min c.bag.toNat limit ∧ flush = min c.flush.toNat (limit - bag) ∧
      dash = min c.dash.toNat (limit - (bag + flush)) ∧
      ownCpus cores limit c =
        { bag := slice cores 0 bag
          flush := slice cores bag flush
          dash := slice cores (bag + flush) dash } := by
  refine ⟨_, _, _, rfl, rfl, rfl, ?_⟩
  unfold ownCpus
  rw [takePhys_eq cores (Nat.zero_le limit)]
  dsimp only
  rw [takePhys_eq cores (by omega)]
  dsimp only
  rw [takePhys_eq cores (by omega)]
  simp

/-- None of them goes past the limit. -/
theorem ownCpus_slices (cores : List (List Nat)) (limit : Nat) (c : CoreCounts) :
    ∃ bag flush dash, bag + flush + dash ≤ limit ∧
      ownCpus cores limit c =
        { bag := slice cores 0 bag
          flush := slice cores bag flush
          dash := slice cores (bag + flush) dash } := by
  obtain ⟨bag, flush, dash, hbag, hflush, hdash, hown⟩ := ownCpus_eq cores limit c
  have hbag : bag ≤ limit := hbag ▸ min_le_right _ _
  have hflush : flush ≤ limit - bag := hflush ▸ min_le_right _ _
  have hdash : dash ≤ limit - (bag + flush) := hdash ▸ min_le_right _ _
  exact ⟨bag, flush, dash, by omega, hown⟩

/-! ## What the counts are -/

namespace CoreCounts

variable {c : CoreCounts} {nonCuda : Int}

/-- Counts the loop can work with: the flush has a core, and the others are no debts. -/
structure Sensible (c : CoreCounts) : Prop where
  bag : 0 ≤ c.bag
  flush : 1 ≤ c.flush
  dash : 0 ≤ c.dash

theorem sensible_withDefaults (nphys : Nat) (c : CoreCounts) : (c.withDefaults nphys).Sensible := by
  unfold withDefaults countOr
  split <;> constructor <;> dsimp only <;> split_ifs <;> omega

/-- **The loop ends with counts that fit**, and the flush keeps a core. -/
theorem Sensible.shrink (h : c.Sensible) (hpos : 0 < nonCuda) :
    (c.shrink nonCuda).Sensible ∧
      (c.shrink nonCuda).bag + (c.shrink nonCuda).flush + (c.shrink nonCuda).dash ≤ nonCuda := by
  obtain ⟨hbag, hflush, hdash⟩ := id h
  induction c using CoreCounts.shrink.induct nonCuda with
  | case1 c hmore hsome ih =>
      rw [CoreCounts.shrink, if_pos hmore, if_pos hsome]
      exact ih ⟨hbag, hflush, by dsimp only; omega⟩ hbag hflush (by dsimp only; omega)
  | case2 c hmore hdash₀ hsome ih =>
      rw [CoreCounts.shrink, if_pos hmore, if_neg hdash₀, if_pos hsome]
      exact ih ⟨by dsimp only; omega, hflush, hdash⟩ (by dsimp only; omega) hflush hdash
  | case3 c hmore hdash₀ hbag₀ hsome ih =>
      rw [CoreCounts.shrink, if_pos hmore, if_neg hdash₀, if_neg hbag₀, if_pos hsome]
      exact ih ⟨hbag, by dsimp only; omega, hdash⟩ hbag (by dsimp only; omega) hdash
  | case4 c hmore hdash₀ hbag₀ hflush₁ =>
      rw [CoreCounts.shrink, if_pos hmore, if_neg hdash₀, if_neg hbag₀, if_neg hflush₁]
      exact ⟨h, by omega⟩
  | case5 c hfits =>
      rw [CoreCounts.shrink, if_neg hfits]
      exact ⟨h, by omega⟩

end CoreCounts

/-- **Counts that fit are what the roles get.** -/
theorem ownCpus_counts {c : CoreCounts} (hc : c.Sensible)
    (hfits : c.bag + c.flush + c.dash ≤ limit) (cores : List (List Nat)) :
    ownCpus cores limit c =
      { bag := slice cores 0 c.bag.toNat
        flush := slice cores c.bag.toNat c.flush.toNat
        dash := slice cores (c.bag.toNat + c.flush.toNat) c.dash.toNat } := by
  obtain ⟨hbag₀, hflush₁, hdash₀⟩ := hc
  have hbagle : c.bag.toNat ≤ limit := by omega
  have hflushle : c.flush.toNat ≤ limit - c.bag.toNat := by omega
  have hdashle : c.dash.toNat ≤ limit - (c.bag.toNat + c.flush.toNat) := by omega
  obtain ⟨bag, flush, dash, hbag, hflush, hdash, hown⟩ := ownCpus_eq cores limit c
  obtain rfl : bag = c.bag.toNat := hbag.trans (min_eq_left hbagle)
  obtain rfl : flush = c.flush.toNat := hflush.trans (min_eq_left hflushle)
  obtain rfl : dash = c.dash.toNat := hdash.trans (min_eq_left hdashle)
  exact hown

/-! ## The layout -/

section Layout

/-- The CUDA host has one core or two, and leaves at least one. -/
theorem cudaPhys_cases {nphys : Nat} (h : 2 ≤ nphys) :
    (cudaPhys nphys = 1 ∨ cudaPhys nphys = 2) ∧ cudaPhys nphys < nphys := by
  unfold cudaPhys
  dsimp only
  split_ifs <;> omega

theorem keygenPhys_bounds {nphys : Nat} (h : 2 ≤ nphys) :
    0 < keygenPhys nphys ∧ keygenPhys nphys ≤ nphys - cudaPhys nphys := by
  have hlt := (cudaPhys_cases h).2
  unfold keygenPhys
  omega

/-- **Every list of a layout is a slice**: the CUDA host's is the last, and the others are not empty
and end before it. -/
structure Separated (cores : List (List Nat)) (cuda : Nat) (l : CpuLayout) : Prop where
  cudaHost : l.cpus .cudaHost = slice cores (cores.length - cuda) cuda
  before : ∀ role ≠ .cudaHost, ∃ start count, l.cpus role = slice cores start count ∧
    l.cpus role ≠ [] ∧ start + count ≤ cores.length - cuda

theorem separated_initLayout (h : Grouped cores) (htwo : 2 ≤ cores.length) (desktopCores : Int)
    (asked : CoreCounts) :
    Separated cores (cudaPhys cores.length) (initLayout cores desktopCores asked) := by
  obtain ⟨hcuda, hlt⟩ := cudaPhys_cases htwo
  obtain ⟨hpos, hkeygen⟩ := keygenPhys_bounds htwo
  have hn : max 1 cores.length = cores.length := by omega
  have hcudane : slice cores (cores.length - cudaPhys cores.length) (cudaPhys cores.length) ≠ [] :=
    h.slice_ne_nil (by omega) (by omega)
  have hkeyne : slice cores 0 (keygenPhys cores.length) ≠ [] :=
    h.slice_ne_nil (by omega) hpos
  obtain ⟨bag, flush, dash, hfits, hown⟩ := ownCpus_slices cores
    (cores.length - cudaPhys cores.length) ((asked.withDefaults cores.length).shrink
      (cores.length - cudaPhys cores.length : Nat))
  -- a slice, or the keygen's
  have hbefore (start count : Nat) (hend : start + count ≤ cores.length - cudaPhys cores.length) :
      ∃ start' count', ifEmpty (slice cores start count) (slice cores 0 (keygenPhys cores.length)) =
          slice cores start' count' ∧
        ifEmpty (slice cores start count) (slice cores 0 (keygenPhys cores.length)) ≠ [] ∧
        start' + count' ≤ cores.length - cudaPhys cores.length := by
    unfold ifEmpty
    split
    · exact ⟨0, _, rfl, hkeyne, by omega⟩
    · next hne => exact ⟨start, count, rfl, hne, hend⟩
  unfold initLayout
  simp only [hn, appendCores_eq, hown]
  refine ⟨if_neg hcudane, fun role hrole ↦ ?_⟩
  cases role with
  | bag => exact hbefore 0 bag (by omega)
  | flush => exact hbefore bag flush (by omega)
  | dashboard => exact hbefore (bag + flush) dash (by omega)
  | cudaHost => exact absurd rfl hrole
  | keygen =>
      dsimp only
      rw [ifEmpty, if_neg hkeyne]
      exact ⟨0, _, rfl, hkeyne, by omega⟩

namespace Separated

variable {cuda : Nat} {l : CpuLayout}

theorem ne_nil (hl : Separated cores cuda l) (h : Grouped cores) (hpos : 0 < cuda)
    (hle : cuda ≤ cores.length) (role : Role) : l.cpus role ≠ [] := by
  by_cases hrole : role = .cudaHost
  · rw [hrole, hl.cudaHost]
    exact h.slice_ne_nil (by omega) hpos
  · obtain ⟨-, -, -, hne, -⟩ := hl.before role hrole
    exact hne

theorem disjoint (hl : Separated cores cuda l) (h : Grouped cores) {role : Role}
    (hrole : role ≠ .cudaHost) : List.Disjoint (l.cpus .cudaHost) (l.cpus role) := by
  obtain ⟨start, count, heq, -, hend⟩ := hl.before role hrole
  rw [hl.cudaHost, heq]
  exact (h.slice_disjoint hend).symm

/-- A core is the CUDA host's as a whole or not at all. -/
theorem core_cases (hl : Separated cores cuda l) (h : Grouped cores) {core : List Nat}
    (hcore : core ∈ cores) : List.Disjoint core (l.cpus .cudaHost) ∨
      core ⊆ l.cpus .cudaHost ∧ ∀ role ≠ .cudaHost, List.Disjoint core (l.cpus role) := by
  obtain ⟨i, hi⟩ := List.mem_iff_getElem?.mp hcore
  have hilt : i < cores.length := (List.getElem?_eq_some_iff.mp hi).1
  rcases lt_or_ge i (cores.length - cuda) with hfirst | hlast
  · rw [hl.cudaHost]
    exact .inl (h.disjoint_slice hi hfirst)
  · have hsub : core ⊆ l.cpus .cudaHost := by
      rw [hl.cudaHost]
      exact group_subset_slice hi hlast (by omega)
    exact .inr ⟨hsub, fun role hrole ↦ List.disjoint_of_subset_left hsub (hl.disjoint h hrole)⟩

end Separated

/-- Where no list is empty, `pin_this_thread` does not take another role's. -/
theorem CpuLayout.pinned_eq {l : CpuLayout} (hne : ∀ role, l.cpus role ≠ []) :
    l.pinned = l.cpus := by
  funext role
  cases role with
  | bag => exact if_neg (hne .bag)
  | flush => exact if_neg (hne .flush)
  | dashboard => exact if_neg (hne .dashboard)
  | cudaHost => rfl
  | keygen => exact if_neg (hne .keygen)

/-- **A thread is pinned to the list of its role.** -/
theorem pinned_initLayout (h : Grouped cores) (htwo : 2 ≤ cores.length) (desktopCores : Int)
    (asked : CoreCounts) :
    (initLayout cores desktopCores asked).pinned = (initLayout cores desktopCores asked).cpus := by
  obtain ⟨hcuda, hlt⟩ := cudaPhys_cases htwo
  have hl := separated_initLayout h htwo desktopCores asked
  exact CpuLayout.pinned_eq (hl.ne_nil h (by omega) hlt.le)

/-- **Who has cores of its own**: the bag and the dashboard where their count is positive, and the
flush always. -/
theorem own_ne_nil_iff (h : Grouped cores) (htwo : 2 ≤ cores.length) (desktopCores : Int)
    (asked : CoreCounts) :
    let l := initLayout cores desktopCores asked
    (l.own.bag ≠ [] ↔ 0 < l.counts.bag) ∧ l.own.flush ≠ [] ∧
      (l.own.dash ≠ [] ↔ 0 < l.counts.dash) := by
  intro l
  obtain ⟨-, hlt⟩ := cudaPhys_cases htwo
  have hn : max 1 cores.length = cores.length := by omega
  have hpos : (0 : Int) < (cores.length - cudaPhys cores.length : Nat) := by omega
  obtain ⟨hsensible, hfits⟩ :=
    (CoreCounts.sensible_withDefaults cores.length asked).shrink hpos
  have hcounts : l.counts = (asked.withDefaults cores.length).shrink
      (cores.length - cudaPhys cores.length : Nat) := by
    change ((asked.withDefaults _).shrink _) = _
    rw [hn]
  have hown : l.own = ownCpus cores (cores.length - cudaPhys cores.length) l.counts := by
    rw [hcounts]
    change ownCpus _ _ _ = _
    rw [hn]
  rw [← hcounts] at hsensible hfits
  rw [hown, ownCpus_counts hsensible hfits]
  obtain ⟨hbag, hflush, hdash⟩ := hsensible
  have hiff {start : Nat} {count : Int} (hstart : start + count.toNat ≤ cores.length) :
      slice cores start count.toNat ≠ [] ↔ 0 < count := by
    constructor
    · intro hne
      by_contra hzero
      have hnone : count.toNat = 0 := by omega
      rw [hnone, slice_zero] at hne
      exact hne rfl
    · intro hpos
      exact h.slice_ne_nil (by omega) (by omega)
  exact ⟨hiff (by omega), (hiff (by omega)).mpr (by omega), hiff (by omega)⟩

/-- The lists of cores of one's own, one after the other. -/
theorem own_slices (cores : List (List Nat)) (desktopCores : Int) (asked : CoreCounts) :
    let l := initLayout cores desktopCores asked
    ∃ bag flush dash, (l.own.bag ≠ [] → l.cpus .bag = slice cores 0 bag) ∧
      (l.own.flush ≠ [] → l.cpus .flush = slice cores bag flush) ∧
      (l.own.dash ≠ [] → l.cpus .dashboard = slice cores (bag + flush) dash) := by
  intro l
  obtain ⟨bag, flush, dash, -, hown⟩ := ownCpus_slices cores
    (max 1 cores.length - cudaPhys (max 1 cores.length)) l.counts
  have hown : l.own = ⟨slice cores 0 bag, slice cores bag flush,
    slice cores (bag + flush) dash⟩ := hown
  refine ⟨bag, flush, dash, fun hne ↦ ?_, fun hne ↦ ?_, fun hne ↦ ?_⟩
  · exact (if_neg hne).trans (congrArg OwnCpus.bag hown)
  · exact (if_neg hne).trans (congrArg OwnCpus.flush hown)
  · exact (if_neg hne).trans (congrArg OwnCpus.dash hown)

/-- **The processors of the CUDA host are its own.**  For every grouping of the processors into at
least two cores, and whatever is asked for: no list is empty; the CUDA host's is the last core or
the last two, and shares neither a processor nor a core with another list; and the bag, the flush
and the dashboard do not share a processor where they got cores of their own. -/
theorem layout_separates (h : Grouped cores) (htwo : 2 ≤ cores.length) (desktopCores : Int)
    (asked : CoreCounts) :
    let l := initLayout cores desktopCores asked
    (∀ role, l.cpus role ≠ []) ∧
    (∃ last, (last = 1 ∨ last = 2) ∧
      l.cpus .cudaHost = (cores.drop (cores.length - last)).flatten) ∧
    (∀ role ≠ .cudaHost, List.Disjoint (l.cpus .cudaHost) (l.cpus role)) ∧
    (∀ core ∈ cores, List.Disjoint core (l.cpus .cudaHost) ∨
      core ⊆ l.cpus .cudaHost ∧ ∀ role ≠ .cudaHost, List.Disjoint core (l.cpus role)) ∧
    (l.own.bag ≠ [] → l.own.flush ≠ [] → List.Disjoint (l.cpus .bag) (l.cpus .flush)) ∧
    (l.own.bag ≠ [] → l.own.dash ≠ [] → List.Disjoint (l.cpus .bag) (l.cpus .dashboard)) ∧
    (l.own.flush ≠ [] → l.own.dash ≠ [] →
      List.Disjoint (l.cpus .flush) (l.cpus .dashboard)) := by
  intro l
  obtain ⟨hcuda, hlt⟩ := cudaPhys_cases htwo
  have hl : Separated cores (cudaPhys cores.length) l :=
    separated_initLayout h htwo desktopCores asked
  obtain ⟨bag, flush, dash, hbag, hflush, hdash⟩ := own_slices cores desktopCores asked
  refine ⟨hl.ne_nil h (by omega) hlt.le, ⟨cudaPhys cores.length, hcuda, ?_⟩,
    fun role hrole ↦ hl.disjoint h hrole, fun core hcore ↦ hl.core_cases h hcore,
    fun hb hf ↦ ?_, fun hb hd ↦ ?_, fun hf hd ↦ ?_⟩
  · rw [hl.cudaHost, slice, List.take_of_length_le]
    rw [List.length_drop]
    omega
  · rw [hbag hb, hflush hf]
    exact h.slice_disjoint (by omega)
  · rw [hbag hb, hdash hd]
    exact h.slice_disjoint (by omega)
  · rw [hflush hf, hdash hd]
    exact h.slice_disjoint le_rfl

/-- Four cores with two threads each, where all that is asked for is a core for the flush: three
lists are keygen's, and the last two cores are free of them. -/
theorem layout_separates_fourCores :
    let cores := [[0, 4], [1, 5], [2, 6], [3, 7]]
    let l := initLayout cores 0 { bag := 0, flush := 1, dash := 0 }
    l.cpus .cudaHost = [2, 6, 3, 7] ∧ ∀ role, l.cpus role ≠ [] := by
  intro cores l
  have hgrouped : Grouped cores := ⟨by decide, by simp [cores]⟩
  exact ⟨by rfl, (layout_separates hgrouped (by decide) 0 _).1⟩

end Layout

end XNMiner
