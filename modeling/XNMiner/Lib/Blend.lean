import Mathlib.Algebra.Order.Round
import Mathlib.Tactic.Ring

/-!
# Ramps and rounded blends

A ramp says how far a number is on the way from one limit to another, as a fraction.  A blend goes
from one integer down to another by a fraction, and rounds to an integer.

Rounding is monotone and leaves integers alone, so a blend keeps what the exact value has: it is
between its two ends, it falls with the fraction, and it rises with its upper end.
-/

namespace Lib

variable {K : Type*} [Field K]

/-! ## Ramps -/

/-- How far `x` is on the way from `lo` to `hi`.  The limits may coincide or cross: then there is no
way in between. -/
def ramp (lo hi x : ℤ) : K :=
  if hi ≤ x then 1 else if lo ≤ x then ((x - lo : ℤ) : K) / (max 1 (hi - lo) : ℤ) else 0

variable {lo hi x y : ℤ}

/-- At the upper limit the way is over. -/
theorem ramp_of_le (h : hi ≤ x) : (ramp lo hi x : K) = 1 := if_pos h

/-- Under both limits it has not begun. -/
theorem ramp_of_lt (hlo : x < lo) (hhi : x < hi) : (ramp lo hi x : K) = 0 := by
  rw [ramp, if_neg hhi.not_ge, if_neg hlo.not_ge]

/-- Between the limits the fraction is that of their distance. -/
theorem ramp_of_mem (hlo : lo ≤ x) (hhi : x < hi) :
    (ramp lo hi x : K) = ((x - lo : ℤ) : K) / ((hi - lo : ℤ) : K) := by
  rw [ramp, if_neg hhi.not_ge, if_pos hlo, max_eq_right (by omega)]

variable [LinearOrder K] [IsStrictOrderedRing K]

theorem ramp_nonneg (lo hi x : ℤ) : (0 : K) ≤ ramp lo hi x := by
  unfold ramp
  split
  · exact zero_le_one
  · split
    · next hlo =>
      have hnum : (0 : K) ≤ (x - lo : ℤ) := by exact_mod_cast sub_nonneg.mpr hlo
      have hden : (0 : K) ≤ (max 1 (hi - lo) : ℤ) := by
        exact_mod_cast zero_le_one.trans (le_max_left 1 (hi - lo))
      exact div_nonneg hnum hden
    · exact le_rfl

/-- Short of the upper limit the fraction is less than one. -/
theorem ramp_lt_one (h : x < hi) : (ramp lo hi x : K) < 1 := by
  rcases lt_or_ge x lo with hlo | hlo
  · rw [ramp_of_lt hlo h]
    exact zero_lt_one
  · rw [ramp_of_mem hlo h]
    have hden : (0 : K) < (hi - lo : ℤ) := by exact_mod_cast sub_pos.mpr (hlo.trans_lt h)
    rw [div_lt_one hden]
    exact_mod_cast sub_lt_sub_right h lo

theorem ramp_le_one (lo hi x : ℤ) : (ramp lo hi x : K) ≤ 1 := by
  rcases lt_or_ge x hi with h | h
  · exact (ramp_lt_one h).le
  · exact (ramp_of_le h).le

/-- **A ramp only rises.** -/
theorem ramp_mono (lo hi : ℤ) (h : x ≤ y) : (ramp lo hi x : K) ≤ ramp lo hi y := by
  rcases lt_or_ge y hi with hy | hy
  · rcases lt_or_ge x lo with hx | hx
    · rw [ramp_of_lt hx (h.trans_lt hy)]
      exact ramp_nonneg lo hi y
    · rw [ramp_of_mem hx (h.trans_lt hy), ramp_of_mem (hx.trans h) hy]
      have hden : (0 : K) ≤ (hi - lo : ℤ) := by
        exact_mod_cast sub_nonneg.mpr (hx.trans (h.trans hy.le))
      have hnum : ((x - lo : ℤ) : K) ≤ (y - lo : ℤ) := by exact_mod_cast sub_le_sub_right h lo
      exact div_le_div_of_nonneg_right hnum hden
  · rw [ramp_of_le hy]
    exact ramp_le_one lo hi x

/-! ## Blends -/

variable [FloorRing K] {s t : K}

theorem round_mono {a b : K} (h : a ≤ b) : round a ≤ round b := by
  rw [round_eq, round_eq]
  exact Int.floor_mono (add_le_add_left h _)

/-- From `hi` down to `lo` by a fraction, rounded. -/
def blend (lo hi : ℤ) (t : K) : ℤ := round ((hi : K) - t * ((hi : K) - lo))

@[simp] theorem blend_zero (lo hi : ℤ) : blend lo hi (0 : K) = hi := by
  rw [blend, zero_mul, sub_zero, round_intCast]

@[simp] theorem blend_one (lo hi : ℤ) : blend lo hi (1 : K) = lo := by
  rw [blend, one_mul, sub_sub_cancel, round_intCast]

/-- **A blend falls with the fraction.** -/
theorem blend_antitone (h : lo ≤ hi) (hst : s ≤ t) : blend lo hi t ≤ blend lo hi s := by
  have hspan : (0 : K) ≤ (hi : K) - lo := sub_nonneg.mpr (by exact_mod_cast h)
  exact round_mono (sub_le_sub_left (mul_le_mul_of_nonneg_right hst hspan) _)

/-- **A blend rises with its upper end.** -/
theorem blend_mono {hi' : ℤ} (ht : t ≤ 1) (h : hi ≤ hi') : blend lo hi t ≤ blend lo hi' t := by
  have hcast : (hi : K) ≤ hi' := by exact_mod_cast h
  have hweight : (1 - t) * (hi : K) ≤ (1 - t) * hi' :=
    mul_le_mul_of_nonneg_left hcast (sub_nonneg.mpr ht)
  refine round_mono ?_
  calc (hi : K) - t * (hi - lo) = (1 - t) * hi + t * lo := by ring
    _ ≤ (1 - t) * hi' + t * lo := add_le_add_left hweight _
    _ = hi' - t * (hi' - lo) := by ring

/-- **A blend is between its ends.** -/
theorem blend_mem (h : lo ≤ hi) (h0 : 0 ≤ t) (h1 : t ≤ 1) :
    lo ≤ blend lo hi t ∧ blend lo hi t ≤ hi := by
  constructor
  · calc lo = blend lo hi (1 : K) := (blend_one lo hi).symm
      _ ≤ blend lo hi t := blend_antitone h h1
  · calc blend lo hi t ≤ blend lo hi (0 : K) := blend_antitone h h0
      _ = hi := blend_zero lo hi

end Lib
