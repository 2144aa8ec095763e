import Mathlib.Data.List.Range
import Mathlib.Data.List.Nodup
import Mathlib.Data.List.Perm.Basic

/-!
# Workers that share a cursor

Workers take the numbers below `size` one by one from a shared cursor, and do for each number what
is due for it.  What can be due is a set of errands: `due e i` says that errand `e` is to be done
for `i`.  A worker that holds a number `owes` errands for it; `past e` lists the numbers for which
the errand was done.

`Accounts` is what holds at every moment of such a run, whatever the workers' schedule: no errand is
done twice for a number, and one that is due and not done is owed by a worker.  At the end, when
nobody owes anything, the errands done are those that were due (`Accounts.perm`).
-/

namespace Lib

variable {W E : Type*}

/-- The books of a team. -/
structure Accounts (size : Nat) (due : E → Nat → Bool) (next : Nat) (owes : W → E → Option Nat)
    (past : E → List Nat) : Prop where
  /-- What is held was taken from the cursor. -/
  below : ∀ w e i, owes w e = some i → i < next ∧ i < size
  /-- A number is held by one worker. -/
  alone : ∀ w w' e e' i, owes w e = some i → owes w' e' = some i → w = w'
  nodup : ∀ e, (past e).Nodup
  /-- Of the numbers taken, those are done that are due and not owed. -/
  mem : ∀ e i, i ∈ past e ↔ (i < next ∧ i < size) ∧ due e i = true ∧ ∀ w, owes w e ≠ some i

namespace Accounts

variable {size next : Nat} {due : E → Nat → Bool} {owes owes' : W → E → Option Nat}
  {past past' : E → List Nat} {w : W} {e : E} {i : Nat}

/-- Before the first number is taken. -/
theorem start (hnone : ∀ w e, owes w e = none) : Accounts size due 0 owes fun _ ↦ [] where
  below := fun w e i h ↦ by simp [hnone w e] at h
  alone := fun w w' e e' i h _ ↦ by simp [hnone w e] at h
  nodup := fun _ ↦ List.nodup_nil
  mem := fun e i ↦ by simp

/-- A cursor at the end may go on. -/
theorem overrun (h : Accounts size due next owes past) (hend : size ≤ next) :
    Accounts size due (next + 1) owes past where
  below := fun w e i ho ↦ ⟨(h.below w e i ho).1.trans (Nat.lt_succ_self _), (h.below w e i ho).2⟩
  alone := h.alone
  nodup := h.nodup
  mem := fun e i ↦ by
    rw [h.mem e i]
    refine and_congr_left fun _ ↦ ?_
    constructor <;> rintro ⟨-, hlt⟩ <;> exact ⟨by omega, hlt⟩

/-- **A worker takes the next number**, and owes every errand for it. -/
theorem take (h : Accounts size due next owes past) (hlt : next < size)
    (hfree : ∀ e, owes w e = none) (hw : ∀ e, owes' w e = some next)
    (hrest : ∀ w', w' ≠ w → ∀ e, owes' w' e = owes w' e) :
    Accounts size due (next + 1) owes' past where
  below := by
    intro w' e i ho
    by_cases heq : w' = w
    · subst heq
      obtain rfl : next = i := Option.some.inj ((hw e).symm.trans ho)
      exact ⟨Nat.lt_succ_self _, hlt⟩
    · rw [hrest w' heq] at ho
      exact ⟨(h.below w' e i ho).1.trans (Nat.lt_succ_self _), (h.below w' e i ho).2⟩
  alone := by
    have hnew : ∀ w' e, w' ≠ w → owes' w' e ≠ some next := by
      intro w' e hne ho
      rw [hrest w' hne] at ho
      exact absurd (h.below w' e next ho).1 (lt_irrefl _)
    intro w₁ w₂ e₁ e₂ i h₁ h₂
    by_cases hw₁ : w₁ = w <;> by_cases hw₂ : w₂ = w
    · rw [hw₁, hw₂]
    · subst hw₁
      obtain rfl : next = i := Option.some.inj ((hw e₁).symm.trans h₁)
      exact absurd h₂ (hnew w₂ e₂ hw₂)
    · subst hw₂
      obtain rfl : next = i := Option.some.inj ((hw e₂).symm.trans h₂)
      exact absurd h₁ (hnew w₁ e₁ hw₁)
    · rw [hrest w₁ hw₁] at h₁
      rw [hrest w₂ hw₂] at h₂
      exact h.alone w₁ w₂ e₁ e₂ i h₁ h₂
  nodup := h.nodup
  mem := by
    intro e i
    rw [h.mem e i]
    constructor
    · rintro ⟨⟨hi, hs⟩, hd, hno⟩
      refine ⟨⟨hi.trans (Nat.lt_succ_self _), hs⟩, hd, fun w' ho ↦ ?_⟩
      by_cases heq : w' = w
      · subst heq
        obtain rfl : next = i := Option.some.inj ((hw e).symm.trans ho)
        exact lt_irrefl _ hi
      · exact hno w' (by rw [← hrest w' heq]; exact ho)
    · rintro ⟨⟨hi, hs⟩, hd, hno⟩
      have hne : i ≠ next := fun heq ↦ hno w (by rw [hw e, heq])
      refine ⟨⟨by omega, hs⟩, hd, fun w' ho ↦ ?_⟩
      by_cases heq : w' = w
      · rw [heq, hfree e] at ho
        cases ho
      · exact hno w' (by rw [hrest w' heq]; exact ho)

/-- What a worker does in one step with the number it holds: an errand stays as it is, or is done
if it is due, and dropped if it is not. -/
def Works (due : E → Nat → Bool) (owes owes' : W → E → Option Nat) (past past' : E → List Nat)
    (w : W) (i : Nat) (e : E) : Prop :=
  (owes' w e = owes w e ∧ past' e = past e) ∨
    (owes w e = some i ∧ owes' w e = none ∧
      past' e = if due e i then past e ++ [i] else past e)

/-- **A worker works on its number.** -/
theorem work (h : Accounts size due next owes past)
    (hrest : ∀ w', w' ≠ w → ∀ e, owes' w' e = owes w' e)
    (hwork : ∀ e, Works due owes owes' past past' w i e) :
    Accounts size due next owes' past' where
  below := by
    intro w' e j ho
    by_cases heq : w' = w
    · subst heq
      rcases hwork e with ⟨hsame, -⟩ | ⟨-, hnone, -⟩
      · exact h.below w' e j (hsame ▸ ho)
      · rw [hnone] at ho
        cases ho
    · exact h.below w' e j (hrest w' heq e ▸ ho)
  alone := by
    have hold : ∀ w' e j, owes' w' e = some j → owes w' e = some j := by
      intro w' e j ho
      by_cases heq : w' = w
      · subst heq
        rcases hwork e with ⟨hsame, -⟩ | ⟨-, hnone, -⟩
        · exact hsame ▸ ho
        · rw [hnone] at ho
          cases ho
      · exact hrest w' heq e ▸ ho
    exact fun w₁ w₂ e₁ e₂ j h₁ h₂ ↦ h.alone w₁ w₂ e₁ e₂ j (hold _ _ _ h₁) (hold _ _ _ h₂)
  nodup := by
    intro e
    rcases hwork e with ⟨-, hpast⟩ | ⟨howes, -, hpast⟩
    · rw [hpast]
      exact h.nodup e
    · rw [hpast]
      split
      · refine List.Nodup.append (h.nodup e) (List.nodup_singleton i) ?_
        rw [List.disjoint_singleton]
        exact fun hmem ↦ ((h.mem e i).mp hmem).2.2 w howes
      · exact h.nodup e
  mem := by
    intro e j
    have hother : ∀ w', w' ≠ w → (owes' w' e ≠ some j ↔ owes w' e ≠ some j) := fun w' hne ↦ by
      rw [hrest w' hne]
    rcases hwork e with ⟨hsame, hpast⟩ | ⟨howes, hnone, hpast⟩
    · rw [hpast, h.mem e j]
      refine and_congr_right fun _ ↦ and_congr_right fun _ ↦ forall_congr' fun w' ↦ ?_
      by_cases heq : w' = w
      · rw [heq, hsame]
      · exact (hother w' heq).symm
    · by_cases hj : j = i
      · subst hj
        have hfree : ∀ w', owes' w' e ≠ some j := by
          intro w' ho
          by_cases heq : w' = w
          · rw [heq, hnone] at ho
            cases ho
          · rw [hrest w' heq] at ho
            exact heq (h.alone w' w e e j ho howes)
        have hmem : j ∈ past' e ↔ due e j = true := by
          rw [hpast]
          split
          · next hd => simp [hd]
          · next hd => exact iff_of_false (fun hm ↦ ((h.mem e j).mp hm).2.2 w howes) hd
        rw [hmem]
        exact ⟨fun hd ↦ ⟨h.below w e j howes, hd, hfree⟩, fun hall ↦ hall.2.1⟩
      · have hmem : j ∈ past' e ↔ j ∈ past e := by
          rw [hpast]
          split <;> simp [hj]
        rw [hmem, h.mem e j]
        refine and_congr_right fun _ ↦ and_congr_right fun _ ↦ forall_congr' fun w' ↦ ?_
        by_cases heq : w' = w
        · subst heq
          rw [howes, hnone]
          exact iff_of_true (fun hs ↦ hj (Option.some.inj hs).symm) nofun
        · exact (hother w' heq).symm

/-- An errand that was done was due for a number below `size`. -/
theorem of_mem (h : Accounts size due next owes past) (hi : i ∈ past e) :
    i < size ∧ due e i = true := ⟨((h.mem e i).mp hi).1.2, ((h.mem e i).mp hi).2.1⟩

/-- **When nobody owes anything**, every errand that was due for a number taken was done once. -/
theorem perm (h : Accounts size due next owes past) (hnone : ∀ w e, owes w e = none) (e : E) :
    (past e).Perm ((List.range (min next size)).filter (due e)) := by
  refine (List.perm_ext_iff_of_nodup (h.nodup e) (List.nodup_range.filter _)).mpr fun i ↦ ?_
  rw [h.mem e i, List.mem_filter, List.mem_range, Nat.lt_min]
  simp [hnone]

end Accounts

end Lib
