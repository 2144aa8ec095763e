import Mathlib.Data.List.Basic

/-!
# Linear scans with a comparison

A scan that keeps the last entry that beats the champion so far.  The comparison need not be
transitive, so the champion can become worse: each entry that beats it may be a little under it.
It does not where what beats a good entry is good too (`good_champion`).
-/

namespace Lib

variable {α : Type*} {beats : α → α → Bool} {good : α → Prop} {c x : α} {xs ys : List α}

/-- The champion of a scan that starts with `c`. -/
def champion (beats : α → α → Bool) (c : α) (xs : List α) : α :=
  xs.foldl (fun c x ↦ if beats x c then x else c) c

@[simp] theorem champion_nil : champion beats c [] = c := rfl

theorem champion_cons : champion beats c (x :: xs) =
    champion beats (if beats x c then x else c) xs := rfl

theorem champion_append : champion beats c (xs ++ ys) =
    champion beats (champion beats c xs) ys := List.foldl_append ..

theorem champion_concat : champion beats c (xs ++ [x]) =
    if beats x (champion beats c xs) then x else champion beats c xs := champion_append

/-- The champion is one of the entries, or the first champion. -/
theorem champion_mem : champion beats c xs = c ∨ champion beats c xs ∈ xs := by
  induction xs generalizing c with
  | nil => exact .inl rfl
  | cons x xs ih =>
      rw [champion_cons]
      split
      · rcases ih (c := x) with h | h
        · exact .inr (by rw [h]; exact List.mem_cons_self)
        · exact .inr (List.mem_cons_of_mem x h)
      · exact ih.imp id (List.mem_cons_of_mem x)

/-- **A good champion stays one** where no entry that is not good beats a good one. -/
theorem good_champion (hc : good c) (h : ∀ x ∈ xs, ∀ d, good d → beats x d = true → good x) :
    good (champion beats c xs) := by
  induction xs generalizing c with
  | nil => exact hc
  | cons x xs ih =>
      have hrest : ∀ y ∈ xs, ∀ d, good d → beats y d = true → good y :=
        fun y hy ↦ h y (List.mem_cons_of_mem x hy)
      rw [champion_cons]
      split
      · next hbeats => exact ih (h x List.mem_cons_self c hc hbeats) hrest
      · exact ih hc hrest

end Lib
