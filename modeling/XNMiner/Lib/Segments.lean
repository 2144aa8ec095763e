import Mathlib.Data.List.Infix

/-!
# Texts that are cut by a separator

What is found in a text that a separator cuts in two, when what is looked for does not contain the
separator: it is found in one of the two parts.
-/

namespace Lib

variable {α : Type} {sep : α} {pat xs ys : List α}

/-- A prefix without the separator ends before it. -/
theorem prefix_append_cons_iff (hsep : sep ∉ pat) : pat <+: xs ++ sep :: ys ↔ pat <+: xs := by
  refine ⟨fun h ↦ ?_, fun h ↦ h.trans (List.prefix_append _ _)⟩
  induction pat generalizing xs with
  | nil => exact List.nil_prefix
  | cons a pat ih =>
      have hrest : sep ∉ pat := fun hin ↦ hsep (List.mem_cons_of_mem a hin)
      cases xs with
      | nil =>
          obtain ⟨rfl, -⟩ := List.cons_prefix_cons.mp h
          exact absurd List.mem_cons_self hsep
      | cons x xs =>
          obtain ⟨rfl, htail⟩ := List.cons_prefix_cons.mp h
          exact List.cons_prefix_cons.mpr ⟨rfl, ih hrest htail⟩

/-- **What does not contain the separator is found on one side of it.** -/
theorem infix_append_cons_iff (hsep : sep ∉ pat) (hne : pat ≠ []) :
    pat <:+: xs ++ sep :: ys ↔ pat <:+: xs ∨ pat <:+: ys := by
  induction xs with
  | nil =>
      rw [List.nil_append, List.infix_cons_iff]
      refine or_congr ⟨fun h ↦ ?_, fun h ↦ ?_⟩ Iff.rfl
      · exact ((@prefix_append_cons_iff _ _ _ [] _ hsep).mp h).isInfix
      · exact absurd (List.infix_nil.mp h) hne
  | cons x xs ih =>
      rw [List.cons_append, List.infix_cons_iff, ih, ← List.cons_append,
        prefix_append_cons_iff hsep, List.infix_cons_iff, or_assoc]

/-- The part behind the last separator. -/
theorem reverse_takeWhile_append_cons [DecidableEq α] (hsep : sep ∉ ys) :
    ((xs ++ sep :: ys).reverse.takeWhile fun c ↦ decide (c ≠ sep)).reverse = ys := by
  have hys : ∀ c ∈ ys.reverse, decide (c ≠ sep) = true := by
    intro c hc
    rw [decide_eq_true_eq]
    rintro rfl
    exact hsep (List.mem_reverse.mp hc)
  rw [List.reverse_append, List.reverse_cons, List.append_assoc,
    List.takeWhile_append_of_pos hys]
  simp

end Lib
