import Mathlib.Data.List.Basic

/-!
# Lines

A text as the lines that a terminator ends.  The last line may lack its terminator, and an empty
rest after the last terminator is no line; so reading back lines that were each written with a
terminator gives the lines (`lines_unlines`).
-/

namespace Lib

variable {α : Type*} [DecidableEq α] {sep : α} {l : List α} {ls : List (List α)}

/-- The lines of a text. -/
def lines (sep : α) : List α → List (List α)
  | [] => []
  | c :: cs =>
      if c = sep then [] :: lines sep cs
      else match lines sep cs with
        | [] => [[c]]
        | l :: ls => (c :: l) :: ls

/-- Lines with a terminator each. -/
def unlines (sep : α) (ls : List (List α)) : List α := ls.flatMap (· ++ [sep])

theorem lines_append_sep (h : sep ∉ l) (rest : List α) :
    lines sep (l ++ sep :: rest) = l :: lines sep rest := by
  induction l with
  | nil => exact if_pos rfl
  | cons c l ih =>
      have hc : c ≠ sep := fun heq ↦ h (heq ▸ List.mem_cons_self)
      rw [List.cons_append, lines, if_neg hc, ih fun hin ↦ h (List.mem_cons_of_mem c hin)]

/-- **Reading what was written.** -/
theorem lines_unlines (h : ∀ l ∈ ls, sep ∉ l) : lines sep (unlines sep ls) = ls := by
  induction ls with
  | nil => rfl
  | cons l ls ih =>
      rw [unlines, List.flatMap_cons, List.append_assoc, List.singleton_append,
        lines_append_sep (h l List.mem_cons_self), ← unlines,
        ih fun l' hl' ↦ h l' (List.mem_cons_of_mem l hl')]

/-- No line has a terminator in it. -/
theorem sep_notMem_of_mem_lines {text : List α} (hl : l ∈ lines sep text) : sep ∉ l := by
  induction text generalizing l with
  | nil => simp [lines] at hl
  | cons c cs ih =>
      rw [lines] at hl
      split at hl
      · rcases List.mem_cons.mp hl with rfl | hl
        · simp
        · exact ih hl
      · next hc =>
        split at hl
        · obtain rfl := List.mem_singleton.mp hl
          simpa using Ne.symm hc
        · next first rest heq =>
          rw [heq] at ih
          rcases List.mem_cons.mp hl with rfl | hl
          · have hfirst := ih List.mem_cons_self
            simpa [Ne.symm hc] using hfirst
          · exact ih (List.mem_cons_of_mem _ hl)

end Lib
