import Mathlib.Data.List.DropRight

/-!
# Trimming

A list without the entries at its two ends that satisfy a predicate.
-/

namespace Lib

variable {α : Type*} {p : α → Bool} {l : List α} {c : α}

/-- Drop what satisfies `p` from both ends. -/
def trim (p : α → Bool) (l : List α) : List α := (l.dropWhile p).rdropWhile p

/-- A trimmed list does not begin with such an entry. -/
theorem head?_trim {a : α} (h : (trim p l).head? = some a) : p a = false := by
  have hprefix : trim p l <+: l.dropWhile p := List.rdropWhile_prefix p _
  obtain ⟨rest, hrest⟩ := hprefix
  have hhead : (l.dropWhile p).head? = some a := by
    rw [← hrest, List.head?_append, h]
    rfl
  have hnot := List.head?_dropWhile_not p l
  rw [hhead] at hnot
  simpa using hnot

/-- Nor does it end with one. -/
theorem getLast?_trim {a : α} (h : (trim p l).getLast? = some a) : p a = false := by
  have hne : (l.dropWhile p).rdropWhile p ≠ [] := by
    intro hnil
    rw [trim, hnil] at h
    cases h
  have hlast := List.rdropWhile_last_not p (l.dropWhile p) hne
  rw [trim, List.getLast?_eq_some_getLast hne] at h
  obtain rfl := Option.some.inj h
  simpa using hlast

theorem length_trim_le : (trim p l).length ≤ l.length :=
  (List.rdropWhile_prefix p _).length_le.trans (List.dropWhile_suffix p).length_le

theorem trim_cons (h : p c = true) (l : List α) : trim p (c :: l) = trim p l := by
  rw [trim, List.dropWhile_cons_of_pos h, trim]

theorem trim_concat (h : p c = true) (l : List α) : trim p (l ++ [c]) = trim p l := by
  unfold trim
  rw [List.dropWhile_append]
  split
  · next hnil =>
    rw [List.isEmpty_iff] at hnil
    rw [hnil, List.dropWhile_cons_of_pos h, List.dropWhile_nil]
  · rw [List.rdropWhile_concat_pos p _ c h]

/-- **Trimming around an entry that stays.** -/
theorem trim_append_cons (h : p c = false) (l l' : List α) :
    trim p (l ++ c :: l') = l.dropWhile p ++ c :: l'.rdropWhile p := by
  have hfront : (l ++ c :: l').dropWhile p = l.dropWhile p ++ c :: l' := by
    rw [List.dropWhile_append]
    split
    · next hnil =>
      rw [List.isEmpty_iff] at hnil
      rw [hnil, List.dropWhile_cons_of_neg (by simp [h]), List.nil_append]
    · rfl
  rw [trim, hfront]
  clear hfront
  generalize l.dropWhile p = m
  induction l' using List.reverseRecOn with
  | nil => rw [List.rdropWhile_concat_neg p m c (by simp [h]), List.rdropWhile_nil]
  | append_singleton l' d ih =>
      rw [← List.cons_append, ← List.append_assoc]
      by_cases hd : p d = true
      · rw [List.rdropWhile_concat_pos p _ d hd, List.rdropWhile_concat_pos p _ d hd, ih]
      · rw [List.rdropWhile_concat_neg p _ d hd, List.rdropWhile_concat_neg p _ d hd]
        simp

theorem trim_dropWhile (l : List α) : trim p (l.dropWhile p) = trim p l := by
  rw [trim, List.dropWhile_idempotent, trim]

theorem trim_rdropWhile (l : List α) : trim p (l.rdropWhile p) = trim p l := by
  induction l using List.reverseRecOn with
  | nil => rfl
  | append_singleton l d ih =>
      by_cases hd : p d = true
      · rw [List.rdropWhile_concat_pos p _ d hd, ih, trim_concat hd]
      · rw [List.rdropWhile_concat_neg p _ d hd]

/-- What is between two entries that stay is left alone. -/
theorem trim_of_ends {d : α} (hc : p c = false) (hd : p d = false) (l : List α) :
    trim p (c :: (l ++ [d])) = c :: (l ++ [d]) := by
  rw [← List.nil_append (c :: _), trim_append_cons hc,
    List.rdropWhile_concat_neg p l d (by simp [hd]), List.dropWhile_nil]

end Lib
