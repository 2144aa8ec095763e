import Mathlib.Algebra.Order.Ring.Nat
import Mathlib.Data.List.Flatten
import Mathlib.Data.List.GetD
import Mathlib.Data.List.Lattice

/-!
# Slices of a list of groups

Entries that come in groups, such as the processors of a core, are handed out by whole groups: a
slice is the entries of some groups that follow each other.  Where the groups are disjoint, so are
slices that begin where others have ended.
-/

namespace Lib

variable {α : Type*} {groups : List (List α)} {group : List α} {start start' count count' : Nat}
  {x : α}

/-- No group is empty, and no entry is in two of them. -/
structure Grouped (groups : List (List α)) : Prop where
  ne_nil : ∀ group ∈ groups, group ≠ []
  disjoint : groups.Pairwise List.Disjoint

/-- The entries of `count` groups from `start` on. -/
def slice (groups : List (List α)) (start count : Nat) : List α :=
  ((groups.drop start).take count).flatten

@[simp] theorem slice_zero (groups : List (List α)) (start : Nat) : slice groups start 0 = [] := by
  simp [slice]

/-- The first group of a slice. -/
theorem slice_succ (groups : List (List α)) (start count : Nat) :
    slice groups start (count + 1) = groups.getD start [] ++ slice groups (start + 1) count := by
  unfold slice
  rcases lt_or_ge start groups.length with hlt | hge
  · rw [List.drop_eq_getElem_cons hlt, List.take_succ_cons, List.flatten_cons,
      List.getD_eq_getElem _ _ hlt]
  · rw [List.drop_eq_nil_of_le hge, List.drop_eq_nil_of_le (hge.trans (Nat.le_succ start)),
      List.getD_eq_default _ _ hge]
    simp

theorem mem_slice : x ∈ slice groups start count ↔
    ∃ i group, start ≤ i ∧ i < start + count ∧ groups[i]? = some group ∧ x ∈ group := by
  rw [slice, List.mem_flatten]
  constructor
  · rintro ⟨group, hgroup, hx⟩
    obtain ⟨i, hi⟩ := List.mem_iff_getElem?.mp hgroup
    rw [List.getElem?_take, List.getElem?_drop] at hi
    split at hi
    · exact ⟨start + i, group, by omega, by omega, hi, hx⟩
    · cases hi
  · rintro ⟨i, group, hstart, hcount, hi, hx⟩
    refine ⟨group, List.mem_iff_getElem?.mpr ⟨i - start, ?_⟩, hx⟩
    rw [List.getElem?_take_of_lt (by omega), List.getElem?_drop, Nat.add_sub_cancel' hstart]
    exact hi

/-- A group whose place is in the slice is in it as a whole. -/
theorem group_subset_slice {i : Nat} (hi : groups[i]? = some group) (hstart : start ≤ i)
    (hcount : i < start + count) : group ⊆ slice groups start count :=
  fun _ hx ↦ mem_slice.mpr ⟨i, group, hstart, hcount, hi, hx⟩

namespace Grouped

theorem slice_ne_nil (h : Grouped groups) (hstart : start < groups.length) (hcount : 0 < count) :
    slice groups start count ≠ [] := by
  have hgroup : groups[start]? = some groups[start] := List.getElem?_eq_getElem hstart
  obtain ⟨x, hx⟩ := List.exists_mem_of_ne_nil _ (h.ne_nil _ (List.getElem_mem hstart))
  exact List.ne_nil_of_mem (group_subset_slice hgroup le_rfl (by omega) hx)

/-- An entry has one group. -/
theorem eq_of_mem (h : Grouped groups) {i j : Nat} {group group' : List α}
    (hi : groups[i]? = some group) (hj : groups[j]? = some group') (hx : x ∈ group)
    (hx' : x ∈ group') : i = j := by
  obtain ⟨hilt, rfl⟩ := List.getElem?_eq_some_iff.mp hi
  obtain ⟨hjlt, rfl⟩ := List.getElem?_eq_some_iff.mp hj
  have hpairs := List.pairwise_iff_getElem.mp h.disjoint
  rcases lt_trichotomy i j with hlt | heq | hgt
  · exact absurd hx' (hpairs i j hilt hjlt hlt hx)
  · exact heq
  · exact absurd hx (hpairs j i hjlt hilt hgt hx')

/-- **Slices that begin where others have ended are disjoint.** -/
theorem slice_disjoint (h : Grouped groups) (hle : start + count ≤ start') :
    List.Disjoint (slice groups start count) (slice groups start' count') := by
  intro x hx hx'
  obtain ⟨i, group, hstart, hcount, hi, hmem⟩ := mem_slice.mp hx
  obtain ⟨j, group', hstart', hcount', hj, hmem'⟩ := mem_slice.mp hx'
  have heq := h.eq_of_mem hi hj hmem hmem'
  omega

/-- A group whose place is before the slice has nothing in it. -/
theorem disjoint_slice (h : Grouped groups) {i : Nat} (hi : groups[i]? = some group)
    (hlt : i < start) : List.Disjoint group (slice groups start count) := by
  intro x hx hx'
  obtain ⟨j, group', hstart, -, hj, hmem⟩ := mem_slice.mp hx'
  have heq := h.eq_of_mem hi hj hx hmem
  omega

end Grouped

end Lib
