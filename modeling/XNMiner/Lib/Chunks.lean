import Mathlib.Data.List.Range
import Mathlib.Data.List.Flatten
import Mathlib.Data.List.Nodup

/-!
# A range cut into chunks

Work on the numbers below `count` is cut into chunks of one size, at most one for each of `use`
workers; the last may be shorter, and workers for whom nothing is left get none.  Every number is in
one chunk (`flatMap_chunks`), so what the workers do chunk by chunk is what one would do alone.
-/

namespace Lib

/-- The size of a chunk. -/
def chunkSize (count use : Nat) : Nat := (count + use - 1) / use

/-- The chunk from `first` on, of a size. -/
structure Chunk where
  first : Nat
  size : Nat
deriving DecidableEq

namespace Chunk

/-- The numbers of a chunk. -/
def indices (c : Chunk) : List Nat := List.range' c.first c.size

@[simp] theorem mem_indices {c : Chunk} {i : Nat} :
    i ∈ c.indices ↔ c.first ≤ i ∧ i < c.first + c.size := List.mem_range'_1

end Chunk

/-- The chunks of the workers. -/
def chunks (count use : Nat) : List Chunk :=
  (List.range use).filterMap fun t ↦
    let first := t * chunkSize count use
    if count ≤ first then none
    else some ⟨first, min count (first + chunkSize count use) - first⟩

variable {count use : Nat} {c : Chunk}

theorem le_mul_chunkSize (huse : 0 < use) : count ≤ use * chunkSize count use := by
  have hmod := Nat.mod_add_div (count + use - 1) use
  have hlt := Nat.mod_lt (count + use - 1) huse
  rw [chunkSize]
  omega

/-- **The chunks are the range**, in its order. -/
theorem flatMap_chunks (huse : 0 < use) : (chunks count use).flatMap Chunk.indices =
    List.range count := by
  have hfirst (n : Nat) : ((List.range n).filterMap fun t ↦
      if count ≤ t * chunkSize count use then none
      else some (Chunk.mk (t * chunkSize count use)
        (min count (t * chunkSize count use + chunkSize count use) -
          t * chunkSize count use))).flatMap Chunk.indices =
      List.range (min count (n * chunkSize count use)) := by
    induction n with
    | zero => simp
    | succ n ih =>
      rw [List.range_succ, List.filterMap_append, List.flatMap_append, ih, Nat.succ_mul]
      simp only [List.filterMap_cons, List.filterMap_nil]
      generalize n * chunkSize count use = first
      by_cases hend : count ≤ first
      · simp [hend, Nat.min_eq_left (hend.trans (Nat.le_add_right _ _))]
      · have hlt : first < count := Nat.not_le.mp hend
        have hmin : min count (first + chunkSize count use) =
            first + (min count (first + chunkSize count use) - first) := by omega
        simp only [hend, if_false, List.flatMap_cons, List.flatMap_nil, List.append_nil,
          Chunk.indices]
        rw [Nat.min_eq_right hlt.le]
        conv_rhs => rw [hmin, List.range_add, ← List.range'_eq_map_range]
  have hall := hfirst use
  rw [Nat.min_eq_left (le_mul_chunkSize huse)] at hall
  exact hall

/-- No two chunks share a number. -/
theorem pairwise_chunks (huse : 0 < use) :
    (chunks count use).Pairwise fun c d ↦ c.indices.Disjoint d.indices := by
  have hnodup : ((chunks count use).flatMap Chunk.indices).Nodup := by
    rw [flatMap_chunks huse]
    exact List.nodup_range
  exact (List.nodup_flatMap.mp hnodup).2

/-- No chunk is empty. -/
theorem size_pos_of_mem_chunks (h : c ∈ chunks count use) : 0 < c.size := by
  obtain ⟨t, ht, hchunk⟩ := List.mem_filterMap.mp h
  have huse : 0 < use := (Nat.zero_le t).trans_lt (List.mem_range.mp ht)
  dsimp only at hchunk
  split at hchunk
  · cases hchunk
  · next hlt =>
    have hsize : 0 < chunkSize count use := Nat.div_pos (by omega) huse
    cases hchunk
    dsimp only
    omega

end Lib
