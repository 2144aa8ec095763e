import Mathlib.Logic.Function.Basic
import Mathlib.Data.List.Basic

/-!
# Bounded rings

A ring of `n` slots with two counters that never wrap: `produced` counts what was written,
`consumed` what was read, and the `k`-th value lives in slot `k % n`.  One writer and one reader
share it without a lock, because neither touches the counter of the other.

`Ring.unread` is the queue the ring stands for.  As long as the writer keeps to
`Ring.HasRoom`, writing appends to that queue and reading takes its head.
-/

namespace Lib

/-- A ring of `n` slots. -/
structure Ring (α : Type) (n : Nat) where
  slots : Nat → α
  produced : Nat := 0
  consumed : Nat := 0

namespace Ring

variable {α : Type} {n : Nat}

/-- A ring in which nothing was written yet. -/
def empty (x : α) : Ring α n := { slots := fun _ ↦ x }

/-- Write the next slot. -/
def push (r : Ring α n) (x : α) : Ring α n :=
  { r with slots := Function.update r.slots (r.produced % n) x, produced := r.produced + 1 }

/-- The slot that is read next. -/
def oldest (r : Ring α n) : α := r.slots (r.consumed % n)

/-- The reader is done with that slot. -/
def pop (r : Ring α n) : Ring α n := { r with consumed := r.consumed + 1 }

/-- The reader skips what was written. -/
def clear (r : Ring α n) : Ring α n := { r with consumed := r.produced }

/-- No more is unread than there are slots. -/
structure Sound (r : Ring α n) : Prop where
  consumed_le : r.consumed ≤ r.produced
  produced_le : r.produced ≤ r.consumed + n

/-- A slot is free to be written. -/
def HasRoom (r : Ring α n) : Prop := r.produced < r.consumed + n

instance (r : Ring α n) : Decidable r.HasRoom := inferInstanceAs (Decidable (_ < _))

/-- Something was written and not read. -/
def Ready (r : Ring α n) : Prop := r.consumed < r.produced

instance (r : Ring α n) : Decidable r.Ready := inferInstanceAs (Decidable (_ < _))

/-- The queue the ring stands for. -/
def unread (r : Ring α n) : List α :=
  (List.range (r.produced - r.consumed)).map fun k ↦ r.slots ((r.consumed + k) % n)

/-! ## Counters -/

@[simp] theorem produced_push (r : Ring α n) (x : α) : (r.push x).produced = r.produced + 1 := rfl

@[simp] theorem consumed_push (r : Ring α n) (x : α) : (r.push x).consumed = r.consumed := rfl

@[simp] theorem produced_pop (r : Ring α n) : r.pop.produced = r.produced := rfl

@[simp] theorem consumed_pop (r : Ring α n) : r.pop.consumed = r.consumed + 1 := rfl

@[simp] theorem produced_clear (r : Ring α n) : r.clear.produced = r.produced := rfl

@[simp] theorem consumed_clear (r : Ring α n) : r.clear.consumed = r.produced := rfl

theorem sound_empty (x : α) : (empty x : Ring α n).Sound := ⟨Nat.le_refl _, Nat.zero_le _⟩

theorem Sound.push {r : Ring α n} (h : r.Sound) (hroom : r.HasRoom) (x : α) : (r.push x).Sound :=
  ⟨Nat.le_succ_of_le h.consumed_le, hroom⟩

theorem Sound.pop {r : Ring α n} (h : r.Sound) (hready : r.Ready) : r.pop.Sound :=
  ⟨hready, by
    have := h.produced_le
    simp only [produced_pop, consumed_pop]
    omega⟩

theorem Sound.clear (r : Ring α n) : r.clear.Sound := ⟨Nat.le_refl _, Nat.le_add_right _ _⟩

/-! ## The queue -/

/-- Two counters less than `n` apart are in different slots. -/
theorem mod_ne_mod {k m : Nat} (hlt : k < m) (hle : m < k + n) : k % n ≠ m % n := by
  intro hmod
  have hdiv : n ∣ m - k := Nat.dvd_of_mod_eq_zero (Nat.sub_mod_eq_zero_of_mod_eq hmod.symm)
  exact absurd (Nat.le_of_dvd (by omega) hdiv) (by omega)

@[simp] theorem unread_empty (x : α) : (empty x : Ring α n).unread = [] := rfl

@[simp] theorem unread_clear (r : Ring α n) : r.clear.unread = [] := by
  simp [unread]

/-- **Writing appends**, because the slot that is written holds nothing unread. -/
theorem unread_push {r : Ring α n} (h : r.Sound) (hroom : r.HasRoom) (x : α) :
    (r.push x).unread = r.unread ++ [x] := by
  have hle := h.consumed_le
  have hlt : r.produced < r.consumed + n := hroom
  have hlen : r.produced + 1 - r.consumed = (r.produced - r.consumed) + 1 := by omega
  simp only [unread, produced_push, consumed_push, hlen, List.range_succ, List.map_append,
    List.map_singleton]
  congr 1
  · refine List.map_congr_left fun k hk ↦ ?_
    have hk : k < r.produced - r.consumed := List.mem_range.mp hk
    have hne : (r.consumed + k) % n ≠ r.produced % n := mod_ne_mod (by omega) (by omega)
    exact Function.update_of_ne hne x r.slots
  · rw [show r.consumed + (r.produced - r.consumed) = r.produced by omega]
    exact congrArg (fun y ↦ [y]) (Function.update_self ..)

/-- **Reading takes the head.** -/
theorem unread_eq_cons {r : Ring α n} (hready : r.Ready) : r.unread = r.oldest :: r.pop.unread := by
  have hlt : r.consumed < r.produced := hready
  have hlen : r.produced - r.consumed = (r.produced - (r.consumed + 1)) + 1 := by omega
  simp only [unread, produced_pop, consumed_pop, hlen, List.range_succ_eq_map, List.map_cons,
    List.map_map, Nat.add_zero]
  refine congrArg₂ _ rfl (List.map_congr_left fun k _ ↦ ?_)
  simp only [Function.comp_apply, pop, Nat.succ_eq_add_one]
  rw [show r.consumed + (k + 1) = r.consumed + 1 + k by omega]

/-- What is read next was unread. -/
theorem oldest_mem_unread {r : Ring α n} (hready : r.Ready) : r.oldest ∈ r.unread := by
  rw [unread_eq_cons hready]
  exact List.mem_cons_self

/-- Writing does not change what is read next. -/
theorem oldest_push {r : Ring α n} (h : r.Sound) (hroom : r.HasRoom) (hready : r.Ready) (x : α) :
    (r.push x).oldest = r.oldest := by
  have hcons := unread_push h hroom x
  rw [unread_eq_cons hready, unread_eq_cons (r := r.push x) (Nat.lt_succ_of_lt hready),
    List.cons_append] at hcons
  exact (List.cons.inj hcons).1

end Ring

end Lib
