import Mathlib.Data.List.MinMax
import Mathlib.Data.List.Sort
import Mathlib.Order.Basic

/-!
# Bounded selection from a list

A consumer that can take at most `cap` entries of a long list often scans it once, keeping
two buffers: the entries it prefers, and the entries to fall back on when those are too few.
`pick` is that scan with its early exits; `pick_eq` says what it computes: the first `cap` of
the preferred entries followed by the others.

`sortOn` orders a selection by a key.  When consumers keep only the front of a sorted selection,
the entry with the greatest key is starved (`not_mem_take_sortOn`), however the selection was
made.
-/

namespace Lib

variable {α : Type*}

/-! ## The scan -/

/-- Append an admissible entry to a buffer that is not full. -/
def takeInto (cap : Nat) (ok : α → Bool) (dest : List α) (x : α) : List α :=
  if cap ≤ dest.length then dest else if ok x then dest ++ [x] else dest

/-- Scan a list into the two buffers, until the first is full. -/
def collect (cap : Nat) (ok below : α → Bool) : List α → List α → List α → List α × List α
  | [], preferred, wrapped => (preferred, wrapped)
  | x :: rest, preferred, wrapped =>
      let preferred' := if below x then preferred else takeInto cap ok preferred x
      let wrapped' := if below x then takeInto cap ok wrapped x else wrapped
      if cap ≤ preferred'.length then (preferred', wrapped')
      else collect cap ok below rest preferred' wrapped'

/-- Append the second buffer to the first until that is full. -/
def topUp (cap : Nat) : List α → List α → List α
  | [], preferred => preferred
  | x :: rest, preferred =>
      if cap ≤ (preferred ++ [x]).length then preferred ++ [x]
      else topUp cap rest (preferred ++ [x])

/-- The selection the two buffers stand for. -/
def finish (cap : Nat) (r : List α × List α) : List α :=
  if r.1.length < cap then topUp cap r.2 r.1 else r.1

/-- Select at most `cap` admissible entries, those not `below` first. -/
def pick (cap : Nat) (ok below : α → Bool) (l : List α) : List α :=
  finish cap (collect cap ok below l [] [])

theorem takeInto_take (cap : Nat) (ok : α → Bool) (l : List α) (x : α) :
    takeInto cap ok (l.take cap) x = (l ++ [x].filter ok).take cap := by
  unfold takeInto
  split
  · next h =>
    rw [List.length_take] at h
    rw [List.take_append_of_le_length (by omega)]
  · next h =>
    rw [List.length_take] at h
    have hl : l.length < cap := by omega
    rw [List.take_of_length_le hl.le]
    split
    · next hok =>
      rw [List.filter_singleton, hok, cond_true, List.take_of_length_le (by simp; omega)]
    · next hok => simp [hok, List.take_of_length_le hl.le]

theorem topUp_eq {cap : Nat} (wrapped : List α) {preferred : List α}
    (h : preferred.length < cap) :
    topUp cap wrapped preferred = (preferred ++ wrapped).take cap := by
  induction wrapped generalizing preferred with
  | nil => simp [topUp, List.take_of_length_le h.le]
  | cons x rest ih =>
      have hsplit : preferred ++ x :: rest = (preferred ++ [x]) ++ rest := by simp
      unfold topUp
      split
      · next hfull =>
        have hlen : (preferred ++ [x]).length = cap := by
          rw [List.length_append, List.length_singleton] at hfull ⊢
          omega
        rw [hsplit, List.take_append_of_le_length hlen.ge, List.take_of_length_le hlen.le]
      · next hroom => rw [ih (by omega), hsplit]

/-- Two buffers cut to `cap` stand for the first `cap` entries of both. -/
theorem finish_take (cap : Nat) (p w : List α) :
    finish cap (p.take cap, w.take cap) = (p ++ w).take cap := by
  unfold finish
  split
  · next h =>
    simp only [List.length_take] at h
    have hp : p.take cap = p := List.take_of_length_le (by omega)
    rw [topUp_eq _ (by simpa using h), hp, List.take_append, List.take_append, List.take_take,
      Nat.min_eq_left (Nat.sub_le _ _)]
  · next h =>
    simp only [List.length_take] at h
    rw [List.take_append_of_le_length (by omega)]

/-- What the scan selects from any point on. -/
theorem finish_collect (cap : Nat) (ok below : α → Bool) (l p w : List α) :
    finish cap (collect cap ok below l (p.take cap) (w.take cap)) =
      ((p ++ l.filter fun x ↦ ok x && !below x) ++
        (w ++ l.filter fun x ↦ ok x && below x)).take cap := by
  induction l generalizing p w with
  | nil => simp [collect, finish_take]
  | cons x rest ih =>
      -- the buffers after this entry, still cut to `cap`
      obtain ⟨p', w', hp, hw, hsplit⟩ : ∃ p' w',
          (if below x then p.take cap else takeInto cap ok (p.take cap) x) = p'.take cap ∧
          (if below x then takeInto cap ok (w.take cap) x else w.take cap) = w'.take cap ∧
          ((p ++ (x :: rest).filter fun x ↦ ok x && !below x) ++
            (w ++ (x :: rest).filter fun x ↦ ok x && below x)) =
          ((p' ++ rest.filter fun x ↦ ok x && !below x) ++
            (w' ++ rest.filter fun x ↦ ok x && below x)) := by
        cases hb : below x with
        | true =>
            refine ⟨p, w ++ [x].filter ok, rfl, takeInto_take cap ok w x, ?_⟩
            cases hok : ok x <;> simp [hb, hok]
        | false =>
            refine ⟨p ++ [x].filter ok, w, takeInto_take cap ok p x, rfl, ?_⟩
            cases hok : ok x <;> simp [hb, hok]
      simp only [collect, hp, hw, hsplit]
      split
      · next hfull =>
        rw [List.length_take] at hfull
        rw [finish_take, List.take_append_of_le_length (by omega), List.append_assoc,
          List.take_append_of_le_length (by omega)]
      · exact ih p' w'

/-- **Spec of `pick`**: the first `cap` of the admissible entries, those not `below` first. -/
theorem pick_eq (cap : Nat) (ok below : α → Bool) (l : List α) :
    pick cap ok below l = ((l.filter fun x ↦ ok x && !below x) ++
      l.filter fun x ↦ ok x && below x).take cap := by
  simpa [pick] using finish_collect cap ok below l [] []

/-- The two halves of a selection are the admissible entries. -/
theorem halves_perm (ok below : α → Bool) (l : List α) :
    ((l.filter fun x ↦ ok x && !below x) ++ l.filter fun x ↦ ok x && below x).Perm
      (l.filter ok) := by
  have h := List.filter_append_perm (fun x ↦ !below x) (l.filter ok)
  simpa [List.filter_filter, Bool.and_comm] using h

/-- A selection has only admissible entries. -/
theorem mem_of_mem_pick {cap : Nat} {ok below : α → Bool} {l : List α} {x : α}
    (h : x ∈ pick cap ok below l) : x ∈ l ∧ ok x = true := by
  rw [pick_eq] at h
  exact List.mem_filter.mp ((halves_perm ok below l).mem_iff.mp (List.mem_of_mem_take h))

/-- A selection with room for all admissible entries has all of them. -/
theorem pick_perm {cap : Nat} (ok below : α → Bool) {l : List α}
    (h : (l.filter ok).length ≤ cap) : (pick cap ok below l).Perm (l.filter ok) := by
  have hp := halves_perm ok below l
  rw [pick_eq, List.take_of_length_le (by rw [hp.length_eq]; exact h)]
  exact hp

/-- The size of a selection. -/
theorem length_pick (cap : Nat) (ok below : α → Bool) (l : List α) :
    (pick cap ok below l).length = min cap (l.filter ok).length := by
  rw [pick_eq, List.length_take, (halves_perm ok below l).length_eq]

/-- A selection repeats nothing that the list does not repeat. -/
theorem pick_subperm (cap : Nat) (ok below : α → Bool) (l : List α) :
    List.Subperm (pick cap ok below l) (l.filter ok) := by
  rw [pick_eq]
  exact (List.take_sublist _ _).subperm.trans (halves_perm ok below l).subperm

/-! ## Sorting a selection -/

variable {κ : Type*} [LinearOrder κ]

/-- Sort by a key. -/
def sortOn (key : α → κ) (l : List α) : List α := l.mergeSort fun a b ↦ decide (key a ≤ key b)

theorem sortOn_perm (key : α → κ) (l : List α) : (sortOn key l).Perm l := List.mergeSort_perm _ _

theorem sortOn_sorted (key : α → κ) (l : List α) :
    (sortOn key l).Pairwise fun a b ↦ key a ≤ key b := by
  have h : (sortOn key l).Pairwise fun a b ↦ decide (key a ≤ key b) = true :=
    List.pairwise_mergeSort
      (fun a b c hab hbc ↦ by simp only [decide_eq_true_eq] at *; exact hab.trans hbc)
      (fun a b ↦ by simpa using le_total (key a) (key b)) l
  simpa using h

/-- Where keys do not repeat, a sort has no freedom: every sorted arrangement is `sortOn`. -/
theorem eq_sortOn {key : α → κ} {l m : List α} (hperm : l.Perm m)
    (hs : l.Pairwise fun a b ↦ key a ≤ key b) (hnd : (m.map key).Nodup) : l = sortOn key m := by
  have hp : l.Perm (sortOn key m) := hperm.trans (sortOn_perm key m).symm
  refine hp.eq_of_pairwise (fun a b ha hb hab hba ↦ ?_) hs (sortOn_sorted key m)
  exact List.inj_on_of_nodup_map hnd (hperm.mem_iff.mp ha) ((sortOn_perm key m).mem_iff.mp hb)
    (le_antisymm hab hba)

/-- What a list keeps of an ordered one when it is cut comes before what it loses. -/
theorem rel_of_mem_take {r : α → α → Prop} {l : List α} (h : l.Pairwise r) {n : Nat} {x y : α}
    (hx : x ∈ l.take n) (hy : y ∈ l) (hout : y ∉ l.take n) : r x y := by
  rw [← List.take_append_drop n l] at h hy
  rcases List.mem_append.mp hy with hin | hrest
  · exact absurd hin hout
  · exact (List.pairwise_append.mp h).2.2 x hx y hrest

/-- A list that is not empty has an entry with the greatest key. -/
theorem exists_max_key (key : α → κ) {l : List α} (h : l ≠ []) :
    ∃ x ∈ l, ∀ y ∈ l, key y ≤ key x := by
  cases hm : l.argmax key with
  | none => exact absurd (List.argmax_eq_none.mp hm) h
  | some x => exact ⟨x, List.argmax_mem hm, fun y hy ↦ List.le_of_mem_argmax hy hm⟩

/-- **Starvation**: when only the front of a sorted list is kept, the entry with the greatest
key is not, as long as keys do not repeat. -/
theorem not_mem_take_sortOn {key : α → κ} {l : List α} {w : Nat} (hl : w < l.length)
    (hnd : (l.map key).Nodup) {x : α} (hmax : ∀ y ∈ l, key y ≤ key x) :
    x ∉ (sortOn key l).take w := by
  intro hx
  have hperm := sortOn_perm key l
  have hlen : w < (sortOn key l).length := hperm.length_eq ▸ hl
  obtain ⟨y, hy⟩ : ∃ y, y ∈ (sortOn key l).drop w :=
    List.exists_mem_of_ne_nil _ (by simpa using hlen)
  have hle : key x ≤ key y := by
    have hs := sortOn_sorted key l
    rw [← List.take_append_drop w (sortOn key l)] at hs
    exact (List.pairwise_append.mp hs).2.2 x hx y hy
  have heq : key x = key y :=
    le_antisymm hle (hmax y (hperm.mem_iff.mp (List.mem_of_mem_drop hy)))
  have hnd' : ((sortOn key l).map key).Nodup := (hperm.map key).nodup_iff.mpr hnd
  rw [← List.take_append_drop w (sortOn key l), List.map_append, List.nodup_append] at hnd'
  exact hnd'.2.2 _ (List.mem_map_of_mem hx) _ (List.mem_map_of_mem hy) heq

end Lib
