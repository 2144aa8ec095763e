import XNMiner.Queue.Store
import XNMiner.Lib.Select
import Mathlib.Data.Prod.Lex

/-!
# Choosing the rows of a flush wave

`list_flush_batch` scans the bag once, keeps the rows of the wanted cost that are ready, from
`skip_before_id` on, falls back on the rows before it, and sorts what it kept by
`(flush_priority, id)`.  The scan is `pick` and the sort is `sortOn`.
-/

namespace XNMiner

open Lib

namespace BlockStore

/-- The sort key of a wave: kind of block first, then age. -/
def flushKey (pb : PendingBlock) : Nat ×ₗ Int := toLex (flushPriority pb.hit.blockType, pb.id)

/-- A row that may go into a wave: its cost is the wanted one and its kind is ready. -/
def flushable (minute : Nat) (netM defaultM : Int) (pb : PendingBlock) : Bool :=
  decide (rowCost defaultM netM pb = netM) && (readyToFlush minute pb.hit.blockType).1

/-- A row that an earlier wave went past. -/
def belowSkip (skipBeforeId : Int) (pb : PendingBlock) : Bool :=
  decide (0 < skipBeforeId ∧ pb.id < skipBeforeId)

/-- The capacity of a wave: `limit <= 0` is the whole bag. -/
def flushCap (s : BlockStore) (limit : Int) : Nat :=
  if 0 < limit then limit.toNat else s.pending.length

def listFlushBatch (s : BlockStore) (minute : Nat) (netM defaultM limit skipBeforeId : Int) :
    List PendingBlock :=
  sortOn flushKey
    (pick (s.flushCap limit) (flushable minute netM defaultM) (belowSkip skipBeforeId) s.pending)

/-! ## What a wave is meant to be -/

/-- The rows that may go into a wave, in bag order. -/
def eligible (s : BlockStore) (minute : Nat) (netM defaultM : Int) : List PendingBlock :=
  s.pending.filter (flushable minute netM defaultM)

/-- The rows a wave is meant to have, before they are sorted: the eligible rows from the skip
point on, then those before it, as many as the wave has room for. -/
def waveRows (s : BlockStore) (minute : Nat) (netM defaultM limit skipBeforeId : Int) :
    List PendingBlock :=
  let rows := s.eligible minute netM defaultM
  ((rows.filter fun pb ↦ !belowSkip skipBeforeId pb) ++
    rows.filter fun pb ↦ belowSkip skipBeforeId pb).take (s.flushCap limit)

/-- A choice of at most `cap` of some rows, none left out for a younger one. -/
structure Oldest (cap : Nat) (rows wave : List PendingBlock) : Prop where
  size : wave.length = min cap rows.length
  mem : ∀ pb ∈ wave, pb ∈ rows
  older : ∀ pb ∈ wave, ∀ pb' ∈ rows, pb' ∉ wave → pb.id < pb'.id

/-- The scan with its two buffers chooses the rows of the specification. -/
theorem pick_eq_waveRows (s : BlockStore) (minute : Nat) (netM defaultM limit skip : Int) :
    pick (s.flushCap limit) (flushable minute netM defaultM) (belowSkip skip) s.pending =
      s.waveRows minute netM defaultM limit skip := by
  rw [pick_eq]
  simp only [waveRows, eligible, List.filter_filter]
  simp only [Bool.and_comm]

/-- A wave is the rows of the specification, sorted. -/
theorem listFlushBatch_eq (s : BlockStore) (minute : Nat) (netM defaultM limit skip : Int) :
    s.listFlushBatch minute netM defaultM limit skip =
      sortOn flushKey (s.waveRows minute netM defaultM limit skip) := by
  rw [listFlushBatch, pick_eq_waveRows]

/-- Without a skip point nothing is put off to the end of a wave. -/
theorem waveRows_of_skip_nonpos (s : BlockStore) (minute : Nat) (netM defaultM limit : Int)
    {skip : Int} (h : skip ≤ 0) : s.waveRows minute netM defaultM limit skip =
      (s.eligible minute netM defaultM).take (s.flushCap limit) := by
  have hb (pb : PendingBlock) : belowSkip skip pb = false := by simp [belowSkip]; omega
  simp [waveRows, hb]

/-- The front of a bag with ascending ids is its oldest part. -/
theorem oldest_take {rows : List PendingBlock} (h : rows.Pairwise fun a b ↦ a.id < b.id)
    (cap : Nat) : Oldest cap rows (rows.take cap) where
  size := List.length_take
  mem _ hpb := List.mem_of_mem_take hpb
  older _ hpb _ hpb' hout := rel_of_mem_take h hpb hpb' hout

/-- Whether a choice is the oldest does not depend on its order. -/
theorem Oldest.perm {cap : Nat} {rows wave wave' : List PendingBlock}
    (h : Oldest cap rows wave) (hp : wave'.Perm wave) : Oldest cap rows wave' where
  size := hp.length_eq.trans h.size
  mem pb hpb := h.mem pb (hp.mem_iff.mp hpb)
  older pb hpb pb' hpb' hout :=
    h.older pb (hp.mem_iff.mp hpb) pb' hpb' fun hin ↦ hout (hp.mem_iff.mpr hin)

/-- Keys repeat only where ids do. -/
theorem nodup_map_flushKey {l : List PendingBlock} (h : (l.map (·.id)).Nodup) :
    (l.map flushKey).Nodup := by
  refine List.Nodup.of_map (fun k ↦ (ofLex k).2) ?_
  simpa [List.map_map, Function.comp_def, flushKey] using h

/-- A wave has only rows of the bag that may go into it. -/
theorem mem_of_mem_listFlushBatch {s : BlockStore} {minute : Nat} {netM defaultM limit skip : Int}
    {pb : PendingBlock} (h : pb ∈ s.listFlushBatch minute netM defaultM limit skip) :
    pb ∈ s.pending ∧ flushable minute netM defaultM pb = true :=
  mem_of_mem_pick ((sortOn_perm _ _).mem_iff.mp h)

/-- A wave has no row twice. -/
theorem nodup_map_id_listFlushBatch {s : BlockStore} (h : (s.pending.map (·.id)).Nodup)
    (minute : Nat) (netM defaultM limit skip : Int) :
    ((s.listFlushBatch minute netM defaultM limit skip).map (·.id)).Nodup := by
  obtain ⟨l, hperm, hsub⟩ := pick_subperm (s.flushCap limit) (flushable minute netM defaultM)
    (belowSkip skip) s.pending
  have hl : (l.map (·.id)).Nodup := ((hsub.trans List.filter_sublist).map _).nodup h
  exact (((sortOn_perm _ _).trans hperm.symm).map _).nodup_iff.mpr hl

/-- A wave takes a row of the bag at most as often as the bag has it. -/
theorem listFlushBatch_subperm (s : BlockStore) (minute : Nat) (netM defaultM limit skip : Int) :
    List.Subperm (s.listFlushBatch minute netM defaultM limit skip) s.pending :=
  (sortOn_perm _ _).subperm.trans
    ((pick_subperm _ _ _ _).trans List.filter_sublist.subperm)

/-- Without a skip point a wave has the oldest rows of a bag with ascending ids. -/
theorem oldest_listFlushBatch {s : BlockStore} (h : s.pending.Pairwise fun a b ↦ a.id < b.id)
    (minute : Nat) (netM defaultM limit : Int) {skip : Int} (hskip : skip ≤ 0) :
    Oldest (s.flushCap limit) (s.eligible minute netM defaultM)
      (s.listFlushBatch minute netM defaultM limit skip) := by
  have hp := sortOn_perm flushKey (s.waveRows minute netM defaultM limit skip)
  rw [← listFlushBatch_eq, waveRows_of_skip_nonpos s minute netM defaultM limit hskip] at hp
  exact (oldest_take (h.sublist List.filter_sublist) _).perm hp

/-- **`list_flush_batch` is filter, append, take and sort.**  Its answer is the rows of the
specification in the order of `(flush_priority, id)`; where ids are distinct no other
arrangement of them is sorted, so the sort that is used does not matter.  No row is in it more
often than in the bag, and without a skip point the rows are the oldest ones. -/
theorem listFlushBatch_spec (s : BlockStore) (minute : Nat) (netM defaultM limit skip : Int) :
    (s.listFlushBatch minute netM defaultM limit skip =
        sortOn flushKey (s.waveRows minute netM defaultM limit skip)) ∧
      (s.listFlushBatch minute netM defaultM limit skip).Pairwise
        (fun a b ↦ flushKey a ≤ flushKey b) ∧
      ((s.pending.map (·.id)).Nodup → ∀ wave : List PendingBlock,
        wave.Perm (s.waveRows minute netM defaultM limit skip) →
        wave.Pairwise (fun a b ↦ flushKey a ≤ flushKey b) →
        wave = s.listFlushBatch minute netM defaultM limit skip) ∧
      List.Subperm (s.listFlushBatch minute netM defaultM limit skip) s.pending ∧
      (skip ≤ 0 → s.pending.Pairwise (fun a b ↦ a.id < b.id) →
        Oldest (s.flushCap limit) (s.eligible minute netM defaultM)
          (s.listFlushBatch minute netM defaultM limit skip)) := by
  refine ⟨listFlushBatch_eq s minute netM defaultM limit skip, sortOn_sorted _ _, ?_,
    listFlushBatch_subperm s minute netM defaultM limit skip,
    fun hskip hasc ↦ oldest_listFlushBatch hasc minute netM defaultM limit hskip⟩
  intro hnd wave hperm hsorted
  rw [listFlushBatch_eq]
  refine eq_sortOn hperm hsorted ?_
  have hsub : List.Subperm (s.waveRows minute netM defaultM limit skip) s.pending :=
    (sortOn_perm flushKey _).symm.subperm.trans
      (listFlushBatch_eq s minute netM defaultM limit skip ▸
        listFlushBatch_subperm s minute netM defaultM limit skip)
  obtain ⟨l, hl, hsl⟩ := hsub
  exact nodup_map_flushKey ((hl.map _).nodup_iff.mp ((hsl.map _).nodup hnd))

/-- A bag of three kinds of rows with ascending ids. -/
def mixedBag : BlockStore where
  pending := [{ id := 1, hit := { hashStr := "a", blockType := "XUNI" } },
    { id := 4, hit := { hashStr := "b", blockType := "XBLK", memoryCost := some 100 } },
    { id := 6, hit := { hashStr := "c", blockType := "XNM", memoryCost := some 200 } },
    { id := 9, hit := { hashStr := "d", blockType := "XNM" } }]
  hashIndex := {"a", "b", "c", "d"}
  nextId := 10

/-- A wave of two out of a mixed bag: no younger row pushes an older one out. -/
theorem listFlushBatch_spec_mixedBag :
    Oldest 2 (mixedBag.eligible 30 100 0) (mixedBag.listFlushBatch 30 100 0 2 0) :=
  (listFlushBatch_spec mixedBag 30 100 0 2 0).2.2.2.2 (by decide) (by decide)

/-- **An unlimited wave has every row that may go into it.** -/
theorem listFlushBatch_perm (s : BlockStore) (minute : Nat) (netM defaultM skip : Int) :
    (s.listFlushBatch minute netM defaultM 0 skip).Perm
      (s.pending.filter (flushable minute netM defaultM)) := by
  refine (sortOn_perm _ _).trans (pick_perm _ _ ?_)
  simpa [flushCap] using List.length_filter_le _ s.pending

/-- An unlimited wave is empty exactly when no row may go into it. -/
theorem listFlushBatch_eq_nil_iff {s : BlockStore} {minute : Nat} {netM defaultM skip : Int} :
    s.listFlushBatch minute netM defaultM 0 skip = [] ↔
      ∀ pb ∈ s.pending, flushable minute netM defaultM pb = false := by
  have h := s.listFlushBatch_perm minute netM defaultM skip
  constructor
  · intro he pb hpb
    rw [he, List.nil_perm, List.filter_eq_nil_iff] at h
    simpa using h pb hpb
  · intro hall
    have hnil : s.pending.filter (flushable minute netM defaultM) = [] :=
      List.filter_eq_nil_iff.mpr fun pb hpb ↦ by simp [hall pb hpb]
    rw [hnil, List.perm_nil] at h
    exact h

end BlockStore

end XNMiner
