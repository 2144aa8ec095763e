import XNMiner.Queue.Store
import XNMiner.Lib.Lts
import Mathlib.Data.List.Perm.Basic
import Mathlib.Data.List.Nodup

/-!
# Invariants of the block store

Two facts hold of every bag the operations can produce:

* `HashInv`: the digests of the rows are pairwise distinct and the index is the set of them
  (rows with an empty digest are outside both);
* `IdInv`: the ids of the rows are pairwise distinct and below the next id.

Each operation is shown to preserve both; an operation that only changes reasons or flags
does so because it leaves the list of `(id, digest)` pairs alone (`SameKeys`).
-/

namespace XNMiner

namespace BlockStore

/-! ## The operations as actions -/

/-- One call of a public operation of the store. -/
inductive Op where
  | enqueue (now : String) (hit : BlockHit) (reason : String)
  | recordRejection (now : String) (hit : BlockHit) (httpStatus : Int) (body source : String)
  | markSubmitted (id : Int)
  | markSubmittedMany (ids : List Int)
  | markPendingReason (id : Int) (reason : String)
  | markForwardedMany (ids : List Int)
  | dropByHash (hashes : List String)
  | flush
  | deferAllToNextStart (minute : Nat)

/-- Run one operation, forgetting its answer. -/
def exec (s : BlockStore) : Op → BlockStore
  | .enqueue now hit reason => (s.enqueue now hit reason).2
  | .recordRejection now hit st body src => (s.recordRejection now hit st body src).2
  | .markSubmitted id => s.markSubmitted id
  | .markSubmittedMany ids => s.markSubmittedMany ids
  | .markPendingReason id reason => s.markPendingReason id reason
  | .markForwardedMany ids => s.markForwardedMany ids
  | .dropByHash hashes => (s.dropByHash hashes).2
  | .flush => s.flush
  | .deferAllToNextStart minute => s.deferAllToNextStart minute

/-! ## Fields an operation leaves alone -/

@[simp] theorem saveDb_pending (s : BlockStore) : s.saveDb.pending = s.pending := rfl
@[simp] theorem saveDb_hashIndex (s : BlockStore) : s.saveDb.hashIndex = s.hashIndex := rfl
@[simp] theorem saveDb_nextId (s : BlockStore) : s.saveDb.nextId = s.nextId := rfl
@[simp] theorem saveDb_dirtyOps (s : BlockStore) : s.saveDb.dirtyOps = 0 := rfl
@[simp] theorem saveDb_db (s : BlockStore) :
    s.saveDb.files.db = some (some (dbJson s.nextId s.pending)) := rfl
@[simp] theorem saveDb_jsonl (s : BlockStore) : s.saveDb.files.jsonl = s.files.jsonl := rfl
@[simp] theorem markDirty_pending (s : BlockStore) : s.markDirty.pending = s.pending := rfl
@[simp] theorem markDirty_hashIndex (s : BlockStore) : s.markDirty.hashIndex = s.hashIndex := rfl
@[simp] theorem markDirty_nextId (s : BlockStore) : s.markDirty.nextId = s.nextId := rfl
@[simp] theorem markDirty_dirtyOps (s : BlockStore) : s.markDirty.dirtyOps = s.dirtyOps + 1 := rfl
@[simp] theorem markDirty_files (s : BlockStore) : s.markDirty.files = s.files := rfl

@[simp] theorem maybeSave_pending (s : BlockStore) : s.maybeSave.pending = s.pending := by
  unfold maybeSave; split <;> rfl
@[simp] theorem maybeSave_hashIndex (s : BlockStore) : s.maybeSave.hashIndex = s.hashIndex := by
  unfold maybeSave; split <;> rfl
@[simp] theorem maybeSave_nextId (s : BlockStore) : s.maybeSave.nextId = s.nextId := by
  unfold maybeSave; split <;> rfl
@[simp] theorem flush_pending (s : BlockStore) : s.flush.pending = s.pending := by
  unfold flush; split <;> rfl
@[simp] theorem flush_hashIndex (s : BlockStore) : s.flush.hashIndex = s.hashIndex := by
  unfold flush; split <;> rfl
@[simp] theorem flush_nextId (s : BlockStore) : s.flush.nextId = s.nextId := by
  unfold flush; split <;> rfl

/-- A snapshot taken if needed never leaves eight dirty operations behind. -/
theorem maybeSave_dirtyOps_lt (s : BlockStore) : s.maybeSave.dirtyOps < kSaveEveryOps := by
  unfold maybeSave
  split
  · simp [kSaveEveryOps]
  · omega

/-! ## The invariants -/

/-- The digests of the rows that have one. -/
def hashesOf (l : List PendingBlock) : List String :=
  (l.map (·.hit.hashStr)).filter fun h ↦ decide (h ≠ "")

theorem mem_hashesOf {l : List PendingBlock} {h : String} :
    h ∈ hashesOf l ↔ h ≠ "" ∧ ∃ pb ∈ l, pb.hit.hashStr = h := by
  simp only [hashesOf, List.mem_filter, List.mem_map, decide_eq_true_eq]
  exact and_comm

theorem hashesOf_append (l₁ l₂ : List PendingBlock) :
    hashesOf (l₁ ++ l₂) = hashesOf l₁ ++ hashesOf l₂ := by
  simp [hashesOf]

theorem hashesOf_singleton (pb : PendingBlock) :
    hashesOf [pb] = if pb.hit.hashStr = "" then [] else [pb.hit.hashStr] := by
  by_cases h : pb.hit.hashStr = "" <;> simp [hashesOf, h]

/-- Digests are distinct, and the index is the set of them. -/
structure HashInv (s : BlockStore) : Prop where
  nodup : (hashesOf s.pending).Nodup
  index : ∀ h, h ∈ s.hashIndex ↔ h ∈ hashesOf s.pending

/-- Ids are distinct and below the next one. -/
structure IdInv (s : BlockStore) : Prop where
  nodup : (s.pending.map (·.id)).Nodup
  lt : ∀ pb ∈ s.pending, pb.id < s.nextId

/-- The two lists have the same ids and digests, in the same order. -/
def SameKeys (l l' : List PendingBlock) : Prop :=
  l.map (fun pb ↦ (pb.id, pb.hit)) = l'.map (fun pb ↦ (pb.id, pb.hit))

theorem SameKeys.refl (l : List PendingBlock) : SameKeys l l := rfl

theorem SameKeys.trans {l l' l'' : List PendingBlock} (h : SameKeys l l') (h' : SameKeys l' l'') :
    SameKeys l l'' := Eq.trans h h'

theorem SameKeys.ids {l l' : List PendingBlock} (h : SameKeys l l') :
    l.map (·.id) = l'.map (·.id) := by
  simpa [List.map_map, Function.comp_def] using congrArg (List.map Prod.fst) h

theorem SameKeys.hits {l l' : List PendingBlock} (h : SameKeys l l') :
    l.map (·.hit) = l'.map (·.hit) := by
  simpa [List.map_map, Function.comp_def] using congrArg (List.map Prod.snd) h

theorem SameKeys.length {l l' : List PendingBlock} (h : SameKeys l l') :
    l.length = l'.length := by
  simpa using congrArg List.length h

theorem hashesOf_eq_of_hits {l l' : List PendingBlock}
    (h : l.map (·.hit) = l'.map (·.hit)) : hashesOf l = hashesOf l' := by
  have : l.map (·.hit.hashStr) = l'.map (·.hit.hashStr) := by
    simpa [List.map_map, Function.comp_def] using congrArg (List.map BlockHit.hashStr) h
  rw [hashesOf, hashesOf, this]

/-- Changing reasons and flags keeps `HashInv`. -/
theorem HashInv.of_sameKeys {s s' : BlockStore} (h : HashInv s)
    (hk : SameKeys s'.pending s.pending) (hi : s'.hashIndex = s.hashIndex) : HashInv s' where
  nodup := by rw [hashesOf_eq_of_hits hk.hits]; exact h.nodup
  index := by rw [hashesOf_eq_of_hits hk.hits, hi]; exact h.index

/-- Changing reasons and flags keeps `IdInv`. -/
theorem IdInv.of_sameKeys {s s' : BlockStore} (h : IdInv s)
    (hk : SameKeys s'.pending s.pending) (hn : s'.nextId = s.nextId) : IdInv s' where
  nodup := by rw [hk.ids]; exact h.nodup
  lt := by
    intro pb hpb
    have hmem : pb.id ∈ s.pending.map (·.id) := hk.ids ▸ List.mem_map_of_mem hpb
    obtain ⟨pb₀, h₀, he⟩ := List.mem_map.mp hmem
    rw [hn, ← he]
    exact h.lt pb₀ h₀

/-- Updating the first row with an id changes no key when the update does not. -/
theorem sameKeys_updateFirst (id : Int) {f : PendingBlock → PendingBlock}
    (hf : ∀ pb, (f pb).id = pb.id ∧ (f pb).hit = pb.hit) (l : List PendingBlock) :
    SameKeys (updateFirst id f l) l := by
  induction l with
  | nil => rfl
  | cons pb rest ih =>
      by_cases h : pb.id = id
      · simp [SameKeys, updateFirst, h, (hf pb).1, (hf pb).2]
      · simpa [SameKeys, updateFirst, h] using ih

/-! ## Removal -/

/-- Splitting the bag by a predicate splits its digests. -/
theorem hashesOf_split (p : PendingBlock → Bool) (l : List PendingBlock) :
    (hashesOf (l.filter p) ++ hashesOf (l.filter fun pb ↦ !p pb)).Perm (hashesOf l) := by
  rw [← hashesOf_append]
  exact ((List.filter_append_perm p l).map _).filter _

/-- Keeping the rows that satisfy `p`, and taking the digests of the others out of the index,
keeps `HashInv`. -/
theorem HashInv.filter {s : BlockStore} (h : HashInv s) (p : PendingBlock → Bool)
    (index : Finset String)
    (hi : ∀ x, x ∈ index ↔ x ∈ s.hashIndex ∧ x ∉ hashesOf (s.pending.filter fun pb ↦ !p pb)) :
    HashInv { s with pending := s.pending.filter p, hashIndex := index } where
  nodup := (((List.filter_sublist).map _).filter _).nodup h.nodup
  index := by
    intro x
    have hperm := hashesOf_split p s.pending
    have hdisj := (List.nodup_append.mp (hperm.nodup_iff.mpr h.nodup)).2.2
    rw [hi x, h.index x, ← hperm.mem_iff, List.mem_append]
    constructor
    · rintro ⟨hx | hx, hno⟩
      · exact hx
      · exact absurd hx hno
    · intro hx
      exact ⟨Or.inl hx, fun hc ↦ hdisj x hx x hc rfl⟩

/-- Keeping only some rows keeps `IdInv`. -/
theorem IdInv.filter {s : BlockStore} (h : IdInv s) (p : PendingBlock → Bool)
    (index : Finset String) :
    IdInv { s with pending := s.pending.filter p, hashIndex := index } where
  nodup := ((List.filter_sublist).map _).nodup h.nodup
  lt := fun pb hpb ↦ h.lt pb (List.mem_of_mem_filter hpb)

theorem removeId_hashInv {s : BlockStore} (h : HashInv s) (id : Int) : HashInv (s.removeId id) := by
  refine h.filter _ _ fun x ↦ ?_
  simp only [unindex, Finset.mem_sdiff, List.mem_toFinset, List.mem_map, List.mem_filter,
    decide_eq_true_eq, mem_hashesOf, Bool.not_eq_true', decide_eq_false_iff_not, not_not]
  constructor
  · rintro ⟨hx, hno⟩
    exact ⟨hx, fun ⟨hne, pb, ⟨hpb, hid⟩, he⟩ ↦ hno ⟨pb, ⟨hpb, hid, he ▸ hne⟩, he⟩⟩
  · rintro ⟨hx, hno⟩
    exact ⟨hx, fun ⟨pb, ⟨hpb, hid, hne⟩, he⟩ ↦ hno ⟨he ▸ hne, pb, ⟨hpb, hid⟩, he⟩⟩

/-- What is left after removing rows by id. -/
theorem foldl_removeId_pending (ids : List Int) (s : BlockStore) :
    (ids.foldl removeId s).pending = s.pending.filter fun pb ↦ decide (pb.id ∉ ids) := by
  induction ids generalizing s with
  | nil => simp
  | cons id ids ih =>
      rw [List.foldl_cons, ih]
      simp only [removeId, List.filter_filter]
      refine List.filter_congr fun pb _ ↦ ?_
      simp [List.mem_cons, not_or, Bool.and_comm]

/-- Removing rows changes neither the next id nor a file. -/
theorem foldl_removeId_frame (ids : List Int) (s : BlockStore) :
    (ids.foldl removeId s).nextId = s.nextId ∧ (ids.foldl removeId s).files = s.files := by
  induction ids generalizing s with
  | nil => exact ⟨rfl, rfl⟩
  | cons id ids ih => exact ih (s.removeId id)

/-- **Spec of `mark_submitted_many`**: exactly the rows with a listed id are gone. -/
theorem markSubmittedMany_pending (s : BlockStore) (ids : List Int) :
    (s.markSubmittedMany ids).pending = s.pending.filter fun pb ↦ decide (pb.id ∉ ids) := by
  unfold markSubmittedMany
  split
  · next h => simp [h]
  · simp [foldl_removeId_pending]

theorem markSubmittedMany_nextId (s : BlockStore) (ids : List Int) :
    (s.markSubmittedMany ids).nextId = s.nextId := by
  unfold markSubmittedMany
  split
  · rfl
  · exact (foldl_removeId_frame ids s).1

/-! ## Each operation keeps the invariants -/

theorem enqueue_hashInv {s : BlockStore} (h : HashInv s) (now : String) (hit : BlockHit)
    (reason : String) : HashInv (s.enqueue now hit reason).2 := by
  unfold enqueue
  split
  · exact h
  · next hnew =>
    have hnot : hit.hashStr ≠ "" → hit.hashStr ∉ hashesOf s.pending := fun hne hmem ↦
      hnew ⟨hne, (h.index _).mpr hmem⟩
    refine ⟨?_, fun x ↦ ?_⟩
    · simp only [appendQueueJsonl, maybeSave_pending, markDirty_pending, hashesOf_append,
        hashesOf_singleton]
      split
      · simpa using h.nodup
      · next he =>
        refine List.nodup_append.mpr ⟨h.nodup, List.nodup_singleton _, fun a ha b hb hab ↦ ?_⟩
        rw [List.mem_singleton] at hb
        exact hnot he (hb ▸ hab ▸ ha)
    · simp only [appendQueueJsonl, maybeSave_pending, maybeSave_hashIndex, markDirty_pending,
        markDirty_hashIndex, hashesOf_append, hashesOf_singleton, indexHash, List.mem_append]
      split
      · simp [h.index x]
      · simp [h.index x, or_comm]

theorem enqueue_idInv {s : BlockStore} (h : IdInv s) (now : String) (hit : BlockHit)
    (reason : String) : IdInv (s.enqueue now hit reason).2 := by
  unfold enqueue
  split
  · exact h
  · refine ⟨?_, fun pb hpb ↦ ?_⟩
    · have hno : s.nextId ∉ s.pending.map (·.id) := fun hmem ↦ by
        obtain ⟨pb, hpb, he⟩ := List.mem_map.mp hmem
        exact absurd (h.lt pb hpb) (by omega)
      simpa [appendQueueJsonl, List.nodup_append, h.nodup] using hno
    · simp only [appendQueueJsonl, maybeSave_pending, markDirty_pending, List.mem_append,
        List.mem_singleton] at hpb
      simp only [appendQueueJsonl, maybeSave_nextId, markDirty_nextId]
      rcases hpb with hpb | rfl
      · exact Int.lt_add_one_of_le (le_of_lt (h.lt pb hpb))
      · simp

/-- The operations that change only reasons and flags. -/
theorem exec_sameKeys (s : BlockStore) :
    (∀ id reason, SameKeys (s.markPendingReason id reason).pending s.pending) ∧
    (∀ ids, SameKeys (s.markForwardedMany ids).pending s.pending) ∧
    (∀ minute, SameKeys (s.deferAllToNextStart minute).pending s.pending) := by
  refine ⟨fun id reason ↦ ?_, fun ids ↦ ?_, fun minute ↦ ?_⟩
  · simpa [markPendingReason] using sameKeys_updateFirst id (by simp) s.pending
  · unfold markForwardedMany
    split
    · exact SameKeys.refl _
    · simp only [saveDb_pending, markDirty_pending]
      have hfold : ∀ (ids : List Int) (l : List PendingBlock), SameKeys (ids.foldl
          (fun l id ↦ updateFirst id (fun pb ↦ { pb with forwarded := true }) l) l) l := by
        intro ids
        induction ids with
        | nil => exact SameKeys.refl
        | cons id ids ih => exact fun l ↦ (ih _).trans (sameKeys_updateFirst id (by simp) l)
      exact hfold ids s.pending
  · simp [deferAllToNextStart, SameKeys, Function.comp_def]

/-- **Every operation keeps the digests distinct and the index right.** -/
theorem exec_hashInv {s : BlockStore} (h : HashInv s) (op : Op) : HashInv (s.exec op) := by
  obtain ⟨hmark, hfwd, hdefer⟩ := exec_sameKeys s
  have hmany : ∀ ids, HashInv (s.markSubmittedMany ids) := by
    intro ids
    have hfold : ∀ (ids : List Int) (s : BlockStore), HashInv s →
        HashInv (ids.foldl removeId s) := by
      intro ids
      induction ids with
      | nil => exact fun _ h ↦ h
      | cons id ids ih => exact fun s h ↦ ih _ (removeId_hashInv h id)
    unfold markSubmittedMany
    split
    · exact h
    · exact (hfold ids s h).of_sameKeys (SameKeys.refl _) rfl
  cases op with
  | enqueue now hit reason => exact enqueue_hashInv h now hit reason
  | recordRejection now hit st body src =>
      have hlog : HashInv (s.logRejection now hit st body src) := h.of_sameKeys (.refl _) rfl
      exact enqueue_hashInv hlog now hit _
  | markSubmitted id => exact hmany [id]
  | markSubmittedMany ids => exact hmany ids
  | markPendingReason id reason =>
      exact h.of_sameKeys (hmark id reason) (by simp [exec, markPendingReason])
  | markForwardedMany ids =>
      exact h.of_sameKeys (hfwd ids) (by simp only [exec, markForwardedMany]; split <;> rfl)
  | dropByHash hashes =>
      simp only [exec, dropByHash]
      split
      · exact h
      · have hf := h.filter
          (fun pb ↦ decide (pb.hit.hashStr ∉ hashes.filter fun h ↦ decide (h ≠ "")))
          (unindex s.hashIndex (s.pending.filter fun pb ↦
            decide (pb.hit.hashStr ∈ hashes.filter fun h ↦ decide (h ≠ ""))))
          (fun x ↦ by
            simp only [unindex, Finset.mem_sdiff, List.mem_toFinset, List.mem_map,
              List.mem_filter, decide_eq_true_eq, mem_hashesOf, Bool.not_eq_true',
              decide_eq_false_iff_not, not_not]
            constructor
            · rintro ⟨hx, hno⟩
              exact ⟨hx, fun ⟨_, pb, hpb, he⟩ ↦ hno ⟨pb, hpb, he⟩⟩
            · rintro ⟨hx, hno⟩
              exact ⟨hx, fun ⟨pb, hpb, he⟩ ↦ hno ⟨he ▸ hpb.2.2, pb, hpb, he⟩⟩)
        split
        · exact hf
        · exact hf.of_sameKeys (SameKeys.refl _) rfl
  | flush => exact h.of_sameKeys (by simp [exec, SameKeys]) (by simp [exec])
  | deferAllToNextStart minute => exact h.of_sameKeys (hdefer minute) rfl

/-- **Every operation keeps the ids distinct and below the next one.** -/
theorem exec_idInv {s : BlockStore} (h : IdInv s) (op : Op) : IdInv (s.exec op) := by
  obtain ⟨hmark, hfwd, hdefer⟩ := exec_sameKeys s
  have hmany : ∀ ids, IdInv (s.markSubmittedMany ids) := by
    intro ids
    have hp := markSubmittedMany_pending s ids
    refine ⟨by rw [hp]; exact ((List.filter_sublist).map _).nodup h.nodup, fun pb hpb ↦ ?_⟩
    rw [hp] at hpb
    rw [markSubmittedMany_nextId]
    exact h.lt pb (List.mem_of_mem_filter hpb)
  cases op with
  | enqueue now hit reason => exact enqueue_idInv h now hit reason
  | recordRejection now hit st body src =>
      have hlog : IdInv (s.logRejection now hit st body src) := h.of_sameKeys (.refl _) rfl
      exact enqueue_idInv hlog now hit _
  | markSubmitted id => exact hmany [id]
  | markSubmittedMany ids => exact hmany ids
  | markPendingReason id reason =>
      exact h.of_sameKeys (hmark id reason) (by simp [exec, markPendingReason])
  | markForwardedMany ids =>
      exact h.of_sameKeys (hfwd ids) (by simp only [exec, markForwardedMany]; split <;> rfl)
  | dropByHash hashes =>
      simp only [exec, dropByHash]
      split
      · exact h
      · split
        · exact h.filter _ _
        · exact (h.filter _ s.hashIndex).of_sameKeys (SameKeys.refl _) rfl
  | flush => exact h.of_sameKeys (by simp [exec, SameKeys]) (by simp [exec])
  | deferAllToNextStart minute => exact h.of_sameKeys (hdefer minute) rfl

end BlockStore

end XNMiner
