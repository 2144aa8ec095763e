import XNMiner.Queue.StoreInv

/-!
# What operations do to rows

A caller that has read a row, and comes back to it later by its id, relies on the row being the
same if it is still there.  `Grows` says so: ids are never given twice.  `Kept` adds that no row
has gone; it holds of every operation but the ones that remove rows.
-/

namespace XNMiner

namespace BlockStore

/-- Two stores with the same rows, up to reasons and flags. -/
structure SameRows (s s' : BlockStore) : Prop where
  keys : SameKeys s'.pending s.pending
  hashIndex : s'.hashIndex = s.hashIndex
  nextId : s'.nextId = s.nextId

theorem SameRows.refl (s : BlockStore) : SameRows s s := ⟨.refl _, rfl, rfl⟩

theorem sameRows_flush (s : BlockStore) : SameRows s s.flush :=
  ⟨by rw [flush_pending]; exact .refl _, flush_hashIndex s, flush_nextId s⟩

theorem sameRows_markPendingReason (s : BlockStore) (id : Int) (reason : String) :
    SameRows s (s.markPendingReason id reason) :=
  ⟨(exec_sameKeys s).1 id reason, by simp [markPendingReason], by simp [markPendingReason]⟩

theorem sameRows_deferAllToNextStart (s : BlockStore) (minute : Nat) :
    SameRows s (s.deferAllToNextStart minute) :=
  ⟨(exec_sameKeys s).2.2 minute, rfl, rfl⟩

theorem sameRows_logRejection (s : BlockStore) (now : String) (hit : BlockHit) (status : Int)
    (body source : String) : SameRows s (s.logRejection now hit status body source) :=
  ⟨.refl _, rfl, rfl⟩

/-! ## Growth -/

/-- The bag has a row with this digest. -/
def Holds (s : BlockStore) (h : String) : Prop := ∃ pb ∈ s.pending, pb.hit.hashStr = h

/-- Ids are never given twice: a row with an old id is an old row. -/
structure Grows (s s' : BlockStore) : Prop where
  nextId : s.nextId ≤ s'.nextId
  old : ∀ pb' ∈ s'.pending, pb'.id < s.nextId → ∃ pb ∈ s.pending, pb.id = pb'.id ∧ pb.hit = pb'.hit

/-- Ids are never given twice, and no digest leaves the bag. -/
structure Kept (s s' : BlockStore) : Prop extends Grows s s' where
  hashInv : HashInv s → HashInv s'
  idInv : IdInv s → IdInv s'
  holds : ∀ h, s.Holds h → s'.Holds h

theorem Grows.refl (s : BlockStore) : Grows s s := ⟨le_refl _, fun pb hpb _ ↦ ⟨pb, hpb, rfl, rfl⟩⟩

theorem Grows.trans {s s' s'' : BlockStore} (h : Grows s s') (h' : Grows s' s'') : Grows s s'' where
  nextId := h.nextId.trans h'.nextId
  old := by
    intro pb hpb hlt
    obtain ⟨pb', hpb', hid', hhit'⟩ := h'.old pb hpb (hlt.trans_le h.nextId)
    obtain ⟨pb'', hpb'', hid'', hhit''⟩ := h.old pb' hpb' (hid' ▸ hlt)
    exact ⟨pb'', hpb'', hid''.trans hid', hhit''.trans hhit'⟩

/-- A row has a counterpart in a list with the same keys. -/
theorem SameKeys.exists_mem {l l' : List PendingBlock} (h : SameKeys l l') {pb : PendingBlock}
    (hpb : pb ∈ l) : ∃ pb' ∈ l', pb'.id = pb.id ∧ pb'.hit = pb.hit := by
  have hmem : (pb.id, pb.hit) ∈ l'.map (fun pb ↦ (pb.id, pb.hit)) :=
    h ▸ List.mem_map_of_mem (f := fun pb ↦ (pb.id, pb.hit)) hpb
  obtain ⟨pb', hpb', heq⟩ := List.mem_map.mp hmem
  exact ⟨pb', hpb', congrArg Prod.fst heq, congrArg Prod.snd heq⟩

theorem SameRows.kept {s s' : BlockStore} (h : SameRows s s') : Kept s s' where
  nextId := h.nextId.ge
  old := fun _ hpb _ ↦ h.keys.exists_mem hpb
  hashInv := fun hs ↦ hs.of_sameKeys h.keys h.hashIndex
  idInv := fun hs ↦ hs.of_sameKeys h.keys h.nextId
  holds := by
    rintro x ⟨pb, hpb, rfl⟩
    obtain ⟨pb', hpb', -, hhit⟩ := SameKeys.exists_mem (Eq.symm h.keys) hpb
    exact ⟨pb', hpb', by rw [hhit]⟩

theorem Kept.trans {s s' s'' : BlockStore} (h : Kept s s') (h' : Kept s' s'') : Kept s s'' where
  toGrows := h.toGrows.trans h'.toGrows
  hashInv := h'.hashInv ∘ h.hashInv
  idInv := h'.idInv ∘ h.idInv
  holds := fun x hx ↦ h'.holds x (h.holds x hx)

/-- What `enqueue` does to the bag. -/
theorem enqueue_cases (s : BlockStore) (now : String) (hit : BlockHit) (reason : String) :
    (hit.hashStr ≠ "" ∧ hit.hashStr ∈ s.hashIndex ∧ (s.enqueue now hit reason).2 = s) ∨
    ((s.enqueue now hit reason).2.pending =
        s.pending ++ [{ id := s.nextId, hit, queueReason := reason }] ∧
      (s.enqueue now hit reason).2.nextId = s.nextId + 1) := by
  unfold enqueue
  split
  · next h => exact .inl ⟨h.1, h.2, rfl⟩
  · exact .inr ⟨by simp [appendQueueJsonl], by simp [appendQueueJsonl]⟩

theorem kept_enqueue (s : BlockStore) (now : String) (hit : BlockHit) (reason : String) :
    Kept s (s.enqueue now hit reason).2 := by
  rcases s.enqueue_cases now hit reason with ⟨-, -, h⟩ | ⟨hpending, hnext⟩
  · rw [h]
    exact (SameRows.refl s).kept
  · refine ⟨⟨by rw [hnext]; omega, fun pb hpb hlt ↦ ?_⟩, fun h ↦ enqueue_hashInv h .., fun h ↦
      enqueue_idInv h .., fun x ⟨pb, hpb, hx⟩ ↦ ⟨pb, by rw [hpending]; simp [hpb], hx⟩⟩
    rw [hpending, List.mem_append, List.mem_singleton] at hpb
    rcases hpb with hpb | rfl
    · exact ⟨pb, hpb, rfl, rfl⟩
    · simp at hlt

/-- **A hit that was queued is in the bag.** -/
theorem holds_enqueue {s : BlockStore} (h : HashInv s) (now : String) (hit : BlockHit)
    (reason : String) : (s.enqueue now hit reason).2.Holds hit.hashStr := by
  rcases s.enqueue_cases now hit reason with ⟨-, hmem, heq⟩ | ⟨hpending, -⟩
  · rw [heq]
    exact (mem_hashesOf.mp ((h.index _).mp hmem)).2
  · exact ⟨_, by rw [hpending]; exact List.mem_append_right _ List.mem_cons_self, rfl⟩

theorem kept_recordRejection (s : BlockStore) (now : String) (hit : BlockHit) (status : Int)
    (body source : String) : Kept s (s.recordRejection now hit status body source).2 :=
  (sameRows_logRejection s now hit status body source).kept.trans (kept_enqueue _ _ _ _)

theorem holds_recordRejection {s : BlockStore} (h : HashInv s) (now : String) (hit : BlockHit)
    (status : Int) (body source : String) :
    (s.recordRejection now hit status body source).2.Holds hit.hashStr :=
  holds_enqueue ((sameRows_logRejection s now hit status body source).kept.hashInv h) _ _ _

/-- Removing rows gives no id twice. -/
theorem grows_markSubmittedMany (s : BlockStore) (ids : List Int) :
    Grows s (s.markSubmittedMany ids) where
  nextId := (markSubmittedMany_nextId s ids).ge
  old := by
    intro pb hpb _
    rw [markSubmittedMany_pending] at hpb
    exact ⟨pb, List.mem_of_mem_filter hpb, rfl, rfl⟩

/-- The rows whose id is not listed stay. -/
theorem holds_markSubmittedMany {s : BlockStore} {ids : List Int} {pb : PendingBlock}
    (hpb : pb ∈ s.pending) (hid : pb.id ∉ ids) :
    (s.markSubmittedMany ids).Holds pb.hit.hashStr :=
  ⟨pb, by rw [markSubmittedMany_pending]; exact List.mem_filter.mpr ⟨hpb, by simpa using hid⟩, rfl⟩

/-! ## The audit log -/

theorem maybeSave_rejected (s : BlockStore) : s.maybeSave.files.rejected = s.files.rejected := by
  unfold maybeSave
  split <;> rfl

theorem markPendingReason_rejected (s : BlockStore) (id : Int) (reason : String) :
    (s.markPendingReason id reason).files.rejected = s.files.rejected := maybeSave_rejected _

theorem enqueue_rejected (s : BlockStore) (now : String) (hit : BlockHit) (reason : String) :
    (s.enqueue now hit reason).2.files.rejected = s.files.rejected := by
  unfold enqueue
  split
  · rfl
  · exact maybeSave_rejected _

theorem markSubmittedMany_rejected (s : BlockStore) (ids : List Int) :
    (s.markSubmittedMany ids).files.rejected = s.files.rejected := by
  unfold markSubmittedMany
  split
  · rfl
  · change (ids.foldl removeId s).files.rejected = _
    rw [(foldl_removeId_frame ids s).2]

end BlockStore

end XNMiner
