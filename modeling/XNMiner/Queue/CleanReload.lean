import XNMiner.Queue.Saves
import XNMiner.Queue.Reload

/-!
# Reloading after a clean end

A process that ends in good order calls `flush`, `defer_all_to_next_start` or the destructor of
the store, which does the same as `flush`.  The next process then finds the very bag that was
in RAM.  The reason is the counter `dirty_ops_`: while it is zero, `blocks.db` is the document of
the bag, or nothing has ever been queued (`Clean`).

Numbers in `blocks.db` are read back through C++ types that may be narrower than the ones they
were written from, so a row comes back as it was only if its numbers fit (`Written`).
-/

namespace XNMiner

open Lib

namespace BlockStore

/-- One operation. -/
def OpStep (s : BlockStore) (op : Op) (t : BlockStore) : Prop := t = s.exec op

variable {s t : BlockStore} {op : Op} {ops : List Op}

/-! ## Disk and RAM agree when nothing is dirty -/

/-- With no dirty operation the disk has the bag: as a snapshot, or because there has never been
a row. -/
def Clean (s : BlockStore) : Prop :=
  s.dirtyOps = 0 → s.files.db = some (some (dbJson s.nextId s.pending)) ∨
    s.files.db = none ∧ s.files.jsonl = none ∧ s.pending = []

theorem clean_empty : Clean {} := fun _ ↦ .inr ⟨rfl, rfl, rfl⟩

/-- Two stores that differ in the audit log at most, and in reasons and flags not at all. -/
structure SameBag (s t : BlockStore) : Prop where
  pending : t.pending = s.pending
  nextId : t.nextId = s.nextId
  dirtyOps : t.dirtyOps = s.dirtyOps
  db : t.files.db = s.files.db
  jsonl : t.files.jsonl = s.files.jsonl

theorem SameBag.clean (h : SameBag s t) (hs : Clean s) : Clean t := by
  intro hdirty
  rw [h.dirtyOps] at hdirty
  rw [h.db, h.jsonl, h.pending, h.nextId]
  exact hs hdirty

theorem SameBag.refl (s : BlockStore) : SameBag s s := ⟨rfl, rfl, rfl, rfl, rfl⟩

/-- With no row to drop the bag stays as it is. -/
theorem sameBag_dropByHash {hashes : List String} (hno : ¬ s.Drops hashes) :
    SameBag s (s.dropByHash hashes).2 := by
  have hkeep : ∀ pb ∈ s.pending, pb.hit.hashStr ∉ hashes.filter fun h ↦ decide (h ≠ "") := by
    intro pb hpb hmem
    simp only [List.mem_filter, decide_eq_true_eq] at hmem
    exact hno ⟨pb, hpb, hmem.2, hmem.1⟩
  have hgone : (s.pending.filter fun pb ↦
      decide (pb.hit.hashStr ∈ hashes.filter fun h ↦ decide (h ≠ ""))) = [] :=
    List.filter_eq_nil_iff.mpr fun pb hpb h ↦ hkeep pb hpb (of_decide_eq_true h)
  have hall : (s.pending.filter fun pb ↦
      decide (pb.hit.hashStr ∉ hashes.filter fun h ↦ decide (h ≠ ""))) = s.pending :=
    List.filter_eq_self.mpr fun pb hpb ↦ decide_eq_true (hkeep pb hpb)
  simp only [dropByHash]
  split
  · exact .refl s
  · exact ⟨hall, rfl, rfl, rfl, rfl⟩

/-- **An operation that does not save** leaves a dirty operation behind, or the bag as it was. -/
theorem exec_unsaved (hno : ¬ op.Saves s) : 0 < (s.exec op).dirtyOps ∨ SameBag s (s.exec op) := by
  have hmarked {t : BlockStore} (hdue : ¬ kSaveEveryOps ≤ t.markDirty.dirtyOps) :
      0 < t.markDirty.maybeSave.dirtyOps := by
    rw [maybeSave, if_neg hdue]
    exact Nat.succ_pos _
  have henqueue {s : BlockStore} {now : String} {hit : BlockHit} {reason : String}
      (hno : ¬ (¬ s.Bagged hit ∧ s.SaveDue)) : 0 < (s.enqueue now hit reason).2.dirtyOps ∨
        SameBag s (s.enqueue now hit reason).2 := by
    unfold enqueue
    split
    · exact .inr (.refl _)
    · next hnew => exact .inl (hmarked fun hdue ↦ hno ⟨hnew, hdue⟩)
  cases op with
  | enqueue now hit reason => exact henqueue hno
  | recordRejection now hit st body src =>
      refine (henqueue (s := s.logRejection now hit st body src) hno).imp id fun h ↦ ?_
      exact ⟨h.pending, h.nextId, h.dirtyOps, h.db, h.jsonl⟩
  | markSubmitted id => exact absurd trivial hno
  | deferAllToNextStart minute => exact absurd trivial hno
  | markSubmittedMany ids =>
      have hnil : ids = [] := not_not.mp hno
      rw [hnil]
      exact .inr (.refl _)
  | markForwardedMany ids =>
      have hnil : ids = [] := not_not.mp hno
      rw [hnil]
      exact .inr (.refl _)
  | markPendingReason id reason => exact .inl (hmarked fun hdue ↦ hno hdue)
  | dropByHash hashes => exact .inr (sameBag_dropByHash hno)
  | flush =>
      change 0 < s.flush.dirtyOps ∨ SameBag s s.flush
      have hclean : ¬ 0 < s.dirtyOps := hno
      rw [flush, if_neg hclean]
      exact .inr (.refl s)

/-- **Disk and RAM agree when nothing is dirty**, after any operations. -/
theorem Clean.exec (hs : Clean s) (op : Op) : Clean (s.exec op) := by
  by_cases hsave : op.Saves s
  · exact fun _ ↦ .inl ((exec_savesTo s op).1 hsave)
  · rcases exec_unsaved hsave with hdirty | hsame
    · intro hclean
      omega
    · exact hsame.clean hs

/-- After `flush` nothing is dirty. -/
theorem flush_dirtyOps (s : BlockStore) : s.flush.dirtyOps = 0 := by
  unfold flush
  split
  · rfl
  · omega

/-! ## Rows that read back -/

theorem mem_updateFirst {id : Int} {f : PendingBlock → PendingBlock} {l : List PendingBlock}
    {pb : PendingBlock} (h : pb ∈ updateFirst id f l) : pb ∈ l ∨ ∃ pb₀ ∈ l, pb = f pb₀ := by
  induction l with
  | nil => exact .inl h
  | cons row rest ih =>
      unfold updateFirst at h
      split at h
      · rcases List.mem_cons.mp h with rfl | h
        · exact .inr ⟨row, List.mem_cons_self, rfl⟩
        · exact .inl (List.mem_cons_of_mem _ h)
      · rcases List.mem_cons.mp h with rfl | h
        · exact .inl List.mem_cons_self
        · rcases ih h with h | ⟨pb₀, hpb₀, he⟩
          · exact .inl (List.mem_cons_of_mem _ h)
          · exact .inr ⟨pb₀, List.mem_cons_of_mem _ hpb₀, he⟩

section Rows

variable {P : PendingBlock → Prop}

/-- **What holds of every row.**  A property that reasons and flags do not touch holds of the rows
after an operation if it holds of those before and of a row the operation adds. -/
theorem exec_rows (hreason : ∀ pb reason, P pb → P { pb with queueReason := reason })
    (hforward : ∀ pb, P pb → P { pb with forwarded := true }) (hs : ∀ pb ∈ s.pending, P pb)
    (hnew : ∀ hit ∈ op.hit?, ∀ reason, P { id := s.nextId, hit, queueReason := reason }) :
    ∀ pb ∈ (s.exec op).pending, P pb := by
  have hmany (ids : List Int) : ∀ pb ∈ (s.markSubmittedMany ids).pending, P pb := by
    intro pb hpb
    rw [markSubmittedMany_pending] at hpb
    exact hs pb (List.mem_of_mem_filter hpb)
  have henqueue {now : String} {hit : BlockHit} {reason : String} {s' : BlockStore}
      (hbag : s'.pending = s.pending) (hid : s'.nextId = s.nextId)
      (hhit : ∀ reason, P { id := s.nextId, hit, queueReason := reason }) :
      ∀ pb ∈ (s'.enqueue now hit reason).2.pending, P pb := by
    intro pb hpb
    rcases s'.enqueue_cases now hit reason with ⟨-, -, h⟩ | ⟨hpending, -⟩
    · rw [h, hbag] at hpb
      exact hs pb hpb
    · rw [hpending, hbag, List.mem_append, List.mem_singleton] at hpb
      rcases hpb with hpb | rfl
      · exact hs pb hpb
      · rw [hid]
        exact hhit reason
  have hupdate {f : PendingBlock → PendingBlock} (hf : ∀ pb, P pb → P (f pb)) (id : Int)
      {l : List PendingBlock} (hl : ∀ pb ∈ l, P pb) : ∀ pb ∈ updateFirst id f l, P pb := by
    intro pb hpb
    rcases mem_updateFirst hpb with hpb | ⟨pb₀, hpb₀, rfl⟩
    · exact hl pb hpb
    · exact hf pb₀ (hl pb₀ hpb₀)
  cases op with
  | enqueue now hit reason => exact henqueue rfl rfl (hnew hit rfl)
  | recordRejection now hit st body src => exact henqueue rfl rfl (hnew hit rfl)
  | markSubmitted id => exact hmany [id]
  | markSubmittedMany ids => exact hmany ids
  | markPendingReason id reason =>
      change ∀ pb ∈ (s.markPendingReason id reason).pending, P pb
      simp only [markPendingReason, maybeSave_pending, markDirty_pending]
      exact hupdate (fun pb ↦ hreason pb reason) id hs
  | markForwardedMany ids =>
      change ∀ pb ∈ (s.markForwardedMany ids).pending, P pb
      unfold markForwardedMany
      split
      · exact hs
      · simp only [saveDb_pending, markDirty_pending]
        have hfold : ∀ (ids : List Int) (l : List PendingBlock), (∀ pb ∈ l, P pb) → ∀ pb ∈ ids.foldl
            (fun l id ↦ updateFirst id (fun pb ↦ { pb with forwarded := true }) l) l, P pb := by
          intro ids
          induction ids with
          | nil => exact fun _ hl ↦ hl
          | cons id ids ih => exact fun l hl ↦ ih _ (hupdate hforward id hl)
        exact hfold ids _ hs
  | dropByHash hashes =>
      intro pb hpb
      simp only [exec, dropByHash] at hpb
      split at hpb
      · exact hs pb hpb
      · split at hpb <;> exact hs pb (List.mem_of_mem_filter hpb)
  | flush =>
      change ∀ pb ∈ s.flush.pending, P pb
      rw [flush_pending]
      exact hs
  | deferAllToNextStart minute =>
      intro pb hpb
      obtain ⟨pb₀, hpb₀, rfl⟩ := List.mem_map.mp hpb
      exact hreason pb₀ _ (hs pb₀ hpb₀)

end Rows

/-- A row as the operations make it of hits whose numbers fit. -/
structure Written (pb : PendingBlock) : Prop where
  hit : pb.hit.FitsInt
  rejectCount : pb.rejectCount = 0
  id : 0 < pb.id

/-- A row with an id below `2 ^ 31` comes back as it was. -/
theorem Written.reread {pb : PendingBlock} (h : Written pb) (hid : pb.id < 2 ^ 31) :
    pb.reread = pb := by
  have hid' : wrap 64 pb.id = pb.id :=
    wrap_of_fits (by omega) (by have := h.id; omega) (by omega)
  rw [PendingBlock.reread, hid', BlockHit.reread_of_fitsInt h.hit, h.rejectCount]
  cases pb
  simp only [PendingBlock.mk.injEq, true_and, and_true]
  exact h.rejectCount.symm

/-! ## The next id after a load -/

theorem addRow_lt (h : ∀ pb ∈ s.pending, pb.id < s.nextId) (row : PendingBlock) :
    ∀ pb ∈ (s.addRow row).pending, pb.id < (s.addRow row).nextId := by
  intro pb hpb
  rcases List.mem_append.mp hpb with hpb | hpb
  · exact (h pb hpb).trans_le (le_max_left _ _)
  · rw [List.mem_singleton.mp hpb]
    exact (Int.lt_succ _).trans_le (le_max_right _ _)

/-- Whatever the rows, the ids that come back are below the next one. -/
theorem loadRows_lt (items : List Json) (h : ∀ pb ∈ s.pending, pb.id < s.nextId) :
    ∀ pb ∈ (loadRows items s).1.pending, pb.id < (loadRows items s).1.nextId := by
  induction items generalizing s with
  | nil => exact h
  | cons item rest ih =>
      have hnext : ∀ pb ∈ s.pending, pb.id < s.nextId + 1 := fun pb hpb ↦
        (h pb hpb).trans (Int.lt_succ _)
      unfold loadRows
      split
      · exact hnext
      · next pb _ => exact ih (addRow_lt (s := { s with nextId := s.nextId + 1 }) hnext pb)

/-- A snapshot is read back with all ids below the next one. -/
theorem load_lt {files : Files} {n : Int} {snap : List PendingBlock}
    (hdb : files.db = some (some (dbJson n snap))) (hload : load files = some t) :
    ∀ pb ∈ t.pending, pb.id < t.nextId := by
  obtain ⟨s', hl, -⟩ := loadRows_rowMembers snap ({ files, nextId := wrap 32 n } : BlockStore)
    (by simp [hashesOf])
  have hlt := loadRows_lt (snap.map fun pb ↦ .obj (rowMembers pb))
    (s := { files, nextId := wrap 32 n }) (by simp)
  have hs : loadSnapshot (dbJson n snap) { files } = (s', true) := by
    simpa [loadSnapshot, dbJson, Json.value, Json.find?, List.lookup_cons, Json.toInt32,
      Json.items?] using hl
  have ht : s' = t := by simpa [load, hdb, hs] using hload
  rw [hl, ht] at hlt
  exact hlt

/-! ## Runs -/

/-- The operations that a process ends with in good order; the destructor of the store does what
`flush` does. -/
inductive Closes : Op → Prop
  | flush : Closes .flush
  | deferAllToNextStart (minute : Nat) : Closes (.deferAllToNextStart minute)

/-- What holds of a store whose hits all fit. -/
structure Tracked (s : BlockStore) : Prop where
  clean : Clean s
  hash : HashInv s
  id : IdInv s
  written : ∀ pb ∈ s.pending, Written pb
  positive : 0 < s.nextId

theorem tracked_empty : Tracked {} where
  clean := clean_empty
  hash := ⟨by simp [hashesOf], by simp [hashesOf]⟩
  id := ⟨by simp, by simp⟩
  written := by simp
  positive := by norm_num

/-- One operation. -/
theorem Tracked.exec (hs : Tracked s) (hfits : ∀ hit ∈ op.hit?, hit.FitsInt) :
    Tracked (s.exec op) where
  clean := hs.clean.exec op
  hash := exec_hashInv hs.hash op
  id := exec_idInv hs.id op
  written := exec_rows (fun _ _ h ↦ ⟨h.hit, h.rejectCount, h.id⟩)
    (fun _ h ↦ ⟨h.hit, h.rejectCount, h.id⟩) hs.written
    fun hit hhit _ ↦ ⟨hfits hit hhit, rfl, hs.positive⟩
  positive := hs.positive.trans_le (exec_grows s op).nextId

/-- A run of operations. -/
theorem Tracked.run (hs : Tracked s) (hr : Run OpStep s ops t)
    (hfits : ∀ op ∈ ops, ∀ hit ∈ op.hit?, hit.FitsInt) : Tracked t := by
  induction hr with
  | nil => exact hs
  | cons hstep _ ih =>
      obtain rfl := hstep
      exact ih (hs.exec (hfits _ List.mem_cons_self))
        fun op hop ↦ hfits op (List.mem_cons_of_mem _ hop)

/-- No run gives an id twice. -/
theorem grows_run (hr : Run OpStep s ops t) : Grows s t := by
  induction hr with
  | nil s => exact .refl s
  | cons hstep _ ih =>
      obtain rfl := hstep
      exact (exec_grows _ _).trans ih

/-- After a clean end the disk has the bag. -/
theorem Tracked.closed (hs : Tracked s) (hop : Closes op) :
    (s.exec op).files.db = some (some (dbJson (s.exec op).nextId (s.exec op).pending)) ∨
      (s.exec op).files.db = none ∧ (s.exec op).files.jsonl = none ∧ (s.exec op).pending = [] := by
  refine hs.clean.exec op ?_
  cases hop with
  | flush => exact flush_dirtyOps s
  | deferAllToNextStart minute => rfl

/-- The store constructed next has the bag. -/
theorem Tracked.reload (hs : Tracked s) (hids : ∀ pb ∈ s.pending, pb.id < 2 ^ 31)
    (hdisk : s.files.db = some (some (dbJson s.nextId s.pending)) ∨
      s.files.db = none ∧ s.files.jsonl = none ∧ s.pending = []) :
    ∃ t, load s.files = some t ∧ t.pending = s.pending ∧ t.hashIndex = s.hashIndex ∧
      ∀ pb ∈ t.pending, pb.id < t.nextId := by
  rcases hdisk with hdb | ⟨hdb, hlog, hnil⟩
  · obtain ⟨t, hload, hpending, hindex, -⟩ := load_dbJson hdb
    have hsame : t.pending = s.pending := by
      rw [hpending]
      refine (List.map_congr_left fun pb hpb ↦ ?_).trans (List.map_id _)
      exact (hs.written pb hpb).reread (hids pb hpb)
    refine ⟨t, hload, hsame, ?_, load_lt hdb hload⟩
    ext x
    rw [hindex, hsame, hs.hash.index]
  · refine ⟨{ files := s.files }, by simp [load, hdb, recoverJsonl, hlog], hnil.symm, ?_, by simp⟩
    ext x
    rw [hs.hash.index, hnil]
    simp [hashesOf]

/-- **A clean end loses nothing and brings nothing back.**  After any operations on fresh files
that end with `flush`, the destructor or `defer_all_to_next_start`, the store that is constructed
next on the files has the same bag in the same order, the same index, and a next id above all ids.
A row that was removed on the way is not among its rows, and no id or digest is there twice. -/
theorem clean_reload {last : Op} (hr : Run OpStep {} ops s) (hlast : Closes last)
    (hfits : ∀ op ∈ ops, ∀ hit ∈ op.hit?, hit.FitsInt)
    (hids : ∀ pb ∈ s.pending, pb.id < 2 ^ 31) :
    ∃ t, load (s.exec last).files = some t ∧ t.pending = (s.exec last).pending ∧
      t.hashIndex = (s.exec last).hashIndex ∧ (∀ pb ∈ t.pending, pb.id < t.nextId) ∧
      (t.pending.map (·.id)).Nodup ∧ (hashesOf t.pending).Nodup ∧
      ∀ before s₁ op after, Run OpStep {} before s₁ → Run OpStep s₁ (op :: after) s →
        ∀ pb ∈ s₁.pending, pb.id ∉ (s₁.exec op).pending.map (·.id) →
          pb.id ∉ t.pending.map (·.id) := by
  have hno : ∀ hit, last.hit? ≠ some hit := by
    intro hit
    cases hlast <;> simp [Op.hit?]
  have hs := tracked_empty.run hr hfits
  have hend : Tracked (s.exec last) := hs.exec fun hit hhit ↦ absurd hhit (hno hit)
  have hids' : ∀ pb ∈ (s.exec last).pending, pb.id < 2 ^ 31 :=
    exec_rows (fun _ _ h ↦ h) (fun _ h ↦ h) hids fun hit hhit ↦ absurd hhit (hno hit)
  obtain ⟨t, hload, hpending, hindex, hlt⟩ := hend.reload hids' (hs.closed hlast)
  refine ⟨t, hload, hpending, hindex, hlt, hpending ▸ hend.id.nodup, hpending ▸ hend.hash.nodup, ?_⟩
  intro before s₁ op after hbefore hafter pb hpb hgone hback
  obtain ⟨s₂, hstep, hrest⟩ := hafter.head
  obtain rfl : s₂ = s₁.exec op := hstep
  -- the id was given before, so a row with it must have been there all along
  have hid₁ : IdInv s₁ := hbefore.preserves (fun _ op _ h hstep ↦ by
    obtain rfl := hstep
    exact exec_idInv h op) tracked_empty.id
  have hold : pb.id < (s₁.exec op).nextId := (hid₁.lt pb hpb).trans_le (exec_grows s₁ op).nextId
  rw [hpending] at hback
  obtain ⟨pb', hpb', hid'⟩ := List.mem_map.mp hback
  obtain ⟨pb₂, hpb₂, hid₂, -⟩ := ((grows_run hrest).trans (exec_grows s last)).old pb' hpb'
    (hid'.symm ▸ hold)
  exact hgone (List.mem_map.mpr ⟨pb₂, hpb₂, hid₂.trans hid'⟩)

/-- Two rows, of which one is delivered before the process ends. -/
theorem clean_reload_delivered :
    let first : BlockHit := { hashStr := "a", attempts := 5 }
    let second : BlockHit := { hashStr := "b", memoryCost := some 1100 }
    let s := (({} : BlockStore).exec (.enqueue "t₀" first "queued")).exec
      (.enqueue "t₁" second "queued")
    ∃ t, load ((s.exec (.markSubmitted 1)).exec .flush).files = some t ∧
      t.pending = [{ id := 2, hit := second, queueReason := "queued" }] ∧
      ∀ pb ∈ t.pending, pb.id < t.nextId := by
  intro first second s
  have hr : Run OpStep {} [.enqueue "t₀" first "queued", .enqueue "t₁" second "queued",
      .markSubmitted 1] (s.exec (.markSubmitted 1)) := .cons rfl (.cons rfl (.single rfl))
  have hfits : ∀ op ∈ [Op.enqueue "t₀" first "queued", .enqueue "t₁" second "queued",
      .markSubmitted 1], ∀ hit ∈ op.hit?, hit.FitsInt := by
    simp [Op.hit?, BlockHit.FitsInt, first, second]
  have hids : ∀ pb ∈ (s.exec (.markSubmitted 1)).pending, pb.id < 2 ^ 31 := by decide
  obtain ⟨t, hload, hpending, -, hlt, -⟩ := clean_reload hr .flush hfits hids
  exact ⟨t, hload, hpending, hlt⟩

end BlockStore

end XNMiner
