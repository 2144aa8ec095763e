import XNMiner.Queue.StoreInv

/-!
# What a killed process leaves behind

A process may be killed between any two operations of the store; every file write already
issued is complete, the destructor does not run, and the next process constructs a
`BlockStore` on the same files (`Act.restart`).

`enqueue` logs every row to `queue.jsonl` but rewrites `blocks.db` only every eighth dirty
operation, and `load` reads the log only when there is no readable `blocks.db`.  So the rows
added since the last snapshot are not read back once a snapshot exists
(`restart_forgets_unsaved_row`).  What does hold is `Durable`: RAM is the last snapshot, with
reasons possibly changed, followed by at most `dirtyOps` new rows; or there has been no
snapshot yet, and then the log has every row.
-/

namespace XNMiner

open Lib

/-- A row as it comes back from `blocks.db`. -/
def PendingBlock.reread (pb : PendingBlock) : PendingBlock :=
  { pb with id := wrap 64 pb.id, hit := pb.hit.reread, rejectCount := wrap 32 pb.rejectCount }

namespace BlockStore

/-! ## Reading rows back -/

/-- A key that `hit_to_json` never writes is not found among its members. -/
theorem hitMembers_lookup_none {hit : BlockHit} {k : String}
    (hk : k ∉ ["key", "hash_str", "block_type", "strategy", "attempts", "hps", "found_at",
      "memory_cost", "payout_account", "salt_hex", "fee_block"]) :
    (hitMembers hit).lookup k = none := by
  rw [List.lookup_eq_none_iff]
  intro p hp
  rw [bne_iff_ne]
  rintro rfl
  apply hk
  simp only [hitMembers, List.mem_append, List.mem_cons, List.not_mem_nil, or_false] at hp
  rcases hp with (((hp | hp) | hp) | hp) | hp
  · rcases hp with rfl | rfl | rfl | rfl | rfl | rfl | rfl <;> simp
  · cases hm : hit.memoryCost <;> simp_all
  · split at hp <;> simp_all
  · split at hp <;> simp_all
  · split at hp <;> simp_all

/-- A row of `blocks.db` reads back as itself, whatever the default id. -/
theorem parseRow_rowMembers (pb : PendingBlock) (defaultId : Int) :
    parseRow (.obj (rowMembers pb)) defaultId = some pb.reread := by
  have hhit : hitFromJson (.obj (rowMembers pb)) = some pb.hit.reread :=
    hitFromJson_append pb.hit (by simp [List.lookup_cons])
  have hl : ∀ k ∈ ["id", "reason", "queue_reason", "reject_count", "forwarded"],
      (hitMembers pb.hit).lookup k = none := by
    intro k hk
    apply hitMembers_lookup_none
    revert k
    decide
  simp only [List.mem_cons, List.not_mem_nil, or_false, forall_eq_or_imp, forall_eq] at hl
  obtain ⟨h₁, h₂, h₃, h₄, h₅⟩ := hl
  simp only [parseRow, hhit]
  simp [Json.value, rowMembers, List.lookup_append, h₁, h₂, h₃, h₄, h₅,
    List.lookup_cons, Json.toInt64, Json.toStr, Json.toInt32, Json.toBool, PendingBlock.reread]

/-- A line of `queue.jsonl` has the hit of its row. -/
theorem hitFromJson_queueRecord (now : String) (pb : PendingBlock) :
    hitFromJson (queueRecord now pb) = some pb.hit.reread :=
  hitFromJson_append pb.hit (by simp [List.lookup_cons])

/-- The other reads of a line of `queue.jsonl` go through. -/
theorem parseRecord_queueRecord (now : String) (pb : PendingBlock) (hit : BlockHit) (n : Int) :
    parseRecord (queueRecord now pb) hit n =
      some { id := wrap 64 pb.id, hit, queueReason := pb.queueReason } := by
  have hl : ∀ k ∈ ["id", "reason", "queue_reason", "reject_count"],
      (hitMembers pb.hit).lookup k = none := by
    intro k hk
    apply hitMembers_lookup_none
    revert k
    decide
  simp only [List.mem_cons, List.not_mem_nil, or_false, forall_eq_or_imp, forall_eq] at hl
  obtain ⟨h₁, h₂, h₃, h₄⟩ := hl
  simp [parseRecord, queueRecord, Json.value, List.lookup_append, h₁, h₂, h₃, h₄,
    List.lookup_cons, Json.toInt64, Json.toStr]

/-- Adding a row that was read back keeps the index the set of digests. -/
theorem addRow_index {s : BlockStore} (h : ∀ x, x ∈ s.hashIndex ↔ x ∈ hashesOf s.pending)
    (pb : PendingBlock) (x : String) :
    x ∈ (s.addRow pb).hashIndex ↔ x ∈ hashesOf (s.addRow pb).pending := by
  simp only [addRow, indexHash, hashesOf_append, hashesOf_singleton, List.mem_append]
  split
  · simp [h x]
  · simp [h x, or_comm]

/-- **Reading the rows of a snapshot**: all of them come back, after the rows there were. -/
theorem loadRows_rowMembers (rows : List PendingBlock) (s : BlockStore)
    (h : ∀ x, x ∈ s.hashIndex ↔ x ∈ hashesOf s.pending) :
    ∃ s', loadRows (rows.map fun pb ↦ .obj (rowMembers pb)) s = (s', true) ∧
      s'.pending = s.pending ++ rows.map PendingBlock.reread ∧
      (∀ x, x ∈ s'.hashIndex ↔ x ∈ hashesOf s'.pending) ∧
      s'.dirtyOps = s.dirtyOps ∧ s'.files = s.files := by
  induction rows generalizing s with
  | nil => exact ⟨s, rfl, by simp, h, rfl, rfl⟩
  | cons pb rows ih =>
      obtain ⟨s', hl, hp, hi, hd, hf⟩ := ih
        (({ s with nextId := s.nextId + 1 } : BlockStore).addRow pb.reread)
        (addRow_index (s := { s with nextId := s.nextId + 1 }) h pb.reread)
      refine ⟨s', ?_, ?_, hi, hd, hf⟩
      · simpa [loadRows, parseRow_rowMembers] using hl
      · simpa [addRow] using hp

theorem hashesOf_map_reread (l : List PendingBlock) :
    hashesOf (l.map PendingBlock.reread) = hashesOf l := by
  simp [hashesOf, PendingBlock.reread, Function.comp_def]

/-- **A snapshot reads back.** -/
theorem load_dbJson {files : Files} {n : Int} {snap : List PendingBlock}
    (hdb : files.db = some (some (dbJson n snap))) :
    ∃ s', load files = some s' ∧ s'.pending = snap.map PendingBlock.reread ∧
      (∀ x, x ∈ s'.hashIndex ↔ x ∈ hashesOf s'.pending) ∧
      s'.dirtyOps = 0 ∧ s'.files = files := by
  obtain ⟨s', hl, hp, hi, hd, hf⟩ := loadRows_rowMembers snap
    ({ files, nextId := wrap 32 n } : BlockStore) (by simp [hashesOf])
  refine ⟨s', ?_, by simpa using hp, hi, hd, hf⟩
  have hs : loadSnapshot (dbJson n snap) { files } = (s', true) := by
    simpa [loadSnapshot, dbJson, Json.value, Json.find?, List.lookup_cons, Json.toInt32,
      Json.items?] using hl
  simp [load, hdb, hs]

/-! ## The log -/

/-- The hits of the rows that have a digest: what the log can bring back. -/
def hitsOf (l : List PendingBlock) : List BlockHit :=
  (l.map (·.hit)).filter fun h ↦ decide (h.hashStr ≠ "")

theorem hitsOf_append (l₁ l₂ : List PendingBlock) : hitsOf (l₁ ++ l₂) = hitsOf l₁ ++ hitsOf l₂ := by
  simp [hitsOf]

theorem hashesOf_eq_map_hitsOf (l : List PendingBlock) :
    hashesOf l = (hitsOf l).map (·.hashStr) := by
  simp [hashesOf, hitsOf, List.filter_map, Function.comp_def]

/-- **Reading the log back**: each logged row with a digest that is new comes back. -/
theorem recoverLines_queueRecord (hist : List (String × PendingBlock)) (s : BlockStore)
    (added : Bool) (h : ∀ x, x ∈ s.hashIndex ↔ x ∈ hashesOf s.pending)
    (hnd : (hashesOf (s.pending ++ hist.map Prod.snd)).Nodup) :
    ∃ s' added', recoverLines (hist.map fun p ↦ some (queueRecord p.1 p.2)) s added =
        (s', added', true) ∧
      s'.pending.map (·.hit) = s.pending.map (·.hit) ++
        (hitsOf (hist.map Prod.snd)).map BlockHit.reread ∧
      (∀ x, x ∈ s'.hashIndex ↔ x ∈ hashesOf s'.pending) ∧
      (added = true → added' = true) ∧
      (added' = false → hitsOf (hist.map Prod.snd) = []) ∧
      s'.dirtyOps = s.dirtyOps ∧ s'.files = s.files := by
  induction hist generalizing s added with
  | nil => exact ⟨s, added, rfl, by simp [hitsOf], h, id, fun _ ↦ rfl, rfl, rfl⟩
  | cons p hist ih =>
      obtain ⟨now, pb⟩ := p
      have hobj : (queueRecord now pb).isObject = true := rfl
      by_cases he : pb.hit.hashStr = ""
      · -- a row without a digest is logged but never read back
        have hnd' : (hashesOf (s.pending ++ hist.map Prod.snd)).Nodup := by
          simpa [hashesOf, he] using hnd
        obtain ⟨s', added', hl, hp, hi, hm, ha, hd, hf⟩ := ih s added h hnd'
        refine ⟨s', added', ?_, ?_, hi, hm, ?_, hd, hf⟩
        · simpa [recoverLines, hobj, hitFromJson_queueRecord, he] using hl
        · simpa [hitsOf, he] using hp
        · simpa [hitsOf, he] using ha
      · have hsplit : hashesOf (s.pending ++ ((now, pb) :: hist).map Prod.snd) =
            hashesOf s.pending ++ pb.hit.hashStr :: hashesOf (hist.map Prod.snd) := by
          rw [hashesOf_append, List.map_cons, ← List.singleton_append, hashesOf_append,
            hashesOf_singleton, if_neg he, List.singleton_append]
        have hnew : pb.hit.hashStr ∉ s.hashIndex := by
          rw [hsplit, List.nodup_append] at hnd
          exact fun hmem ↦ hnd.2.2 _ ((h _).mp hmem) _ List.mem_cons_self rfl
        let row : PendingBlock :=
          { id := s.recoverId (wrap 64 pb.id), hit := pb.hit.reread, queueReason := pb.queueReason }
        have hstep : recoverLines (((now, pb) :: hist).map fun p ↦ some (queueRecord p.1 p.2))
            s added =
              recoverLines (hist.map fun p ↦ some (queueRecord p.1 p.2)) (s.addRow row) true := by
          simp [recoverLines, hobj, hitFromJson_queueRecord, he, hnew, parseRecord_queueRecord, row]
        have hnd' : (hashesOf ((s.addRow row).pending ++ hist.map Prod.snd)).Nodup := by
          have : hashesOf ((s.addRow row).pending ++ hist.map Prod.snd) =
              hashesOf (s.pending ++ ((now, pb) :: hist).map Prod.snd) := by
            rw [hsplit, hashesOf_append, addRow, hashesOf_append, hashesOf_singleton]
            simp [he, row]
          rw [this]
          exact hnd
        obtain ⟨s', added', hl, hp, hi, hm, ha, hd, hf⟩ :=
          ih (s.addRow row) true (addRow_index h row) hnd'
        refine ⟨s', added', hstep.trans hl, ?_, hi, fun _ ↦ hm rfl, fun hfalse ↦ ?_, hd, hf⟩
        · simpa [addRow, hitsOf, he, row] using hp
        · exact absurd (hm rfl) (by simp [hfalse])

/-! ## Runs with kills and restarts -/

/-- What can happen to a store: an operation, or a kill followed by constructing the store on
the files as they are. -/
inductive Act where
  | op (o : Op)
  | restart

/-- One operation, or one kill and restart. -/
def Step (s : BlockStore) : Act → BlockStore → Prop
  | .op o, t => t = s.exec o
  | .restart, t => load s.files = some t

/-- The operations that can add a row. -/
def Op.adds : Op → Bool
  | .enqueue .. | .recordRejection .. => true
  | _ => false

/-- The actions that can add a row. -/
def Act.adds : Act → Bool
  | .op o => o.adds
  | .restart => false

/-- There has been no snapshot: the log has every row, in order.  There are at most `k` rows,
and the store knows that it has so many changes to save. -/
structure Logged (s : BlockStore) (hist : List (String × PendingBlock)) (k : Nat) : Prop where
  db : s.files.db = none
  jsonl : s.files.jsonl.getD [] = hist.map fun p ↦ some (queueRecord p.1 p.2)
  hits : hitsOf (hist.map Prod.snd) = hitsOf s.pending
  length : s.pending.length ≤ k
  dirty : k ≤ s.dirtyOps

/-- There is a snapshot: RAM is its rows, with reasons and flags possibly changed, followed by
at most `k` rows added since. -/
structure Saved (s : BlockStore) (n : Int) (snap old new : List PendingBlock) (k : Nat) :
    Prop where
  db : s.files.db = some (some (dbJson n snap))
  pending : s.pending = old ++ new
  hits : old.map (·.hit.reread) = snap.map (·.hit.reread)
  length : new.length ≤ k
  dirty : k ≤ s.dirtyOps

/-- What relates RAM, the snapshot and the log in every reachable state: at most `k` rows are
not in the snapshot. -/
def Durable (s : BlockStore) (k : Nat) : Prop :=
  (∃ hist, Logged s hist k) ∨ ∃ n snap old new, Saved s n snap old new k

/-- A snapshot just taken has every row. -/
theorem durable_saveDb (s : BlockStore) : Durable s.saveDb 0 :=
  .inr ⟨s.nextId, s.pending, s.pending, [], rfl, (List.append_nil _).symm, rfl, le_refl _,
    le_refl _⟩

theorem durable_maybeSave {s : BlockStore} {k : Nat} (h : Durable s k) :
    ∃ k' ≤ k, Durable s.maybeSave k' := by
  unfold maybeSave
  split
  · exact ⟨0, Nat.zero_le k, durable_saveDb s⟩
  · exact ⟨k, le_refl k, h⟩

/-- Changing reasons and flags in RAM changes nothing on disk. -/
theorem Durable.of_sameKeys {s s' : BlockStore} {k : Nat} (h : Durable s k)
    (hk : SameKeys s'.pending s.pending) (hdb : s'.files.db = s.files.db)
    (hlog : s'.files.jsonl = s.files.jsonl) (hd : s.dirtyOps ≤ s'.dirtyOps) : Durable s' k := by
  rcases h with ⟨hist, h⟩ | ⟨n, snap, old, new, h⟩
  · refine .inl ⟨hist, by rw [hdb, h.db], by rw [hlog, h.jsonl], ?_, ?_, h.dirty.trans hd⟩
    · rw [h.hits, hitsOf, hitsOf, hk.hits]
    · rw [hk.length]
      exact h.length
  · have hlen : s'.pending.length = old.length + new.length := by
      rw [hk.length, h.pending, List.length_append]
    have hparts : SameKeys (s'.pending.take old.length ++ s'.pending.drop old.length)
        (old ++ new) := by
      rw [List.take_append_drop, ← h.pending]
      exact hk
    rw [SameKeys, List.map_append, List.map_append] at hparts
    obtain ⟨hold, hnew⟩ := List.append_inj hparts (by simp; omega)
    have hreread : (s'.pending.take old.length).map (·.hit.reread) = old.map (·.hit.reread) := by
      simpa [List.map_map, Function.comp_def] using
        congrArg (List.map BlockHit.reread) (SameKeys.hits hold)
    refine .inr ⟨n, snap, s'.pending.take old.length, s'.pending.drop old.length,
      by rw [hdb, h.db], (List.take_append_drop _ _).symm, hreread.trans h.hits, ?_,
      h.dirty.trans hd⟩
    rw [SameKeys.length hnew]
    exact h.length

/-- A new row is logged; the snapshot, if there is one, does not have it. -/
theorem durable_enqueue {s : BlockStore} {k : Nat} (h : Durable s k) (now : String)
    (hit : BlockHit) (reason : String) :
    ∃ k' ≤ k + 1, Durable (s.enqueue now hit reason).2 k' := by
  unfold enqueue
  split
  · exact ⟨k, Nat.le_succ k, h⟩
  · refine durable_maybeSave ?_
    rcases h with ⟨hist, h⟩ | ⟨n, snap, old, new, h⟩
    · refine .inl ⟨hist ++ [(now, { id := s.nextId, hit, queueReason := reason })], h.db, ?_, ?_,
        ?_, Nat.succ_le_succ h.dirty⟩
      · simp [appendQueueJsonl, h.jsonl]
      · simp [appendQueueJsonl, hitsOf_append, h.hits]
      · simpa [appendQueueJsonl] using h.length
    · refine .inr ⟨n, snap, old, new ++ [{ id := s.nextId, hit, queueReason := reason }], h.db, ?_,
        h.hits, ?_, Nat.succ_le_succ h.dirty⟩
      · simp [appendQueueJsonl, h.pending]
      · simpa using h.length

/-- **Every operation keeps RAM, snapshot and log related.** -/
theorem exec_durable {s : BlockStore} {k : Nat} (h : Durable s k) (op : Op) :
    ∃ k' ≤ k + (if op.adds then 1 else 0), Durable (s.exec op) k' := by
  have hsave : ∀ (t : BlockStore) (m : Nat), ∃ k' ≤ m, Durable t.saveDb k' := fun t m ↦
    ⟨0, Nat.zero_le m, durable_saveDb t⟩
  obtain ⟨hmark, -, -⟩ := exec_sameKeys s
  cases op with
  | enqueue now hit reason => exact durable_enqueue h now hit reason
  | recordRejection now hit st body src =>
      have hlog : Durable (s.logRejection now hit st body src) k :=
        h.of_sameKeys (.refl _) rfl rfl (le_refl _)
      exact durable_enqueue hlog now hit _
  | markSubmitted id => exact hsave _ _
  | markSubmittedMany ids =>
      change ∃ k' ≤ k, Durable (s.markSubmittedMany ids) k'
      unfold markSubmittedMany
      split
      · exact ⟨k, le_refl k, h⟩
      · exact hsave _ _
  | markPendingReason id reason =>
      refine durable_maybeSave (h.of_sameKeys ?_ rfl rfl (Nat.le_succ _))
      simpa [markPendingReason] using hmark id reason
  | markForwardedMany ids =>
      change ∃ k' ≤ k, Durable (s.markForwardedMany ids) k'
      unfold markForwardedMany
      split
      · exact ⟨k, le_refl k, h⟩
      · exact hsave _ _
  | dropByHash hashes =>
      change ∃ k' ≤ k, Durable (s.dropByHash hashes).2 k'
      simp only [dropByHash]
      split
      · exact ⟨k, le_refl k, h⟩
      · split
        · next hgone =>
          -- no row was dropped, so the bag is as it was
          have hall : s.pending.filter (fun pb ↦ decide (pb.hit.hashStr ∉
              hashes.filter fun h ↦ decide (h ≠ ""))) = s.pending := by
            rw [List.filter_eq_self]
            intro pb hpb
            rw [List.filter_eq_nil_iff] at hgone
            by_cases he : pb.hit.hashStr = ""
            · simp [he]
            · simpa [he] using hgone pb hpb
          refine ⟨k, le_refl k, h.of_sameKeys ?_ rfl rfl (le_refl _)⟩
          simp only [hall]
          exact .refl _
        · exact hsave _ _
  | flush =>
      change ∃ k' ≤ k, Durable s.flush k'
      unfold flush
      split
      · exact hsave _ _
      · exact ⟨k, le_refl k, h⟩
  | deferAllToNextStart minute => exact hsave _ _

/-- Dirty operations never pile up to eight. -/
theorem exec_dirtyOps_lt {s : BlockStore} (h : s.dirtyOps < kSaveEveryOps) (op : Op) :
    (s.exec op).dirtyOps < kSaveEveryOps := by
  have h0 : 0 < kSaveEveryOps := by decide
  have henq : ∀ (s : BlockStore) now hit reason, s.dirtyOps < kSaveEveryOps →
      (s.enqueue now hit reason).2.dirtyOps < kSaveEveryOps := by
    intro s now hit reason h
    unfold enqueue
    split
    · exact h
    · exact maybeSave_dirtyOps_lt _
  cases op with
  | enqueue now hit reason => exact henq s now hit reason h
  | recordRejection now hit st body src =>
      exact henq (s.logRejection now hit st body src) now hit _ h
  | markSubmitted id => exact h0
  | markSubmittedMany ids => simp only [exec, markSubmittedMany]; split <;> simp [h, h0]
  | markPendingReason id reason => exact maybeSave_dirtyOps_lt _
  | markForwardedMany ids => simp only [exec, markForwardedMany]; split <;> simp [h, h0]
  | dropByHash hashes =>
      simp only [exec, dropByHash]
      split
      · exact h
      · split <;> simp [h, h0]
  | flush => simp only [exec, flush]; split <;> simp [h, h0]
  | deferAllToNextStart minute => exact h0

/-! ## What a restart brings back -/

/-- The store has this hit, as it reads back from a file. -/
def Has (s : BlockStore) (hit : BlockHit) : Prop := ∃ pb ∈ s.pending, pb.hit = hit.reread

/-- Rows whose hits are rereads of hits with distinct digests have distinct digests. -/
theorem hashesOf_of_hits {l l' : List PendingBlock}
    (h : l'.map (·.hit) = l.map (·.hit.reread)) : hashesOf l' = hashesOf l := by
  have : l'.map (·.hit.hashStr) = l.map (·.hit.hashStr) := by
    simpa [List.map_map, Function.comp_def] using congrArg (List.map BlockHit.hashStr) h
  rw [hashesOf, hashesOf, this]

/-- Restart with no snapshot on disk: the log gives every row that has a digest. -/
theorem restart_of_logged {s : BlockStore} {hist : List (String × PendingBlock)} {k : Nat}
    (h : Logged s hist k) (hh : HashInv s) :
    ∃ s', load s.files = some s' ∧
      s'.pending.map (·.hit) = (hitsOf s.pending).map BlockHit.reread ∧
      HashInv s' ∧ s'.dirtyOps = 0 ∧ Durable s' 0 := by
  have hnd : (hashesOf (([] : List PendingBlock) ++ hist.map Prod.snd)).Nodup := by
    rw [List.nil_append, hashesOf_eq_map_hitsOf, h.hits, ← hashesOf_eq_map_hitsOf]
    exact hh.nodup
  obtain ⟨s', added', hl, hp, hi, -, ha, hd, hf⟩ := recoverLines_queueRecord hist
    ({ files := s.files } : BlockStore) false (by simp [hashesOf]) hnd
  rw [h.hits] at hp ha
  simp only [List.map_nil, List.nil_append] at hp
  have hinv : HashInv s' := by
    refine ⟨?_, hi⟩
    have : (s'.pending.map (·.hit.hashStr)) = (hitsOf s.pending).map (·.hashStr) := by
      simpa [List.map_map, Function.comp_def] using congrArg (List.map BlockHit.hashStr) hp
    rw [hashesOf, this, ← hashesOf_eq_map_hitsOf]
    exact hh.nodup.filter _
  have hjsonl := h.jsonl
  cases hlog : s.files.jsonl with
  | none =>
      have hnil : hist = [] := by simpa [hlog] using hjsonl.symm
      have hnone : hitsOf s.pending = [] := by rw [← h.hits, hnil]; rfl
      exact ⟨{ files := s.files }, by simp [load, h.db, recoverJsonl, hlog], by simp [hnone],
        ⟨by simp [hashesOf], by simp [hashesOf]⟩, rfl,
        .inl ⟨[], h.db, by simp [hlog], rfl, le_refl _, le_refl _⟩⟩
  | some lines =>
      have hlines : lines = hist.map fun p ↦ some (queueRecord p.1 p.2) := by
        simpa [hlog] using hjsonl
      have hload : load s.files = some (if added' then s'.saveDb else s') := by
        simp [load, h.db, recoverJsonl, hlog, hlines, hl]
      cases hadd : added' with
      | true =>
          refine ⟨s'.saveDb, by simpa [hadd] using hload, by simpa using hp, ?_, rfl,
            durable_saveDb s'⟩
          exact hinv.of_sameKeys (.refl _) rfl
      | false =>
          have hempty := ha hadd
          have hpend : s'.pending = [] := by simpa [hempty] using hp
          refine ⟨s', by simpa [hadd] using hload, hp, hinv, hd,
            .inl ⟨hist, by rw [hf, h.db], by rw [hf, h.jsonl], ?_, ?_, Nat.zero_le _⟩⟩
          · rw [h.hits, hempty, hpend]
            rfl
          · simp [hpend]

/-- Restart with a snapshot on disk: its rows come back, and the log is not read. -/
theorem restart_of_saved {s : BlockStore} {n : Int} {snap old new : List PendingBlock} {k : Nat}
    (h : Saved s n snap old new k) (hh : HashInv s) :
    ∃ s', load s.files = some s' ∧ s'.pending.map (·.hit) = old.map (·.hit.reread) ∧
      HashInv s' ∧ s'.dirtyOps = 0 ∧ Durable s' 0 := by
  obtain ⟨s', hl, hp, hi, hd, hf⟩ := load_dbJson h.db
  have hhits : s'.pending.map (·.hit) = old.map (·.hit.reread) := by
    rw [h.hits, hp]
    simp [PendingBlock.reread, Function.comp_def]
  refine ⟨s', hl, hhits, ⟨?_, hi⟩, hd, .inr ⟨n, snap, s'.pending, [], by rw [hf, h.db], by simp, ?_,
    le_refl _, Nat.zero_le _⟩⟩
  · rw [hashesOf_of_hits hhits]
    have hnd := hh.nodup
    rw [h.pending, hashesOf_append] at hnd
    exact (List.nodup_append.mp hnd).1
  · rw [hp]
    simp [PendingBlock.reread, Function.comp_def]

/-- The state of a run: digests distinct, disk and RAM related, fewer than eight dirty
operations. -/
structure RunInv (s : BlockStore) (k : Nat) : Prop where
  hash : HashInv s
  durable : Durable s k
  dirty : s.dirtyOps < kSaveEveryOps

/-- A step of a run adds at most one row that is not in the snapshot. -/
theorem RunInv.step {s t : BlockStore} {a : Act} {k : Nat} (h : RunInv s k) (hs : Step s a t) :
    ∃ k' ≤ k + (if a.adds then 1 else 0), RunInv t k' := by
  cases a with
  | op o =>
      obtain rfl := hs
      obtain ⟨k', hk, hd⟩ := exec_durable h.durable o
      exact ⟨k', hk, exec_hashInv h.hash o, hd, exec_dirtyOps_lt h.dirty o⟩
  | restart =>
      have hrestart : ∃ s', load s.files = some s' ∧ HashInv s' ∧ s'.dirtyOps = 0 ∧
          Durable s' 0 := by
        rcases h.durable with ⟨hist, hl⟩ | ⟨n, snap, old, new, hs⟩
        · obtain ⟨s', hload, -, hrest⟩ := restart_of_logged hl h.hash
          exact ⟨s', hload, hrest⟩
        · obtain ⟨s', hload, -, hrest⟩ := restart_of_saved hs h.hash
          exact ⟨s', hload, hrest⟩
      obtain ⟨s', hload, hinv, hzero, hdur⟩ := hrestart
      obtain rfl : s' = t := Option.some.inj (hload.symm.trans hs)
      exact ⟨0, Nat.zero_le _, hinv, hdur, by rw [hzero]; decide⟩

/-- A run adds at most as many rows that are not in the snapshot as it has adding actions. -/
theorem RunInv.run {s t : BlockStore} {as : List Act} {k : Nat} (h : RunInv s k)
    (hr : Run Step s as t) : ∃ k' ≤ k + as.countP Act.adds, RunInv t k' := by
  induction hr generalizing k with
  | nil s => exact ⟨k, by simp, h⟩
  | cons hs _ ih =>
      obtain ⟨k₁, hk₁, h₁⟩ := h.step hs
      obtain ⟨k₂, hk₂, h₂⟩ := ih h₁
      refine ⟨k₂, ?_, h₂⟩
      rw [List.countP_cons]
      omega

/-- A fresh store. -/
theorem runInv_empty : RunInv {} 0 where
  hash := ⟨by simp [hashesOf], by simp [hashesOf]⟩
  durable := .inl ⟨[], rfl, rfl, rfl, le_refl _, le_refl _⟩
  dirty := by decide

/-- **What a restart brings back**, after any run with kills and restarts in it.  `s₁` is any
moment of the run with no dirty operation, `s₂` the moment of the kill.  The bag in RAM is the
rows that come back followed by rows that may not: no more of them than enqueues since `s₁`,
and no more than there are dirty operations, of which there are fewer than eight.  With no
`blocks.db` yet, every row that has a digest comes back. -/
theorem restart_brings_back {as bs : List Act} {s₁ s₂ : BlockStore} (h₁ : Run Step {} as s₁)
    (hclean : s₁.dirtyOps = 0) (h₂ : Run Step s₁ bs s₂) :
    s₂.dirtyOps < kSaveEveryOps ∧ ∃ s' kept lost, load s₂.files = some s' ∧
      s₂.pending = kept ++ lost ∧ (∀ pb ∈ kept, s'.Has pb.hit) ∧
      lost.length ≤ bs.countP Act.adds ∧ lost.length ≤ s₂.dirtyOps ∧
      (s₂.files.db = none → ∀ pb ∈ s₂.pending, pb.hit.hashStr ≠ "" → s'.Has pb.hit) := by
  obtain ⟨k₁, -, hinv₁⟩ := runInv_empty.run h₁
  have hinv₀ : RunInv s₁ 0 := by
    have hk₁ : k₁ ≤ s₁.dirtyOps := by
      rcases hinv₁.durable with ⟨_, h⟩ | ⟨_, _, _, _, h⟩ <;> exact h.dirty
    obtain rfl : k₁ = 0 := by omega
    exact hinv₁
  obtain ⟨k, hk, hinv⟩ := hinv₀.run h₂
  rw [Nat.zero_add] at hk
  refine ⟨hinv.dirty, ?_⟩
  rcases hinv.durable with ⟨hist, h⟩ | ⟨n, snap, old, new, h⟩
  · obtain ⟨s', hload, hhits, -⟩ := restart_of_logged h hinv.hash
    have hall : ∀ pb ∈ s₂.pending, pb.hit.hashStr ≠ "" → s'.Has pb.hit := by
      intro pb hpb hne
      have hmem : pb.hit.reread ∈ s'.pending.map (·.hit) := by
        rw [hhits]
        refine List.mem_map_of_mem (List.mem_filter.mpr ⟨List.mem_map_of_mem hpb, ?_⟩)
        simpa using hne
      obtain ⟨pb', hpb', he⟩ := List.mem_map.mp hmem
      exact ⟨pb', hpb', he⟩
    exact ⟨s', [], s₂.pending, hload, rfl, by simp, h.length.trans hk, h.length.trans h.dirty,
      fun _ ↦ hall⟩
  · obtain ⟨s', hload, hhits, -⟩ := restart_of_saved h hinv.hash
    refine ⟨s', old, new, hload, h.pending, fun pb hpb ↦ ?_, h.length.trans hk,
      h.length.trans h.dirty, fun hdb ↦ ?_⟩
    · have hmem : pb.hit.reread ∈ s'.pending.map (·.hit) := by
        rw [hhits]
        exact List.mem_map.mpr ⟨pb, hpb, rfl⟩
      obtain ⟨pb', hpb', he⟩ := List.mem_map.mp hmem
      exact ⟨pb', hpb', he⟩
    · rw [h.db] at hdb
      exact absurd hdb (by simp)

/-- The rows that may not come back do not: a row enqueued after a snapshot, when the process
is killed before the next one, is in RAM and in the log but not in the restarted store. -/
theorem restart_forgets_unsaved_row :
    ¬ ∀ (as : List Act) (s s' : BlockStore), Run Step {} as s → load s.files = some s' →
      ∀ pb ∈ s.pending, ∃ pb' ∈ s'.pending, pb'.hit.hashStr = pb.hit.hashStr := by
  intro hall
  let s₁ := ({} : BlockStore).exec (.enqueue "t₀" { hashStr := "a" } "queued")
  let s₂ := s₁.exec .flush
  let s₃ := s₂.exec (.enqueue "t₁" { hashStr := "b" } "queued")
  have hrun : Run Step {} [.op (.enqueue "t₀" { hashStr := "a" } "queued"), .op .flush,
      .op (.enqueue "t₁" { hashStr := "b" } "queued")] s₃ :=
    .cons rfl (.cons rfl (.single rfl))
  have hdb : s₃.files.db = some (some (dbJson 2
      [{ id := 1, hit := { hashStr := "a" }, queueReason := "queued" }])) := rfl
  obtain ⟨s', hload, hp, -⟩ := load_dbJson hdb
  obtain ⟨pb', hpb', he⟩ := hall _ s₃ s' hrun hload
    { id := 2, hit := { hashStr := "b" }, queueReason := "queued" } (by decide)
  rw [hp] at hpb'
  obtain rfl := List.mem_singleton.mp hpb'
  exact absurd he (by decide)

/-- One row saved by a flush, then one that is not: `kept` has the first. -/
theorem restart_brings_back_flushed :
    let s₁ := (({} : BlockStore).exec (.enqueue "t₀" { hashStr := "a" } "queued")).exec .flush
    let s₂ := s₁.exec (.enqueue "t₁" { hashStr := "b" } "queued")
    ∃ s' kept lost, load s₂.files = some s' ∧ s₂.pending = kept ++ lost ∧ lost.length ≤ 1 ∧
      ∀ pb ∈ kept, s'.Has pb.hit := by
  intro s₁ s₂
  have h₁ : Run Step {} [.op (.enqueue "t₀" { hashStr := "a" } "queued"), .op .flush] s₁ :=
    .cons rfl (.single rfl)
  have h₂ : Run Step s₁ [.op (.enqueue "t₁" { hashStr := "b" } "queued")] s₂ := .single rfl
  obtain ⟨-, s', kept, lost, hload, hp, hkept, hcount, -, -⟩ := restart_brings_back h₁ rfl h₂
  exact ⟨s', kept, lost, hload, hp, hcount, hkept⟩

end BlockStore

end XNMiner
