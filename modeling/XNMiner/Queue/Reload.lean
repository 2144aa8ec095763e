import XNMiner.Queue.Durability
import XNMiner.Queue.Growth

/-!
# Ids through restarts

Rows are removed by id, so a caller that removes a row relies on no other row having its id.
Within one process `IdInv` says so.  A restart reads ids from `blocks.db`, where they are cast to
64 bits, or gives new ones to the lines of `queue.jsonl` whose id is taken.  Both keep ids
distinct, in every run in which `next_id_` has not overflowed.
-/

namespace XNMiner

open Lib

namespace BlockStore

/-- `next_id_` has not overflowed. -/
def Fits (s : BlockStore) : Prop := s.nextId < 2 ^ 63

instance (s : BlockStore) : Decidable s.Fits := inferInstanceAs (Decidable (s.nextId < 2 ^ 63))

/-- Ids are distinct, below the next one, and not below what 64 bits can hold. -/
structure Numbered (s : BlockStore) : Prop extends IdInv s where
  low : ∀ pb ∈ s.pending, -2 ^ 63 ≤ pb.id
  next : -2 ^ 63 ≤ s.nextId

/-- The same holds of the ids in the snapshot. -/
structure Filed (s : BlockStore) : Prop extends Numbered s where
  db : s.files.db = none ∨ ∃ n snap, s.files.db = some (some (dbJson n snap)) ∧
    (snap.map fun pb ↦ wrap 64 pb.id).Nodup

theorem filed_empty : Filed {} :=
  ⟨⟨⟨by simp, by simp⟩, by simp, by norm_num⟩, .inl rfl⟩

/-- Ids that fit survive the cast. -/
theorem Numbered.nodup_wrap {s : BlockStore} (h : Numbered s) (hfit : Fits s) :
    (s.pending.map fun pb ↦ wrap 64 pb.id).Nodup := by
  have hself : s.pending.map (fun pb ↦ wrap 64 pb.id) = s.pending.map (·.id) :=
    List.map_congr_left fun pb hpb ↦
      wrap_of_fits (by omega) (h.low pb hpb) ((h.lt pb hpb).trans hfit)
  rw [hself]
  exact h.nodup

/-! ## Operations -/

theorem grows_dropByHash (s : BlockStore) (hashes : List String) :
    Grows s (s.dropByHash hashes).2 where
  nextId := by
    simp only [dropByHash]
    split
    · exact le_refl _
    · split <;> exact le_refl _
  old := by
    intro pb hpb _
    have hmem : pb ∈ s.pending := by
      simp only [dropByHash] at hpb
      split at hpb
      · exact hpb
      · split at hpb <;> exact List.mem_of_mem_filter hpb
    exact ⟨pb, hmem, rfl, rfl⟩

theorem sameRows_markForwardedMany (s : BlockStore) (ids : List Int) :
    SameRows s (s.markForwardedMany ids) := by
  refine ⟨(exec_sameKeys s).2.1 ids, ?_, ?_⟩ <;>
  · unfold markForwardedMany
    split <;> rfl

/-- No operation gives an id twice. -/
theorem exec_grows (s : BlockStore) (op : Op) : Grows s (s.exec op) := by
  cases op with
  | enqueue now hit reason => exact (kept_enqueue s now hit reason).toGrows
  | recordRejection now hit st body src =>
      exact (kept_recordRejection s now hit st body src).toGrows
  | markSubmitted id => exact grows_markSubmittedMany s [id]
  | markSubmittedMany ids => exact grows_markSubmittedMany s ids
  | markPendingReason id reason => exact (sameRows_markPendingReason s id reason).kept.toGrows
  | markForwardedMany ids => exact (sameRows_markForwardedMany s ids).kept.toGrows
  | dropByHash hashes => exact grows_dropByHash s hashes
  | flush => exact (sameRows_flush s).kept.toGrows
  | deferAllToNextStart minute => exact (sameRows_deferAllToNextStart s minute).kept.toGrows

/-- The snapshot is the old one, or that of the state after. -/
def Snapped (db : Option (Option Json)) (t : BlockStore) : Prop :=
  t.files.db = db ∨ t.files.db = some (some (dbJson t.nextId t.pending))

theorem snapped_maybeSave {db : Option (Option Json)} {s : BlockStore} (h : s.files.db = db) :
    Snapped db s.maybeSave := by
  unfold maybeSave
  split
  · exact .inr rfl
  · exact .inl h

theorem snapped_enqueue (s : BlockStore) (now : String) (hit : BlockHit) (reason : String) :
    Snapped s.files.db (s.enqueue now hit reason).2 := by
  unfold enqueue
  split
  · exact .inl rfl
  · exact snapped_maybeSave rfl

/-- **Every operation leaves the snapshot alone or takes a new one.** -/
theorem exec_snapped (s : BlockStore) (op : Op) : Snapped s.files.db (s.exec op) := by
  have hmany (ids : List Int) : Snapped s.files.db (s.markSubmittedMany ids) := by
    unfold markSubmittedMany
    split
    · exact .inl rfl
    · exact .inr rfl
  cases op with
  | enqueue now hit reason => exact snapped_enqueue s now hit reason
  | recordRejection now hit st body src => exact snapped_enqueue (s.logRejection ..) now hit _
  | markSubmitted id => exact hmany [id]
  | markSubmittedMany ids => exact hmany ids
  | markPendingReason id reason => exact snapped_maybeSave rfl
  | markForwardedMany ids =>
      simp only [exec, markForwardedMany]
      split
      · exact .inl rfl
      · exact .inr rfl
  | dropByHash hashes =>
      simp only [exec, dropByHash]
      split
      · exact .inl rfl
      · split
        · exact .inl rfl
        · exact .inr rfl
  | flush =>
      simp only [exec, flush]
      split
      · exact .inr rfl
      · exact .inl rfl
  | deferAllToNextStart minute => exact .inr rfl

theorem Numbered.exec {s : BlockStore} (h : Numbered s) (op : Op) : Numbered (s.exec op) := by
  have hgrows := exec_grows s op
  refine ⟨exec_idInv h.toIdInv op, fun pb hpb ↦ ?_, h.next.trans hgrows.nextId⟩
  by_cases hlt : pb.id < s.nextId
  · obtain ⟨pb₀, hpb₀, hid, -⟩ := hgrows.old pb hpb hlt
    rw [← hid]
    exact h.low pb₀ hpb₀
  · exact h.next.trans (not_lt.mp hlt)

theorem Filed.exec {s : BlockStore} (h : Filed s) (op : Op) (hfit : Fits (s.exec op)) :
    Filed (s.exec op) := by
  have hnum := h.toNumbered.exec op
  refine ⟨hnum, ?_⟩
  rcases exec_snapped s op with hdb | hdb
  · rw [hdb]
    exact h.db
  · exact .inr ⟨_, _, hdb, hnum.nodup_wrap hfit⟩

/-! ## Restarts -/

theorem Numbered.addRow {s : BlockStore} (h : Numbered s) {pb : PendingBlock}
    (hnew : pb.id ∉ s.pending.map (·.id)) (hlow : -2 ^ 63 ≤ pb.id) : Numbered (s.addRow pb) where
  nodup := by
    rw [BlockStore.addRow, List.map_append, List.nodup_append]
    refine ⟨h.nodup, List.nodup_singleton _, fun a ha b hb hab ↦ hnew ?_⟩
    rw [List.map_singleton, List.mem_singleton] at hb
    exact hb ▸ hab ▸ ha
  lt := by
    intro row hrow
    rcases List.mem_append.mp hrow with hrow | hrow
    · exact (h.lt row hrow).trans_le (le_max_left _ _)
    · rw [List.mem_singleton.mp hrow]
      exact (Int.lt_succ pb.id).trans_le (le_max_right _ _)
  low := by
    intro row hrow
    rcases List.mem_append.mp hrow with hrow | hrow
    · exact h.low row hrow
    · rwa [List.mem_singleton.mp hrow]
  next := h.next.trans (le_max_left _ _)

/-- The id a recovered row is given is new. -/
theorem Numbered.recoverId {s : BlockStore} (h : Numbered s) (id : Int) :
    s.recoverId id ∉ s.pending.map (·.id) ∧ -2 ^ 63 ≤ s.recoverId id := by
  have hnext : s.nextId ∉ s.pending.map (·.id) := by
    rintro hmem
    obtain ⟨pb, hpb, hid⟩ := List.mem_map.mp hmem
    exact absurd (h.lt pb hpb) (by omega)
  unfold BlockStore.recoverId
  split
  · exact ⟨hnext, h.next⟩
  · split
    · exact ⟨hnext, h.next⟩
    · next hpos hfree =>
      refine ⟨fun hmem ↦ hfree ?_, by omega⟩
      obtain ⟨pb, hpb, hid⟩ := List.mem_map.mp hmem
      exact ⟨pb, hpb, hid⟩

/-- Whatever the lines of the log, the ids that come back are distinct. -/
theorem Numbered.recoverLines {s : BlockStore} (h : Numbered s) (lines : List (Option Json))
    (added : Bool) : Numbered (recoverLines lines s added).1 ∧
      (BlockStore.recoverLines lines s added).1.files = s.files := by
  induction lines generalizing s added with
  | nil => exact ⟨h, rfl⟩
  | cons line rest ih =>
      cases line with
      | none => exact ih h added
      | some rec =>
          unfold BlockStore.recoverLines
          split
          · exact ih h added
          · split
            · exact ⟨h, rfl⟩
            · split
              · exact ih h added
              · split
                · exact ⟨h, rfl⟩
                · next pb _ => exact ih (h.addRow (h.recoverId pb.id).1 (h.recoverId pb.id).2) true

/-- The ids of a snapshot come back. -/
theorem Numbered.loadRows {s : BlockStore} (h : Numbered s) (rows : List PendingBlock)
    (hnd : (s.pending.map (·.id) ++ rows.map fun pb ↦ wrap 64 pb.id).Nodup) :
    Numbered (loadRows (rows.map fun pb ↦ .obj (rowMembers pb)) s).1 := by
  induction rows generalizing s with
  | nil => exact h
  | cons pb rows ih =>
      have hnext : Numbered { s with nextId := s.nextId + 1 } :=
        ⟨⟨h.nodup, fun row hrow ↦ (h.lt row hrow).trans (Int.lt_succ _)⟩, h.low,
          h.next.trans (Int.le_of_lt (Int.lt_succ _))⟩
      have hnew : pb.reread.id ∉ s.pending.map (·.id) := fun hmem ↦
        (List.nodup_append.mp hnd).2.2 _ hmem _ List.mem_cons_self rfl
      have hlow : -2 ^ 63 ≤ pb.reread.id := by
        have := @Int.le_bmod pb.id (2 ^ 64) (by norm_num)
        change -2 ^ 63 ≤ pb.id.bmod (2 ^ 64)
        omega
      have hrest := ih (hnext.addRow hnew hlow)
        (by simpa [BlockStore.addRow, PendingBlock.reread] using hnd)
      simpa [BlockStore.loadRows, parseRow_rowMembers] using hrest

/-- **A restart keeps ids distinct.** -/
theorem Filed.restart {s t : BlockStore} (h : Filed s) (hload : load s.files = some t)
    (hfit : Fits t) : Filed t := by
  have hfresh (n : Int) (hn : -2 ^ 63 ≤ n) : Numbered { files := s.files, nextId := n } :=
    ⟨⟨by simp, by simp⟩, by simp, hn⟩
  rcases h.db with hdb | ⟨n, snap, hdb, hnd⟩
  · -- the log is read
    have hnum := hfresh 1 (by norm_num)
    cases hlog : s.files.jsonl with
    | none =>
        have ht : t = { files := s.files } := by
          simpa [load, hdb, recoverJsonl, hlog] using hload.symm
        rw [ht]
        exact ⟨hnum, .inl hdb⟩
    | some lines =>
        obtain ⟨hnum', hfiles⟩ := hnum.recoverLines lines false
        rcases hrec : BlockStore.recoverLines lines { files := s.files } false with ⟨s', added, ok⟩
        rw [hrec] at hnum' hfiles
        cases ok with
        | false => simp [load, hdb, recoverJsonl, hlog, hrec] at hload
        | true =>
            have ht : (if added = true then s'.saveDb else s') = t := by
              simpa [load, hdb, recoverJsonl, hlog, hrec] using hload
            cases added with
            | false =>
                simp only [Bool.false_eq_true, if_false] at ht
                rw [← ht]
                exact ⟨hnum', .inl (by rw [hfiles]; exact hdb)⟩
            | true =>
                simp only [if_true] at ht
                rw [← ht] at hfit ⊢
                exact ⟨⟨⟨hnum'.nodup, hnum'.lt⟩, hnum'.low, hnum'.next⟩,
                  .inr ⟨_, _, rfl, hnum'.nodup_wrap hfit⟩⟩
  · -- the snapshot is read
    have hlow : -2 ^ 63 ≤ wrap 32 n := by
      have := @Int.le_bmod n (2 ^ 32) (by norm_num)
      change -2 ^ 63 ≤ n.bmod (2 ^ 32)
      omega
    have hnum := (hfresh (wrap 32 n) hlow).loadRows snap (by simpa using hnd)
    obtain ⟨s', hl, hfiles⟩ : ∃ s', loadRows (snap.map fun pb ↦ .obj (rowMembers pb))
        { files := s.files, nextId := wrap 32 n } = (s', true) ∧ s'.files = s.files := by
      obtain ⟨s', hl, -, -, -, hf⟩ := loadRows_rowMembers snap
        ({ files := s.files, nextId := wrap 32 n } : BlockStore) (by simp [hashesOf])
      exact ⟨s', hl, hf⟩
    have ht : s' = t := by
      have hs : loadSnapshot (dbJson n snap) { files := s.files } = (s', true) := by
        simpa [loadSnapshot, dbJson, Json.value, Json.find?, List.lookup_cons, Json.toInt32,
          Json.items?] using hl
      simpa [load, hdb, hs] using hload
    rw [hl] at hnum
    rw [← ht]
    exact ⟨hnum, .inr ⟨n, snap, by rw [hfiles, hdb], hnd⟩⟩

/-- A step that leaves `next_id_` in its range. -/
def FitStep (s : BlockStore) (a : Act) (t : BlockStore) : Prop := Step s a t ∧ Fits t

/-- What operations, kills and restarts make of no files at all. -/
def Reachable (s : BlockStore) : Prop := ∃ as, Run FitStep {} as s

/-- **In every reachable store digests are distinct, and so are ids.** -/
theorem Reachable.inv {s : BlockStore} (h : Reachable s) : HashInv s ∧ IdInv s := by
  obtain ⟨as, hr⟩ := h
  have hfiled : Filed s := by
    refine hr.preserves (fun s a t hs hstep ↦ ?_) filed_empty
    cases a with
    | op o =>
        obtain ⟨rfl, hfit⟩ := hstep
        exact hs.exec o hfit
    | restart => exact hs.restart hstep.1 hstep.2
  have hrun : ∀ {s t : BlockStore} {as : List Act}, Run FitStep s as t → Run Step s as t := by
    intro s t as hr
    induction hr with
    | nil => exact .nil _
    | cons hs _ ih => exact .cons hs.1 ih
  obtain ⟨k, -, hinv⟩ := runInv_empty.run (hrun hr)
  exact ⟨hinv.hash, hfiled.toIdInv⟩

/-! ## Where the hits of a bag come from -/

/-- The hit an operation may add. -/
def Op.hit? : Op → Option BlockHit
  | .enqueue _ hit _ | .recordRejection _ hit .. => some hit
  | _ => none

def Act.hit? : Act → Option BlockHit
  | .op o => o.hit?
  | .restart => none

theorem hits_enqueue (s : BlockStore) (now : String) (hit : BlockHit) (reason : String) :
    ∀ pb ∈ (s.enqueue now hit reason).2.pending, (∃ pb₀ ∈ s.pending, pb₀.hit = pb.hit) ∨
      hit = pb.hit := by
  intro pb hpb
  rcases s.enqueue_cases now hit reason with ⟨-, -, h⟩ | ⟨hpending, -⟩
  · exact .inl ⟨pb, h ▸ hpb, rfl⟩
  · rw [hpending, List.mem_append, List.mem_singleton] at hpb
    rcases hpb with hpb | rfl
    · exact .inl ⟨pb, hpb, rfl⟩
    · exact .inr rfl

/-- **A row has the hit of an old row, or the one the operation adds.** -/
theorem exec_hits (s : BlockStore) (op : Op) : ∀ pb ∈ (s.exec op).pending,
    (∃ pb₀ ∈ s.pending, pb₀.hit = pb.hit) ∨ op.hit? = some pb.hit := by
  have hsame {t : BlockStore} (h : SameRows s t) :
      ∀ pb ∈ t.pending, (∃ pb₀ ∈ s.pending, pb₀.hit = pb.hit) ∨ op.hit? = some pb.hit := by
    intro pb hpb
    obtain ⟨pb₀, hpb₀, -, hhit⟩ := h.keys.exists_mem hpb
    exact .inl ⟨pb₀, hpb₀, hhit⟩
  have hmany (ids : List Int) : ∀ pb ∈ (s.markSubmittedMany ids).pending,
      (∃ pb₀ ∈ s.pending, pb₀.hit = pb.hit) ∨ op.hit? = some pb.hit := by
    intro pb hpb
    rw [markSubmittedMany_pending] at hpb
    exact .inl ⟨pb, List.mem_of_mem_filter hpb, rfl⟩
  cases op with
  | enqueue now hit reason =>
      intro pb hpb
      exact (hits_enqueue s now hit reason pb hpb).imp id (congrArg some)
  | recordRejection now hit st body src =>
      intro pb hpb
      exact (hits_enqueue (s.logRejection now hit st body src) now hit _ pb hpb).imp id
        (congrArg some)
  | markSubmitted id => exact hmany [id]
  | markSubmittedMany ids => exact hmany ids
  | markPendingReason id reason => exact hsame (sameRows_markPendingReason s id reason)
  | markForwardedMany ids => exact hsame (sameRows_markForwardedMany s ids)
  | dropByHash hashes =>
      intro pb hpb
      simp only [exec, dropByHash] at hpb
      split at hpb
      · exact .inl ⟨pb, hpb, rfl⟩
      · split at hpb <;> exact .inl ⟨pb, List.mem_of_mem_filter hpb, rfl⟩
  | flush => exact hsame (sameRows_flush s)
  | deferAllToNextStart minute => exact hsame (sameRows_deferAllToNextStart s minute)

/-- A row that came back is a row there was, reread. -/
theorem restart_hits {s t : BlockStore} {k : Nat} (h : RunInv s k) (hload : load s.files = some t) :
    ∀ pb ∈ t.pending, ∃ pb₀ ∈ s.pending, pb₀.hit.reread = pb.hit := by
  intro pb hpb
  have hmem : pb.hit ∈ t.pending.map (·.hit) := List.mem_map_of_mem hpb
  rcases h.durable with ⟨hist, hl⟩ | ⟨n, snap, old, new, hs⟩
  · obtain ⟨s', hload', hhits, -⟩ := restart_of_logged hl h.hash
    obtain rfl : s' = t := Option.some.inj (hload'.symm.trans hload)
    rw [hhits] at hmem
    obtain ⟨hit, hhit, heq⟩ := List.mem_map.mp hmem
    obtain ⟨pb₀, hpb₀, rfl⟩ := List.mem_map.mp (List.mem_of_mem_filter hhit)
    exact ⟨pb₀, hpb₀, heq⟩
  · obtain ⟨s', hload', hhits, -⟩ := restart_of_saved hs h.hash
    obtain rfl : s' = t := Option.some.inj (hload'.symm.trans hload)
    rw [hhits] at hmem
    obtain ⟨pb₀, hpb₀, heq⟩ := List.mem_map.mp hmem
    exact ⟨pb₀, hs.pending ▸ List.mem_append_left _ hpb₀, heq⟩

/-- **What all hits put into a bag have in common, all its rows have**, if rereading a hit does
not lose it. -/
theorem hits_of_run {P : BlockHit → Prop} (hreread : ∀ hit, P hit → P hit.reread)
    {as : List Act} {t : BlockStore} (hr : Run Step {} as t)
    (has : ∀ a ∈ as, ∀ hit ∈ a.hit?, P hit) : ∀ pb ∈ t.pending, P pb.hit := by
  have hrun : ∀ {s t : BlockStore} {as : List Act} {k : Nat}, Run Step s as t → RunInv s k →
      (∀ a ∈ as, ∀ hit ∈ a.hit?, P hit) → (∀ pb ∈ s.pending, P pb.hit) →
      ∀ pb ∈ t.pending, P pb.hit := by
    intro s t as k hr
    induction hr generalizing k with
    | nil => exact fun _ _ h ↦ h
    | @cons s s₁ t a as hstep _ ih =>
        intro hinv has hs
        obtain ⟨k', -, hinv'⟩ := hinv.step hstep
        refine ih hinv' (fun b hb ↦ has b (List.mem_cons_of_mem _ hb)) fun pb hpb ↦ ?_
        cases a with
        | op o =>
            obtain rfl := hstep
            rcases exec_hits s o pb hpb with ⟨pb₀, hpb₀, hhit⟩ | hhit
            · exact hhit ▸ hs pb₀ hpb₀
            · exact has _ List.mem_cons_self _ hhit
        | restart =>
            obtain ⟨pb₀, hpb₀, hhit⟩ := restart_hits hinv hstep pb hpb
            exact hhit ▸ hreread _ (hs pb₀ hpb₀)
  exact hrun hr runInv_empty has (by simp)

end BlockStore

end XNMiner
