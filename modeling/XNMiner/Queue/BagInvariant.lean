import XNMiner.Queue.Reload
import XNMiner.Queue.Saves

/-!
# What holds of the bag in every state

Ids are distinct and below the next one (`IdInv`), digests are distinct and the index is the set of
them (`HashInv`).  Here the two are carried through everything that can happen to a store: its
operations, saves that throw, and restarts after a kill at any point, with `blocks.db` as the store
left it or cut off, and with any lines whatsoever in `queue.jsonl`.

There is one step that breaks the index.  `enqueue` inserts the digest before it writes the line to
`queue.jsonl`, and the JSON library does not print a string that is not UTF-8 but throws.  The
digest then is in the index and in no row, and every later hit that has it is taken for a twin.

## Texts

A `String` is always UTF-8, so a hit with another text is not a value here.  What the source does
with it is a step of its own (`enqueueNotText`, `saveNotText`), and any string may stand for the
text.  `record_rejection` needs no such step: `log_rejection` prints the same hit first, and throws
before anything is changed.
-/

namespace XNMiner

open Lib

namespace BlockStore

/-! ## Steps -/

/-- `enqueue` of a hit that has a string that is not UTF-8, or with such a reason: `rec.dump()`
throws in `append_queue_jsonl`, when the log is open, the id is taken and the digest is indexed. -/
def enqueueNotText (s : BlockStore) (hit : BlockHit) : BlockStore :=
  if s.Bagged hit then s
  else
    { s with
      nextId := s.nextId + 1
      hashIndex := indexHash s.hashIndex hit.hashStr
      files := { s.files with jsonl := some (s.files.jsonl.getD []) } }

/-- An operation whose save throws, because a row has a reason that is not UTF-8: `blocks.db` is
open, and so empty, and the rest of the operation is done.  What is dirty stays dirty. -/
def saveNotText (s : BlockStore) (o : Op) : BlockStore :=
  let dirtyOps := match o with
    | .dropByHash _ | .flush => s.dirtyOps
    | _ => s.dirtyOps + 1
  let t := s.exec o
  { t with dirtyOps, files := { t.files with db := some none } }

/-- What can happen to a store. -/
inductive BagAct
  | op (o : Op)
  | enqueueNotText (hit : BlockHit)
  | saveNotText (o : Op)
  /-- The process is killed and the next store constructed.  If `torn`, the kill cut a save off,
  and what is left of it does not parse (`Torn.db`).  Appending may have been cut off as well, now
  or before, so of the log nothing is assumed. -/
  | restart (torn : Bool) (log : Option (List (Option Json)))

/-- One step, in which `next_id_` does not overflow. -/
def BagStep (s : BlockStore) : BagAct → BlockStore → Prop
  | .op o, t => t = s.exec o ∧ Fits t
  | .enqueueNotText hit, t => t = s.enqueueNotText hit ∧ Fits t
  | .saveNotText o, t => o.Saves s ∧ t = s.saveNotText o ∧ Fits t
  | .restart torn log, t =>
      load { s.files with db := if torn then some none else s.files.db, jsonl := log } = some t ∧
        Fits t

/-! ## The invariant -/

/-- A snapshot from which the invariants come back: there is none, it is cut off, or the rows in it
have distinct ids and digests. -/
def Restorable (db : Option (Option Json)) : Prop :=
  db = none ∨ db = some none ∨ ∃ n snap, db = some (some (dbJson n snap)) ∧
    (snap.map fun pb ↦ wrap 64 pb.id).Nodup ∧ (hashesOf snap).Nodup

/-- Ids and digests are as they should be. -/
structure Sound (s : BlockStore) : Prop extends Numbered s where
  hash : HashInv s

/-- They are so in RAM, and in the snapshot. -/
structure Sealed (s : BlockStore) : Prop extends Sound s where
  db : Restorable s.files.db

theorem sound_fresh (files : Files) {n : Int} (hn : -2 ^ 63 ≤ n) :
    Sound { files, nextId := n } where
  nodup := by simp
  lt := by simp
  low := by simp
  next := hn
  hash := ⟨by simp [hashesOf], by simp [hashesOf]⟩

theorem sealed_empty : Sealed {} := ⟨sound_fresh {} (by norm_num), .inl rfl⟩

/-- A snapshot of a sound store is restorable. -/
theorem Sound.restorable {s : BlockStore} (h : Sound s) (hfit : Fits s) :
    Restorable (some (some (dbJson s.nextId s.pending))) :=
  .inr (.inr ⟨_, _, rfl, h.nodup_wrap hfit, h.hash.nodup⟩)

/-- Neither fact is about the files, or about what is dirty. -/
theorem Sound.congr {s t : BlockStore} (h : Sound s) (hp : t.pending = s.pending)
    (hi : t.hashIndex = s.hashIndex) (hn : t.nextId = s.nextId) : Sound t where
  toIdInv := h.toIdInv.of_sameKeys (by rw [hp]; exact .refl _) hn
  low := by rw [hp]; exact h.low
  next := by rw [hn]; exact h.next
  hash := h.hash.of_sameKeys (by rw [hp]; exact .refl _) hi

/-! ## Operations -/

theorem Sound.exec {s : BlockStore} (h : Sound s) (o : Op) : Sound (s.exec o) :=
  ⟨h.toNumbered.exec o, exec_hashInv h.hash o⟩

theorem Sealed.exec {s : BlockStore} (h : Sealed s) (o : Op) (hfit : Fits (s.exec o)) :
    Sealed (s.exec o) := by
  have hsound := h.toSound.exec o
  refine ⟨hsound, ?_⟩
  rcases exec_snapped s o with hdb | hdb
  · rw [hdb]
    exact h.db
  · rw [hdb]
    exact hsound.restorable hfit

/-- A save that throws leaves the bag to be recovered from the log. -/
theorem Sealed.saveNotText {s : BlockStore} (h : Sealed s) (o : Op) : Sealed (s.saveNotText o) :=
  ⟨(h.toSound.exec o).congr rfl rfl rfl, .inr (.inl rfl)⟩

/-- Where the digest is not put into the index, all is well. -/
theorem Sealed.enqueueNotText {s : BlockStore} (h : Sealed s) {hit : BlockHit}
    (hok : hit.hashStr = "" ∨ s.Bagged hit) : Sealed (s.enqueueNotText hit) := by
  unfold BlockStore.enqueueNotText
  split
  · exact h
  · next hnew =>
    have he : hit.hashStr = "" := hok.resolve_right hnew
    rw [indexHash, if_pos he]
    exact ⟨⟨⟨⟨h.nodup, fun pb hpb ↦ (h.lt pb hpb).trans (Int.lt_succ _)⟩, h.low,
      h.next.trans (Int.le_of_lt (Int.lt_succ _))⟩, h.hash.of_sameKeys (.refl _) rfl⟩, h.db⟩

/-! ## Restarts -/

theorem HashInv.addRow {s : BlockStore} (h : HashInv s) {pb : PendingBlock}
    (hnew : pb.hit.hashStr ∉ s.hashIndex) : HashInv (s.addRow pb) where
  nodup := by
    rw [BlockStore.addRow, hashesOf_append, hashesOf_singleton]
    split
    · simpa using h.nodup
    · refine List.nodup_append.mpr ⟨h.nodup, List.nodup_singleton _, fun a ha b hb hab ↦ hnew ?_⟩
      rw [List.mem_singleton] at hb
      exact (h.index _).mpr (hb ▸ hab ▸ ha)
  index := addRow_index h.index pb

/-- Whatever the lines of the log, no digest comes back twice. -/
theorem HashInv.recoverLines {s : BlockStore} (h : HashInv s) (lines : List (Option Json))
    (added : Bool) : HashInv (recoverLines lines s added).1 := by
  induction lines generalizing s added with
  | nil => exact h
  | cons line rest ih =>
      cases line with
      | none => exact ih h added
      | some rec =>
          unfold BlockStore.recoverLines
          split
          · exact ih h added
          · split
            · exact h
            · split
              · exact ih h added
              · next hit _ hskip =>
                split
                · exact h
                · next pb hpb =>
                  refine ih (h.addRow ?_) true
                  change pb.hit.hashStr ∉ s.hashIndex
                  rw [parseRecord_hit hpb]
                  exact (not_or.mp hskip).2

theorem Sound.recoverLines {s : BlockStore} (h : Sound s) (lines : List (Option Json))
    (added : Bool) : Sound (recoverLines lines s added).1 :=
  ⟨(h.toNumbered.recoverLines lines added).1, h.hash.recoverLines lines added⟩

/-- The log is read, to its end or not: a snapshot is taken at the end, or none. -/
theorem Sound.recoverJsonl {s : BlockStore} (h : Sound s) :
    Sound s.recoverJsonl.1 ∧ (s.recoverJsonl.1.files = s.files ∨ s.recoverJsonl.2 = true ∧
      Snapped s.files.db s.recoverJsonl.1) := by
  cases hlog : s.files.jsonl with
  | none =>
      have heq : s.recoverJsonl = (s, true) := by simp only [BlockStore.recoverJsonl, hlog]
      rw [heq]
      exact ⟨h, .inl rfl⟩
  | some lines =>
      have hsound := h.recoverLines lines false
      have hfiles := (h.toNumbered.recoverLines lines false).2
      rcases hrec : BlockStore.recoverLines lines s false with ⟨s', added, ok⟩
      rw [hrec] at hsound hfiles
      simp only [BlockStore.recoverJsonl, hlog, hrec]
      cases ok with
      | false => exact ⟨hsound, .inl hfiles⟩
      | true =>
          cases added with
          | false => exact ⟨hsound, .inl hfiles⟩
          | true => exact ⟨hsound.congr rfl rfl rfl, .inr ⟨rfl, .inr rfl⟩⟩

/-- What the log brings back is sealed, if the snapshot that was there was no worse. -/
theorem Sound.sealed_recoverJsonl {s : BlockStore} (h : Sound s) (hdb : Restorable s.files.db)
    (hfit : Fits s.recoverJsonl.1) : Sealed s.recoverJsonl.1 := by
  obtain ⟨hsound, hfiles⟩ := h.recoverJsonl
  refine ⟨hsound, ?_⟩
  rcases hfiles with hfiles | ⟨-, hsame | hnew⟩
  · rwa [hfiles]
  · rwa [hsame]
  · rw [hnew]
    exact hsound.restorable hfit

/-- The rows of a snapshot come back as they were. -/
theorem sealed_of_snapshot {files : Files} {n : Int} {snap : List PendingBlock} {t : BlockStore}
    (hdb : files.db = some (some (dbJson n snap)))
    (hids : (snap.map fun pb ↦ wrap 64 pb.id).Nodup) (hhashes : (hashesOf snap).Nodup)
    (hload : load files = some t) (hfit : Fits t) : Sealed t := by
  have hfiled : Filed { files } :=
    ⟨(sound_fresh files (by norm_num)).toNumbered, .inr ⟨n, snap, hdb, hids⟩⟩
  obtain ⟨t', hload', hpending, hindex, -, hfiles⟩ := load_dbJson hdb
  obtain rfl : t' = t := Option.some.inj (hload'.symm.trans hload)
  refine ⟨⟨(hfiled.restart hload hfit).toNumbered, ?_, hindex⟩, ?_⟩
  · rw [hpending, hashesOf_map_reread]
    exact hhashes
  · rw [hfiles]
    exact .inr (.inr ⟨n, snap, hdb, hids, hhashes⟩)

/-- **Whatever the log, a restart from a restorable snapshot is sealed.** -/
theorem sealed_of_load {files : Files} {t : BlockStore} (hdb : Restorable files.db)
    (hload : load files = some t) (hfit : Fits t) : Sealed t := by
  have hfresh : Sound { files } := sound_fresh files (by norm_num)
  -- the log is read, and that goes through
  have hlog {s : BlockStore} (hs : Sound s) (hsdb : Restorable s.files.db)
      (hrec : s.recoverJsonl = (t, true)) : Sealed t := by
    have hsealed := hs.sealed_recoverJsonl hsdb
    rw [hrec] at hsealed
    exact hsealed hfit
  rcases hdb with hnone | htorn | ⟨n, snap, hsnap, hids, hhashes⟩
  · rcases hrec : ({ files } : BlockStore).recoverJsonl with ⟨s', ok⟩
    cases ok with
    | false => simp [load, hnone, hrec] at hload
    | true =>
        obtain rfl : s' = t := by simpa [load, hnone, hrec] using hload
        exact hlog hfresh (.inl hnone) hrec
  · obtain ⟨hsound, hfiles⟩ := hfresh.recoverJsonl
    rcases hrec : ({ files } : BlockStore).recoverJsonl with ⟨s', ok⟩
    rw [hrec] at hsound hfiles
    cases ok with
    | true =>
        obtain rfl : s' = t := by simpa [load, htorn, hrec] using hload
        exact hlog hfresh (.inr (.inl htorn)) hrec
    | false =>
        -- the throw is caught, and the log is read once more over the rows there are
        have hs' : s'.files = files := hfiles.resolve_right fun h ↦ by cases h.1
        rcases hagain : s'.recoverJsonl with ⟨s'', ok⟩
        cases ok with
        | false => simp [load, htorn, hrec, hagain] at hload
        | true =>
            obtain rfl : s'' = t := by simpa [load, htorn, hrec, hagain] using hload
            exact hlog hsound (by rw [hs']; exact .inr (.inl htorn)) hagain
  · exact sealed_of_snapshot hsnap hids hhashes hload hfit

/-! ## Runs -/

/-- No digest is put into the index without a row. -/
def Indexed (s : BlockStore) : BagAct → Prop
  | .enqueueNotText hit => hit.hashStr = "" ∨ s.Holds hit.hashStr
  | _ => True

/-- A hit is taken for a twin exactly if its digest is in the bag. -/
theorem HashInv.bagged_iff {s : BlockStore} (h : HashInv s) (hit : BlockHit) :
    s.Bagged hit ↔ hit.hashStr ≠ "" ∧ s.Holds hit.hashStr := by
  rw [Bagged, h.index, mem_hashesOf]
  exact ⟨fun ⟨hne, _, hrow⟩ ↦ ⟨hne, hrow⟩, fun ⟨hne, hrow⟩ ↦ ⟨hne, hne, hrow⟩⟩

/-- **Every step that keeps to it leaves a sealed store sealed.** -/
theorem Sealed.step {s t : BlockStore} {a : BagAct} (h : Sealed s) (hstep : BagStep s a t)
    (hok : Indexed s a) : Sealed t := by
  cases a with
  | op o =>
      obtain ⟨rfl, hfit⟩ := hstep
      exact h.exec o hfit
  | enqueueNotText hit =>
      obtain ⟨rfl, -⟩ := hstep
      refine h.enqueueNotText (or_iff_not_imp_left.mpr fun hne ↦ (h.hash.bagged_iff hit).mpr ?_)
      exact ⟨hne, hok.resolve_left hne⟩
  | saveNotText o =>
      obtain ⟨-, rfl, -⟩ := hstep
      exact h.saveNotText o
  | restart torn log =>
      obtain ⟨hload, hfit⟩ := hstep
      refine sealed_of_load ?_ hload hfit
      cases torn with
      | true => exact .inr (.inl rfl)
      | false => exact h.db

theorem sealed_of_run {as : List BagAct} {s : BlockStore}
    (hr : Run (Guarded BagStep Indexed) {} as s) : Sealed s :=
  hr.preserves (fun _ _ _ hs hstep ↦ hs.step hstep.1 hstep.2) sealed_empty

/-- A digest that is indexed without a row breaks the invariant. -/
theorem not_hashInv_enqueueNotText {s : BlockStore} {hit : BlockHit} (h : HashInv s)
    (hne : hit.hashStr ≠ "") (hno : ¬ s.Holds hit.hashStr) :
    ¬ HashInv (s.enqueueNotText hit) := by
  intro hinv
  have hnew : ¬ s.Bagged hit := fun hb ↦ hno ((h.bagged_iff hit).mp hb).2
  have hmem : hit.hashStr ∈ (s.enqueueNotText hit).hashIndex := by
    rw [enqueueNotText, if_neg hnew]
    change hit.hashStr ∈ indexHash s.hashIndex hit.hashStr
    rw [indexHash, if_neg hne]
    exact Finset.mem_insert_self _ _
  have hrows : (s.enqueueNotText hit).pending = s.pending := by
    rw [enqueueNotText, if_neg hnew]
  have hrow := (mem_hashesOf.mp ((hinv.index _).mp hmem)).2
  rw [hrows] at hrow
  exact hno hrow

/-- **Exactly those steps keep the invariant.** -/
theorem Sealed.indexed_iff {s t : BlockStore} {a : BagAct} (h : Sealed s) (hstep : BagStep s a t) :
    Indexed s a ↔ IdInv t ∧ HashInv t := by
  constructor
  · intro hok
    have ht := h.step hstep hok
    exact ⟨ht.toIdInv, ht.hash⟩
  · rintro ⟨-, hinv⟩
    cases a with
    | enqueueNotText hit =>
        obtain ⟨rfl, -⟩ := hstep
        by_contra hbad
        obtain ⟨hne, hno⟩ := not_or.mp hbad
        exact not_hashInv_enqueueNotText h.hash hne hno hinv
    | op o => trivial
    | saveNotText o => trivial
    | restart torn log => trivial

/-! ## What the invariant is for -/

/-- A hit with this digest gets a row. -/
def Queueable (s : BlockStore) (h : String) : Prop :=
  ∀ (now : String) (hit : BlockHit) (reason : String), hit.hashStr = h →
    (s.enqueue now hit reason).2.pending =
      s.pending ++ [{ id := s.nextId, hit, queueReason := reason }]

/-- A twin is not queued. -/
theorem enqueue_of_bagged {s : BlockStore} {hit : BlockHit} (h : s.Bagged hit) (now : String)
    (reason : String) : s.enqueue now hit reason = (0, s) := if_pos h

/-- Any other hit gets a row, and its id is the answer. -/
theorem enqueue_of_not_bagged {s : BlockStore} {hit : BlockHit} (h : ¬ s.Bagged hit) (now : String)
    (reason : String) : (s.enqueue now hit reason).1 = s.nextId ∧
      (s.enqueue now hit reason).2.pending =
        s.pending ++ [{ id := s.nextId, hit, queueReason := reason }] := by
  constructor
  · exact congrArg Prod.fst (if_neg h)
  · exact ((s.enqueue_cases now hit reason).resolve_left fun hb ↦ h ⟨hb.1, hb.2.1⟩).1

theorem HashInv.queueable_iff {s : BlockStore} (h : HashInv s) (x : String) :
    s.Queueable x ↔ ¬ (x ≠ "" ∧ s.Holds x) := by
  constructor
  · intro hq hx
    have hrow := hq "" { hashStr := x } "" rfl
    rw [enqueue_of_bagged ((h.bagged_iff { hashStr := x }).mpr hx)] at hrow
    simpa using congrArg List.length hrow
  · rintro hno now hit reason rfl
    exact (enqueue_of_not_bagged (mt (h.bagged_iff hit).mp hno) now reason).2

/-- What `enqueue` answers. -/
theorem HashInv.enqueue_eq_zero_iff {s : BlockStore} (h : HashInv s) (now : String)
    (hit : BlockHit) (reason : String) : (s.enqueue now hit reason).1 = 0 ↔
      (hit.hashStr ≠ "" ∧ s.Holds hit.hashStr) ∨ s.nextId = 0 := by
  rw [← h.bagged_iff hit]
  by_cases hb : s.Bagged hit
  · rw [enqueue_of_bagged hb]
    exact ⟨fun _ ↦ .inl hb, fun _ ↦ rfl⟩
  · rw [(enqueue_of_not_bagged hb now reason).1]
    exact ⟨.inr, fun hor ↦ hor.resolve_left hb⟩

/-- **The invariant of the bag, and what follows from it.**  Through operations, saves that throw,
kills and restarts, ids stay distinct and below the next one, and the index stays the set of the
digests, which are distinct, exactly as long as no digest is indexed without a row, that is, as no
hit with a string that is not UTF-8 is queued whose digest is new.  In every state up to then,
`enqueue` answers `0` for a digest that is in the bag, and for no other one exactly if the next id
is not `0`; and a digest can be queued again from the step on that removes its row. -/
theorem bag_invariant_iff {as : List BagAct} {s : BlockStore}
    (hr : Run (Guarded BagStep Indexed) {} as s) :
    IdInv s ∧ HashInv s ∧
      (∀ a t, BagStep s a t → (Indexed s a ↔ IdInv t ∧ HashInv t)) ∧
      (∀ now hit reason,
        ((s.enqueue now hit reason).1 = 0 ↔ hit.hashStr ≠ "" ∧ s.Holds hit.hashStr) ↔
          s.nextId ≠ 0 ∨ hit.hashStr ≠ "" ∧ s.Holds hit.hashStr) ∧
      ∀ a t, Guarded BagStep Indexed s a t → ∀ h,
        (¬ s.Queueable h ∧ t.Queueable h ↔ h ≠ "" ∧ s.Holds h ∧ ¬ t.Holds h) := by
  have hs := sealed_of_run hr
  refine ⟨hs.toIdInv, hs.hash, fun a t hstep ↦ hs.indexed_iff hstep, ?_, ?_⟩
  · intro now hit reason
    rw [hs.hash.enqueue_eq_zero_iff]
    by_cases hheld : hit.hashStr ≠ "" ∧ s.Holds hit.hashStr
    · simp [hheld]
    · simp [hheld]
  · intro a t hstep h
    rw [hs.hash.queueable_iff, (hs.step hstep.1 hstep.2).hash.queueable_iff, not_not]
    constructor
    · rintro ⟨⟨hne, hheld⟩, hno⟩
      exact ⟨hne, hheld, fun ht ↦ hno ⟨hne, ht⟩⟩
    · rintro ⟨hne, hheld, hno⟩
      exact ⟨⟨hne, hheld⟩, fun ht ↦ hno ht.2⟩

/-- With one row in the bag, a new digest that comes with another text ends it. -/
theorem bag_invariant_iff_one_row : ∃ s t : BlockStore,
    BagStep s (.enqueueNotText { hashStr := "b" }) t ∧ ¬ (IdInv t ∧ HashInv t) := by
  let s := ({} : BlockStore).exec (.enqueue "t₀" { hashStr := "a" } "queued")
  have hr : Run (Guarded BagStep Indexed) {} [.op (.enqueue "t₀" { hashStr := "a" } "queued")] s :=
    .single ⟨⟨rfl, by decide⟩, trivial⟩
  have hs : BagStep s (.enqueueNotText { hashStr := "b" })
      (s.enqueueNotText { hashStr := "b" }) := ⟨rfl, by decide⟩
  obtain ⟨-, -, hstep, -⟩ := bag_invariant_iff hr
  refine ⟨s, _, hs, fun hinv ↦ ?_⟩
  have hok := (hstep _ _ hs).mpr hinv
  rcases hok with he | ⟨pb, hpb, hb⟩
  · exact absurd he (by decide)
  · obtain rfl : pb = { id := 1, hit := { hashStr := "a" }, queueReason := "queued" } :=
      List.mem_singleton.mp hpb
    exact absurd hb (by decide)

/-- The first hit there is has a string that is not UTF-8: its digest is refused from then on, and
the bag is empty. -/
theorem bag_invariant_broken :
    ¬ ∀ (as : List BagAct) (s : BlockStore), Run BagStep {} as s →
      (IdInv s ∧ HashInv s) ∧ ∀ now hit reason,
        ((s.enqueue now hit reason).1 = 0 ↔ hit.hashStr ≠ "" ∧ s.Holds hit.hashStr) := by
  intro hall
  obtain ⟨-, hanswer⟩ := hall [.enqueueNotText { hashStr := "a" }] _ (.single ⟨rfl, by decide⟩)
  obtain ⟨-, pb, hpb, -⟩ := (hanswer "t₀" { hashStr := "a" } "queued").mp (by decide)
  exact absurd hpb List.not_mem_nil

end BlockStore

end XNMiner
