import XNMiner.Lib.JsonText
import XNMiner.Queue.Saves
import XNMiner.Queue.Reload

/-!
# A save that is cut off

`save_db_unlocked` truncates `blocks.db` and writes it anew.  A process that is killed in between
leaves the beginning of the new text, which does not parse, and the next store is read back from
`queue.jsonl`.  That log only grows: it has every row that was ever queued.  So every row that was
waiting comes back, and with them every row that had been submitted or dropped.

A run is made of operations, kills between two operations (`restart`), and kills during a save
(`torn`), each with the store that is constructed next.  `removed` are the digests that completed
operations have submitted or dropped, and that were not queued again since.
-/

namespace XNMiner

open Lib

namespace BlockStore

/-! ## The log -/

/-- **Reading back a log**: every digest in it is in the bag afterwards. -/
theorem recoverLines_hashes (hist : List (String × PendingBlock)) (s : BlockStore) (added : Bool)
    (h : ∀ x, x ∈ s.hashIndex ↔ x ∈ hashesOf s.pending) :
    ∃ s' added', recoverLines (hist.map fun p ↦ some (queueRecord p.1 p.2)) s added =
        (s', added', true) ∧
      (∀ x, x ∈ hashesOf s'.pending ↔
        x ∈ hashesOf s.pending ∨ x ∈ hashesOf (hist.map Prod.snd)) ∧
      s'.files = s.files := by
  induction hist generalizing s added with
  | nil => exact ⟨s, added, rfl, by simp [hashesOf], rfl⟩
  | cons p hist ih =>
      obtain ⟨now, pb⟩ := p
      have hobj : (queueRecord now pb).isObject = true := rfl
      have hsplit (x : String) : x ∈ hashesOf (((now, pb) :: hist).map Prod.snd) ↔
          (pb.hit.hashStr ≠ "" ∧ x = pb.hit.hashStr) ∨ x ∈ hashesOf (hist.map Prod.snd) := by
        rw [List.map_cons, ← List.singleton_append, hashesOf_append, List.mem_append,
          hashesOf_singleton]
        by_cases he : pb.hit.hashStr = "" <;> simp [he]
      by_cases hskip : pb.hit.hashStr = "" ∨ pb.hit.hashStr ∈ s.hashIndex
      · -- the line is skipped: its digest is empty, or in the bag
        obtain ⟨s', added', hl, hh, hf⟩ := ih s added h
        refine ⟨s', added', ?_, fun x ↦ ?_, hf⟩
        · simpa [recoverLines, hobj, hitFromJson_queueRecord, hskip] using hl
        · rw [hh, hsplit]
          constructor
          · exact Or.imp id .inr
          · rintro (hx | ⟨hne, rfl⟩ | hx)
            · exact .inl hx
            · exact .inl ((h _).mp (hskip.resolve_left hne))
            · exact .inr hx
      · obtain ⟨hne, hnew⟩ := not_or.mp hskip
        let row : PendingBlock :=
          { id := s.recoverId (wrap 64 pb.id), hit := pb.hit.reread, queueReason := pb.queueReason }
        obtain ⟨s', added', hl, hh, hf⟩ := ih (s.addRow row) true (addRow_index h row)
        refine ⟨s', added', ?_, fun x ↦ ?_, hf⟩
        · simpa [recoverLines, hobj, hitFromJson_queueRecord, hne, hnew, parseRecord_queueRecord]
            using hl
        · have hrow : hashesOf [row] = [pb.hit.hashStr] := by
            rw [hashesOf_singleton]
            exact if_neg hne
          rw [hh, hsplit, addRow, hashesOf_append, hrow, List.mem_append, List.mem_singleton]
          tauto

/-- With no readable `blocks.db` the store is constructed from the log, and has all of it. -/
theorem load_log {files : Files} {hist : List (String × PendingBlock)}
    (hdb : files.db = none ∨ files.db = some none)
    (hlog : files.jsonl.getD [] = hist.map fun p ↦ some (queueRecord p.1 p.2)) :
    ∃ t, load files = some t ∧
      (∀ x, x ∈ hashesOf t.pending ↔ x ∈ hashesOf (hist.map Prod.snd)) ∧
      t.files.jsonl = files.jsonl ∧
      (t.files.db = files.db ∨ t.files.db = some (some (dbJson t.nextId t.pending))) := by
  obtain ⟨s', added', hl, hh, hf⟩ := recoverLines_hashes hist ({ files } : BlockStore) false
    (by simp [hashesOf])
  have hhash (x : String) : x ∈ hashesOf s'.pending ↔ x ∈ hashesOf (hist.map Prod.snd) := by
    rw [hh]
    simp [hashesOf]
  cases hjsonl : files.jsonl with
  | none =>
      have hnil : hist = [] := by simpa [hjsonl] using hlog.symm
      have hload : load files = some { files } := by
        rcases hdb with hdb | hdb <;> simp [load, hdb, recoverJsonl, hjsonl]
      exact ⟨{ files }, hload, by simp [hnil, hashesOf], hjsonl, .inl rfl⟩
  | some lines =>
      have hlines : lines = hist.map fun p ↦ some (queueRecord p.1 p.2) := by
        simpa [hjsonl] using hlog
      have hload : load files = some (if added' then s'.saveDb else s') := by
        rcases hdb with hdb | hdb <;> simp [load, hdb, recoverJsonl, hjsonl, hlines, hl]
      cases added' with
      | true => exact ⟨s'.saveDb, hload, hhash, by rw [saveDb_jsonl, hf, hjsonl], .inr rfl⟩
      | false => exact ⟨s', hload, hhash, by rw [hf, hjsonl], .inl (by rw [hf])⟩

theorem maybeSave_jsonl (s : BlockStore) : s.maybeSave.files.jsonl = s.files.jsonl := by
  unfold maybeSave
  split <;> rfl

theorem markSubmittedMany_jsonl (s : BlockStore) (ids : List Int) :
    (s.markSubmittedMany ids).files.jsonl = s.files.jsonl := by
  unfold markSubmittedMany
  split
  · rfl
  · rw [saveDb_jsonl, markDirty_files, (foldl_removeId_frame ids s).2]

/-- The digests of a bag all of whose hits are those of another one. -/
theorem hashesOf_of_hits_subset {l l' : List PendingBlock}
    (h : ∀ pb ∈ l', ∃ pb₀ ∈ l, pb₀.hit = pb.hit) : ∀ x ∈ hashesOf l', x ∈ hashesOf l := by
  intro x hx
  obtain ⟨hne, pb, hpb, hpbx⟩ := mem_hashesOf.mp hx
  obtain ⟨pb₀, hpb₀, hhit⟩ := h pb hpb
  exact mem_hashesOf.mpr ⟨hne, pb₀, hpb₀, by rw [hhit, hpbx]⟩

/-- The new lines that an operation from `s` to `t` writes, and the digests they are for. -/
def Logs (s t : BlockStore) (new : List (String × PendingBlock)) : Prop :=
  t.files.jsonl.getD [] =
      s.files.jsonl.getD [] ++ new.map (fun p ↦ some (queueRecord p.1 p.2)) ∧
    ∀ x ∈ hashesOf t.pending, x ∈ hashesOf s.pending ∨ x ∈ hashesOf (new.map Prod.snd)

theorem logs_enqueue (s : BlockStore) (now : String) (hit : BlockHit) (reason : String) :
    ∃ new, Logs s (s.enqueue now hit reason).2 new := by
  unfold enqueue
  split
  · exact ⟨[], by simp, fun x hx ↦ .inl hx⟩
  · refine ⟨[(now, { id := s.nextId, hit, queueReason := reason })], ?_, fun x hx ↦ ?_⟩
    · rw [maybeSave_jsonl]
      rfl
    · rw [maybeSave_pending, markDirty_pending, appendQueueJsonl, hashesOf_append,
        List.mem_append] at hx
      exact hx

/-- **What an operation adds to the log**: the rows it adds to the bag. -/
theorem exec_logs (s : BlockStore) (op : Op) : ∃ new, Logs s (s.exec op) new := by
  -- an operation that adds no hit, and does not touch the log
  have hquiet (hlog : (s.exec op).files.jsonl = s.files.jsonl) (hno : op.hit? = none) :
      ∃ new, Logs s (s.exec op) new := by
    refine ⟨[], by simp [hlog], fun x hx ↦ .inl (hashesOf_of_hits_subset (fun pb hpb ↦ ?_) x hx)⟩
    rcases exec_hits s op pb hpb with h | h
    · exact h
    · rw [hno] at h
      cases h
  cases op with
  | enqueue now hit reason => exact logs_enqueue s now hit reason
  | recordRejection now hit st body src => exact logs_enqueue (s.logRejection ..) now hit _
  | markSubmitted id => exact hquiet (markSubmittedMany_jsonl s [id]) rfl
  | markSubmittedMany ids => exact hquiet (markSubmittedMany_jsonl s ids) rfl
  | markPendingReason id reason => exact hquiet (maybeSave_jsonl _) rfl
  | markForwardedMany ids =>
      refine hquiet ?_ rfl
      simp only [exec, markForwardedMany]
      split <;> rfl
  | dropByHash hashes =>
      refine hquiet ?_ rfl
      simp only [exec, dropByHash]
      split
      · rfl
      · split <;> rfl
  | flush =>
      refine hquiet ?_ rfl
      simp only [exec, flush]
      split <;> rfl
  | deferAllToNextStart minute => exact hquiet rfl rfl

/-! ## Runs -/

/-- A store and what has been taken out of it for good. -/
structure Life where
  store : BlockStore
  /-- The digests that were submitted or dropped, and not queued again since. -/
  removed : Set String

/-- What can happen to a store. -/
inductive LifeAct
  | op (o : Op)
  /-- A kill between two operations. -/
  | restart
  /-- A kill while `o` writes `blocks.db`; `text` is what is written. -/
  | torn (o : Op) (text : List Char)

/-- The digests an operation takes out of the bag. -/
def gone (s : BlockStore) (o : Op) : Set String :=
  {x | x ∈ hashesOf s.pending ∧ x ∉ hashesOf (s.exec o).pending}

/-- The digest an operation queues. -/
def requeued (o : Op) : Set String := {x | ∃ hit ∈ o.hit?, hit.hashStr = x}

variable (num : Rat → List Char) (parse : List Char → Option Json)

/-- What is relied on of the JSON library: it prints a real number without brackets, quotes and
control characters, and of the texts without a NUL, which ends a text for its parser, it accepts
only those that close what they open. -/
structure JsonLibrary : Prop where
  printable : ∀ q, Printable (num q)
  num : ∀ q, ∀ c ∈ num q, PlainChar c
  parse : ∀ text doc, '\x00' ∉ text → parse text = some doc → Complete text

/-- `text` is the beginning of the new `blocks.db`, and not all of it, and `o` is an operation
that writes it. -/
structure Torn (s : BlockStore) (o : Op) (text : List Char) : Prop where
  saves : o.Saves s
  cut : text <+: dump num (dbJson (s.exec o).nextId (s.exec o).pending)
  short : text ≠ dump num (dbJson (s.exec o).nextId (s.exec o).pending)

/-- The files after a kill during the save, the last thing that `o` does: the change in RAM is
made, and the log is complete. -/
def tornFiles (s : BlockStore) (o : Op) (text : List Char) : Files :=
  { (s.exec o).files with db := some (parse text) }

/-- One step. -/
def LifeStep (s : Life) : LifeAct → Life → Prop
  | .op o, t => t =
      { store := s.store.exec o, removed := (s.removed ∪ gone s.store o) \ requeued o }
  | .restart, t => load s.store.files = some t.store ∧ t.removed = s.removed
  | .torn o text, t => Torn num s.store o text ∧
      load (tornFiles parse s.store o text) = some t.store ∧ t.removed = s.removed \ requeued o

/-! ## The log has everything -/

/-- The log has the rows `hist`, and among them are the bag, the snapshot, and what was removed. -/
structure Recorded (s : Life) (hist : List (String × PendingBlock)) : Prop where
  jsonl : s.store.files.jsonl.getD [] = hist.map fun p ↦ some (queueRecord p.1 p.2)
  pending : ∀ x ∈ hashesOf s.store.pending, x ∈ hashesOf (hist.map Prod.snd)
  removed : ∀ x ∈ s.removed, x ∈ hashesOf (hist.map Prod.snd)
  db : (s.store.files.db = none ∨ s.store.files.db = some none) ∨
    ∃ n snap, s.store.files.db = some (some (dbJson n snap)) ∧
      ∀ x ∈ hashesOf snap, x ∈ hashesOf (hist.map Prod.snd)

variable {num : Rat → List Char} {parse : List Char → Option Json}

theorem recorded_empty : Recorded ⟨{}, ∅⟩ [] where
  jsonl := rfl
  pending := fun _ h ↦ h
  removed := fun _ h ↦ absurd h (Set.notMem_empty _)
  db := .inl (.inl rfl)

theorem Recorded.op {s : Life} {hist : List (String × PendingBlock)} (h : Recorded s hist)
    (o : Op) : ∃ hist', Recorded
      { store := s.store.exec o, removed := (s.removed ∪ gone s.store o) \ requeued o } hist' := by
  obtain ⟨new, hlog, hnew⟩ := exec_logs s.store o
  have hold : ∀ x ∈ hashesOf (hist.map Prod.snd), x ∈ hashesOf ((hist ++ new).map Prod.snd) := by
    intro x hx
    rw [List.map_append, hashesOf_append]
    exact List.mem_append_left _ hx
  have hpending : ∀ x ∈ hashesOf (s.store.exec o).pending,
      x ∈ hashesOf ((hist ++ new).map Prod.snd) := by
    intro x hx
    rcases hnew x hx with hx | hx
    · exact hold x (h.pending x hx)
    · rw [List.map_append, hashesOf_append]
      exact List.mem_append_right _ hx
  refine ⟨hist ++ new, by rw [hlog, h.jsonl, List.map_append], hpending, ?_, ?_⟩
  · rintro x ⟨hx | hx, -⟩
    · exact hold x (h.removed x hx)
    · exact hold x (h.pending x hx.1)
  · by_cases hsave : o.Saves s.store
    · exact .inr ⟨_, _, (exec_savesTo s.store o).1 hsave, hpending⟩
    · rw [(exec_savesTo s.store o).2 hsave]
      refine h.db.imp id ?_
      rintro ⟨n, snap, hdb, hsnap⟩
      exact ⟨n, snap, hdb, fun x hx ↦ hold x (hsnap x hx)⟩

/-- A store that is constructed without a readable `blocks.db` has all of the log. -/
theorem recorded_of_log {t : Life} {files : Files} {hist : List (String × PendingBlock)}
    (hremoved : ∀ x ∈ t.removed, x ∈ hashesOf (hist.map Prod.snd))
    (hdb : files.db = none ∨ files.db = some none)
    (hlog : files.jsonl.getD [] = hist.map fun p ↦ some (queueRecord p.1 p.2))
    (hload : load files = some t.store) : Recorded t hist := by
  obtain ⟨t', hload', hh, hjsonl, hdb'⟩ := load_log hdb hlog
  obtain rfl : t' = t.store := Option.some.inj (hload'.symm.trans hload)
  refine ⟨by rw [hjsonl, hlog], fun x hx ↦ (hh x).mp hx, hremoved, ?_⟩
  rcases hdb' with hdb' | hdb'
  · exact .inl (by rwa [hdb'])
  · exact .inr ⟨_, _, hdb', fun x hx ↦ (hh x).mp hx⟩

/-- The log after the cut-off save. -/
theorem Recorded.torn {s : Life} {hist : List (String × PendingBlock)} (h : Recorded s hist)
    (o : Op) : ∃ hist' : List (String × PendingBlock), (s.store.exec o).files.jsonl.getD [] =
        hist'.map (fun p ↦ some (queueRecord p.1 p.2)) ∧
      (∀ x ∈ hashesOf (s.store.exec o).pending, x ∈ hashesOf (hist'.map Prod.snd)) ∧
      ∀ x ∈ s.removed \ requeued o, x ∈ hashesOf (hist'.map Prod.snd) := by
  obtain ⟨hist', h'⟩ := h.op o
  exact ⟨hist', h'.jsonl, h'.pending, fun x hx ↦ h'.removed x ⟨.inl hx.1, hx.2⟩⟩

/-- What is written does not parse. -/
theorem Torn.db {s : BlockStore} {o : Op} {text : List Char} (hlib : JsonLibrary num parse)
    (h : Torn num s o text) : (tornFiles parse s o text).db = some none := by
  refine congrArg some ?_
  cases hdoc : parse text with
  | none => rfl
  | some doc =>
      have hprint := printable_dump hlib.printable (dbJson (s.exec o).nextId (s.exec o).pending)
      have hnul : '\x00' ∉ text := fun hmem ↦ hprint.nul (h.cut.subset hmem)
      exact absurd (hlib.parse text doc hnul hdoc) (not_complete_of_cut hlib.num h.cut h.short)

/-- **Every step keeps the log complete.** -/
theorem Recorded.step {s t : Life} {hist : List (String × PendingBlock)} {a : LifeAct}
    (hlib : JsonLibrary num parse) (h : Recorded s hist)
    (hstep : LifeStep num parse s a t) : ∃ hist', Recorded t hist' := by
  cases a with
  | op o =>
      obtain rfl := hstep
      exact h.op o
  | restart =>
      obtain ⟨hload, hremoved⟩ := hstep
      have hkept : ∀ x ∈ t.removed, x ∈ hashesOf (hist.map Prod.snd) := hremoved ▸ h.removed
      rcases h.db with hdb | ⟨n, snap, hdb, hsnap⟩
      · exact ⟨hist, recorded_of_log hkept hdb h.jsonl hload⟩
      · obtain ⟨t', hload', hpending, -, -, hfiles⟩ := load_dbJson hdb
        obtain rfl : t' = t.store := Option.some.inj (hload'.symm.trans hload)
        refine ⟨hist, by rw [hfiles]; exact h.jsonl, ?_, hkept, .inr ⟨n, snap, ?_, hsnap⟩⟩
        · rw [hpending, hashesOf_map_reread]
          exact hsnap
        · rw [hfiles]
          exact hdb
  | torn o text =>
      obtain ⟨htorn, hload, hremoved⟩ := hstep
      obtain ⟨hist', hlog, -, hgone⟩ := h.torn o
      exact ⟨hist', recorded_of_log (hremoved ▸ hgone) (.inr (htorn.db hlib)) hlog hload⟩

theorem recorded_of_run {s : Life} {acts : List LifeAct} (hlib : JsonLibrary num parse)
    (hr : Run (LifeStep num parse) ⟨{}, ∅⟩ acts s) : ∃ hist, Recorded s hist := by
  refine hr.preserves (I := fun s ↦ ∃ hist, Recorded s hist) (fun s a t hs hstep ↦ ?_)
    ⟨[], recorded_empty⟩
  obtain ⟨hist, h⟩ := hs
  exact h.step hlib hstep

/-- **What a save that is cut off brings back.**  After any run, when a process is killed while `o`
writes `blocks.db`, the store that is constructed next has a row for every digest that was in the
bag, whatever beginning of the text was written.  Of the digests that earlier operations had
submitted or dropped it has none exactly if there are none: they all come back. -/
theorem torn_save_iff {s : Life} {acts : List LifeAct} {o : Op} {text : List Char}
    (hlib : JsonLibrary num parse) (hr : Run (LifeStep num parse) ⟨{}, ∅⟩ acts s)
    (htorn : Torn num s.store o text) :
    ∃ t, load (tornFiles parse s.store o text) = some t ∧
      (∀ x ∈ hashesOf (s.store.exec o).pending, t.Holds x) ∧
      ((∀ x ∈ s.removed \ requeued o, ¬ t.Holds x) ↔ s.removed \ requeued o = ∅) := by
  obtain ⟨hist, h⟩ := recorded_of_run hlib hr
  obtain ⟨hist', hlog, hpending, hgone⟩ := h.torn o
  obtain ⟨t, hload, hh, -⟩ := load_log (.inr (htorn.db hlib)) hlog
  have hholds : ∀ x ∈ hashesOf (hist'.map Prod.snd), t.Holds x := fun x hx ↦
    (mem_hashesOf.mp ((hh x).mpr hx)).2
  refine ⟨t, hload, fun x hx ↦ hholds x (hpending x hx), ?_⟩
  constructor
  · intro hno
    exact Set.eq_empty_of_forall_notMem fun x hx ↦ hno x hx (hholds x (hgone x hx))
  · intro hempty x hx
    rw [hempty] at hx
    exact absurd hx (Set.notMem_empty x)

/-! ### A block that comes back -/

/-- A printer and a parser that behave as the library does where nothing is complete. -/
theorem jsonLibrary_torn : JsonLibrary (fun _ ↦ ['0']) fun _ ↦ none where
  num := by
    intro q c hc
    obtain rfl : c = '0' := by simpa using hc
    decide
  printable := fun _ ↦ by decide
  parse := by
    intro text doc _ h
    cases h

/-- One block is queued and delivered, and the next save is cut off before its first character. -/
theorem exists_delivered (num : Rat → List Char) (parse : List Char → Option Json) :
    ∃ acts s, Run (LifeStep num parse) ⟨{}, ∅⟩ acts s ∧
      "a" ∈ s.removed \ requeued (.deferAllToNextStart 0) ∧
      Torn num s.store (.deferAllToNextStart 0) [] := by
  refine ⟨[.op (.enqueue "t₀" { hashStr := "a" } "queued"), .op (.markSubmitted 1)], _,
    .cons rfl (.single rfl), ⟨⟨.inr ⟨?_, ?_⟩, ?_⟩, ?_⟩, trivial, List.nil_prefix, ?_⟩
  · decide
  · decide
  · rintro ⟨hit, hhit, -⟩
    cases hhit
  · rintro ⟨hit, hhit, -⟩
    cases hhit
  · exact (List.cons_ne_nil _ _).symm

/-- It comes back. -/
theorem torn_save_brings_back :
    ¬ ∀ (num : Rat → List Char) (parse : List Char → Option Json), JsonLibrary num parse →
      ∀ acts s o text, Run (LifeStep num parse) ⟨{}, ∅⟩ acts s → Torn num s.store o text →
        ∀ t, load (tornFiles parse s.store o text) = some t →
          (∀ x ∈ hashesOf (s.store.exec o).pending, t.Holds x) ∧
            ∀ x ∈ s.removed \ requeued o, ¬ t.Holds x := by
  intro hall
  obtain ⟨acts, s, hr, hgone, htorn⟩ := exists_delivered (fun _ ↦ ['0']) fun _ ↦ none
  obtain ⟨hist, h⟩ := recorded_of_run jsonLibrary_torn hr
  obtain ⟨hist', hlog, -, hback⟩ := h.torn (.deferAllToNextStart 0)
  obtain ⟨t, hload, hh, -⟩ := load_log (.inr (htorn.db jsonLibrary_torn)) hlog
  obtain ⟨-, hno⟩ := hall _ _ jsonLibrary_torn _ _ _ _ hr htorn t hload
  exact hno "a" hgone (mem_hashesOf.mp ((hh "a").mpr (hback "a" hgone))).2

/-- After the delivery there is something that comes back. -/
theorem torn_save_iff_delivered : ∃ acts s t,
    Run (LifeStep (fun _ ↦ ['0']) fun _ ↦ none) ⟨{}, ∅⟩ acts s ∧
      load (tornFiles (fun _ ↦ none) s.store (.deferAllToNextStart 0) []) = some t ∧
      ¬ ∀ x ∈ s.removed \ requeued (.deferAllToNextStart 0), ¬ t.Holds x := by
  obtain ⟨acts, s, hr, hgone, htorn⟩ := exists_delivered (fun _ ↦ ['0']) fun _ ↦ none
  obtain ⟨t, hload, -, hiff⟩ := torn_save_iff jsonLibrary_torn hr htorn
  refine ⟨acts, s, t, hr, hload, fun hno ↦ ?_⟩
  rw [hiff.mp hno] at hgone
  exact absurd hgone (Set.notMem_empty _)

end BlockStore

end XNMiner
