import XNMiner.Queue.Saves

/-!
# A second instance that is turned away

`main` constructs the `Supervisor`, and with it the `BlockStore`, before `startup_checks` tries
the instance lock.  When the lock is taken `main` returns, and the destructor runs all of
`finalize_session`: it gives every row in its RAM the reason for the next start, and saves.

Two processes work on the same files here.  The running instance takes any operations of its
store, at any time; the second process constructs its store (`construct`), fails the check, and
runs the store's part of `finalize_session` (`finalizeSession`) and the destructor of the store
(`destroy`).  Its queue of live submits is empty, so there is nothing else to bag.  A read or a
write of a file is one step.
-/

namespace XNMiner

open Lib

namespace BlockStore

/-- The store, working on other files. -/
def onFiles (s : BlockStore) (files : Files) : BlockStore := { s with files }

/-- A row with the reason `defer_all_to_next_start` gives it. -/
def deferred (minute : Nat) (pb : PendingBlock) : PendingBlock :=
  { pb with queueReason := deferReason minute pb }

end BlockStore

open BlockStore

/-- How far the second process is. -/
inductive SecondInstance
  | absent
  /-- The store is constructed; `acquire` fails, `main` returns. -/
  | constructed (store : BlockStore)
  /-- `finalize_session` has run. -/
  | finalized (store : BlockStore)
  | destroyed

/-- The running instance, which has the lock, and the second process. -/
structure TwoInstances where
  /-- The store of the running instance, on the files that both use. -/
  holder : BlockStore
  /-- What the running instance last wrote to `blocks.db`, or found there. -/
  lastWritten : Option (Option Json)
  /-- How often it has written. -/
  writes : Nat := 0
  second : SecondInstance := .absent

/-- What the two processes do. -/
inductive InstanceAct
  | holder (op : Op)
  | construct
  | finalizeSession (minute : Nat)
  | destroy

namespace TwoInstances

/-- One step of either process. -/
def Step (s : TwoInstances) : InstanceAct → TwoInstances → Prop
  | .holder op, t => t = { s with
      holder := s.holder.exec op
      lastWritten := if op.Saves s.holder then (s.holder.exec op).files.db else s.lastWritten
      writes := if op.Saves s.holder then s.writes + 1 else s.writes }
  | .construct, t => s.second = .absent ∧ ∃ store, load s.holder.files = some store ∧
      t = { s with holder := s.holder.onFiles store.files, second := .constructed store }
  | .finalizeSession minute, t => ∃ store, s.second = .constructed store ∧
      let saved := (store.onFiles s.holder.files).deferAllToNextStart minute
      t = { s with holder := s.holder.onFiles saved.files, second := .finalized saved }
  | .destroy, t => ∃ store, s.second = .finalized store ∧
      t = { s with
        holder := s.holder.onFiles (store.onFiles s.holder.files).flush.files
        second := .destroyed }

/-- `blocks.db` holds what the running instance last wrote. -/
def Intact (s : TwoInstances) : Prop := s.holder.files.db = s.lastWritten

/-- The document the second process saves is the last one of the running instance: `found` are
the files it read when it was constructed. -/
def Redundant (found : Files) (minute : Nat) (lastWritten : Option (Option Json)) : Prop :=
  ∃ store, load found = some store ∧
    lastWritten = some (some (dbJson store.nextId (store.pending.map (deferred minute))))

variable {s t : TwoInstances}

/-! ## Before the second process saves -/

/-- The second process has read `store`, and keeps it until it saves. -/
def Keeps (store : BlockStore) (s : TwoInstances) : Prop :=
  s.second = .constructed store ∨ (∃ kept, s.second = .finalized kept) ∨ s.second = .destroyed

theorem Keeps.step {store : BlockStore} {a : InstanceAct} (hs : Keeps store s)
    (h : Step s a t) : Keeps store t := by
  cases a with
  | holder op =>
      rw [show t = _ from h]
      exact hs
  | construct =>
      obtain ⟨habsent, -⟩ := h
      rcases hs with hs | ⟨kept, hs⟩ | hs <;>
      · rw [habsent] at hs
        cases hs
  | finalizeSession minute =>
      obtain ⟨_, -, rfl⟩ := h
      exact .inr (.inl ⟨_, rfl⟩)
  | destroy =>
      obtain ⟨_, -, rfl⟩ := h
      exact .inr (.inr rfl)

/-! ## After it has saved -/

/-- The second process has written `db`; the running instance had written `writes` times, and
last `last`. -/
structure Saved (db last : Option (Option Json)) (writes : Nat) (s : TwoInstances) : Prop where
  /-- There is nothing left to save. -/
  second : (∃ store, s.second = .finalized store ∧ store.dirtyOps = 0) ∨ s.second = .destroyed
  db : s.writes = writes ∧ s.holder.files.db = db ∧ s.lastWritten = last ∨
    writes < s.writes ∧ s.Intact

theorem Saved.step {db last : Option (Option Json)} {writes : Nat} {a : InstanceAct}
    (hs : Saved db last writes s) (h : Step s a t) : Saved db last writes t := by
  cases a with
  | holder op =>
      have hdb := exec_savesTo s.holder op
      rw [show t = _ from h]
      refine ⟨hs.second, ?_⟩
      by_cases hsave : op.Saves s.holder
      · refine .inr ?_
        simp only [Intact, if_pos hsave]
        refine ⟨?_, trivial⟩
        rcases hs.db with hold | hnew
        · exact hold.1 ▸ Nat.lt_succ_self _
        · exact hnew.1.trans (Nat.lt_succ_self _)
      · simp only [Intact, if_neg hsave, hdb.2 hsave]
        exact hs.db
  | construct =>
      obtain ⟨habsent, -⟩ := h
      rcases hs.second with ⟨store, hfin, -⟩ | hgone
      · rw [habsent] at hfin
        cases hfin
      · rw [habsent] at hgone
        cases hgone
  | finalizeSession minute =>
      obtain ⟨store, hcon, -⟩ := h
      rcases hs.second with ⟨store', hfin, -⟩ | hgone
      · rw [hcon] at hfin
        cases hfin
      · rw [hcon] at hgone
        cases hgone
  | destroy =>
      obtain ⟨store, hfin, rfl⟩ := h
      have hclean : store.dirtyOps = 0 := by
        rcases hs.second with ⟨store', hfin', hclean⟩ | hgone
        · rw [hfin] at hfin'
          cases hfin'
          exact hclean
        · rw [hfin] at hgone
          cases hgone
      have hfiles : (store.onFiles s.holder.files).flush.files = s.holder.files := by
        simp [flush, onFiles, hclean]
      refine ⟨.inr rfl, ?_⟩
      rw [hfiles]
      exact hs.db

/-- The save itself. -/
theorem saved_of_finalize {store : BlockStore} {minute : Nat} (hs : Keeps store s)
    (h : Step s (.finalizeSession minute) t) :
    Saved (some (some (dbJson store.nextId (store.pending.map (deferred minute)))))
      s.lastWritten s.writes t := by
  obtain ⟨store', hcon, rfl⟩ := h
  obtain rfl : store = store' := by
    rcases hs with hs | ⟨kept, hs⟩ | hs <;> rw [hcon] at hs <;> cases hs
    rfl
  exact ⟨.inl ⟨_, rfl, rfl⟩, .inl ⟨rfl, rfl, rfl⟩⟩

/-! ## When nothing is lost -/

/-- What the second process saves, in terms of the snapshot it found: the rows as they read back,
with new reasons, and a next id that is higher by their number. -/
theorem redundant_iff_snapshot {found : Files} {n : Int} {snap : List PendingBlock} {minute : Nat}
    {last : Option (Option Json)} (hdb : found.db = some (some (dbJson n snap)))
    (hlow : -2 ^ 31 ≤ n) (hhigh : n < 2 ^ 31)
    (hids : ∀ pb ∈ snap, -2 ^ 63 ≤ pb.id ∧ pb.id < n) :
    Redundant found minute last ↔ last = some (some (dbJson (n + snap.length)
      (snap.map fun pb ↦ deferred minute pb.reread))) := by
  obtain ⟨store, hload, hpending, -⟩ := load_dbJson hdb
  have hnext := load_nextId hdb hlow hhigh hids hload
  have hrows : store.pending.map (deferred minute) =
      snap.map fun pb ↦ deferred minute pb.reread := by
    rw [hpending, List.map_map]
    rfl
  constructor
  · rintro ⟨store', hload', hlast⟩
    obtain rfl : store = store' := Option.some.inj (hload.symm.trans hload')
    rw [hlast, hnext, hrows]
  · intro hlast
    exact ⟨store, hload, by rw [hlast, hnext, hrows]⟩

/-- While the running instance saves nothing, only an empty bag survives. -/
theorem redundant_self_iff {found : Files} {n : Int} {snap : List PendingBlock} {minute : Nat}
    (hdb : found.db = some (some (dbJson n snap))) (hlow : -2 ^ 31 ≤ n) (hhigh : n < 2 ^ 31)
    (hids : ∀ pb ∈ snap, -2 ^ 63 ≤ pb.id ∧ pb.id < n) :
    Redundant found minute found.db ↔ snap = [] := by
  rw [redundant_iff_snapshot hdb hlow hhigh hids, hdb]
  constructor
  · intro h
    have hn := (dbJson_injective (Option.some.inj (Option.some.inj h))).1
    exact List.eq_nil_of_length_eq_zero (by omega)
  · rintro rfl
    simp

/-- **What a second instance that is turned away leaves behind.**  The second process is
constructed in `s₁`, after which the files are read, and saves in the step from `s₃` to `s₄`; the
running instance takes any operations before, between and after.  From then on `blocks.db` holds
what the running instance last wrote exactly if that has written again since, or the second
process has saved the very same document.  For a `blocks.db` with `n` as the next id and the rows
`snap` that means: the last document of the running instance has these rows, with their reasons
for the next start, and the next id `n + snap.length`. -/
theorem intact_iff {s₁ s₂ s₃ s₄ s₅ : TwoInstances} {between after : List InstanceAct}
    {minute : Nat} (hconstruct : Step s₁ .construct s₂) (hbetween : Run Step s₂ between s₃)
    (hfinalize : Step s₃ (.finalizeSession minute) s₄) (hafter : Run Step s₄ after s₅) :
    (s₅.Intact ↔ s₃.writes < s₅.writes ∨ Redundant s₁.holder.files minute s₃.lastWritten) ∧
    ∀ n snap, s₁.holder.files.db = some (some (dbJson n snap)) → -2 ^ 31 ≤ n → n < 2 ^ 31 →
      (∀ pb ∈ snap, -2 ^ 63 ≤ pb.id ∧ pb.id < n) →
      (Redundant s₁.holder.files minute s₃.lastWritten ↔ s₃.lastWritten = some (some
        (dbJson (n + snap.length) (snap.map fun pb ↦ deferred minute pb.reread)))) := by
  refine ⟨?_, fun n snap hdb hlow hhigh hids ↦ redundant_iff_snapshot hdb hlow hhigh hids⟩
  obtain ⟨-, store, hload, rfl⟩ := hconstruct
  have hkeeps : Keeps store s₃ := hbetween.preserves (fun _ _ _ h hs ↦ h.step hs) (.inl rfl)
  have hsaved := hafter.preserves (fun _ _ _ h hs ↦ Saved.step h hs)
    (saved_of_finalize hkeeps hfinalize)
  have hredundant : Redundant s₁.holder.files minute s₃.lastWritten ↔ s₃.lastWritten =
      some (some (dbJson store.nextId (store.pending.map (deferred minute)))) := by
    constructor
    · rintro ⟨store', hload', hlast⟩
      obtain rfl : store = store' := Option.some.inj (hload.symm.trans hload')
      exact hlast
    · exact fun hlast ↦ ⟨store, hload, hlast⟩
  rw [hredundant]
  rcases hsaved.db with ⟨hwrites, hdb, hlast⟩ | ⟨hwrites, hintact⟩
  · rw [Intact, hdb, hlast, hwrites]
    simp only [lt_irrefl, false_or]
    exact eq_comm
  · simp only [hintact, hwrites, true_or]

/-! ### A block that comes back -/

/-- The running instance has one row, and has just saved it. -/
def oneRow : TwoInstances where
  holder := (({} : BlockStore).exec (.enqueue "t₀" { hashStr := "a" } "queued")).exec .flush
  lastWritten := some (some (dbJson 2
    [{ id := 1, hit := { hashStr := "a" }, queueReason := "queued" }]))

/-- A second instance is started, the running instance delivers the row, and the second one ends:
the row is back in `blocks.db`. -/
theorem rejected_second_reverts_save :
    ¬ ∀ (s t : TwoInstances) (acts : List InstanceAct), s.second = .absent → s.Intact →
      Run Step s acts t → t.second = .destroyed → t.Intact := by
  intro hall
  have hdb : oneRow.holder.files.db = some (some (dbJson 2
      [{ id := 1, hit := { hashStr := "a" }, queueReason := "queued" }])) := rfl
  obtain ⟨store, hload, hpending, -⟩ := load_dbJson hdb
  let s₂ : TwoInstances :=
    { oneRow with holder := oneRow.holder.onFiles store.files, second := .constructed store }
  let s₃ : TwoInstances := { s₂ with
    holder := s₂.holder.exec (.markSubmitted 1)
    lastWritten := some (some (dbJson 2 []))
    writes := 1 }
  let saved := (store.onFiles s₃.holder.files).deferAllToNextStart 0
  let s₄ : TwoInstances :=
    { s₃ with holder := s₃.holder.onFiles saved.files, second := .finalized saved }
  let s₅ : TwoInstances := { s₄ with
    holder := s₄.holder.onFiles (saved.onFiles s₄.holder.files).flush.files
    second := .destroyed }
  have hrun : Run Step oneRow [.construct, .holder (.markSubmitted 1), .finalizeSession 0, .destroy]
      s₅ :=
    .cons ⟨rfl, store, hload, rfl⟩ (.cons rfl (.cons ⟨store, rfl, rfl⟩ (.single ⟨saved, rfl, rfl⟩)))
  have hintact : s₅.Intact := hall oneRow s₅ _ rfl (by rfl) hrun rfl
  have hdoc : dbJson store.nextId (store.pending.map (deferred 0)) = dbJson 2 [] :=
    Option.some.inj (Option.some.inj hintact)
  have hnil := (dbJson_injective hdoc).2
  rw [hpending] at hnil
  cases hnil

/-- With an empty bag on disk the second instance saves what it found. -/
theorem intact_iff_empty : ∃ s₁ s₂ s₃ s₄ : TwoInstances,
    s₁.holder.files.db = some (some (dbJson 1 [])) ∧ Step s₁ .construct s₂ ∧
      Step s₂ (.holder (.enqueue "t₀" { hashStr := "a" } "queued")) s₃ ∧
      Step s₃ (.finalizeSession 0) s₄ ∧ s₄.Intact := by
  let s₁ : TwoInstances :=
    { holder := ({} : BlockStore).saveDb, lastWritten := some (some (dbJson 1 [])) }
  have hdb : s₁.holder.files.db = some (some (dbJson 1 [])) := rfl
  obtain ⟨store, hload, -⟩ := load_dbJson hdb
  let s₂ : TwoInstances :=
    { s₁ with holder := s₁.holder.onFiles store.files, second := .constructed store }
  let s₃ : TwoInstances :=
    { s₂ with holder := s₂.holder.exec (.enqueue "t₀" { hashStr := "a" } "queued") }
  let saved := (store.onFiles s₃.holder.files).deferAllToNextStart 0
  let s₄ : TwoInstances :=
    { s₃ with holder := s₃.holder.onFiles saved.files, second := .finalized saved }
  have hconstruct : Step s₁ .construct s₂ := ⟨rfl, store, hload, rfl⟩
  have henqueue : Step s₂ (.holder (.enqueue "t₀" { hashStr := "a" } "queued")) s₃ := rfl
  have hfinalize : Step s₃ (.finalizeSession 0) s₄ := ⟨store, rfl, rfl⟩
  obtain ⟨hiff, hsnapshot⟩ := intact_iff hconstruct (.single henqueue) hfinalize (.nil s₄)
  have hredundant := (hsnapshot 1 [] rfl (by norm_num) (by norm_num) (by simp)).mpr rfl
  exact ⟨s₁, s₂, s₃, s₄, rfl, hconstruct, henqueue, hfinalize, hiff.mpr (.inr hredundant)⟩

end TwoInstances

end XNMiner
