import XNMiner.App.FlushBooks

/-!
# When the books of a flush wave are right

At the end of a wave no poster owes anything, and the books say what became of every row
(`WaveInv.accounted`).  The end is not reached where a poster gets a fatal answer, and these are the
only calls that are not accounted for (`accounted_iff`).
-/

namespace XNMiner

open Lib

namespace FlushWave

variable {n : Nat} {c : FlushCall} {s₀ s t : FlushWave n} {w : Fin (n + 1)} {e : Errand} {i : Nat}
  {pc : PosterPc}

/-- A call begins with its books in order. -/
theorem inv_start {n : Nat} {c : FlushCall} {sup : Supervisor} (hid : BlockStore.IdInv sup.store)
    (metrics : FlushMetrics) (minute : Nat) (bagM : Int) :
    Inv c (start n c sup metrics minute bagM) (start n c sup metrics minute bagM) := by
  have hfresh : Fresh (start n c sup metrics minute bagM) (start n c sup metrics minute bagM) :=
    ⟨rfl, rfl, rfl, fun _ ↦ rfl, rfl, hid⟩
  by_cases hnil : (start n c sup metrics minute bagM).fetched = []
  · have hcall : (start n c sup metrics minute bagM).call = .returned 0 := if_pos hnil
    refine WaveInv.inv (hfresh.waveInv rfl rfl List.nodup_nil
      (fun _ hi ↦ absurd hi List.not_mem_nil) (.inr ⟨hcall, rfl⟩)) ?_
    simp [hcall]
  · have hcall : (start n c sup metrics minute bagM).call =
        .selecting (start n c sup metrics minute bagM).fetched := if_neg hnil
    refine SelectInv.inv ⟨hfresh, ?_, ?_⟩ hcall
    · exact BlockStore.nodup_map_id_listFlushBatch hid.nodup ..
    · intro id hmem
      obtain ⟨pb, hpb, heq⟩ := List.mem_map.mp hmem
      exact ⟨pb, (BlockStore.mem_of_mem_listFlushBatch hpb).1, heq⟩

/-- A row whose answer is being handled was posted. -/
theorem Team.posted (h : Team c s) (howes : (s.posters w).owes e = some i)
    (hpost : (s.posters w).owes .post = none) : i ∈ s.past .post := by
  refine (h.accounts.mem .post i).mpr ⟨h.accounts.below w e i howes, rfl, fun w' hw' ↦ ?_⟩
  obtain rfl := h.accounts.alone w w' e .post i howes hw'
  exact absurd (hpost.symm.trans hw') (by simp)

/-! ## When nobody owes anything -/

namespace WaveInv

/-- An errand was done for the rows that were posted and whose answer asks for it. -/
theorem perm_past (h : WaveInv c s₀ s) (hcall : s.call ≠ .posting) (e : Errand) :
    (s.past e).Perm ((s.past .post).filter (c.due e)) := by
  have howes := (h.after hcall).1
  refine (List.perm_ext_iff_of_nodup (h.team.accounts.nodup e)
    ((h.team.accounts.nodup .post).filter _)).mpr fun i ↦ ?_
  rw [List.mem_filter, h.team.accounts.mem e i, h.team.accounts.mem .post i]
  simp [howes, FlushCall.due]

/-- The ids of the rows for which an errand was done. -/
theorem perm_ids (h : WaveInv c s₀ s) (hcall : s.call ≠ .posting) (e : Errand) :
    (s.ids e).Perm (s.idsOf (c.due e)) := (h.perm_past hcall e).map _

/-- **No answer was fatal**: a reject was logged, so its body is text. -/
theorem not_fatal (h : WaveInv c s₀ s) (hcall : s.call ≠ .posting) (hi : i ∈ s.past .post) :
    ¬ Sup.Fatal (c.status i) (c.body i) := by
  intro hfatal
  have hlog : i ∈ s.past .log :=
    (h.perm_past hcall .log).mem_iff.mpr (List.mem_filter.mpr ⟨hi, hfatal.reject⟩)
  exact hfatal.notText (h.books.text i hlog)

/-- The rows of the work list keep apart by their ids. -/
theorem nodup_ids (h : WaveInv c s₀ s) (e : Errand) : (s.ids e).Nodup := by
  refine List.Nodup.map_on (fun i hi j hj heq ↦ ?_) (h.team.accounts.nodup e)
  have hi := h.past_lt e i hi
  have hj := h.past_lt e j hj
  have hget : (s.work.map (·.id))[i]? = (s.work.map (·.id))[j]? := by
    simpa [item, hi, hj] using heq
  exact (List.getElem?_inj (by simpa using hi) h.bag.work).mp hget

end WaveInv

/-- Taking rows out by id takes out as many as there are ids. -/
theorem length_filter_notMem {l : List PendingBlock} (hl : (l.map (·.id)).Nodup) {ids : List Int}
    (hids : ids.Nodup) (hmem : ∀ id ∈ ids, ∃ pb ∈ l, pb.id = id) :
    (l.filter fun pb ↦ decide (pb.id ∉ ids)).length + ids.length = l.length := by
  have hperm : ((l.filter fun pb ↦ decide (pb.id ∈ ids)).map (·.id)).Perm ids := by
    refine (List.perm_ext_iff_of_nodup ((List.filter_sublist.map _).nodup hl) hids).mpr
      fun id ↦ ?_
    rw [List.mem_map]
    constructor
    · rintro ⟨pb, hpb, rfl⟩
      simpa using (List.mem_filter.mp hpb).2
    · intro hid
      obtain ⟨pb, hpb, rfl⟩ := hmem id hid
      exact ⟨pb, List.mem_filter.mpr ⟨hpb, by simpa using hid⟩, rfl⟩
  have hsplit := (List.filter_append_perm (fun pb ↦ decide (pb.id ∈ ids)) l).length_eq
  have hlen := hperm.length_eq
  rw [List.length_map] at hlen
  rw [List.length_append] at hsplit
  simp only [← decide_not] at hsplit
  omega

/-- **A call that has returned is accounted for.** -/
theorem WaveInv.accounted (h : WaveInv c s₀ s) {k : Nat} (hcall : s.call = .returned k)
    (haccepts : s₀.accepts.total = 0) (hflushed : s₀.wave.flushed = 0) :
    Accounted c s₀ s := by
  have hne : s.call ≠ .posting := by simp [hcall]
  obtain ⟨hnone, hover⟩ := h.after hne
  have hgone : s.gone = s.ids .record := by simp [gone, hcall]
  have hmemrec : ∀ id, id ∈ s.ids .record ↔ id ∈ s.idsOf c.accepted := fun id ↦
    (h.perm_ids hne .record).mem_iff
  have hmemmark : ∀ id, id ∈ s.ids .mark ↔ id ∈ s.idsOf c.rejected := fun id ↦
    (h.perm_ids hne .mark).mem_iff
  have hlen : ∀ e, (s.past e).length = ((s.past .post).filter (c.due e)).length := fun e ↦
    (h.perm_past hne e).length_eq
  have hk : k = (s.past .record).length := by
    have hcount := h.books.counted .count
    simp only [tally, hflushed, zero_add] at hcount
    rw [h.result k hcall, hcount, hlen .count, hlen .record]
    rfl
  refine ⟨⟨h.team.accounts.nodup .post, h.past_lt .post⟩, fun hgo ↦ ?_, ?_, ⟨k, ?_, hcall, ?_, ?_⟩,
    ?_, ?_⟩
  · have hend : s.work.length ≤ s.wave.next := by
      rcases hover with hend | ⟨hdown, hno⟩
      · exact hend
      · rcases hgo with hgo | hgo
        · exact absurd (hgo.symm.trans hdown) (by simp)
        · exact absurd (hgo.symm.trans hno) (by simp)
    have hperm := h.team.accounts.perm hnone .post
    rw [min_eq_right hend] at hperm
    rwa [List.filter_eq_self.mpr (fun _ _ ↦ rfl : ∀ i ∈ List.range s.work.length,
      c.due .post i = true)] at hperm
  · have hremark : remark (s.ids .mark) = remark (s.idsOf c.rejected) := by
      funext pb
      simp only [remark, hmemmark]
    rw [h.bag.pending, hgone, hremark]
    simp only [hmemrec]
  · have hrow : ∀ id ∈ s.ids .record, ∃ pb ∈ s.before ++ s.enqueued, pb.id = id := by
      intro id hid
      obtain ⟨i, hi, rfl⟩ := List.mem_map.mp hid
      obtain ⟨pb, hpb, heq⟩ := h.bag.mem_before (h.past_lt .record i hi)
      exact ⟨pb, List.mem_append_left _ hpb, heq⟩
    have hids : (s.ids .record).length = k := by rw [ids, List.length_map, hk]
    rw [h.bag.pending, List.length_map, hgone, ← hids]
    exact length_filter_notMem h.bag.nodup (h.nodup_ids .record) hrow
  · have hcount := h.books.counted .record
    simp only [tally, haccepts, zero_add] at hcount
    rw [hcount, hk]
  · have hcount := h.books.counted .meter
    simp only [tally] at hcount
    rw [hcount, hk, hlen .meter, hlen .record]
    rfl
  · have hcount := h.books.counted .reject
    simp only [tally] at hcount
    rw [hcount, hlen .reject]
    rfl
  · rw [h.books.logged]
    exact ((h.perm_past hne .log).map _).append_left _

/-! ## Exactly when -/

/-- A step of a poster posts its row, ends the process, or does neither. -/
theorem posterStep_cases (h : s.posterStep c w pc = some t) :
    (∃ i, pc = .posting i ∧ t.past .post = s.past .post ++ [i] ∧ t.terminated = s.terminated) ∨
    (∃ i, pc = .logging i ∧ ¬ (c.body i).IsValidUTF8 ∧ t = { s with terminated := true }) ∨
    ((∀ i, pc ≠ .posting i) ∧ t.past .post = s.past .post ∧ t.terminated = s.terminated) := by
  cases pc with
  | posting i =>
      obtain rfl := Option.some.inj h
      exact .inl ⟨i, rfl, by simp, rfl⟩
  | handling i =>
      obtain rfl := Option.some.inj h
      rcases handle_cases c s w i with ⟨-, -, heq⟩ | ⟨-, -, _, _, heq⟩ | ⟨-, -, heq⟩
      all_goals
        rw [heq]
        exact .inr (.inr ⟨(by simp), rfl, rfl⟩)
  | logging i =>
      simp only [posterStep] at h
      split at h
      · next hlog =>
        obtain rfl := Option.some.inj h
        refine .inr (.inl ⟨i, rfl, fun hvalid ↦ ?_, rfl⟩)
        rw [BlockStore.logRejectionBytes_of_valid hvalid] at hlog
        cases hlog
      · obtain rfl := Option.some.inj h
        exact .inr (.inr ⟨(by simp), rfl, rfl⟩)
  | done => cases h
  | _ =>
      obtain rfl := Option.some.inj h
      exact .inr (.inr ⟨(by simp), rfl, rfl⟩)

/-- Only posters post, and only posters end the process. -/
theorem step_cases {a : Act n} (h : s.step c a = some t) :
    (∃ w, a = .poster w ∧ s.call = .posting ∧ s.posterStep c w (s.posters w) = some t) ∨
      ((∀ w, a ≠ .poster w) ∧ t.past = s.past ∧ t.terminated = s.terminated) := by
  unfold step at h
  split at h
  · cases h
  cases a with
  | queueHit now hit reason =>
      obtain rfl := Option.some.inj h
      exact .inr ⟨(by simp), rfl, rfl⟩
  | shutdown =>
      obtain rfl := Option.some.inj h
      exact .inr ⟨(by simp), rfl, rfl⟩
  | select minute miningM bagM =>
      dsimp only at h
      split at h
      · next rest _ =>
        obtain rfl := Option.some.inj h
        refine .inr ⟨(by simp), ?_⟩
        cases rest with
        | nil =>
            simp only [select, selected]
            split
            · split <;> exact ⟨rfl, rfl⟩
            · exact ⟨rfl, rfl⟩
        | cons pb rest =>
            simp only [select]
            split <;> exact ⟨rfl, rfl⟩
      · cases h
  | poster w =>
      dsimp only at h
      split at h
      · next hcall => exact .inl ⟨w, rfl, hcall, h⟩
      · cases h
  | call time =>
      simp only [callStep] at h
      refine .inr ⟨(by simp), ?_⟩
      split at h
      · split at h
        · obtain rfl := Option.some.inj h
          exact ⟨rfl, rfl⟩
        · cases h
      · obtain rfl := Option.some.inj h
        exact ⟨rfl, rfl⟩
      · obtain rfl := Option.some.inj h
        exact ⟨rfl, rfl⟩
      · cases h

/-- No answer so far was fatal, and the process goes on. -/
def Alive (c : FlushCall) (s : FlushWave n) : Prop :=
  s.terminated = false ∧ ∀ i ∈ s.past .post, ¬ Sup.Fatal (c.status i) (c.body i)

/-- **Steps with answers that are not fatal** do not end the process. -/
theorem Alive.step {a : Act n} (h : Alive c s) (hinv : Inv c s₀ s)
    (hs : Guarded (fun s a t ↦ s.step c a = some t) (Answerable c) s a t) : Alive c t := by
  obtain ⟨hs, hok⟩ := hs
  rcases step_cases hs with ⟨w, rfl, hcall, hposter⟩ | ⟨-, hpast, hterm⟩
  · rcases posterStep_cases hposter with ⟨i, hpc, hpast, hterm⟩ | ⟨i, hpc, hvalid, -⟩ |
      ⟨-, hpast, hterm⟩
    · refine ⟨hterm.trans h.1, fun j hj ↦ ?_⟩
      rw [hpast, List.mem_append, List.mem_singleton] at hj
      rcases hj with hj | rfl
      · exact h.2 j hj
      · simpa [Answerable, hpc] using hok
    · rcases hinv.cases with ⟨rest, hsel, -⟩ | ⟨-, hwave⟩
      · exact absurd (hcall.symm.trans hsel) (by simp)
      · have hrej : c.rejected i = true := by simpa [hpc, PosterPc.Fits] using hwave.team.fits w
        have hposted : i ∈ s.past .post := hwave.team.posted (w := w) (e := .log)
          (by rw [hpc]; rfl) (by rw [hpc]; rfl)
        exact absurd ⟨hrej, hvalid⟩ (h.2 i hposted)
    · exact ⟨hterm.trans h.1, by rw [hpast]; exact h.2⟩
  · exact ⟨hterm.trans h.1, by rw [hpast]; exact h.2⟩

/-- What was posted stays posted. -/
theorem past_subset_of_step {a : Act n} (h : s.step c a = some t) :
    s.past .post ⊆ t.past .post := by
  rcases step_cases h with ⟨w, rfl, -, hposter⟩ | ⟨-, hpast, -⟩
  · rcases posterStep_cases hposter with ⟨i, -, hpast, -⟩ | ⟨i, -, -, rfl⟩ | ⟨-, hpast, -⟩
    · rw [hpast]
      exact List.subset_append_left _ _
    · exact List.Subset.refl _
    · rw [hpast]
      exact List.Subset.refl _
  · rw [hpast]
    exact List.Subset.refl _

/-- A run that has posted no row with a fatal answer has taken only steps that go on. -/
theorem guarded_of_run {acts : List (Act n)}
    (hr : Run (fun s a t ↦ s.step c a = some t) s acts t)
    (hno : ∀ i ∈ t.past .post, ¬ Sup.Fatal (c.status i) (c.body i)) :
    s.past .post ⊆ t.past .post ∧
      Run (Guarded (fun s a t ↦ s.step c a = some t) (Answerable c)) s acts t := by
  induction hr with
  | nil => exact ⟨List.Subset.refl _, .nil _⟩
  | @cons s u t a acts hs _ ih =>
      obtain ⟨hsub, hrun⟩ := ih hno
      refine ⟨fun i hi ↦ hsub (past_subset_of_step hs hi), .cons ⟨hs, ?_⟩ hrun⟩
      cases a with
      | poster w =>
          cases hpc : s.posters w with
          | posting i =>
              have hposted : i ∈ u.past .post := by
                rcases step_cases hs with ⟨w', heq, -, hposter⟩ | ⟨hne, -⟩
                · obtain rfl := Act.poster.inj heq
                  rcases posterStep_cases hposter with ⟨j, hj, hpast, -⟩ | ⟨j, hj, -⟩ | ⟨hne, -⟩
                  · obtain rfl := PosterPc.posting.inj (hpc.symm.trans hj)
                    rw [hpast]
                    exact List.mem_append_right _ List.mem_cons_self
                  · exact absurd (hpc.symm.trans hj) (by simp)
                  · exact absurd hpc (hne i)
                · exact absurd rfl (hne w)
              simpa [Answerable, hpc] using hno i (hsub hposted)
          | _ => simp [Answerable, hpc]
      | _ => trivial

/-- **When the books of a flush wave are right.**  Take any bag whose rows keep apart by their ids,
any number of posters, any schedule of them, of queued hits and of a shutdown, and any answers.  A
call that has come to an end is accounted for exactly if no row was posted with a fatal answer: a
reject whose body is not text. -/
theorem accounted_iff {n : Nat} {c : FlushCall} {sup : Supervisor}
    (hid : BlockStore.IdInv sup.store) {metrics : FlushMetrics} {minute : Nat} {bagM : Int}
    {acts : List (Act n)} {t : FlushWave n}
    (hr : Run (fun s a t ↦ s.step c a = some t) (start n c sup metrics minute bagM) acts t)
    (hend : t.Finished) :
    Run (Guarded (fun s a t ↦ s.step c a = some t) (Answerable c))
        (start n c sup metrics minute bagM) acts t ↔
      Accounted c (start n c sup metrics minute bagM) t := by
  have hinv : Inv c (start n c sup metrics minute bagM) t :=
    hr.preserves (fun _ _ _ h hs ↦ h.step hs) (inv_start hid metrics minute bagM)
  have hwave : ∀ {k}, t.call = .returned k → WaveInv c (start n c sup metrics minute bagM) t := by
    intro k hk
    rcases hinv.cases with ⟨rest, hsel, -⟩ | ⟨-, hwave⟩
    · exact absurd (hk.symm.trans hsel) (by simp)
    · exact hwave
  constructor
  · intro hg
    have halive : Inv c (start n c sup metrics minute bagM) t ∧ Alive c t :=
      hg.preserves (I := fun s ↦ Inv c (start n c sup metrics minute bagM) s ∧ Alive c s)
        (fun _ _ _ h hs ↦ ⟨h.1.step hs.1, h.2.step h.1 hs⟩)
        ⟨inv_start hid metrics minute bagM, rfl, fun _ hi ↦ absurd hi List.not_mem_nil⟩
    rcases hend with hterm | ⟨k, hk⟩
    · exact absurd (halive.2.1.symm.trans hterm) (by simp)
    · exact (hwave hk).accounted hk rfl rfl
  · intro hacc
    obtain ⟨k, -, hk, -⟩ := hacc.accepted
    have hne : t.call ≠ .posting := by simp [hk]
    exact (guarded_of_run hr fun i hi ↦ (hwave hk).not_fatal hne hi).2

/-! ### Two rows -/

/-- A hit with its cost in the text. -/
def rowHit (digest : String) : BlockHit where
  hashStr := "$argon2id$v=19$m=1100,t=1,p=1$AAAA$" ++ digest
  blockType := "XNM"
  memoryCost := some 1100

/-- A bag of two rows. -/
def twoRowBag : Supervisor where
  settings := Settings.defaults
  store := { pending := [{ id := 1, hit := rowHit "a" }, { id := 2, hit := rowHit "b" }]
             nextId := 3 }

theorem idInv_twoRowBag : BlockStore.IdInv twoRowBag.store where
  nodup := by decide
  lt := by
    intro pb hpb
    simp only [twoRowBag, List.mem_cons, List.not_mem_nil, or_false] at hpb
    rcases hpb with rfl | rfl
    · exact by decide
    · exact by decide

/-- The pool accepts the first row and rejects every other with this body. -/
def acceptFirst (body : ByteArray) : FlushCall where
  netM := 1100
  status := fun i ↦ if i = 0 then 200 else 400
  body := fun _ ↦ body
  stamp := fun _ ↦ "t₀"

/-- The call when it has fetched both rows. -/
def fetchedTwo : FlushWave 1 where
  sup := twoRowBag
  fetched := twoRowBag.store.pending
  call := .selecting twoRowBag.store.pending
  before := twoRowBag.store.pending

theorem start_twoRowBag (body : ByteArray) :
    start 1 (acceptFirst body) twoRowBag {} 0 1100 = fetchedTwo := by
  have hlist : twoRowBag.store.listFlushBatch 0 1100 1100
      (fetchLimit false (waveLimit twoRowBag.settings false false)) twoRowBag.flushSkipBeforeId =
        twoRowBag.store.pending := by
    have hpick : pick (twoRowBag.store.flushCap
        (fetchLimit false (waveLimit twoRowBag.settings false false)))
          (BlockStore.flushable 0 1100 1100) (BlockStore.belowSkip twoRowBag.flushSkipBeforeId)
            twoRowBag.store.pending = twoRowBag.store.pending := by decide +kernel
    rw [BlockStore.listFlushBatch, hpick]
    exact List.mergeSort_of_pairwise (by decide +kernel)
  simp only [start, acceptFirst, hlist]
  rfl

/-- Two posters take the two rows.  The second rejects its row and leaves, while the first has one
accepted; a hit is queued meanwhile. -/
def twoPosters : List (Act 1) :=
  [.select 0 1100 1100, .select 0 1100 1100, .select 0 1100 1100, .poster 0, .poster 0, .poster 1,
    .poster 1, .poster 0, .poster 1, .poster 1, .queueHit "t₀" (rowHit "c") "network_down",
    .poster 1, .poster 1, .poster 0, .poster 0, .poster 1, .poster 1, .poster 0, .poster 0,
    .poster 0, .poster 0, .call 0, .call 0, .call 0]

/-- One row leaves the bag, the other is marked, and a new one waits. -/
theorem accounted_two_rows : ∃ t, Accounted (acceptFirst "no".toUTF8)
    (start 1 (acceptFirst "no".toUTF8) twoRowBag {} 0 1100) t ∧
      t.store.pending.map (fun pb ↦ (pb.id, pb.queueReason)) =
        [(2, "resubmission"), (3, "network_down")] ∧ t.call = .returned 1 := by
  obtain ⟨t, ht, heq⟩ := Option.map_eq_some_iff.mp (show
    (exec (fun s a ↦ if Answerable (acceptFirst "no".toUTF8) s a then
        step (acceptFirst "no".toUTF8) s a else none) fetchedTwo twoPosters).map
      (fun t ↦ (t.call, t.store.pending.map fun pb ↦ (pb.id, pb.queueReason))) =
        some (.returned 1, [(2, "resubmission"), (3, "network_down")]) by decide +kernel)
  have hcall : t.call = .returned 1 := congrArg Prod.fst heq
  have hg := run_guarded_of_exec ht
  rw [← start_twoRowBag "no".toUTF8] at hg
  exact ⟨t, (accounted_iff idInv_twoRowBag hg.of_guarded (.inr ⟨1, hcall⟩)).mp hg,
    congrArg Prod.snd heq, hcall⟩

/-- With a body that is not text the second row ends the process: it is counted as a reject, but
neither logged nor marked, and the first stays in the bag after its accept. -/
theorem not_accounted_strayByte : ¬ ∀ (n : Nat) (c : FlushCall) (sup : Supervisor),
    BlockStore.IdInv sup.store → ∀ (metrics : FlushMetrics) (minute : Nat) (bagM : Int)
      (acts : List (Act n)) (t : FlushWave n),
      Run (fun s a t ↦ s.step c a = some t) (start n c sup metrics minute bagM) acts t →
        t.Finished → Accounted c (start n c sup metrics minute bagM) t := by
  intro hall
  let acts : List (Act 1) := [.select 0 1100 1100, .select 0 1100 1100, .select 0 1100 1100,
    .poster 0, .poster 0, .poster 1, .poster 1, .poster 0, .poster 1, .poster 0, .poster 1,
    .poster 1]
  obtain ⟨t, ht, heq⟩ := Option.map_eq_some_iff.mp (show
    (exec (step (acceptFirst Sup.strayByte)) fetchedTwo acts).map
      (fun t ↦ (t.terminated, t.call)) = some (true, .posting) by decide +kernel)
  have hr := run_of_exec ht
  rw [← start_twoRowBag Sup.strayByte] at hr
  have hacc := hall 1 _ twoRowBag idInv_twoRowBag {} 0 1100 acts t hr
    (.inl (congrArg Prod.fst heq))
  obtain ⟨k, -, hk, -⟩ := hacc.accepted
  exact absurd ((congrArg Prod.snd heq).symm.trans hk) (by simp)

end FlushWave

end XNMiner
