import XNMiner.App.FlushWave

/-!
# The books of a flush wave

What holds at every moment of a wave, in parts that each look at a part of the state: the posters
and what they owe (`Team`), the counters (`Books`), the rows of the bag (`Bag`), and the thread of
the call (`WaveInv`).  During the selection that comes before, the rows on the work list are rows of
the bag (`SelectInv`).  Every step keeps them (`Inv.step`).
-/

namespace XNMiner

open Lib

namespace FlushWave

variable {n : Nat} {c : FlushCall} {s₀ s t : FlushWave n} {w : Fin (n + 1)} {e : Errand} {i : Nat}
  {pc : PosterPc}

/-! ## The team -/

/-- The books of the posters. -/
structure Team (c : FlushCall) (s : FlushWave n) : Prop where
  accounts : Accounts s.work.length c.due s.wave.next (fun w ↦ (s.posters w).owes) s.past
  fits : ∀ w, (s.posters w).Fits c

/-- A poster goes on, with the row it has or with none. -/
theorem Team.goto (h : Team c s) {t : FlushWave n} (hwork : t.work = s.work)
    (hnext : t.wave.next = s.wave.next) (hposters : t.posters = s.posters) (hfits : pc.Fits c)
    (i : Nat) (howes : ∀ e, (pc.owes e = (s.posters w).owes e ∧ t.past e = s.past e) ∨
      ((s.posters w).owes e = some i ∧ pc.owes e = none ∧
        t.past e = if c.due e i then s.past e ++ [i] else s.past e)) :
    Team c (t.goto w pc) where
  accounts := by
    rw [goto_past, show (t.goto w pc).work = s.work from hwork,
      show (t.goto w pc).wave.next = s.wave.next from hnext]
    refine Accounts.work (w := w) (i := i) h.accounts (fun v hv e ↦ ?_) fun e ↦ ?_
    · simp [FlushWave.goto, hposters, Function.update_of_ne hv]
    · simpa [Accounts.Works, FlushWave.goto] using howes e
  fits := by
    intro v
    by_cases hv : v = w
    · subst hv
      simpa [FlushWave.goto] using hfits
    · simpa [FlushWave.goto, hposters, Function.update_of_ne hv] using h.fits v

/-- **No row is posted twice**, whatever the posters do. -/
theorem Team.poster (h : Team c s) : ∀ {pc}, s.posters w = pc → s.posterStep c w pc = some t →
    Team c t
  | .looping, hpc, hs => by
      obtain rfl := Option.some.inj hs
      refine h.goto rfl rfl rfl ?_ 0 fun e ↦ .inl ⟨?_, rfl⟩
      · split <;> trivial
      · rw [hpc]
        split <;> rfl
  | .fetching, hpc, hs => by
      obtain rfl := Option.some.inj hs
      by_cases hlt : s.wave.next < s.work.length
      · rw [if_pos hlt]
        refine ⟨Accounts.take (w := w) h.accounts hlt (fun e ↦ ?_) (fun e ↦ ?_) fun v hv e ↦ ?_, ?_⟩
        · rw [hpc]
          rfl
        · simp [FlushWave.goto, PosterPc.owes]
        · simp [FlushWave.goto, Function.update_of_ne hv]
        · intro v
          by_cases hv : v = w
          · subst hv
            simp [FlushWave.goto, PosterPc.Fits]
          · simpa [FlushWave.goto, Function.update_of_ne hv] using h.fits v
      · rw [if_neg hlt]
        have hteam : Team c (s.goto w .done) := h.goto rfl rfl rfl trivial 0 fun e ↦
          .inl ⟨by rw [hpc]; rfl, rfl⟩
        exact ⟨hteam.accounts.overrun (not_lt.mp hlt), hteam.fits⟩
  | .posting i, hpc, hs => by
      obtain rfl := Option.some.inj hs
      refine h.goto rfl rfl rfl trivial i fun e ↦ ?_
      rw [hpc]
      cases e <;> simp [PosterPc.owes, FlushCall.due]
  | .handling i, hpc, hs => by
      obtain rfl := Option.some.inj hs
      rcases handle_cases c s w i with ⟨hacc, hrej, heq⟩ | ⟨hacc, hrej, _, _, heq⟩ |
        ⟨hacc, hrej, heq⟩
      · rw [heq]
        refine h.goto rfl rfl rfl hacc i fun e ↦ ?_
        rw [hpc]
        cases e <;> simp [PosterPc.owes, FlushCall.due, hacc, hrej, record]
      · rw [heq]
        refine h.goto rfl rfl rfl trivial i fun e ↦ ?_
        rw [hpc]
        cases e <;> simp [PosterPc.owes, FlushCall.due, hacc, hrej]
      · rw [heq]
        refine h.goto rfl rfl rfl hrej i fun e ↦ ?_
        rw [hpc]
        cases e <;> simp [PosterPc.owes, FlushCall.due, hacc, hrej, reject]
  | .metering i, hpc, hs => by
      obtain rfl := Option.some.inj hs
      have hacc : c.accepted i = true := by simpa [hpc, PosterPc.Fits] using h.fits w
      refine h.goto rfl rfl rfl hacc i fun e ↦ ?_
      rw [hpc]
      cases e <;> simp [PosterPc.owes, FlushCall.due, hacc, meter]
  | .counting i, hpc, hs => by
      obtain rfl := Option.some.inj hs
      have hacc : c.accepted i = true := by simpa [hpc, PosterPc.Fits] using h.fits w
      refine h.goto rfl rfl rfl (by split <;> trivial) i fun e ↦ ?_
      rw [hpc]
      split <;> cases e <;> simp [PosterPc.owes, FlushCall.due, hacc, countFlushed]
  | .drainFlushed, hpc, hs => by
      obtain rfl := Option.some.inj hs
      exact h.goto rfl rfl rfl trivial 0 fun e ↦ .inl ⟨by rw [hpc]; rfl, rfl⟩
  | .drainCleared, hpc, hs => by
      obtain rfl := Option.some.inj hs
      exact h.goto rfl rfl rfl trivial 0 fun e ↦ .inl ⟨by rw [hpc]; rfl, rfl⟩
  | .noting, hpc, hs => by
      obtain rfl := Option.some.inj hs
      exact h.goto rfl rfl rfl trivial 0 fun e ↦ .inl ⟨by rw [hpc]; rfl, rfl⟩
  | .logging i, hpc, hs => by
      have hrej : c.rejected i = true := by simpa [hpc, PosterPc.Fits] using h.fits w
      simp only [posterStep] at hs
      split at hs
      · obtain rfl := Option.some.inj hs
        exact ⟨h.accounts, h.fits⟩
      · obtain rfl := Option.some.inj hs
        refine h.goto rfl rfl rfl hrej i fun e ↦ ?_
        rw [hpc]
        cases e <;> simp [PosterPc.owes, FlushCall.due, hrej, log, setStore]
  | .marking i, hpc, hs => by
      have hrej : c.rejected i = true := by simpa [hpc, PosterPc.Fits] using h.fits w
      obtain rfl := Option.some.inj hs
      refine h.goto rfl rfl rfl trivial i fun e ↦ ?_
      rw [hpc]
      cases e <;> simp [PosterPc.owes, FlushCall.due, hrej, mark, setStore]
  | .done, _, hs => by cases hs

/-! ## The counters -/

/-- The rows for which an errand was done. -/
def ids (s : FlushWave n) (e : Errand) : List Int := (s.past e).map fun i ↦ (s.item i).id

/-- What counts an errand; those that feed no counter count for themselves. -/
def tally (s : FlushWave n) : Errand → Nat
  | .record => s.accepts.total
  | .meter => s.metrics.acceptedFlush.total
  | .count => s.wave.flushed
  | .reject => s.metrics.rejectedFlush.total
  | e => (s.past e).length

/-- Every counter has grown by the number of errands it counts, and the audit log has a line for
each rejection logged. -/
structure Books (c : FlushCall) (s₀ s : FlushWave n) : Prop where
  counted : ∀ e, s.tally e = s₀.tally e + (s.past e).length
  logged : s.store.files.rejected =
    s₀.store.files.rejected ++ (s.past .log).map (s.auditRecord c)
  text : ∀ i ∈ s.past .log, (c.body i).IsValidUTF8

/-- A step that logs nothing keeps the books if it counts what it does. -/
theorem Books.of_counts (h : Books c s₀ s)
    (hcounts : ∀ e, t.tally e + (s.past e).length = s.tally e + (t.past e).length)
    (hwork : t.work = s.work) (hlog : t.past .log = s.past .log)
    (hrejected : t.store.files.rejected = s.store.files.rejected) : Books c s₀ t where
  counted := fun e ↦ by
    have hc := hcounts e
    have hs := h.counted e
    omega
  logged := by
    have hrecord : t.auditRecord c = s.auditRecord c := by
      funext i
      simp only [auditRecord, item, hwork]
    rw [hrejected, hlog, hrecord]
    exact h.logged
  text := by
    rw [hlog]
    exact h.text

theorem Books.post (h : Books c s₀ s) (i : Nat) : Books c s₀ (s.did .post i) :=
  h.of_counts (fun e ↦ by cases e <;> simp [tally, did]; omega) rfl rfl rfl

theorem Books.record (h : Books c s₀ s) (i : Nat) : Books c s₀ (s.record i) :=
  h.of_counts (fun e ↦ by
    cases e <;> simp [tally, FlushWave.record, did]; omega) rfl rfl rfl

theorem Books.meter (h : Books c s₀ s) (i : Nat) : Books c s₀ (s.meter i) :=
  h.of_counts (fun e ↦ by
    cases e <;> simp [tally, FlushWave.meter, did]; omega) rfl rfl rfl

theorem Books.countFlushed (h : Books c s₀ s) (i : Nat) : Books c s₀ (s.countFlushed i) :=
  h.of_counts (fun e ↦ by
    cases e <;> simp [tally, FlushWave.countFlushed, did]; omega) rfl rfl rfl

theorem Books.reject (h : Books c s₀ s) (i : Nat) : Books c s₀ (s.reject i) :=
  h.of_counts (fun e ↦ by
    cases e <;> simp [tally, FlushWave.reject, did]; omega) rfl rfl rfl

theorem Books.mark (h : Books c s₀ s) (i : Nat) : Books c s₀ (s.mark i) :=
  h.of_counts (fun e ↦ by
    cases e <;> simp [tally, FlushWave.mark, setStore, did]; omega) rfl rfl
    (BlockStore.markPendingReason_rejected ..)

/-- A rejection is logged as it was answered, or not at all. -/
theorem Books.log (h : Books c s₀ s) {store : BlockStore}
    (hlog : s.store.logRejectionBytes (c.stamp i) (s.item i).hit.bytes (c.status i) (c.body i)
      "flush" = some store) : Books c s₀ (s.log store i) := by
  have hvalid : (c.body i).IsValidUTF8 := by
    by_contra hno
    rw [BlockStore.logRejectionBytes_of_not_valid hno] at hlog
    cases hlog
  have hrejected : store.files.rejected = s.store.files.rejected ++ [s.auditRecord c i] := by
    rw [BlockStore.logRejectionBytes_of_valid hvalid] at hlog
    rw [← Option.some.inj hlog]
    simp [auditRecord, bodyText, hvalid, BlockStore.logRejection]
  have hpast : (s.log store i).past .log = s.past .log ++ [i] := did_past_self
  refine ⟨fun e ↦ ?_, ?_, ?_⟩
  · have hcounted := h.counted e
    cases e <;> simp [tally, FlushWave.log, setStore, did] at hcounted ⊢ <;> omega
  · rw [hpast, List.map_append, ← List.append_assoc]
    change store.files.rejected = (_ ++ (s.past .log).map (s.auditRecord c)) ++ [s.auditRecord c i]
    rw [hrejected, h.logged]
  · intro j hj
    rw [hpast, List.mem_append, List.mem_singleton] at hj
    rcases hj with hj | rfl
    · exact h.text j hj
    · exact hvalid

/-! ## The bag -/

/-- The ids of the rows that have left the bag. -/
def gone (s : FlushWave n) : List Int :=
  match s.call with
  | .counting | .returned _ => s.ids .record
  | _ => []

/-- The bag is what it was before and what was queued since, up to the rows that were taken out and
the reasons that were changed.  Rows keep apart by their ids. -/
structure Bag (s : FlushWave n) : Prop where
  work : (s.work.map (·.id)).Nodup
  mem : ∀ item ∈ s.work, ∃ pb ∈ s.before, pb.id = item.id
  nodup : ((s.before ++ s.enqueued).map (·.id)).Nodup
  lt : ∀ pb ∈ s.before ++ s.enqueued, pb.id < s.store.nextId
  pending : s.store.pending = ((s.before ++ s.enqueued).filter fun pb ↦
    decide (pb.id ∉ s.gone)).map (remark (s.ids .mark))

/-- A step that changes no row. -/
theorem Bag.of_same (h : Bag s) (hwork : t.work = s.work) (hbefore : t.before = s.before)
    (henqueued : t.enqueued = s.enqueued) (hpending : t.store.pending = s.store.pending)
    (hnext : t.store.nextId = s.store.nextId) (hgone : t.gone = s.gone)
    (hmark : t.ids .mark = s.ids .mark) : Bag t where
  work := by rw [hwork]; exact h.work
  mem := by rw [hwork, hbefore]; exact h.mem
  nodup := by rw [hbefore, henqueued]; exact h.nodup
  lt := by rw [hbefore, henqueued, hnext]; exact h.lt
  pending := by rw [hpending, hbefore, henqueued, hgone, hmark]; exact h.pending

/-- The rows a poster has are rows of the bag when the wave began. -/
theorem Bag.mem_before (h : Bag s) (hi : i < s.work.length) :
    ∃ pb ∈ s.before, pb.id = (s.item i).id := by
  have hitem : s.item i = s.work[i] := by simp [item, hi]
  rw [hitem]
  exact h.mem _ (List.getElem_mem hi)

@[simp] theorem remark_id (l : List Int) (pb : PendingBlock) : (remark l pb).id = pb.id := by
  unfold remark
  split <;> rfl

/-- Changing the first row with an id is changing every row with it, where ids are distinct. -/
theorem updateFirst_eq_map {id : Int} {f : PendingBlock → PendingBlock} {l : List PendingBlock}
    (h : (l.map (·.id)).Nodup) :
    BlockStore.updateFirst id f l = l.map fun pb ↦ if pb.id = id then f pb else pb := by
  induction l with
  | nil => rfl
  | cons pb rest ih =>
      rw [List.map_cons, List.nodup_cons] at h
      by_cases hid : pb.id = id
      · have hrest : rest.map (fun pb ↦ if pb.id = id then f pb else pb) = rest := by
          refine (List.map_congr_left fun pb' hpb' ↦ ?_).trans (List.map_id rest)
          have hne : pb'.id ≠ id := fun he ↦ h.1 (hid ▸ he ▸ List.mem_map_of_mem hpb')
          rw [if_neg hne]
          rfl
        simp [BlockStore.updateFirst, hid, hrest]
      · simp [BlockStore.updateFirst, hid, ih h.2]

/-- **A rejection changes the reason of its row**, and of no other. -/
theorem Bag.mark (h : Bag s) (hcall : s.call = .posting) (i : Nat) : Bag (s.mark i) where
  work := h.work
  mem := h.mem
  nodup := h.nodup
  lt := by
    have hnext : (s.mark i).store.nextId = s.store.nextId := by
      simp [FlushWave.mark, setStore, did, store, BlockStore.markPendingReason]
    rw [hnext]
    exact h.lt
  pending := by
    have hgone : (s.mark i).gone = [] := by simp [gone, FlushWave.mark, did, setStore, hcall]
    have hids : (s.mark i).ids .mark = s.ids .mark ++ [(s.item i).id] := by
      simp [ids, FlushWave.mark, setStore, did, item]
    have hold : s.store.pending = (s.before ++ s.enqueued).map (remark (s.ids .mark)) := by
      have := h.pending
      rw [show s.gone = [] by simp [gone, hcall]] at this
      simpa using this
    have hnodup : (s.store.pending.map (·.id)).Nodup := by
      rw [hold, List.map_map]
      simpa [Function.comp_def] using h.nodup
    rw [hgone, hids]
    change (s.store.markPendingReason _ _).pending = _
    simp only [BlockStore.markPendingReason, BlockStore.maybeSave_pending,
      BlockStore.markDirty_pending]
    rw [updateFirst_eq_map hnodup, hold, List.map_map]
    change _ = ((s.before ++ s.enqueued).filter _).map _
    simp only [List.not_mem_nil, not_false_eq_true, decide_true, List.filter_true]
    refine List.map_congr_left fun pb _ ↦ ?_
    by_cases hid : pb.id = (s.item i).id <;> by_cases hmem : pb.id ∈ s.ids .mark <;>
      simp_all [remark]

/-- The ids of rows that were handled are ids of the bag. -/
theorem Bag.lt_of_mem_ids (h : Bag s) (hpast : ∀ i ∈ s.past e, i < s.work.length) {id : Int}
    (hid : id ∈ s.ids e) : id < s.store.nextId := by
  obtain ⟨i, hi, rfl⟩ := List.mem_map.mp hid
  obtain ⟨pb, hpb, heq⟩ := h.mem_before (hpast i hi)
  rw [← heq]
  exact h.lt pb (List.mem_append_left _ hpb)

theorem gone_subset (s : FlushWave n) : s.gone = [] ∨ s.gone = s.ids .record := by
  unfold gone
  split
  · exact .inr rfl
  · exact .inr rfl
  · exact .inl rfl

/-- **A hit that is queued meanwhile** is a row of its own at the end of the bag. -/
theorem Bag.queueHit (h : Bag s) (hpast : ∀ e, ∀ i ∈ s.past e, i < s.work.length) (now : String)
    (hit : BlockHit) (reason : String) : Bag (s.queueHit now hit reason) := by
  rcases s.store.enqueue_cases now hit reason with ⟨-, -, heq⟩ | ⟨hpending, hnext⟩
  · have hs : s.queueHit now hit reason = s := by
      unfold FlushWave.queueHit
      dsimp only
      rw [heq, List.drop_length, List.append_nil]
      rfl
    rw [hs]
    exact h
  · let row : PendingBlock := { id := s.store.nextId, hit, queueReason := reason }
    have henqueued : (s.queueHit now hit reason).enqueued = s.enqueued ++ [row] := by
      simp [FlushWave.queueHit, hpending, row]
    have hrows : s.before ++ (s.enqueued ++ [row]) = (s.before ++ s.enqueued) ++ [row] :=
      (List.append_assoc ..).symm
    have hnew : ∀ e, row.id ∉ s.ids e := fun e hid ↦
      lt_irrefl _ (h.lt_of_mem_ids (hpast e) hid)
    have hgone : row.id ∉ s.gone := by
      rcases s.gone_subset with hg | hg <;> rw [hg]
      · exact List.not_mem_nil
      · exact hnew _
    refine ⟨h.work, h.mem, ?_, ?_, ?_⟩
    · rw [henqueued]
      change ((s.before ++ (s.enqueued ++ [row])).map (·.id)).Nodup
      rw [hrows, List.map_append]
      refine h.nodup.append (List.nodup_singleton _) ?_
      rw [List.map_singleton, List.disjoint_singleton]
      intro hmem
      obtain ⟨pb, hpb, hid⟩ := List.mem_map.mp hmem
      exact absurd (h.lt pb hpb) (by rw [hid]; exact lt_irrefl _)
    · rw [henqueued]
      change ∀ pb ∈ s.before ++ (s.enqueued ++ [row]), _ < (s.store.enqueue now hit reason).2.nextId
      rw [hrows, hnext]
      intro pb hpb
      rcases List.mem_append.mp hpb with hpb | hpb
      · exact (h.lt pb hpb).trans (lt_add_one _)
      · rw [List.mem_singleton.mp hpb]
        exact lt_add_one _
    · rw [henqueued]
      change (s.store.enqueue now hit reason).2.pending =
        ((s.before ++ (s.enqueued ++ [row])).filter fun pb ↦ decide (pb.id ∉ s.gone)).map
          (remark (s.ids .mark))
      have hfilter : ([row].filter fun pb ↦ decide (pb.id ∉ s.gone)) = [row] := by
        simpa using hgone
      have hremark : remark (s.ids .mark) row = row := if_neg (hnew _)
      rw [hrows, hpending, List.filter_append, List.map_append, ← h.pending, hfilter,
        List.map_singleton, hremark]

/-- **The accepted rows leave the bag**, and no other row does. -/
theorem Bag.remove (h : Bag s) (hgone : s.gone = []) :
    Bag { s.setStore (s.store.markSubmittedMany (s.ids .record)) with call := .counting } where
  work := h.work
  mem := h.mem
  nodup := h.nodup
  lt := by
    change ∀ pb ∈ s.before ++ s.enqueued,
      pb.id < (s.store.markSubmittedMany (s.ids .record)).nextId
    rw [BlockStore.markSubmittedMany_nextId]
    exact h.lt
  pending := by
    change (s.store.markSubmittedMany (s.ids .record)).pending =
      ((s.before ++ s.enqueued).filter fun pb ↦ decide (pb.id ∉ s.ids .record)).map
        (remark (s.ids .mark))
    rw [BlockStore.markSubmittedMany_pending, h.pending, hgone, List.filter_map]
    simp [Function.comp_def]

/-! ## The wave -/

/-- `shutting_down_` makes posters leave. -/
def Stopped (c : FlushCall) (s : FlushWave n) : Prop :=
  s.sup.shuttingDown = true ∧ c.onShutdown = false

/-- What holds from the end of the selection on, in a wave that began in `s₀`. -/
structure WaveInv (c : FlushCall) (s₀ s : FlushWave n) : Prop where
  team : Team c s
  books : Books c s₀ s
  bag : Bag s
  /-- The list of accepted ids is kept, then taken. -/
  listed : match s.call with
    | .posting => s.wave.acceptedIds = s.ids .record
    | .removing ids => ids = s.ids .record
    | _ => True
  /-- A poster leaves when there is nothing to take, or on shutdown. -/
  left : ∀ w, s.posters w = .done → s.work.length ≤ s.wave.next ∨ Stopped c s
  /-- The call goes on when all posters have left. -/
  after : s.call ≠ .posting →
    (∀ w e, (s.posters w).owes e = none) ∧ (s.work.length ≤ s.wave.next ∨ Stopped c s)
  result : ∀ k, s.call = .returned k → k = s.wave.flushed

namespace WaveInv

/-- A poster that takes a step within its row. -/
theorem goto (h : WaveInv c s₀ s) (hcall : s.call = .posting) {t : FlushWave n}
    (hteam : Team c (t.goto w pc)) (hbooks : Books c s₀ t) (hbag : Bag t)
    (hlisted : t.wave.acceptedIds = t.ids .record) (hcall' : t.call = s.call)
    (hposters : t.posters = s.posters)
    (hleft : s.work.length ≤ s.wave.next ∨ Stopped c s →
      t.work.length ≤ t.wave.next ∨ Stopped c t)
    (hdone : pc = .done → t.work.length ≤ t.wave.next ∨ Stopped c t) :
    WaveInv c s₀ (t.goto w pc) where
  team := hteam
  books := ⟨hbooks.counted, hbooks.logged, hbooks.text⟩
  bag := ⟨hbag.work, hbag.mem, hbag.nodup, hbag.lt, hbag.pending⟩
  listed := by
    rw [show (t.goto w pc).call = .posting from hcall'.trans hcall]
    exact hlisted
  left := by
    intro v hv
    by_cases hvw : v = w
    · subst hvw
      exact hdone (by simpa [FlushWave.goto] using hv)
    · exact hleft (h.left v (by simpa [FlushWave.goto, hvw, hposters] using hv))
  after := fun hne ↦ absurd (hcall'.trans hcall) hne
  result := by
    intro k hk
    exact absurd ((hcall'.trans hcall).symm.trans hk) (by simp)

/-- **A step of a poster keeps the books.** -/
theorem poster (h : WaveInv c s₀ s) (hcall : s.call = .posting) : ∀ {pc}, s.posters w = pc →
    s.posterStep c w pc = some t → WaveInv c s₀ t := by
  intro pc hpc hs
  have hteam : Team c t := h.team.poster hpc hs
  have hlisted : s.wave.acceptedIds = s.ids .record := by
    have := h.listed
    rwa [hcall] at this
  have hsame : ∀ {t : FlushWave n}, t.work = s.work → t.before = s.before →
      t.enqueued = s.enqueued → t.store.pending = s.store.pending →
      t.store.nextId = s.store.nextId → t.call = s.call → t.past .mark = s.past .mark → Bag t := by
    intro t hwork hbefore henqueued hpending hnext ht hmark
    refine h.bag.of_same hwork hbefore henqueued hpending hnext ?_ ?_
    · simp [gone, ht, hcall]
    · simp only [ids, hmark, item, hwork]
  cases pc with
  | looping =>
      obtain rfl := Option.some.inj hs
      refine h.goto hcall hteam h.books h.bag hlisted rfl rfl id fun hdone ↦ ?_
      split at hdone
      · next hstop =>
        simp only [Bool.and_eq_true, Bool.not_eq_true'] at hstop
        exact .inr hstop
      · cases hdone
  | fetching =>
      obtain rfl := Option.some.inj hs
      refine h.goto hcall hteam
        (h.books.of_counts (fun e ↦ by cases e <;> simp [tally]) rfl rfl rfl)
        (hsame rfl rfl rfl rfl rfl rfl rfl) hlisted rfl rfl ?_ fun hdone ↦ ?_
      · rintro (hend | hstop)
        · exact .inl (hend.trans (Nat.le_succ _))
        · exact .inr hstop
      · split at hdone
        · cases hdone
        · next hend => exact .inl ((not_lt.mp hend).trans (Nat.le_succ _))
  | posting i =>
      obtain rfl := Option.some.inj hs
      exact h.goto hcall hteam (h.books.post i) (hsame rfl rfl rfl rfl rfl rfl rfl) hlisted rfl rfl
        id (by simp)
  | handling i =>
      obtain rfl := Option.some.inj hs
      rcases handle_cases c s w i with ⟨-, -, heq⟩ | ⟨-, -, transients, holds, heq⟩ | ⟨-, -, heq⟩
      · rw [heq] at hteam ⊢
        refine h.goto hcall hteam (h.books.record i) (hsame rfl rfl rfl rfl rfl rfl rfl) ?_ rfl rfl
          id (by simp)
        simp [record, ids, did, item, hlisted]
      · rw [heq] at hteam ⊢
        exact h.goto hcall hteam
          (h.books.of_counts (fun e ↦ by cases e <;> simp [tally]) rfl rfl rfl)
          (hsame rfl rfl rfl rfl rfl rfl rfl) hlisted rfl rfl id (by simp)
      · rw [heq] at hteam ⊢
        exact h.goto hcall hteam (h.books.reject i) (hsame rfl rfl rfl rfl rfl rfl rfl) hlisted rfl
          rfl id (by simp)
  | metering i =>
      obtain rfl := Option.some.inj hs
      exact h.goto hcall hteam (h.books.meter i) (hsame rfl rfl rfl rfl rfl rfl rfl) hlisted rfl rfl
        id (by simp)
  | counting i =>
      obtain rfl := Option.some.inj hs
      refine h.goto hcall hteam (h.books.countFlushed i) (hsame rfl rfl rfl rfl rfl rfl rfl) hlisted
        rfl rfl id fun hdone ↦ ?_
      split at hdone <;> cases hdone
  | drainFlushed =>
      obtain rfl := Option.some.inj hs
      exact h.goto hcall hteam
        (h.books.of_counts (fun e ↦ by cases e <;> simp [tally]) rfl rfl rfl)
        (hsame rfl rfl rfl rfl rfl rfl rfl) hlisted rfl rfl id (by simp)
  | drainCleared =>
      obtain rfl := Option.some.inj hs
      exact h.goto hcall hteam
        (h.books.of_counts (fun e ↦ by cases e <;> simp [tally]) rfl rfl rfl)
        (hsame rfl rfl rfl rfl rfl rfl rfl) hlisted rfl rfl id (by simp)
  | noting =>
      obtain rfl := Option.some.inj hs
      exact h.goto hcall hteam
        (h.books.of_counts (fun e ↦ by cases e <;> simp [tally]) rfl rfl rfl)
        (hsame rfl rfl rfl rfl rfl rfl rfl) hlisted rfl rfl id (by simp)
  | logging i =>
      simp only [posterStep] at hs
      split at hs
      · obtain rfl := Option.some.inj hs
        exact ⟨hteam, ⟨h.books.counted, h.books.logged, h.books.text⟩,
          ⟨h.bag.work, h.bag.mem, h.bag.nodup, h.bag.lt, h.bag.pending⟩, h.listed, h.left, h.after,
          h.result⟩
      · next store hlog =>
        obtain rfl := Option.some.inj hs
        obtain ⟨hpending, hnext, -⟩ := BlockStore.logRejectionBytes_rows hlog
        refine h.goto hcall hteam (h.books.log hlog) ?_ hlisted rfl rfl id (by simp)
        exact hsame rfl rfl rfl hpending hnext rfl rfl
  | marking i =>
      obtain rfl := Option.some.inj hs
      exact h.goto hcall hteam (h.books.mark i) (h.bag.mark hcall i) hlisted rfl rfl id (by simp)
  | done => cases hs

/-- Rows that were handled are rows of the work list. -/
theorem past_lt (h : WaveInv c s₀ s) : ∀ e, ∀ i ∈ s.past e, i < s.work.length :=
  fun _ _ hi ↦ (h.team.accounts.of_mem hi).1

/-- **A hit that is queued** keeps the books. -/
theorem queueHit (h : WaveInv c s₀ s) (now : String) (hit : BlockHit) (reason : String) :
    WaveInv c s₀ (s.queueHit now hit reason) where
  team := ⟨h.team.accounts, h.team.fits⟩
  books := h.books.of_counts (fun e ↦ by cases e <;> rfl) rfl rfl (BlockStore.enqueue_rejected ..)
  bag := h.bag.queueHit h.past_lt now hit reason
  listed := h.listed
  left := h.left
  after := h.after
  result := h.result

/-- The flag that stops posters is never taken back. -/
theorem shutdown (h : WaveInv c s₀ s) :
    WaveInv c s₀ { s with sup := { s.sup with shuttingDown := true } } where
  team := ⟨h.team.accounts, h.team.fits⟩
  books := ⟨h.books.counted, h.books.logged, h.books.text⟩
  bag := ⟨h.bag.work, h.bag.mem, h.bag.nodup, h.bag.lt, h.bag.pending⟩
  listed := h.listed
  left := fun w hw ↦ (h.left w hw).imp_right fun hstop ↦ ⟨rfl, hstop.2⟩
  after := fun hne ↦ ⟨(h.after hne).1, (h.after hne).2.imp_right fun hstop ↦ ⟨rfl, hstop.2⟩⟩
  result := h.result

/-- **The end of the call** keeps the books. -/
theorem callStep (h : WaveInv c s₀ s) {time : Rat} (hs : s.callStep c time = some t) :
    WaveInv c s₀ t := by
  unfold FlushWave.callStep at hs
  cases hcall : s.call with
  | selecting rest =>
      rw [hcall] at hs
      cases hs
  | posting =>
      simp only [hcall] at hs
      split at hs
      · next hdone =>
        obtain rfl := Option.some.inj hs
        have hlisted : s.wave.acceptedIds = s.ids .record := by
          have := h.listed
          rwa [hcall] at this
        have hgone : s.gone = [] := by simp [gone, hcall]
        refine ⟨⟨h.team.accounts, h.team.fits⟩, ?_, ?_, hlisted, h.left, fun _ ↦ ⟨fun w e ↦ ?_, ?_⟩,
          (by simp)⟩
        · exact h.books.of_counts (fun e ↦ by cases e <;> rfl) rfl rfl rfl
        · exact h.bag.of_same rfl rfl rfl rfl rfl hgone.symm rfl
        · change (s.posters w).owes e = none
          rw [hdone w]
          rfl
        · exact h.left 0 (hdone 0)
      · cases hs
  | removing ids =>
      simp only [hcall] at hs
      obtain rfl := Option.some.inj hs
      have hids : ids = s.ids .record := by
        have := h.listed
        rwa [hcall] at this
      have hover := h.after (by simp [hcall])
      refine ⟨⟨h.team.accounts, h.team.fits⟩, ?_, ?_, trivial, h.left, fun _ ↦ hover, (by simp)⟩
      · exact h.books.of_counts (fun e ↦ by cases e <;> rfl) rfl rfl
          (BlockStore.markSubmittedMany_rejected ..)
      · rw [hids]
        exact h.bag.remove (by simp [gone, hcall])
  | counting =>
      simp only [hcall] at hs
      obtain rfl := Option.some.inj hs
      have hover := h.after (by simp [hcall])
      obtain ⟨hstore, hstop⟩ := s.closing_eq c time
      refine ⟨⟨h.team.accounts, h.team.fits⟩, ?_, ?_, trivial, fun w hw ↦ ?_, fun _ ↦ ?_, ?_⟩
      · exact h.books.of_counts (fun e ↦ by cases e <;> rfl) rfl rfl
          (congrArg (·.files.rejected) hstore)
      · refine h.bag.of_same rfl rfl rfl (congrArg (·.pending) hstore) (congrArg (·.nextId) hstore)
          ?_ rfl
        simp [gone, hcall, ids, item]
      · simpa [Stopped, hstop] using h.left w hw
      · simpa [Stopped, hstop] using hover
      · intro k hk
        exact (CallPc.returned.inj hk).symm
  | returned k =>
      rw [hcall] at hs
      cases hs

end WaveInv

/-! ## The selection -/

/-- Nothing has been done for a row yet. -/
structure Fresh (s₀ s : FlushWave n) : Prop where
  wave : s.wave = {}
  posters : s.posters = fun _ ↦ .looping
  past : s.past = fun _ ↦ []
  counts : ∀ e, s.tally e = s₀.tally e
  rejected : s.store.files.rejected = s₀.store.files.rejected
  idInv : BlockStore.IdInv s.store

/-- What holds during the selection: the rows on the work list and those to come are rows of the
bag. -/
structure SelectInv (s₀ s : FlushWave n) (rest : List PendingBlock) : Prop extends
    Fresh s₀ s where
  nodup : (s.work.map (·.id) ++ rest.map (·.id)).Nodup
  mem : ∀ id ∈ s.work.map (·.id) ++ rest.map (·.id), ∃ pb ∈ s.store.pending, pb.id = id

/-- What holds of a call that began in `s₀`. -/
def Inv (c : FlushCall) (s₀ s : FlushWave n) : Prop :=
  match s.call with
  | .selecting rest => SelectInv s₀ s rest
  | _ => WaveInv c s₀ s

theorem WaveInv.inv (h : WaveInv c s₀ s) (hcall : ∀ rest, s.call ≠ .selecting rest) :
    Inv c s₀ s := by
  unfold Inv
  split
  · next rest heq => exact absurd heq (hcall rest)
  · exact h

theorem SelectInv.inv {rest : List PendingBlock} (h : SelectInv s₀ s rest)
    (hcall : s.call = .selecting rest) : Inv c s₀ s := by
  unfold Inv
  rw [hcall]
  exact h

theorem Inv.cases (h : Inv c s₀ s) :
    (∃ rest, s.call = .selecting rest ∧ SelectInv s₀ s rest) ∨
      ((∀ rest, s.call ≠ .selecting rest) ∧ WaveInv c s₀ s) := by
  unfold Inv at h
  split at h
  · next rest hcall => exact .inl ⟨rest, hcall, h⟩
  · next hno => exact .inr ⟨hno, h⟩

/-- **A wave begins with its books in order.** -/
theorem Fresh.waveInv (h : Fresh s₀ s) (hbefore : s.before = s.store.pending)
    (henqueued : s.enqueued = []) (hnodup : (s.work.map (·.id)).Nodup)
    (hmem : ∀ item ∈ s.work, ∃ pb ∈ s.store.pending, pb.id = item.id)
    (hcall : s.call = .posting ∨ (s.call = .returned 0 ∧ s.work = [])) : WaveInv c s₀ s where
  team := by
    refine ⟨?_, fun w ↦ by rw [h.posters]; trivial⟩
    rw [h.past, h.wave]
    exact .start fun w e ↦ by rw [h.posters]; rfl
  books := by
    refine ⟨fun e ↦ ?_, ?_, ?_⟩
    · rw [h.counts e, h.past]
      rfl
    · rw [h.rejected, h.past]
      simp
    · rw [h.past]
      exact fun _ hi ↦ absurd hi List.not_mem_nil
  bag := by
    have hids : ∀ e, s.ids e = [] := fun e ↦ by simp [ids, h.past]
    have hgone : s.gone = [] := by
      rcases s.gone_subset with hg | hg
      · exact hg
      · rw [hg, hids]
    refine ⟨hnodup, by rwa [hbefore], ?_, ?_, ?_⟩
    · rw [hbefore, henqueued, List.append_nil]
      exact h.idInv.nodup
    · rw [hbefore, henqueued, List.append_nil]
      exact h.idInv.lt
    · have hremark : remark [] = id := funext fun pb ↦ if_neg List.not_mem_nil
      rw [hbefore, henqueued, List.append_nil, hgone, hids, hremark]
      simp
  listed := by
    rcases hcall with hc | ⟨hc, -⟩
    · simp [hc, h.wave, ids, h.past]
    · rw [hc]
      trivial
  left := by
    intro w hw
    rw [h.posters] at hw
    cases hw
  after := by
    intro hne
    refine ⟨fun w e ↦ by rw [h.posters]; rfl, .inl ?_⟩
    rcases hcall with hc | ⟨-, hw⟩
    · exact absurd hc hne
    · simp [hw]
  result := by
    intro k hk
    rcases hcall with hc | ⟨hc, -⟩
    · exact absurd (hc.symm.trans hk) (by simp)
    · rw [h.wave]
      exact (CallPc.returned.inj (hc.symm.trans hk)).symm

/-- A step of the selection that does nothing for a row. -/
theorem Fresh.step (h : Fresh s₀ s) (hwave : t.wave = s.wave) (hposters : t.posters = s.posters)
    (hpast : t.past = s.past) (hcounts : ∀ e, t.tally e = s.tally e)
    (hrejected : t.store.files.rejected = s.store.files.rejected)
    (hid : BlockStore.IdInv t.store) : Fresh s₀ t :=
  ⟨hwave.trans h.wave, hposters.trans h.posters, hpast.trans h.past,
    fun e ↦ (hcounts e).trans (h.counts e), hrejected.trans h.rejected, hid⟩

/-- The end of the selection. -/
theorem SelectInv.selected {rest : List PendingBlock} (h : SelectInv s₀ s rest) :
    Inv c s₀ s.selected := by
  have hnodup : (s.work.map (·.id)).Nodup := (List.nodup_append.mp h.nodup).1
  have hmem : ∀ item ∈ s.work, ∃ pb ∈ s.store.pending, pb.id = item.id := fun item hitem ↦
    h.mem _ (List.mem_append_left _ (List.mem_map_of_mem hitem))
  unfold FlushWave.selected
  dsimp only
  split
  · next hwork =>
    split
    · refine WaveInv.inv (Fresh.waveInv ?_ rfl rfl hnodup hmem (.inr ⟨rfl, hwork⟩)) (by simp)
      exact h.toFresh.step rfl rfl rfl (fun e ↦ by cases e <;> rfl) rfl h.idInv
    · refine WaveInv.inv (Fresh.waveInv ?_ rfl rfl hnodup hmem (.inr ⟨rfl, hwork⟩)) (by simp)
      exact h.toFresh.step rfl rfl rfl (fun e ↦ by cases e <;> rfl) rfl h.idInv
  · refine WaveInv.inv (Fresh.waveInv ?_ rfl rfl hnodup hmem (.inl rfl)) (by simp)
    exact h.toFresh.step rfl rfl rfl (fun e ↦ by cases e <;> rfl) rfl h.idInv

/-- **A step of the selection**: a row is left, taken, or removed. -/
theorem SelectInv.select {rest : List PendingBlock} (h : SelectInv s₀ s rest) (minute : Nat)
    (miningM bagM : Int) : Inv c s₀ (s.select c minute miningM bagM rest) := by
  cases rest with
  | nil => exact h.selected
  | cons pb rest =>
      have hsub : (s.work.map (·.id) ++ rest.map (·.id)).Sublist
          (s.work.map (·.id) ++ (pb :: rest).map (·.id)) :=
        (List.Sublist.refl _).append (List.sublist_cons_self _ _)
      unfold FlushWave.select
      dsimp only
      split
      · refine SelectInv.inv ⟨?_, h.nodup.sublist hsub, fun id hid ↦
          h.mem id (hsub.subset hid)⟩ rfl
        exact h.toFresh.step rfl rfl rfl (fun e ↦ by cases e <;> rfl) rfl h.idInv
      · refine SelectInv.inv ⟨?_, h.nodup.sublist hsub, fun id hid ↦ ?_⟩ rfl
        · exact h.toFresh.step rfl rfl rfl (fun e ↦ by cases e <;> rfl)
            (BlockStore.markSubmittedMany_rejected s.store [pb.id])
            (BlockStore.exec_idInv h.idInv (.markSubmitted pb.id))
        · obtain ⟨pb', hpb', heq⟩ := h.mem id (hsub.subset hid)
          have hne : pb'.id ≠ pb.id := by
            rw [heq]
            rintro rfl
            exact (List.nodup_cons.mp (List.nodup_middle.mp h.nodup)).1 hid
          refine ⟨pb', ?_, heq⟩
          change pb' ∈ (s.store.markSubmittedMany [pb.id]).pending
          rw [BlockStore.markSubmittedMany_pending]
          exact List.mem_filter.mpr ⟨hpb', by simpa using hne⟩
      · next hit _ =>
        let work := s.work ++ [{ id := pb.id, hit }]
        have hwork : ∀ full : Bool, (work.map (·.id) ++
            (if full then [] else rest : List PendingBlock).map (·.id)).Sublist
              (s.work.map (·.id) ++ (pb :: rest).map (·.id)) := by
          intro full
          simp only [work, List.map_append, List.map_cons, List.map_nil, List.append_assoc,
            List.singleton_append]
          refine (List.Sublist.refl _).append (List.Sublist.cons_cons _ ?_)
          cases full <;> simp
        refine SelectInv.inv ⟨?_, h.nodup.sublist (hwork _), fun id hid ↦
          h.mem id ((hwork _).subset hid)⟩ rfl
        exact h.toFresh.step rfl rfl rfl (fun e ↦ by cases e <;> rfl) rfl h.idInv

/-- A hit that is queued during the selection is a row of the bag the wave begins with. -/
theorem SelectInv.queueHit {rest : List PendingBlock} (h : SelectInv s₀ s rest) (now : String)
    (hit : BlockHit) (reason : String) : SelectInv s₀ (s.queueHit now hit reason) rest := by
  refine ⟨?_, h.nodup, fun id hid ↦ ?_⟩
  · exact h.toFresh.step rfl rfl rfl (fun e ↦ by cases e <;> rfl)
      (BlockStore.enqueue_rejected s.store now hit reason)
      (BlockStore.enqueue_idInv h.idInv now hit reason)
  · obtain ⟨pb, hpb, heq⟩ := h.mem id hid
    refine ⟨pb, ?_, heq⟩
    change pb ∈ (s.store.enqueue now hit reason).2.pending
    rcases s.store.enqueue_cases now hit reason with ⟨-, -, hsame⟩ | ⟨hpending, -⟩
    · rw [hsame]
      exact hpb
    · rw [hpending]
      exact List.mem_append_left _ hpb

/-! ## Steps -/

/-- **Every step keeps the books.** -/
theorem Inv.step (h : Inv c s₀ s) {a : Act n} (hs : s.step c a = some t) : Inv c s₀ t := by
  unfold FlushWave.step at hs
  split at hs
  · cases hs
  rcases h.cases with ⟨rest, hcall, h⟩ | ⟨hno, h⟩
  · cases a with
    | queueHit now hit reason =>
        obtain rfl := Option.some.inj hs
        exact (h.queueHit now hit reason).inv hcall
    | shutdown =>
        obtain rfl := Option.some.inj hs
        refine SelectInv.inv ⟨?_, h.nodup, h.mem⟩ hcall
        exact h.toFresh.step rfl rfl rfl (fun e ↦ by cases e <;> rfl) rfl h.idInv
    | select minute miningM bagM =>
        simp only [hcall] at hs
        obtain rfl := Option.some.inj hs
        exact h.select minute miningM bagM
    | poster w =>
        simp only [hcall, reduceCtorEq, if_false] at hs
    | call time =>
        simp only [callStep, hcall] at hs
        cases hs
  · cases a with
    | queueHit now hit reason =>
        obtain rfl := Option.some.inj hs
        exact (h.queueHit now hit reason).inv hno
    | shutdown =>
        obtain rfl := Option.some.inj hs
        exact h.shutdown.inv hno
    | select minute miningM bagM =>
        dsimp only at hs
        split at hs
        · next rest hcall => exact absurd hcall (hno rest)
        · cases hs
    | poster w =>
        dsimp only at hs
        split at hs
        · next hcall =>
          refine (h.poster hcall rfl hs).inv ?_
          simp [(posterStep_frame hs).1, hcall]
        · cases hs
    | call time => exact (h.callStep hs).inv (callStep_call hs)

end FlushWave

end XNMiner
