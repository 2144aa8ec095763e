import XNMiner.App.Delivery

/-!
# A flush loses no hit

`try_flush_pending` reads rows, posts them, and removes by id the ones the pool has accepted.  In
between the other threads add rows, so the argument is about ids: a row that was read stays the
only row with its id (`ReadRow`), the digest that is posted for it is its own (`Due`), and an id
goes into `accepted_ids` only when that digest has been accepted (`Settled`).
-/

namespace XNMiner

open Lib Prog BlockStore

/-- A row as it was read: a row with its id still has its hit. -/
structure ReadRow (w : World) (pb : PendingBlock) : Prop where
  lt : pb.id < w.sup.store.nextId
  same : ∀ row ∈ w.sup.store.pending, row.id = pb.id → row.hit = pb.hit

/-- A row with the id of this item has the digest that is posted, unless it is no PHC string. -/
structure Due (w : World) (item : WorkItem) : Prop where
  lt : item.id < w.sup.store.nextId
  same : ∀ row ∈ w.sup.store.pending, row.id = item.id →
    isArgon2Encoded row.hit.hashStr = true → row.hit.hashStr = item.hit.hashStr

/-- A row of the bag is a row as it was read. -/
theorem readRow_of_mem {w : World} (hinv : DeliveryInv w) {pb : PendingBlock}
    (hpb : pb ∈ w.sup.store.pending) : ReadRow w pb where
  lt := hinv.idInv.lt pb hpb
  same row hrow hid := by rw [List.inj_on_of_nodup_map hinv.idInv.nodup hrow hpb hid]

/-- An accepted item is settled. -/
theorem Due.settled {w : World} {item : WorkItem} (h : Due w item)
    (hacc : item.hit.hashStr ∈ w.accepted) : Settled w item.id where
  lt := h.lt
  accepted pb hpb hid henc := h.same pb hpb hid henc ▸ hacc

/-- A row that is no PHC string is settled. -/
theorem ReadRow.settled {w : World} {pb : PendingBlock} (h : ReadRow w pb)
    (hno : isArgon2Encoded pb.hit.hashStr = false) : Settled w pb.id where
  lt := h.lt
  accepted row hrow hid henc := by
    rw [h.same row hrow hid, hno] at henc
    cases henc

/-- What the selection loop takes for a row is due. -/
theorem ReadRow.due {w : World} {pb : PendingBlock} {settings : Settings} {draining ready : Bool}
    {netM miningM bagM : Int} {hit : BlockHit} (h : ReadRow w pb)
    (htake : chooseRow settings draining netM ready miningM bagM pb = .take hit) :
    Due w { id := pb.id, hit } where
  lt := h.lt
  same row hrow hid henc := by
    rw [h.same row hrow hid] at henc ⊢
    rcases chooseRow_of_encoded henc
      with hskip | hself
    · cases hskip.symm.trans htake
    · cases hself.symm.trans htake
      rfl

/-- What the selection loop drops is no PHC string. -/
theorem not_encoded_of_drop {pb : PendingBlock} {settings : Settings} {draining ready : Bool}
    {netM miningM bagM : Int}
    (hdrop : chooseRow settings draining netM ready miningM bagM pb = .drop) :
    isArgon2Encoded pb.hit.hashStr = false := by
  by_contra henc
  rw [Bool.not_eq_false] at henc
  rcases chooseRow_of_encoded henc with hskip | hself
  · cases hskip.symm.trans hdrop
  · cases hself.symm.trans hdrop

/-- Removing settled rows is fair. -/
theorem fair_markSubmittedMany {w : World} (hinv : DeliveryInv w) {ids : List Int}
    (hids : ∀ id ∈ ids, Settled w id) :
    Fair w { w with sup := { w.sup with store := w.sup.store.markSubmittedMany ids } } := by
  have hgrows := grows_markSubmittedMany w.sup.store ids
  refine fair_of_safe hinv rfl rfl rfl rfl hgrows
    (exec_hashInv hinv.hashInv (.markSubmittedMany ids))
    (exec_idInv hinv.idInv (.markSubmittedMany ids))
    (fun id hid ↦ (hinv.wave id hid).mono (fun _ h ↦ h) hgrows) rfl (fun _ h ↦ h) rfl rfl ?_
  rintro h henc (hacc | ⟨pb, hpb, rfl⟩)
  · exact .inl hacc
  · by_cases hid : pb.id ∈ ids
    · exact .inl ((hids _ hid).accepted pb hpb rfl henc)
    · exact .inr (holds_markSubmittedMany hpb hid)

/-- A change of what a wave shares is fair if only settled ids become accepted ids. -/
theorem fair_wave {w : World} (hinv : DeliveryInv w) (wave : Wave)
    (hids : ∀ id ∈ wave.acceptedIds, Settled w id) : Fair w { w with wave } :=
  fair_of_safe hinv rfl rfl rfl rfl (.refl _) hinv.hashInv hinv.idInv
    (fun id hid ↦ (hids id hid).mono (fun _ h ↦ h) (.refl _)) rfl (fun _ h ↦ h) rfl rfl
    fun _ _ h ↦ h

namespace Sup

open Protocol

variable {i : Thread} {G : World → Prop} {α β : Type} {c : Calls}

theorem stable_readRow {pb : PendingBlock} : (fairly i).Stable none fun w ↦ ReadRow w pb := by
  intro w w' hr _ h
  refine ⟨h.lt.trans_le hr.grows.nextId, fun row hrow hid ↦ ?_⟩
  obtain ⟨row₀, hrow₀, hid₀, hhit₀⟩ := hr.grows.old row hrow (hid ▸ h.lt)
  rw [← hhit₀]
  exact h.same row₀ hrow₀ (hid₀.trans hid)

theorem stable_due {item : WorkItem} : (fairly i).Stable none fun w ↦ Due w item := by
  intro w w' hr _ h
  refine ⟨h.lt.trans_le hr.grows.nextId, fun row hrow hid henc ↦ ?_⟩
  obtain ⟨row₀, hrow₀, hid₀, hhit₀⟩ := hr.grows.old row hrow (hid ▸ h.lt)
  rw [← hhit₀] at henc ⊢
  exact h.same row₀ hrow₀ (hid₀.trans hid) henc

theorem stable_all {γ : Type} {l : List γ} {F : γ → World → Prop}
    (h : ∀ x, (fairly i).Stable none (F x)) : (fairly i).Stable none fun w ↦ ∀ x ∈ l, F x w :=
  fun w w' hr hinv hall x hx ↦ h x w w' hr hinv (hall x hx)

/-! ## The work list -/

/-- **Every item of a work list is due.** -/
theorem fairly_selectRows (hG : (fairly i).Stable none G) (settings : Settings)
    (onShutdown draining : Bool) (netM wave : Int) (rows : List PendingBlock)
    (work : List WorkItem) :
    (fairly i).Triple none
      (fun w ↦ G w ∧ (∀ pb ∈ rows, ReadRow w pb) ∧ ∀ item ∈ work, Due w item)
      (selectRows settings onShutdown draining netM wave rows work)
      fun work w ↦ G w ∧ ∀ item ∈ work, Due w item := by
  induction rows generalizing work with
  | nil =>
      exact triple_ret (hG.and (stable_all (fun _ ↦ stable_readRow) |>.and
        (stable_all fun _ ↦ stable_due))) fun _ _ h ↦ ⟨h.1, h.2.2⟩
  | cons pb rest ih =>
      have hstable := hG.and ((stable_all (i := i) (l := pb :: rest) (F := fun pb w ↦ ReadRow w pb)
        fun _ ↦ stable_readRow).and (stable_all (i := i) (l := work) (F := fun item w ↦ Due w item)
          fun _ ↦ stable_due))
      have hrest (work' : List WorkItem)
          (hwork : ∀ w, ReadRow w pb → (∀ item ∈ work, Due w item) → ∀ item ∈ work', Due w item) :
          (fairly i).Triple none
            (fun w ↦ G w ∧ (∀ row ∈ pb :: rest, ReadRow w row) ∧ ∀ item ∈ work, Due w item)
            (selectRows settings onShutdown draining netM wave rest work')
            fun work w ↦ G w ∧ ∀ item ∈ work, Due w item :=
        triple_mono (ih work') (fun w _ h ↦ ⟨h.1, (List.forall_mem_cons.mp h.2.1).2,
          hwork w (h.2.1 pb List.mem_cons_self) h.2.2⟩) fun _ _ _ h ↦ h
      refine fairly_query fun minute ↦ fairly_get hstable fun miningM ↦
        fairly_get hstable fun bagM ↦ ?_
      split
      · exact hrest work fun _ _ h ↦ h
      · next hdrop =>
        refine triple_bind (fairly_modify hstable hstable fun w hinv hw ↦ ?_) fun _ ↦
          hrest work fun _ _ h ↦ h
        have hsettled : ∀ id ∈ [pb.id], Settled w id := fun id hid ↦ by
          rw [List.mem_singleton.mp hid]
          exact (hw.2.1 pb List.mem_cons_self).settled (not_encoded_of_drop hdrop)
        have hfair := fair_markSubmittedMany hinv hsettled
        exact ⟨hfair, hstable w _ (hfair.2 i) hfair.1 hw⟩
      · next hit htake =>
        have hwork : ∀ w, ReadRow w pb → (∀ item ∈ work, Due w item) →
            ∀ item ∈ work ++ [{ id := pb.id, hit }], Due w item := by
          intro w hrow hall item hitem
          rcases List.mem_append.mp hitem with hitem | hitem
          · exact hall item hitem
          · rw [List.mem_singleton.mp hitem]
            exact hrow.due htake
        exact triple_ite (fun _ ↦ triple_ret hstable fun w _ h ↦
          ⟨h.1, hwork w (h.2.1 pb List.mem_cons_self) h.2.2⟩) fun _ ↦ hrest _ hwork

/-! ## The wave -/

/-- A change of the counters of a wave. -/
theorem fairly_setWave {f : Wave → Wave} (hf : ∀ v, (f v).acceptedIds = v.acceptedIds)
    (hG : (fairly i).Stable none G) : (fairly i).Triple none G (setWave f) fun _ ↦ G :=
  fairly_modify hG hG fun w hinv hw ↦ by
    have hfair := fair_wave hinv (f w.wave) (by rw [hf]; exact hinv.wave)
    exact ⟨hfair, hG w _ (hfair.2 i) hfair.1 hw⟩

theorem fairly_set {f : Supervisor → Supervisor} (hf : ∀ w, Harmless w { w with sup := f w.sup })
    (hG : (fairly i).Stable none G) : (fairly i).Triple none G (set f) fun _ ↦ G :=
  fairly_of_harmless (does_modify fun w _ ↦ hf w) hG

/-- **`handle_one` notes an id as accepted only when its digest is.** -/
theorem fairly_handleOne (hG : (fairly i).Stable none G) (draining : Bool) (item : WorkItem)
    (result : SubmitResult) :
    (fairly i).Triple none
      (fun w ↦ (G w ∧ Due w item) ∧ (result.ok = true → item.hit.hashStr ∈ w.accepted))
      (handleOne draining item result) fun _ ↦ G := by
  have hstable : (fairly i).Stable none
      fun w ↦ (G w ∧ Due w item) ∧ (result.ok = true → item.hit.hashStr ∈ w.accepted) :=
    (hG.and stable_due).and fun w w' hr hinv h hok ↦ stable_accepted w w' hr hinv (h hok)
  have hkeep {p : Sup Unit} (hp : (fairly i).Triple none G p fun _ ↦ G) :
      (fairly i).Triple none
        (fun w ↦ (G w ∧ Due w item) ∧ (result.ok = true → item.hit.hashStr ∈ w.accepted)) p
        fun _ ↦ G := triple_mono hp (fun _ _ h ↦ h.1.1) fun _ _ _ h ↦ h
  have hnote : (fairly i).Triple none G (set (·.noteAccepted)) fun _ ↦ G :=
    fairly_set (fun w ↦ harmless_set rfl rfl rfl rfl rfl) hG
  refine triple_ite (fun hok ↦ ?_) fun _ ↦ triple_ite (fun _ ↦ hkeep ?_) fun _ ↦
    triple_ite (fun _ ↦ hkeep ?_) fun _ ↦ hkeep ?_
  · -- accepted: only here does an id become an accepted id
    refine triple_bind (M := fun _ ↦ G) (fairly_modify hstable hG fun w hinv hw ↦ ?_) fun _ ↦
      triple_bind (fairly_setWave (fun _ ↦ rfl) hG) fun _ ↦ triple_ite (fun _ ↦ ?_) fun _ ↦ hnote
    · have hfair := fair_wave hinv
        { w.wave with acceptedIds := w.wave.acceptedIds ++ [item.id] } fun id hid ↦ by
          rcases List.mem_append.mp hid with hid | hid
          · exact hinv.wave id hid
          · rw [List.mem_singleton.mp hid]
            exact hw.1.2.settled (hw.2 hok)
      exact ⟨hfair, hG w _ (hfair.2 i) hfair.1 hw.1.1⟩
    · exact triple_bind (fairly_set (fun w ↦ harmless_set rfl rfl rfl rfl rfl) hG) fun _ ↦
        triple_bind (fairly_set (fun w ↦ harmless_set rfl rfl rfl rfl rfl) hG) fun _ ↦ hnote
  · exact fairly_setWave (fun _ ↦ rfl) hG
  · exact fairly_setWave (fun _ ↦ rfl) hG
  · refine fairly_query fun stamp ↦ triple_bind (M := fun _ ↦ G) ?_ fun _ ↦
      fairly_set (fun w ↦ harmless_store (sameRows_markPendingReason _ _ _).kept) hG
    exact fairly_set (fun w ↦ harmless_store (sameRows_logRejection _ _ _ _ _ _).kept) hG

/-- Submit an item and handle the answer. -/
theorem fairly_postOne (hG : (fairly i).Stable none G) (draining : Bool) (item : WorkItem)
    {k : Sup α} {post : α → World → Prop} (hk : (fairly i).Triple none G k post) :
    (fairly i).Triple none (fun w ↦ G w ∧ Due w item)
      (do
        let result ← submit item.hit
        handleOne draining item result
        k) post :=
  triple_bind (fairly_submit item.hit (hG.and stable_due)) fun result ↦
    triple_bind (fairly_handleOne hG draining item result) fun _ ↦ hk

theorem fairly_postAll (hG : (fairly i).Stable none G) (onShutdown draining : Bool)
    (work : List WorkItem) :
    (fairly i).Triple none (fun w ↦ G w ∧ ∀ item ∈ work, Due w item)
      (postAll onShutdown draining work) fun _ ↦ G := by
  induction work generalizing G with
  | nil => exact triple_ret (hG.and (stable_all fun _ ↦ stable_due)) fun _ _ h ↦ h.1
  | cons item rest ih =>
      have hrest : (fairly i).Stable none fun w ↦ ∀ item ∈ rest, Due w item :=
        stable_all fun _ ↦ stable_due
      have hstable : (fairly i).Stable none fun w ↦ G w ∧ ∀ x ∈ item :: rest, Due w x :=
        hG.and (stable_all fun _ ↦ stable_due)
      refine fairly_get hstable fun stopping ↦ triple_ite
        (fun _ ↦ triple_ret hstable fun _ _ h ↦ h.1) fun _ ↦ ?_
      refine triple_mono (fairly_postOne (hG.and hrest) draining item (ih hG))
        (fun w _ h ↦ ⟨⟨h.1, fun x hx ↦ ?_⟩, ?_⟩) fun _ _ _ h ↦ h
      · exact h.2 x (List.mem_cons_of_mem _ hx)
      · exact h.2 item List.mem_cons_self

/-- A member of the crew that posts a wave. -/
theorem fairly_flushWorker (hG : (fairly i).Stable none G) (draining : Bool)
    (work : List WorkItem) (fuel : Nat) :
    (fairly i).Triple none (fun w ↦ G w ∧ ∀ item ∈ work, Due w item)
      (flushWorker draining work fuel) fun _ ↦ G := by
  have hdue : (fairly i).Stable none fun w ↦ ∀ item ∈ work, Due w item :=
    stable_all fun _ ↦ stable_due
  have hstable := hG.and hdue
  induction fuel with
  | zero => exact triple_ret hstable fun _ _ h ↦ h.1
  | succ fuel ih =>
      refine fairly_get hstable fun _ ↦ triple_ite (fun _ ↦ triple_ret hstable fun _ _ h ↦ h.1)
        fun _ ↦ ?_
      rw [fetchNext, atomically_bind]
      refine triple_step hstable fun w hinv hw _ ↦ ?_
      have hfair := fair_wave hinv { w.wave with next := w.wave.next + 1 } hinv.wave
      refine ⟨hfair.guar i, ?_⟩
      have hw' := hstable w _ (hfair.2 i) hfair.1 hw
      dsimp only
      cases hitem : work[w.wave.next]? with
      | none => exact triple_ret hstable (fun _ _ h ↦ h.1) _ hfair.1 hw'
      | some item =>
          exact fairly_postOne hstable draining item ih _ hfair.1
            ⟨hw', hw'.2 item (List.mem_of_getElem? hitem)⟩

/-- A wave, posted one after another or by a crew. -/
theorem fairly_postWave (hG : (fairly i).Stable none G) (onShutdown draining : Bool)
    (parallel : Int) (work : List WorkItem) :
    (fairly i).Triple none (fun w ↦ G w ∧ ∀ item ∈ work, Due w item)
      (postWave onShutdown draining parallel work) fun _ ↦ G := by
  have hstable : (fairly i).Stable none fun w ↦ G w ∧ ∀ item ∈ work, Due w item :=
    hG.and (stable_all fun _ ↦ stable_due)
  refine triple_bind (M := fun _ w ↦ G w ∧ ∀ item ∈ work, Due w item)
    (fairly_modify hstable hstable fun w hinv hw ↦ ?_) fun _ ↦
    triple_ite (fun _ ↦ fairly_postAll hG _ _ _) fun _ ↦ fairly_query fun started ↦
    triple_ite (fun _ ↦ fairly_postAll hG _ _ _) fun hstarted ↦ ?_
  · have hfair := fair_wave hinv {} (by simp)
    exact ⟨hfair, hstable w _ (hfair.2 i) hfair.1 hw⟩
  · intro w hinv hw
    refine wp_mono (wp_interleaveAll fun p hp ↦ ?_) fun _ w' _ h ↦ h (by simpa using hstarted)
    rw [List.eq_of_mem_replicate hp]
    exact fairly_flushWorker hG draining work _ w hinv hw

/-- **Only accepted rows leave the bag at the end of a wave.** -/
theorem fairly_settleWave (hG : (fairly i).Stable none G) (onShutdown draining : Bool)
    (lastId : Int) :
    (fairly i).Triple none G (settleWave onShutdown draining lastId) fun _ ↦ G := by
  have hrest : (fairly i).Triple none G (do
      let v ← Prog.read (·.wave)
      if v.flushed = 0 ∧ onShutdown = false ∧ (0 < v.holds ∨ 0 < v.transients) then
        let t ← query .clock
        set (·.noteZeroAccepts draining t lastId)
        pure v.flushed
      else pure v.flushed) fun _ ↦ G := by
    refine triple_read (M := fun _ ↦ G) hG (fun _ _ h ↦ h) fun v ↦
      triple_ite (fun _ ↦ fairly_query fun t ↦ ?_) fun _ ↦ triple_ret hG fun _ _ h ↦ h
    exact triple_bind (fairly_set (fun w ↦ harmless_set rfl rfl rfl rfl rfl) hG) fun _ ↦
      triple_ret hG fun _ _ h ↦ h
  -- the accepted ids are settled when they are taken, and stay so
  refine triple_bind (M := fun ids w ↦ G w ∧ ∀ id ∈ ids, Settled w id)
    (triple_step hG fun w hinv hw _ ↦ ?_) fun ids ↦ ?_
  · have hfair := fair_wave hinv { w.wave with acceptedIds := [] } (by simp)
    refine ⟨hfair.guar i, triple_ret (hG.and (stable_all fun _ ↦ stable_settled))
      (fun _ _ h ↦ h) _ hfair.1 ⟨hG w _ (hfair.2 i) hfair.1 hw, fun id hid ↦ ?_⟩⟩
    exact (hinv.wave id hid).mono (fun _ h ↦ h) (.refl _)
  · have hstable : (fairly i).Stable none fun w ↦ G w ∧ ∀ id ∈ ids, Settled w id :=
      hG.and (stable_all fun _ ↦ stable_settled)
    refine triple_ite (fun _ ↦ triple_mono hrest (fun _ _ h ↦ h.1) fun _ _ _ h ↦ h) fun _ ↦
      triple_bind (fairly_modify hstable hG fun w hinv hw ↦ ?_) fun _ ↦ hrest
    have hfair := fair_markSubmittedMany hinv hw.2
    exact ⟨hfair, hG w _ (hfair.2 i) hfair.1 hw.1⟩

theorem fairly_flushBag (hG : (fairly i).Stable none G) (onShutdown draining : Bool) :
    (fairly i).Triple none G (flushBag onShutdown draining) fun _ ↦ G := by
  refine triple_bind (fairly_of_calm (does_flushTarget sameHits_refl draining) hG) fun netM ↦
    triple_ite (fun _ ↦ triple_ret hG fun _ _ h ↦ h) fun _ ↦ ?_
  refine fairly_get hG fun _ ↦ fairly_get hG fun settings ↦ fairly_get hG fun _ ↦
    fairly_get hG fun bagM ↦ fairly_get hG fun skip ↦ fairly_query fun minute ↦
    triple_read (M := fun rows w ↦ G w ∧ ∀ pb ∈ rows, ReadRow w pb) hG (fun w hinv hw ↦
      ⟨hw, fun pb hpb ↦ readRow_of_mem hinv (mem_of_mem_listFlushBatch hpb).1⟩) fun rows ↦ ?_
  have hstable : (fairly i).Stable none fun w ↦ G w ∧ ∀ pb ∈ rows, ReadRow w pb :=
    hG.and (stable_all fun _ ↦ stable_readRow)
  split
  · exact triple_ret hstable fun _ _ h ↦ h.1
  · refine triple_bind (triple_mono (fairly_selectRows hG settings onShutdown draining netM _ rows
      []) (fun _ _ h ↦ ⟨h.1, h.2, by simp⟩) fun _ _ _ h ↦ h) fun work ↦ ?_
    split
    · have hskip {f : Supervisor → Supervisor} (hf : ∀ w, Harmless w { w with sup := f w.sup }) :
          (fairly i).Triple none G (set f >>= fun _ ↦ pure 0) fun _ ↦ G :=
        triple_bind (fairly_set hf hG) fun _ ↦ triple_ret hG fun _ _ h ↦ h
      exact triple_mono (hskip fun w ↦ harmless_set rfl rfl rfl rfl rfl) (fun _ _ h ↦ h.1)
        fun _ _ _ h ↦ h
    · exact triple_bind (fairly_postWave hG onShutdown draining _ work) fun _ ↦
        fairly_settleWave hG onShutdown draining _

/-- **`try_flush_pending` loses nothing.** -/
theorem fairly_tryFlushPending (hc : c.Calm) (hG : (fairly i).Stable none G) (onShutdown : Bool) :
    (fairly i).Triple none G (tryFlushPending c onShutdown) fun _ ↦ G := by
  refine triple_bind (fairly_of_calm (p := beginCall) (does_modify fun w _ ↦
    ⟨rfl, rfl, rfl, rfl, .refl _, rfl, rfl, rfl, rfl, rfl, rfl⟩) hG) fun _ ↦
    triple_bind (fairly_of_calm (calm_flushGates hc onShutdown) hG) fun answer ↦ ?_
  cases answer with
  | none => exact triple_ret hG fun _ _ h ↦ h
  | some draining => exact fairly_flushBag hG onShutdown draining

/-! ## The pending queue -/

theorem fairly_openXuniWindow (hc : c.Calm) (hG : (fairly i).Stable none G) (now : Rat)
    (submitWin : Bool) (pendingXuni : Nat) :
    (fairly i).Triple none G (openXuniWindow c now submitWin pendingXuni) fun _ ↦ G := by
  have hset {f : Supervisor → Supervisor} (hf : ∀ w, Harmless w { w with sup := f w.sup }) :=
    fairly_set hf hG
  refine fairly_get hG fun was ↦ triple_ite (fun _ ↦ ?_) fun _ ↦ triple_ite (fun _ ↦ ?_) fun _ ↦
    triple_ret hG fun _ _ h ↦ h
  · refine triple_bind (hset fun w ↦ harmless_set rfl rfl rfl rfl rfl) fun _ ↦
      triple_ite (fun _ ↦ ?_) fun _ ↦ triple_ret hG fun _ _ h ↦ h
    exact triple_bind (fairly_tryFlushPending hc hG false) fun _ ↦
      hset fun w ↦ harmless_set rfl rfl rfl rfl rfl
  · exact hset fun w ↦ harmless_set rfl rfl rfl rfl rfl

theorem fairly_servicePendingQueue (hc : c.Calm) (hG : (fairly i).Stable none G) (now : Rat) :
    (fairly i).Triple none G (servicePendingQueue c now) fun _ ↦ G := by
  have hflush {f : Supervisor → Supervisor} (hf : ∀ w, Harmless w { w with sup := f w.sup }) :
      (fairly i).Triple none G (do
        let _ ← tryFlushPending c false
        set f) fun _ ↦ G :=
    triple_bind (fairly_tryFlushPending hc hG false) fun _ ↦ fairly_set hf hG
  refine fairly_query fun minute ↦ fairly_query fun minute' ↦ fairly_get hG fun _ ↦
    fairly_get hG fun _ ↦ triple_bind (fairly_openXuniWindow hc hG _ _ _) fun _ ↦
    triple_bind (fairly_of_calm (does_isDraining sameHits_refl) hG) fun _ ↦
    fairly_get hG fun _ ↦ triple_ite (fun _ ↦ ?_) fun _ ↦ triple_ite (fun _ ↦ ?_) fun _ ↦
    triple_ret hG fun _ _ h ↦ h
  · exact hflush fun w ↦ harmless_set rfl rfl rfl rfl rfl
  · exact fairly_get hG fun _ ↦ triple_ite
      (fun _ ↦ hflush fun w ↦ harmless_set rfl rfl rfl rfl rfl) fun _ ↦
      triple_ret hG fun _ _ h ↦ h

/-! ## A batch of the submit worker -/

theorem fairly_submitPoll (hc : c.Calm) (hG : (fairly i).Stable none G) :
    (fairly i).Triple none G (submitPoll c) fun _ ↦ G := by
  refine fairly_get hG fun _ ↦ triple_ite (fun _ ↦ triple_ret hG fun _ _ h ↦ h) fun _ ↦
    fairly_get hG fun _ ↦ triple_ite (fun _ ↦ triple_ret hG fun _ _ h ↦ h) fun _ ↦ ?_
  exact triple_bind (fairly_of_calm (hc.refreshNetwork _ _) hG) fun _ ↦ fairly_query fun t ↦
    fairly_of_calm (hc.updateMatchDrain t) hG

variable {jobs : List LiveSubmitJob}
  (henc : ∀ job ∈ jobs, isArgon2Encoded job.hit.hashStr = true)

include henc

/-- Something is done after the batch is safe. -/
theorem fairly_then_service (hc : c.Calm) (hG : (fairly i).Stable none G) {p : Sup Unit}
    (hp : (fairly i).Triple none G p fun _ w ↦ G w ∧ ∀ job ∈ jobs, Safe w job.hit.hashStr) :
    (fairly i).Triple none G (do
      p
      serviceNow c) fun _ w ↦ G w ∧ ∀ job ∈ jobs, Safe w job.hit.hashStr := by
  have hstable : (fairly i).Stable none fun w ↦ G w ∧ ∀ job ∈ jobs, Safe w job.hit.hashStr :=
    hG.and fun w w' hr hinv h job hjob ↦ stable_safe (henc job hjob) w w' hr hinv (h job hjob)
  exact triple_bind hp fun _ ↦ fairly_query fun t ↦ fairly_servicePendingQueue hc hstable t

theorem fairly_liveBatch (hc : c.Calm) (hG : (fairly i).Stable none G) :
    (fairly i).Triple none G (liveBatch c jobs)
      fun _ w ↦ G w ∧ ∀ job ∈ jobs, Safe w job.hit.hashStr := by
  refine triple_ite (fun hnil ↦ triple_ret hG fun _ _ h ↦ ⟨h, by simp [hnil]⟩) fun _ ↦
    triple_bind (fairly_of_calm calm_verifyReadyToPush hG) fun _ ↦
      triple_ite (fun _ ↦ ?_) fun _ ↦ ?_
  · exact fairly_processBatch hc henc hG
  · exact fairly_queueBatchDown henc hG

/-- **However a batch is handled, all of it is safe.** -/
theorem fairly_submitBatch (hc : c.Calm) (hG : (fairly i).Stable none G) :
    (fairly i).Triple none G (submitBatch c jobs)
      fun _ w ↦ G w ∧ ∀ job ∈ jobs, Safe w job.hit.hashStr := by
  refine fairly_get hG fun _ ↦ triple_ite (fun _ ↦ fairly_queueAll henc hG _) fun _ ↦
    fairly_get hG fun _ ↦ triple_ite (fun _ ↦ fairly_queueAll henc hG _) fun _ ↦
    fairly_get hG fun _ ↦ triple_ite (fun _ ↦ ?_) fun _ ↦ ?_
  · exact fairly_then_service henc hc hG (fairly_queueAll henc hG _)
  · exact fairly_then_service henc hc hG (fairly_liveBatch henc hc hG)

omit henc

theorem fairly_lastFlush (hc : c.Calm) (hG : (fairly i).Stable none G) :
    (fairly i).Triple none G (lastFlush c) fun _ ↦ G := by
  have hflush : (fairly i).Triple none G (do
      let _ ← tryFlushPending c true) fun _ ↦ G :=
    triple_bind (fairly_tryFlushPending hc hG true) fun _ ↦ triple_ret hG fun _ _ h ↦ h
  refine fairly_get hG fun _ ↦ triple_ite (fun _ ↦ triple_ret hG fun _ _ h ↦ h) fun _ ↦
    fairly_get hG fun _ ↦ triple_ite (fun _ ↦ ?_) fun _ ↦ hflush
  exact triple_bind (fairly_of_calm (does_liveSubmitAllowed sameHits_refl) hG) fun _ ↦
    triple_ite (fun _ ↦ hflush) fun _ ↦ triple_ret hG fun _ _ h ↦ h

end Sup

end XNMiner
