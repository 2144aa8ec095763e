import XNMiner.App.Steps

/-!
# No hit is lost

Once `handle_hit` has handed over a hit, the hit is *located*: the pool has accepted it, the bag
has a row with its digest, it waits in the live queue, or it is in a batch that a thread has
taken out of the queue and not finished.

The three threads agree on `deliveryProtocol`.  Each may rely on the others to keep what is
located located, what is in the bag in the bag until it is accepted, and the ids of the bag
unambiguous.  What every one of them does is shown against that agreement, thread by thread;
`Protocol.sound` puts the threads together.
-/

namespace XNMiner

open Lib Prog BlockStore

/-! ## Where a hit is -/

/-- The pool has accepted the digest, or the bag has it. -/
def Safe (w : World) (h : String) : Prop := h ∈ w.accepted ∨ w.sup.store.Holds h

/-- The digest is safe, in the live queue, or in a batch. -/
def Located (w : World) (h : String) : Prop :=
  Safe w h ∨ (∃ job ∈ w.sup.liveSubmitQ, job.hit.hashStr = h) ∨
    ∃ i, ∃ job ∈ w.batches i, job.hit.hashStr = h

/-- The rows with this id, if there are any, have been accepted.  Rows that are no PHC strings
were never handed over by `handle_hit`. -/
structure Settled (w : World) (id : Int) : Prop where
  lt : id < w.sup.store.nextId
  accepted : ∀ pb ∈ w.sup.store.pending, pb.id = id → isArgon2Encoded pb.hit.hashStr = true →
    pb.hit.hashStr ∈ w.accepted

/-! ## The agreement -/

/-- What holds at every moment. -/
structure DeliveryInv (w : World) : Prop where
  keep : w.sup.shouldStore = true
  hashInv : HashInv w.sup.store
  idInv : IdInv w.sup.store
  queue : ∀ job ∈ w.sup.liveSubmitQ, isArgon2Encoded job.hit.hashStr = true
  batch : ∀ i, ∀ job ∈ w.batches i, isArgon2Encoded job.hit.hashStr = true
  wave : ∀ id ∈ w.wave.acceptedIds, Settled w id
  done : w.workerDone = true → w.batches .submit = []
  joined : w.sup.submitThreadJoinable = false → w.workerDone = true
  delivered : ∀ h ∈ w.delivered, isArgon2Encoded h = true ∧ Located w h

/-- What thread `i` may rely on. -/
structure DeliveryRely (i : Thread) (w w' : World) : Prop where
  settings : w'.sup.settings = w.sup.settings
  accepted : ∀ h ∈ w.accepted, h ∈ w'.accepted
  grows : Grows w.sup.store w'.sup.store
  safe : ∀ h, isArgon2Encoded h = true → Safe w h → Safe w' h
  located : ∀ h, isArgon2Encoded h = true → Located w h → Located w' h
  batch : w'.batches i = w.batches i
  done : w.workerDone = true → w'.workerDone = true
  /-- Only the worker is done. -/
  worker : i = .submit → w'.workerDone = w.workerDone
  /-- Only the mining thread fills the queue. -/
  queue : i = .mining → w.sup.liveSubmitQ = [] → w'.sup.liveSubmitQ = []
  finalized : i = .mining → w'.sup.finalized = w.sup.finalized

theorem DeliveryRely.refl (i : Thread) (w : World) : DeliveryRely i w w :=
  ⟨rfl, fun _ h ↦ h, .refl _, fun _ _ h ↦ h, fun _ _ h ↦ h, rfl, fun h ↦ h, fun _ ↦ rfl,
    fun _ h ↦ h, fun _ ↦ rfl⟩

theorem DeliveryRely.trans {i : Thread} {w w' w'' : World} (h : DeliveryRely i w w')
    (h' : DeliveryRely i w' w'') : DeliveryRely i w w'' where
  settings := h'.settings.trans h.settings
  accepted x hx := h'.accepted x (h.accepted x hx)
  grows := h.grows.trans h'.grows
  safe x hx hs := h'.safe x hx (h.safe x hx hs)
  located x hx hs := h'.located x hx (h.located x hx hs)
  batch := h'.batch.trans h.batch
  done hd := h'.done (h.done hd)
  worker hi := (h'.worker hi).trans (h.worker hi)
  queue hi hq := h'.queue hi (h.queue hi hq)
  finalized hi := (h'.finalized hi).trans (h.finalized hi)

/-- The protocol of the three threads.  The environment may answer anything. -/
def deliveryProtocol : Protocol Thread World Query Answer where
  inv := DeliveryInv
  answers _ _ := True
  rely := DeliveryRely
  rely_refl := DeliveryRely.refl
  rely_trans _ := DeliveryRely.trans

/-! ### What stays true -/

theorem Settled.mono {w w' : World} {id : Int} (h : Settled w id)
    (hacc : ∀ x ∈ w.accepted, x ∈ w'.accepted) (hgrows : Grows w.sup.store w'.sup.store) :
    Settled w' id where
  lt := h.lt.trans_le hgrows.nextId
  accepted pb hpb hid henc := by
    obtain ⟨pb₀, hpb₀, hid₀, hhit₀⟩ := hgrows.old pb hpb (hid ▸ h.lt)
    rw [← hhit₀] at henc ⊢
    exact hacc _ (h.accepted pb₀ hpb₀ (hid₀.trans hid) henc)

theorem Safe.mono {w w' : World} {h : String} (hs : Safe w h)
    (hacc : ∀ x ∈ w.accepted, x ∈ w'.accepted)
    (hholds : ∀ x, w.sup.store.Holds x → w'.sup.store.Holds x) : Safe w' h :=
  hs.imp (hacc h) (hholds h)

/-- A step that every thread may take, and no thread minds. -/
structure Harmless (w w' : World) : Prop where
  settings : w'.sup.settings = w.sup.settings
  liveSubmitQ : w'.sup.liveSubmitQ = w.sup.liveSubmitQ
  finalized : w'.sup.finalized = w.sup.finalized
  submitThreadJoinable : w'.sup.submitThreadJoinable = w.sup.submitThreadJoinable
  kept : Kept w.sup.store w'.sup.store
  acceptedIds : ∀ id ∈ w'.wave.acceptedIds, id ∈ w.wave.acceptedIds
  workerDone : w'.workerDone = w.workerDone
  accepted : ∀ h ∈ w.accepted, h ∈ w'.accepted
  delivered : w'.delivered = w.delivered
  batches : w'.batches = w.batches

theorem SameHits.harmless {w w' : World} (h : SameHits w w') : Harmless w w' where
  settings := h.settings
  liveSubmitQ := h.liveSubmitQ
  finalized := h.finalized
  submitThreadJoinable := h.submitThreadJoinable
  kept := h.rows.kept
  acceptedIds := by rw [h.wave]; exact fun _ h ↦ h
  workerDone := h.workerDone
  accepted := by rw [h.accepted]; exact fun _ h ↦ h
  delivered := h.delivered
  batches := h.batches

/-- A step that changes neither bag nor queue. -/
theorem harmless_set {w : World} {sup : Supervisor} (hs : sup.settings = w.sup.settings)
    (hq : sup.liveSubmitQ = w.sup.liveSubmitQ) (hf : sup.finalized = w.sup.finalized)
    (hj : sup.submitThreadJoinable = w.sup.submitThreadJoinable)
    (hstore : sup.store = w.sup.store) : Harmless w { w with sup } :=
  ⟨hs, hq, hf, hj, hstore ▸ (SameRows.refl _).kept, fun _ h ↦ h, rfl, fun _ h ↦ h, rfl, rfl⟩

/-- An operation that keeps the rows. -/
theorem harmless_store {w : World} {store : BlockStore} (h : Kept w.sup.store store) :
    Harmless w { w with sup := { w.sup with store } } :=
  ⟨rfl, rfl, rfl, rfl, h, fun _ h ↦ h, rfl, fun _ h ↦ h, rfl, rfl⟩

/-- The next state keeps the invariant, and no thread minds the step. -/
def Fair (w w' : World) : Prop := DeliveryInv w' ∧ ∀ i, DeliveryRely i w w'

/-- **Fair steps from what they do to the bag.**  A step that leaves queue and batches alone is
fair as long as what is safe stays safe. -/
theorem fair_of_safe {w w' : World} (hinv : DeliveryInv w)
    (hset : w'.sup.settings = w.sup.settings) (hq : w'.sup.liveSubmitQ = w.sup.liveSubmitQ)
    (hfin : w'.sup.finalized = w.sup.finalized)
    (hjoin : w'.sup.submitThreadJoinable = w.sup.submitThreadJoinable)
    (hgrows : Grows w.sup.store w'.sup.store) (hhash : HashInv w'.sup.store)
    (hid : IdInv w'.sup.store) (hwave : ∀ id ∈ w'.wave.acceptedIds, Settled w' id)
    (hdone : w'.workerDone = w.workerDone) (hacc : ∀ h ∈ w.accepted, h ∈ w'.accepted)
    (hdel : w'.delivered = w.delivered) (hbat : w'.batches = w.batches)
    (hsafe : ∀ h, isArgon2Encoded h = true → Safe w h → Safe w' h) : Fair w w' := by
  have hloc : ∀ h, isArgon2Encoded h = true → Located w h → Located w' h := by
    intro h henc hl
    rcases hl with hl | hl | hl
    · exact .inl (hsafe h henc hl)
    · exact .inr (.inl (hq ▸ hl))
    · exact .inr (.inr (hbat ▸ hl))
  refine ⟨⟨?_, hhash, hid, hq ▸ hinv.queue, hbat ▸ hinv.batch, hwave, ?_, ?_, ?_⟩, fun i ↦
    ⟨hset, hacc, hgrows, hsafe, hloc, by rw [hbat], fun h ↦ hdone.trans h, fun _ ↦ hdone,
      fun _ h ↦ hq.trans h, fun _ ↦ hfin⟩⟩
  · have := hinv.keep
    unfold Supervisor.shouldStore Supervisor.bagOnly at this ⊢
    rw [hset]
    exact this
  · rw [hdone, hbat]
    exact hinv.done
  · rw [hjoin, hdone]
    exact hinv.joined
  · intro h hh
    rw [hdel] at hh
    exact ⟨(hinv.delivered h hh).1, hloc h (hinv.delivered h hh).1 (hinv.delivered h hh).2⟩

/-- Harmless steps are fair. -/
theorem Harmless.fair {w w' : World} (h : Harmless w w') (hinv : DeliveryInv w) : Fair w w' :=
  fair_of_safe hinv h.settings h.liveSubmitQ h.finalized h.submitThreadJoinable h.kept.toGrows
    (h.kept.hashInv hinv.hashInv) (h.kept.idInv hinv.idInv)
    (fun id hid ↦ (hinv.wave id (h.acceptedIds id hid)).mono h.accepted h.kept.toGrows)
    h.workerDone h.accepted h.delivered h.batches
    fun _ _ hs ↦ hs.mono h.accepted h.kept.holds

theorem Fair.guar {w w' : World} (h : Fair w w') (i : Thread) :
    (deliveryProtocol.crew i).Guar none w w' := ⟨h.1, fun j _ ↦ h.2 (j.getD i)⟩

/-! ### Specifications of fair programs

Most programs take fair steps only.  They are specified as members of a crew, which is how flush
workers run them; `triple_of_crew` makes that a specification for the thread itself. -/

namespace Sup

open Protocol

/-- The agreement for a program of thread `i` that takes fair steps only. -/
abbrev fairly (i : Thread) : Protocol (Option Thread) World Query Answer := deliveryProtocol.crew i

variable {i : Thread} {G : World → Prop} {α β : Type} {post : α → World → Prop}

theorem fairly_modify {f : World → World} {goal : World → Prop} (hG : (fairly i).Stable none G)
    (hgoal : (fairly i).Stable none goal)
    (h : ∀ w, DeliveryInv w → G w → Fair w (f w) ∧ goal (f w)) :
    (fairly i).Triple none G (Prog.modify f) fun _ ↦ goal :=
  triple_modify hG hgoal fun w hinv hw ↦ ⟨(h w hinv hw).1.guar i, (h w hinv hw).2⟩

/-- A program whose steps are harmless keeps what its thread may assume. -/
theorem fairly_of_harmless {p : Sup α} (hp : Does (fun _ _ ↦ True) (fun _ ↦ True) Harmless p)
    (hG : (fairly i).Stable none G) : (fairly i).Triple none G p fun _ ↦ G := by
  refine triple_of_does (does_mono hp (fun _ _ _ h ↦ h) (fun _ _ _ ↦ trivial) fun _ _ ↦ trivial) hG
    fun w w' hinv hw h ↦ ?_
  have hfair := Harmless.fair h hinv
  exact ⟨hfair.guar i, hG w w' (hfair.2 i) hfair.1 hw⟩

theorem fairly_of_calm {p : Sup α} (hp : Calm p) (hG : (fairly i).Stable none G) :
    (fairly i).Triple none G p fun _ ↦ G :=
  fairly_of_harmless (does_mono hp (fun _ _ _ h ↦ h.harmless) (fun _ _ h ↦ h) fun _ h ↦ h) hG

/-! ### What a thread may assume -/

theorem stable_safe {h : String} (henc : isArgon2Encoded h = true) :
    (fairly i).Stable none fun w ↦ Safe w h := fun _ _ hr _ hs ↦ hr.safe h henc hs

theorem stable_accepted {h : String} : (fairly i).Stable none fun w ↦ h ∈ w.accepted :=
  fun _ _ hr _ hs ↦ hr.accepted h hs

theorem stable_settled {id : Int} : (fairly i).Stable none fun w ↦ Settled w id :=
  fun _ _ hr _ hs ↦ hs.mono hr.accepted hr.grows

/-! ## Queueing -/

/-- **A hit that is queued is safe.** -/
theorem fairly_queueHit {hit : BlockHit} (henc : isArgon2Encoded hit.hashStr = true)
    (hG : (fairly i).Stable none G) (reason : String) :
    (fairly i).Triple none G (queueHit hit reason) fun _ w ↦ G w ∧ Safe w hit.hashStr := by
  refine triple_ask fun stamp _ ↦ fairly_modify hG (hG.and (stable_safe henc)) fun w hinv hw ↦ ?_
  have hfair := (harmless_store (kept_enqueue w.sup.store stamp hit reason)).fair hinv
  exact ⟨hfair, hG w _ (hfair.2 i) hfair.1 hw, .inr (holds_enqueue hinv.hashInv _ _ _)⟩

/-- `should_store()` is on. -/
theorem fairly_shouldStore {k : Bool → Sup α} (hG : (fairly i).Stable none G)
    (h : (fairly i).Triple none G (k true) post) :
    (fairly i).Triple none G (get (·.shouldStore) >>= k) post := by
  refine triple_read (M := fun b w ↦ G w ∧ b = true) hG (fun w hinv hw ↦ ⟨hw, hinv.keep⟩)
    fun b ↦ ?_
  cases b with
  | true => exact triple_mono h (fun _ _ hw ↦ hw.1) fun _ _ _ h ↦ h
  | false => exact fun _ _ hw ↦ absurd hw.2 (by decide)

theorem fairly_get {f : Supervisor → β} {k : β → Sup α} (hG : (fairly i).Stable none G)
    (h : ∀ b, (fairly i).Triple none G (k b) post) :
    (fairly i).Triple none G (get f >>= k) post :=
  triple_read (M := fun _ ↦ G) hG (fun _ _ h ↦ h) h

theorem fairly_query {q : Query} {k : Answer q → Sup α}
    (h : ∀ a, (fairly i).Triple none G (k a) post) :
    (fairly i).Triple none G (query q >>= k) post := triple_ask fun a _ ↦ h a

/-- **A batch that is queued is safe.** -/
theorem fairly_queueAll {jobs : List LiveSubmitJob}
    (henc : ∀ job ∈ jobs, isArgon2Encoded job.hit.hashStr = true)
    (hG : (fairly i).Stable none G) (reason : String) :
    (fairly i).Triple none G (queueAll reason jobs)
      fun _ w ↦ G w ∧ ∀ job ∈ jobs, Safe w job.hit.hashStr := by
  induction jobs generalizing G with
  | nil => exact triple_ret hG fun w _ hw ↦ ⟨hw, by simp⟩
  | cons job rest ih =>
      have hjob := henc job List.mem_cons_self
      refine triple_bind (fairly_queueHit hjob hG reason) fun _ ↦ ?_
      refine triple_mono (ih (fun j hj ↦ henc j (List.mem_cons_of_mem _ hj))
        (hG.and (stable_safe hjob))) (fun _ _ h ↦ h) fun _ w _ h ↦ ⟨h.1.1, ?_⟩
      exact List.forall_mem_cons.mpr ⟨h.1.2, h.2⟩

theorem fairly_queueBatchDown {jobs : List LiveSubmitJob}
    (henc : ∀ job ∈ jobs, isArgon2Encoded job.hit.hashStr = true)
    (hG : (fairly i).Stable none G) :
    (fairly i).Triple none G (queueBatchDown jobs)
      fun _ w ↦ G w ∧ ∀ job ∈ jobs, Safe w job.hit.hashStr := by
  induction jobs generalizing G with
  | nil => exact triple_ret hG fun w _ hw ↦ ⟨hw, by simp⟩
  | cons job rest ih =>
      have hjob := henc job List.mem_cons_self
      refine fairly_shouldStore hG (triple_bind (fairly_queueHit hjob hG _) fun _ ↦ ?_)
      refine triple_mono (ih (fun j hj ↦ henc j (List.mem_cons_of_mem _ hj))
        (hG.and (stable_safe hjob))) (fun _ _ h ↦ h) fun _ w _ h ↦ ⟨h.1.1, ?_⟩
      exact List.forall_mem_cons.mpr ⟨h.1.2, h.2⟩

/-! ## Submitting -/

/-- **A digest that `submit` says is accepted is accepted.** -/
theorem fairly_submit (hit : BlockHit) (hG : (fairly i).Stable none G) :
    (fairly i).Triple none G (submit hit)
      fun result w ↦ G w ∧ (result.ok = true → hit.hashStr ∈ w.accepted) := by
  refine triple_bind (fairly_of_harmless (p := Prog.modify _)
    (does_modify fun w _ ↦ ⟨rfl, rfl, rfl, rfl, (SameRows.refl _).kept, fun _ h ↦ h, rfl,
      fun _ h ↦ h, rfl, rfl⟩) hG) fun _ ↦ triple_ask fun answer _ ↦ ?_
  refine triple_ite (fun hok ↦ ?_) fun hok ↦ triple_ret hG fun w _ hw ↦ ⟨hw, fun h ↦ absurd h hok⟩
  refine triple_bind (M := fun _ w ↦ G w ∧ hit.hashStr ∈ w.accepted) ?_ fun _ ↦
    triple_ret (hG.and stable_accepted) fun w _ hw ↦ ⟨hw.1, fun _ ↦ hw.2⟩
  refine fairly_modify hG (hG.and stable_accepted) fun w hinv hw ↦ ?_
  have hfair : Fair w { w with accepted := w.accepted ++ [hit.hashStr] } :=
    Harmless.fair ⟨rfl, rfl, rfl, rfl, (SameRows.refl _).kept, fun _ h ↦ h, rfl,
      fun _ h ↦ List.mem_append_left _ h, rfl, rfl⟩ hinv
  exact ⟨hfair, hG w _ (hfair.2 i) hfair.1 hw, List.mem_append_right _ List.mem_cons_self⟩

/-- **Whatever the pool answers, the hit is safe.** -/
theorem fairly_settleLive {hit : BlockHit} (henc : isArgon2Encoded hit.hashStr = true)
    (hG : (fairly i).Stable none G) (result : SubmitResult) :
    (fairly i).Triple none (fun w ↦ G w ∧ (result.ok = true → hit.hashStr ∈ w.accepted))
      (settleLive hit result) fun _ w ↦ G w ∧ Safe w hit.hashStr := by
  have hqueue (reason : String) : (fairly i).Triple none
      (fun w ↦ G w ∧ (result.ok = true → hit.hashStr ∈ w.accepted)) (queueHit hit reason)
      fun _ w ↦ G w ∧ Safe w hit.hashStr :=
    triple_mono (fairly_queueHit henc hG reason) (fun _ _ h ↦ h.1) fun _ _ _ h ↦ h
  have hstable : (fairly i).Stable none
      fun w ↦ G w ∧ (result.ok = true → hit.hashStr ∈ w.accepted) :=
    hG.and fun w w' hr hinv h hok ↦ stable_accepted w w' hr hinv (h hok)
  refine triple_ite (fun hok ↦ ?_) fun _ ↦ ?_
  · -- accepted
    have hdone {p : Sup Unit} (hp : Does (fun _ _ ↦ True) (fun _ ↦ True) Harmless p) :
        (fairly i).Triple none (fun w ↦ G w ∧ (result.ok = true → hit.hashStr ∈ w.accepted)) p
          fun _ w ↦ G w ∧ Safe w hit.hashStr :=
      triple_mono (fairly_of_harmless hp (hG.and stable_accepted)) (fun _ _ h ↦ ⟨h.1, h.2 hok⟩)
        fun _ _ _ h ↦ ⟨h.1, .inl h.2⟩
    refine hdone ?_
    refine does_modify_bind (fun w _ ↦ harmless_set rfl rfl rfl rfl rfl) ?_
    refine does_get_bind (fun w _ ↦ SameHits.harmless (sameHits_refl w trivial)) fun _ _ ↦
      does_ite (fun _ ↦ does_modify fun w _ ↦ harmless_set rfl rfl rfl rfl rfl) fun _ ↦ trivial
  refine triple_ite (fun _ ↦ ?_) fun _ ↦ ?_
  · exact fairly_shouldStore hstable (hqueue _)
  refine triple_ite (fun _ ↦ hqueue _) fun _ ↦ triple_ite (fun _ ↦ ?_) fun _ ↦
    triple_ite (fun _ ↦ hqueue _) fun _ ↦ ?_
  · exact triple_bind (fairly_of_calm (calm_noteSubmitTransportFailure _) hstable)
      fun _ ↦ hqueue _
  · -- any other answer: audited, and queued again
    refine fairly_query fun stamp ↦
      fairly_modify hstable (hG.and (stable_safe henc)) fun w hinv hw ↦ ?_
    have hfair := (harmless_store (kept_recordRejection w.sup.store stamp hit result.status
      result.body "live")).fair hinv
    exact ⟨hfair, hG w _ (hfair.2 i) hfair.1 hw.1,
      .inr (holds_recordRejection hinv.hashInv _ _ _ _ _)⟩

variable {c : Calls}

theorem fairly_submitLive (hc : c.Calm) {hit : BlockHit}
    (henc : isArgon2Encoded hit.hashStr = true) (hG : (fairly i).Stable none G) (hitM : Int) :
    (fairly i).Triple none G (submitLive c hit hitM) fun _ w ↦ G w ∧ Safe w hit.hashStr := by
  refine triple_bind (fairly_of_calm (hc.refreshNetwork _ _) hG) fun _ ↦
    triple_bind (fairly_of_calm (does_canSubmitHitM sameHits_refl hitM) hG) fun _ ↦
    triple_ite (fun _ ↦ ?_) fun _ ↦ fairly_shouldStore hG ?_
  · refine triple_bind (fairly_of_calm calm_verifyReadyToPush hG) fun _ ↦
      triple_ite (fun _ ↦ ?_) fun _ ↦ fairly_shouldStore hG (fairly_queueHit henc hG _)
    exact triple_bind (fairly_submit hit hG) fun result ↦ fairly_settleLive henc hG result
  · refine triple_bind (fairly_of_calm (does_liveSubmitAllowed sameHits_refl) hG) fun _ ↦ ?_
    exact fairly_get hG fun _ ↦ fairly_queueHit henc hG _

/-- **`process_live_submit` loses nothing.** -/
theorem fairly_processLiveSubmit (hc : c.Calm) {hit : BlockHit}
    (henc : isArgon2Encoded hit.hashStr = true) (hG : (fairly i).Stable none G) (kind : String) :
    (fairly i).Triple none G (processLiveSubmit c hit kind)
      fun _ w ↦ G w ∧ Safe w hit.hashStr := by
  have hqueue (reason : String) := fairly_queueHit henc hG reason
  refine triple_bind (fairly_of_calm (p := beginCall) (does_modify fun w _ ↦
    ⟨rfl, rfl, rfl, rfl, .refl _, rfl, rfl, rfl, rfl, rfl, rfl⟩) hG) fun _ ↦ ?_
  refine fairly_get hG fun _ ↦ triple_ite (fun _ ↦ hqueue _) fun _ ↦
    fairly_get hG fun _ ↦ fairly_get hG fun _ ↦ triple_ite (fun _ ↦ hqueue _) fun _ ↦
    triple_ite (fun _ ↦ ?_) fun _ ↦ fairly_submitLive hc henc hG _
  refine fairly_shouldStore hG (fairly_get hG fun _ ↦ fairly_query fun minute ↦ ?_)
  exact triple_ite (fun h ↦ absurd h.1 (by decide)) fun _ ↦ triple_ite (fun _ ↦ hqueue _) fun _ ↦
    fairly_submitLive hc henc hG _

theorem fairly_processBatch (hc : c.Calm) {jobs : List LiveSubmitJob}
    (henc : ∀ job ∈ jobs, isArgon2Encoded job.hit.hashStr = true)
    (hG : (fairly i).Stable none G) :
    (fairly i).Triple none G (processBatch c jobs)
      fun _ w ↦ G w ∧ ∀ job ∈ jobs, Safe w job.hit.hashStr := by
  induction jobs generalizing G with
  | nil => exact triple_ret hG fun w _ hw ↦ ⟨hw, by simp⟩
  | cons job rest ih =>
      have hjob := henc job List.mem_cons_self
      refine triple_bind (fairly_processLiveSubmit hc hjob hG _) fun _ ↦ ?_
      refine triple_mono (ih (fun j hj ↦ henc j (List.mem_cons_of_mem _ hj))
        (hG.and (stable_safe hjob))) (fun _ _ h ↦ h) fun _ w _ h ↦ ⟨h.1.1, ?_⟩
      exact List.forall_mem_cons.mpr ⟨h.1.2, h.2⟩

end Sup

end XNMiner
