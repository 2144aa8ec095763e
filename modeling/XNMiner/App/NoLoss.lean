import XNMiner.App.DeliveryFlush
import XNMiner.Lib.Alone
import XNMiner.Queue.Reload

/-!
# The threads of a run lose no hit

Each of the three threads keeps to `deliveryProtocol`: it starts every round with no batch of its
own, and finishes a batch only when all of it is safe.  The mining thread ends its last round with
the live queue empty and the submit worker joined.

`no_hit_lost` is what follows for a whole run: a hit that was handed over is located at every
moment, and safe once the mining thread has finished and no call of `persist_queue_for_restart`
is running.
-/

namespace XNMiner

open Lib Prog BlockStore

/-- Thread `i` has taken out `jobs` and not finished them. -/
structure Holding (i : Thread) (jobs : List LiveSubmitJob) (fin : Bool) (w : World) : Prop where
  batch : w.batches i = jobs
  alive : i = .submit → w.workerDone = false
  finalized : i = .mining → w.sup.finalized = fin

/-- The same, after the thread has emptied the queue. -/
structure Emptied (i : Thread) (jobs : List LiveSubmitJob) (fin : Bool) (w : World) : Prop
    extends Holding i jobs fin w where
  queue : i = .mining → w.sup.liveSubmitQ = []

/-- A supervisor whose threads have just been started, on any bag. -/
structure Supervisor.Starts (s : Supervisor) : Prop where
  store : s.store.Reachable
  liveSubmitQ : s.liveSubmitQ = []
  submitThreadJoinable : s.submitThreadJoinable = true
  finalized : s.finalized = false

namespace Sup

open Protocol

variable {i : Thread} {jobs : List LiveSubmitJob} {fin : Bool} {α : Type} {c : Calls}

theorem stable_holding : deliveryProtocol.Stable i (Holding i jobs fin) :=
  fun _ _ hr _ h ↦ ⟨hr.batch.trans h.batch, fun hi ↦ (hr.worker hi).trans (h.alive hi),
    fun hi ↦ (hr.finalized hi).trans (h.finalized hi)⟩

theorem stable_emptied : deliveryProtocol.Stable i (Emptied i jobs fin) :=
  fun w w' hr hinv h ↦ ⟨stable_holding w w' hr hinv h.toHolding, fun hi ↦ hr.queue hi (h.queue hi)⟩

/-- A specification of a fair program is one for its thread. -/
theorem of_fairly {G : World → Prop} {p : Sup α} {post : α → World → Prop}
    (h : (fairly i).Triple none G p post) : deliveryProtocol.Triple i G p post := triple_of_crew h

/-! ## Batches -/

/-- **The queue becomes the batch of a thread.** -/
theorem triple_swapLiveQueue :
    deliveryProtocol.Triple i (Holding i [] fin) (swapLiveQueue i) fun jobs w ↦
      Emptied i jobs fin w ∧ ∀ job ∈ jobs, isArgon2Encoded job.hit.hashStr = true := by
  refine triple_step stable_holding fun w hinv hw _ ↦ ?_
  have hloc : ∀ h, Located w h → Located { w with
      sup := { w.sup with liveSubmitQ := [] }
      batches := Function.update w.batches i w.sup.liveSubmitQ } h := by
    rintro h (hsafe | ⟨job, hjob, rfl⟩ | ⟨j, job, hjob, rfl⟩)
    · exact .inl hsafe
    · exact .inr (.inr ⟨i, job, by simpa using hjob, rfl⟩)
    · have hj : j ≠ i := by
        rintro rfl
        rw [hw.batch] at hjob
        cases hjob
      exact .inr (.inr ⟨j, job, by simpa [Function.update_of_ne hj] using hjob, rfl⟩)
  have hinv' : DeliveryInv { w with
      sup := { w.sup with liveSubmitQ := [] }
      batches := Function.update w.batches i w.sup.liveSubmitQ } := by
    refine ⟨hinv.keep, hinv.hashInv, hinv.idInv, by simp, fun j job hjob ↦ ?_,
      fun id hid ↦ ⟨(hinv.wave id hid).lt, (hinv.wave id hid).accepted⟩, fun hdone ↦ ?_,
      hinv.joined, fun h hh ↦ ⟨(hinv.delivered h hh).1, hloc h (hinv.delivered h hh).2⟩⟩
    · by_cases hj : j = i
      · subst hj
        exact hinv.queue job (by simpa using hjob)
      · exact hinv.batch j job (by simpa [Function.update_of_ne hj] using hjob)
    · have hi : Thread.submit ≠ i := by
        rintro rfl
        simp [hw.alive rfl] at hdone
      simpa [Function.update_of_ne hi] using hinv.done hdone
  refine ⟨⟨hinv', fun j hj ↦ ⟨rfl, fun _ h ↦ h, .refl _, fun _ _ h ↦ h, fun h _ ↦ hloc h, ?_,
    fun h ↦ h, fun _ ↦ rfl, fun _ _ ↦ rfl, fun _ ↦ rfl⟩⟩, ?_⟩
  · simp [Function.update_of_ne hj]
  · exact triple_ret (G := fun w' ↦ Emptied i w.sup.liveSubmitQ fin w' ∧
        ∀ job ∈ w.sup.liveSubmitQ, isArgon2Encoded job.hit.hashStr = true)
      (stable_emptied.and Stable.const) (fun _ _ h ↦ h) _ hinv'
      ⟨⟨⟨by simp, hw.alive, hw.finalized⟩, fun _ ↦ rfl⟩, hinv.queue⟩

/-- **A batch is finished only when all of it is safe.** -/
theorem triple_finishBatch (henc : ∀ job ∈ jobs, isArgon2Encoded job.hit.hashStr = true) :
    deliveryProtocol.Triple i
      (fun w ↦ Emptied i jobs fin w ∧ ∀ job ∈ jobs, Safe w job.hit.hashStr) (finishBatch i)
      fun _ ↦ Emptied i [] fin := by
  have hstable : deliveryProtocol.Stable i
      fun w ↦ Emptied i jobs fin w ∧ ∀ job ∈ jobs, Safe w job.hit.hashStr :=
    stable_emptied.and fun w w' hr _ h job hjob ↦ hr.safe _ (henc job hjob) (h job hjob)
  refine triple_modify hstable stable_emptied fun w hinv ⟨hw, hsafe⟩ ↦ ?_
  have hloc : ∀ h, Located w h →
      Located { w with batches := Function.update w.batches i [] } h := by
    rintro h (hs | ⟨job, hjob, rfl⟩ | ⟨j, job, hjob, rfl⟩)
    · exact .inl hs
    · exact .inr (.inl ⟨job, hjob, rfl⟩)
    · by_cases hj : j = i
      · subst hj
        exact .inl (hsafe job (hw.batch ▸ hjob))
      · exact .inr (.inr ⟨j, job, by simpa [Function.update_of_ne hj] using hjob, rfl⟩)
  have hbatch : ∀ j, ∀ job ∈ Function.update w.batches i [] j, job ∈ w.batches j := by
    intro j job hjob
    by_cases hj : j = i
    · simp [hj] at hjob
    · simpa [Function.update_of_ne hj] using hjob
  refine ⟨⟨⟨hinv.keep, hinv.hashInv, hinv.idInv, hinv.queue,
    fun j job hjob ↦ hinv.batch j job (hbatch j job hjob),
    fun id hid ↦ ⟨(hinv.wave id hid).lt, (hinv.wave id hid).accepted⟩, fun hdone ↦ ?_,
    hinv.joined, fun h hh ↦ ⟨(hinv.delivered h hh).1, hloc h (hinv.delivered h hh).2⟩⟩,
    fun j hj ↦ ⟨rfl, fun _ h ↦ h, .refl _, fun _ _ h ↦ h, fun h _ ↦ hloc h,
      by simp [Function.update_of_ne hj], fun h ↦ h, fun _ ↦ rfl, fun _ h ↦ h, fun _ ↦ rfl⟩⟩,
    ⟨⟨by simp, hw.alive, hw.finalized⟩, hw.queue⟩⟩
  exact List.eq_nil_iff_forall_not_mem.mpr fun job hjob ↦ by
    have := hbatch .submit job hjob
    rw [hinv.done hdone] at this
    cases this

/-- **`bag_live_queue_to_store` leaves nothing in the queue and finishes what it took.** -/
theorem triple_bagLiveQueueToStore (reason : String) :
    deliveryProtocol.Triple i (Holding i [] fin) (bagLiveQueueToStore i reason)
      fun _ ↦ Emptied i [] fin :=
  triple_bind triple_swapLiveQueue fun _ ↦ triple_pure fun henc ↦
    triple_bind (of_fairly (fairly_queueAll henc stable_emptied reason)) fun _ ↦
      triple_finishBatch henc

/-! ## The mining thread -/

/-- What the mining thread may assume before the session is finalized. -/
abbrev Mining : World → Prop := Holding .mining [] false

theorem stable_mining : deliveryProtocol.Stable .mining Mining := stable_holding

/-- A hit that is queued is located. -/
theorem triple_queueHit {hit : BlockHit} (henc : isArgon2Encoded hit.hashStr = true)
    (reason : String) :
    deliveryProtocol.Triple .mining Mining (queueHit hit reason)
      fun _ w ↦ Mining w ∧ Located w hit.hashStr :=
  triple_mono (of_fairly (fairly_queueHit henc stable_mining reason)) (fun _ _ h ↦ h)
    fun _ _ _ h ↦ ⟨h.1, .inl h.2⟩

/-- **A hit in the live queue is located.** -/
theorem triple_enqueueLiveSubmit {hit : BlockHit} (henc : isArgon2Encoded hit.hashStr = true)
    (kind : String) :
    deliveryProtocol.Triple .mining Mining (enqueueLiveSubmit { hit, kind })
      fun _ w ↦ Mining w ∧ Located w hit.hashStr := by
  refine triple_modify stable_mining
    (stable_mining.and fun _ _ hr _ h ↦ hr.located _ henc h) fun w hinv hw ↦ ?_
  set w' : World := { w with sup := { w.sup with
    liveSubmitQ := w.sup.liveSubmitQ ++ [{ hit, kind }] } } with hw'
  have hloc : ∀ h, Located w h → Located w' h := by
    rintro h (hs | ⟨job, hjob, rfl⟩ | hb)
    · exact .inl hs
    · exact .inr (.inl ⟨job, List.mem_append_left _ hjob, rfl⟩)
    · exact .inr (.inr hb)
  refine ⟨⟨⟨hinv.keep, hinv.hashInv, hinv.idInv, fun job hjob ↦ ?_, hinv.batch,
    fun id hid ↦ ⟨(hinv.wave id hid).lt, (hinv.wave id hid).accepted⟩, hinv.done, hinv.joined,
    fun h hh ↦ ⟨(hinv.delivered h hh).1, hloc h (hinv.delivered h hh).2⟩⟩,
    fun j hj ↦ ⟨rfl, fun _ h ↦ h, .refl _, fun _ _ h ↦ h, fun h _ ↦ hloc h, rfl, fun h ↦ h,
      fun _ ↦ rfl, fun h ↦ absurd h hj, fun _ ↦ rfl⟩⟩, ⟨⟨hw.batch, hw.alive, hw.finalized⟩, ?_⟩⟩
  · rcases List.mem_append.mp hjob with hjob | hjob
    · exact hinv.queue job hjob
    · rw [List.mem_singleton.mp hjob]
      exact henc
  · exact .inr (.inl ⟨{ hit, kind }, List.mem_append_right _ List.mem_cons_self, rfl⟩)

variable {β : Type} {post : α → World → Prop} {G : World → Prop}

theorem triple_get {f : Supervisor → β} {k : β → Sup α} (hG : deliveryProtocol.Stable i G)
    (h : ∀ b, deliveryProtocol.Triple i G (k b) post) :
    deliveryProtocol.Triple i G (get f >>= k) post :=
  triple_read (M := fun _ ↦ G) hG (fun _ _ h ↦ h) h

theorem triple_query {q : Query} {k : Answer q → Sup α}
    (h : ∀ a, deliveryProtocol.Triple i G (k a) post) :
    deliveryProtocol.Triple i G (query q >>= k) post := triple_ask fun a _ ↦ h a

theorem triple_inXuniSubmitWindow {k : Bool → Sup α}
    (h : ∀ b, deliveryProtocol.Triple i G (k b) post) :
    deliveryProtocol.Triple i G (inXuniSubmitWindow >>= k) post := triple_query fun _ ↦ h _

/-- `should_store()` is on. -/
theorem triple_shouldStore {k : Bool → Sup α} (hG : deliveryProtocol.Stable i G)
    (h : deliveryProtocol.Triple i G (k true) post) :
    deliveryProtocol.Triple i G (get (·.shouldStore) >>= k) post := by
  refine triple_read (M := fun b w ↦ G w ∧ b = true) hG (fun w hinv hw ↦ ⟨hw, hinv.keep⟩)
    fun b ↦ triple_pure fun hb ↦ ?_
  rw [hb]
  exact h

/-- A calm call, in a program that may do more. -/
theorem triple_calm {p : Sup β} {k : β → Sup α} (hp : Calm p) (hG : deliveryProtocol.Stable i G)
    (h : ∀ b, deliveryProtocol.Triple i G (k b) post) :
    deliveryProtocol.Triple i G (p >>= k) post :=
  triple_bind (of_fairly (fairly_of_calm hp hG)) h

/-- **On every branch of `handle_hit` the hit goes somewhere.** -/
theorem triple_handOff {hit : BlockHit} (henc : isArgon2Encoded hit.hashStr = true) :
    deliveryProtocol.Triple .mining Mining (handOff hit)
      fun _ w ↦ Mining w ∧ Located w hit.hashStr := by
  have hqueue (reason : String) := triple_queueHit henc reason
  refine triple_get stable_mining fun _ ↦ triple_ite (fun _ ↦ hqueue _) fun _ ↦
    triple_get stable_mining fun _ ↦ triple_get stable_mining fun _ ↦
    triple_ite (fun _ ↦ triple_inXuniSubmitWindow fun _ ↦ hqueue _) fun _ ↦
    triple_inXuniSubmitWindow fun _ ↦
    triple_ite (fun _ ↦ triple_shouldStore stable_mining (hqueue _)) fun _ ↦ ?_
  refine triple_get stable_mining fun _ ↦ triple_ite (fun _ ↦ hqueue _) fun _ ↦
    triple_calm (does_canSubmitHitM sameHits_refl _) stable_mining fun _ ↦
    triple_ite (fun _ ↦ triple_enqueueLiveSubmit henc _) fun _ ↦
    triple_shouldStore stable_mining (triple_get stable_mining fun wrongM ↦ ?_)
  cases wrongM with
  | some reason => exact hqueue reason
  | none =>
      exact triple_get stable_mining fun _ ↦ triple_query fun _ ↦
        triple_get stable_mining fun _ ↦ hqueue _

/-- What `handle_hit` answers is located. -/
theorem triple_handleHit (hit : BlockHit) :
    deliveryProtocol.Triple .mining Mining (handleHit hit) fun answer w ↦
      Mining w ∧ ∀ prepared, answer = some prepared →
        isArgon2Encoded prepared.hashStr = true ∧ Located w prepared.hashStr := by
  have hnone : deliveryProtocol.Triple .mining Mining (pure none : Sup (Option BlockHit))
      fun answer w ↦ Mining w ∧ ∀ prepared, answer = some prepared →
        isArgon2Encoded prepared.hashStr = true ∧ Located w prepared.hashStr :=
    triple_ret stable_mining fun _ _ h ↦ ⟨h, fun _ hp ↦ by cases hp⟩
  refine triple_ite (fun _ ↦ hnone) fun _ ↦ triple_get stable_mining fun _ ↦
    triple_get stable_mining fun _ ↦ triple_inXuniSubmitWindow fun _ ↦
    triple_ite (fun _ ↦ hnone) fun _ ↦ ?_
  refine triple_get stable_mining fun settings ↦ triple_get stable_mining fun miningM ↦ ?_
  cases hprep : prepareHitForSubmit hit (hitSalt settings hit) miningM settings.timeCost
      settings.parallelism with
  | none => exact hnone
  | some prepared =>
      have henc := isArgon2Encoded_of_prepare hprep
      refine triple_bind (triple_handOff henc) fun _ ↦ triple_ret
        (stable_mining.and fun _ _ hr _ h ↦ hr.located _ henc h) fun w _ h ↦ ⟨h.1, ?_⟩
      rintro _ ⟨⟩
      exact ⟨henc, h.2⟩

/-- **Only located hits count as handed over.** -/
theorem triple_noteDelivered (answer : Option BlockHit) :
    deliveryProtocol.Triple .mining
      (fun w ↦ Mining w ∧ ∀ prepared, answer = some prepared →
        isArgon2Encoded prepared.hashStr = true ∧ Located w prepared.hashStr)
      (noteDelivered answer) fun _ ↦ Mining := by
  have hstable : deliveryProtocol.Stable .mining fun w ↦ Mining w ∧ ∀ prepared,
      answer = some prepared → isArgon2Encoded prepared.hashStr = true ∧
        Located w prepared.hashStr :=
    stable_mining.and fun w w' hr _ h p hp ↦ ⟨(h p hp).1, hr.located _ (h p hp).1 (h p hp).2⟩
  cases answer with
  | none => exact triple_ret hstable fun _ _ h ↦ h.1
  | some hit =>
      refine triple_modify hstable stable_mining fun w hinv hw ↦ ?_
      refine ⟨⟨⟨hinv.keep, hinv.hashInv, hinv.idInv, hinv.queue, hinv.batch,
        fun id hid ↦ ⟨(hinv.wave id hid).lt, (hinv.wave id hid).accepted⟩, hinv.done, hinv.joined,
        fun h hh ↦ ?_⟩, fun j _ ↦ ⟨rfl, fun _ h ↦ h, .refl _, fun _ _ h ↦ h, fun _ _ h ↦ h, rfl,
          fun h ↦ h, fun _ ↦ rfl, fun _ h ↦ h, fun _ ↦ rfl⟩⟩,
        ⟨hw.1.batch, hw.1.alive, hw.1.finalized⟩⟩
      rcases List.mem_append.mp hh with hh | hh
      · exact hinv.delivered h hh
      · rw [List.mem_singleton.mp hh]
        exact hw.2 hit rfl

theorem triple_handleBatchHits (hits : List BlockHit) :
    deliveryProtocol.Triple .mining Mining (handleBatchHits hits) fun _ ↦ Mining := by
  induction hits with
  | nil => exact triple_ret stable_mining fun _ _ h ↦ h
  | cons hit rest ih =>
      exact triple_bind (triple_handleHit hit) fun answer ↦
        triple_bind (triple_noteDelivered answer) fun _ ↦ ih

/-! ## Shutdown -/

/-- A step of the mining thread that no other thread can see. -/
theorem triple_set {f : Supervisor → Supervisor} (hf : ∀ w, Harmless w { w with sup := f w.sup })
    (hG : deliveryProtocol.Stable i G) :
    deliveryProtocol.Triple i G (set f) fun _ ↦ G := of_fairly (fairly_set hf hG)

/-- The worker has returned. -/
theorem stable_workerDone : deliveryProtocol.Stable i fun w ↦ w.workerDone = true :=
  fun _ _ hr _ h ↦ hr.done h

/-- `submit_thread_.join()` has returned. -/
theorem triple_joined (hG : deliveryProtocol.Stable .mining G)
    (hset : ∀ w b, G w → G { w with sup := { w.sup with submitThreadJoinable := b } }) :
    deliveryProtocol.Triple .mining (fun w ↦ G w ∧ w.workerDone = true)
      (set fun s ↦ { s with submitThreadJoinable := false })
      fun _ w ↦ G w ∧ w.workerDone = true := by
  refine triple_modify (hG.and stable_workerDone) (hG.and stable_workerDone) fun w hinv hw ↦ ?_
  exact ⟨⟨⟨hinv.keep, hinv.hashInv, hinv.idInv, hinv.queue, hinv.batch,
    fun id hid ↦ ⟨(hinv.wave id hid).lt, (hinv.wave id hid).accepted⟩, hinv.done, fun _ ↦ hw.2,
    hinv.delivered⟩, fun j _ ↦ ⟨rfl, fun _ h ↦ h, .refl _, fun _ _ h ↦ h, fun _ _ h ↦ h, rfl,
      fun h ↦ h, fun _ ↦ rfl, fun _ h ↦ h, fun _ ↦ rfl⟩⟩, hset w false hw.1, hw.2⟩

/-- **After `stop_submit_worker` the worker has returned.** -/
theorem triple_stopSubmitWorker (hG : deliveryProtocol.Stable .mining G)
    (hset : ∀ w b, G w → G { w with sup := { w.sup with submitThreadJoinable := b } }) :
    deliveryProtocol.Triple .mining G stopSubmitWorker fun _ w ↦ G w ∧ w.workerDone = true := by
  refine triple_read (M := fun joinable w ↦ G w ∧ (joinable = false → w.workerDone = true)) hG
    (fun w hinv hw ↦ ⟨hw, hinv.joined⟩) fun joinable ↦ ?_
  have hstable : deliveryProtocol.Stable .mining
      fun w ↦ G w ∧ (joinable = false → w.workerDone = true) :=
    hG.and fun w w' hr hinv h hj ↦ stable_workerDone w w' hr hinv (h hj)
  refine triple_get hstable fun _ ↦ triple_ite
    (fun hj ↦ triple_ret hstable fun _ _ h ↦ ⟨h.1, h.2 hj.2⟩) fun _ ↦
    triple_bind (triple_set (fun w ↦ harmless_set rfl rfl rfl rfl rfl) hstable) fun _ ↦
    triple_ite (fun _ ↦ ?_) fun hj ↦
      triple_ret hstable fun _ _ h ↦ ⟨h.1, h.2 (Bool.eq_false_iff.mpr hj)⟩
  -- the join waits for the worker
  refine triple_step hstable fun w hinv hw hdone ↦ ?_
  exact ⟨⟨hinv, fun j _ ↦ .refl j w⟩, triple_joined hG hset w hinv ⟨hw.1, hdone⟩⟩

theorem triple_gracefulShutdown :
    deliveryProtocol.Triple .mining Mining gracefulShutdown fun _ ↦ Mining := by
  refine triple_get stable_mining fun _ ↦ triple_ite
    (fun _ ↦ triple_ret stable_mining fun _ _ h ↦ h) fun _ ↦
    triple_bind (triple_set (fun w ↦ harmless_set rfl rfl rfl rfl rfl) stable_mining) fun _ ↦
    triple_bind (triple_set (fun w ↦ harmless_set rfl rfl rfl rfl rfl) stable_mining) fun _ ↦
    triple_query fun hits ↦ ?_
  have hrest : deliveryProtocol.Triple .mining Mining (do
      bagLiveQueueToStore .mining shutdownPendingReason
      deferAllToNextStart
      Sup.store .flush
      stopSubmitWorker) fun _ ↦ Mining := by
    refine triple_bind (triple_mono (triple_bagLiveQueueToStore _) (fun _ _ h ↦ h)
      fun _ _ _ h ↦ h.toHolding) fun _ ↦ triple_calm calm_deferAllToNextStart stable_mining
      fun _ ↦ triple_bind (triple_set (fun w ↦ harmless_store (sameRows_flush _).kept)
      stable_mining) fun _ ↦ ?_
    exact triple_mono (triple_stopSubmitWorker stable_mining fun w b h ↦ ⟨h.batch, h.alive,
      h.finalized⟩) (fun _ _ h ↦ h) fun _ _ _ h ↦ h.1
  cases hits with
  | none => exact hrest
  | some hits => exact triple_bind (triple_handleBatchHits hits) fun _ ↦ hrest

/-- `finalized_` is set. -/
theorem triple_setFinalized :
    deliveryProtocol.Triple .mining Mining (set fun s ↦ { s with finalized := true })
      fun _ ↦ Holding .mining [] true :=
  triple_modify stable_mining stable_holding fun _ hinv hw ↦
    ⟨⟨⟨hinv.keep, hinv.hashInv, hinv.idInv, hinv.queue, hinv.batch,
      fun id hid ↦ ⟨(hinv.wave id hid).lt, (hinv.wave id hid).accepted⟩, hinv.done, hinv.joined,
      hinv.delivered⟩, fun _ hj ↦ ⟨rfl, fun _ h ↦ h, .refl _, fun _ _ h ↦ h, fun _ _ h ↦ h, rfl,
        fun h ↦ h, fun _ ↦ rfl, fun _ h ↦ h, fun h ↦ absurd h hj⟩⟩,
      ⟨hw.batch, hw.alive, fun _ ↦ rfl⟩⟩

/-- The mining thread has returned from `finalize_session`. -/
def Stopped (w : World) : Prop := Emptied .mining [] true w ∧ w.workerDone = true

/-- **`finalize_session` leaves the queue empty and the worker joined.** -/
theorem triple_finalizeSession :
    deliveryProtocol.Triple .mining Mining finalizeSession fun _ ↦ Stopped := by
  refine triple_read (M := fun fin w ↦ Mining w ∧ fin = false) stable_mining
    (fun w _ hw ↦ ⟨hw, hw.finalized rfl⟩) fun fin ↦ triple_pure fun hfin ↦ ?_
  rw [hfin]
  refine triple_bind triple_setFinalized fun _ ↦
    triple_bind (triple_set (fun w ↦ harmless_set rfl rfl rfl rfl rfl) stable_holding) fun _ ↦
    triple_bind (triple_set (fun w ↦ harmless_set rfl rfl rfl rfl rfl) stable_holding) fun _ ↦
    triple_bind (triple_bagLiveQueueToStore _) fun _ ↦
    triple_calm calm_deferAllToNextStart stable_emptied fun _ ↦ ?_
  exact triple_stopSubmitWorker stable_emptied fun w b h ↦
    ⟨⟨h.batch, h.alive, h.finalized⟩, h.queue⟩

/-! ## The threads -/

/-- Where a thread starts a round. -/
def atLoop (i : Thread) : World → Prop := Holding i [] false

/-- What a thread has reached when it has stopped. -/
def atEnd (i : Thread) (w : World) : Prop := i = .mining → Stopped w

/-- What a round leads to. -/
def atReturn (i : Thread) (again : Bool) (w : World) : Prop :=
  if again then atLoop i w else atEnd i w

theorem triple_again (hG : deliveryProtocol.Stable i G) (h : ∀ w, G w → atLoop i w) :
    deliveryProtocol.Triple i G (pure true) (atReturn i) := triple_ret hG fun w _ hw ↦ h w hw

theorem triple_miningBody (hc : c.Calm) :
    deliveryProtocol.Triple .mining (atLoop .mining) (miningBody c) (atReturn .mining) := by
  have hstopped : deliveryProtocol.Stable .mining Stopped := stable_emptied.and stable_workerDone
  have hend : deliveryProtocol.Triple .mining (atLoop .mining) endRun (atReturn .mining) :=
    triple_bind triple_gracefulShutdown fun _ ↦ triple_bind triple_finalizeSession fun _ ↦
      triple_ret hstopped fun _ _ h _ ↦ h
  refine triple_get stable_mining fun _ ↦ triple_ite (fun _ ↦ triple_query fun round ↦ ?_)
    fun _ ↦ hend
  cases round with
  | poll =>
      exact triple_query fun t ↦ triple_calm (hc.refreshNetwork _ _) stable_mining fun _ ↦
        triple_calm (hc.updateMatchDrain t) stable_mining fun _ ↦
        triple_again stable_mining fun _ h ↦ h
  | hits hits =>
      exact triple_bind (triple_handleBatchHits hits) fun _ ↦
        triple_again stable_mining fun _ h ↦ h
  | maxSeconds => exact hend

/-- The worker returns. -/
theorem triple_workerDone :
    deliveryProtocol.Triple .submit (Holding .submit [] false)
      (Prog.modify (fun w ↦ { w with workerDone := true }) >>= fun _ ↦ pure false)
      (atReturn .submit) := by
  refine triple_step stable_holding fun w hinv hw _ ↦ ?_
  have hinv' : DeliveryInv { w with workerDone := true } :=
    ⟨hinv.keep, hinv.hashInv, hinv.idInv, hinv.queue, hinv.batch,
      fun id hid ↦ ⟨(hinv.wave id hid).lt, (hinv.wave id hid).accepted⟩, fun _ ↦ hw.batch,
      fun _ ↦ rfl, hinv.delivered⟩
  refine ⟨⟨hinv', fun j hj ↦ ⟨rfl, fun _ h ↦ h, .refl _, fun _ _ h ↦ h, fun _ _ h ↦ h, rfl,
    fun _ ↦ rfl, fun h ↦ absurd h hj, fun _ h ↦ h, fun _ ↦ rfl⟩⟩, ?_⟩
  exact fun _ _ _ h ↦ Thread.noConfusion h

theorem triple_submitBody (hc : c.Calm) :
    deliveryProtocol.Triple .submit (atLoop .submit) (submitBody c) (atReturn .submit) := by
  refine triple_bind triple_swapLiveQueue fun jobs ↦ triple_pure fun henc ↦
    triple_bind (of_fairly (fairly_submitPoll hc stable_emptied)) fun _ ↦
    triple_bind (of_fairly (fairly_submitBatch henc hc stable_emptied)) fun _ ↦
    triple_bind (triple_finishBatch henc) fun _ ↦ triple_get stable_emptied fun _ ↦
    triple_ite (fun _ ↦ triple_again stable_emptied fun _ h ↦ h.toHolding) fun _ ↦ ?_
  refine triple_bind (triple_mono (triple_bagLiveQueueToStore _) (fun _ _ h ↦ h.toHolding)
    fun _ _ _ h ↦ h.toHolding) fun _ ↦ triple_calm calm_deferAllToNextStart stable_holding
    fun _ ↦ ?_
  exact triple_bind (of_fairly (fairly_lastFlush hc stable_holding)) fun _ ↦ triple_workerDone

theorem triple_consoleBody :
    deliveryProtocol.Triple .console (atLoop .console) consoleBody (atReturn .console) := by
  refine triple_bind (triple_set (fun w ↦ harmless_set rfl rfl rfl rfl rfl) stable_holding) fun _ ↦
    triple_bind (triple_set (fun w ↦ harmless_set rfl rfl rfl rfl rfl) stable_holding) fun _ ↦
    triple_bind (triple_set (fun w ↦ harmless_set rfl rfl rfl rfl rfl) stable_holding) fun _ ↦
    triple_bind (triple_bagLiveQueueToStore _) fun _ ↦
    triple_calm calm_deferAllToNextStart stable_emptied fun _ ↦ ?_
  exact triple_again stable_emptied fun _ h ↦ h.toHolding

/-- Every thread meets its specification. -/
def deliverySpec (hc : c.Calm) : deliveryProtocol.Spec (Sup.body c) where
  loop := atLoop
  done := atEnd
  body_wp i w hinv hw := match i with
    | .mining => triple_miningBody hc w hinv hw
    | .submit => triple_submitBody hc w hinv hw
    | .console => triple_consoleBody w hinv hw

/-- The first moment of a run. -/
def start (sup : Supervisor) : Pool World Query Answer Thread := ⟨{ sup }, fun _ ↦ .ret true⟩

theorem sound_start (hc : c.Calm) {sup : Supervisor} (hs : sup.Starts)
    (hkeep : sup.shouldStore = true) : Sound (deliverySpec hc) (start sup) := by
  have hinv : DeliveryInv { sup } :=
    ⟨hkeep, hs.store.inv.1, hs.store.inv.2, by simp [hs.liveSubmitQ], by simp, by simp, by simp,
      by simp [hs.submitThreadJoinable], by simp⟩
  exact ⟨hinv, fun i ↦ triple_again stable_holding (fun _ h ↦ h) _ hinv
    ⟨rfl, fun _ ↦ rfl, fun _ ↦ hs.finalized⟩⟩

/-- **No hit is lost.**  In every run of the three threads, with every lock a step of its own,
and whatever the pool, the poller and the engine answer: at every moment each hit that was handed
over is accepted, in the bag, in the live queue or in a batch that has not been finished.  Once
the mining thread has returned from `finalize_session`, and while `persist_queue_for_restart` is
not running, each is accepted or in the bag. -/
theorem no_hit_lost {sup : Supervisor} (hs : sup.Starts) (hkeep : sup.shouldStore = true)
    {is : List Thread} {c : Pool World Query Answer Thread}
    (hr : Run (Pool.Step (fun _ _ ↦ True) (body .steps)) (start sup) is c) :
    (∀ h ∈ c.shared.delivered, Located c.shared h) ∧
    (c.prog .mining = .ret false → c.prog .console = .ret true →
      ∀ h ∈ c.shared.delivered, Safe c.shared h) := by
  have hsound := Protocol.sound (sound_start Calls.steps_calm hs hkeep) hr
  refine ⟨fun h hh ↦ (hsound.inv.delivered h hh).2, fun hmining hconsole h hh ↦ ?_⟩
  obtain ⟨hemptied, hdone⟩ := hsound.done_of_ret hmining rfl
  have hidle := hsound.loop_of_ret hconsole
  -- nothing is left outside the bag
  rcases (hsound.inv.delivered h hh).2 with hsafe | ⟨job, hjob, -⟩ | ⟨i, job, hjob, -⟩
  · exact hsafe
  · rw [hemptied.queue rfl] at hjob
    cases hjob
  · exfalso
    cases i with
    | mining =>
        rw [hemptied.batch] at hjob
        cases hjob
    | submit =>
        rw [hsound.inv.done hdone] at hjob
        cases hjob
    | console =>
        rw [hidle.batch] at hjob
        cases hjob

/-! ### A hit on its way -/

/-- A hit with its cost in the text. -/
def encodedHit : BlockHit where
  key := String.ofList (List.replicate 64 'a')
  hashStr := "$argon2id$v=19$m=1100,t=1,p=1$AAAA$XEN11"

/-- A miner that only fills the bag. -/
def bagging : Supervisor where
  settings := { Settings.defaults with submitEnabled := false }
  engineDifficulty := 1100

/-- An environment that is down, and an engine that finds that hit. -/
def findsHit : ∀ q, Answer q
  | .clock => (0 : Rat)
  | .stamp => ""
  | .minute => (0 : Nat)
  | .verify _ => ((0 : Int), "")
  | .probe => false
  | .poll _ => {}
  | .replan m => m
  | .drain => none
  | .spawn _ => (0 : Nat)
  | .turn => true
  | .round => .hits [encodedHit]

/-- The mining thread hands it over in its first round. -/
theorem run_bagging : ∃ is c, Run (Pool.Step (fun _ _ ↦ True) (body .steps)) (start bagging) is c ∧
    c.shared.delivered = [encodedHit.hashStr] := by
  obtain ⟨⟨again, w⟩, hdrive, hdel⟩ := Option.map_eq_some_iff.mp (show
    (drive findsHit 40 { sup := bagging } (body .steps .mining)).map (·.2.delivered) =
      some [encodedHit.hashStr] by decide +kernel)
  have hends : Ends (fun _ _ ↦ True) { sup := bagging } (body .steps .mining) again w :=
    ends_of_drive (fun _ ↦ trivial) hdrive
  have hidle : (start bagging).prog .mining = .ret true := rfl
  obtain ⟨is, hr⟩ := Pool.run_round hidle hends
  exact ⟨is, _, hr, hdel⟩

/-- That hit is located. -/
theorem no_hit_lost_bagging : ∃ c : Pool World Query Answer Thread,
    c.shared.delivered = [encodedHit.hashStr] ∧ Located c.shared encodedHit.hashStr := by
  obtain ⟨is, c, hr, hdel⟩ := run_bagging
  refine ⟨c, hdel, (no_hit_lost ⟨⟨[], .nil _⟩, rfl, rfl, rfl⟩ rfl hr).1 _ ?_⟩
  rw [hdel]
  exact List.mem_cons_self

end Sup

end XNMiner
