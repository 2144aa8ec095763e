import XNMiner.Lib.Alone
import XNMiner.App.Cost
import XNMiner.App.Flush

/-!
# No wrong cost is posted

Every program but the calls that post takes only tame steps.  The calls that post are followed
gate by gate: what a gate lets through has a cost that was known during the call.
-/

namespace XNMiner

open Lib Prog BlockStore

namespace Sup

open Protocol

variable {α β : Type} {c : Calls} {i : Thread}

/-! ## Programs of tame steps -/

/-- Every step of the program is tame. -/
abbrev Tamed (p : Sup α) : Prop := Does EngineAnswers CostInv Tame p

theorem tamed_aside {f : Supervisor → Supervisor} (hf : ∀ s, Aside s (f s)) : Tamed (set f) :=
  does_modify fun w hw ↦ tame_aside hw (hf w.sup)

theorem tamed_store {op : BlockStore.Op} (hop : ∀ hit, op.hit? = some hit → Costed hit) :
    Tamed (Sup.store op) := does_modify fun _ hw ↦ tame_store hw hop

/-- A step on what a wave shares, or on the other ghosts. -/
theorem tamed_ghost {f : World → World} (hsup : ∀ w, (f w).sup = w.sup)
    (hheld : ∀ w, (f w).held = w.held) (hposted : ∀ w, (f w).posted = w.posted) :
    Tamed (Prog.modify f : Sup Unit) :=
  does_modify fun w hw ↦ tame_of hw (by rw [hsup]) (by rw [hsup]) (by rw [hsup]; exact fun h ↦ h)
    (by rw [hsup]; exact hw.rows) (by rw [hsup]; exact hw.queue) (hheld w) (hposted w)

theorem tamed_queueHit {hit : BlockHit} (h : Costed hit) (reason : String) :
    Tamed (queueHit hit reason) := by
  refine does_query_bind fun stamp _ ↦ tamed_store ?_
  rintro _ ⟨⟩
  exact h

theorem tamed_queueAll {jobs : List LiveSubmitJob} (h : ∀ job ∈ jobs, Costed job.hit)
    (reason : String) : Tamed (queueAll reason jobs) := by
  induction jobs with
  | nil => exact trivial
  | cons job rest ih =>
      exact does_bind (tamed_queueHit (h job List.mem_cons_self) reason) fun _ ↦
        ih fun j hj ↦ h j (List.mem_cons_of_mem _ hj)

theorem tamed_queueBatchDown {jobs : List LiveSubmitJob} (h : ∀ job ∈ jobs, Costed job.hit) :
    Tamed (queueBatchDown jobs) := by
  induction jobs with
  | nil => exact trivial
  | cons job rest ih =>
      have hrest := ih fun j hj ↦ h j (List.mem_cons_of_mem _ hj)
      exact does_get_bind tame_refl fun _ _ ↦ does_ite
        (fun _ ↦ does_bind (tamed_queueHit (h job List.mem_cons_self) _) fun _ ↦ hrest)
        fun _ ↦ hrest

theorem tamed_deferAllToNextStart : Tamed deferAllToNextStart := by
  refine does_query_bind fun minute _ ↦ tamed_store ?_
  rintro _ ⟨⟩

theorem tamed_verifyReadyToPush : Tamed verifyReadyToPush :=
  does_query_bind fun _ _ ↦ does_get_bind tame_refl fun w _ ↦ by
    cases readyWithoutProbe _ w.sup with
    | some ready => exact trivial
    | none =>
        exact does_query_bind fun _ _ ↦ does_query_bind fun _ _ ↦
          does_bind (tamed_aside fun _ ↦ ⟨rfl, rfl, rfl, rfl, rfl⟩) fun _ ↦ trivial

theorem tamed_noteSubmitTransportFailure (status : Int) :
    Tamed (noteSubmitTransportFailure status) :=
  does_get_bind tame_refl fun _ _ ↦ does_get_bind tame_refl fun _ _ ↦ does_query_bind fun _ _ ↦
    tamed_aside fun _ ↦ ⟨rfl, rfl, rfl, rfl, rfl⟩

/-- The two shared calls are tame. -/
structure Calls.Tamed (c : Calls) : Prop where
  updateMatchDrain : ∀ now, Sup.Tamed (c.updateMatchDrain now)
  refreshNetwork : ∀ blocking replanEngine, Sup.Tamed (c.refreshNetwork blocking replanEngine)

theorem tamed_replanEngineTo (replan : Option Int) : Tamed (replanEngineTo replan) := by
  cases replan with
  | none => exact trivial
  | some diff =>
      exact does_query_bind fun _ _ ↦ tamed_aside fun _ ↦ ⟨rfl, rfl, rfl, rfl, rfl⟩

/-- **As single steps the two calls are tame.** -/
theorem Calls.atomic_tamed : Calls.Tamed .atomic where
  updateMatchDrain now := does_modify fun _ hw ↦ tame_updateMatchDrain hw now
  refreshNetwork blocking replanEngine := by
    refine does_query_bind fun st _ ↦ does_query_bind fun t₁ _ ↦ does_query_bind fun t₂ _ ↦
      does_query_bind fun t₃ _ ↦ does_bind (fun w hw ↦ ⟨tame_refreshOnce hw .., trivial⟩)
      fun answer ↦ does_ite (fun _ ↦ does_bind (tamed_replanEngineTo _) fun _ ↦ trivial)
      fun _ ↦ trivial

/-! ### The mining thread and the console handler -/

theorem tamed_inXuniSubmitWindow_bind {k : Bool → Sup α} (h : ∀ inWindow, Tamed (k inWindow)) :
    Tamed (inXuniSubmitWindow >>= k) := does_query_bind fun _ _ ↦ h _

theorem tamed_handOff {hit : BlockHit} (h : Costed hit) : Tamed (handOff hit) := by
  have hqueue (reason : String) := tamed_queueHit h reason
  refine does_get_bind tame_refl fun _ _ ↦ does_ite (fun _ ↦ hqueue _) fun _ ↦
    does_get_bind tame_refl fun _ _ ↦ does_get_bind tame_refl fun _ _ ↦
    does_ite (fun _ ↦ tamed_inXuniSubmitWindow_bind fun _ ↦ hqueue _) fun _ ↦
    tamed_inXuniSubmitWindow_bind fun _ ↦ does_ite
      (fun _ ↦ does_get_bind tame_refl fun _ _ ↦ does_ite (fun _ ↦ hqueue _) fun _ ↦ trivial)
      fun _ ↦ ?_
  refine does_get_bind tame_refl fun _ _ ↦ does_ite (fun _ ↦ hqueue _) fun _ ↦
    does_bind (does_canSubmitHitM tame_refl _) fun _ ↦ does_ite (fun _ ↦ ?_) fun _ ↦
    does_get_bind tame_refl fun _ _ ↦ does_ite (fun _ ↦ ?_) fun _ ↦ trivial
  · refine does_modify fun w hw ↦ tame_of hw rfl rfl (fun h ↦ h) hw.rows (fun job hjob ↦ ?_) rfl rfl
    rcases List.mem_append.mp hjob with hjob | hjob
    · exact hw.queue job hjob
    · rw [List.mem_singleton.mp hjob]
      exact h
  · refine does_get_bind tame_refl fun w _ ↦ ?_
    cases deferReason _ w.sup with
    | some reason => exact hqueue reason
    | none =>
        exact does_get_bind tame_refl fun _ _ ↦ does_query_bind fun _ _ ↦
          does_get_bind tame_refl fun _ _ ↦ hqueue _

/-- **What `handle_hit` makes of a digest carries its cost twice.** -/
theorem tamed_handleHit {hit : BlockHit} (h : IsDigest hit.hashStr) : Tamed (handleHit hit) := by
  refine does_ite (fun _ ↦ trivial) fun _ ↦ does_get_bind tame_refl fun _ _ ↦
    does_get_bind tame_refl fun _ _ ↦ tamed_inXuniSubmitWindow_bind fun _ ↦
    does_ite (fun _ ↦ trivial) fun _ ↦ ?_
  refine does_get_bind tame_refl fun w _ ↦ does_get_bind tame_refl fun w' _ ↦ ?_
  cases hprep : prepareHitForSubmit hit (hitSalt w.sup.settings hit) w'.sup.miningDifficulty
      w.sup.settings.timeCost w.sup.settings.parallelism with
  | none => exact trivial
  | some prepared =>
      have hprepared : Prepared prepared := ⟨hit, _, _, _, _, h, hprep⟩
      exact does_bind (tamed_handOff hprepared.costed) fun _ ↦ trivial

theorem tamed_handleBatchHits {hits : List BlockHit} (h : ∀ hit ∈ hits, IsDigest hit.hashStr) :
    Tamed (handleBatchHits hits) := by
  induction hits with
  | nil => exact trivial
  | cons hit rest ih =>
      refine does_bind (tamed_handleHit (h hit List.mem_cons_self)) fun answer ↦
        does_bind ?_ fun _ ↦ ih fun x hx ↦ h x (List.mem_cons_of_mem _ hx)
      cases answer with
      | none => exact trivial
      | some prepared => exact tamed_ghost (fun _ ↦ rfl) (fun _ ↦ rfl) fun _ ↦ rfl

/-- What is taken out of the live queue carries its cost twice. -/
theorem tamed_swapLiveQueue_bind {k : List LiveSubmitJob → Sup α}
    (h : ∀ jobs, (∀ job ∈ jobs, Costed job.hit) → Tamed (k jobs)) :
    Tamed (swapLiveQueue i >>= k) := fun _ hw ↦
  ⟨tame_of hw rfl rfl (fun h ↦ h) hw.rows (by simp) rfl rfl, h _ hw.queue⟩

theorem tamed_finishBatch : Tamed (finishBatch i) :=
  tamed_ghost (fun _ ↦ rfl) (fun _ ↦ rfl) fun _ ↦ rfl

theorem tamed_bagLiveQueueToStore (reason : String) : Tamed (bagLiveQueueToStore i reason) :=
  tamed_swapLiveQueue_bind fun _ hjobs ↦ does_bind (tamed_queueAll hjobs reason) fun _ ↦
    tamed_finishBatch

theorem tamed_stopSubmitWorker : Tamed stopSubmitWorker := by
  refine does_get_bind tame_refl fun _ _ ↦ does_get_bind tame_refl fun _ _ ↦
    does_ite (fun _ ↦ trivial) fun _ ↦
    does_bind (tamed_aside fun _ ↦ ⟨rfl, rfl, rfl, rfl, rfl⟩) fun _ ↦
    does_ite (fun _ ↦ ?_) fun _ ↦ trivial
  exact does_bind (fun w hw ↦ ⟨tame_refl w hw, trivial⟩) fun _ ↦
    tamed_aside fun _ ↦ ⟨rfl, rfl, rfl, rfl, rfl⟩

theorem tamed_gracefulShutdown : Tamed gracefulShutdown := by
  have hrest : Tamed (do
      bagLiveQueueToStore .mining shutdownPendingReason
      deferAllToNextStart
      Sup.store .flush
      stopSubmitWorker) :=
    does_bind (tamed_bagLiveQueueToStore _) fun _ ↦ does_bind tamed_deferAllToNextStart fun _ ↦
      does_bind (tamed_store (by rintro _ ⟨⟩)) fun _ ↦ tamed_stopSubmitWorker
  refine does_get_bind tame_refl fun _ _ ↦ does_ite (fun _ ↦ trivial) fun _ ↦
    does_bind (tamed_aside fun _ ↦ ⟨rfl, rfl, rfl, rfl, rfl⟩) fun _ ↦
    does_bind (tamed_aside fun _ ↦ ⟨rfl, rfl, rfl, rfl, rfl⟩) fun _ ↦
    does_query_bind fun found hfound ↦ ?_
  cases found with
  | none => exact hrest
  | some hits => exact does_bind (tamed_handleBatchHits (hfound hits rfl)) fun _ ↦ hrest

theorem tamed_finalizeSession : Tamed finalizeSession := by
  refine does_get_bind tame_refl fun _ _ ↦ does_ite (fun _ ↦ trivial) fun _ ↦
    does_bind (tamed_aside fun _ ↦ ⟨rfl, rfl, rfl, rfl, rfl⟩) fun _ ↦
    does_bind (tamed_aside fun _ ↦ ⟨rfl, rfl, rfl, rfl, rfl⟩) fun _ ↦
    does_bind (tamed_aside fun _ ↦ ⟨rfl, rfl, rfl, rfl, rfl⟩) fun _ ↦ ?_
  exact does_bind (tamed_bagLiveQueueToStore _) fun _ ↦
    does_bind tamed_deferAllToNextStart fun _ ↦ tamed_stopSubmitWorker

theorem tamed_miningBody (hc : c.Tamed) : Tamed (miningBody c) := by
  have hend : Tamed endRun :=
    does_bind tamed_gracefulShutdown fun _ ↦ does_bind tamed_finalizeSession fun _ ↦ trivial
  refine does_get_bind tame_refl fun _ _ ↦ does_ite (fun _ ↦ ?_) fun _ ↦ hend
  refine does_query_bind fun round hround ↦ ?_
  cases round with
  | poll =>
      exact does_query_bind fun t _ ↦ does_bind (hc.refreshNetwork _ _) fun _ ↦
        does_bind (hc.updateMatchDrain t) fun _ ↦ trivial
  | hits hits => exact does_bind (tamed_handleBatchHits (hround hits rfl)) fun _ ↦ trivial
  | maxSeconds => exact hend

theorem tamed_consoleBody : Tamed consoleBody :=
  does_bind (tamed_aside fun _ ↦ ⟨rfl, rfl, rfl, rfl, rfl⟩) fun _ ↦
    does_bind (tamed_aside fun _ ↦ ⟨rfl, rfl, rfl, rfl, rfl⟩) fun _ ↦
    does_bind (tamed_aside fun _ ↦ ⟨rfl, rfl, rfl, rfl, rfl⟩) fun _ ↦
    does_bind (tamed_bagLiveQueueToStore _) fun _ ↦
    does_bind tamed_deferAllToNextStart fun _ ↦ trivial

/-! ## What a gate lets through -/

/-- The agreement among the flush workers of the submit worker. -/
abbrev priced : Protocol (Option Thread) World Query Answer := costProtocol.crew .submit

theorem Tame.guar {w w' : World} (h : Tame w w') : priced.Guar none w w' :=
  ⟨h.1, fun _ _ _ ↦ h.2⟩

variable {G : World → Prop}

/-- A program of tame steps keeps what the worker may assume. -/
theorem priced_of_tamed {p : Sup α} (hp : Tamed p) (hG : priced.Stable none G) :
    priced.Triple none G p fun _ ↦ G :=
  triple_of_does (does_mono hp (fun _ _ _ h ↦ h) (fun _ _ h ↦ h) fun _ h ↦ h.1) hG
    fun w w' _ hw h ↦ ⟨Tame.guar h, hG w w' (fun _ ↦ h.2) h.1 hw⟩

theorem priced_get {f : Supervisor → β} {k : β → Sup α} {post : α → World → Prop}
    (hG : priced.Stable none G) (h : ∀ b, priced.Triple none G (k b) post) :
    priced.Triple none G (get f >>= k) post :=
  triple_read (M := fun _ ↦ G) hG (fun _ _ h ↦ h) h

/-- The last read of a program. -/
theorem priced_get_last {f : Supervisor → β} {post : β → World → Prop}
    (hG : priced.Stable none G) (hpost : ∀ b, priced.Stable none (post b))
    (h : ∀ w, CostInv w → G w → post (f w.sup) w) : priced.Triple none G (get f) post :=
  triple_step hG fun w hinv hw _ ↦ ⟨Tame.guar (tame_refl w hinv),
    triple_ret (hpost _) (fun _ _ h ↦ h) w hinv (h w hinv hw)⟩

theorem stable_known {m : Int} : priced.Stable none fun w ↦ Known w m :=
  fun _ _ hr _ h ↦ (hr rfl).held _ h

/-- A number the gate has found positive was known. -/
def KnownIfPos (m : Int) (w : World) : Prop := 0 < m → Known w m

theorem stable_knownIfPos {m : Int} : priced.Stable none (KnownIfPos m) :=
  fun w w' hr hinv h hm ↦ stable_known w w' hr hinv (h hm)

/-- The cost the bag is for was known, and is a positive one. -/
def BagKnown (w : World) : Prop := 0 < w.sup.bagTargetM ∧ Known w w.sup.bagTargetM

theorem stable_bagKnown : priced.Stable none BagKnown := by
  intro w w' hr hinv h
  have hrely := hr rfl
  unfold BagKnown Supervisor.bagTargetM Supervisor.forceMineMode Supervisor.forcedMineM at h ⊢
  rw [hrely.settings]
  split
  · next hforced =>
    rw [if_pos hforced] at h
    exact ⟨h.1, hrely.held _ h.2⟩
  · next hforced =>
    rw [if_neg hforced] at h
    rcases hrely.number with hsame | ⟨d, hd, hpos⟩
    · rw [hsame]
      exact ⟨h.1, hrely.held _ h.2⟩
    · rw [hd]
      exact ⟨hpos, show some d ∈ w'.held from hd ▸ hinv.known⟩

/-- **While the flush is draining, the cost of the bag is known.** -/
theorem priced_isDraining (hG : priced.Stable none G) :
    priced.Triple none G isDraining fun draining w ↦ G w ∧ (draining = true → BagKnown w) := by
  have hpost (b : Bool) : priced.Stable none fun w ↦ G w ∧ (b = true → BagKnown w) :=
    hG.and fun w w' hr hinv h hb ↦ stable_bagKnown w w' hr hinv (h hb)
  refine triple_read (M := fun active w ↦ G w ∧ (active = true → BagKnown w)) hG
    (fun w hinv hw ↦ ⟨hw, fun hact ↦ ?_⟩) fun active ↦ triple_ite (fun hact ↦ ?_) fun _ ↦ ?_
  · -- an open window is pinned to the known difficulty
    obtain ⟨hdis, hnet⟩ := hinv.window hact
    obtain ⟨hbag, hforced⟩ := Window.bagTargetM_of_enabled hdis
    unfold BagKnown
    rw [hbag]
    exact ⟨hforced, show some _ ∈ w.held from hnet ▸ hinv.known⟩
  · exact triple_ret (hpost active) fun w _ h ↦ ⟨h.1, fun _ ↦ h.2 hact⟩
  · have hstable (bag : Int) : priced.Stable none
        fun w ↦ G w ∧ (w.sup.forceMineMode = true → bag = w.sup.forcedMineM) :=
      hG.and fun w w' hr _ h hforced ↦ by
        have hset := (hr rfl).settings
        unfold Supervisor.forceMineMode at hforced h
        unfold Supervisor.forcedMineM at h ⊢
        rw [hset] at hforced ⊢
        exact h hforced
    refine triple_read (M := fun bag w ↦ G w ∧ (w.sup.forceMineMode = true →
      bag = w.sup.forcedMineM)) (hpost active) (fun w hinv hw ↦ ⟨hw.1, fun hforced ↦ ?_⟩)
      fun bag ↦ priced_get_last (hstable bag) hpost fun w hinv hw ↦ ⟨hw.1, fun hmatch ↦ ?_⟩
    · simp [Supervisor.bagTargetM, hforced]
    · -- the known difficulty is the cost of the bag
      obtain ⟨hpos, hnet⟩ := Supervisor.oracleSaysM_iff.mp hmatch
      have hbag : w.sup.bagTargetM = bag := by
        unfold Supervisor.bagTargetM
        split
        · next hforced => exact (hw.2 hforced).symm
        · rw [hnet]
          rfl
      unfold BagKnown
      rw [hbag]
      exact ⟨hpos, show some bag ∈ w.held from hnet ▸ hinv.known⟩

/-- What `submit_target_m` answers was known. -/
theorem priced_submitTargetM (hG : priced.Stable none G) :
    priced.Triple none G submitTargetM fun netM w ↦ G w ∧ KnownIfPos netM w := by
  refine priced_get hG fun bag ↦ triple_read (M := fun ok w ↦ G w ∧ (ok = true → Known w bag))
    hG (fun w hinv hw ↦ ⟨hw, fun hmatch ↦ ?_⟩) fun ok ↦ triple_ite (fun hmatch ↦ ?_) fun _ ↦ ?_
  · exact show some bag ∈ w.held from (Supervisor.oracleSaysM_iff.mp hmatch).2 ▸ hinv.known
  · exact triple_ret (hG.and fun w w' hr hinv h hs ↦ stable_known w w' hr hinv (h hs))
      fun w _ h ↦ ⟨h.1, fun _ ↦ h.2 hmatch⟩
  · refine priced_get_last (hG.and fun w w' hr hinv h hs ↦ stable_known w w' hr hinv (h hs))
      (fun _ ↦ hG.and stable_knownIfPos) fun w hinv hw ↦ ⟨hw.1, fun hpos ↦ ?_⟩
    unfold Supervisor.knownDifficulty at hpos ⊢
    cases hd : w.sup.networkDifficulty with
    | none => simp [hd] at hpos
    | some d =>
        simp only [hd] at hpos ⊢
        split at hpos
        · next hd0 =>
          rw [if_pos hd0]
          exact show some d ∈ w.held from hd ▸ hinv.known
        · exact absurd hpos (by simp)

/-- **The target of a flush was known.** -/
theorem priced_flushTarget (hG : priced.Stable none G) (draining : Bool) :
    priced.Triple none (fun w ↦ G w ∧ (draining = true → BagKnown w)) (flushTarget draining)
      fun netM w ↦ (G w ∧ (draining = true → BagKnown w)) ∧ KnownIfPos netM w := by
  have hstable : priced.Stable none fun w ↦ G w ∧ (draining = true → BagKnown w) :=
    hG.and fun w w' hr hinv h hd ↦ stable_bagKnown w w' hr hinv (h hd)
  refine triple_bind (priced_submitTargetM hstable) fun netM ↦ triple_ite (fun hd ↦ ?_) fun _ ↦
    triple_ret (hstable.and stable_knownIfPos) fun _ _ h ↦ h
  refine triple_read (M := fun bag w ↦ ((G w ∧ (draining = true → BagKnown w)) ∧
    KnownIfPos netM w) ∧ Known w bag) (hstable.and stable_knownIfPos)
    (fun w _ hw ↦ ⟨hw, (hw.1.2 hd).2⟩) fun bag ↦
    triple_ret ((hstable.and stable_knownIfPos).and stable_known) fun w _ h ↦ ⟨h.1.1, ?_⟩
  split
  · exact fun _ ↦ h.2
  · exact h.1.2

/-- A cost that a gate lets through. -/
def Open (m : Int) (w : World) : Prop := 0 < m ∧ Known w m

theorem stable_open {m : Int} : priced.Stable none (Open m) :=
  fun w w' hr hinv h ↦ ⟨h.1, stable_known w w' hr hinv h.2⟩

theorem stable_openIf {b : Bool} {m : Int} : priced.Stable none fun w ↦ b = true → Open m w :=
  fun w w' hr hinv h hb ↦ stable_open w w' hr hinv (h hb)

/-- A cost that `can_submit_hit_m` lets through was known. -/
theorem priced_canSubmitHitM (hG : priced.Stable none G) (hitM : Int) :
    priced.Triple none G (canSubmitHitM hitM) fun can w ↦ G w ∧ (can = true → Open hitM w) := by
  have hpost (b : Bool) : priced.Stable none fun w ↦ G w ∧ (b = true → Open hitM w) :=
    hG.and stable_openIf
  refine triple_bind (priced_of_tamed (does_liveSubmitAllowed tame_refl) hG) fun _ ↦
    triple_ite (fun _ ↦ ?_) fun _ ↦ triple_ret hG fun w _ h ↦ ⟨h, fun hf ↦ by cases hf⟩
  refine priced_get_last hG hpost fun w hinv hw ↦ ⟨hw, fun hmatch ↦ ?_⟩
  obtain ⟨hpos, hnet⟩ := Supervisor.oracleSaysM_iff.mp hmatch
  exact ⟨hpos, show some hitM ∈ w.held from hnet ▸ hinv.known⟩

/-! ## Posting -/

/-- The cost in the PHC string of the hit was known. -/
def Payable (w : World) (hit : BlockHit) : Prop :=
  isArgon2Encoded hit.hashStr = true ∧ ∃ m, memoryCostFromHash hit.hashStr = some m ∧ Known w m

theorem stable_payable {hit : BlockHit} : priced.Stable none fun w ↦ Payable w hit := by
  rintro w w' hr hinv ⟨henc, m, hm, hknown⟩
  exact ⟨henc, m, hm, stable_known w w' hr hinv hknown⟩

/-- A costed hit is payable when the cost in its field was known. -/
theorem payable_of_costed {w : World} (hinv : CostInv w) {hit : BlockHit} (h : Costed hit) {m : Int}
    (hm : hit.memoryCost = some m) (hopen : Open m w) : Payable w hit :=
  ⟨h.1, m, h.memoryCostFromHash_eq hm (le_of_lt hopen.1) (hinv.range m hopen.2), hopen.2⟩

/-- **A payable hit may be posted.** -/
theorem priced_submit (hG : priced.Stable none G) (hit : BlockHit) :
    priced.Triple none (fun w ↦ G w ∧ Payable w hit) (submit hit) fun _ ↦ G := by
  have haccept (result : SubmitResult) : priced.Triple none G
      (if result.ok = true then do
          Prog.modify fun w ↦ { w with accepted := w.accepted ++ [hit.hashStr] }
          pure result
        else pure result) fun _ ↦ G :=
    triple_ite (fun _ ↦ triple_bind (priced_of_tamed (tamed_ghost (fun _ ↦ rfl) (fun _ ↦ rfl)
      fun _ ↦ rfl) hG) fun _ ↦ triple_ret hG fun _ _ h ↦ h) fun _ ↦ triple_ret hG fun _ _ h ↦ h
  refine triple_bind (M := fun _ ↦ G) (triple_modify (hG.and stable_payable) hG
    fun w hinv hw ↦ ?_) fun _ ↦ triple_ask fun answer _ ↦ haccept _
  have htame : Tame w { w with posted := w.posted ++ [⟨hit.hashStr, w.held⟩] } := by
    refine ⟨⟨hinv.rows, hinv.queue, hinv.known, hinv.range, hinv.fallback, hinv.window,
      fun post hpost ↦ ?_⟩, rfl, fun _ h ↦ h, .inl rfl⟩
    rcases List.mem_append.mp hpost with hpost | hpost
    · exact hinv.posted post hpost
    · rw [List.mem_singleton.mp hpost]
      exact hw.2
  exact ⟨Tame.guar htame, hG w _ (fun _ ↦ htame.2) htame.1 hw.1⟩

theorem tamed_settleLive {hit : BlockHit} (h : Costed hit) (result : SubmitResult) :
    Tamed (settleLive hit result) := by
  have hqueue (reason : String) := tamed_queueHit h reason
  refine does_ite (fun _ ↦ ?_) fun _ ↦ does_ite (fun _ ↦ ?_) fun _ ↦
    does_ite (fun _ ↦ hqueue _) fun _ ↦ does_ite (fun _ ↦ ?_) fun _ ↦
    does_ite (fun _ ↦ hqueue _) fun _ ↦ ?_
  · exact does_bind (tamed_aside fun _ ↦ ⟨rfl, rfl, rfl, rfl, rfl⟩) fun _ ↦
      does_get_bind tame_refl fun _ _ ↦
      does_ite (fun _ ↦ tamed_aside fun _ ↦ ⟨rfl, rfl, rfl, rfl, rfl⟩) fun _ ↦ trivial
  · exact does_get_bind tame_refl fun _ _ ↦ does_ite (fun _ ↦ hqueue _) fun _ ↦ trivial
  · exact does_bind (tamed_noteSubmitTransportFailure _) fun _ ↦ hqueue _
  · refine does_query_bind fun stamp _ ↦ tamed_store ?_
    rintro _ ⟨⟩
    exact h

theorem priced_submitLive (hc : c.Tamed) (hG : priced.Stable none G) {hit : BlockHit}
    (h : Costed hit) {hitM : Int} (hm : hit.memoryCost = some hitM) :
    priced.Triple none G (submitLive c hit hitM) fun _ ↦ G := by
  have hknown (b : Bool) : priced.Stable none fun w ↦ G w ∧ (b = true → Open hitM w) :=
    hG.and stable_openIf
  have hqueue (reason : String) : priced.Triple none G (queueHit hit reason) fun _ ↦ G :=
    priced_of_tamed (tamed_queueHit h reason) hG
  have hskip : priced.Triple none G (pure () : Sup Unit) fun _ ↦ G :=
    triple_ret hG fun _ _ h ↦ h
  refine triple_bind (priced_of_tamed (hc.refreshNetwork _ _) hG) fun _ ↦
    triple_bind (priced_canSubmitHitM hG hitM) fun can ↦ triple_ite (fun hcan ↦ ?_) fun _ ↦
    triple_mono (priced_get hG fun _ ↦ triple_ite (fun _ ↦ ?_) fun _ ↦ hskip)
      (fun _ _ h ↦ h.1) fun _ _ _ h ↦ h
  · refine triple_bind (priced_of_tamed tamed_verifyReadyToPush (hknown can)) fun _ ↦
      triple_ite (fun _ ↦ ?_) fun _ ↦ triple_mono (priced_get hG fun _ ↦
        triple_ite (fun _ ↦ hqueue _) fun _ ↦ hskip) (fun _ _ h ↦ h.1) fun _ _ _ h ↦ h
    refine triple_bind (triple_mono (priced_submit hG hit)
      (fun w hinv hw ↦ ⟨hw.1, payable_of_costed hinv h hm (hw.2 hcan)⟩) fun _ _ _ h ↦ h)
        fun result ↦ ?_
    exact priced_of_tamed (tamed_settleLive h result) hG
  · exact triple_bind (priced_of_tamed (does_liveSubmitAllowed tame_refl) hG) fun _ ↦
      priced_get hG fun _ ↦ hqueue _

/-! ## A wave -/

/-- **What the selection loop takes** is the hit of the row, and its cost is one of the two that
are looked for. -/
theorem cost_of_take {settings : Settings} {draining ready : Bool} {netM miningM bagM : Int}
    {pb : PendingBlock} {hit : BlockHit} (h : Costed pb.hit)
    (htake : chooseRow settings draining netM ready miningM bagM pb = .take hit) :
    hit = pb.hit ∧ ∃ m, pb.hit.memoryCost = some m ∧ (m = netM ∨ draining = true ∧ m = bagM) := by
  obtain ⟨henc, m, hm, -⟩ := h
  rw [chooseRow] at htake
  split at htake
  · cases htake
  · simp only [hm, Option.getD_some] at htake
    by_cases hcost : if draining = true then m ≠ bagM ∧ m ≠ netM else m ≠ netM
    · rw [if_pos hcost] at htake
      cases htake
    · rw [if_neg hcost] at htake
      refine ⟨(RowChoice.take.inj htake).symm, m, hm, ?_⟩
      cases draining with
      | true =>
          rw [if_pos rfl, not_and_or, not_not, not_not] at hcost
          exact hcost.symm.imp id fun h ↦ ⟨rfl, h⟩
      | false => exact .inl (not_not.mp hcost)

/-- The costs that a flush looks for are known. -/
def TargetsKnown (draining : Bool) (netM : Int) (w : World) : Prop :=
  (draining = true → BagKnown w) ∧ Open netM w

variable {draining : Bool} {netM : Int}

theorem stable_targetsKnown : priced.Stable none (TargetsKnown draining netM) :=
  fun w w' hr hinv h ↦ ⟨fun hd ↦ stable_bagKnown w w' hr hinv (h.1 hd),
    stable_open w w' hr hinv h.2⟩

theorem stable_payableAll {work : List WorkItem} :
    priced.Stable none fun w ↦ ∀ item ∈ work, Payable w item.hit :=
  fun w w' hr hinv h item hitem ↦ stable_payable w w' hr hinv (h item hitem)

/-- **All the work of a wave is payable.** -/
theorem priced_selectRows (hG : priced.Stable none G) (settings : Settings) (onShutdown : Bool)
    (wave : Int) {rows : List PendingBlock} (hrows : ∀ pb ∈ rows, Costed pb.hit)
    (work : List WorkItem) :
    priced.Triple none
      (fun w ↦ (G w ∧ TargetsKnown draining netM w) ∧ ∀ item ∈ work, Payable w item.hit)
      (selectRows settings onShutdown draining netM wave rows work)
      fun work w ↦ (G w ∧ TargetsKnown draining netM w) ∧ ∀ item ∈ work, Payable w item.hit := by
  have hstable (work : List WorkItem) : priced.Stable none
      fun w ↦ (G w ∧ TargetsKnown draining netM w) ∧ ∀ item ∈ work, Payable w item.hit :=
    (hG.and stable_targetsKnown).and stable_payableAll
  induction rows generalizing work with
  | nil => exact triple_ret (hstable work) fun _ _ h ↦ h
  | cons pb rest ih =>
      have hpb := hrows pb List.mem_cons_self
      have hrest := ih fun x hx ↦ hrows x (List.mem_cons_of_mem _ hx)
      refine triple_ask fun minute _ ↦ priced_get (hstable work) fun miningM ↦
        triple_read (M := fun bagM w ↦ ((G w ∧ TargetsKnown draining netM w) ∧
          ∀ item ∈ work, Payable w item.hit) ∧ (draining = true → Open bagM w)) (hstable work)
          (fun w _ hw ↦ ⟨hw, hw.1.2.1⟩) fun bagM ↦ ?_
      have hstable' : priced.Stable none fun w ↦ ((G w ∧ TargetsKnown draining netM w) ∧
          ∀ item ∈ work, Payable w item.hit) ∧ (draining = true → Open bagM w) :=
        (hstable work).and stable_openIf
      split
      · exact triple_mono (hrest work) (fun _ _ h ↦ h.1) fun _ _ _ h ↦ h
      · refine triple_bind (priced_of_tamed (tamed_store ?_) (hstable work) |> fun h ↦
          triple_mono h (fun _ _ h ↦ h.1) fun _ _ _ h ↦ h) fun _ ↦ hrest work
        rintro _ ⟨⟩
      · next hit htake =>
        obtain ⟨rfl, m, hm, hcost⟩ := cost_of_take hpb htake
        have hwork : ∀ w, CostInv w → ((G w ∧ TargetsKnown draining netM w) ∧
            ∀ item ∈ work, Payable w item.hit) ∧ (draining = true → Open bagM w) →
            (G w ∧ TargetsKnown draining netM w) ∧
              ∀ item ∈ work ++ [{ id := pb.id, hit := pb.hit }], Payable w item.hit := by
          rintro w hinv ⟨⟨hw, hitems⟩, hbag⟩
          refine ⟨hw, fun item hitem ↦ ?_⟩
          rcases List.mem_append.mp hitem with hitem | hitem
          · exact hitems item hitem
          · rw [List.mem_singleton.mp hitem]
            refine payable_of_costed hinv hpb hm ?_
            rcases hcost with rfl | ⟨hd, rfl⟩
            · exact hw.2.2
            · exact hbag hd
        exact triple_ite (fun _ ↦ triple_ret hstable' fun w hinv hw ↦ hwork w hinv hw) fun _ ↦
          triple_mono (hrest _) hwork fun _ _ _ h ↦ h

theorem tamed_handleOne (draining : Bool) (item : WorkItem) (result : SubmitResult) :
    Tamed (handleOne draining item result) := by
  have haside {f : Supervisor → Supervisor} (hf : ∀ s, Aside s (f s)) := tamed_aside hf
  have hwave (f : Wave → Wave) : Tamed (setWave f) :=
    tamed_ghost (fun _ ↦ rfl) (fun _ ↦ rfl) fun _ ↦ rfl
  have hnote : Tamed (set (·.noteAccepted)) := haside fun _ ↦ ⟨rfl, rfl, rfl, rfl, rfl⟩
  refine does_ite (fun _ ↦ does_bind (hwave _) fun _ ↦ does_bind (hwave _) fun _ ↦
    does_ite (fun _ ↦ ?_) fun _ ↦ hnote) fun _ ↦ does_ite (fun _ ↦ hwave _) fun _ ↦
    does_ite (fun _ ↦ hwave _) fun _ ↦ does_query_bind fun stamp _ ↦ ?_
  · exact does_bind (haside fun _ ↦ ⟨rfl, rfl, rfl, rfl, rfl⟩) fun _ ↦
      does_bind (haside fun _ ↦ ⟨rfl, rfl, rfl, rfl, rfl⟩) fun _ ↦ hnote
  · refine does_bind (haside fun _ ↦ ⟨rfl, rfl, rfl, rfl, rfl⟩) fun _ ↦ tamed_store ?_
    rintro _ ⟨⟩

/-- Submit an item and handle the answer. -/
theorem priced_postOne (hG : priced.Stable none G) (draining : Bool) (item : WorkItem) {k : Sup α}
    {post : α → World → Prop} (hk : priced.Triple none G k post) :
    priced.Triple none (fun w ↦ G w ∧ Payable w item.hit)
      (do
        let result ← submit item.hit
        handleOne draining item result
        k) post :=
  triple_bind (priced_submit hG item.hit) fun result ↦
    triple_bind (priced_of_tamed (tamed_handleOne draining item result) hG) fun _ ↦ hk

theorem priced_postAll (hG : priced.Stable none G) (onShutdown draining : Bool)
    (work : List WorkItem) :
    priced.Triple none (fun w ↦ G w ∧ ∀ item ∈ work, Payable w item.hit)
      (postAll onShutdown draining work) fun _ ↦ G := by
  induction work with
  | nil => exact triple_ret (hG.and stable_payableAll) fun _ _ h ↦ h.1
  | cons item rest ih =>
      have hstable : priced.Stable none fun w ↦ G w ∧ ∀ x ∈ item :: rest, Payable w x.hit :=
        hG.and stable_payableAll
      refine priced_get hstable fun stopping ↦ triple_ite
        (fun _ ↦ triple_ret hstable fun _ _ h ↦ h.1) fun _ ↦ ?_
      refine triple_mono (priced_postOne (hG.and stable_payableAll) draining item ih)
        (fun w _ h ↦ ⟨⟨h.1, fun x hx ↦ ?_⟩, ?_⟩) fun _ _ _ h ↦ h
      · exact h.2 x (List.mem_cons_of_mem _ hx)
      · exact h.2 item List.mem_cons_self

theorem priced_flushWorker (hG : priced.Stable none G) (draining : Bool) (work : List WorkItem)
    (fuel : Nat) :
    priced.Triple none (fun w ↦ G w ∧ ∀ item ∈ work, Payable w item.hit)
      (flushWorker draining work fuel) fun _ ↦ G := by
  have hstable : priced.Stable none fun w ↦ G w ∧ ∀ item ∈ work, Payable w item.hit :=
    hG.and stable_payableAll
  induction fuel with
  | zero => exact triple_ret hstable fun _ _ h ↦ h.1
  | succ fuel ih =>
      refine priced_get hstable fun _ ↦ triple_ite (fun _ ↦ triple_ret hstable fun _ _ h ↦ h.1)
        fun _ ↦ ?_
      rw [fetchNext, atomically_bind]
      refine triple_step hstable fun w hinv hw _ ↦ ?_
      have htame : Tame w { w with wave := { w.wave with next := w.wave.next + 1 } } :=
        tame_of hinv rfl rfl (fun h ↦ h) hinv.rows hinv.queue rfl rfl
      refine ⟨Tame.guar htame, ?_⟩
      have hw' := hstable w _ (fun _ ↦ htame.2) htame.1 hw
      dsimp only
      cases hitem : work[w.wave.next]? with
      | none => exact triple_ret hstable (fun _ _ h ↦ h.1) _ htame.1 hw'
      | some item =>
          exact priced_postOne hstable draining item ih _ htame.1
            ⟨hw', hw'.2 item (List.mem_of_getElem? hitem)⟩

/-- **A wave posts only what is payable**, one after another or with a crew. -/
theorem priced_postWave (hG : priced.Stable none G) (onShutdown draining : Bool) (parallel : Int)
    (work : List WorkItem) :
    priced.Triple none (fun w ↦ G w ∧ ∀ item ∈ work, Payable w item.hit)
      (postWave onShutdown draining parallel work) fun _ ↦ G := by
  have hstable : priced.Stable none fun w ↦ G w ∧ ∀ item ∈ work, Payable w item.hit :=
    hG.and stable_payableAll
  refine triple_bind (priced_of_tamed (tamed_ghost (fun _ ↦ rfl) (fun _ ↦ rfl) fun _ ↦ rfl)
    hstable) fun _ ↦ triple_ite (fun _ ↦ priced_postAll hG _ _ _) fun _ ↦
    triple_ask fun started _ ↦ triple_ite (fun _ ↦ priced_postAll hG _ _ _) fun hstarted ↦ ?_
  intro w hinv hw
  refine wp_mono (wp_interleaveAll fun p hp ↦ ?_) fun _ w' _ h ↦ h (by simpa using hstarted)
  rw [List.eq_of_mem_replicate hp]
  exact priced_flushWorker hG draining work _ w hinv hw

theorem tamed_settleWave (onShutdown draining : Bool) (lastId : Int) :
    Tamed (settleWave onShutdown draining lastId) := by
  have hrest : Tamed (do
      let v ← Prog.read (·.wave)
      if v.flushed = 0 ∧ onShutdown = false ∧ (0 < v.holds ∨ 0 < v.transients) then
        let t ← query .clock
        set (·.noteZeroAccepts draining t lastId)
        pure v.flushed
      else pure v.flushed) := fun w hw ↦ ⟨tame_refl w hw, does_ite
    (fun _ ↦ does_query_bind fun _ _ ↦ does_bind (tamed_aside fun _ ↦ ⟨rfl, rfl, rfl, rfl, rfl⟩)
      fun _ ↦ trivial) fun _ ↦ trivial⟩
  refine does_bind (fun w hw ↦ ⟨tame_of hw rfl rfl (fun h ↦ h) hw.rows hw.queue rfl rfl,
    trivial⟩) fun ids ↦ does_ite (fun _ ↦ hrest) fun _ ↦ does_bind (tamed_store ?_) fun _ ↦ hrest
  rintro _ ⟨⟩

/-! ## A flush -/

theorem priced_flushBag (hG : priced.Stable none G) (onShutdown draining : Bool) :
    priced.Triple none (fun w ↦ G w ∧ (draining = true → BagKnown w))
      (flushBag onShutdown draining) fun _ ↦ G := by
  refine triple_bind (priced_flushTarget hG draining) fun netM ↦ ?_
  have hstable₀ : priced.Stable none
      fun w ↦ (G w ∧ (draining = true → BagKnown w)) ∧ KnownIfPos netM w :=
    (hG.and fun w w' hr hinv h hd ↦ stable_bagKnown w w' hr hinv (h hd)).and stable_knownIfPos
  refine triple_ite (fun _ ↦ triple_ret hstable₀ fun _ _ h ↦ h.1.1) fun hpos ↦ ?_
  have hstable : priced.Stable none fun w ↦ G w ∧ TargetsKnown draining netM w :=
    hG.and stable_targetsKnown
  refine triple_mono (priced_get hstable fun _ ↦ priced_get hstable fun settings ↦
    priced_get hstable fun _ ↦ priced_get hstable fun _ ↦ priced_get hstable fun _ ↦
    triple_ask fun minute _ ↦ triple_read (M := fun rows w ↦ (G w ∧ TargetsKnown draining netM w) ∧
      ∀ pb ∈ rows, Costed pb.hit) hstable (fun w hinv hw ↦ ⟨hw, fun pb hpb ↦
        hinv.rows pb (mem_of_mem_listFlushBatch hpb).1⟩) fun rows ↦ ?_)
    (fun w _ h ↦ ⟨h.1.1, h.1.2, not_le.mp hpos, h.2 (not_le.mp hpos)⟩) fun _ _ _ h ↦ h
  refine triple_pure fun hrows ↦ ?_
  split
  · exact triple_ret hstable fun _ _ h ↦ h.1
  · refine triple_bind (triple_mono (priced_selectRows hG settings onShutdown _ hrows [])
      (fun _ _ h ↦ ⟨h, by simp⟩) fun _ _ _ h ↦ h) fun work ↦ ?_
    split
    · have hskip {f : Supervisor → Supervisor} (hf : ∀ s, Aside s (f s)) :
          priced.Triple none G (set f >>= fun _ ↦ pure 0) fun _ ↦ G :=
        triple_bind (priced_of_tamed (tamed_aside hf) hG) fun _ ↦ triple_ret hG fun _ _ h ↦ h
      exact triple_mono (hskip fun _ ↦ ⟨rfl, rfl, rfl, rfl, rfl⟩) (fun _ _ h ↦ h.1.1)
        fun _ _ _ h ↦ h
    · exact triple_mono (triple_bind (priced_postWave hG onShutdown draining _ work) fun _ ↦
        priced_of_tamed (tamed_settleWave onShutdown draining _) hG)
        (fun _ _ h ↦ ⟨h.1.1, h.2⟩) fun _ _ _ h ↦ h

theorem tamed_updateUnless (hc : c.Tamed) (onShutdown : Bool) : Tamed (updateUnless c onShutdown) :=
  does_ite (fun _ ↦ trivial) fun _ ↦ does_query_bind fun t _ ↦ hc.updateMatchDrain t

/-- A flush is let through as draining only while the cost of the bag is known. -/
def GateKnown (answer : Option Bool) (w : World) : Prop := answer = some true → BagKnown w

theorem stable_gateKnown {answer : Option Bool} : priced.Stable none (GateKnown answer) :=
  fun w w' hr hinv h ha ↦ stable_bagKnown w w' hr hinv (h ha)

theorem priced_gate {draining : Bool} (hG : priced.Stable none G) (answer : Option Bool)
    (hanswer : answer = some true → draining = true) :
    priced.Triple none (fun w ↦ G w ∧ (draining = true → BagKnown w))
      (pure answer : Sup (Option Bool)) fun answer w ↦ G w ∧ GateKnown answer w :=
  triple_ret (hG.and fun w w' hr hinv h hd ↦ stable_bagKnown w w' hr hinv (h hd))
    fun _ _ h ↦ ⟨h.1, fun ha ↦ h.2 (hanswer ha)⟩

theorem priced_closed (hG : priced.Stable none G) :
    priced.Triple none G (pure none : Sup (Option Bool)) fun answer w ↦ G w ∧ GateKnown answer w :=
  triple_ret hG fun _ _ h ↦ ⟨h, fun ha ↦ by cases ha⟩

theorem priced_regate (hc : c.Tamed) (hG : priced.Stable none G) (onShutdown : Bool) :
    priced.Triple none G (regate c onShutdown) fun answer w ↦ G w ∧ GateKnown answer w := by
  refine triple_bind (priced_of_tamed (tamed_updateUnless hc _) hG) fun _ ↦
    triple_bind (priced_isDraining hG) fun draining ↦ ?_
  have hstable : priced.Stable none fun w ↦ G w ∧ (draining = true → BagKnown w) :=
    hG.and fun w w' hr hinv h hd ↦ stable_bagKnown w w' hr hinv (h hd)
  refine triple_bind (priced_of_tamed (does_flushBlocked tame_refl _ _) hstable) fun blocked ↦
    priced_gate hG _ fun ha ↦ ?_
  split at ha
  · cases ha
  · exact Option.some.inj ha

theorem priced_pollGate (hc : c.Tamed) (hG : priced.Stable none G) (onShutdown : Bool) :
    priced.Triple none G (pollGate c onShutdown) fun answer w ↦ G w ∧ GateKnown answer w := by
  refine triple_bind (priced_of_tamed (hc.refreshNetwork _ _) hG) fun _ ↦
    triple_ite (fun _ ↦ priced_regate hc hG _) fun _ ↦ triple_ite (fun _ ↦ ?_) fun _ ↦ ?_
  · exact triple_bind (priced_of_tamed tamed_deferAllToNextStart hG) fun _ ↦ priced_closed hG
  · refine triple_bind (priced_of_tamed (does_flushSubmitAllowed tame_refl) hG) fun _ ↦
      triple_ite (fun _ ↦ ?_) fun _ ↦ priced_closed hG
    exact priced_get hG fun _ ↦ priced_get hG fun _ ↦
      triple_ite (fun _ ↦ priced_regate hc hG _) fun _ ↦ priced_closed hG

/-- **What the gates of a flush know.** -/
theorem priced_flushGates (hc : c.Tamed) (hG : priced.Stable none G) (onShutdown : Bool) :
    priced.Triple none G (flushGates c onShutdown) fun answer w ↦ G w ∧ GateKnown answer w := by
  refine priced_get hG fun _ ↦ triple_ite (fun _ ↦ priced_closed hG) fun _ ↦
    triple_bind (priced_of_tamed tamed_verifyReadyToPush hG) fun _ ↦
    triple_ite (fun _ ↦ ?_) fun _ ↦ priced_closed hG
  refine triple_bind (priced_of_tamed (tamed_updateUnless hc _) hG) fun _ ↦
    triple_bind (priced_isDraining hG) fun draining ↦ ?_
  have hstable : priced.Stable none fun w ↦ G w ∧ (draining = true → BagKnown w) :=
    hG.and fun w w' hr hinv h hd ↦ stable_bagKnown w w' hr hinv (h hd)
  have hclosed : priced.Triple none (fun w ↦ G w ∧ (draining = true → BagKnown w)) (pure none)
      fun answer w ↦ G w ∧ GateKnown answer w := priced_gate hG none fun ha ↦ by cases ha
  refine triple_bind (priced_of_tamed (does_flushBlocked tame_refl _ _) hstable) fun _ ↦
    triple_ite (fun _ ↦ hclosed) fun _ ↦
    triple_bind (priced_of_tamed (does_flushDeferred tame_refl _) hstable) fun _ ↦
    triple_ite (fun _ ↦ hclosed) fun _ ↦
    triple_ite (fun hd ↦ priced_gate hG _ fun _ ↦ hd) fun _ ↦ ?_
  exact triple_mono (priced_pollGate hc hG _) (fun _ _ h ↦ h.1) fun _ _ _ h ↦ h

/-! ## The calls that post -/

/-- The thread keeps to the agreement on costs. -/
abbrev Honest (i : Thread) (p : Sup α) : Prop :=
  costProtocol.Triple i (fun _ ↦ True) p fun _ _ ↦ True

theorem honest_of_tamed {p : Sup α} (hp : Tamed p) : Honest i p :=
  triple_of_does (does_mono hp (fun _ _ _ h ↦ h) (fun _ _ h ↦ h) fun _ h ↦ h.1) Stable.const
    fun _ _ _ _ h ↦ ⟨⟨h.1, fun _ _ _ ↦ h.2⟩, trivial⟩

theorem honest_pure (a : α) : Honest i (pure a : Sup α) :=
  triple_ret (G := fun _ ↦ True) Stable.const fun _ _ _ ↦ trivial

theorem honest_bind {p : Sup α} {k : α → Sup β} (hp : Honest i p) (hk : ∀ a, Honest i (k a)) :
    Honest i (p >>= k) := triple_bind hp hk

theorem honest_get {f : Supervisor → α} {k : α → Sup β} (hk : ∀ a, Honest i (k a)) :
    Honest i (get f >>= k) :=
  honest_bind (honest_of_tamed (does_get tame_refl)) hk

theorem honest_query {q : Query} {k : Answer q → Sup β} (hk : ∀ a, Honest i (k a)) :
    Honest i (query q >>= k) := triple_ask fun a _ ↦ hk a

/-- **A call starts from what is known now**, and goes on as a crew of the submit worker. -/
theorem honest_beginCall {k : Unit → Sup α}
    (h : priced.Triple none (fun _ ↦ True) (k ()) fun _ _ ↦ True) :
    Honest .submit (beginCall >>= k) := triple_step Stable.const fun _ hinv _ _ ↦
  ⟨⟨hinv.forget, fun _ hj hsubmit ↦ absurd hsubmit hj⟩, wp_of_crew (h _ hinv.forget trivial)⟩

theorem honest_processLiveSubmit (hc : c.Tamed) {hit : BlockHit} (h : Costed hit) (kind : String) :
    Honest .submit (processLiveSubmit c hit kind) := by
  have hG : priced.Stable none fun _ ↦ True := Stable.const
  have hqueue (reason : String) : priced.Triple none (fun _ ↦ True) (queueHit hit reason)
      fun _ _ ↦ True := priced_of_tamed (tamed_queueHit h reason) hG
  obtain ⟨-, m, hm, -⟩ := id h
  have hcost (miningM : Int) : hit.memoryCost = some (hit.memoryCost.getD miningM) := by
    rw [hm]
    rfl
  refine honest_beginCall (priced_get hG fun _ ↦ triple_ite (fun _ ↦ hqueue _) fun _ ↦
    priced_get hG fun miningM ↦ priced_get hG fun _ ↦ triple_ite (fun _ ↦ hqueue _) fun _ ↦
    triple_ite (fun _ ↦ ?_) fun _ ↦ priced_submitLive hc hG h (hcost miningM))
  refine priced_get hG fun _ ↦ priced_get hG fun _ ↦ triple_ask fun minute _ ↦
    triple_ite (fun _ ↦ triple_ret hG fun _ _ h ↦ h) fun _ ↦
      triple_ite (fun _ ↦ hqueue _) fun _ ↦ ?_
  exact priced_submitLive hc hG h (hcost miningM)

/-- **`try_flush_pending` posts only what is payable.** -/
theorem honest_tryFlushPending (hc : c.Tamed) (onShutdown : Bool) :
    Honest .submit (tryFlushPending c onShutdown) := by
  have hG : priced.Stable none fun _ ↦ True := Stable.const
  refine honest_beginCall (triple_bind (priced_flushGates hc hG onShutdown) fun answer ↦ ?_)
  cases answer with
  | none => exact triple_ret (hG.and stable_gateKnown) fun _ _ _ ↦ trivial
  | some draining =>
      exact triple_mono (priced_flushBag hG onShutdown draining)
        (fun _ _ h ↦ ⟨trivial, fun hd ↦ h.2 (congrArg some hd)⟩) fun _ _ _ h ↦ h

/-! ## The submit worker -/

theorem honest_aside {f : Supervisor → Supervisor} (hf : ∀ s, Aside s (f s)) : Honest i (set f) :=
  honest_of_tamed (tamed_aside hf)

/-- A flush, and a note of when it was. -/
theorem honest_flush (hc : c.Tamed) {f : Supervisor → Supervisor} (hf : ∀ s, Aside s (f s)) :
    Honest .submit (do
      let _ ← tryFlushPending c false
      set f) :=
  honest_bind (honest_tryFlushPending hc false) fun _ ↦ honest_aside hf

theorem honest_servicePendingQueue (hc : c.Tamed) (now : Rat) :
    Honest .submit (servicePendingQueue c now) := by
  have hopen (submitWin : Bool) (pendingXuni : Nat) :
      Honest .submit (openXuniWindow c now submitWin pendingXuni) := by
    refine honest_get fun _ ↦ triple_ite (fun _ ↦ ?_) fun _ ↦ triple_ite
      (fun _ ↦ honest_aside fun _ ↦ ⟨rfl, rfl, rfl, rfl, rfl⟩) fun _ ↦ honest_pure ()
    exact honest_bind (honest_aside fun _ ↦ ⟨rfl, rfl, rfl, rfl, rfl⟩) fun _ ↦ triple_ite
      (fun _ ↦ honest_flush hc fun _ ↦ ⟨rfl, rfl, rfl, rfl, rfl⟩) fun _ ↦ honest_pure ()
  refine honest_query fun minute ↦ honest_query fun minute' ↦ honest_get fun _ ↦
    honest_get fun _ ↦ honest_bind (hopen _ _) fun _ ↦
    honest_bind (honest_of_tamed (does_isDraining tame_refl)) fun _ ↦ honest_get fun _ ↦
    triple_ite (fun _ ↦ honest_flush hc fun _ ↦ ⟨rfl, rfl, rfl, rfl, rfl⟩) fun _ ↦
    triple_ite (fun _ ↦ honest_get fun _ ↦ ?_) fun _ ↦ honest_pure ()
  exact triple_ite (fun _ ↦ honest_flush hc fun _ ↦ ⟨rfl, rfl, rfl, rfl, rfl⟩) fun _ ↦
    honest_pure ()

theorem honest_processBatch (hc : c.Tamed) {jobs : List LiveSubmitJob}
    (hjobs : ∀ job ∈ jobs, Costed job.hit) : Honest .submit (processBatch c jobs) := by
  induction jobs with
  | nil => exact honest_pure ()
  | cons job rest ih =>
      exact honest_bind (honest_processLiveSubmit hc (hjobs job List.mem_cons_self) _) fun _ ↦
        ih fun j hj ↦ hjobs j (List.mem_cons_of_mem _ hj)

theorem honest_submitBatch (hc : c.Tamed) {jobs : List LiveSubmitJob}
    (hjobs : ∀ job ∈ jobs, Costed job.hit) : Honest .submit (submitBatch c jobs) := by
  have hqueue (reason : String) : Honest .submit (queueAll reason jobs) :=
    honest_of_tamed (tamed_queueAll hjobs reason)
  have hservice {p : Sup Unit} (hp : Honest .submit p) : Honest .submit (do
      p
      serviceNow c) :=
    honest_bind hp fun _ ↦ honest_query fun t ↦ honest_servicePendingQueue hc t
  have hlive : Honest .submit (liveBatch c jobs) :=
    triple_ite (fun _ ↦ honest_pure ()) fun _ ↦
      honest_bind (honest_of_tamed tamed_verifyReadyToPush) fun _ ↦
        triple_ite (fun _ ↦ honest_processBatch hc hjobs) fun _ ↦
        honest_of_tamed (tamed_queueBatchDown hjobs)
  exact honest_get fun _ ↦ triple_ite (fun _ ↦ hqueue _) fun _ ↦ honest_get fun _ ↦
    triple_ite (fun _ ↦ hqueue _) fun _ ↦ honest_get fun _ ↦
    triple_ite (fun _ ↦ hservice (hqueue _)) fun _ ↦ hservice hlive

theorem honest_lastFlush (hc : c.Tamed) : Honest .submit (lastFlush c) := by
  have hflush : Honest .submit (do
      let _ ← tryFlushPending c true) :=
    honest_bind (honest_tryFlushPending hc true) fun _ ↦ honest_pure ()
  refine honest_get fun _ ↦ triple_ite (fun _ ↦ honest_pure ()) fun _ ↦ honest_get fun _ ↦
    triple_ite (fun _ ↦ ?_) fun _ ↦ hflush
  exact honest_bind (honest_of_tamed (does_liveSubmitAllowed tame_refl)) fun _ ↦
    triple_ite (fun _ ↦ hflush) fun _ ↦ honest_pure ()

theorem honest_submitBody (hc : c.Tamed) : Honest .submit (submitBody c) := by
  have hpoll : Honest .submit (submitPoll c) :=
    honest_get fun _ ↦ triple_ite (fun _ ↦ honest_pure ()) fun _ ↦ honest_get fun _ ↦
      triple_ite (fun _ ↦ honest_pure ()) fun _ ↦
      honest_bind (honest_of_tamed (hc.refreshNetwork _ _)) fun _ ↦ honest_query fun t ↦
      honest_of_tamed (hc.updateMatchDrain t)
  have hend : Honest .submit (do
      bagLiveQueueToStore .submit shutdownPendingReason
      deferAllToNextStart
      lastFlush c
      Prog.modify fun w ↦ { w with workerDone := true }
      pure false) :=
    honest_bind (honest_of_tamed (tamed_bagLiveQueueToStore _)) fun _ ↦
      honest_bind (honest_of_tamed tamed_deferAllToNextStart) fun _ ↦
      honest_bind (honest_lastFlush hc) fun _ ↦ honest_bind
        (honest_of_tamed (tamed_ghost (fun _ ↦ rfl) (fun _ ↦ rfl) fun _ ↦ rfl)) fun _ ↦
      honest_pure false
  -- the batch that is taken out carries its costs twice
  refine triple_step Stable.const fun w hinv _ _ ↦ ?_
  have htame : Tame w { w with
      sup := { w.sup with liveSubmitQ := [] }
      batches := Function.update w.batches .submit w.sup.liveSubmitQ } :=
    tame_of hinv rfl rfl (fun h ↦ h) hinv.rows (by simp) rfl rfl
  have hrest : Honest .submit (do
      submitPoll c
      submitBatch c w.sup.liveSubmitQ
      finishBatch .submit
      if ← get (·.submitWorkerRunning) then pure true
      else
        bagLiveQueueToStore .submit shutdownPendingReason
        deferAllToNextStart
        lastFlush c
        Prog.modify fun w ↦ { w with workerDone := true }
        pure false) :=
    honest_bind hpoll fun _ ↦ honest_bind (honest_submitBatch hc hinv.queue) fun _ ↦
      honest_bind (honest_of_tamed tamed_finishBatch) fun _ ↦ honest_get fun _ ↦
      triple_ite (fun _ ↦ honest_pure true) fun _ ↦ hend
  exact ⟨⟨htame.1, fun j _ _ ↦ htame.2⟩, hrest _ htame.1 trivial⟩

/-! ## Every run -/

/-- Every thread keeps to the agreement. -/
def costSpec (hc : c.Tamed) : costProtocol.Spec (Sup.body c) where
  loop _ _ := True
  done _ _ := True
  body_wp i w hinv _ := by
    have hbody : Honest i (Sup.body c i) := match i with
      | .mining => honest_of_tamed (tamed_miningBody hc)
      | .submit => honest_submitBody hc
      | .console => honest_of_tamed tamed_consoleBody
    exact wp_mono (hbody w hinv trivial) fun again _ _ _ ↦ by cases again <;> trivial

end Sup

/-- A supervisor as `run` finds it.  Its bag is what `handle_hit` has put there in earlier sessions,
and what reloading it has made of that. -/
structure Supervisor.StartsPriced (s : Supervisor) : Prop where
  store : ∃ as, Run BlockStore.Step {} as s.store ∧ ∀ a ∈ as, ∀ hit ∈ a.hit?, Prepared hit
  liveSubmitQ : s.liveSubmitQ = []
  networkDifficulty : s.networkDifficulty = none
  matchDrainActive : s.matchDrainActive = false
  /-- `memory_cost` is an `int`. -/
  memoryCost : s.settings.memoryCost < 2 ^ 31

namespace Sup

open Protocol

/-- The first moment of the threads: the startup probe has got some snapshots, or none. -/
def startPriced (sup : Supervisor) (polls : List (NetworkStatus × Rat × Rat × Rat)) :
    Pool World Query Answer Thread :=
  ⟨{ sup := sup.startupProbe polls, held := [(sup.startupProbe polls).networkDifficulty] },
    fun _ ↦ .ret true⟩

/-- The fallback is no number that a gate would let through wrongly. -/
theorem costInv_startupFallback {w : World} (hinv : CostInv w) : CostInv { w with
    sup := w.sup.startupFallback
    held := [w.sup.startupFallback.networkDifficulty] } := by
  cases hd : w.sup.networkDifficulty with
  | some d =>
      have hsame : w.sup.startupFallback = w.sup := by
        simp only [Supervisor.startupFallback, hd]
      rw [hsame]
      exact hinv.forget
  | none =>
      simp only [Supervisor.startupFallback, hd]
      refine ⟨hinv.rows, hinv.queue, List.mem_cons_self, fun m hm ↦ ?_, hinv.fallback,
        fun hact ↦ ?_, hinv.posted⟩
      · obtain rfl : m = w.sup.settings.memoryCost := Option.some.inj (List.mem_singleton.mp hm)
        exact hinv.fallback
      · -- a window is open only at a number that is known
        have hnet := (hinv.window hact).2
        rw [hd] at hnet
        cases hnet

/-- **The startup probe leaves what the threads start from.** -/
theorem costInv_startupProbe {w : World} (hinv : CostInv w)
    (polls : List (NetworkStatus × Rat × Rat × Rat)) : CostInv { w with
      sup := w.sup.startupProbe polls
      held := [(w.sup.startupProbe polls).networkDifficulty] } := by
  unfold Supervisor.startupProbe
  induction polls generalizing w with
  | nil => exact costInv_startupFallback hinv
  | cons poll rest ih =>
      obtain ⟨st, t₁, t₂, t₃⟩ := poll
      exact ih (tame_refreshOnce hinv false st t₁ t₂ t₃).1

/-- **No wrong cost is posted.**  In every run of the three threads from the startup probe on, with
polls and `update_match_drain` as single steps: every hash that is posted is a PHC string whose
cost the known difficulty had been since the call that posted it began. -/
theorem no_wrong_post {sup : Supervisor} (hs : sup.StartsPriced)
    {polls : List (NetworkStatus × Rat × Rat × Rat)} {is : List Thread}
    {c : Pool World Query Answer Thread}
    (hr : Run (Pool.Step EngineAnswers (body .atomic)) (startPriced sup polls) is c) :
    ∀ post ∈ c.shared.posted, post.Matching := by
  obtain ⟨as, hrun, has⟩ := hs.store
  have hrows := hits_of_run (P := Costed) (fun _ h ↦ h.reread) hrun fun a ha hit hhit ↦
    (has a ha hit hhit).costed
  have hinv : CostInv { sup, held := [none] } := by
    refine ⟨hrows, by simp [hs.liveSubmitQ], by simp [hs.networkDifficulty], fun m hm ↦ ?_,
      hs.memoryCost, fun ha ↦ ?_, by simp⟩
    · simp [Known] at hm
    · exact absurd ha (by simp [hs.matchDrainActive])
  have hsound : Sound (costSpec Calls.atomic_tamed) (startPriced sup polls) :=
    ⟨costInv_startupProbe hinv polls, fun _ _ _ _ ↦ trivial⟩
  exact (Protocol.sound hsound hr).inv.posted

/-! ### A hit that is posted -/

/-- A match as the engine gives it. -/
def digestHit : BlockHit where
  hashStr := "AAAA"
  blockType := "XNM"

/-- That match, prepared for a cost of 1100. -/
def pricedHit : BlockHit where
  hashStr := "$argon2id$v=19$m=1100,t=1,p=1$qrs$AAAA"
  blockType := "XNM"
  memoryCost := some 1100

theorem prepared_pricedHit : Prepared pricedHit :=
  ⟨digestHit, "aabb", 1100, 1, 1, ⟨[0, 0, 0], by decide⟩, by decide +kernel⟩

/-- A miner with that hit in its bag. -/
def pricedMiner : Supervisor where
  settings := Settings.defaults
  store := ({} : BlockStore).exec (.enqueue "" pricedHit "network_down")

theorem startsPriced_pricedMiner : pricedMiner.StartsPriced := by
  refine ⟨⟨[.op (.enqueue "" pricedHit "network_down")], .cons rfl (.nil _), ?_⟩, rfl, rfl, rfl,
    by decide⟩
  rintro a ha hit hhit
  obtain rfl := List.mem_singleton.mp ha
  obtain rfl : pricedHit = hit := Option.some.inj hhit
  exact prepared_pricedHit

/-- An environment whose pool answers every `POST`, and `GET /difficulty` never. -/
def postsOnly : ∀ q, Answer q
  | .clock => (1000 : Rat)
  | .stamp => ""
  | .minute => (30 : Nat)
  | .verify _ => ((200 : Int), "")
  | .probe => true
  | .poll _ => { error := "timeout", seq := 1 }
  | .replan m => m
  | .drain => none
  | .spawn wanted => wanted
  | .turn => true
  | .round => .poll

theorem engineAnswers_postsOnly : ∀ q, EngineAnswers q (postsOnly q)
  | .round => fun _ h ↦ MiningRound.noConfusion h
  | .drain => fun hits h ↦ absurd h (Option.some_ne_none hits).symm
  | .clock | .stamp | .minute | .verify _ | .probe | .poll _ | .replan _ | .spawn _ | .turn =>
      trivial

/-- The submit worker posts it in its first round, at the cost of the fallback. -/
theorem run_pricedMiner : ∃ is c,
    Run (Pool.Step EngineAnswers (body .atomic)) (startPriced pricedMiner []) is c ∧
      c.shared.posted.map Post.hash = [pricedHit.hashStr] := by
  have hloop : Pool.Step EngineAnswers (body .atomic) (startPriced pricedMiner []) .submit
      ⟨(startPriced pricedMiner []).shared,
        Function.update (startPriced pricedMiner []).prog .submit (body .atomic .submit)⟩ :=
    .loop rfl
  obtain ⟨⟨again, w⟩, hdrive, hposted⟩ := Option.map_eq_some_iff.mp (show
    (drive postsOnly 200 (startPriced pricedMiner []).shared (body .atomic .submit)).map
      (·.2.posted.map Post.hash) = some [pricedHit.hashStr] by decide +kernel)
  have hends := ends_of_drive engineAnswers_postsOnly hdrive
  have hprog : Function.update (startPriced pricedMiner []).prog .submit (body .atomic .submit)
      .submit = body .atomic .submit := Function.update_self ..
  obtain ⟨is, hr⟩ := Pool.run_of_steps hprog hends
  exact ⟨_, _, .cons hloop hr, hposted⟩

/-- The fallback is what was known. -/
theorem no_wrong_post_pricedMiner : ∃ c : Pool World Query Answer Thread,
    c.shared.posted.map Post.hash = [pricedHit.hashStr] ∧
      ∀ post ∈ c.shared.posted, post.Matching := by
  obtain ⟨is, c, hr, hposted⟩ := run_pricedMiner
  exact ⟨c, hposted, no_wrong_post startsPriced_pricedMiner hr⟩

end Sup

end XNMiner
