import XNMiner.App.Flush
import XNMiner.Queue.Growth

/-!
# What the steps of a program do

Facts about the steps of the supervisor's programs, taken one by one and in any state
(`Prog.Does`).  Gates and targets only read.  Polls, probes and the window change what the miner
knows of the network, but move no hit: their steps are in `SameHits`.
-/

namespace XNMiner

open Lib Prog

open BlockStore

/-- Nothing that says where a hit is has changed. -/
structure SameHits (w w' : World) : Prop where
  settings : w'.sup.settings = w.sup.settings
  liveSubmitQ : w'.sup.liveSubmitQ = w.sup.liveSubmitQ
  finalized : w'.sup.finalized = w.sup.finalized
  submitThreadJoinable : w'.sup.submitThreadJoinable = w.sup.submitThreadJoinable
  rows : SameRows w.sup.store w'.sup.store
  wave : w'.wave = w.wave
  workerDone : w'.workerDone = w.workerDone
  accepted : w'.accepted = w.accepted
  posted : w'.posted = w.posted
  delivered : w'.delivered = w.delivered
  batches : w'.batches = w.batches

namespace Sup

variable {ok : ∀ q, Answer q → Prop} {I : World → Prop} {R : World → World → Prop} {α β : Type}

/-! ## Single steps -/

theorem does_get (hR : ∀ w, I w → R w w) {g : Supervisor → α} : Does ok I R (get g) :=
  fun w hw ↦ ⟨hR w hw, trivial⟩

theorem does_get_bind (hR : ∀ w, I w → R w w) {g : Supervisor → α} {k : α → Sup β}
    (h : ∀ w, I w → Does ok I R (k (g w.sup))) : Does ok I R (get g >>= k) :=
  fun w hw ↦ ⟨hR w hw, h w hw⟩

theorem does_query_bind {q : Query} {k : Answer q → Sup β}
    (h : ∀ a, ok q a → Does ok I R (k a)) : Does ok I R (query q >>= k) := h

theorem does_modify {g : World → World} (hg : ∀ w, I w → R w (g w)) :
    Does ok I R (Prog.modify g : Sup Unit) := fun w hw ↦ ⟨hg w hw, trivial⟩

theorem does_modify_bind {g : World → World} {k : Unit → Sup β} (hg : ∀ w, I w → R w (g w))
    (h : Does ok I R (k ())) : Does ok I R (Prog.modify g >>= k) := fun w hw ↦ ⟨hg w hw, h⟩

/-! ## Gates and targets only read -/

variable (hR : ∀ w, I w → R w w)

include hR

theorem does_submitTargetM : Does ok I R submitTargetM :=
  does_get_bind hR fun _ _ ↦ does_get_bind hR fun _ _ ↦
    does_ite (fun _ ↦ trivial) fun _ ↦ does_get hR

theorem does_isDraining : Does ok I R isDraining :=
  does_get_bind hR fun _ _ ↦ does_ite (fun _ ↦ trivial) fun _ ↦
    does_get_bind hR fun _ _ ↦ does_get hR

theorem does_liveSubmitAllowed : Does ok I R liveSubmitAllowed :=
  does_query_bind fun _ _ ↦ does_get hR

theorem does_flushSubmitAllowed : Does ok I R flushSubmitAllowed :=
  does_query_bind fun _ _ ↦ does_get hR

theorem does_canSubmitHitM (hitM : Int) : Does ok I R (canSubmitHitM hitM) :=
  does_bind (does_liveSubmitAllowed hR) fun _ ↦ does_ite (fun _ ↦ does_get hR) fun _ ↦ trivial

theorem does_flushTarget (draining : Bool) : Does ok I R (flushTarget draining) :=
  does_bind (does_submitTargetM hR) fun _ ↦
    does_ite (fun _ ↦ does_get_bind hR fun _ _ ↦ trivial) fun _ ↦ trivial

theorem does_flushBlocked (onShutdown draining : Bool) :
    Does ok I R (flushBlocked onShutdown draining) :=
  does_ite (fun _ ↦ trivial) fun _ ↦ does_bind (does_flushSubmitAllowed hR) fun _ ↦ trivial

theorem does_flushDeferred (onShutdown : Bool) : Does ok I R (flushDeferred onShutdown) :=
  does_ite (fun _ ↦ trivial) fun _ ↦ does_get_bind hR fun _ _ ↦
    does_ite (fun _ ↦ trivial) fun _ ↦ does_query_bind fun _ _ ↦ does_get hR

omit hR

/-! ## Programs that move no hit -/

/-- No step of the program moves a hit. -/
abbrev Calm (p : Sup α) : Prop := Does (fun _ _ ↦ True) (fun _ ↦ True) SameHits p

theorem sameHits_refl (w : World) (_ : True) : SameHits w w :=
  ⟨rfl, rfl, rfl, rfl, .refl _, rfl, rfl, rfl, rfl, rfl, rfl⟩

theorem calm_updateMatchDrainSteps (now : Rat) : Calm (updateMatchDrainSteps now) := by
  have hstop : Calm (set (·.stopWindow)) :=
    does_modify fun _ _ ↦ ⟨rfl, rfl, rfl, rfl, .refl _, rfl, rfl, rfl, rfl, rfl, rfl⟩
  refine does_get_bind sameHits_refl fun _ _ ↦ does_ite (fun _ ↦ ?_) fun _ ↦ ?_
  · exact does_get_bind sameHits_refl fun _ _ ↦ does_ite (fun _ ↦ hstop) fun _ ↦ trivial
  · refine does_get_bind sameHits_refl fun _ _ ↦ does_get_bind sameHits_refl fun _ _ ↦
      does_get_bind sameHits_refl fun _ _ ↦ does_get_bind sameHits_refl fun _ _ ↦
      does_get_bind sameHits_refl fun _ _ ↦ does_ite (fun _ ↦ ?_) fun _ ↦ ?_
    · refine does_get_bind sameHits_refl fun _ _ ↦ does_ite (fun _ ↦ ?_) fun _ ↦ trivial
      exact does_modify_bind
        (fun _ _ ↦ ⟨rfl, rfl, rfl, rfl, .refl _, rfl, rfl, rfl, rfl, rfl, rfl⟩) <|
        does_modify fun w _ ↦ ⟨rfl, rfl, rfl, rfl, sameRows_flush _, rfl, rfl, rfl, rfl, rfl, rfl⟩
    · refine does_get_bind sameHits_refl fun _ _ ↦ does_ite (fun _ ↦ ?_) fun _ ↦ trivial
      exact does_modify fun _ _ ↦ ⟨rfl, rfl, rfl, rfl, .refl _, rfl, rfl, rfl, rfl, rfl, rfl⟩

theorem calm_replanEngineTo (replan : Option Int) : Calm (replanEngineTo replan) := by
  cases replan with
  | none => exact trivial
  | some diff =>
      exact does_query_bind fun _ _ ↦
        does_modify fun _ _ ↦ ⟨rfl, rfl, rfl, rfl, .refl _, rfl, rfl, rfl, rfl, rfl, rfl⟩

theorem calm_refreshNetworkSteps (blocking replanEngine : Bool) :
    Calm (refreshNetworkSteps blocking replanEngine) := by
  refine does_query_bind fun st _ ↦ does_bind (fun w _ ↦ ⟨?_, trivial⟩) fun stale ↦ ?_
  · change SameHits w (if w.sup.staleSnapshot blocking st = true then _ else _ :
      Option Bool × World).2
    split
    · exact sameHits_refl w trivial
    · exact ⟨rfl, rfl, rfl, rfl, .refl _, rfl, rfl, rfl, rfl, rfl, rfl⟩
  · cases stale with
    | some answer => exact trivial
    | none =>
        cases st.difficulty with
        | none =>
            exact does_query_bind fun _ _ ↦ does_modify_bind
              (fun _ _ ↦ ⟨rfl, rfl, rfl, rfl, .refl _, rfl, rfl, rfl, rfl, rfl, rfl⟩)
              (does_get sameHits_refl)
        | some raw =>
            refine does_query_bind fun _ _ ↦ does_query_bind fun _ _ ↦ does_bind
              (fun w _ ↦ ⟨⟨rfl, rfl, rfl, rfl, .refl _, rfl, rfl, rfl, rfl, rfl, rfl⟩, trivial⟩)
              fun replan ↦ ?_
            have hrest : Calm (do
                let t₃ ← query .clock
                updateMatchDrainSteps t₃
                pure true) :=
              does_query_bind fun t₃ _ ↦ does_bind (calm_updateMatchDrainSteps t₃) fun _ ↦ trivial
            exact does_ite (fun _ ↦ does_bind (calm_replanEngineTo replan) fun _ ↦ hrest)
              fun _ ↦ hrest

/-- The two shared calls move no hit. -/
structure Calls.Calm (c : Calls) : Prop where
  updateMatchDrain : ∀ now, Sup.Calm (c.updateMatchDrain now)
  refreshNetwork : ∀ blocking replanEngine, Sup.Calm (c.refreshNetwork blocking replanEngine)

theorem Calls.steps_calm : Calls.steps.Calm :=
  ⟨calm_updateMatchDrainSteps, calm_refreshNetworkSteps⟩

theorem calm_verifyReadyToPush : Calm verifyReadyToPush :=
  does_query_bind fun _ _ ↦ does_get_bind sameHits_refl fun w _ ↦ by
    cases readyWithoutProbe _ w.sup with
    | some ready => exact trivial
    | none =>
        exact does_query_bind fun _ _ ↦ does_query_bind fun _ _ ↦ does_modify_bind
          (fun _ _ ↦ ⟨rfl, rfl, rfl, rfl, .refl _, rfl, rfl, rfl, rfl, rfl, rfl⟩) trivial

theorem calm_noteSubmitTransportFailure (status : Int) :
    Calm (noteSubmitTransportFailure status) :=
  does_get_bind sameHits_refl fun _ _ ↦ does_get_bind sameHits_refl fun _ _ ↦
    does_query_bind fun _ _ ↦
      does_modify fun _ _ ↦ ⟨rfl, rfl, rfl, rfl, .refl _, rfl, rfl, rfl, rfl, rfl, rfl⟩

theorem calm_deferAllToNextStart : Calm deferAllToNextStart :=
  does_query_bind fun _ _ ↦ does_modify fun _ _ ↦
    ⟨rfl, rfl, rfl, rfl, sameRows_deferAllToNextStart _ _, rfl, rfl, rfl, rfl, rfl, rfl⟩

variable {c : Calls} (hc : c.Calm)

include hc

theorem calm_updateUnless (onShutdown : Bool) : Calm (updateUnless c onShutdown) :=
  does_ite (fun _ ↦ trivial) fun _ ↦ does_query_bind fun t _ ↦ hc.updateMatchDrain t

theorem calm_regate (onShutdown : Bool) : Calm (regate c onShutdown) :=
  does_bind (calm_updateUnless hc onShutdown) fun _ ↦ does_bind (does_isDraining sameHits_refl)
    fun _ ↦ does_bind (does_flushBlocked sameHits_refl _ _) fun _ ↦ trivial

theorem calm_pollGate (onShutdown : Bool) : Calm (pollGate c onShutdown) := by
  refine does_bind (hc.refreshNetwork _ _) fun refreshed ↦
    does_ite (fun _ ↦ calm_regate hc onShutdown) fun _ ↦ does_ite (fun _ ↦ ?_) fun _ ↦ ?_
  · exact does_bind calm_deferAllToNextStart fun _ ↦ trivial
  · refine does_bind (does_flushSubmitAllowed sameHits_refl) fun _ ↦
      does_ite (fun _ ↦ ?_) fun _ ↦ trivial
    exact does_get_bind sameHits_refl fun _ _ ↦ does_get_bind sameHits_refl fun _ _ ↦
      does_ite (fun _ ↦ calm_regate hc onShutdown) fun _ ↦ trivial

/-- The gates of a flush move no hit. -/
theorem calm_flushGates (onShutdown : Bool) : Calm (flushGates c onShutdown) := by
  refine does_get_bind sameHits_refl fun _ _ ↦ does_ite (fun _ ↦ trivial) fun _ ↦
    does_bind calm_verifyReadyToPush fun _ ↦ does_ite (fun _ ↦ ?_) fun _ ↦ trivial
  refine does_bind (calm_updateUnless hc onShutdown) fun _ ↦
    does_bind (does_isDraining sameHits_refl) fun _ ↦
    does_bind (does_flushBlocked sameHits_refl _ _) fun _ ↦
    does_ite (fun _ ↦ trivial) fun _ ↦ ?_
  exact does_bind (does_flushDeferred sameHits_refl _) fun _ ↦ does_ite (fun _ ↦ trivial) fun _ ↦
    does_ite (fun _ ↦ trivial) fun _ ↦ calm_pollGate hc onShutdown

end Sup

end XNMiner
