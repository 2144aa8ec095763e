import XNMiner.App.Steps
import XNMiner.Lib.Alone

/-!
# The supervisor's programs alone

What a program does when no other thread moves.  `update_match_drain`, with its steps apart, then
does what it does as one step (`ends_updateMatchDrainSteps`); the gates of a flush post nothing
(`silent_flushGates`), and what comes after them does not move the match window
(`steady_flushBag`).
-/

namespace XNMiner

open Lib Prog

namespace Sup

variable {ok : ∀ q, Answer q → Prop} {w u : World} {α β : Type}

/-! ## Single steps -/

theorem ends_get {f : Supervisor → α} {a : α} :
    Ends ok w (get f) a u ↔ a = f w.sup ∧ u = w := ends_read

theorem ends_set {f : Supervisor → Supervisor} {a : Unit} :
    Ends ok w (set f) a u ↔ u = { w with sup := f w.sup } := ends_modify

theorem ends_get_bind {f : Supervisor → α} {k : α → Sup β} {b : β} :
    Ends ok w (get f >>= k) b u ↔ Ends ok w (k (f w.sup)) b u := by
  simp [ends_bind, ends_get]

theorem ends_set_bind {f : Supervisor → Supervisor} {k : Unit → Sup β} {b : β} :
    Ends ok w (set f >>= k) b u ↔ Ends ok { w with sup := f w.sup } (k ()) b u :=
  ends_step.trans (and_iff_right rfl)

theorem ends_query_bind {q : Query} {k : Answer q → Sup β} {b : β} :
    Ends ok w (query q >>= k) b u ↔ ∃ a, ok q a ∧ Ends ok w (k a) b u := ends_ask

theorem always_get_bind {G : World → Prop} {g : Supervisor → α} {k : α → Sup β} :
    Always ok w (get g >>= k) G ↔ G w ∧ Always ok w (k (g w.sup)) G :=
  always_step.trans (and_congr_right fun _ ↦ ⟨fun h ↦ h rfl, fun h _ ↦ h⟩)

theorem always_query_bind {G : World → Prop} {q : Query} {k : Answer q → Sup β} :
    Always ok w (query q >>= k) G ↔ G w ∧ ∀ a, ok q a → Always ok w (k a) G := always_ask

theorem always_modify_bind {G : World → Prop} {g : World → World} {k : Unit → Sup β} :
    Always ok w (Prog.modify g >>= k) G ↔ G w ∧ Always ok (g w) (k ()) G :=
  always_step.trans (and_congr_right fun _ ↦ ⟨fun h ↦ h rfl, fun h _ ↦ h⟩)

theorem reaches_modify_bind {g : World → World} {k : Unit → Sup β}
    (h : Reaches ok (g w) (k ()) u) : Reaches ok w (Prog.modify g >>= k) u :=
  reaches_step.mpr (.inr ⟨rfl, h⟩)

theorem reaches_query_bind {q : Query} {k : Answer q → Sup β} (a : Answer q) (ha : ok q a)
    (h : Reaches ok w (k a) u) : Reaches ok w (query q >>= k) u :=
  reaches_ask.mpr (.inr ⟨a, ha, h⟩)

theorem reaches_get_bind {g : Supervisor → α} {k : α → Sup β}
    (h : Reaches ok w (k (g w.sup)) u) : Reaches ok w (get g >>= k) u :=
  reaches_step.mpr (.inr ⟨rfl, h⟩)

/-! ## The store -/

/-- The failure of a `POST` is noted outside the store. -/
theorem store_of_noteSubmitTransportFailure {status : Int} {a : Unit}
    (h : Ends ok w (noteSubmitTransportFailure status) a u) : u.sup.store = w.sup.store := by
  rw [noteSubmitTransportFailure, ends_get_bind, ends_get_bind, ends_query_bind] at h
  obtain ⟨t, -, h⟩ := h
  rw [ends_set.mp h]

/-! ## The window -/

/-- `update_match_drain`, step by step and alone, does what it does as one step. -/
theorem ends_updateMatchDrainSteps {now : Rat} {a : Unit} :
    Ends ok w (updateMatchDrainSteps now) a u ↔
      u = { w with sup := w.sup.updateMatchDrain now } := by
  have hopen : (w.sup.oracleSaysM w.sup.bagTargetM && decide (w.sup.settings.matchDrainMinQueue ≤
      (w.sup.store.pendingMatchingM w.sup.bagTargetM w.sup.bagTargetM : Int))) =
        w.sup.windowOpens := by
    unfold Supervisor.windowOpens Supervisor.matchQ Supervisor.bagQ
    cases w.sup.oracleSaysM w.sup.bagTargetM <;> rfl
  have hend : (w.sup.oracleSaysM w.sup.bagTargetM && decide
      (w.sup.store.pendingMatchingM w.sup.bagTargetM w.sup.bagTargetM = 0) ||
        w.sup.windowTimedOut now || w.sup.oracleLeftM w.sup.bagTargetM) =
      w.sup.windowEnds now := rfl
  unfold updateMatchDrainSteps Supervisor.updateMatchDrain
  simp only [ends_get_bind, ends_ite, ends_set_bind, store, ends_set, pure_eq, ends_ret, true_and,
    hopen, hend]
  split_ifs <;> rfl

/-! ## Frames -/

variable {C : World → Prop} {γ : Type} {f : World → γ}

/-- A read keeps everything. -/
theorem keeps_refl (w : World) (hw : C w) : C w ∧ f w = f w := ⟨hw, rfl⟩

/-- `C` and `f` read nothing of the supervisor but its window and whether it is stopping. -/
def Coarse (C : World → Prop) (f : World → γ) : Prop :=
  ∀ w sup wave, sup.shuttingDown = w.sup.shuttingDown →
    sup.matchDrainActive = w.sup.matchDrainActive → C w →
      C { w with sup, wave } ∧ f { w with sup, wave } = f w

/-- The selection loop changes nothing but the store. -/
theorem keeps_selectRows (h : Coarse C f) (settings : Settings) (onShutdown draining : Bool)
    (netM wave : Int) (rows : List PendingBlock) (work : List WorkItem) :
    Keeps C f (selectRows settings onShutdown draining netM wave rows work) := by
  induction rows generalizing work with
  | nil => exact trivial
  | cons pb rest ih =>
      refine does_query_bind fun minute _ ↦ does_get_bind keeps_refl fun w _ ↦
        does_get_bind keeps_refl fun w' _ ↦ ?_
      split
      · exact ih work
      · exact does_modify_bind (fun w hw ↦ h w _ _ rfl rfl hw) (ih work)
      · exact does_ite (fun _ ↦ trivial) fun _ ↦ ih _

theorem keeps_settleWave (h : Coarse C f) (onShutdown draining : Bool) (lastId : Int) :
    Keeps C f (settleWave onShutdown draining lastId) := by
  refine does_bind (fun w hw ↦ ⟨h w _ _ rfl rfl hw, trivial⟩) fun ids ↦ ?_
  have hrest : Keeps C f (do
      let v ← Prog.read (·.wave)
      if v.flushed = 0 ∧ onShutdown = false ∧ (0 < v.holds ∨ 0 < v.transients) then
        let t ← query .clock
        set (·.noteZeroAccepts draining t lastId)
        pure v.flushed
      else pure v.flushed) :=
    fun w hw ↦ ⟨keeps_refl w hw, does_ite
      (fun _ ↦ does_query_bind fun _ _ ↦
        does_modify_bind (fun w hw ↦ h w _ _ rfl rfl hw) trivial) fun _ ↦ trivial⟩
  exact does_ite (fun _ ↦ hrest) fun _ ↦
    does_modify_bind (fun w hw ↦ h w _ _ rfl rfl hw) hrest

/-! ### Programs that do not post -/

/-- The program posts nothing. -/
abbrev Silent (p : Sup α) : Prop := Keeps (fun _ ↦ True) World.posted p

/-- A program that moves no hit posts none. -/
theorem Calm.silent {p : Sup α} (h : Calm p) : Silent p :=
  does_mono h (fun _ _ _ h ↦ ⟨trivial, h.posted⟩) (fun _ _ h ↦ h) fun _ h ↦ h

/-- The gates of a flush post nothing. -/
theorem silent_flushGates (onShutdown : Bool) : Silent (flushGates .steps onShutdown) :=
  Calm.silent (calm_flushGates Calls.steps_calm onShutdown)

/-! ### What posts keeps the window -/

/-- The program does not move the window. -/
abbrev Steady (p : Sup α) : Prop := Keeps (fun _ ↦ True) (fun w ↦ w.sup.matchDrainActive) p

theorem coarse_window : Coarse (fun _ ↦ True) fun w ↦ w.sup.matchDrainActive :=
  fun _ _ _ _ hact _ ↦ ⟨trivial, hact⟩

theorem steady_modify {g : World → World}
    (hg : ∀ w, (g w).sup.matchDrainActive = w.sup.matchDrainActive) :
    Steady (Prog.modify g : Sup Unit) := does_modify fun w _ ↦ ⟨trivial, hg w⟩

theorem steady_modify_bind {g : World → World} {k : Unit → Sup β}
    (hg : ∀ w, (g w).sup.matchDrainActive = w.sup.matchDrainActive) (h : Steady (k ())) :
    Steady (Prog.modify g >>= k) := does_modify_bind (fun w _ ↦ ⟨trivial, hg w⟩) h

theorem steady_submit (hit : BlockHit) : Steady (submit hit) :=
  steady_modify_bind (fun _ ↦ rfl) <| does_query_bind fun _ _ ↦
    does_ite (fun _ ↦ steady_modify_bind (fun _ ↦ rfl) trivial) fun _ ↦ trivial

theorem steady_handleOne (draining : Bool) (item : WorkItem) (result : SubmitResult) :
    Steady (handleOne draining item result) := by
  refine does_ite (fun _ ↦ ?_) fun _ ↦ does_ite (fun _ ↦ steady_modify fun _ ↦ rfl) fun _ ↦
    does_ite (fun _ ↦ steady_modify fun _ ↦ rfl) fun _ ↦ ?_
  · refine steady_modify_bind (fun _ ↦ rfl) (steady_modify_bind (fun _ ↦ rfl)
      (does_ite (fun _ ↦ ?_) fun _ ↦ ?_))
    · exact steady_modify_bind (fun _ ↦ rfl) (steady_modify_bind (fun _ ↦ rfl)
        (steady_modify fun _ ↦ rfl))
    · exact steady_modify fun _ ↦ rfl
  · exact does_query_bind fun _ _ ↦ steady_modify_bind (fun _ ↦ rfl) (steady_modify fun _ ↦ rfl)

theorem steady_postAll (onShutdown draining : Bool) (work : List WorkItem) :
    Steady (postAll onShutdown draining work) := by
  induction work with
  | nil => exact trivial
  | cons item rest ih =>
      exact does_get_bind keeps_refl fun _ _ ↦ does_ite (fun _ ↦ trivial) fun _ ↦
        does_bind (steady_submit _) fun _ ↦ does_bind (steady_handleOne _ _ _) fun _ ↦ ih

theorem steady_flushWorker (draining : Bool) (work : List WorkItem) (fuel : Nat) :
    Steady (flushWorker draining work fuel) := by
  induction fuel with
  | zero => exact trivial
  | succ fuel ih =>
      refine does_get_bind keeps_refl fun _ _ ↦ does_ite (fun _ ↦ trivial) fun _ ↦
        does_bind (fun _ _ ↦ ⟨⟨trivial, rfl⟩, trivial⟩) fun i ↦ ?_
      cases work[i]? with
      | none => exact trivial
      | some item =>
          exact does_bind (steady_submit _) fun _ ↦
            does_bind (steady_handleOne _ _ _) fun _ ↦ ih

theorem steady_postWave (onShutdown draining : Bool) (parallel : Int) (work : List WorkItem) :
    Steady (postWave onShutdown draining parallel work) := by
  refine steady_modify_bind (fun _ ↦ rfl) (does_ite (fun _ ↦ steady_postAll _ _ _) fun _ ↦
    does_query_bind fun started _ ↦ does_ite (fun _ ↦ steady_postAll _ _ _) fun _ ↦ ?_)
  refine does_interleaveAll fun p hp ↦ ?_
  rw [List.eq_of_mem_replicate hp]
  exact steady_flushWorker _ _ _

/-- A flush does not move the window. -/
theorem steady_flushBag (onShutdown draining : Bool) : Steady (flushBag onShutdown draining) := by
  refine does_bind (does_flushTarget keeps_refl draining) fun netM ↦
    does_ite (fun _ ↦ trivial) fun _ ↦ ?_
  refine does_get_bind keeps_refl fun _ _ ↦ does_get_bind keeps_refl fun _ _ ↦
    does_get_bind keeps_refl fun _ _ ↦ does_get_bind keeps_refl fun _ _ ↦
    does_get_bind keeps_refl fun _ _ ↦ does_query_bind fun _ _ ↦
    does_get_bind keeps_refl fun _ _ ↦ ?_
  split
  · exact trivial
  · refine does_bind (keeps_selectRows coarse_window ..) fun work ↦ ?_
    split
    · exact steady_modify_bind (fun _ ↦ rfl) trivial
    · exact does_bind (steady_postWave _ _ _ _) fun _ ↦ keeps_settleWave coarse_window _ _ _

end Sup

end XNMiner
