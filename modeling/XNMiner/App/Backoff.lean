import XNMiner.App.Alone
import XNMiner.App.Window

/-!
# The submit backoff

After a `POST` that got no answer, or a wave with no accept, the miner pauses until
`submit_backoff_until_`.  `try_flush_pending` tests that pause only when it is not *draining*,
and it is draining whenever the known difficulty is `bag_target_m()`.  In classic mode
`bag_target_m()` is the known difficulty, so the test is never made there: the bag is posted to a
pool that has just refused (`backoff_ignored_in_classic_mode`).

`backoff_honoured_iff` says of every state exactly when a call during the pause posts nothing.
The call runs alone, with its steps apart.
-/

namespace XNMiner

open Lib Prog

namespace Supervisor

/-- The window after `update_match_drain`. -/
theorem updateMatchDrain_active (s : Supervisor) (now : Rat) :
    (s.updateMatchDrain now).matchDrainActive =
      if s.drainDisabled then false
      else if s.matchDrainActive then !s.windowEnds now else s.windowOpens := by
  unfold updateMatchDrain
  cases hdis : s.drainDisabled <;> cases hact : s.matchDrainActive <;>
    cases hend : s.windowEnds now <;> cases hopen : s.windowOpens <;>
      simp [stopWindow, endWindow, openWindow, hact]

/-- A fetched row that the selection keeps. -/
def Takeable (s : Supervisor) (pb : PendingBlock) : Prop :=
  ∃ hit, chooseRow s.settings true s.bagTargetM true s.miningDifficulty s.bagTargetM pb = .take hit

/-- The rows a draining flush fetches. -/
def fetchedRows (s : Supervisor) (minute : Nat) : List PendingBlock :=
  s.store.listFlushBatch minute s.bagTargetM s.bagTargetM
    (fetchLimit false (waveLimit s.settings false true)) s.flushSkipBeforeId

/-- The flush has a row to post. -/
def HasWork (s : Supervisor) (minutes : Set Nat) : Prop :=
  ∃ minute ∈ minutes, ∃ pb ∈ s.fetchedRows minute, s.Takeable pb

end Supervisor

namespace Sup

variable {ok : ∀ q, Answer q → Prop} {w u : World}

/-! ## What the gates let through -/

/-- What a call may be told: readings of the clock and of the minute; everything else is free. -/
def CallAnswers (clock : Set Rat) (minutes : Set Nat) : ∀ q, Answer q → Prop
  | .clock, t => t ∈ clock
  | .minute, minute => minute ∈ minutes
  | _, _ => True

variable {clock : Set Rat} {minutes : Set Nat}

/-- The state after a `/verify` probe. -/
def probed (s : Supervisor) (alive : Bool) (t : Rat) : Supervisor :=
  { s with verifyAlive := alive, verifyProbeAt := t }

variable (minutes) in
/-- `verify_ready_to_push` can say yes when no fresh probe has said no. -/
theorem ends_verifyReadyToPush (h : ∃ t ∈ clock, readyWithoutProbe t w.sup ≠ some false) :
    ∃ alive t, Ends (CallAnswers clock minutes) w verifyReadyToPush true
      { w with sup := probed w.sup alive t } := by
  obtain ⟨t, ht, hne⟩ := h
  cases hr : readyWithoutProbe t w.sup with
  | some ready =>
      refine ⟨w.sup.verifyAlive, w.sup.verifyProbeAt, ends_query_bind.mpr ⟨t, ht, ?_⟩⟩
      rw [ends_get_bind, hr]
      cases ready with
      | true => exact ends_ret.mpr ⟨rfl, rfl⟩
      | false => exact absurd hr hne
  | none =>
      refine ⟨true, t, ends_query_bind.mpr ⟨t, ht, ?_⟩⟩
      rw [ends_get_bind, hr]
      refine ends_query_bind.mpr ⟨true, trivial, ends_query_bind.mpr ⟨t, ht, ?_⟩⟩
      exact ends_set_bind.mpr (ends_ret.mpr ⟨rfl, rfl⟩)

/-- It says yes only then. -/
theorem of_ends_verifyReadyToPush
    (h : Ends (CallAnswers clock minutes) w verifyReadyToPush true u) :
    (∃ t ∈ clock, readyWithoutProbe t w.sup ≠ some false) ∧
      ∃ alive t, u = { w with sup := probed w.sup alive t } := by
  obtain ⟨t, ht, h⟩ := ends_query_bind.mp h
  rw [ends_get_bind] at h
  cases hr : readyWithoutProbe t w.sup with
  | some ready =>
      rw [hr] at h
      obtain ⟨hready, hu⟩ := ends_ret.mp h
      exact ⟨⟨t, ht, by simp [hr, ← hready]⟩, w.sup.verifyAlive, w.sup.verifyProbeAt, hu⟩
  | none =>
      rw [hr] at h
      obtain ⟨alive, -, h⟩ := ends_query_bind.mp h
      obtain ⟨t', -, h⟩ := ends_query_bind.mp h
      rw [ends_set_bind] at h
      exact ⟨⟨t, ht, by simp [hr]⟩, alive, t', (ends_ret.mp h).2⟩

theorem ends_isDraining {b : Bool} :
    Ends ok w isDraining b u ↔
      b = (w.sup.matchDrainActive || w.sup.oracleSaysM w.sup.bagTargetM) ∧ u = w := by
  unfold isDraining
  rw [ends_get_bind]
  split
  · next h => simp [h]
  · next h => rw [ends_get_bind, ends_get]; simp [h]

/-- A call that is not draining is blocked during the backoff. -/
theorem ends_flushBlocked {draining b : Bool} (hclock : ∀ t ∈ clock, t < w.sup.submitBackoffUntil)
    (hact : draining = false → w.sup.matchDrainActive = false)
    (h : Ends (CallAnswers clock minutes) w (flushBlocked false draining) b u) :
    b = !draining ∧ u = w := by
  unfold flushBlocked at h
  cases draining with
  | true => exact ends_ret.mp h
  | false =>
      obtain ⟨allowed, v, hv, h⟩ := ends_bind.mp h
      obtain ⟨t, ht, hv⟩ := ends_query_bind.mp hv
      obtain ⟨rfl, rfl⟩ := ends_get.mp hv
      obtain ⟨rfl, rfl⟩ := ends_ret.mp h
      refine ⟨?_, rfl⟩
      unfold Supervisor.flushSubmitAllowed
      simp [hact rfl, hclock t ht]

theorem ends_flushDeferred {b : Bool} :
    Ends (CallAnswers clock minutes) w (flushDeferred false) b u ↔
      u = w ∧ if w.sup.forceMineMode then b = false
        else ∃ t ∈ clock, b = decide (t < w.sup.deferSubmitUntil) := by
  unfold flushDeferred
  rw [if_neg (by decide), ends_get_bind]
  split
  · rw [pure_eq, ends_ret, and_comm]
  · rw [ends_query_bind]
    simp only [ends_get]
    constructor
    · rintro ⟨t, ht, rfl, rfl⟩
      exact ⟨rfl, t, ht, rfl⟩
    · rintro ⟨rfl, t, ht, rfl⟩
      exact ⟨t, ht, rfl, rfl⟩

/-! ### The state behind the gates -/

/-- What a flush that is draining reads of the state. -/
structure SameFlush (s s' : Supervisor) : Prop where
  settings : s'.settings = s.settings
  shuttingDown : s'.shuttingDown = s.shuttingDown
  networkDifficulty : s'.networkDifficulty = s.networkDifficulty
  engineDifficulty : s'.engineDifficulty = s.engineDifficulty
  deferSubmitUntil : s'.deferSubmitUntil = s.deferSubmitUntil
  submitBackoffUntil : s'.submitBackoffUntil = s.submitBackoffUntil
  flushSkipBeforeId : s'.matchDrainActive = false → s'.flushSkipBeforeId = s.flushSkipBeforeId
  pending : s'.store.pending = s.store.pending

theorem SameFlush.probed {s s' : Supervisor} {alive : Bool} {t : Rat}
    (h : SameFlush (probed s alive t) s') : SameFlush s s' where
  __ := h

/-- `update_match_drain` leaves that alone unless it opens the window. -/
theorem sameFlush_updateMatchDrain (s : Supervisor) (now : Rat) :
    SameFlush s (s.updateMatchDrain now) := by
  rcases s.updateMatchDrain_cases now with ⟨-, -, h⟩ | ⟨-, -, -, h⟩ | ⟨-, -, -, h⟩ | ⟨-, -, -, h⟩ |
    ⟨-, h⟩
  all_goals rw [h]
  · exact ⟨rfl, rfl, rfl, rfl, rfl, rfl, fun _ ↦ rfl, rfl⟩
  · exact ⟨rfl, rfl, rfl, rfl, rfl, rfl, fun _ ↦ rfl, by simp [Supervisor.endWindow,
      Supervisor.stopWindow]⟩
  · exact ⟨rfl, rfl, rfl, rfl, rfl, rfl, fun _ ↦ rfl, rfl⟩
  · exact ⟨rfl, rfl, rfl, rfl, rfl, rfl, fun hoff ↦ absurd hoff (by simp [Supervisor.openWindow]),
      rfl⟩
  · exact ⟨rfl, rfl, rfl, rfl, rfl, rfl, fun _ ↦ rfl, rfl⟩

namespace SameFlush

variable {s s' : Supervisor}

theorem forceMineMode (h : SameFlush s s') : s'.forceMineMode = s.forceMineMode := by
  simp [Supervisor.forceMineMode, h.settings]

theorem bagTargetM (h : SameFlush s s') : s'.bagTargetM = s.bagTargetM := by
  simp [Supervisor.bagTargetM, Supervisor.forceMineMode, Supervisor.forcedMineM, h.settings,
    h.networkDifficulty]

theorem oracleSaysM (h : SameFlush s s') (m : Int) : s'.oracleSaysM m = s.oracleSaysM m := by
  simp [Supervisor.oracleSaysM, h.networkDifficulty]

theorem miningDifficulty (h : SameFlush s s') : s'.miningDifficulty = s.miningDifficulty := by
  simp [Supervisor.miningDifficulty, Supervisor.forceMineMode, Supervisor.forcedMineM, h.settings,
    h.engineDifficulty]

end SameFlush

/-- What a call has found out when its gates let it through. -/
structure Through (s : Supervisor) (clock : Set Rat) (s' : Supervisor) : Prop where
  enabled : s.bagOnly = false
  ready : ∃ t ∈ clock, readyWithoutProbe t s ≠ some false
  notDeferred : s.forceMineMode = true ∨ ∃ t ∈ clock, s.deferSubmitUntil ≤ t
  updated : ∃ alive t₀, ∃ t ∈ clock, s' = (probed s alive t₀).updateMatchDrain t
  draining : s'.matchDrainActive = true ∨ s'.oracleSaysM s'.bagTargetM = true

/-- **During the backoff the gates let a call through only as draining.** -/
theorem through_of_ends_flushGates {answer : Option Bool}
    (hclock : ∀ t ∈ clock, t < w.sup.submitBackoffUntil)
    (h : Ends (CallAnswers clock minutes) w (flushGates .steps false) answer u) :
    answer = none ∨ answer = some true ∧ Through w.sup clock u.sup := by
  unfold flushGates at h
  rw [ends_get_bind] at h
  split at h
  · exact .inl (ends_ret.mp h).1
  next hbag =>
  obtain ⟨ready, v, hv, h⟩ := ends_bind.mp h
  split at h
  · next hready =>
    subst hready
    obtain ⟨hready, alive, t₀, rfl⟩ := of_ends_verifyReadyToPush hv
    obtain ⟨_, w₁, hw₁, h₁⟩ := ends_bind.mp h
    obtain ⟨t, ht, hw₁⟩ := ends_query_bind.mp hw₁
    have hw₁ := ends_updateMatchDrainSteps.mp hw₁
    have hsame : SameFlush w.sup w₁.sup := hw₁ ▸ (sameFlush_updateMatchDrain _ t).probed
    obtain ⟨draining, w₂, hw₂, h₂⟩ := ends_bind.mp h₁
    obtain ⟨hdraining, hw₂⟩ := ends_isDraining.mp hw₂
    rw [hw₂] at h₂
    obtain ⟨blocked, w₃, hw₃, h₃⟩ := ends_bind.mp h₂
    obtain ⟨hblocked, hw₃⟩ := ends_flushBlocked (by rw [hsame.submitBackoffUntil]; exact hclock)
      (fun hno ↦ (by simpa using hdraining.symm.trans hno : _ ∧ _).1) hw₃
    rw [hw₃, hblocked] at h₃
    cases draining with
    | false => exact .inl (ends_ret.mp h₃).1
    | true =>
        obtain ⟨deferred, w₄, hw₄, h₄⟩ := ends_bind.mp h₃
        obtain ⟨hw₄, hdeferred⟩ := ends_flushDeferred.mp hw₄
        rw [hw₄] at h₄
        cases deferred with
        | true => exact .inl (ends_ret.mp h₄).1
        | false =>
            obtain ⟨hanswer, hu⟩ := ends_ret.mp h₄
            refine .inr ⟨hanswer, by simpa using hbag, hready, ?_,
              ⟨alive, t₀, t, ht, by rw [hu, hw₁]⟩, by simpa [hu] using hdraining.symm⟩
            rw [hsame.forceMineMode, hsame.deferSubmitUntil] at hdeferred
            split at hdeferred
            · next hforce => exact .inl hforce
            · obtain ⟨t', ht', hlt⟩ := hdeferred
              exact .inr ⟨t', ht', by simpa using hlt.symm⟩
  · exact .inl (ends_ret.mp h).1

variable (minutes) in
/-- The gates can let a call through as draining. -/
theorem exists_ends_flushGates {t : Rat} (hbag : w.sup.bagOnly = false)
    (hready : ∃ t ∈ clock, readyWithoutProbe t w.sup ≠ some false) (ht : t ∈ clock)
    (hdefer : w.sup.forceMineMode = true ∨ ∃ t ∈ clock, w.sup.deferSubmitUntil ≤ t)
    (horacle : w.sup.oracleSaysM w.sup.bagTargetM = true) :
    ∃ alive t₀, Ends (CallAnswers clock minutes) w (flushGates .steps false) (some true)
      { w with sup := (probed w.sup alive t₀).updateMatchDrain t } := by
  obtain ⟨alive, t₀, hends⟩ := ends_verifyReadyToPush minutes hready
  have hsame : SameFlush w.sup ((probed w.sup alive t₀).updateMatchDrain t) :=
    (sameFlush_updateMatchDrain _ t).probed
  refine ⟨alive, t₀, ends_get_bind.mpr ?_⟩
  rw [if_neg (by simp [hbag])]
  refine ends_bind.mpr ⟨true, _, hends, ?_⟩
  rw [if_pos rfl]
  refine ends_bind.mpr ⟨(), _, ends_query_bind.mpr ⟨t, ht, ends_updateMatchDrainSteps.mpr rfl⟩, ?_⟩
  refine ends_bind.mpr ⟨true, _, ends_isDraining.mpr ⟨?_, rfl⟩, ?_⟩
  · simp [hsame.bagTargetM, hsame.oracleSaysM, horacle]
  refine ends_bind.mpr ⟨false, _, ends_ret.mpr ⟨rfl, rfl⟩, ?_⟩
  rw [if_neg (by decide)]
  refine ends_bind.mpr ⟨false, _, ends_flushDeferred.mpr ⟨rfl, ?_⟩, ends_ret.mpr ⟨rfl, rfl⟩⟩
  simp only [hsame.forceMineMode, hsame.deferSubmitUntil]
  split
  · trivial
  · next hforce =>
    obtain ⟨t', ht', hle⟩ := hdefer.resolve_left hforce
    exact ⟨t', ht', by simpa using hle⟩

/-! ## The work list -/

/-- `draining` makes the cost of the bag the target. -/
theorem ends_flushTarget {netM : Int} (horacle : w.sup.oracleSaysM w.sup.bagTargetM = true) :
    Ends ok w (flushTarget true) netM u ↔ netM = w.sup.bagTargetM ∧ u = w := by
  unfold flushTarget submitTargetM
  simp only [bind_assoc, ends_get_bind, horacle, if_true, pure_eq, ret_bind, ends_ret,
    (Supervisor.oracleSaysM_iff.mp horacle).1]

theorem chooseRow_of_take {settings : Settings} {draining ready : Bool} {netM miningM bagM : Int}
    {pb : PendingBlock} {hit : BlockHit}
    (h : chooseRow settings draining netM ready miningM bagM pb = .take hit) : ready = true := by
  by_contra hno
  simp only [chooseRow, Bool.not_eq_true] at h hno
  rw [if_pos hno] at h
  cases h

/-- A row that is selected is one the selection keeps. -/
theorem takeable_of_ends_selectRows {wave : Int} {rows : List PendingBlock}
    {acc work : List WorkItem}
    (h : Ends ok w (selectRows w.sup.settings false true w.sup.bagTargetM wave rows acc) work u) :
    work = acc ∨ ∃ pb ∈ rows, w.sup.Takeable pb := by
  induction rows generalizing w acc with
  | nil => exact .inl (ends_ret.mp h).1
  | cons pb rest ih =>
      obtain ⟨minute, -, h⟩ := ends_query_bind.mp h
      rw [ends_get_bind, ends_get_bind] at h
      split at h
      · exact (ih h).imp_right fun ⟨pb', hpb', ht⟩ ↦ ⟨pb', List.mem_cons_of_mem _ hpb', ht⟩
      · exact (ih (ends_set_bind.mp h)).imp_right fun ⟨pb', hpb', ht⟩ ↦
          ⟨pb', List.mem_cons_of_mem _ hpb', ht⟩
      · next hit htake =>
        have hready := chooseRow_of_take htake
        rw [hready] at htake
        exact .inr ⟨pb, List.mem_cons_self, hit, htake⟩

variable (clock) in
/-- A row that the selection keeps can be selected. -/
theorem exists_ends_selectRows (wave : Int) {minute : Nat} {rows : List PendingBlock}
    (acc : List WorkItem) (hminute : minute ∈ minutes)
    (h : acc ≠ [] ∨ ∃ pb ∈ rows, w.sup.Takeable pb ∧
      (readyToFlush minute pb.hit.blockType).1 = true) :
    ∃ work u, work ≠ [] ∧ (∃ store, u = { w with sup := { w.sup with store } }) ∧
      Ends (CallAnswers clock minutes) w
        (selectRows w.sup.settings false true w.sup.bagTargetM wave rows acc) work u := by
  induction rows generalizing w acc with
  | nil => exact ⟨acc, w, by simpa using h, ⟨w.sup.store, rfl⟩, ends_ret.mpr ⟨rfl, rfl⟩⟩
  | cons pb rest ih =>
      -- a row that is not selected is not one of those that are looked for
      have hrest : chooseRow w.sup.settings true w.sup.bagTargetM
          (readyToFlush minute pb.hit.blockType).1 w.sup.miningDifficulty w.sup.bagTargetM pb =
            .skip ∨ chooseRow w.sup.settings true w.sup.bagTargetM
          (readyToFlush minute pb.hit.blockType).1 w.sup.miningDifficulty w.sup.bagTargetM pb =
            .drop → acc ≠ [] ∨ ∃ pb ∈ rest, w.sup.Takeable pb ∧
              (readyToFlush minute pb.hit.blockType).1 = true := by
        intro hno
        refine h.imp_right fun ⟨pb', hpb', ⟨hit, htake⟩, hready⟩ ↦ ⟨pb', ?_, ⟨hit, htake⟩, hready⟩
        refine (List.mem_cons.mp hpb').resolve_left fun heq ↦ ?_
        rw [← heq, hready, htake] at hno
        rcases hno with hno | hno <;> cases hno
      cases hchoice : chooseRow w.sup.settings true w.sup.bagTargetM
          (readyToFlush minute pb.hit.blockType).1 w.sup.miningDifficulty w.sup.bagTargetM pb with
      | skip =>
          obtain ⟨work, u, hne, hu, hends⟩ := ih acc (hrest (.inl hchoice))
          refine ⟨work, u, hne, hu, ends_query_bind.mpr ⟨minute, hminute, ?_⟩⟩
          rw [ends_get_bind, ends_get_bind, hchoice]
          exact hends
      | drop =>
          obtain ⟨work, u, hne, ⟨store, hu⟩, hends⟩ := ih (w := { w with sup := { w.sup with
            store := w.sup.store.exec (.markSubmitted pb.id) } }) acc (hrest (.inr hchoice))
          refine ⟨work, u, hne, ⟨store, hu⟩, ends_query_bind.mpr ⟨minute, hminute, ?_⟩⟩
          rw [ends_get_bind, ends_get_bind, hchoice]
          exact ends_set_bind.mpr hends
      | take hit =>
          by_cases hfull : waveFull false wave (acc ++ [{ id := pb.id, hit }]) = true
          · refine ⟨acc ++ [{ id := pb.id, hit }], w, by simp, ⟨w.sup.store, rfl⟩,
              ends_query_bind.mpr ⟨minute, hminute, ?_⟩⟩
            rw [ends_get_bind, ends_get_bind, hchoice]
            simp only [hfull, if_true]
            exact ends_ret.mpr ⟨rfl, rfl⟩
          · obtain ⟨work, u, hne, hu, hends⟩ := ih
              (acc ++ [{ id := pb.id, hit }]) (.inl (by simp))
            refine ⟨work, u, hne, hu, ends_query_bind.mpr ⟨minute, hminute, ?_⟩⟩
            rw [ends_get_bind, ends_get_bind, hchoice]
            simp only [hfull]
            exact hends

/-! ## Whether a draining flush posts -/

/-- While the miner is stopping, a wave posts nothing. -/
theorem keeps_postWave_stopping (draining : Bool) (parallel : Int) (work : List WorkItem) :
    Keeps (fun w ↦ w.sup.shuttingDown = true) World.posted
      (postWave false draining parallel work) := by
  have hall : Keeps (fun w ↦ w.sup.shuttingDown = true) World.posted
      (postAll false draining work) := by
    cases work with
    | nil => exact trivial
    | cons item rest =>
        refine does_get_bind keeps_refl fun w hw ↦ ?_
        rw [if_pos ⟨hw, rfl⟩]
        exact trivial
  refine does_modify_bind (fun w hw ↦ ⟨hw, rfl⟩) (does_ite (fun _ ↦ hall) fun _ ↦
    does_query_bind fun started _ ↦ does_ite (fun _ ↦ hall) fun _ ↦
      does_interleaveAll fun p hp ↦ ?_)
  rw [List.eq_of_mem_replicate hp]
  refine does_get_bind keeps_refl fun w hw ↦ ?_
  rw [if_pos hw]
  exact trivial

theorem coarse_posted : Coarse (fun w ↦ w.sup.shuttingDown = true) World.posted :=
  fun _ _ _ hdown _ hw ↦ ⟨hdown.trans hw, rfl⟩

/-- A draining flush posts nothing when it has no work, or the miner is stopping. -/
theorem always_flushBag (horacle : w.sup.oracleSaysM w.sup.bagTargetM = true)
    (hno : w.sup.shuttingDown = true ∨ ¬ w.sup.HasWork minutes) :
    Always (CallAnswers clock minutes) w (flushBag false true) (fun v ↦ v.posted = w.posted) := by
  refine always_bind.mpr ⟨Keeps.always (C := fun _ ↦ True) (f := World.posted)
    (does_flushTarget keeps_refl true) trivial fun _ _ h ↦ h, fun netM u hu ↦ ?_⟩
  obtain ⟨rfl, rfl⟩ := (ends_flushTarget horacle).mp hu
  split
  · exact always_ret.mpr rfl
  simp only [always_get_bind, true_and]
  refine always_query_bind.mpr ⟨rfl, fun minute hminute ↦ ?_⟩
  refine always_get_bind.mpr ⟨rfl, ?_⟩
  split
  · exact always_ret.mpr rfl
  refine always_bind.mpr ⟨(keeps_selectRows (C := fun _ ↦ True) (f := World.posted)
    (fun _ _ _ _ _ _ ↦ ⟨trivial, rfl⟩) ..).always trivial fun _ _ h ↦ h, fun work v hv ↦ ?_⟩
  have hkept := (keeps_selectRows (C := fun _ ↦ True) (f := World.posted)
    (fun _ _ _ _ _ _ ↦ ⟨trivial, rfl⟩) ..).of_reaches trivial hv.reaches
  split
  · refine always_step.mpr ⟨hkept.2, fun _ ↦ always_ret.mpr hkept.2⟩
  · next lastItem hlast =>
    -- there is work, so the miner is stopping
    have hstop : u.sup.shuttingDown = true := by
      refine hno.resolve_right fun hwork ↦ hwork ?_
      rcases takeable_of_ends_selectRows hv with hnil | ⟨pb, hpb, htake⟩
      · simp [hnil] at hlast
      · exact ⟨minute, hminute, pb, hpb, htake⟩
    have hstop' : v.sup.shuttingDown = true :=
      ((keeps_selectRows coarse_posted ..).of_reaches hstop hv.reaches).1
    refine Keeps.always (does_bind (keeps_postWave_stopping true _ work) fun _ ↦
      keeps_settleWave coarse_posted _ _ _) hstop' fun z _ hz ↦ hz.trans hkept.2

/-- A wave that has work, and is not stopped, can post it. -/
theorem exists_reaches_postWave (item : WorkItem) (rest : List WorkItem) (parallel : Int)
    (hspawn : ∀ n, ok (.spawn n) 0) (hrun : w.sup.shuttingDown = false) :
    ∃ u, Reaches ok w (postWave false true parallel (item :: rest)) u ∧
      u.posted = w.posted ++ [⟨item.hit.hashStr, w.held⟩] := by
  have hall : Reaches ok { w with wave := {} } (postAll false true (item :: rest))
      { w with
        wave := {}
        posted := w.posted ++ [⟨item.hit.hashStr, w.held⟩] } := by
    refine reaches_get_bind ?_
    rw [if_neg (by simp [hrun])]
    exact reaches_bind.mpr (.inl (reaches_modify_bind reaches_self))
  refine ⟨{ w with
    wave := {}
    posted := w.posted ++ [⟨item.hit.hashStr, w.held⟩] }, reaches_modify_bind ?_, rfl⟩
  split
  · exact hall
  · refine reaches_query_bind (0 : Nat) (hspawn _) ?_
    rw [if_pos (Nat.zero_min _)]
    exact hall

variable (clock) in
/-- A draining flush that has work can post it. -/
theorem exists_reaches_flushBag (horacle : w.sup.oracleSaysM w.sup.bagTargetM = true)
    (hrun : w.sup.shuttingDown = false) (hwork : w.sup.HasWork minutes) :
    ∃ u, Reaches (CallAnswers clock minutes) w (flushBag false true) u ∧
      u.posted ≠ w.posted := by
  obtain ⟨minute, hminute, pb, hpb, htake⟩ := hwork
  have hready : (readyToFlush minute pb.hit.blockType).1 = true := by
    have h := (BlockStore.mem_of_mem_listFlushBatch hpb).2
    simp only [BlockStore.flushable, Bool.and_eq_true] at h
    exact h.2
  obtain ⟨work, v, hne, ⟨store, rfl⟩, hends⟩ := exists_ends_selectRows clock
    (waveLimit w.sup.settings false true) [] hminute (.inr ⟨pb, hpb, htake, hready⟩)
  obtain ⟨item, rest, rfl⟩ := List.exists_cons_of_ne_nil hne
  have hspawn : ∀ n, CallAnswers clock minutes (.spawn n) (0 : Nat) := fun _ ↦ trivial
  obtain ⟨u, hu, hposted⟩ := exists_reaches_postWave
    (w := { w with sup := { w.sup with store } }) item rest
    (Supervisor.bruteDrainParallel w.sup.flushHttpCap w.sup.settings.matchDrainParallel
      w.sup.store.pendingCount) hspawn hrun
  refine ⟨u, reaches_bind.mpr (.inr ⟨_, _, (ends_flushTarget horacle).mpr ⟨rfl, rfl⟩, ?_⟩),
    by simp [hposted]⟩
  rw [if_neg (not_le.mpr (Supervisor.oracleSaysM_iff.mp horacle).1)]
  refine reaches_get_bind (reaches_get_bind (reaches_get_bind (reaches_get_bind
    (reaches_get_bind (reaches_query_bind minute hminute (reaches_get_bind ?_))))))
  split
  · next hnil =>
    rw [List.getLast?_eq_none_iff] at hnil
    rw [Supervisor.fetchedRows, hnil] at hpb
    exact absurd hpb (List.not_mem_nil)
  · refine reaches_bind.mpr (.inr ⟨_, _, hends, ?_⟩)
    split
    · next hnil => simp at hnil
    · exact reaches_bind.mpr (.inl hu)

/-! ## The backoff -/

/-- A call of `try_flush_pending` at these readings of the clock would post although the match
window is closed. -/
structure Exposed (s : Supervisor) (clock : Set Rat) (minutes : Set Nat) : Prop where
  /-- Submitting is switched on. -/
  enabled : s.bagOnly = false
  /-- The miner is not stopping. -/
  running : s.shuttingDown = false
  /-- `/verify` is not known to be down. -/
  ready : ∃ t ∈ clock, readyWithoutProbe t s ≠ some false
  /-- `update_match_drain` leaves the window closed. -/
  closed : ∃ t ∈ clock, (s.updateMatchDrain t).matchDrainActive = false
  /-- The known difficulty is the cost of the bag.  In classic mode that is any difficulty. -/
  oracle : s.oracleSaysM s.bagTargetM = true
  /-- Classic mode: the pause after a difficulty change is over. -/
  notDeferred : s.forceMineMode = true ∨ ∃ t ∈ clock, s.deferSubmitUntil ≤ t
  /-- The bag has a row to post. -/
  work : s.HasWork minutes

theorem SameFlush.hasWork {s s' : Supervisor} (h : SameFlush s s')
    (hoff : s'.matchDrainActive = false) : s'.HasWork minutes ↔ s.HasWork minutes := by
  have hlist (minute : Nat) : s'.fetchedRows minute = s.fetchedRows minute := by
    simp only [Supervisor.fetchedRows, BlockStore.listFlushBatch, BlockStore.flushCap, h.bagTargetM,
      h.settings, h.pending, h.flushSkipBeforeId hoff]
  simp only [Supervisor.HasWork, Supervisor.Takeable, hlist, h.bagTargetM, h.settings,
    h.miningDifficulty]

/-- The window after `update_match_drain` does not depend on a probe. -/
theorem active_probed (s : Supervisor) (alive : Bool) (t₀ t : Rat) :
    ((probed s alive t₀).updateMatchDrain t).matchDrainActive =
      (s.updateMatchDrain t).matchDrainActive := by
  rw [Supervisor.updateMatchDrain_active, Supervisor.updateMatchDrain_active]
  rfl

/-- An exposed call can post. -/
theorem Exposed.exists_post (hex : Exposed w.sup clock minutes) :
    ∃ u, Reaches (CallAnswers clock minutes) w (tryFlushPending .steps false) u ∧
      u.posted ≠ w.posted ∧ u.sup.matchDrainActive = false := by
  obtain ⟨t, ht, hclosed⟩ := hex.closed
  obtain ⟨alive, t₀, hends⟩ := exists_ends_flushGates minutes
    (w := { w with held := [w.sup.networkDifficulty] }) hex.enabled hex.ready ht hex.notDeferred
    hex.oracle
  have hsame : SameFlush w.sup ((probed w.sup alive t₀).updateMatchDrain t) :=
    (sameFlush_updateMatchDrain _ t).probed
  have hoff : ((probed w.sup alive t₀).updateMatchDrain t).matchDrainActive = false :=
    (active_probed ..).trans hclosed
  obtain ⟨u, hu, hposted⟩ := exists_reaches_flushBag clock
    (w := { w with
      sup := (probed w.sup alive t₀).updateMatchDrain t
      held := [w.sup.networkDifficulty] })
    (by rw [hsame.bagTargetM, hsame.oracleSaysM]; exact hex.oracle)
    (by rw [hsame.shuttingDown]; exact hex.running)
    ((hsame.hasWork hoff).mpr hex.work)
  exact ⟨u, reaches_modify_bind (reaches_bind.mpr (.inr ⟨_, _, hends, hu⟩)), hposted,
    ((steady_flushBag false true).of_reaches trivial hu).2.trans hoff⟩

/-- What the gates know of a closed window. -/
theorem Through.oracle {s s' : Supervisor} (h : Through s clock s')
    (hact : s'.matchDrainActive = false) : s'.oracleSaysM s'.bagTargetM = true :=
  h.draining.resolve_left (by simp [hact])

/-- A call that comes through its gates with work, and the window closed, was exposed. -/
theorem Through.exposed {s s' : Supervisor} (h : Through s clock s')
    (hact : s'.matchDrainActive = false) (hrun : s'.shuttingDown = false)
    (hwork : s'.HasWork minutes) : Exposed s clock minutes := by
  obtain ⟨alive, t₀, t, ht, hsup⟩ := h.updated
  have hsame : SameFlush s s' := hsup ▸ (sameFlush_updateMatchDrain _ t).probed
  refine ⟨h.enabled, hsame.shuttingDown ▸ hrun, h.ready, ⟨t, ht, ?_⟩, ?_, h.notDeferred,
    (hsame.hasWork hact).mp hwork⟩
  · rw [← active_probed s alive t₀ t, ← hsup]
    exact hact
  · rw [← hsame.oracleSaysM, ← hsame.bagTargetM]
    exact h.oracle hact

/-- **When the backoff is honoured.**  Take any state and any readings of the clock before
`submit_backoff_until_`.  A call of `try_flush_pending` that runs with them posts nothing unless
the match window is open, if and only if the state is not exposed. -/
theorem backoff_honoured_iff (hclock : ∀ t ∈ clock, t < w.sup.submitBackoffUntil) :
    Always (CallAnswers clock minutes) w (tryFlushPending .steps false)
      (fun u ↦ u.posted = w.posted ∨ u.sup.matchDrainActive = true) ↔
    ¬ Exposed w.sup clock minutes := by
  constructor
  · intro halways hex
    obtain ⟨u, hu, hposted, hoff⟩ := hex.exists_post
    rcases halways u hu with h | h
    · exact hposted h
    · simp [hoff] at h
  · intro hno
    refine always_modify_bind.mpr ⟨.inl rfl, ?_⟩
    refine always_bind.mpr ⟨(silent_flushGates false).always trivial fun _ _ h ↦ Or.inl h,
      fun answer u hu ↦ ?_⟩
    have hposted : u.posted = w.posted :=
      ((silent_flushGates false).of_reaches trivial hu.reaches).2
    rcases through_of_ends_flushGates (w := { w with held := [w.sup.networkDifficulty] }) hclock hu
      with rfl | ⟨rfl, hthrough⟩
    · exact always_ret.mpr (.inl hposted)
    · cases hact : u.sup.matchDrainActive with
      | true =>
          exact (steady_flushBag false true).always trivial fun v _ hv ↦ .inr (hv.trans hact)
      | false =>
          refine fun v hv ↦ .inl ((always_flushBag (hthrough.oracle hact) ?_ v hv).trans hposted)
          by_contra hcon
          obtain ⟨hrun, hwork⟩ := not_or.mp hcon
          exact hno (hthrough.exposed hact (by simpa using hrun) (not_not.mp hwork))

/-! ### A pool that has just refused -/

/-- An XNM row of cost 100. -/
def costHundred : PendingBlock where
  id := 1
  hit := { hashStr := "$argon2id$1", blockType := "XNM", memoryCost := some 100 }
  queueReason := "network_down"

/-- That row is in the bag, a poll has reported difficulty 100, and at second 10 a `POST` got no
answer. -/
def refused (forceM : Int) : World where
  sup :=
    let s : Supervisor := { settings := { Settings.defaults with forceMineMemoryCost := forceM } }
    let s := s.applyDifficulty 100 0 0
    let s := { s with store := s.store.exec (.enqueue "t" costHundred.hit costHundred.queueReason) }
    s.noteSubmitTransportFailure 0 10

theorem refused_clock {forceM : Int} (h : forceM = 0 ∨ forceM = 200) :
    ∀ t ∈ ({11} : Set Rat), t < (refused forceM).sup.submitBackoffUntil := by
  rintro t rfl
  have hbackoff : (refused forceM).sup.submitBackoffUntil = 25 := by
    rcases h with rfl | rfl <;>
      simp [refused, Settings.defaults, Supervisor.noteSubmitTransportFailure,
        Supervisor.transportBackoff, Supervisor.applyDifficulty, Supervisor.forceMineMode,
        Supervisor.networkMatchesHitM, Supervisor.oracleSaysM, Supervisor.forcedMineM,
        acceptNetworkDifficulty] <;> norm_num
  rw [hbackoff]
  norm_num

/-- In classic mode a call one second later is exposed. -/
theorem refused_exposed : Exposed (refused 0).sup {11} {30} := by
  refine ⟨rfl, rfl, ⟨11, rfl, by decide⟩, ⟨11, rfl, by decide⟩, by decide,
    .inr ⟨11, rfl, by decide⟩, 30, rfl, costHundred, ?_, costHundred.hit, by decide⟩
  have hpending : (refused 0).sup.store.pending = [costHundred] := rfl
  refine (sortOn_perm _ _).mem_iff.mpr ((pick_perm _ _ ?_).mem_iff.mpr ?_)
  · rw [hpending]
    decide
  · rw [hpending]
    decide

/-- A refused pool is not left alone in classic mode. -/
theorem backoff_ignored_in_classic_mode :
    ¬ ∀ (w : World) (clock : Set Rat) (minutes : Set Nat),
      (∀ t ∈ clock, t < w.sup.submitBackoffUntil) →
      Always (CallAnswers clock minutes) w (tryFlushPending .steps false)
        (fun u ↦ u.posted = w.posted ∨ u.sup.matchDrainActive = true) := by
  intro hall
  obtain ⟨u, hu, hposted, hoff⟩ := refused_exposed.exists_post
  rcases hall (refused 0) {11} {30} (refused_clock (.inl rfl)) u hu with h | h
  · exact hposted h
  · simp [hoff] at h

/-- A miner pinned to another cost leaves it alone. -/
theorem backoff_honoured_pinned :
    Always (CallAnswers {11} {30}) (refused 200) (tryFlushPending .steps false)
      (fun u ↦ u.posted = (refused 200).posted ∨ u.sup.matchDrainActive = true) :=
  (backoff_honoured_iff (refused_clock (.inr rfl))).mpr fun h ↦ absurd h.oracle (by decide)

end Sup

end XNMiner
