import XNMiner.App.MatchWindow
import XNMiner.Queue.StoreInv
import XNMiner.Lib.Lts

/-!
# The life of a match window

In hybrid mode the miner flushes its bag while the difficulty is the pinned one: the *match
window*.  Its state changes only in `update_match_drain`, which also ends every successful
`refresh_network`.  Here these calls, the outcomes of a submit and the operations of the store
are the atomic steps of a transition system, and a ghost clock remembers when the window was
opened.

The window is open only while the known difficulty is the pinned one (`WindowInv`), and it
closes only for the reasons it is meant to close for (`window_lifecycle`).  But it counts rows
that it cannot flush: an XUNI row outside its minutes keeps the window open, and CUDA parked,
with nothing to submit (`parked_only_with_work`).
-/

namespace XNMiner

open Lib

namespace Supervisor

/-! ## What `update_match_drain` does -/

/-- **Everything `update_match_drain` can do.** -/
theorem updateMatchDrain_cases (s : Supervisor) (now : Rat) :
    (s.drainDisabled = true ∧ s.matchDrainActive = true ∧ s.updateMatchDrain now = s.stopWindow) ∨
    (s.drainDisabled = false ∧ s.matchDrainActive = true ∧ s.windowEnds now = true ∧
      s.updateMatchDrain now = s.endWindow) ∨
    (s.drainDisabled = false ∧ s.matchDrainActive = true ∧ s.windowEnds now = false ∧
      s.updateMatchDrain now = s) ∨
    (s.drainDisabled = false ∧ s.matchDrainActive = false ∧ s.windowOpens = true ∧
      s.updateMatchDrain now = s.openWindow now) ∨
    (s.matchDrainActive = false ∧ s.updateMatchDrain now = s) := by
  unfold updateMatchDrain
  cases hdis : s.drainDisabled <;> cases hact : s.matchDrainActive <;>
    cases hend : s.windowEnds now <;> cases hopen : s.windowOpens <;> simp

@[simp] theorem updateMatchDrain_settings (s : Supervisor) (now : Rat) :
    (s.updateMatchDrain now).settings = s.settings := by
  rcases s.updateMatchDrain_cases now with ⟨-, -, h⟩ | ⟨-, -, -, h⟩ | ⟨-, -, -, h⟩ | ⟨-, -, -, h⟩ |
    ⟨-, h⟩ <;> rw [h] <;> rfl

@[simp] theorem updateMatchDrain_networkDifficulty (s : Supervisor) (now : Rat) :
    (s.updateMatchDrain now).networkDifficulty = s.networkDifficulty := by
  rcases s.updateMatchDrain_cases now with ⟨-, -, h⟩ | ⟨-, -, -, h⟩ | ⟨-, -, -, h⟩ | ⟨-, -, -, h⟩ |
    ⟨-, h⟩ <;> rw [h] <;> rfl

@[simp] theorem updateMatchDrain_pending (s : Supervisor) (now : Rat) :
    (s.updateMatchDrain now).store.pending = s.store.pending := by
  rcases s.updateMatchDrain_cases now with ⟨-, -, h⟩ | ⟨-, -, -, h⟩ | ⟨-, -, -, h⟩ | ⟨-, -, -, h⟩ |
    ⟨-, h⟩ <;> rw [h] <;> simp [stopWindow, endWindow, openWindow]

@[simp] theorem updateMatchDrain_liveSubmitQ (s : Supervisor) (now : Rat) :
    (s.updateMatchDrain now).liveSubmitQ = s.liveSubmitQ := by
  rcases s.updateMatchDrain_cases now with ⟨-, -, h⟩ | ⟨-, -, -, h⟩ | ⟨-, -, -, h⟩ | ⟨-, -, -, h⟩ |
    ⟨-, h⟩ <;> rw [h] <;> rfl

end Supervisor

/-! ## The transition system -/

/-- An atomic step of the life of a window.  A step that ends in `update_match_drain` carries
the minute of the hour it is taken in. -/
inductive WindowAct where
  | refresh (blocking : Bool) (st : NetworkStatus) (t₁ t₂ t₃ : Rat) (minute : Nat)
  | update (now : Rat) (minute : Nat)
  | transportFailure (status : Int) (t : Rat)
  | accepted
  | zeroAccepts (draining : Bool) (t : Rat) (lastId : Int)
  | storeOp (op : BlockStore.Op)

namespace Supervisor

/-- Take a step. -/
def execWindow (s : Supervisor) : WindowAct → Supervisor
  | .refresh blocking st t₁ t₂ t₃ _ => (s.refreshNetwork blocking st t₁ t₂ t₃).2
  | .update now _ => s.updateMatchDrain now
  | .transportFailure status t => s.noteSubmitTransportFailure status t
  | .accepted => s.noteAccepted
  | .zeroAccepts draining t lastId => s.noteZeroAccepts draining t lastId
  | .storeOp op => { s with store := s.store.exec op }

end Supervisor

/-- The clock reading the step gives to `update_match_drain`. -/
def WindowAct.clock : WindowAct → Rat
  | .refresh _ _ _ _ t₃ _ => t₃
  | .update now _ => now
  | _ => 0

/-- The number a poll in this step reported, if it did. -/
def WindowAct.reported : WindowAct → Option Int
  | .refresh _ st _ _ _ _ => st.difficulty
  | _ => none

/-- A failed poll or a failed submit. -/
def WindowAct.fails : WindowAct → Bool
  | .refresh _ st _ _ _ _ => st.difficulty.isNone
  | .transportFailure .. => true
  | _ => false

/-- The supervisor, and a ghost that remembers when the window was last opened. -/
structure Window where
  sup : Supervisor
  openedAt : Rat := 0

/-- The minute in which the step runs `update_match_drain`, if it does. -/
def WindowAct.updates (s : Supervisor) : WindowAct → Option Nat
  | .update _ minute => some minute
  | .refresh blocking st _ _ _ minute =>
      if s.staleSnapshot blocking st || st.difficulty.isNone then none else some minute
  | _ => none

namespace Window

/-- One step. -/
def Step (w : Window) (a : WindowAct) (w' : Window) : Prop :=
  w'.sup = w.sup.execWindow a ∧
    w'.openedAt = if w.sup.matchDrainActive = false ∧ w'.sup.matchDrainActive = true then a.clock
      else w.openedAt

/-- In an open window the settings allow it, the known difficulty is the pinned one, and the
time limit counts from when it was opened. -/
structure WindowInv (w : Window) : Prop where
  enabled : w.sup.matchDrainActive = true → w.sup.drainDisabled = false
  pinned : w.sup.matchDrainActive = true → w.sup.networkDifficulty = some w.sup.forcedMineM
  limit : w.sup.matchDrainActive = true → 0 < w.sup.settings.matchDrainMaxS →
    w.sup.matchDrainUntil = w.openedAt + w.sup.settings.matchDrainMaxS

/-- A step that does not open the window and changes nothing the invariant is about keeps it. -/
theorem WindowInv.of_frame {w w' : Window} (h : WindowInv w)
    (hact : w'.sup.matchDrainActive = true → w.sup.matchDrainActive = true)
    (hset : w'.sup.settings = w.sup.settings)
    (hnet : w'.sup.networkDifficulty = w.sup.networkDifficulty)
    (huntil : w'.sup.matchDrainUntil = w.sup.matchDrainUntil) (hat : w'.openedAt = w.openedAt) :
    WindowInv w' where
  enabled ha := by
    have := h.enabled (hact ha)
    simpa [Supervisor.drainDisabled, Supervisor.bagOnly, Supervisor.forceMineMode, hset] using this
  pinned ha := by
    have := h.pinned (hact ha)
    simpa [Supervisor.forcedMineM, hset, hnet] using this
  limit ha hmax := by
    rw [huntil, hat, hset]
    exact h.limit (hact ha) (hset ▸ hmax)

/-- `bag_target_m` is the pinned cost where the window can be open. -/
theorem bagTargetM_of_enabled {s : Supervisor} (h : s.drainDisabled = false) :
    s.bagTargetM = s.forcedMineM ∧ 0 < s.forcedMineM := by
  simp only [Supervisor.drainDisabled, Bool.or_eq_false_iff, Bool.not_eq_false',
    Supervisor.forceMineMode, decide_eq_true_eq] at h
  simp [Supervisor.bagTargetM, Supervisor.forceMineMode, Supervisor.forcedMineM, h.2]

/-- `update_match_drain` makes the invariant true where an open window matches or is about to
be closed because the difficulty has left. -/
theorem windowInv_update {s : Supervisor} {opened now : Rat} {w' : Window}
    (henabled : s.matchDrainActive = true → s.drainDisabled = false)
    (hpinned : s.matchDrainActive = true →
      s.networkDifficulty = some s.forcedMineM ∨ s.oracleLeftM s.bagTargetM = true)
    (hlimit : s.matchDrainActive = true → 0 < s.settings.matchDrainMaxS →
      s.matchDrainUntil = opened + s.settings.matchDrainMaxS)
    (hsup : w'.sup = s.updateMatchDrain now)
    (hopened : w'.openedAt =
      if s.matchDrainActive = false ∧ w'.sup.matchDrainActive = true then now else opened) :
    WindowInv w' := by
  rcases s.updateMatchDrain_cases now with ⟨hdis, hact, -⟩ | ⟨-, -, -, h⟩ | ⟨hdis, hact, hend, h⟩ |
    ⟨hdis, hact, hopen, h⟩ | ⟨hact, h⟩
  · exact absurd (henabled hact) (by simp [hdis])
  · have hoff : w'.sup.matchDrainActive = false := by rw [hsup, h]; rfl
    exact ⟨by simp [hoff], by simp [hoff], by simp [hoff]⟩
  · rw [h] at hsup
    have hat : w'.openedAt = opened := by simpa [hact] using hopened
    have hstay : s.oracleLeftM s.bagTargetM = false := by
      simp only [Supervisor.windowEnds, Bool.or_eq_false_iff] at hend
      exact hend.2
    refine ⟨by rw [hsup]; exact henabled, fun _ ↦ ?_, fun _ hmax ↦ ?_⟩
    · rw [hsup]
      exact (hpinned hact).resolve_right (by simp [hstay])
    · rw [hsup, hat]
      exact hlimit hact (hsup ▸ hmax)
  · have hon : w'.sup.matchDrainActive = true := by rw [hsup, h]; rfl
    have hat : w'.openedAt = now := by simpa [hact, hon] using hopened
    obtain ⟨hbag, -⟩ := bagTargetM_of_enabled hdis
    have hforced : s.networkDifficulty = some s.forcedMineM := by
      simp only [Supervisor.windowOpens, Bool.and_eq_true] at hopen
      exact hbag ▸ (Supervisor.oracleSaysM_iff.mp hopen.1).2
    rw [h] at hsup
    refine ⟨fun _ ↦ by rw [hsup]; exact hdis, fun _ ↦ by rw [hsup]; exact hforced, fun _ hmax ↦ ?_⟩
    rw [hsup] at hmax ⊢
    rw [hat]
    exact if_pos hmax
  · have hoff : w'.sup.matchDrainActive = false := by rw [hsup, h]; exact hact
    exact ⟨by simp [hoff], by simp [hoff], by simp [hoff]⟩

/-- What a successful poll leaves of an open window: it matches, or it has left. -/
theorem pinned_or_left (s : Supervisor) (raw : Int) (t₁ t₂ : Rat) (h : s.drainDisabled = false) :
    (s.applyDifficulty raw t₁ t₂).networkDifficulty = some s.forcedMineM ∨
      (s.applyDifficulty raw t₁ t₂).oracleLeftM (s.applyDifficulty raw t₁ t₂).bagTargetM =
        true := by
  obtain ⟨hbag, hpos⟩ : (s.applyDifficulty raw t₁ t₂).bagTargetM = s.forcedMineM ∧
      0 < s.forcedMineM := bagTargetM_of_enabled (s := s.applyDifficulty raw t₁ t₂) h
  by_cases hd : acceptNetworkDifficulty raw (s.networkDifficulty.getD s.settings.memoryCost) =
      s.forcedMineM
  · exact .inl (congrArg some hd)
  · refine .inr (Supervisor.oracleLeftM_iff.mpr ⟨hbag ▸ hpos, rfl, _,
      acceptNetworkDifficulty_pos _ _, rfl, hbag ▸ hd⟩)

/-- The step relation of a step that does not open a window. -/
theorem Step.opened_of_not_opens {w w' : Window} {a : WindowAct} (hs : Step w a w')
    (h : w'.sup.matchDrainActive = w.sup.matchDrainActive) : w'.openedAt = w.openedAt := by
  rw [hs.2, if_neg]
  rintro ⟨h₁, h₂⟩
  rw [h, h₁] at h₂
  exact absurd h₂ (by simp)

/-- **Every step keeps the invariant.** -/
theorem WindowInv.step {w w' : Window} {a : WindowAct} (h : WindowInv w) (hs : Step w a w') :
    WindowInv w' := by
  obtain ⟨hsup, hat⟩ := id hs
  -- a step that leaves the fields of the invariant alone
  have hframe : w'.sup.settings = w.sup.settings →
      w'.sup.networkDifficulty = w.sup.networkDifficulty →
      w'.sup.matchDrainActive = w.sup.matchDrainActive →
      w'.sup.matchDrainUntil = w.sup.matchDrainUntil → WindowInv w' := fun h₁ h₂ h₃ h₄ ↦
    h.of_frame (fun ha ↦ h₃ ▸ ha) h₁ h₂ h₄ (hs.opened_of_not_opens h₃)
  cases a with
  | update now minute =>
      exact windowInv_update h.enabled (fun ha ↦ .inl (h.pinned ha)) h.limit hsup hat
  | transportFailure status t => apply hframe <;> rw [hsup] <;> rfl
  | accepted => apply hframe <;> rw [hsup] <;> rfl
  | zeroAccepts draining t lastId => apply hframe <;> rw [hsup] <;> rfl
  | storeOp op => apply hframe <;> rw [hsup] <;> rfl
  | refresh blocking st t₁ t₂ t₃ minute =>
      simp only [Supervisor.execWindow, Supervisor.refreshNetwork] at hsup
      split at hsup
      · apply hframe <;> rw [hsup]
      · split at hsup
        · next raw _ =>
          -- the poll gave a number: `update_match_drain` runs on the state it leaves
          exact windowInv_update (s := (w.sup.noteSeq st).applyDifficulty raw t₁ t₂) h.enabled
            (fun ha ↦ pinned_or_left (w.sup.noteSeq st) raw t₁ t₂ (h.enabled ha)) h.limit hsup hat
        · apply hframe <;> rw [hsup] <;> rfl

/-! ## Why a window closes -/

/-- `update_match_drain` closes an open window only for one of its three reasons. -/
theorem closes_of_update {s : Supervisor} {now : Rat} (hen : s.drainDisabled = false)
    (hact : s.matchDrainActive = true)
    (hoff : (s.updateMatchDrain now).matchDrainActive = false) : s.windowEnds now = true := by
  by_contra hend
  rw [Bool.not_eq_true] at hend
  have hstay : s.updateMatchDrain now = s := by
    simp [Supervisor.updateMatchDrain, hen, hact, hend]
  rw [hstay, hact] at hoff
  exact absurd hoff (by simp)

/-- The reasons, read in the state before: the difficulty has left, no row of the pinned cost is
left, or the time is up. -/
theorem windowEnds_iff {s : Supervisor} {now : Rat} (hen : s.drainDisabled = false) :
    s.windowEnds now = true ↔
      (s.networkDifficulty = some s.forcedMineM ∧
        ∀ pb ∈ s.store.pending, BlockStore.rowCost s.forcedMineM s.forcedMineM pb ≠ s.forcedMineM) ∨
      s.windowTimedOut now = true ∨ s.oracleLeftM s.forcedMineM = true := by
  obtain ⟨hbag, hpos⟩ := bagTargetM_of_enabled hen
  simp only [Supervisor.windowEnds, Supervisor.bagQ, hbag, Bool.or_eq_true, Bool.and_eq_true,
    Supervisor.oracleSaysM_iff, hpos, true_and, decide_eq_true_eq, BlockStore.pendingMatchingM,
    List.countP_eq_zero, or_assoc]

/-- An open window that `update_match_drain` closes: no row of the pinned cost is left, the time is
up, or the difficulty has left. -/
theorem reasons_of_update {s : Supervisor} {now : Rat} (hen : s.drainDisabled = false)
    (hact : s.matchDrainActive = true)
    (hoff : (s.updateMatchDrain now).matchDrainActive = false) :
    (∀ pb ∈ (s.updateMatchDrain now).store.pending,
        BlockStore.rowCost s.forcedMineM s.forcedMineM pb ≠ s.forcedMineM) ∨
      (0 < s.settings.matchDrainMaxS ∧ s.matchDrainUntil ≤ now) ∨
      s.oracleLeftM s.forcedMineM = true := by
  rcases (windowEnds_iff hen).mp (closes_of_update hen hact hoff) with
    ⟨-, hclear⟩ | htime | hleft
  · left
    rw [Supervisor.updateMatchDrain_pending]
    exact hclear
  · right; left
    simp only [Supervisor.windowTimedOut, decide_eq_true_eq] at htime
    exact ⟨htime.1, htime.2.2⟩
  · exact .inr (.inr hleft)

/-- An accepted number that is not the known one was reported as it is. -/
theorem eq_raw_of_accept_ne {raw m : Int} (h : acceptNetworkDifficulty raw m ≠ m) (hm : 0 < m) :
    acceptNetworkDifficulty raw m = raw := by
  unfold acceptNetworkDifficulty at *
  split at h
  · exact absurd rfl h
  · split at h
    · exact absurd rfl h
    · next h₁ h₂ => rw [if_neg h₁, if_neg h₂]

/-- Why an open window is closed: another difficulty was reported, no row of the pinned cost is
left, or its time is up. -/
def ClosedFor (w : Window) (a : WindowAct) (w' : Window) : Prop :=
  (∃ raw, a.reported = some raw ∧ raw ≠ w.sup.forcedMineM ∧
    w'.sup.networkDifficulty = some raw) ∨
  (∀ pb ∈ w'.sup.store.pending,
    BlockStore.rowCost w.sup.forcedMineM w.sup.forcedMineM pb ≠ w.sup.forcedMineM) ∨
  (0 < w.sup.settings.matchDrainMaxS ∧
    w.openedAt + w.sup.settings.matchDrainMaxS ≤ a.clock)

/-- **An open window is closed only for a reason.** -/
theorem WindowInv.closedFor {w w' : Window} {a : WindowAct} (h : WindowInv w) (hs : Step w a w')
    (hact : w.sup.matchDrainActive = true) (hoff : w'.sup.matchDrainActive = false) :
    ClosedFor w a w' := by
  obtain ⟨hsup, -⟩ := hs
  have hlimit := h.limit hact
  cases a with
  | update now minute =>
      change w'.sup = w.sup.updateMatchDrain now at hsup
      rw [hsup] at hoff
      rcases reasons_of_update (h.enabled hact) hact hoff with hclear | ⟨hmax, htime⟩ | hleft
      · right; left
        rw [hsup]
        exact hclear
      · right; right
        exact ⟨hmax, hlimit hmax ▸ htime⟩
      · obtain ⟨-, -, d, -, hd, hne⟩ := Supervisor.oracleLeftM_iff.mp hleft
        exact absurd (Option.some.inj (hd.symm.trans (h.pinned hact))) hne
  | transportFailure status t =>
      rw [hsup] at hoff
      exact absurd (hact.symm.trans hoff) (by simp)
  | accepted =>
      rw [hsup] at hoff
      exact absurd (hact.symm.trans hoff) (by simp)
  | zeroAccepts draining t lastId =>
      rw [hsup] at hoff
      exact absurd (hact.symm.trans hoff) (by simp)
  | storeOp op =>
      rw [hsup] at hoff
      exact absurd (hact.symm.trans hoff) (by simp)
  | refresh blocking st t₁ t₂ t₃ minute =>
      simp only [Supervisor.execWindow, Supervisor.refreshNetwork] at hsup
      split at hsup
      · rw [hsup] at hoff
        exact absurd (hact.symm.trans hoff) (by simp)
      · split at hsup
        · next raw hraw =>
          -- `s₁` is the state `update_match_drain` runs on
          let s₁ := (w.sup.noteSeq st).applyDifficulty raw t₁ t₂
          have hen : s₁.drainDisabled = false := h.enabled hact
          change w'.sup = s₁.updateMatchDrain t₃ at hsup
          rw [hsup] at hoff
          rcases reasons_of_update hen hact hoff with hclear | ⟨hmax, htime⟩ | hleft
          · right; left
            rw [hsup]
            exact hclear
          · right; right
            exact ⟨hmax, hlimit hmax ▸ htime⟩
          · left
            obtain ⟨hpos, -, d, -, hd, hne⟩ := Supervisor.oracleLeftM_iff.mp hleft
            have hfall : w.sup.networkDifficulty.getD w.sup.settings.memoryCost =
                w.sup.forcedMineM := by rw [h.pinned hact]; rfl
            have hdiff : s₁.networkDifficulty =
                some (acceptNetworkDifficulty raw w.sup.forcedMineM) :=
              congrArg (fun f ↦ some (acceptNetworkDifficulty raw f)) hfall
            obtain rfl : d = acceptNetworkDifficulty raw w.sup.forcedMineM :=
              Option.some.inj (hd.symm.trans hdiff)
            have hraw' := eq_raw_of_accept_ne hne hpos
            refine ⟨raw, hraw, hraw' ▸ hne, ?_⟩
            rw [hsup, Supervisor.updateMatchDrain_networkDifficulty, hdiff, hraw']
        · rw [hsup] at hoff
          exact absurd (hact.symm.trans hoff) (by simp)

/-- The known difficulty changes only when a poll reports a number. -/
theorem Step.networkDifficulty_eq {w w' : Window} {a : WindowAct} (hs : Step w a w')
    (h : a.reported = none) : w'.sup.networkDifficulty = w.sup.networkDifficulty := by
  obtain ⟨hsup, -⟩ := hs
  cases a with
  | update now minute => rw [hsup]; exact w.sup.updateMatchDrain_networkDifficulty now
  | transportFailure status t => rw [hsup]; rfl
  | accepted => rw [hsup]; rfl
  | zeroAccepts draining t lastId => rw [hsup]; rfl
  | storeOp op => rw [hsup]; rfl
  | refresh blocking st t₁ t₂ t₃ minute =>
      change st.difficulty = none at h
      simp only [Supervisor.execWindow, Supervisor.refreshNetwork, h] at hsup
      split at hsup <;> simp [hsup, Supervisor.applyPollFailure, Supervisor.noteSeq]

/-- Failed polls and failed submits leave a window as it is. -/
theorem Step.active_eq_of_fails {w w' : Window} {a : WindowAct} (hs : Step w a w')
    (h : a.fails = true) : w'.sup.matchDrainActive = w.sup.matchDrainActive := by
  obtain ⟨hsup, -⟩ := hs
  cases a with
  | update now minute => exact absurd h (by simp [WindowAct.fails])
  | transportFailure status t => rw [hsup]; rfl
  | accepted => exact absurd h (by simp [WindowAct.fails])
  | zeroAccepts draining t lastId => exact absurd h (by simp [WindowAct.fails])
  | storeOp op => exact absurd h (by simp [WindowAct.fails])
  | refresh blocking st t₁ t₂ t₃ minute =>
      have hnone : st.difficulty = none := by simpa [WindowAct.fails] using h
      simp only [Supervisor.execWindow, Supervisor.refreshNetwork, hnone] at hsup
      split at hsup <;> simp [hsup, Supervisor.applyPollFailure, Supervisor.noteSeq]

/-- The invariant holds in every reachable state. -/
theorem windowInv_of_run {w₀ w : Window} {as : List WindowAct} (hrun : Run Step w₀ as w)
    (hstart : w₀.sup.matchDrainActive = false) : WindowInv w := by
  refine hrun.preserves (fun s a t h hs ↦ WindowInv.step h hs) ?_
  exact ⟨by simp [hstart], by simp [hstart], by simp [hstart]⟩

/-- **The life of a match window**, in every state reachable from one with the window closed.
An open window means that submitting and the window are enabled and the known difficulty is the
pinned one.  The next step closes it only for a reason, and changes the known difficulty only
if it is a poll that reported a number; and no run of failed polls and failed submits closes
it. -/
theorem window_lifecycle {w₀ w : Window} {as : List WindowAct} (hrun : Run Step w₀ as w)
    (hstart : w₀.sup.matchDrainActive = false) :
    (w.sup.matchDrainActive = true → w.sup.settings.submitEnabled = true ∧
      w.sup.settings.matchDrainEnabled = true ∧ 0 < w.sup.settings.forceMineMemoryCost ∧
      w.sup.networkDifficulty = some w.sup.settings.forceMineMemoryCost) ∧
    (∀ a w', Step w a w' →
      (w.sup.matchDrainActive = true → w'.sup.matchDrainActive = false → ClosedFor w a w') ∧
      (w'.sup.networkDifficulty ≠ w.sup.networkDifficulty → ∃ raw, a.reported = some raw)) ∧
    (∀ bs w', Run Step w bs w' → (∀ a ∈ bs, a.fails = true) →
      w'.sup.matchDrainActive = w.sup.matchDrainActive) := by
  have hinv := windowInv_of_run hrun hstart
  refine ⟨fun hact ↦ ?_, fun a w' hs ↦ ⟨hinv.closedFor hs, fun hne ↦ ?_⟩, fun bs w' hbs hall ↦ ?_⟩
  · have hen := hinv.enabled hact
    simp only [Supervisor.drainDisabled, Supervisor.bagOnly, Supervisor.forceMineMode,
      Bool.or_eq_false_iff, Bool.not_eq_false', decide_eq_true_eq] at hen
    exact ⟨hen.1.1, hen.1.2, hen.2, hinv.pinned hact⟩
  · cases hrep : a.reported with
    | none => exact absurd (hs.networkDifficulty_eq hrep) hne
    | some raw => exact ⟨raw, rfl⟩
  · clear hrun hinv
    induction hbs with
    | nil => rfl
    | cons hs _ ih =>
        rw [ih fun b hb ↦ hall b (List.mem_cons_of_mem _ hb)]
        exact hs.active_eq_of_fails (hall _ List.mem_cons_self)

/-- A hybrid run: a block is queued, the pinned difficulty is reported and the window opens; no
failures close it. -/
theorem window_lifecycle_pinned :
    let w₀ : Window := { sup := { settings := { forceMineMemoryCost := 100 } } }
    let w₁ : Window := { sup := w₀.sup.execWindow (.storeOp (.enqueue "t" { hashStr := "h" } "r")) }
    let w₂ : Window := ⟨w₁.sup.execWindow
      (.refresh false { ok := true, difficulty := some 100, seq := 1 } 10 10 10 30), 10⟩
    w₂.sup.matchDrainActive = true ∧ w₂.sup.networkDifficulty = some 100 ∧
      ∀ bs w', Run Step w₂ bs w' → (∀ a ∈ bs, a.fails = true) → w'.sup.matchDrainActive = true := by
  intro w₀ w₁ w₂
  have hrun : Run Step w₀ [.storeOp (.enqueue "t" { hashStr := "h" } "r"),
      .refresh false { ok := true, difficulty := some 100, seq := 1 } 10 10 10 30] w₂ :=
    .cons ⟨rfl, rfl⟩ (.single ⟨rfl, rfl⟩)
  obtain ⟨hopen, -, hfail⟩ := window_lifecycle hrun rfl
  have hact : w₂.sup.matchDrainActive = true := rfl
  exact ⟨hact, (hopen hact).2.2.2, fun bs w' hbs hall ↦ (hfail bs w' hbs hall).trans hact⟩

/-! ## What a window counts, and what it can flush -/

/-- The pinned cost. -/
def pinnedM (w : Window) : Int := w.sup.settings.forceMineMemoryCost

/-- The rows that can be submitted in this minute while the window is open:
`list_flush_batch(m, m, 0, 0)`. -/
def canFlush (w : Window) (minute : Nat) : List PendingBlock :=
  w.sup.store.listFlushBatch minute w.pinnedM w.pinnedM 0 0

/-- The rows of the pinned cost include one that is no XUNI, or this is a minute for XUNI, or
there are no rows of the pinned cost. -/
def Covered (w : Window) (minute : Nat) : Prop :=
  inXuniSubmitWindow minute = true ∨
  (∃ pb ∈ w.sup.store.pending, BlockStore.rowCost w.pinnedM w.pinnedM pb = w.pinnedM ∧
    upper pb.hit.blockType ≠ "XUNI") ∨
  ∀ pb ∈ w.sup.store.pending, BlockStore.rowCost w.pinnedM w.pinnedM pb ≠ w.pinnedM

/-- The steps that run `update_match_drain` only on a covered bag. -/
def CoveredStep (w : Window) (a : WindowAct) : Prop :=
  ∀ minute, a.updates w.sup = some minute → w.Covered minute

/-- A window that `update_match_drain` leaves open has a row of the pinned cost. -/
theorem exists_row_of_update {s : Supervisor} {now : Rat}
    (hpinned : s.matchDrainActive = true → s.drainDisabled = false ∧
      (s.networkDifficulty = some s.forcedMineM ∨ s.oracleLeftM s.bagTargetM = true))
    (hon : (s.updateMatchDrain now).matchDrainActive = true) :
    ∃ pb ∈ s.store.pending,
      BlockStore.rowCost s.forcedMineM s.forcedMineM pb = s.forcedMineM := by
  have hpos : s.drainDisabled = false → 0 < s.bagQ → ∃ pb ∈ s.store.pending,
      BlockStore.rowCost s.forcedMineM s.forcedMineM pb = s.forcedMineM := by
    intro hen hq
    obtain ⟨hbag, -⟩ := bagTargetM_of_enabled hen
    simpa [Supervisor.bagQ, hbag, BlockStore.pendingMatchingM, List.countP_pos_iff] using hq
  rcases s.updateMatchDrain_cases now with ⟨hdis, hact, -⟩ | ⟨-, -, -, h⟩ | ⟨hen, hact, hend, -⟩ |
    ⟨hen, -, hopen, -⟩ | ⟨hact, h⟩
  · exact absurd (hpinned hact).1 (by simp [hdis])
  · rw [h] at hon
    exact absurd hon (by simp [Supervisor.endWindow, Supervisor.stopWindow])
  · -- the window stays open: the known difficulty is the pinned one, so the bag is not clear
    refine hpos hen ?_
    simp only [Supervisor.windowEnds, Bool.or_eq_false_iff, Bool.and_eq_false_iff,
      decide_eq_false_iff_not] at hend
    obtain ⟨⟨hclear, -⟩, hstay⟩ := hend
    have hnet := (hpinned hact).2.resolve_right (by simp [hstay])
    obtain ⟨hbag, hm⟩ := bagTargetM_of_enabled hen
    have hforced : s.oracleSaysM s.bagTargetM = true :=
      Supervisor.oracleSaysM_iff.mpr (hbag ▸ ⟨hm, hnet⟩)
    have := hclear.resolve_left (by simp [hforced])
    omega
  · refine hpos hen ?_
    simp only [Supervisor.windowOpens, Bool.and_eq_true, decide_eq_true_eq] at hopen
    have hmin := s.settings.one_le_matchDrainMinQueue
    have hq : s.matchQ = s.bagQ := by simp [Supervisor.matchQ, hopen.1]
    omega
  · rw [h, hact] at hon
    exact absurd hon (by simp)

/-- A step that leaves a window open in `update_match_drain` leaves a row of the pinned cost, in
the bag it found. -/
theorem WindowInv.exists_row {w w' : Window} {a : WindowAct} {minute : Nat} (h : WindowInv w)
    (hs : Step w a w') (hupd : a.updates w.sup = some minute)
    (hon : w'.sup.matchDrainActive = true) :
    w'.sup.store.pending = w.sup.store.pending ∧ w'.pinnedM = w.pinnedM ∧
      ∃ pb ∈ w.sup.store.pending,
        BlockStore.rowCost w.pinnedM w.pinnedM pb = w.pinnedM := by
  obtain ⟨hsup, -⟩ := hs
  cases a with
  | update now m =>
      change w'.sup = w.sup.updateMatchDrain now at hsup
      refine ⟨by simp [hsup], by simp [pinnedM, hsup], ?_⟩
      rw [hsup] at hon
      exact exists_row_of_update (fun ha ↦ ⟨h.enabled ha, .inl (h.pinned ha)⟩) hon
  | transportFailure status t => exact absurd hupd (by simp [WindowAct.updates])
  | accepted => exact absurd hupd (by simp [WindowAct.updates])
  | zeroAccepts draining t lastId => exact absurd hupd (by simp [WindowAct.updates])
  | storeOp op => exact absurd hupd (by simp [WindowAct.updates])
  | refresh blocking st t₁ t₂ t₃ m =>
      simp only [WindowAct.updates] at hupd
      split at hupd
      · exact absurd hupd (by simp)
      · next hfresh =>
        simp only [Bool.or_eq_true, not_or, Bool.not_eq_true, Option.isNone_eq_false_iff,
          Option.isSome_iff_exists] at hfresh
        obtain ⟨hseq, raw, hraw⟩ := hfresh
        let s₁ := (w.sup.noteSeq st).applyDifficulty raw t₁ t₂
        have hsup' : w'.sup = s₁.updateMatchDrain t₃ := by
          rw [hsup]
          simp [Supervisor.execWindow, Supervisor.refreshNetwork, hseq, hraw, s₁]
        refine ⟨?_, ?_, ?_⟩
        · rw [hsup', Supervisor.updateMatchDrain_pending]
          rfl
        · rw [pinnedM, hsup', Supervisor.updateMatchDrain_settings]
          rfl
        · rw [hsup'] at hon
          exact exists_row_of_update (s := s₁) (fun ha ↦ ⟨h.enabled ha,
            pinned_or_left (w.sup.noteSeq st) raw t₁ t₂ (h.enabled ha)⟩) hon

/-- **What an open window can flush.**  After `update_match_drain` has left the window open, a
row can be submitted exactly when the bag it ran on was covered. -/
theorem WindowInv.canFlush_iff {w w' : Window} {a : WindowAct} {minute : Nat} (h : WindowInv w)
    (hs : Step w a w') (hupd : a.updates w.sup = some minute)
    (hon : w'.sup.matchDrainActive = true) : w'.canFlush minute ≠ [] ↔ w.Covered minute := by
  obtain ⟨hpend, hm, row, hrow, hcost⟩ := h.exists_row hs hupd hon
  have hlist : w'.canFlush minute ≠ [] ↔ ∃ pb ∈ w.sup.store.pending,
      BlockStore.flushable minute w.pinnedM w.pinnedM pb = true := by
    rw [canFlush, Ne, BlockStore.listFlushBatch_eq_nil_iff, hpend, hm]
    simp
  rw [hlist]
  simp only [BlockStore.flushable, Bool.and_eq_true, decide_eq_true_eq]
  constructor
  · rintro ⟨pb, hpb, hc, hready⟩
    by_cases hx : upper pb.hit.blockType = "XUNI"
    · left
      by_contra hwin
      rw [readyToFlush_eq_false_iff.mpr ⟨hx, Bool.not_eq_true _ ▸ hwin⟩] at hready
      exact absurd hready (by simp)
    · exact .inr (.inl ⟨pb, hpb, hc, hx⟩)
  · rintro (hwin | ⟨pb, hpb, hc, hx⟩ | hnone)
    · exact ⟨row, hrow, hcost, readyToFlush_of_window hwin _⟩
    · refine ⟨pb, hpb, hc, ?_⟩
      by_contra hready
      rw [Bool.not_eq_true, readyToFlush_eq_false_iff] at hready
      exact hx hready.1
    · exact absurd hcost (hnone row hrow)

/-- **CUDA is parked with work to do exactly on covered bags.**  In a run whose
`update_match_drain` calls all find the bag covered, a window they leave open has a row that can
be submitted in the same minute.  And in any run, a call that leaves the window open on a bag
that is not covered leaves nothing to submit. -/
theorem parked_only_with_work {w₀ : Window} (hstart : w₀.sup.matchDrainActive = false) :
    (∀ as w a w' minute, Run (Guarded Step CoveredStep) w₀ as w →
      Guarded Step CoveredStep w a w' → a.updates w.sup = some minute →
      w'.sup.matchDrainActive = true → w'.canFlush minute ≠ []) ∧
    (∀ as w a w' minute, Run Step w₀ as w → Step w a w' → a.updates w.sup = some minute →
      w'.sup.matchDrainActive = true → ¬ w.Covered minute → w'.canFlush minute = []) := by
  refine ⟨fun as w a w' minute hrun hs hupd hon ↦ ?_,
    fun as w a w' minute hrun hs hupd hon hnot ↦ ?_⟩
  · have hinv := windowInv_of_run hrun.of_guarded hstart
    exact (hinv.canFlush_iff hs.1 hupd hon).mpr (hs.2 minute hupd)
  · have hinv := windowInv_of_run hrun hstart
    by_contra hne
    exact hnot ((hinv.canFlush_iff hs hupd hon).mp hne)

/-- A bag of one XUNI block at half past: the pinned difficulty is reported, the window opens,
and no row can be submitted. -/
theorem parks_on_xuni_outside_window :
    ¬ ∀ (w₀ w : Window) (as : List WindowAct) (a : WindowAct) (w' : Window) (minute : Nat),
      w₀.sup.matchDrainActive = false → 0 < w₀.pinnedM → Run Step w₀ as w → Step w a w' →
      a.updates w.sup = some minute → w'.sup.matchDrainActive = true →
      w'.canFlush minute ≠ [] := by
  intro hall
  let w₀ : Window := { sup := { settings := { forceMineMemoryCost := 100, storeBlocks := true } } }
  let queue : WindowAct := .storeOp (.enqueue "t"
    { hashStr := "h", blockType := "XUNI", memoryCost := some 100 } outsideXuniWindowReason)
  let w₁ : Window := { sup := w₀.sup.execWindow queue }
  let act : WindowAct := .refresh false { ok := true, difficulty := some 100, seq := 1 } 10 10 10 30
  refine hall w₀ w₁ [queue] act ⟨w₁.sup.execWindow act, 10⟩ 30 rfl (by decide)
    (.single ⟨rfl, rfl⟩) ⟨rfl, rfl⟩ rfl rfl ?_
  rw [canFlush, BlockStore.listFlushBatch_eq_nil_iff]
  decide

/-- An XNM block in the bag: the window opens and there is a row to submit. -/
theorem parked_only_with_work_xnm :
    let w₀ : Window := { sup := { settings := { forceMineMemoryCost := 100 } } }
    let hit : BlockHit := { hashStr := "h", blockType := "XNM", memoryCost := some 100 }
    let w₁ : Window := { sup := w₀.sup.execWindow (.storeOp (.enqueue "t" hit "r")) }
    let act : WindowAct :=
      .refresh false { ok := true, difficulty := some 100, seq := 1 } 10 10 10 30
    let w₂ : Window := ⟨w₁.sup.execWindow act, 10⟩
    w₂.sup.matchDrainActive = true ∧ w₂.canFlush 30 ≠ [] := by
  intro w₀ hit w₁ act w₂
  have hcov : CoveredStep w₁ act := by
    rintro minute -
    exact .inr (.inl ⟨{ id := 1, hit, queueReason := "r" }, List.mem_singleton.mpr rfl, rfl,
      by decide⟩)
  refine ⟨rfl, (parked_only_with_work (rfl : w₀.sup.matchDrainActive = false)).1
    [.storeOp (.enqueue "t" hit "r")] w₁ act w₂ 30 (.single ⟨⟨rfl, rfl⟩, ?_⟩) ⟨⟨rfl, rfl⟩, hcov⟩
    rfl rfl⟩
  rintro minute h
  exact absurd h (by simp [WindowAct.updates])

end Window

end XNMiner
