import XNMiner.App.MatchWindow
import XNMiner.Lib.Lts
import Mathlib.Logic.Function.Basic
import Mathlib.Data.Finset.Card

/-!
# Polls, and the order in which they are applied

Every poll of the difficulty has a number, its generation.  `refresh_network` takes a snapshot of
the poller, or polls itself (`blocking`); passes a guard that turns away the generation that
passed it last; and applies the poll.  These are three critical sections of two locks, and more
than one thread calls `refresh_network`.

The guard compares for equality, and the section that applies does not look again.  So a
generation that is older than the last one can pass, and one that has passed can be overtaken
(`applied_out_of_order`).  When neither happens, polls are applied once, and in order.
-/

namespace XNMiner

open Lib

/-- Where a thread is in `refresh_network`. -/
inductive RefreshPc
  | idle
  /-- It has a snapshot. -/
  | snapshot (blocking : Bool) (st : NetworkStatus)
  /-- The snapshot has passed the guard. -/
  | passed (st : NetworkStatus)

/-- What the threads of `refresh_network` do, and the poller. -/
inductive PollAct (I : Type)
  /-- The thread of the poller publishes a poll. -/
  | publish (st : NetworkStatus)
  /-- `get_status`. -/
  | getStatus (i : I)
  /-- `poll_once`, which publishes the poll and returns it. -/
  | pollOnce (i : I) (st : NetworkStatus)
  /-- The section with the guard. -/
  | guard (i : I)
  /-- The section that applies the poll, with its clock readings. -/
  | apply (i : I) (t₁ t₂ : Rat)
  /-- What else changes the supervisor. -/
  | other (sup : Supervisor)

/-- The supervisor and the poller, and the threads that refresh. -/
structure Polls (I : Type) where
  sup : Supervisor := {}
  /-- `status_` of the poller; its number is `seq_`. -/
  status : NetworkStatus := {}
  refresh : I → RefreshPc := fun _ ↦ .idle
  /-- The polls that were applied, the last one first. -/
  applied : List NetworkStatus := []

namespace Supervisor

/-- The section of `refresh_network` that applies a poll. -/
def applyPoll (s : Supervisor) (st : NetworkStatus) (t₁ t₂ : Rat) : Supervisor :=
  match st.difficulty with
  | some raw => s.applyDifficulty raw t₁ t₂
  | none => s.applyPollFailure t₁

end Supervisor

namespace Polls

variable {I : Type} [DecidableEq I]

def setPc (s : Polls I) (i : I) (pc : RefreshPc) : Polls I :=
  { s with refresh := Function.update s.refresh i pc }

/-- The poll, with the next number. -/
def numbered (s : Polls I) (st : NetworkStatus) : NetworkStatus :=
  { st with seq := s.status.seq + 1 }

/-- One step, if it is possible. -/
def step (s : Polls I) : PollAct I → Option (Polls I)
  | .publish st => some { s with status := s.numbered st }
  | .getStatus i => match s.refresh i with
      | .idle => some (s.setPc i (.snapshot false s.status))
      | _ => none
  | .pollOnce i st => match s.refresh i with
      | .idle =>
          some (({ s with status := s.numbered st }).setPc i (.snapshot true (s.numbered st)))
      | _ => none
  | .guard i => match s.refresh i with
      | .snapshot blocking st =>
          if s.sup.staleSnapshot blocking st then some (s.setPc i .idle)
          else some (({ s with sup := s.sup.noteSeq st }).setPc i (.passed st))
      | _ => none
  | .apply i t₁ t₂ => match s.refresh i with
      | .passed st => some (({ s with
          sup := s.sup.applyPoll st t₁ t₂
          applied := st :: s.applied }).setPc i .idle)
      | _ => none
  | .other sup =>
      if sup.lastPollSeq = s.sup.lastPollSeq ∧
          sup.difficultyFailStreak = s.sup.difficultyFailStreak then some { s with sup }
      else none

/-- The steps of the system. -/
def Step (s : Polls I) (act : PollAct I) (t : Polls I) : Prop := s.step act = some t

omit [DecidableEq I] in
/-- No poll has been applied after a newer one, or twice. -/
def InOrder (s : Polls I) : Prop := (s.applied.map (·.seq)).Pairwise (· > ·)

/-- The generations that failed since the last success that was applied. -/
def failedSince (s : Polls I) : Finset Nat :=
  ((s.applied.takeWhile fun st ↦ st.difficulty.isNone).map (·.seq)).toFinset

/-- No poll has been made, and none is being applied. -/
structure Starts (s : Polls I) : Prop where
  refresh : ∀ i, s.refresh i = .idle
  applied : s.applied = []
  lastPollSeq : s.sup.lastPollSeq = 0
  streak : s.sup.difficultyFailStreak = 0

/-- The snapshot that passes the guard is newer than the last one that did, and the one that is
applied is still the last one that passed. -/
def Fresh (s : Polls I) : PollAct I → Prop
  | .guard i => ∀ blocking st, s.refresh i = .snapshot blocking st →
      s.sup.staleSnapshot blocking st = true ∨ s.sup.lastPollSeq < st.seq
  | .apply i _ _ => ∀ st, s.refresh i = .passed st → st.seq = s.sup.lastPollSeq
  | _ => True

/-! ## What a step does -/

/-- **All a step can do.** -/
inductive Effect (s : Polls I) : PollAct I → Polls I → Prop
  | publish (st : NetworkStatus) : Effect s (.publish st) { s with status := s.numbered st }
  | getStatus {i : I} : s.refresh i = .idle →
      Effect s (.getStatus i) (s.setPc i (.snapshot false s.status))
  | pollOnce {i : I} {st : NetworkStatus} : s.refresh i = .idle →
      Effect s (.pollOnce i st)
        (({ s with status := s.numbered st }).setPc i (.snapshot true (s.numbered st)))
  | stale {i : I} {blocking : Bool} {st : NetworkStatus} : s.refresh i = .snapshot blocking st →
      s.sup.staleSnapshot blocking st = true → Effect s (.guard i) (s.setPc i .idle)
  | pass {i : I} {blocking : Bool} {st : NetworkStatus} : s.refresh i = .snapshot blocking st →
      s.sup.staleSnapshot blocking st = false →
      Effect s (.guard i) (({ s with sup := s.sup.noteSeq st }).setPc i (.passed st))
  | apply {i : I} {st : NetworkStatus} {t₁ t₂ : Rat} : s.refresh i = .passed st →
      Effect s (.apply i t₁ t₂) (({ s with
        sup := s.sup.applyPoll st t₁ t₂
        applied := st :: s.applied }).setPc i .idle)
  | other {sup : Supervisor} : sup.lastPollSeq = s.sup.lastPollSeq →
      sup.difficultyFailStreak = s.sup.difficultyFailStreak → Effect s (.other sup) { s with sup }

theorem effect_of_step {s t : Polls I} {act : PollAct I} (h : Step s act t) : Effect s act t := by
  change s.step act = some t at h
  cases act with
  | publish st => exact Option.some.inj h ▸ .publish st
  | getStatus i =>
      simp only [step] at h
      split at h
      · next hpc => exact Option.some.inj h ▸ .getStatus hpc
      · cases h
  | pollOnce i st =>
      simp only [step] at h
      split at h
      · next hpc => exact Option.some.inj h ▸ .pollOnce hpc
      · cases h
  | guard i =>
      simp only [step] at h
      split at h
      · next blocking st hpc =>
        split at h
        · next hstale => exact Option.some.inj h ▸ .stale hpc hstale
        · next hnew => exact Option.some.inj h ▸ .pass hpc (Bool.not_eq_true _ ▸ hnew)
      · cases h
  | apply i t₁ t₂ =>
      simp only [step] at h
      split at h
      · next st hpc => exact Option.some.inj h ▸ .apply hpc
      · cases h
  | other sup =>
      simp only [step] at h
      split at h
      · next hsame => exact Option.some.inj h ▸ .other hsame.1 hsame.2
      · cases h

/-! ## What holds between the steps -/

section Frame

variable (s : Polls I) (i : I) (pc : RefreshPc)

@[simp] theorem setPc_sup : (s.setPc i pc).sup = s.sup := rfl
@[simp] theorem setPc_applied : (s.setPc i pc).applied = s.applied := rfl
@[simp] theorem setPc_status : (s.setPc i pc).status = s.status := rfl

@[simp] theorem setPc_refresh_self : (s.setPc i pc).refresh i = pc := by simp [setPc]

theorem setPc_refresh_of_ne {j : I} (h : j ≠ i) : (s.setPc i pc).refresh j = s.refresh j := by
  simp [setPc, Function.update_of_ne h]

end Frame

@[simp] theorem applyPoll_lastPollSeq (sup : Supervisor) (st : NetworkStatus) (t₁ t₂ : Rat) :
    (sup.applyPoll st t₁ t₂).lastPollSeq = sup.lastPollSeq := by
  unfold Supervisor.applyPoll
  split <;> rfl

/-- The streak counts the polls without a number. -/
theorem applyPoll_streak (sup : Supervisor) (st : NetworkStatus) (t₁ t₂ : Rat) :
    (sup.applyPoll st t₁ t₂).difficultyFailStreak =
      if st.difficulty.isNone then sup.difficultyFailStreak + 1 else 0 := by
  unfold Supervisor.applyPoll
  cases st.difficulty <;> rfl

/-- The polls are being applied in order. -/
structure Orderly (s : Polls I) : Prop where
  applied_le : ∀ p ∈ s.applied, p.seq ≤ s.sup.lastPollSeq
  passed_le : ∀ i st, s.refresh i = .passed st → st.seq ≤ s.sup.lastPollSeq
  /-- What waits to be applied has not been applied. -/
  passed_new : ∀ i st, s.refresh i = .passed st → ∀ p ∈ s.applied, p.seq ≠ st.seq
  passed_injective : ∀ i j st st', s.refresh i = .passed st → s.refresh j = .passed st' →
    st.seq = st'.seq → i = j
  polled_pos : ∀ i st, s.refresh i = .snapshot true st → 0 < st.seq
  /-- The last generation that passed the guard is applied, or waits to be. -/
  last_known : s.sup.lastPollSeq = 0 ∨ (∃ p ∈ s.applied, p.seq = s.sup.lastPollSeq) ∨
    ∃ i st, s.refresh i = .passed st ∧ st.seq = s.sup.lastPollSeq
  inOrder : s.InOrder
  streak : s.sup.difficultyFailStreak =
    (s.applied.takeWhile fun st ↦ st.difficulty.isNone).length

variable {s t : Polls I} {act : PollAct I}

omit [DecidableEq I] in
theorem Orderly.of_starts (h : Starts s) : Orderly s where
  applied_le p hp := by simp [h.applied] at hp
  passed_le i st hi := by simp [h.refresh] at hi
  passed_new i st hi := by simp [h.refresh] at hi
  passed_injective i j st st' hi := by simp [h.refresh] at hi
  polled_pos i st hi := by simp [h.refresh] at hi
  last_known := .inl h.lastPollSeq
  inOrder := by simp [InOrder, h.applied]
  streak := by simp [h.applied, h.streak]

/-- What a thread does before its snapshot has passed, and after it was turned away. -/
theorem Orderly.setPc {i : I} {pc : RefreshPc} (h : Orderly s)
    (hold : ∀ st, s.refresh i ≠ .passed st) (hpc : ∀ st, pc ≠ .passed st)
    (hpos : ∀ st, pc = .snapshot true st → 0 < st.seq) : Orderly (s.setPc i pc) := by
  have hpassed : ∀ j st, (s.setPc i pc).refresh j = .passed st → s.refresh j = .passed st := by
    intro j st hj
    by_cases hji : j = i
    · subst hji
      exact absurd (setPc_refresh_self s j pc ▸ hj) (hpc st)
    · rwa [setPc_refresh_of_ne s i pc hji] at hj
  refine ⟨h.applied_le, fun j st hj ↦ h.passed_le j st (hpassed j st hj),
    fun j st hj ↦ h.passed_new j st (hpassed j st hj),
    fun j k st st' hj hk ↦ h.passed_injective j k st st' (hpassed j st hj) (hpassed k st' hk),
    ?_, ?_, h.inOrder, h.streak⟩
  · intro j st hj
    by_cases hji : j = i
    · subst hji
      exact hpos st (setPc_refresh_self s j pc ▸ hj)
    · rw [setPc_refresh_of_ne s i pc hji] at hj
      exact h.polled_pos j st hj
  · rcases h.last_known with hzero | happlied | ⟨j, st, hj, hlast⟩
    · exact .inl hzero
    · exact .inr (.inl happlied)
    · have hji : j ≠ i := by
        rintro rfl
        exact hold st hj
      exact .inr (.inr ⟨j, st, by rw [setPc_refresh_of_ne s i pc hji, hj], hlast⟩)

omit [DecidableEq I] in
/-- The poller publishes, or another part of the supervisor changes. -/
theorem Orderly.of_same {t : Polls I} (h : Orderly s) (hr : t.refresh = s.refresh)
    (ha : t.applied = s.applied) (hl : t.sup.lastPollSeq = s.sup.lastPollSeq)
    (hf : t.sup.difficultyFailStreak = s.sup.difficultyFailStreak) : Orderly t := by
  constructor
  all_goals simp only [InOrder, hr, ha, hl, hf]
  exacts [h.applied_le, h.passed_le, h.passed_new, h.passed_injective, h.polled_pos, h.last_known,
    h.inOrder, h.streak]

/-- A newer snapshot passes the guard. -/
theorem Orderly.pass {i : I} {blocking : Bool} {st : NetworkStatus} (h : Orderly s)
    (hi : s.refresh i = .snapshot blocking st) (hnew : s.sup.lastPollSeq < st.seq) :
    Orderly (({ s with sup := s.sup.noteSeq st }).setPc i (.passed st)) := by
  have hlast : (s.sup.noteSeq st).lastPollSeq = st.seq := if_pos (by omega)
  have hother : ∀ j st', j ≠ i →
      (({ s with sup := s.sup.noteSeq st }).setPc i (.passed st)).refresh j = .passed st' →
      s.refresh j = .passed st' := by
    intro j st' hji hj
    rwa [setPc_refresh_of_ne _ _ _ hji] at hj
  have hself : ∀ st', (({ s with sup := s.sup.noteSeq st }).setPc i (.passed st)).refresh i =
      .passed st' → st' = st := by
    intro st' hj
    rw [setPc_refresh_self] at hj
    exact (RefreshPc.passed.inj hj).symm
  refine ⟨?_, ?_, ?_, ?_, ?_, ?_, h.inOrder, h.streak⟩
  · intro p hp
    have := h.applied_le p hp
    simp only [setPc_sup, hlast]
    omega
  · intro j st' hj
    simp only [setPc_sup, hlast]
    by_cases hji : j = i
    · subst hji
      exact (hself st' hj ▸ le_rfl)
    · have := h.passed_le j st' (hother j st' hji hj)
      omega
  · intro j st' hj p hp
    by_cases hji : j = i
    · subst hji
      have := h.applied_le p hp
      rw [hself st' hj]
      omega
    · exact h.passed_new j st' (hother j st' hji hj) p hp
  · intro j k st₁ st₂ hj hk hseq
    by_cases hji : j = i <;> by_cases hki : k = i
    · rw [hji, hki]
    · subst hji
      have hle := h.passed_le k st₂ (hother k st₂ hki hk)
      rw [hself st₁ hj] at hseq
      omega
    · subst hki
      have hle := h.passed_le j st₁ (hother j st₁ hji hj)
      rw [hself st₂ hk] at hseq
      omega
    · exact h.passed_injective j k st₁ st₂ (hother j st₁ hji hj) (hother k st₂ hki hk) hseq
  · intro j st' hj
    by_cases hji : j = i
    · subst hji
      rw [setPc_refresh_self] at hj
      cases hj
    · rw [setPc_refresh_of_ne _ _ _ hji] at hj
      exact h.polled_pos j st' hj
  · exact .inr (.inr ⟨i, st, setPc_refresh_self _ i _, hlast.symm⟩)

/-- The poll that passed last is applied. -/
theorem Orderly.apply {i : I} {st : NetworkStatus} {t₁ t₂ : Rat} (h : Orderly s)
    (hi : s.refresh i = .passed st) (hlast : st.seq = s.sup.lastPollSeq) :
    Orderly (({ s with
      sup := s.sup.applyPoll st t₁ t₂
      applied := st :: s.applied }).setPc i .idle) := by
  have hother : ∀ j pc, pc ≠ .idle → (({ s with
      sup := s.sup.applyPoll st t₁ t₂
      applied := st :: s.applied }).setPc i .idle).refresh j = pc →
      j ≠ i ∧ s.refresh j = pc := by
    intro j pc hpc hj
    by_cases hji : j = i
    · subst hji
      exact absurd (setPc_refresh_self _ j _ ▸ hj).symm hpc
    · rw [setPc_refresh_of_ne _ _ _ hji] at hj
      exact ⟨hji, hj⟩
  refine ⟨?_, ?_, ?_, ?_, ?_, ?_, ?_, ?_⟩
  · intro p hp
    rcases List.mem_cons.mp hp with rfl | hp
    · simp [hlast]
    · simpa using h.applied_le p hp
  · intro j st' hj
    simpa using h.passed_le j st' (hother j _ (by simp) hj).2
  · intro j st' hj p hp
    obtain ⟨hji, hjs⟩ := hother j _ (by simp) hj
    rcases List.mem_cons.mp hp with rfl | hp
    · intro hseq
      exact hji (h.passed_injective i j p st' hi hjs hseq).symm
    · exact h.passed_new j st' hjs p hp
  · intro j k st₁ st₂ hj hk
    exact h.passed_injective j k st₁ st₂ (hother j _ (by simp) hj).2 (hother k _ (by simp) hk).2
  · intro j st' hj
    exact h.polled_pos j st' (hother j _ (by simp) hj).2
  · exact .inr (.inl ⟨st, List.mem_cons_self, by simpa using hlast⟩)
  · refine List.pairwise_cons.mpr ⟨?_, h.inOrder⟩
    intro seq hseq
    obtain ⟨p, hp, rfl⟩ := List.mem_map.mp hseq
    have hle := h.applied_le p hp
    have hne := h.passed_new i st hi p hp
    change p.seq < st.seq
    omega
  · have hstreak := h.streak
    simp only [setPc_sup, setPc_applied, applyPoll_streak, List.takeWhile_cons]
    cases st.difficulty.isNone <;> simp [hstreak]

/-- **A step that keeps to the order leaves the polls in order.** -/
theorem Orderly.step (h : Orderly s) (hstep : Guarded Step Fresh s act t) : Orderly t := by
  obtain ⟨hstep, hfresh⟩ := hstep
  cases effect_of_step hstep with
  | publish st => exact h.of_same rfl rfl rfl rfl
  | getStatus hi => exact h.setPc (by simp [hi]) (by simp) (by simp)
  | pollOnce hi =>
      refine Orderly.setPc (h.of_same rfl rfl rfl rfl) (by simp [hi]) (by simp) ?_
      intro st hst
      obtain rfl := (RefreshPc.snapshot.inj hst).2
      exact Nat.succ_pos _
  | stale hi _ => exact h.setPc (by simp [hi]) (by simp) (by simp)
  | pass hi hpass =>
      rcases hfresh _ _ hi with hstale | hnew
      · rw [hpass] at hstale
        cases hstale
      · exact h.pass hi hnew
  | apply hi => exact h.apply hi (hfresh _ hi)
  | other hl hf => exact h.of_same rfl rfl hl hf

omit [DecidableEq I] in
/-- In order, no failed generation is counted twice. -/
theorem Orderly.streak_eq (h : Orderly s) : s.sup.difficultyFailStreak = s.failedSince.card := by
  have hsub : (s.applied.takeWhile fun st ↦ st.difficulty.isNone).Sublist s.applied :=
    List.takeWhile_sublist _
  have hnodup : ((s.applied.takeWhile fun st ↦ st.difficulty.isNone).map (·.seq)).Nodup :=
    (h.inOrder.sublist (hsub.map _)).imp Nat.ne_of_gt
  rw [failedSince, List.toFinset_card_of_nodup hnodup, List.length_map]
  exact h.streak

/-! ## Out of order -/

/-- A thread applies the poll that has passed. -/
theorem step_apply {i : I} {st : NetworkStatus} (hi : s.refresh i = .passed st) (t₁ t₂ : Rat) :
    Step s (.apply i t₁ t₂) (({ s with
      sup := s.sup.applyPoll st t₁ t₂
      applied := st :: s.applied }).setPc i .idle) := by
  simp [Step, step, hi]

/-- A thread that has another poll can wait until the last one that passed is applied. -/
theorem Orderly.last_applied {i : I} (h : Orderly s) (hpos : 0 < s.sup.lastPollSeq)
    (hi : ∀ st, s.refresh i = .passed st → st.seq ≠ s.sup.lastPollSeq) :
    ∃ acts t, Run Step s acts t ∧ t.refresh i = s.refresh i ∧
      t.sup.lastPollSeq = s.sup.lastPollSeq ∧ ∃ p ∈ t.applied, p.seq = s.sup.lastPollSeq := by
  rcases h.last_known with hzero | happlied | ⟨j, st, hj, hlast⟩
  · omega
  · exact ⟨[], s, .nil s, rfl, rfl, happlied⟩
  · have hij : i ≠ j := by
      rintro rfl
      exact hi st hj hlast
    refine ⟨_, _, .single (step_apply hj 0 0), setPc_refresh_of_ne _ _ _ hij, ?_, st, ?_, hlast⟩
    · simp
    · exact List.mem_cons_self

omit [DecidableEq I] in
/-- A poll is not in order behind one that is as new. -/
theorem not_inOrder_of_cons {st p : NetworkStatus} {rest : List NetworkStatus}
    (ha : s.applied = st :: rest) (hp : p ∈ rest) (hle : st.seq ≤ p.seq) : ¬ s.InOrder := by
  intro horder
  rw [InOrder, ha] at horder
  have hlt : p.seq < st.seq := (List.pairwise_cons.mp horder).1 p.seq (List.mem_map_of_mem hp)
  omega

/-- An older poll that has passed can be applied after a newer one. -/
theorem Orderly.overtaken {i : I} {st : NetworkStatus} (h : Orderly s)
    (hi : s.refresh i = .passed st) (hne : st.seq ≠ s.sup.lastPollSeq) :
    ∃ acts t, Run Step s acts t ∧ ¬ t.InOrder := by
  have hle := h.passed_le i st hi
  have hother : ∀ st', s.refresh i = .passed st' → st'.seq ≠ s.sup.lastPollSeq := by
    intro st' hi'
    rw [hi] at hi'
    exact RefreshPc.passed.inj hi' ▸ hne
  obtain ⟨acts, t, hrun, ht, -, p, hp, hseq⟩ := h.last_applied (by omega) hother
  refine ⟨_, _, hrun.append (.single (step_apply (ht.trans hi) 0 0)), ?_⟩
  exact not_inOrder_of_cons rfl hp (by omega)

/-- A snapshot that is no newer can pass, and be applied after the last one that passed. -/
theorem Orderly.passes_twice {i : I} {blocking : Bool} {st : NetworkStatus} (h : Orderly s)
    (hi : s.refresh i = .snapshot blocking st) (hpass : s.sup.staleSnapshot blocking st = false)
    (hle : st.seq ≤ s.sup.lastPollSeq) : ∃ acts t, Run Step s acts t ∧ ¬ t.InOrder := by
  have hpos : 0 < st.seq := by
    cases blocking with
    | true => exact h.polled_pos i st hi
    | false =>
        simp only [Supervisor.staleSnapshot, Bool.not_false, Bool.true_and, Bool.or_eq_false_iff,
          decide_eq_false_iff_not] at hpass
        omega
  obtain ⟨acts, t, hrun, ht, hlast, p, hp, hseq⟩ :=
    h.last_applied (i := i) (by omega) (by simp [hi])
  have hpass' : t.sup.staleSnapshot blocking st = false := by
    simpa only [Supervisor.staleSnapshot, hlast] using hpass
  have hguard : Step t (.guard i) (({ t with sup := t.sup.noteSeq st }).setPc i (.passed st)) := by
    simp [Step, Polls.step, ht.trans hi, hpass']
  have happly := step_apply (setPc_refresh_self { t with sup := t.sup.noteSeq st } i (.passed st))
    0 0
  refine ⟨_, _, (hrun.append (.single hguard)).append (.single happly), ?_⟩
  exact not_inOrder_of_cons rfl hp (by omega)

/-- **Polls are applied in order exactly while each is the newest when it passes and when it is
applied.**  In a run that keeps to that no generation is applied twice or after a newer one, and
the streak counts the generations that failed since the last success; where a run may leave
it, it can go on to a poll that is applied out of order. -/
theorem applied_in_order_iff {s₀ s : Polls I} {acts : List (PollAct I)} (h₀ : Starts s₀)
    (hrun : Run (Guarded Step Fresh) s₀ acts s) :
    (s.InOrder ∧ s.sup.difficultyFailStreak = s.failedSince.card) ∧
      ∀ act t, Step s act t → ¬ Fresh s act → ∃ acts' u, Run Step s acts' u ∧ ¬ u.InOrder := by
  have h : Orderly s := hrun.preserves (fun _ _ _ h hs ↦ h.step hs) (.of_starts h₀)
  refine ⟨⟨h.inOrder, h.streak_eq⟩, ?_⟩
  intro act t hstep hstale
  cases effect_of_step hstep with
  | publish st => exact absurd trivial hstale
  | getStatus hi => exact absurd trivial hstale
  | pollOnce hi => exact absurd trivial hstale
  | other hl hf => exact absurd trivial hstale
  | stale hi hturned =>
      refine absurd ?_ hstale
      intro blocking st hst
      rw [hi] at hst
      obtain ⟨rfl, rfl⟩ := RefreshPc.snapshot.inj hst
      exact .inl hturned
  | @pass i blocking st hi hpass =>
      refine h.passes_twice hi hpass (Nat.le_of_not_lt fun hnew ↦ hstale ?_)
      intro blocking' st' hst
      rw [hi] at hst
      obtain ⟨rfl, rfl⟩ := RefreshPc.snapshot.inj hst
      exact .inr hnew
  | @apply i st t₁ t₂ hi =>
      refine h.overtaken hi fun hlast ↦ hstale ?_
      intro st' hst
      rw [hi] at hst
      exact RefreshPc.passed.inj hst ▸ hlast

/-- A poll that fails. -/
def failedPoll : PollAct Bool := .publish { difficulty := none }

/-- One thread has read the first of two failed polls when the second is made and applied by the
other; the first is applied after it, and then the second again. -/
theorem applied_out_of_order :
    ∃ acts s, Run Step ({} : Polls Bool) acts s ∧ s.applied.map (·.seq) = [2, 1, 2] ∧
      ¬ s.InOrder ∧ s.sup.difficultyFailStreak = 3 ∧ s.failedSince.card = 2 := by
  let acts : List (PollAct Bool) :=
    [failedPoll, .getStatus false, failedPoll, .getStatus true, .guard true, .apply true 0 0,
      .guard false, .apply false 0 0, .getStatus true, .guard true, .apply true 0 0]
  obtain ⟨s, hs⟩ : ∃ s, exec step ({} : Polls Bool) acts = some s := ⟨_, rfl⟩
  have hseqs : (exec step ({} : Polls Bool) acts).map (fun s ↦
      (s.applied.map (·.seq), s.sup.difficultyFailStreak, s.failedSince.card)) =
      some ([2, 1, 2], 3, 2) := by decide +kernel
  rw [hs, Option.map_some, Option.some.injEq, Prod.mk.injEq, Prod.mk.injEq] at hseqs
  obtain ⟨hseqs, hstreak, hcard⟩ := hseqs
  refine ⟨acts, s, run_of_exec hs, hseqs, ?_, hstreak, hcard⟩
  rw [InOrder, hseqs]
  decide

/-- A poll that is read, passes and is applied. -/
theorem applied_in_order_once :
    ∃ acts t, Run (Guarded Step Fresh) ({} : Polls Bool) acts t ∧ t.applied.length = 1 ∧
      t.InOrder ∧ t.sup.difficultyFailStreak = t.failedSince.card := by
  have h₀ : Starts ({} : Polls Bool) := ⟨fun _ ↦ rfl, rfl, rfl, rfl⟩
  let s₁ : Polls Bool := { status := { difficulty := none, seq := 1 } }
  let s₂ : Polls Bool := s₁.setPc true (.snapshot false s₁.status)
  let s₃ : Polls Bool :=
    ({ s₂ with sup := s₂.sup.noteSeq s₁.status }).setPc true (.passed s₁.status)
  have hpublish : Guarded Step Fresh {} failedPoll s₁ := ⟨rfl, trivial⟩
  have hread : Guarded Step Fresh s₁ (.getStatus true) s₂ := ⟨rfl, trivial⟩
  have hguard : Guarded Step Fresh s₂ (.guard true) s₃ := by
    refine ⟨rfl, ?_⟩
    rintro _ _ hst
    obtain ⟨-, rfl⟩ := RefreshPc.snapshot.inj hst
    exact .inr Nat.zero_lt_one
  have happly : Guarded Step Fresh s₃ (.apply true 0 0) (({ s₃ with
      sup := s₃.sup.applyPoll s₁.status 0 0
      applied := [s₁.status] }).setPc true .idle) := by
    refine ⟨rfl, ?_⟩
    rintro _ hst
    exact RefreshPc.passed.inj hst ▸ rfl
  have hrun := Run.cons hpublish (.cons hread (.cons hguard (.single happly)))
  exact ⟨_, _, hrun, rfl, (applied_in_order_iff h₀ hrun).1⟩

end Polls

end XNMiner
