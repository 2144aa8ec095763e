import XNMiner.App.PollOrder

/-!
# The difficulty that is published

The reporters publish `network_difficulty_for_public`, which is `network_difficulty_` while
`network_ok_` is set.  Both fields have several writers: the polls that `refresh_network` applies,
the fallback of the startup code, every `POST` that is accepted, and every one that does not get
through.

The published number should come from `GET /difficulty`.  It need not: an accepted `POST` sets
`network_ok_` whatever the difficulty in force is, and a poll with a number out of range puts
another number in its place (`public_not_polled`).  `public_from_polls_iff` says when it does.
-/

namespace XNMiner

open Lib

namespace Supervisor

/-- `network_difficulty_for_public`; `0` is not available. -/
def networkDifficultyForPublic (s : Supervisor) : Int :=
  if s.networkOk then s.networkDifficulty.getD 0 else 0

/-- The critical section of `note_submit_transport_failure`, with what the reads before it have
decided. -/
def pauseSubmits (s : Supervisor) (keepNet : Bool) (backoffUntil : Rat) : Supervisor :=
  { s with
    submitBackoffUntil := backoffUntil
    networkOk := if keepNet then s.networkOk else false }

-- with the reads and the section as one step
example (s : Supervisor) (status : Int) (t : Rat) : s.noteSubmitTransportFailure status t =
    let hybridMatch := s.forceMineMode && s.networkMatchesHitM s.forcedMineM
    s.pauseSubmits
      (hybridMatch || decide (status = 401 ∨ status = 403 ∨ status = 429) || s.matchDrainActive)
      (t + s.transportBackoff hybridMatch status) := rfl

/-- The number that a poll out of range is replaced by. -/
def replacement (s : Supervisor) : Int :=
  let fallback := s.networkDifficulty.getD s.settings.memoryCost
  if 0 < fallback then fallback else 1100

/-- What decides the published number is left as it is. -/
def SameNetwork (s t : Supervisor) : Prop :=
  t.networkOk = s.networkOk ∧ t.networkDifficulty = s.networkDifficulty ∧
    t.lastDifficultyOkAt = s.lastDifficultyOkAt

instance (s t : Supervisor) : Decidable (s.SameNetwork t) :=
  inferInstanceAs (Decidable (_ ∧ _ ∧ _))

end Supervisor

/-- The poll a thread holds. -/
def RefreshPc.holds : RefreshPc → Option NetworkStatus
  | .idle => none
  | .snapshot _ st => some st
  | .passed st => some st

/-- The numbers a `GET /difficulty` returns in this step. -/
def PollAct.returned {I : Type} : PollAct I → List Int
  | .publish st => st.difficulty.toList
  | .pollOnce _ st => st.difficulty.toList
  | _ => []

/-- What writes `network_ok_` and `network_difficulty_`. -/
inductive PublicAct (I : Type)
  | poll (act : PollAct I)
  | startupFallback
  /-- A `POST` was accepted, live or by a flush. -/
  | accepted
  | transportFailure (keepNet : Bool) (backoffUntil : Rat)

/-- A run of the miner, with the numbers that `GET /difficulty` has returned in it. -/
structure PublicRun (I : Type) where
  polls : Polls I := {}
  polled : List Int := []

namespace PublicRun

variable {I : Type} [DecidableEq I]

def sup (s : PublicRun I) : Supervisor := s.polls.sup

def setSup (s : PublicRun I) (sup : Supervisor) : PublicRun I :=
  { s with polls := { s.polls with sup } }

/-- What is not a poll, and not another writer, leaves the network fields alone. -/
def allows (s : PublicRun I) : PollAct I → Bool
  | .other sup => decide (s.sup.SameNetwork sup)
  | _ => true

/-- One step, if it is possible. -/
def step (s : PublicRun I) : PublicAct I → Option (PublicRun I)
  | .poll act =>
      if s.allows act then
        (s.polls.step act).map fun polls ↦ { polls, polled := act.returned ++ s.polled }
      else none
  | .startupFallback => some (s.setSup s.sup.startupFallback)
  | .accepted => some (s.setSup s.sup.noteAccepted)
  | .transportFailure keepNet backoffUntil =>
      some (s.setSup (s.sup.pauseSubmits keepNet backoffUntil))

/-- The steps of the system. -/
def Step (s : PublicRun I) (act : PublicAct I) (t : PublicRun I) : Prop := s.step act = some t

/-- The published number is `0`, or one that `GET /difficulty` has returned. -/
def FromPolls (s : PublicRun I) : Prop :=
  s.sup.networkDifficultyForPublic = 0 ∨ s.sup.networkDifficultyForPublic ∈ s.polled

/-- The number in force is `0`, or one that `GET /difficulty` has returned. -/
def KnownPolled (s : PublicRun I) : Prop :=
  ∀ d, s.sup.networkDifficulty = some d → d = 0 ∨ d ∈ s.polled

/-- The poll that is applied is in range, or replaced by a number that a poll has returned; and a
`POST` is accepted under a number that a poll has returned. -/
def Backed (s : PublicRun I) : PublicAct I → Prop
  | .poll (.apply i _ _) => ∀ st raw, s.polls.refresh i = .passed st → st.difficulty = some raw →
      0 < raw ∧ raw ≤ 10000000 ∨ s.sup.replacement ∈ s.polled
  | .accepted => s.KnownPolled
  | _ => True

/-- Nothing has been polled. -/
structure Starts (s : PublicRun I) : Prop where
  refresh : ∀ i, s.polls.refresh i = .idle
  status : s.polls.status.difficulty = none
  networkDifficulty : s.sup.networkDifficulty = none
  lastDifficultyOkAt : s.sup.lastDifficultyOkAt = 0

/-! ## Where the numbers are -/

/-- Every snapshot is one of a poll of this run. -/
structure Held (polls : Polls I) (polled : List Int) : Prop where
  status : ∀ raw, polls.status.difficulty = some raw → raw ∈ polled
  held : ∀ i st raw, (polls.refresh i).holds = some st → st.difficulty = some raw → raw ∈ polled

/-- The number in force is one that has been polled, or the fallback that is not published. -/
structure Traced (s : PublicRun I) : Prop where
  unset : s.sup.networkDifficulty = none → s.sup.lastDifficultyOkAt = 0
  number : s.KnownPolled ∨ s.sup.networkOk = false ∧ s.sup.lastDifficultyOkAt = 0

variable {s t : PublicRun I}

omit [DecidableEq I] in
theorem Held.of_starts (h : Starts s) : Held s.polls s.polled where
  status raw hraw := by simp [h.status] at hraw
  held i st raw hi := by simp [h.refresh, RefreshPc.holds] at hi

omit [DecidableEq I] in
theorem Traced.of_starts (h : Starts s) : Traced s where
  unset _ := h.lastDifficultyOkAt
  number := .inl fun d hd ↦ by simp [h.networkDifficulty] at hd

omit [DecidableEq I] in
/-- What is published while it is known to be polled is from a poll. -/
theorem KnownPolled.fromPolls (h : s.KnownPolled) : s.FromPolls := by
  unfold FromPolls Supervisor.networkDifficultyForPublic
  split
  · cases hd : s.sup.networkDifficulty with
    | none => exact .inl rfl
    | some d => exact h d hd
  · exact .inl rfl

omit [DecidableEq I] in
theorem Traced.fromPolls (h : Traced s) : s.FromPolls := by
  rcases h.number with hknown | ⟨hok, -⟩
  · exact hknown.fromPolls
  · exact .inl (by simp [Supervisor.networkDifficultyForPublic, hok])

omit [DecidableEq I] in
/-- More has been polled, and the fields are as before. -/
theorem Traced.of_same (h : Traced s) (hsame : s.sup.SameNetwork t.sup)
    (hpolled : s.polled ⊆ t.polled) : Traced t := by
  obtain ⟨hok, hdiff, hlast⟩ := hsame
  refine ⟨by rw [hdiff, hlast]; exact h.unset, ?_⟩
  rcases h.number with hknown | hoff
  · refine .inl fun d hd ↦ ?_
    rcases hknown d (hdiff ▸ hd) with hzero | hmem
    · exact .inl hzero
    · exact .inr (hpolled hmem)
  · exact .inr (by rwa [hok, hlast])

/-! ## The other writers -/

omit [DecidableEq I] in
theorem Traced.startupFallback (h : Traced s) : Traced (s.setSup s.sup.startupFallback) := by
  unfold Supervisor.startupFallback
  split
  · exact h
  · next hnone => exact ⟨fun _ ↦ h.unset hnone, .inr ⟨rfl, h.unset hnone⟩⟩

omit [DecidableEq I] in
theorem Traced.pauseSubmits {keepNet : Bool} {backoffUntil : Rat} (h : Traced s) :
    Traced (s.setSup (s.sup.pauseSubmits keepNet backoffUntil)) := by
  refine ⟨h.unset, ?_⟩
  rcases h.number with hknown | ⟨hok, hlast⟩
  · exact .inl hknown
  · refine .inr ⟨?_, hlast⟩
    cases keepNet with
    | false => rfl
    | true => exact hok

omit [DecidableEq I] in
/-- An accepted `POST` publishes the number in force. -/
theorem fromPolls_accepted_iff : (s.setSup s.sup.noteAccepted).FromPolls ↔ s.KnownPolled := by
  constructor
  · intro h d hd
    have hpublic : (s.setSup s.sup.noteAccepted).sup.networkDifficultyForPublic = d := by
      change (s.sup.networkDifficulty.getD 0) = d
      rw [hd]
      rfl
    rw [FromPolls, hpublic] at h
    exact h
  · exact fun h ↦ KnownPolled.fromPolls h

/-! ## The polls -/

/-- A number in range is taken, another is replaced. -/
theorem acceptNetworkDifficulty_eq (sup : Supervisor) (raw : Int) :
    acceptNetworkDifficulty raw (sup.networkDifficulty.getD sup.settings.memoryCost) =
      if 0 < raw ∧ raw ≤ 10000000 then raw else sup.replacement := by
  by_cases hrange : 0 < raw ∧ raw ≤ 10000000
  · rw [if_pos hrange, acceptNetworkDifficulty, if_neg (by omega), if_neg (by omega)]
  · rw [if_neg hrange, acceptNetworkDifficulty]
    by_cases hlow : raw ≤ 0
    · rw [if_pos hlow]
      rfl
    · rw [if_neg hlow, if_pos (by omega)]
      rfl

theorem replacement_pos (sup : Supervisor) : 0 < sup.replacement := by
  unfold Supervisor.replacement
  dsimp only
  split <;> omega

/-- A poll without a number that has nothing to go by switches the network off. -/
theorem applyPollFailure_of_unset {sup : Supervisor} (t : Rat) (h : sup.lastDifficultyOkAt = 0) :
    (sup.applyPollFailure t).networkOk = false := by
  simp only [Supervisor.applyPollFailure, h, lt_irrefl, if_false]
  rw [if_neg]
  simp only [decide_eq_true_eq, not_and]
  intro _ hage
  norm_num at hage

theorem Held.setPc {polls : Polls I} {polled : List Int} {i : I} {pc : RefreshPc}
    (h : Held polls polled)
    (hpc : ∀ st raw, pc.holds = some st → st.difficulty = some raw → raw ∈ polled) :
    Held (polls.setPc i pc) polled := by
  refine ⟨h.status, ?_⟩
  intro j st raw hj
  by_cases hji : j = i
  · subst hji
    rw [Polls.setPc_refresh_self] at hj
    exact hpc st raw hj
  · rw [Polls.setPc_refresh_of_ne _ _ _ hji] at hj
    exact h.held j st raw hj

omit [DecidableEq I] in
/-- A poll is made. -/
theorem Held.publish {polls : Polls I} {polled : List Int} (h : Held polls polled)
    (st : NetworkStatus) :
    Held { polls with status := polls.numbered st } (st.difficulty.toList ++ polled) where
  status _ hraw := List.mem_append_left _ (Option.mem_toList.mpr hraw)
  held i st' raw hi hst := List.mem_append_right _ (h.held i st' raw hi hst)

theorem Held.step {polls polls' : Polls I} {polled : List Int} {act : PollAct I}
    (h : Held polls polled) (hstep : Polls.Step polls act polls') :
    Held polls' (act.returned ++ polled) := by
  cases Polls.effect_of_step hstep with
  | publish st => exact h.publish st
  | getStatus hi =>
      refine h.setPc fun st raw hst hraw ↦ ?_
      exact h.status raw (Option.some.inj hst ▸ hraw)
  | @pollOnce i st hi =>
      refine (h.publish st).setPc fun _ raw hst hraw ↦ ?_
      obtain rfl := Option.some.inj hst
      exact List.mem_append_left _ (Option.mem_toList.mpr hraw)
  | stale hi _ => exact h.setPc fun st _ hst ↦ by cases hst
  | @pass i blocking st hi _ =>
      refine Held.setPc ⟨h.status, h.held⟩ fun st' raw hst hraw ↦ ?_
      exact h.held i st' raw (by rw [hi]; exact hst) hraw
  | apply hi => exact Held.setPc ⟨h.status, h.held⟩ fun st raw hst ↦ by cases hst
  | other _ _ => exact ⟨h.status, h.held⟩

omit [DecidableEq I] in
/-- A poll without a number changes none, and publishes none that was not published. -/
theorem Traced.applyPollFailure {t₁ : Rat} (h : Traced s)
    (hsup : t.sup = s.sup.applyPollFailure t₁) (hpolled : t.polled = s.polled) : Traced t := by
  have hdiff : t.sup.networkDifficulty = s.sup.networkDifficulty := by rw [hsup]; rfl
  have hlast : t.sup.lastDifficultyOkAt = s.sup.lastDifficultyOkAt := by rw [hsup]; rfl
  refine ⟨by rw [hdiff, hlast]; exact h.unset, ?_⟩
  rcases h.number with hknown | ⟨-, hzero⟩
  · exact .inl fun d hd ↦ hpolled ▸ hknown d (hdiff ▸ hd)
  · refine .inr ⟨?_, hlast.trans hzero⟩
    rw [hsup, applyPollFailure_of_unset t₁ hzero]

omit [DecidableEq I] in
/-- What a poll with a number puts in force is that number or its replacement, and is
published. -/
theorem applyDifficulty_number {raw : Int} {t₁ t₂ : Rat}
    (hsup : t.sup = s.sup.applyDifficulty raw t₁ t₂) :
    t.sup.networkOk = true ∧ t.sup.networkDifficulty =
      some (if 0 < raw ∧ raw ≤ 10000000 then raw else s.sup.replacement) := by
  rw [← acceptNetworkDifficulty_eq, hsup]
  exact ⟨rfl, rfl⟩

omit [DecidableEq I] in
theorem fromPolls_applied_iff {raw : Int} {t₁ t₂ : Rat}
    (hsup : t.sup = s.sup.applyDifficulty raw t₁ t₂) (hpolled : t.polled = s.polled)
    (hraw : raw ∈ s.polled) :
    t.FromPolls ↔ (0 < raw ∧ raw ≤ 10000000 ∨ s.sup.replacement ∈ s.polled) := by
  obtain ⟨hok, hdiff⟩ := applyDifficulty_number hsup
  have hpos := replacement_pos s.sup
  rw [FromPolls, Supervisor.networkDifficultyForPublic, if_pos hok, hdiff, Option.getD_some,
    hpolled]
  by_cases hrange : 0 < raw ∧ raw ≤ 10000000
  · simp [hrange, hraw]
  · rw [if_neg hrange, or_iff_right hpos.ne', or_iff_right hrange]

omit [DecidableEq I] in
theorem Traced.applyDifficulty {raw : Int} {t₁ t₂ : Rat}
    (hsup : t.sup = s.sup.applyDifficulty raw t₁ t₂) (h : t.FromPolls) : Traced t := by
  obtain ⟨hok, hdiff⟩ := applyDifficulty_number hsup
  refine ⟨by simp [hdiff], .inl fun d hd ↦ ?_⟩
  rw [FromPolls, Supervisor.networkDifficultyForPublic, if_pos hok, hd] at h
  exact h

/-- **A step leads to a number that was polled exactly if it is backed by one.** -/
theorem backed_iff_fromPolls {act : PublicAct I} (hheld : Held s.polls s.polled) (h : Traced s)
    (hstep : Step s act t) : (Backed s act ↔ FromPolls t) ∧ (Backed s act → Traced t) := by
  have htrue : ∀ {p : Prop}, p → Traced t → (p ↔ FromPolls t) ∧ (p → Traced t) :=
    fun hp ht ↦ ⟨iff_of_true hp ht.fromPolls, fun _ ↦ ht⟩
  cases act with
  | startupFallback =>
      obtain rfl := Option.some.inj hstep
      exact htrue trivial h.startupFallback
  | transportFailure keepNet backoffUntil =>
      obtain rfl := Option.some.inj hstep
      exact htrue trivial h.pauseSubmits
  | accepted =>
      obtain rfl := Option.some.inj hstep
      exact ⟨fromPolls_accepted_iff.symm, fun hknown ↦ ⟨h.unset, .inl hknown⟩⟩
  | poll act =>
      change PublicRun.step s _ = _ at hstep
      simp only [PublicRun.step, Option.ite_none_right_eq_some, Option.map_eq_some_iff] at hstep
      obtain ⟨hallows, polls, hpolls, rfl⟩ := hstep
      have hsub : s.polled ⊆ act.returned ++ s.polled := List.subset_append_right _ _
      cases Polls.effect_of_step hpolls with
      | publish st => exact htrue trivial (h.of_same ⟨rfl, rfl, rfl⟩ hsub)
      | getStatus hi => exact htrue trivial (h.of_same ⟨rfl, rfl, rfl⟩ hsub)
      | pollOnce hi => exact htrue trivial (h.of_same ⟨rfl, rfl, rfl⟩ hsub)
      | stale hi _ => exact htrue trivial (h.of_same ⟨rfl, rfl, rfl⟩ hsub)
      | pass hi _ => exact htrue trivial (h.of_same ⟨rfl, rfl, rfl⟩ hsub)
      | other _ _ => exact htrue trivial (h.of_same (of_decide_eq_true hallows) hsub)
      | @apply i st t₁ t₂ hi =>
          cases hdiff : st.difficulty with
          | none =>
              have hsup : s.sup.applyPoll st t₁ t₂ = s.sup.applyPollFailure t₁ := by
                rw [Supervisor.applyPoll, hdiff]
              refine htrue ?_ (h.applyPollFailure hsup rfl)
              · intro st' raw hst hraw
                rw [hi] at hst
                obtain rfl := RefreshPc.passed.inj hst
                rw [hdiff] at hraw
                cases hraw
          | some raw =>
              have hraw : raw ∈ s.polled := hheld.held i st raw (by rw [hi]; rfl) hdiff
              have hsup : s.sup.applyPoll st t₁ t₂ = s.sup.applyDifficulty raw t₁ t₂ := by
                rw [Supervisor.applyPoll, hdiff]
              have hbacked : Backed s (.poll (.apply i t₁ t₂)) ↔
                  (0 < raw ∧ raw ≤ 10000000 ∨ s.sup.replacement ∈ s.polled) := by
                refine ⟨fun hb ↦ hb st raw hi hdiff, ?_⟩
                intro hb st' raw' hst hraw'
                rw [hi] at hst
                obtain rfl := RefreshPc.passed.inj hst
                rw [hdiff] at hraw'
                exact Option.some.inj hraw' ▸ hb
              have happlied : ∀ {t : PublicRun I}, t.sup = s.sup.applyDifficulty raw t₁ t₂ →
                  t.polled = s.polled → (Backed s (.poll (.apply i t₁ t₂)) ↔ FromPolls t) ∧
                    (Backed s (.poll (.apply i t₁ t₂)) → Traced t) := by
                intro t hsup hpolled
                have hiff := fromPolls_applied_iff hsup hpolled hraw
                exact ⟨hbacked.trans hiff.symm,
                  fun hb ↦ .applyDifficulty hsup (hiff.mpr (hbacked.mp hb))⟩
              exact happlied hsup rfl

theorem Held.of_step {act : PublicAct I} (h : Held s.polls s.polled) (hstep : Step s act t) :
    Held t.polls t.polled := by
  cases act with
  | startupFallback => exact Option.some.inj hstep ▸ ⟨h.status, h.held⟩
  | transportFailure keepNet backoffUntil => exact Option.some.inj hstep ▸ ⟨h.status, h.held⟩
  | accepted => exact Option.some.inj hstep ▸ ⟨h.status, h.held⟩
  | poll act =>
      change PublicRun.step s _ = _ at hstep
      simp only [PublicRun.step, Option.ite_none_right_eq_some, Option.map_eq_some_iff] at hstep
      obtain ⟨-, polls, hpolls, rfl⟩ := hstep
      exact h.step hpolls

/-- **What is published is from a poll in every state of a run exactly if every step is backed by
one**: the polls that are applied are in range, or replaced by a number that was polled, and no
`POST` is accepted while a fallback is in force. -/
theorem public_from_polls_iff {s₀ s : PublicRun I} {acts : List (PublicAct I)} (h₀ : Starts s₀) :
    Run (Guarded Step Backed) s₀ acts s ↔
      Run (fun s act t ↦ Step s act t ∧ FromPolls t) s₀ acts s := by
  refine Run.guarded_iff (I := fun s ↦ Held s.polls s.polled ∧ Traced s) ?_ ?_
    ⟨.of_starts h₀, .of_starts h₀⟩
  · rintro s act t ⟨hheld, htraced⟩ hstep
    exact (backed_iff_fromPolls hheld htraced hstep).1
  · rintro s act t ⟨hheld, htraced⟩ ⟨hstep, hbacked⟩
    exact ⟨hheld.of_step hstep, (backed_iff_fromPolls hheld htraced hstep).2 hbacked⟩

/-- No poll gives a number, and a `POST` is accepted: the configured cost is published. -/
theorem public_not_polled :
    ∃ acts s, Run Step ({} : PublicRun Bool) acts s ∧ s.polled = [] ∧
      s.sup.networkDifficultyForPublic = 1100 ∧ ¬ s.FromPolls := by
  let acts : List (PublicAct Bool) := [.poll (.publish {}), .startupFallback, .accepted]
  obtain ⟨s, hs⟩ : ∃ s, exec step ({} : PublicRun Bool) acts = some s := ⟨_, rfl⟩
  have hend : (exec step ({} : PublicRun Bool) acts).map (fun s ↦
      (s.polled, s.sup.networkDifficultyForPublic)) = some ([], 1100) := by decide +kernel
  rw [hs, Option.map_some, Option.some.injEq, Prod.mk.injEq] at hend
  obtain ⟨hpolled, hpublic⟩ := hend
  refine ⟨acts, s, run_of_exec hs, hpolled, hpublic, ?_⟩
  rw [FromPolls, hpolled, hpublic]
  decide

/-- A poll that gives `100` is applied, and a `POST` is accepted. -/
theorem public_from_polls_hundred :
    ∃ acts t, t.sup.networkDifficultyForPublic = 100 ∧
      Run (Guarded Step Backed) ({} : PublicRun Bool) acts t ∧
      Run (fun s act t ↦ Step s act t ∧ FromPolls t) {} acts t := by
  have h₀ : Starts ({} : PublicRun Bool) := ⟨fun _ ↦ rfl, rfl, rfl, rfl⟩
  let s₁ : PublicRun Bool :=
    { polls := { status := { difficulty := some 100, seq := 1 } }, polled := [100] }
  let s₂ : PublicRun Bool :=
    { s₁ with polls := s₁.polls.setPc true (.snapshot false s₁.polls.status) }
  let s₃ : PublicRun Bool := { s₂ with
    polls := ({ s₂.polls with sup := s₂.sup.noteSeq s₁.polls.status }).setPc true
      (.passed s₁.polls.status) }
  let s₄ : PublicRun Bool := { s₃ with
    polls := ({ s₃.polls with
      sup := s₃.sup.applyPoll s₁.polls.status 0 0
      applied := [s₁.polls.status] }).setPc true .idle }
  have hpublish : Guarded Step Backed {} (.poll (.publish { difficulty := some 100 })) s₁ :=
    ⟨rfl, trivial⟩
  have hread : Guarded Step Backed s₁ (.poll (.getStatus true)) s₂ := ⟨rfl, trivial⟩
  have hguard : Guarded Step Backed s₂ (.poll (.guard true)) s₃ := ⟨rfl, trivial⟩
  have happly : Guarded Step Backed s₃ (.poll (.apply true 0 0)) s₄ := by
    refine ⟨rfl, ?_⟩
    intro st raw hst hraw
    obtain rfl := RefreshPc.passed.inj hst
    obtain rfl := Option.some.inj hraw
    exact .inl (by decide)
  have haccepted : Guarded Step Backed s₄ .accepted (s₄.setSup s₄.sup.noteAccepted) := by
    refine ⟨rfl, ?_⟩
    intro d hd
    obtain rfl := Option.some.inj hd
    exact .inr (by decide)
  have hrun := Run.cons hpublish (.cons hread (.cons hguard (.cons happly (.single haccepted))))
  exact ⟨_, _, rfl, hrun, (public_from_polls_iff h₀).mp hrun⟩

end PublicRun

end XNMiner
