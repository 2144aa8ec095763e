import XNMiner.Mining.EngineMoves

/-!
# The share of the dev fee

Of every hundred blocks ninety-nine are the user's and one is the fee's (`settings.hpp`).
`select_payout_salt` chooses the wallet before a batch, all hits of the batch are stamped with it,
and `stamp_and_count_hits` counts them afterwards.  So the wallet changes only between batches: a
batch that brings more hits than its wallet has left in the cycle gives them all to that wallet,
and the counters of the cycle forget the excess.
-/

namespace XNMiner

namespace CudaEngine

/-! ## A batch -/

/-- The fee is taken, and goes to another wallet than the user's. -/
structure TakesFee (s : CudaEngine) : Prop where
  devFee : s.settings.devFee = true
  other : s.sameWallet = false

/-- The engine after a batch that has brought `n` hits, as far as the fee goes. -/
def countBatch (s : CudaEngine) (n : Nat) : CudaEngine := s.selectPayoutSalt.stampAndCountHits n

/-- How many of the hits of the batch are stamped `fee_block`. -/
def feeStamped (s : CudaEngine) (n : Nat) : Nat := if s.selectPayoutSalt.miningFee then n else 0

/-- All hits of a batch are stamped alike. -/
theorem feeBlock_addMatches (s : CudaEngine) (now : String) (attempts : Nat) (hps : Rat)
    (ms : List HashApiMatch) {out : MineBatchResult}
    (h : ∀ f ∈ out.hits, f.hit.feeBlock = s.miningFee) :
    ∀ f ∈ (s.addMatches now attempts hps ms out).hits, f.hit.feeBlock = s.miningFee := by
  refine forall_addMatches (fun m _ hit hm ↦ ?_) h
  unfold hitFromMatch at hm
  split_ifs at hm
  rw [← Option.some.inj hm]

/-- `feeStamped` counts the stamps on the hits of a batch. -/
theorem countP_feeBlock_addMatches (s : CudaEngine) (now : String) (attempts : Nat) (hps : Rat)
    (ms : List HashApiMatch) :
    let hits := (s.selectPayoutSalt.addMatches now attempts hps ms {}).hits
    hits.countP (fun f ↦ f.hit.feeBlock) = s.feeStamped hits.length := by
  intro hits
  have hall : ∀ f ∈ hits, f.hit.feeBlock = s.selectPayoutSalt.miningFee :=
    feeBlock_addMatches _ now attempts hps ms (by simp)
  unfold feeStamped
  split
  · next hfee => exact List.countP_eq_length.mpr fun f hf ↦ (hall f hf).trans hfee
  · next huser => exact List.countP_eq_zero.mpr fun f hf ↦ by rw [hall f hf]; exact huser

theorem TakesFee.selectPayoutSalt {s : CudaEngine} (h : TakesFee s) :
    s.selectPayoutSalt.miningFee = s.miningFee ∧
      s.selectPayoutSalt.userFindsInCycle = s.userFindsInCycle ∧
      s.selectPayoutSalt.feeFindsInCycle = s.feeFindsInCycle ∧
      s.selectPayoutSalt.settings = s.settings := by
  unfold CudaEngine.selectPayoutSalt
  rw [if_neg (by simp [h.devFee, h.other])]
  split <;> exact ⟨rfl, rfl, rfl, rfl⟩

theorem TakesFee.feeStamped {s : CudaEngine} (h : TakesFee s) (n : Nat) :
    s.feeStamped n = if s.miningFee then n else 0 := by
  rw [CudaEngine.feeStamped, h.selectPayoutSalt.1]

/-- The fee goes on being taken. -/
theorem TakesFee.countBatch {s : CudaEngine} (h : TakesFee s) (n : Nat) :
    TakesFee (s.countBatch n) := by
  have hsettings : (s.countBatch n).settings = s.settings := by
    refine Eq.trans ?_ h.selectPayoutSalt.2.2.2
    exact (sameWork_stampAndCountHits _ n).settings
  refine ⟨by rw [hsettings, h.devFee], ?_⟩
  unfold sameWallet
  rw [hsettings]
  exact h.other

/-- What the fee goes by: whose turn it is, and the two counters of the cycle. -/
def counters (s : CudaEngine) : Bool × Nat × Nat :=
  (s.miningFee, s.userFindsInCycle, s.feeFindsInCycle)

/-- **What a batch does to the counters.** -/
theorem TakesFee.counters_countBatch {s : CudaEngine} (h : TakesFee s) (n : Nat) :
    (s.countBatch n).counters =
      if n = 0 then s.counters
      else if s.miningFee then
        if kDevFeePct ≤ s.feeFindsInCycle + n then (false, 0, 0)
        else (true, s.userFindsInCycle, s.feeFindsInCycle + n)
      else (decide (100 - kDevFeePct ≤ s.userFindsInCycle + n), s.userFindsInCycle + n,
        s.feeFindsInCycle) := by
  obtain ⟨hm, hu, hf, hset⟩ := h.selectPayoutSalt
  unfold CudaEngine.countBatch stampAndCountHits counters
  dsimp only
  rw [hset, h.devFee]
  by_cases hn : n = 0
  · rw [if_pos (.inl hn), if_pos hn, hm, hu, hf]
  · rw [if_neg (by simp [hn]), if_neg hn, hm, hu, hf]
    cases hs : s.miningFee with
    | false => rfl
    | true =>
        rw [if_pos rfl, if_pos rfl]
        split <;> rfl

/-! ## Runs of batches -/

/-- The hits stamped `fee_block` in a run of batches. -/
def feeTotal (s : CudaEngine) : List Nat → Nat
  | [] => 0
  | n :: rest => s.feeStamped n + feeTotal (s.countBatch n) rest

/-- `fee` of `total` hits is one in a hundred, rounded down or up. -/
def FairShare (fee total : Nat) : Prop := total / 100 ≤ fee ∧ fee ≤ (total + 99) / 100

/-- The share is fair after each batch of a run, on top of hits of earlier batches. -/
def FairThroughout (s : CudaEngine) (fee total : Nat) (counts : List Nat) : Prop :=
  ∀ p, p <+: counts → FairShare (fee + s.feeTotal p) (total + p.sum)

theorem fairThroughout_cons {s : CudaEngine} {fee total n : Nat} {rest : List Nat} :
    FairThroughout s fee total (n :: rest) ↔ FairShare fee total ∧
      FairThroughout (s.countBatch n) (fee + s.feeStamped n) (total + n) rest := by
  constructor
  · intro h
    refine ⟨by simpa [feeTotal] using h [] List.nil_prefix, fun p hp ↦ ?_⟩
    have hcons := h (n :: p) (List.prefix_cons_inj n |>.mpr hp)
    simpa [feeTotal, Nat.add_assoc] using hcons
  · rintro ⟨h₀, hrest⟩ p hp
    rcases List.prefix_cons_iff.mp hp with rfl | ⟨q, rfl, hq⟩
    · simpa [feeTotal] using h₀
    · simpa [feeTotal, Nat.add_assoc] using hrest q hq

/-- A batch does not bring more hits than its wallet has left in the cycle. -/
def FitsCycle (s : CudaEngine) (n : Nat) : Prop :=
  if s.miningFee then n ≤ kDevFeePct else s.userFindsInCycle + n ≤ 100 - kDevFeePct

instance (s : CudaEngine) (n : Nat) : Decidable (s.FitsCycle n) :=
  inferInstanceAs (Decidable (if s.miningFee then n ≤ kDevFeePct
    else s.userFindsInCycle + n ≤ 100 - kDevFeePct))

/-- No batch of the run brings more hits than its wallet has left. -/
def NoOvershoot (s : CudaEngine) : List Nat → Prop
  | [] => True
  | n :: rest => s.FitsCycle n ∧ NoOvershoot (s.countBatch n) rest

instance NoOvershoot.decide (s : CudaEngine) : (counts : List Nat) →
    Decidable (NoOvershoot s counts)
  | [] => isTrue trivial
  | n :: rest =>
      have := NoOvershoot.decide (s.countBatch n) rest
      inferInstanceAs (Decidable (s.FitsCycle n ∧ NoOvershoot (s.countBatch n) rest))

/-- No batch for the fee wallet brings more than the one hit that is the fee's. -/
def SingleFees (s : CudaEngine) : List Nat → Prop
  | [] => True
  | n :: rest => (s.miningFee = true → n ≤ kDevFeePct) ∧ SingleFees (s.countBatch n) rest

/-- Where a cycle is when every batch so far has fitted: after `fee` whole cycles come the hits of
the user in this one, ninety-nine of them by the time the fee is mined. -/
structure OnTrack (s : CudaEngine) (fee total : Nat) : Prop where
  noFees : s.feeFindsInCycle = 0
  user : s.miningFee = false →
    total = 100 * fee + s.userFindsInCycle ∧ s.userFindsInCycle < 100 - kDevFeePct
  due : s.miningFee = true → total = 100 * fee + (100 - kDevFeePct)

/-- A cycle that is on track gives fair shares. -/
theorem OnTrack.fair {s : CudaEngine} {fee total : Nat} (h : OnTrack s fee total) :
    FairShare fee total := by
  have huser := h.user
  have hdue := h.due
  unfold kDevFeePct at huser hdue
  unfold FairShare
  cases hf : s.miningFee with
  | false => obtain ⟨ht, hlt⟩ := huser hf; omega
  | true => have ht := hdue hf; omega

/-- **A batch that fits keeps the cycle on track.** -/
theorem OnTrack.countBatch {s : CudaEngine} {fee total n : Nat} (hfee : TakesFee s)
    (h : OnTrack s fee total) (hfits : s.FitsCycle n) :
    OnTrack (s.countBatch n) (fee + s.feeStamped n) (total + n) := by
  have hcount := hfee.counters_countBatch n
  have hnone := h.noFees
  have hm : (s.countBatch n).miningFee = _ := congrArg (·.1) hcount
  have hu : (s.countBatch n).userFindsInCycle = _ := congrArg (·.2.1) hcount
  have hf : (s.countBatch n).feeFindsInCycle = _ := congrArg (·.2.2) hcount
  rw [hfee.feeStamped]
  unfold FitsCycle at hfits
  by_cases hn : n = 0
  · simp only [if_pos hn] at hm hu hf
    subst hn
    rw [ite_self, Nat.add_zero, Nat.add_zero]
    refine ⟨hf.trans hnone, fun hs ↦ ?_, fun hs ↦ h.due (hm.symm.trans hs)⟩
    rw [hu]
    exact h.user (hm.symm.trans hs)
  simp only [if_neg hn] at hm hu hf
  cases hs : s.miningFee with
  | false =>
      obtain ⟨ht, hlt⟩ := h.user hs
      simp only [hs, Bool.false_eq_true, if_false] at hfits hm hu hf ⊢
      refine ⟨hf.trans hnone, fun hnot ↦ ?_, fun hyes ↦ ?_⟩
      · have hleft := of_decide_eq_false (hm.symm.trans hnot)
        rw [hu]
        omega
      · have hfull := of_decide_eq_true (hm.symm.trans hyes)
        omega
  | true =>
      have ht := h.due hs
      have hdone : kDevFeePct ≤ s.feeFindsInCycle + n := by unfold kDevFeePct; omega
      simp only [hs, if_true, if_pos hdone] at hfits hm hu hf ⊢
      refine ⟨hf, fun _ ↦ ?_, fun hyes ↦ absurd (hm.symm.trans hyes) (by simp)⟩
      rw [hu]
      unfold kDevFeePct at *
      omega

/-- A batch that overshoots the share of the user is one after which the share is not fair. -/
theorem OnTrack.fits_of_fair {s : CudaEngine} {fee total n : Nat} (hfee : TakesFee s)
    (h : OnTrack s fee total) (hsingle : s.miningFee = true → n ≤ kDevFeePct)
    (hfair : FairShare (fee + s.feeStamped n) (total + n)) : s.FitsCycle n := by
  unfold FitsCycle
  cases hs : s.miningFee with
  | true => exact hsingle hs
  | false =>
      obtain ⟨ht, hlt⟩ := h.user hs
      have hlow := hfair.1
      rw [hfee.feeStamped, hs, if_neg (by simp)] at hlow
      rw [if_neg (by simp)]
      unfold kDevFeePct at *
      omega

/-- The share stays fair in a run without overshoot. -/
theorem OnTrack.fairThroughout {s : CudaEngine} {fee total : Nat} (hfee : TakesFee s)
    (h : OnTrack s fee total) {counts : List Nat} (hno : NoOvershoot s counts) :
    FairThroughout s fee total counts := by
  induction counts generalizing s fee total with
  | nil =>
      intro p hp
      rw [List.prefix_nil.mp hp]
      exact h.fair
  | cons n rest ih =>
      obtain ⟨hfits, hrest⟩ := hno
      exact fairThroughout_cons.mpr
        ⟨h.fair, ih (hfee.countBatch n) (h.countBatch hfee hfits) hrest⟩

/-- The first batch that overshoots the share of the user breaks it. -/
theorem OnTrack.noOvershoot {s : CudaEngine} {fee total : Nat} (hfee : TakesFee s)
    (h : OnTrack s fee total) {counts : List Nat} (hsingle : SingleFees s counts)
    (hfair : FairThroughout s fee total counts) : NoOvershoot s counts := by
  induction counts generalizing s fee total with
  | nil => trivial
  | cons n rest ih =>
      obtain ⟨hone, hsrest⟩ := hsingle
      obtain ⟨-, hrest⟩ := fairThroughout_cons.mp hfair
      have hnow := hrest [] List.nil_prefix
      rw [feeTotal, List.sum_nil, Nat.add_zero, Nat.add_zero] at hnow
      have hfits := h.fits_of_fair hfee hone hnow
      exact ⟨hfits, ih (hfee.countBatch n) (h.countBatch hfee hfits) hsrest hrest⟩

/-- The beginning of a cycle. -/
structure FreshCycle (s : CudaEngine) : Prop where
  user : s.miningFee = false
  userFinds : s.userFindsInCycle = 0
  feeFinds : s.feeFindsInCycle = 0

theorem FreshCycle.onTrack {s : CudaEngine} (h : FreshCycle s) : OnTrack s 0 0 where
  noFees := h.feeFinds
  user _ := by
    rw [h.userFinds]
    exact ⟨rfl, by decide⟩
  due hyes := absurd hyes (by simp [h.user])

/-- A new engine is at the beginning of a cycle. -/
theorem freshCycle_create (settings : Settings) (maxLanes : Nat) :
    FreshCycle (create settings maxLanes) := ⟨rfl, rfl, rfl⟩

/-- **The share of the fee is fair in every run in which no batch overshoots**, and where the
batches of the fee bring single hits, in no other. -/
theorem devFee_share {s : CudaEngine} (hfee : TakesFee s) (hfresh : FreshCycle s)
    (counts : List Nat) :
    (NoOvershoot s counts →
        ∀ p, p <+: counts → FairShare (s.feeTotal p) p.sum) ∧
      (SingleFees s counts →
        (∀ p, p <+: counts → FairShare (s.feeTotal p) p.sum) → NoOvershoot s counts) := by
  have hiff : FairThroughout s 0 0 counts ↔
      ∀ p, p <+: counts → FairShare (s.feeTotal p) p.sum := by
    simp only [FairThroughout, Nat.zero_add]
  rw [← hiff]
  exact ⟨fun hno ↦ hfresh.onTrack.fairThroughout hfee hno,
    fun hsingle hfair ↦ hfresh.onTrack.noOvershoot hfee hsingle hfair⟩

theorem takesFee_create_minerSettings : TakesFee (create minerSettings 2) := ⟨rfl, by decide⟩

/-- A hundred hits in batches that fit, the last one for the fee. -/
theorem devFee_share_hundred :
    FairShare ((create minerSettings 2).feeTotal [0, 60, 39, 0, 1]) [0, 60, 39, 0, 1].sum :=
  (devFee_share takesFee_create_minerSettings (freshCycle_create _ _) [0, 60, 39, 0, 1, 7]).1
    (by decide) _ (by decide)

/-- One batch of two hundred hits is the user's alone. -/
theorem not_devFee_share :
    ¬∀ (s : CudaEngine) (counts : List Nat), TakesFee s → FreshCycle s →
      ∀ p, p <+: counts → FairShare (s.feeTotal p) p.sum := by
  intro hall
  have h := hall (create minerSettings 2) [200] takesFee_create_minerSettings
    (freshCycle_create _ _) [200] (List.prefix_refl _)
  exact absurd h.1 (by decide)

end CudaEngine

end XNMiner
