import XNMiner.Mining.EngineBooks

/-!
# What a hit says of the wave it comes from

`hit_from_match` writes the difficulty, the salt, the account and the fee flag into a hit, and
takes them from the engine as it is when the match is read.  The match was hashed earlier: it has
been in the snapshot of its lane, and may have been in a ring, while `set_difficulty` or a payout
switch changed the engine.

`InFlight` says of all matches on their way that they were hashed under a given salt and
difficulty.  This module has what each call does to that, and to what the engine stamps.
-/

namespace XNMiner

open Lib

/-- The match was hashed with this salt and this difficulty. -/
def Origin.Under (o : Origin) (salt : String) (difficulty : Int) : Prop :=
  o.req.saltHex = salt ∧ (o.req.difficulty : Int) = difficulty

/-- The hit has the difficulty and the salt that its key was hashed with, and the account and the
fee flag are those that the salt belongs to. -/
structure Carries (settings : Settings) (f : Found) : Prop where
  memoryCost : f.hit.memoryCost = some (f.origin.req.difficulty : Int)
  saltHex : f.hit.saltHex = f.origin.req.saltHex
  wallet : f.hit.feeBlock = true ∧ f.hit.payoutAccount = kDevFeeAddress ∧
      f.origin.req.saltHex = Settings.devFeeSaltHex ∨
    f.hit.feeBlock = false ∧ f.hit.payoutAccount = settings.address ∧
      f.origin.req.saltHex = settings.saltHex

/-- The rate is no part of the label. -/
theorem Carries.hps {settings : Settings} {f : Found} (h : Carries settings f) (hps : Rat) :
    Carries settings { f with hit := { f.hit with hps } } :=
  ⟨h.memoryCost, h.saltHex, h.wallet⟩

/-- `mine_batch` has asked for these. -/
def LaneMailbox.Asked (box : LaneMailbox) (salt : String) (difficulty : Int) : Prop :=
  box.salt = salt ∧ box.difficulty = toUint32 difficulty

/-- In `mine_batch`, where the payout has been chosen. -/
def MiningPc.Mines : MiningPc → Prop
  | .joining (.mine _) | .waiting | .absorbing .. => True
  | _ => False

/-- In `mine_batch`, where the requests have been made. -/
def MiningPc.Asks : MiningPc → Prop
  | .waiting | .absorbing .. => True
  | _ => False

namespace CudaEngine

variable {s t : CudaEngine} {i : Nat} {salt : String} {difficulty : Int}

/-- The account, the salt and the fee flag belong together. -/
def Wallet (s : CudaEngine) : Prop :=
  s.miningFee = true ∧ s.activePayout = kDevFeeAddress ∧
      s.activeSalt = Settings.devFeeSaltHex ∨
    s.miningFee = false ∧ s.activePayout = s.settings.address ∧ s.activeSalt = s.settings.saltHex

/-- A match in this place was hashed with this salt and difficulty.  What is unread in a ring whose
mailbox has another request will be skipped. -/
def Label (s : CudaEngine) (salt : String) (difficulty : Int) : Place → Origin → Prop
  | .buffered _, o | .held _, o => o.Under salt difficulty
  | .unread i, o => (s.mailboxes i).Asked salt difficulty → o.Under salt difficulty
  | .absorbed, _ | .returned, _ => True

/-- Everything that is on its way was. -/
def InFlight (s : CudaEngine) (salt : String) (difficulty : Int) : Prop :=
  ∀ p, ∀ o ∈ s.custody p, s.Label salt difficulty p o

/-! ## What a hit is stamped with -/

theorem hitFromMatch_stamps {now : String} {m : HashApiMatch} {attempts : Nat} {hps : Rat}
    {hit : BlockHit} (h : s.hitFromMatch now m attempts hps = some hit) :
    m.isHit = true ∧ hit.memoryCost = some s.difficulty ∧ hit.payoutAccount = s.activePayout ∧
      hit.saltHex = s.activeSalt ∧ hit.feeBlock = s.miningFee := by
  have hsome := s.hitFromMatch_isSome now m attempts hps
  rw [h] at hsome
  unfold hitFromMatch at h
  split_ifs at h
  rw [← Option.some.inj h]
  exact ⟨hsome.symm, rfl, rfl, rfl, rfl⟩

/-- What the engine stamps on a match is true of one that was hashed under its salt and
difficulty. -/
theorem Wallet.carries (h : s.Wallet) {hit : BlockHit} {o : Origin}
    (ho : o.Under s.activeSalt s.difficulty) (hcost : hit.memoryCost = some s.difficulty)
    (hpayout : hit.payoutAccount = s.activePayout) (hsalt : hit.saltHex = s.activeSalt)
    (hfee : hit.feeBlock = s.miningFee) : Carries s.settings { hit, origin := o } where
  memoryCost := hcost.trans (congrArg some ho.2.symm)
  saltHex := hsalt.trans ho.1.symm
  wallet := by
    dsimp only
    rw [hfee, hpayout, ho.1]
    exact h

/-- So is what the engine stamps on all matches of a result. -/
theorem Wallet.carries_addMatches {now : String} {attempts : Nat} {hps : Rat}
    {ms : List HashApiMatch} {out : MineBatchResult} (hwallet : origins ms ≠ 0 → s.Wallet)
    (hunder : ∀ o ∈ origins ms, o.Under s.activeSalt s.difficulty)
    (hout : ∀ f ∈ out.hits, Carries s.settings f) :
    ∀ f ∈ (s.addMatches now attempts hps ms out).hits, Carries s.settings f := by
  refine forall_addMatches (fun m hm hit hhit ↦ ?_) hout
  obtain ⟨hm', hcost, hpayout, hsalt, hfee⟩ := hitFromMatch_stamps hhit
  have hmem : m.origin ∈ origins ms := mem_origins.mpr ⟨m, hm, hm', rfl⟩
  have hne : origins ms ≠ 0 := fun hzero ↦ Multiset.notMem_zero _ (hzero ▸ hmem)
  exact (hwallet hne).carries (hunder _ hmem) hcost hpayout hsalt hfee

/-! ## What is in flight -/

/-- The mailbox of the lane has the same request, or its ring is empty. -/
def SameAsk (s t : CudaEngine) (i : Nat) : Prop :=
  (t.mailboxes i).salt = (s.mailboxes i).salt ∧
      (t.mailboxes i).difficulty = (s.mailboxes i).difficulty ∨
    (t.mailboxes i).unread = []

/-- What was in flight still is, and the requests are the same. -/
theorem InFlight.of_holds (hask : ∀ i, SameAsk s t i)
    (h : ∀ p, ∀ o ∈ t.custody p, s.Label salt difficulty p o) : t.InFlight salt difficulty := by
  intro p o ho
  have hs := h p o ho
  cases p with
  | unread i =>
      intro hasked
      rcases hask i with ⟨hsalt, hdiff⟩ | hnone
      · exact hs ⟨hsalt ▸ hasked.1, hdiff ▸ hasked.2⟩
      · simp [custody, hnone] at ho
  | buffered | held => exact hs
  | absorbed | returned => trivial

/-- Nothing new is in flight. -/
theorem InFlight.of_discards {L : Place → Prop} (h : s.InFlight salt difficulty)
    (hd : Discards L s t) (hask : ∀ i, SameAsk s t i) : t.InFlight salt difficulty :=
  .of_holds hask fun p o ho ↦ (hd.custody p).elim (fun heq ↦ h p o (heq ▸ ho))
    fun hle ↦ h p o (Multiset.mem_of_le hle.1 ho)

theorem sameAsk_of_mailboxes (h : t.mailboxes = s.mailboxes) (i : Nat) : SameAsk s t i :=
  .inl (by rw [h]; exact ⟨rfl, rfl⟩)

/-- A request that changes empties the ring. -/
theorem sameAsk_publish (s : CudaEngine) (proto : Proto) (i : Nat) :
    SameAsk s (s.publish proto) i := by
  unfold SameAsk CudaEngine.publish LaneMailbox.ask
  dsimp only
  split
  · split
    · exact .inr (by simp [LaneMailbox.unread])
    · exact .inl ⟨rfl, rfl⟩
  · exact .inl ⟨rfl, rfl⟩

theorem sameAsk_resume (s : CudaEngine) (next : AfterJoin) (i : Nat) :
    SameAsk s (s.resume next) i := by
  cases next with
  | mine proto => exact sameAsk_publish s proto i
  | ready | stopped => exact .inl ⟨rfl, rfl⟩

/-- New workers start with empty rings, and a request does not fill them. -/
theorem sameAsk_respawn (s : CudaEngine) (next : AfterJoin) (i : Nat) :
    SameAsk s (s.respawn.resume next) i := by
  right
  have hnone : (s.respawn.mailboxes i).unread = [] := by
    simp [respawn, LaneMailbox.reset, LaneMailbox.unread, Ring.unread]
  cases next with
  | ready | stopped => exact hnone
  | mine proto =>
      simp only [CudaEngine.resume, CudaEngine.publish, LaneMailbox.ask]
      split
      · split
        · simp [LaneMailbox.unread]
        · exact hnone
      · exact hnone

theorem sameAsk_joined (s : CudaEngine) (next : AfterJoin) (i : Nat) :
    SameAsk s (s.joined next) i := by
  rcases s.joined_cases next with heq | ⟨-, -, heq⟩ <;> rw [heq]
  · exact sameAsk_resume s.dismissed next i
  · exact sameAsk_respawn s.dismissed next i

theorem sameAsk_ensureLaneWorkers (s : CudaEngine) (next : AfterJoin) (i : Nat) :
    SameAsk s (s.ensureLaneWorkers next) i := by
  rcases s.ensureLaneWorkers_cases next with heq | heq <;> rw [heq]
  · exact sameAsk_resume s next i
  · exact .inl ⟨rfl, rfl⟩

/-- The requests that `mine_batch` makes. -/
theorem asked_publish {proto : Proto} (hproto : proto.salt = s.activeSalt) {i : Nat}
    (hi : i < s.lanes) : ((s.publish proto).mailboxes i).Asked s.activeSalt s.difficulty := by
  simp only [CudaEngine.publish, if_pos hi, LaneMailbox.ask]
  split
  · exact ⟨hproto, rfl⟩
  · next hsame =>
      unfold LaneMailbox.Changed at hsame
      push Not at hsame
      exact ⟨hsame.1.trans hproto, hsame.2.1⟩

/-! ## What the engine stamps -/

/-- Hits are stamped alike. -/
structure SameStamp (s t : CudaEngine) : Prop where
  settings : t.settings = s.settings
  difficulty : t.difficulty = s.difficulty
  activePayout : t.activePayout = s.activePayout
  activeSalt : t.activeSalt = s.activeSalt
  miningFee : t.miningFee = s.miningFee

theorem SameStamp.wallet (h : SameStamp s t) (hw : s.Wallet) : t.Wallet := by
  unfold Wallet at hw ⊢
  rw [h.settings, h.activePayout, h.activeSalt, h.miningFee]
  exact hw

theorem sameStamp_resume (s : CudaEngine) (next : AfterJoin) : SameStamp s (s.resume next) := by
  cases next <;> constructor <;> rfl

theorem sameStamp_joined (s : CudaEngine) (next : AfterJoin) : SameStamp s (s.joined next) := by
  rcases s.joined_cases next with heq | ⟨-, -, heq⟩ <;> rw [heq]
  · exact { sameStamp_resume s.dismissed next with }
  · exact { sameStamp_resume s.dismissed.respawn next with }

theorem sameStamp_ensureLaneWorkers (s : CudaEngine) (next : AfterJoin) :
    SameStamp s (s.ensureLaneWorkers next) := by
  rcases s.ensureLaneWorkers_cases next with heq | heq <;> rw [heq]
  · exact sameStamp_resume s next
  · constructor <;> rfl

/-- The payout that is chosen is a wallet. -/
theorem wallet_selectPayoutSalt (s : CudaEngine) : s.selectPayoutSalt.Wallet := by
  unfold selectPayoutSalt
  split_ifs with hnone hfee
  · exact .inr ⟨rfl, rfl, rfl⟩
  · exact .inl ⟨hfee, rfl, rfl⟩
  · exact .inr ⟨by simpa using hfee, rfl, rfl⟩

theorem Wallet.request (h : s.Wallet) :
    (if s.activeSalt = "" then s.settings.saltHex else s.activeSalt) = s.activeSalt := by
  split
  · next hempty =>
      rcases h with ⟨-, -, hsalt⟩ | ⟨-, -, hsalt⟩
      · rw [hempty] at hsalt
        exact absurd hsalt (by decide)
      · exact hsalt.symm
  · rfl

theorem sameStamp_computeAllowXuniBase (s : CudaEngine) (minute taperMinute : Nat) :
    SameStamp s (s.computeAllowXuniBase minute taperMinute).2 := by
  unfold computeAllowXuniBase
  dsimp only
  split_ifs <;> constructor <;> rfl

/-- Choosing the payout depends on whose turn it is only. -/
theorem SameStamp.selectPayoutSalt (h : SameStamp s t) :
    SameStamp s.selectPayoutSalt t.selectPayoutSalt := by
  have hsame : t.sameWallet = s.sameWallet := by rw [sameWallet, sameWallet, h.settings]
  have haddress : t.settings.address = s.settings.address := by rw [h.settings]
  have hsalt : t.settings.saltHex = s.settings.saltHex := by rw [h.settings]
  have hfee : t.settings.devFee = s.settings.devFee := by rw [h.settings]
  unfold CudaEngine.selectPayoutSalt
  by_cases hnone : s.settings.devFee = false ∨ s.sameWallet = true
  · have hnone' : t.settings.devFee = false ∨ t.sameWallet = true := by rwa [hfee, hsame]
    rw [if_pos hnone, if_pos hnone']
    exact ⟨h.settings, h.difficulty, haddress, hsalt, rfl⟩
  have hnone' : ¬(t.settings.devFee = false ∨ t.sameWallet = true) := by rwa [hfee, hsame]
  rw [if_neg hnone, if_neg hnone']
  by_cases hdue : s.miningFee = true
  · rw [if_pos hdue, if_pos (h.miningFee.trans hdue)]
    exact ⟨h.settings, h.difficulty, rfl, rfl, h.miningFee⟩
  · rw [if_neg hdue, if_neg (h.miningFee.symm ▸ hdue)]
    exact ⟨h.settings, h.difficulty, haddress, hsalt, h.miningFee⟩

/-- `mine_batch` asks for the salt of the payout it has chosen. -/
theorem protoOf_stamp (s : CudaEngine) (minutes : Nat × Nat × Nat) :
    SameStamp s.selectPayoutSalt (s.protoOf minutes).2 ∧
      (s.protoOf minutes).1.salt = (s.protoOf minutes).2.activeSalt := by
  let u := (s.computeAllowXuniBase minutes.1 minutes.2.1).2
  have hu : SameStamp s u := sameStamp_computeAllowXuniBase ..
  have hlast : SameStamp s
      { u with lastAllowXuni := (s.computeAllowXuniBase minutes.1 minutes.2.1).1 } :=
    ⟨hu.settings, hu.difficulty, hu.activePayout, hu.activeSalt, hu.miningFee⟩
  exact ⟨hlast.selectPayoutSalt, (wallet_selectPayoutSalt _).request⟩

/-- Counting hits may switch the fee flag, and nothing else of the label. -/
theorem label_stampAndCountHits (s : CudaEngine) (n : Nat) :
    (s.stampAndCountHits n).settings = s.settings ∧
      (s.stampAndCountHits n).activeSalt = s.activeSalt ∧
      (s.stampAndCountHits n).difficulty = s.difficulty := by
  unfold stampAndCountHits
  dsimp only
  split_ifs <;> exact ⟨rfl, rfl, rfl⟩

theorem label_finishMine (s : CudaEngine) (out : MineBatchResult) (totalHs : Rat) :
    (s.finishMine out totalHs).settings = s.settings ∧
      (s.finishMine out totalHs).activeSalt = s.activeSalt ∧
      (s.finishMine out totalHs).difficulty = s.difficulty := label_stampAndCountHits _ _

/-! ## What a call does to the labels -/

variable {now : String}

theorem MiningMove.sameAsk (hm : MiningMove s now t) (j : Nat) : SameAsk s t j := by
  cases hm with
  | joins next _ _ => exact sameAsk_joined s next j
  | absorbs lane _ _ _ _ _ _ _ _ _ =>
      left
      by_cases hj : j = lane
      · subst hj
        simp
      · simp [hj]
  | finishes lane out totalHs _ _ =>
      obtain ⟨u, hsame, out', heq, -⟩ := s.finishMine_flow out totalHs
      rw [heq]
      exact sameAsk_of_mailboxes hsame.mailboxes j
  | drained lane out _ _ =>
      obtain ⟨u, hsame, out', heq, -⟩ := s.finishDrain_flow out
      rw [heq]
      exact sameAsk_of_mailboxes hsame.mailboxes j
  | reads | throws | drains => exact .inl ⟨rfl, rfl⟩

/-- What is in flight stays in flight, or is lost or returned. -/
theorem InFlight.miningMove (h : s.InFlight salt difficulty) (hr : RingInv s) (hmail : MailInv s)
    (hm : MiningMove s now t) : t.InFlight salt difficulty := by
  have hask := hm.sameAsk
  cases hm.effect hr hmail with
  | discards hd => exact h.of_discards hd hask
  | reads _ _ _ _ _ _ _ _ hpass _ =>
      exact .of_holds hask (Custody.step_holds hpass (fun _ _ _ ↦ trivial) h)
  | drains _ _ _ _ _ hpass _ =>
      exact .of_holds hask (Custody.step_holds hpass (fun _ _ _ ↦ trivial) h)
  | throws _ _ _ _ _ _ hlose _ => exact .of_holds hask (Custody.step_holds hlose trivial h)
  | returns _ hpass _ =>
      exact .of_holds hask (Custody.step_holds hpass (fun _ _ _ ↦ trivial) h)

/-- In a call only the fee flag can change, when its hits are counted. -/
theorem MiningMove.label (hm : MiningMove s now t) :
    t.settings = s.settings ∧ t.activeSalt = s.activeSalt ∧ t.difficulty = s.difficulty := by
  cases hm with
  | joins next _ _ =>
      have hstamp := sameStamp_joined s next
      exact ⟨hstamp.settings, hstamp.activeSalt, hstamp.difficulty⟩
  | finishes lane out totalHs _ _ => exact label_finishMine s out totalHs
  | drained => exact label_stampAndCountHits _ _
  | reads | absorbs | throws | drains => exact ⟨rfl, rfl, rfl⟩

theorem InFlight.returnResult (h : s.InFlight salt difficulty) (out : MineBatchResult) :
    (s.returnResult out).InFlight salt difficulty := by
  refine .of_holds (sameAsk_of_mailboxes rfl) fun p o ho ↦ ?_
  cases p with
  | absorbed | returned => trivial
  | buffered i => exact h (.buffered i) o ho
  | held i => exact h (.held i) o ho
  | unread i => exact h (.unread i) o ho

theorem InFlight.sameFlow (h : s.InFlight salt difficulty) (hflow : SameFlow s t) :
    t.InFlight salt difficulty :=
  .of_holds (sameAsk_of_mailboxes hflow.mailboxes) (custody_sameFlow hflow ▸ h)

/-! ## Calls that change the plan -/

/-- The label of the engine, a new plan apart. -/
theorem label_replan (m : Int) (plan : CudaVramPlan) :
    (s.replan m plan).activeSalt = s.activeSalt ∧ (s.replan m plan).difficulty = m := by
  unfold CudaEngine.replan
  dsimp only
  split <;> exact ⟨rfl, rfl⟩

theorem label_ensureLaneWorkers (s : CudaEngine) (next : AfterJoin) :
    (s.ensureLaneWorkers next).activeSalt = s.activeSalt ∧
      (s.ensureLaneWorkers next).difficulty = s.difficulty :=
  ⟨(sameStamp_ensureLaneWorkers s next).activeSalt, (sameStamp_ensureLaneWorkers s next).difficulty⟩

theorem label_ensureIfStarted (s : CudaEngine) :
    s.ensureIfStarted.activeSalt = s.activeSalt ∧ s.ensureIfStarted.difficulty = s.difficulty := by
  unfold ensureIfStarted
  split
  · exact label_ensureLaneWorkers s .ready
  · exact ⟨rfl, rfl⟩

/-- A new plan for the lanes. -/
theorem label_replan_ensure (m : Int) (plan : CudaVramPlan) :
    ((s.replan m plan).ensureLaneWorkers .ready).activeSalt = s.activeSalt ∧
      ((s.replan m plan).ensureLaneWorkers .ready).difficulty = m :=
  have hplan := label_replan m plan
  have hensure := label_ensureLaneWorkers (s.replan m plan) .ready
  ⟨hensure.1.trans hplan.1, hensure.2.trans hplan.2⟩

theorem label_setDifficulty (m : Int) (plan : Option CudaVramPlan) :
    (s.setDifficulty m plan).activeSalt = s.activeSalt ∧
      (s.setDifficulty m plan).difficulty = m := by
  unfold CudaEngine.setDifficulty
  split
  · next hsame => exact ⟨rfl, hsame.1.symm⟩
  split
  · cases plan with
    | none => exact ⟨rfl, rfl⟩
    | some plan => exact label_replan_ensure m plan
  · exact ⟨rfl, rfl⟩

/-- A call that changes only the plan does not change the label, but for `set_difficulty`. -/
theorem label_control {a : Act} (ha : a.Control) (hset : ∀ m plan, a ≠ .setDifficulty m plan) :
    (s.call a).activeSalt = s.activeSalt ∧ (s.call a).difficulty = s.difficulty := by
  cases a with
  | start configLanes plan =>
      simp only [CudaEngine.call, CudaEngine.start]
      split
      · exact ⟨rfl, rfl⟩
      cases plan with
      | none => exact ⟨rfl, rfl⟩
      | some plan =>
          let u : CudaEngine :=
            { s with configMaxLanes := max 1 configLanes, maxLanesCap := max 1 configLanes }
          have hplan : (u.replan s.difficulty plan).activeSalt = s.activeSalt ∧
              (u.replan s.difficulty plan).difficulty = s.difficulty := label_replan _ plan
          have hensure := label_ensureLaneWorkers
            { (u.replan s.difficulty plan).syncLanes with started := true } .ready
          exact ⟨hensure.1.trans hplan.1, hensure.2.trans hplan.2⟩
  | setDifficulty m plan => exact absurd rfl (hset m plan)
  | restoreLaneCap plan =>
      simp only [CudaEngine.call]
      split
      · exact ⟨rfl, rfl⟩
      split
      · cases plan with
        | none => exact ⟨rfl, rfl⟩
        | some plan => exact label_replan_ensure s.difficulty plan
      · exact ⟨rfl, rfl⟩
  | reduceLaneCap => exact label_ensureIfStarted _
  | addLaneCap =>
      simp only [CudaEngine.call, CudaEngine.addLaneCap]
      split
      · exact ⟨rfl, rfl⟩
      · exact label_ensureIfStarted _
  | setBatch | setQueueCounts => exact ⟨rfl, rfl⟩
  | stop | mineBatch | drainPipeline | proceed | worker => exact ha.elim

/-! ## The settings -/

theorem OneLaneMove.settings {proto : Proto} {outcome : Outcome}
    (hm : OneLaneMove s proto now outcome t) : t.settings = s.settings := by
  cases hm with
  | returns => exact (label_finishMine _ _ _).1
  | lacks | throws => rfl

/-- The settings of an engine never change. -/
theorem settings_call (hpc : s.pc = .idle) (a : Act) : (s.call a).settings = s.settings := by
  have rule : ControlRule fun t ↦ t.settings = s.settings :=
    ⟨fun _ hflow h ↦ hflow.settings.trans h, fun _ h ↦ h, fun _ h ↦ h⟩
  cases a with
  | mineBatch minutes now outcome =>
      have hsame : (s.protoOf minutes).2.settings = s.settings :=
        (sameWork_protoOf s minutes).settings
      change (s.mineBatch minutes now outcome).settings = _
      rcases s.mineBatch_cases minutes now outcome with heq | ⟨-, -, heq⟩ | ⟨-, -, heq⟩ <;>
        rw [heq]
      · rfl
      · exact (mineOneLane_cases (s.protoOf minutes).2 _ now outcome).settings.trans hsame
      · exact (sameStamp_ensureLaneWorkers _ _).settings.trans hsame
  | drainPipeline =>
      simp only [CudaEngine.call]
      split <;> rfl
  | stop | proceed | worker => rfl
  | start | setDifficulty | restoreLaneCap | reduceLaneCap | addLaneCap | setBatch
    | setQueueCounts => exact rule.call hpc rfl trivial

theorem settings_step {a : Act} (hs : Step s a t) : t.settings = s.settings := by
  cases step_inv hs with
  | worker _ hm => exact hm.sameCall.settings
  | proceed hm => exact hm.label.1
  | call a hpc _ => exact settings_call hpc a

end CudaEngine

end XNMiner
