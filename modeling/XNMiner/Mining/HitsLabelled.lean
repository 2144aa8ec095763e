import XNMiner.Mining.HitLabels

/-!
# Runs in which hits say what is true

What is in flight was hashed under the engine's own salt and difficulty (`Labelled`), as long as
the engine only changes to what everything in flight was hashed under, and no worker finds a hit
for a request that is no longer the engine's (`Settled`).  Then every hit that is returned has the
label of its wave.
-/

namespace XNMiner

open Lib

namespace CudaEngine

variable {s t : CudaEngine} {i : Nat} {salt : String} {difficulty : Int} {now : String}

/-- The step keeps what is on its way and the engine in agreement.  A new difficulty, or a payout
that is switched, is what everything in flight was hashed with already; a wave that finds a hit
hashes what is the engine's; and no payout switch is due when a drain reads a hit. -/
def Settled (s : CudaEngine) : Act → Prop
  | .setDifficulty m _ => s.InFlight s.activeSalt m
  | .mineBatch _ _ outcome => s.CanMine →
      s.InFlight s.selectPayoutSalt.activeSalt s.difficulty ∧
        (s.lanes = 1 → (∃ origin, origins (outcome.found origin) ≠ 0) →
          (toUint32 s.difficulty : Int) = s.difficulty)
  | .worker i outcome => ∀ w req, s.workers[i]? = some w → w.pc = .running req →
      origins (outcome.found { lane := i, wave := s.waves, epoch := w.epoch, req }) ≠ 0 →
        req.saltHex = s.activeSalt ∧ (req.difficulty : Int) = s.difficulty
  | .proceed _ => ∀ lane out, s.pc = .draining lane out → s.custody (.buffered lane) ≠ 0 → s.Wallet
  | _ => True

/-- What holds at any moment of a run whose steps are settled. -/
structure Labelled (s : CudaEngine) : Prop where
  flight : s.InFlight s.activeSalt s.difficulty
  asked : s.pc.Asks → ∀ i < s.lanes, (s.mailboxes i).Asked s.activeSalt s.difficulty
  wallet : s.pc.Mines → s.Wallet
  proto : ∀ proto, s.pc = .joining (.mine proto) → proto.salt = s.activeSalt
  carries : ∀ f ∈ s.pc.found ++ s.returned, Carries s.settings f

/-! ## Workers -/

namespace Labelled

theorem create (settings : Settings) (maxLanes : Nat) : Labelled (create settings maxLanes) := by
  refine ⟨fun p o ho ↦ ?_, False.elim, False.elim, nofun, nofun⟩
  cases p with
  | buffered i => simp [custody, buffered, CudaEngine.create] at ho
  | held i => simp [custody, held, CudaEngine.create] at ho
  | unread i => simp [custody, LaneMailbox.unread, CudaEngine.create] at ho
  | absorbed | returned => trivial

/-- A worker goes on: what it finds is hashed under the engine's salt and difficulty. -/
theorem workerMove (h : Labelled s) (hr : RingInv s) {w : LaneWorker} {outcome : Outcome}
    (hw : s.workers[i]? = some w) (hm : WorkerMove s i w outcome t)
    (hsettled : Settled s (.worker i outcome)) : Labelled t := by
  have hcall := hm.sameCall
  have hask : ∀ j, (t.mailboxes j).salt = (s.mailboxes j).salt ∧
      (t.mailboxes j).difficulty = (s.mailboxes j).difficulty := by
    intro j
    rcases hm.mailboxes with heq | ⟨req, result, err, -, heq⟩
    · rw [heq]
      exact ⟨rfl, rfl⟩
    · rw [heq]
      by_cases hj : j = i
      · subst hj
        rw [Function.update_self]
        exact ⟨rfl, rfl⟩
      · rw [Function.update_of_ne hj]
        exact ⟨rfl, rfl⟩
  refine ⟨?_, fun hpc j hj ↦ ?_, fun hpc ↦ ?_, fun proto hpc ↦ ?_, fun f hf ↦ ?_⟩
  · rw [hcall.activeSalt, hcall.difficulty]
    refine .of_holds (fun j ↦ .inl (hask j)) ?_
    cases hm.effect hr hw with
    | rests hc _ _ => exact hc ▸ h.flight
    | hashes req origin hpc _ horigin hrun _ _ =>
        subst horigin
        refine Custody.run_holds hrun (fun e he ↦ ?_) h.flight
        rcases List.mem_pair.mp he with rfl | rfl
        · exact fun o _ ho ↦ ho
        · intro o ho
          obtain ⟨pos, rfl⟩ := mem_origins_found ho
          exact hsettled w req hw hpc fun hzero ↦ Multiset.notMem_zero _ (hzero ▸ ho)
    | drops _ _ _ _ hlose _ _ => exact Custody.step_holds hlose trivial h.flight
    | writes hpass _ _ => exact Custody.step_holds hpass (fun o _ ho _ ↦ ho) h.flight
  · rw [hcall.pc] at hpc
    rw [hcall.lanes] at hj
    rw [LaneMailbox.Asked, (hask j).1, (hask j).2, hcall.activeSalt, hcall.difficulty]
    exact h.asked hpc j hj
  · have hstamp : SameStamp s t :=
      ⟨hcall.settings, hcall.difficulty, hcall.activePayout, hcall.activeSalt, hcall.miningFee⟩
    exact hstamp.wallet (h.wallet (hcall.pc ▸ hpc))
  · rw [hcall.activeSalt]
    exact h.proto proto (hcall.pc ▸ hpc)
  · rw [hcall.settings]
    rw [hcall.pc, hcall.returned] at hf
    exact h.carries f hf

/-! ## The mining thread in a call -/

/-- A call that ends. -/
theorem of_idle (hpc : t.pc = .idle) (hflight : t.InFlight t.activeSalt t.difficulty)
    (hcarries : ∀ f ∈ t.returned, Carries t.settings f) : Labelled t where
  flight := hflight
  asked := fun hno ↦ by rw [hpc] at hno; exact hno.elim
  wallet := fun hno ↦ by rw [hpc] at hno; exact hno.elim
  proto := fun proto hno ↦ by rw [hpc] at hno; cases hno
  carries := fun f hf ↦ by
    rw [hpc] at hf
    exact hcarries f hf

theorem carries_returned (h : Labelled s) : ∀ f ∈ s.returned, Carries s.settings f :=
  fun f hf ↦ h.carries f (List.mem_append_right _ hf)

theorem carries_found (h : Labelled s) : ∀ f ∈ s.pc.found, Carries s.settings f :=
  fun f hf ↦ h.carries f (List.mem_append_left _ hf)

/-- A call that has nothing to do. -/
theorem returns_nothing (h : Labelled s) : Labelled (s.returnResult {}) := by
  refine of_idle rfl (h.flight.returnResult {}) ?_
  change ∀ f ∈ s.returned ++ [], Carries s.settings f
  rw [List.append_nil]
  exact h.carries_returned

/-- The end of `mine_batch`. -/
theorem finishMine {out : MineBatchResult} {totalHs : Rat}
    (hflight : s.InFlight s.activeSalt s.difficulty)
    (hcarries : ∀ f ∈ out.hits ++ s.returned, Carries s.settings f) :
    Labelled (s.finishMine out totalHs) := by
  obtain ⟨hsettings, hsalt, hdiff⟩ := label_finishMine s out totalHs
  obtain ⟨u, hsame, out', heq, hperm⟩ := s.finishMine_flow out totalHs
  refine of_idle rfl ?_ fun f hf ↦ ?_
  · rw [hsalt, hdiff, heq]
    exact (hflight.sameFlow hsame.toSameFlow).returnResult out'
  · rw [hsettings]
    rw [heq] at hf
    rcases List.mem_append.mp hf with hf | hf
    · exact hcarries f (List.mem_append_right _ (hsame.returned ▸ hf))
    · obtain ⟨g, hg, rfl⟩ := List.mem_map.mp (hperm.mem_iff.mp hf)
      exact (hcarries g (List.mem_append_left _ hg)).hps totalHs

/-- The call goes on to `next`, where it has chosen a payout if it mines. -/
structure GoesOn (u : CudaEngine) (next : AfterJoin) : Prop where
  proto : ∀ proto, next = .mine proto → proto.salt = u.activeSalt ∧ u.Wallet
  carries : ∀ f ∈ u.returned, Carries u.settings f

theorem resume {u : CudaEngine} {next : AfterJoin} (h : GoesOn u next)
    (hflight : (u.resume next).InFlight u.activeSalt u.difficulty) : Labelled (u.resume next) := by
  cases next with
  | ready | stopped => exact of_idle rfl hflight h.carries
  | mine proto =>
      obtain ⟨hproto, hwallet⟩ := h.proto proto rfl
      exact ⟨hflight, fun _ i hi ↦ asked_publish hproto hi, fun _ ↦ hwallet, nofun, h.carries⟩

theorem stopLaneWorkers {u : CudaEngine} {next : AfterJoin} (h : GoesOn u next)
    (hflight : (u.stopLaneWorkers next).InFlight u.activeSalt u.difficulty) :
    Labelled (u.stopLaneWorkers next) where
  flight := hflight
  asked := fun hno ↦ by cases next <;> exact hno.elim
  wallet := fun hmines ↦ by
    cases next with
    | mine proto => exact (h.proto proto rfl).2
    | ready | stopped => exact hmines.elim
  proto := fun proto hpc ↦ by
    obtain rfl : next = .mine proto := by simpa [CudaEngine.stopLaneWorkers] using hpc
    exact (h.proto proto rfl).1
  carries := h.carries

theorem ensureLaneWorkers {u : CudaEngine} {next : AfterJoin} (h : GoesOn u next)
    (hflight : (u.ensureLaneWorkers next).InFlight u.activeSalt u.difficulty) :
    Labelled (u.ensureLaneWorkers next) := by
  rcases u.ensureLaneWorkers_cases next with heq | heq <;> rw [heq] at hflight ⊢
  · exact resume h hflight
  · exact stopLaneWorkers h hflight

theorem joined {u : CudaEngine} {next : AfterJoin} (h : GoesOn u next)
    (hflight : (u.joined next).InFlight u.activeSalt u.difficulty) : Labelled (u.joined next) := by
  have hnone : GoesOn u.dismissed next := ⟨h.proto, h.carries⟩
  have hnew : GoesOn u.dismissed.respawn next := ⟨h.proto, h.carries⟩
  rcases u.joined_cases next with heq | ⟨-, -, heq⟩ <;> rw [heq] at hflight ⊢
  · exact resume hnone hflight
  · exact resume hnew hflight

/-- **The mining thread goes on**: what it reads was asked for by this very call, and what it drains
is the engine's. -/
theorem miningMove (h : Labelled s) (hr : RingInv s) (hmail : MailInv s)
    (hm : MiningMove s now t) (hsettled : Settled s (.proceed now)) : Labelled t := by
  obtain ⟨hsettings, hsalt, hdiff⟩ := hm.label
  have hflight : t.InFlight t.activeSalt t.difficulty := by
    rw [hsalt, hdiff]
    exact h.flight.miningMove hr hmail hm
  cases hm with
  | joins next hpc _ =>
      refine joined ⟨fun proto hnext ↦ ?_, h.carries_returned⟩ ?_
      · subst hnext
        exact ⟨h.proto proto hpc, h.wallet (by rw [hpc]; trivial)⟩
      · rw [← hsalt, ← hdiff]
        exact hflight
  | reads hpc _ =>
      exact ⟨hflight, fun _ ↦ h.asked (by rw [hpc]; trivial),
        fun _ ↦ h.wallet (by rw [hpc]; trivial), by simp, h.carries_returned⟩
  | absorbs lane out totalHs hps out' totalHs' hpc hlane hgood hhits =>
      have hready := hr.ready lane out totalHs hpc lane (Nat.le_refl _) hlane
      have hasked : ∀ j < s.lanes, (s.mailboxes j).Asked s.activeSalt s.difficulty :=
        h.asked (by rw [hpc]; trivial)
      have hwallet : s.Wallet := h.wallet (by rw [hpc]; trivial)
      refine ⟨hflight, fun _ j hj ↦ ?_, fun _ ↦ hwallet, by simp, fun f hf ↦ ?_⟩
      · by_cases hjl : j = lane
        · subst hjl
          simpa [LaneMailbox.Asked] using hasked j hj
        · simpa [LaneMailbox.Asked, hjl] using hasked j hj
      · refine (List.mem_append.mp hf).elim ?_ (h.carries_returned f)
        refine Wallet.carries_addMatches (fun _ ↦ hwallet) (fun o ho ↦ ?_) (fun f hf ↦ ?_) f
        · refine h.flight (.unread lane) o ?_ (hasked lane hlane)
          simp only [custody, LaneMailbox.unread, Ring.unread_eq_cons hready, List.flatMap_cons,
            origins_append]
          exact Multiset.mem_add.mpr (.inl ho)
        · refine h.carries_found f ?_
          rw [hpc]
          change f ∈ out.hits
          exact hhits ▸ hf
  | throws => exact of_idle rfl hflight h.carries_returned
  | finishes lane out totalHs hpc _ =>
      refine finishMine h.flight fun f hf ↦ ?_
      have hcarries := h.carries f
      rw [hpc] at hcarries
      exact hcarries hf
  | drains lane out backend attempts out' hpc hb hhits =>
      refine ⟨hflight, False.elim, False.elim, by simp, fun f hf ↦ ?_⟩
      have hbuffered := custody_buffered hb
      refine (List.mem_append.mp hf).elim ?_ (h.carries_returned f)
      refine Wallet.carries_addMatches (s := s.emptyLane lane backend) (fun hne ↦ ?_)
        (fun o ho ↦ ?_) (fun f hf ↦ ?_) f
      · exact hsettled lane out hpc (hbuffered ▸ hne)
      · exact h.flight (.buffered lane) o (hbuffered ▸ ho)
      · refine h.carries_found f ?_
        rw [hpc]
        change f ∈ out.hits
        exact hhits ▸ hf
  | drained lane out hpc _ =>
      obtain ⟨u, hsame, out', heq, hhits⟩ := s.finishDrain_flow out
      refine of_idle rfl hflight fun f hf ↦ ?_
      rw [hsettings]
      rw [heq] at hf
      rcases List.mem_append.mp hf with hf | hf
      · exact h.carries_returned f (hsame.returned ▸ hf)
      · refine h.carries_found f ?_
        rw [hpc]
        change f ∈ out.hits
        exact hhits ▸ hf

/-! ## Calls -/

/-- Between two calls that mine, everything in flight was hashed like this. -/
structure Calm (salt : String) (difficulty : Int) (s : CudaEngine) : Prop where
  flight : s.InFlight salt difficulty
  pc : s.pc = .idle ∨ s.pc = .joining .ready
  carries : ∀ f ∈ s.returned, Carries s.settings f

/-- Calls that change only the plan hash nothing. -/
theorem calm_control : ControlRule (Calm salt difficulty) where
  flow := fun hpc hflow h ↦ by
    refine ⟨h.flight.sameFlow hflow, .inl (hflow.pc.trans hpc), ?_⟩
    rw [hflow.settings, hflow.returned]
    exact h.carries
  sync := fun {s} hpc h ↦ by
    have hd : Discards (fun _ ↦ True) s s.syncLanes := .syncLanes fun _ _ _ ↦ trivial
    exact ⟨h.flight.of_discards hd (sameAsk_of_mailboxes rfl), .inl hpc, h.carries⟩
  join := fun {s} hpc h ↦ by
    have hd : Discards (fun _ ↦ True) s (s.stopLaneWorkers .ready) :=
      .stopLaneWorkers (by rw [hpc]; rfl) .ready
    exact ⟨h.flight.of_discards hd (sameAsk_of_mailboxes rfl), .inr rfl, h.carries⟩

theorem Calm.labelled (h : Calm t.activeSalt t.difficulty t) : Labelled t := by
  rcases h.pc with hpc | hpc
  · exact of_idle hpc h.flight h.carries
  · refine ⟨h.flight, fun hno ↦ ?_, fun hno ↦ ?_, fun proto hno ↦ ?_, fun f hf ↦ ?_⟩
    · rw [hpc] at hno
      exact hno.elim
    · rw [hpc] at hno
      exact hno.elim
    · rw [hpc] at hno
      cases hno
    · rw [hpc] at hf
      exact h.carries f hf

/-- A call that changes only the plan changes to nothing that is not in flight already. -/
theorem control (h : Labelled s) (hpc : s.pc = .idle) {a : Act} (ha : a.Control)
    (hsettled : Settled s a) : Labelled (s.call a) := by
  refine Calm.labelled ?_
  by_cases hset : ∃ m plan, a = .setDifficulty m plan
  · obtain ⟨m, plan, rfl⟩ := hset
    have hlabel := label_setDifficulty (s := s) m plan
    change Calm (s.setDifficulty m plan).activeSalt (s.setDifficulty m plan).difficulty _
    rw [hlabel.1, hlabel.2]
    exact calm_control.call hpc ⟨hsettled, .inl hpc, h.carries_returned⟩ ha
  · have hlabel := label_control (s := s) ha fun m plan heq ↦ hset ⟨m, plan, heq⟩
    rw [hlabel.1, hlabel.2]
    exact calm_control.call hpc ⟨h.flight, .inl hpc, h.carries_returned⟩ ha

/-! ## A call that mines -/

section

variable {proto : Proto} {b b' : CudaHashBackend} {rest : List CudaHashBackend}
  {found : List HashApiMatch}

/-- The wave of the only lane takes the place of the one before. -/
theorem flight_hashedOneLane (h : s.InFlight salt difficulty) (hlanes : s.lanesImpl = b :: rest)
    (hnew : ∀ o ∈ origins b'.buffered, o.Under salt difficulty) :
    (s.hashedOneLane proto (b' :: rest) found).InFlight salt difficulty := by
  refine .of_holds (sameAsk_of_mailboxes rfl) fun p o ho ↦ ?_
  cases p with
  | absorbed | returned => trivial
  | held i => exact h (.held i) o ho
  | unread i => exact h (.unread i) o ho
  | buffered i =>
      cases i with
      | zero => exact hnew o ho
      | succ i =>
          refine h (.buffered (i + 1)) o ?_
          simpa [custody, buffered, hlanes, hashedOneLane] using ho

/-- **The only lane**: it returns what it had kept, and keeps what it finds. -/
theorem oneLaneMove (hwallet : s.Wallet) (hproto : proto.salt = s.activeSalt)
    (hflight : s.InFlight s.activeSalt s.difficulty)
    (hcarries : ∀ f ∈ s.returned, Carries s.settings f) {outcome : Outcome} (hpc : s.pc = .idle)
    (hfound : (∃ origin, origins (outcome.found origin) ≠ 0) →
      (toUint32 s.difficulty : Int) = s.difficulty)
    (hm : OneLaneMove s proto now outcome t) : Labelled t := by
  have hnew (origin : Origin) (hreq : (origin.req.saltHex, origin.req.difficulty) =
      (proto.salt, toUint32 s.difficulty)) :
      ∀ o ∈ origins (outcome.found origin), o.Under s.activeSalt s.difficulty := by
    intro o ho
    obtain ⟨pos, rfl⟩ := mem_origins_found ho
    obtain ⟨hsalt, hdiff⟩ := Prod.mk.inj hreq
    refine ⟨hsalt.trans hproto, ?_⟩
    change (origin.req.difficulty : Int) = s.difficulty
    rw [hdiff]
    exact hfound ⟨origin, fun hzero ↦ Multiset.notMem_zero _ (hzero ▸ ho)⟩
  cases hm with
  | lacks _ => exact of_idle hpc hflight hcarries
  | throws b b' rest origin result err what hlanes hreq hanswer hbad =>
      refine of_idle rfl ?_ hcarries
      have hkept : ∀ o ∈ origins b'.buffered, o.Under s.activeSalt s.difficulty := by
        cases hanswer with
        | hashed hok => rw [hok] at hbad; cases hbad
        | failed _ _ _ _ hdropped => simp [hdropped]
        | kept =>
            intro o ho
            refine hflight (.buffered 0) o ?_
            simpa [custody, buffered, hlanes] using ho
      have hheld : (s.hashedOneLane proto (b' :: rest) (outcome.found origin)).InFlight
          s.activeSalt s.difficulty := flight_hashedOneLane hflight hlanes hkept
      refine .of_holds (sameAsk_of_mailboxes rfl) fun p o ho ↦ ?_
      cases p with
      | absorbed | returned => trivial
      | buffered i => exact hheld (.buffered i) o ho
      | held i => exact hheld (.held i) o ho
      | unread i => exact hheld (.unread i) o ho
  | returns b b' rest origin result err hps totalHs out hlanes hreq hanswer hok hnone =>
      obtain ⟨hmatches, hbuffered⟩ : result.matches = b.buffered ∧
          b'.buffered = outcome.found origin := by
        cases hanswer with
        | hashed _ hmatches hbuffered => exact ⟨hmatches, hbuffered⟩
        | failed _ _ hbad => rw [hok] at hbad; cases hbad
        | kept _ hbad => rw [hok] at hbad; cases hbad
      have hbefore : ∀ o ∈ origins result.matches, o.Under s.activeSalt s.difficulty := by
        intro o ho
        refine hflight (.buffered 0) o ?_
        simpa [custody, buffered, hlanes, ← hmatches] using ho
      refine finishMine (flight_hashedOneLane hflight hlanes ?_) fun f hf ↦ ?_
      · rw [hbuffered]
        exact hnew origin hreq
      · refine (List.mem_append.mp hf).elim ?_ (hcarries f)
        refine Wallet.carries_addMatches (s := s.hashedOneLane proto (b' :: rest) _)
          (fun _ ↦ hwallet) hbefore ?_ f
        simp [hnone]

end

/-- The payout has been chosen, and everything in flight goes with it. -/
theorem flight_protoOf (hpc : s.pc = .idle) (minutes : Nat × Nat × Nat)
    (hflight : s.InFlight s.selectPayoutSalt.activeSalt s.difficulty)
    (hcarries : ∀ f ∈ s.returned, Carries s.settings f) :
    let u := (s.protoOf minutes).2
    u.InFlight u.activeSalt u.difficulty ∧ u.Wallet ∧ u.pc = .idle ∧
      ∀ f ∈ u.returned, Carries u.settings f := by
  intro u
  have hsame : SameWork s u := sameWork_protoOf s minutes
  have hstamp : SameStamp s.selectPayoutSalt u := (protoOf_stamp s minutes).1
  refine ⟨?_, hstamp.wallet (wallet_selectPayoutSalt s), hsame.pc.trans hpc, ?_⟩
  · rw [hstamp.activeSalt, hsame.difficulty]
    exact hflight.sameFlow hsame.toSameFlow
  · rw [hsame.settings, hsame.returned]
    exact hcarries

theorem mineBatch (h : Labelled s) (hpc : s.pc = .idle) (hmail : MailInv s)
    (minutes : Nat × Nat × Nat) (outcome : Outcome)
    (hsettled : Settled s (.mineBatch minutes now outcome)) :
    Labelled (s.mineBatch minutes now outcome) := by
  have hproto := (protoOf_stamp s minutes).2
  have hsame := sameWork_protoOf s minutes
  rcases s.mineBatch_cases minutes now outcome with heq | ⟨hmine, hone, heq⟩ | ⟨hmine, -, heq⟩ <;>
    rw [heq]
  · exact returns_nothing h
  · obtain ⟨hflight, hfound⟩ := hsettled hmine
    obtain ⟨hflight, hwallet, hidle, hcarries⟩ :=
      flight_protoOf hpc minutes hflight h.carries_returned
    refine oneLaneMove hwallet hproto hflight hcarries hidle ?_ (mineOneLane_cases _ _ now outcome)
    rw [hsame.difficulty]
    exact hfound hone
  · obtain ⟨hflight, hwallet, hidle, hcarries⟩ :=
      flight_protoOf hpc minutes (hsettled hmine).1 h.carries_returned
    have hd := Discards.ensureLaneWorkers (L := fun _ ↦ True)
      (hmail.of_same hsame.mailboxes hsame.workers) (by rw [hidle]; rfl)
      (.mine (s.protoOf minutes).1)
    refine ensureLaneWorkers ⟨fun proto hmines ↦ ?_, hcarries⟩
      (hflight.of_discards hd (sameAsk_ensureLaneWorkers _ _))
    obtain rfl := AfterJoin.mine.inj hmines
    exact ⟨hproto, hwallet⟩

/-- A call begins. -/
theorem call (h : Labelled s) (hpc : s.pc = .idle) (hmail : MailInv s) (a : Act)
    (hsettled : Settled s a) : Labelled (s.call a) := by
  cases a with
  | mineBatch minutes now outcome => exact h.mineBatch hpc hmail minutes outcome hsettled
  | stop =>
      have hd : Discards (fun _ ↦ True) s (s.stopLaneWorkers .stopped) :=
        .stopLaneWorkers (by rw [hpc]; rfl) .stopped
      exact stopLaneWorkers ⟨by simp, h.carries_returned⟩
        (h.flight.of_discards hd (sameAsk_of_mailboxes rfl))
  | drainPipeline =>
      simp only [CudaEngine.call]
      split
      · exact returns_nothing h
      · have hd : Discards (fun _ ↦ True) s { s with pc := .draining 0 {} } :=
          .of_same rfl rfl rfl rfl rfl rfl (by rw [hpc]; rfl)
        exact ⟨h.flight.of_discards hd (sameAsk_of_mailboxes rfl), False.elim, False.elim, by simp,
          h.carries_returned⟩
  | proceed | worker => exact h
  | start | setDifficulty | restoreLaneCap | reduceLaneCap | addLaneCap | setBatch
    | setQueueCounts => exact h.control hpc trivial hsettled

end Labelled

/-! ## Runs -/

/-- What holds at any moment of a run whose steps are settled. -/
structure Truthful (s : CudaEngine) : Prop where
  rings : RingInv s
  mail : MailInv s
  labels : Labelled s

theorem truthful_create (settings : Settings) (maxLanes : Nat) :
    Truthful (create settings maxLanes) :=
  ⟨ringInv_create settings maxLanes, .create settings maxLanes, .create settings maxLanes⟩

theorem Truthful.step (h : Truthful s) {a : Act} (hs : Guarded Step Settled s a t) :
    Truthful t := by
  refine ⟨h.rings.step hs.1, h.mail.step hs.1, ?_⟩
  obtain ⟨hs, hsettled⟩ := hs
  cases step_inv hs with
  | worker hw hm => exact h.labels.workerMove h.rings hw hm hsettled
  | proceed hm => exact h.labels.miningMove h.rings h.mail hm hsettled
  | call a hpc _ => exact h.labels.call hpc h.mail a hsettled

/-- **In a run whose steps are settled, every hit that is returned has the difficulty, the salt,
the account and the fee flag that its key was hashed for.** -/
theorem returned_carries {settings : Settings} {maxLanes : Nat} {as : List Act}
    (hrun : Run (Guarded Step Settled) (create settings maxLanes) as s) :
    ∀ f ∈ s.returned, Carries settings f := by
  have htruth : Truthful s := hrun.preserves (fun _ _ _ h hs ↦ h.step hs) (truthful_create _ _)
  have hsettings : s.settings = settings :=
    hrun.of_guarded.preserves (I := fun t ↦ t.settings = settings)
      (fun _ _ _ h hs ↦ (settings_step hs).trans h) rfl
  exact hsettings ▸ htruth.labels.carries_returned

/-- A card with room for one lane. -/
def oneLane : CudaVramPlan where
  lanes := 1
  plannedBatchPerLane := 64
  batchPerLane := 64
  one_le_lanes := by decide

/-- A wave that finds a block. -/
def findBlock : Act := .mineBatch (30, 30, 30) "" (.hashed [aMatch] 1)

/-- The block of a single lane is returned by the call after, with its label. -/
theorem returned_carries_oneLane : ∃ s : CudaEngine,
    Run (Guarded Step Settled) (create minerSettings 1)
        [.start 1 (some oneLane), findBlock, mineOnce] s ∧
      s.returned.length = 1 ∧ ∀ f ∈ s.returned, Carries minerSettings f := by
  let s₁ : CudaEngine := (create minerSettings 1).start 1 (some oneLane)
  let s₂ : CudaEngine := s₁.call findBlock
  have hstart : Guarded Step Settled (create minerSettings 1) (.start 1 (some oneLane)) s₁ :=
    ⟨rfl, trivial⟩
  have hnone : s₁.InFlight s₁.selectPayoutSalt.activeSalt s₁.difficulty := by
    intro p o ho
    cases p with
    | absorbed | returned => trivial
    | held | unread => exact absurd ho (Multiset.notMem_zero o)
    | buffered i => cases i <;> exact absurd ho (Multiset.notMem_zero o)
  have hfind : Guarded Step Settled s₁ findBlock s₂ :=
    ⟨rfl, fun _ ↦ ⟨hnone, fun _ _ ↦ by decide +kernel⟩⟩
  have htruth : Truthful s₂ := ((truthful_create _ _).step hstart).step hfind
  have hreturned : (s₂.step mineOnce).map (fun s ↦ s.returned.length) = some 1 := by decide +kernel
  obtain ⟨s₃, hs₃, hone⟩ := Option.map_eq_some_iff.mp hreturned
  have hbring : Guarded Step Settled s₂ mineOnce s₃ := by
    refine ⟨hs₃, fun _ ↦ ⟨?_, fun _ _ ↦ by decide +kernel⟩⟩
    have hsalt : s₂.selectPayoutSalt.activeSalt = s₂.activeSalt := by decide +kernel
    exact hsalt ▸ htruth.labels.flight
  have hrun := Run.cons hstart (.cons hfind (.single hbring))
  exact ⟨s₃, hrun, hone, returned_carries hrun⟩

/-- The difficulty changes before the block is brought: it is returned with the new one. -/
theorem not_returned_carries :
    ¬∀ (settings : Settings) (maxLanes : Nat) (as : List Act) (s : CudaEngine),
      Run Step (create settings maxLanes) as s → ∀ f ∈ s.returned, Carries settings f := by
  intro hall
  have hend : (exec step (create minerSettings 1) [.start 1 (some oneLane), findBlock,
      .setDifficulty 2200 (some oneLane), mineOnce]).map (fun s ↦ s.returned.map fun f ↦
        (f.hit.memoryCost, f.origin.req.difficulty)) = some [(some 2200, 1100)] := by
    decide +kernel
  obtain ⟨s, hs, hreturned⟩ := Option.map_eq_some_iff.mp hend
  obtain ⟨f, hf, hval⟩ := List.exists_of_mem_map (hreturned ▸ List.mem_singleton_self _)
  obtain ⟨hcost, hdiff⟩ := Prod.mk.inj hval
  have hsame := (hall _ _ _ s (run_of_exec hs) f hf).memoryCost
  rw [hcost, hdiff] at hsame
  exact absurd hsame (by decide)

end CudaEngine

end XNMiner
