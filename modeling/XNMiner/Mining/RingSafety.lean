import XNMiner.Lib.Channel
import XNMiner.Mining.EngineMail

/-!
# What a ring is to its lane

A worker writes a slot in several steps, and without the lock: it reads `produced`, moves the
result and the text of the error into the slot, and then counts.  All of this happens while it is
at `publishing`, so it is enough that there, whatever the others do meanwhile, the slot of
`produced` is not one of those that are unread.  The slot that `mine_batch` reads is one of them.

The ring of a lane is then a channel from its worker to `mine_batch`.  A request that changes
restarts it, and new workers find it closed until the first request comes.
-/

namespace XNMiner

open Lib

/-- A slot of `ring` with its slot of `ring_err`. -/
abbrev Entry := HashApiResult × String

/-- The ring as a channel; without a request it is closed. -/
def LaneMailbox.channel (box : LaneMailbox) : Option (List Entry) :=
  if box.seq = 0 then none else some box.ring.unread

namespace CudaEngine

/-! ## Logs -/

/-- What the worker of lane `i` publishes. -/
def publishedBy (i : Nat) (s : CudaEngine) : Act → List Entry
  | .worker lane _ =>
      if lane = i then
        match (s.workers[i]?).map LaneWorker.pc with
        | some (.publishing _ result err) => [(result, err)]
        | _ => []
      else []
  | _ => []

/-- What `mine_batch` absorbs from lane `i`.  Where a result cannot be read it throws, and the
result stays. -/
def absorbedBy (i : Nat) (s : CudaEngine) : Act → List Entry
  | .proceed _ =>
      match s.pc with
      | .absorbing lane _ _ =>
          if lane = i ∧ i < s.lanes ∧ Good (s.mailboxes i).ring.oldest then
            [(s.mailboxes i).ring.oldest]
          else []
      | _ => []
  | _ => []

/-- All that the worker of lane `i` publishes in a run. -/
def published (i : Nat) (s : CudaEngine) (as : List Act) : List Entry :=
  logOf step (publishedBy i) s as

/-- All that `mine_batch` absorbs from lane `i` in a run. -/
def absorbed (i : Nat) (s : CudaEngine) (as : List Act) : List Entry :=
  logOf step (absorbedBy i) s as

variable {s t u : CudaEngine} {i : Nat} {as bs : List Act}

/-! ## What a step does to a mailbox -/

/-- What a call may have done to a mailbox. -/
inductive Renewal (box box' : LaneMailbox) : Prop
  | same : box'.seq = box.seq → box'.ring = box.ring → box'.asks = box.asks → Renewal box box'
  /-- It holds another request. -/
  | asked : box'.seq ≠ 0 → box'.ring.unread = [] → box'.asks = box.asks + 1 → Renewal box box'
  /-- It is ready for new workers. -/
  | emptied : box'.seq = 0 → box'.asks = box.asks → Renewal box box'

theorem Renewal.refl (box : LaneMailbox) : Renewal box box := .same rfl rfl rfl

theorem Renewal.trans_same {box box' box'' : LaneMailbox} (h : Renewal box box')
    (hseq : box''.seq = box'.seq) (hring : box''.ring = box'.ring)
    (hasks : box''.asks = box'.asks) : Renewal box box'' := by
  cases h with
  | same hseq' hring' hasks' =>
      exact .same (hseq.trans hseq') (hring.trans hring') (hasks.trans hasks')
  | asked hseq' hunread' hasks' =>
      exact .asked (hseq ▸ hseq') (hring ▸ hunread') (hasks.trans hasks')
  | emptied hseq' hasks' => exact .emptied (hseq.trans hseq') (hasks.trans hasks')

/-- The mailboxes of `t` come from those of `s`. -/
def Renewed (s t : CudaEngine) : Prop := ∀ i, Renewal (s.mailboxes i) (t.mailboxes i)

theorem Renewed.of_same (h : Renewed s t) (hboxes : u.mailboxes = t.mailboxes) : Renewed s u :=
  fun i ↦ hboxes ▸ h i

/-- Where a mailbox is the same or has been emptied, another request can follow. -/
theorem Renewal.ask {box box' : LaneMailbox} (h : Renewal box box') (hasks : box'.asks = box.asks)
    (proto : Proto) (difficulty batchSize : Nat) :
    Renewal box (box'.ask proto difficulty batchSize) := by
  unfold LaneMailbox.ask
  split
  · exact .asked (Nat.succ_ne_zero _) (Ring.unread_clear _) (congrArg (· + 1) hasks)
  · exact h

theorem Renewed.publish (h : Renewed s t) (hasks : ∀ i, (t.mailboxes i).asks = (s.mailboxes i).asks)
    (proto : Proto) : Renewed s (t.publish proto) := by
  intro i
  simp only [CudaEngine.publish]
  split
  · exact (h i).ask (hasks i) proto _ _
  · exact h i

theorem Renewed.resume (h : Renewed s t) (hasks : ∀ i, (t.mailboxes i).asks = (s.mailboxes i).asks)
    (next : AfterJoin) : Renewed s (t.resume next) := by
  cases next with
  | ready => exact h
  | mine proto => exact h.publish hasks proto
  | stopped => exact fun i ↦ (h i).trans_same rfl rfl rfl

theorem renewed_ensureLaneWorkers (s : CudaEngine) (next : AfterJoin) :
    Renewed s (s.ensureLaneWorkers next) := by
  have hsame : Renewed s s := fun i ↦ .refl _
  rcases s.ensureLaneWorkers_cases next with heq | heq <;> rw [heq]
  · exact hsame.resume (fun _ ↦ rfl) next
  · exact hsame

theorem renewed_joined (s : CudaEngine) (next : AfterJoin) : Renewed s (s.joined next) := by
  have hnone : Renewed s s.dismissed := fun i ↦ .refl _
  have hnew : Renewed s s.dismissed.respawn := fun i ↦ .emptied rfl rfl
  rcases s.joined_cases next with heq | ⟨-, -, heq⟩ <;> rw [heq]
  · exact hnone.resume (fun _ ↦ rfl) next
  · exact hnew.resume (fun _ ↦ rfl) next

theorem renewed_control (s : CudaEngine) : ControlRule (Renewed s) where
  flow := fun _ hsame h ↦ h.of_same hsame.mailboxes
  sync := fun _ h ↦ h
  join := fun _ h ↦ h

theorem renewed_mineBatch (s : CudaEngine) (minutes : Nat × Nat × Nat) (now : String)
    (outcome : Outcome) : Renewed s (s.mineBatch minutes now outcome) := by
  have hsame : Renewed s s := fun i ↦ .refl _
  have hproto := s.sameWork_protoOf minutes
  rcases s.mineBatch_cases minutes now outcome with heq | ⟨-, -, heq⟩ | ⟨-, -, heq⟩ <;> rw [heq]
  · exact hsame
  · obtain ⟨hboxes, -, -⟩ :=
      (mineOneLane_cases (s.protoOf minutes).2 (s.protoOf minutes).1 now outcome).same
    exact hsame.of_same (hboxes.trans hproto.mailboxes)
  · intro i
    exact hproto.mailboxes ▸ renewed_ensureLaneWorkers (s.protoOf minutes).2 _ i

theorem renewed_call (hpc : s.pc = .idle) (a : Act) : Renewed s (s.call a) := by
  have hsame : Renewed s s := fun i ↦ .refl _
  by_cases ha : a.Control
  · exact (renewed_control s).call hpc hsame ha
  cases a with
  | stop => exact hsame
  | mineBatch minutes now outcome => exact renewed_mineBatch s minutes now outcome
  | drainPipeline =>
      simp only [CudaEngine.call]
      split
      · exact hsame
      · exact hsame
  | proceed | worker => exact hsame
  | start | setDifficulty | restoreLaneCap | reduceLaneCap | addLaneCap | setBatch
    | setQueueCounts => exact absurd trivial ha

/-! ## The ring is a channel -/

/-- What a step is to the channel of lane `i`. -/
structure Relays (i : Nat) (s : CudaEngine) (a : Act) (t : CudaEngine)
    (e : Channel.Event Entry) : Prop where
  step : Channel.Step (s.mailboxes i).channel e (t.mailboxes i).channel
  sent : e.sent = publishedBy i s a
  received : e.received = absorbedBy i s a
  asks_le : (s.mailboxes i).asks ≤ (t.mailboxes i).asks
  restart_iff : e = .restart ↔ (s.mailboxes i).asks ≠ (t.mailboxes i).asks

/-- A step that leaves the mailbox alone. -/
theorem relays_of_same {a : Act} (hbox : t.mailboxes i = s.mailboxes i)
    (hsent : publishedBy i s a = []) (hreceived : absorbedBy i s a = []) :
    Relays i s a t .keep where
  step := hbox ▸ .keep _
  sent := hsent.symm
  received := hreceived.symm
  asks_le := hbox ▸ Nat.le_refl _
  restart_iff := by simp [hbox]

/-- A step that renews the mailbox. -/
theorem Renewed.relays {a : Act} (h : Renewed s t) (hsent : publishedBy i s a = [])
    (hreceived : absorbedBy i s a = []) : ∃ e, Relays i s a t e := by
  cases h i with
  | same hseq hring hasks =>
      have hchannel : (t.mailboxes i).channel = (s.mailboxes i).channel := by
        simp only [LaneMailbox.channel, hseq, hring]
      exact ⟨.keep, hchannel ▸ .keep _, hsent.symm, hreceived.symm, hasks.ge, by simp [hasks]⟩
  | asked hseq hunread hasks =>
      have hchannel : (t.mailboxes i).channel = some [] := by
        simp only [LaneMailbox.channel, if_neg hseq, hunread]
      exact ⟨.restart, hchannel ▸ .restart _, hsent.symm, hreceived.symm, by omega, by simp [hasks]⟩
  | emptied hseq hasks =>
      have hchannel : (t.mailboxes i).channel = none := if_pos hseq
      exact ⟨.close, hchannel ▸ .close _, hsent.symm, hreceived.symm, hasks.ge, by simp [hasks]⟩

/-- A worker puts what it publishes into the channel of its lane. -/
theorem WorkerMove.relays {lane : Nat} {w : LaneWorker} {outcome : Outcome} (h : RingInv s)
    (hmail : MailInv s) (hw : s.workers[lane]? = some w) (hm : WorkerMove s lane w outcome t) :
    ∃ e, Relays i s (.worker lane outcome) t e := by
  by_cases hi : lane = i
  · subst hi
    have hpub : publishedBy lane s (.worker lane outcome) =
        match some w.pc with
        | some (.publishing _ result err) => [(result, err)]
        | _ => [] := by
      simp only [publishedBy, if_pos, hw, Option.map_some]
    cases hm with
    | publishes req result err hpc =>
        have hroom := h.room lane w hw (by simp [LaneWorker.Producing, hpc])
        have hseq := hmail.working lane w hw (by simp [LaneWorker.AtWork, hpc])
        have hbox : (s.workerPublishing lane w req result err).mailboxes lane =
            { s.mailboxes lane with ring := (s.mailboxes lane).ring.push (result, err) } :=
          Function.update_self ..
        refine ⟨.put (result, err), ?_, ?_, rfl, ?_, ?_⟩
        · rw [hbox]
          simp only [LaneMailbox.channel, if_neg hseq, Ring.unread_push (h.sound lane) hroom]
          exact .put _ _
        · rw [hpub, hpc]
          rfl
        · rw [hbox]
        · simp [hbox]
    | ends hpc _ | skips hpc _ | takes hpc _ _ | leaves _ hpc | enters _ hpc _ _ _ | lacks _ hpc _
      | hashes _ _ _ _ _ _ hpc _ _ _ =>
        exact ⟨.keep, relays_of_same rfl (by rw [hpub, hpc]) rfl⟩
  · refine ⟨.keep, relays_of_same ?_ (if_neg hi) rfl⟩
    rcases hm.mailboxes with heq | ⟨_, _, _, _, heq⟩
    · rw [heq]
    · rw [heq, Function.update_of_ne (Ne.symm hi)]

/-- `mine_batch` takes what it absorbs out of the channel. -/
theorem MiningMove.relays {now : String} (h : RingInv s) (hmail : MailInv s)
    (hm : MiningMove s now t) : ∃ e, Relays i s (.proceed now) t e := by
  cases hm with
  | joins next hpc _ => exact (renewed_joined s next).relays rfl (by simp [absorbedBy, hpc])
  | reads hpc _ => exact ⟨.keep, relays_of_same rfl rfl (by simp [absorbedBy, hpc])⟩
  | absorbs lane out totalHs hps out' totalHs' hpc hlane hgood _ =>
      by_cases hi : lane = i
      · subst hi
        have hready := h.ready lane out totalHs hpc lane (Nat.le_refl _) hlane
        have hseq : (s.mailboxes lane).seq ≠ 0 := fun hzero ↦ hmail.fresh lane hzero hready
        refine ⟨.take (s.mailboxes lane).ring.oldest, ?_, rfl, ?_, ?_, ?_⟩
        · simp only [LaneMailbox.channel, Function.update_self, if_neg hseq,
            Ring.unread_eq_cons hready]
          exact .take _ _
        · simp [absorbedBy, hpc, hlane, hgood, Channel.Event.received]
        · simp
        · simp
      · exact ⟨.keep, relays_of_same (Function.update_of_ne (Ne.symm hi) ..) rfl
          (by simp [absorbedBy, hpc, hi])⟩
  | throws lane out totalHs what hpc _ hbad =>
      refine ⟨.keep, relays_of_same rfl rfl ?_⟩
      simp only [absorbedBy, hpc]
      refine if_neg ?_
      rintro ⟨rfl, -, hgood⟩
      exact hbad hgood
  | finishes lane out totalHs hpc hle =>
      obtain ⟨v, hsame, out', heq, -⟩ := s.finishMine_flow out totalHs
      refine ⟨.keep, relays_of_same (by rw [heq]; exact congrFun hsame.mailboxes i) rfl ?_⟩
      simp only [absorbedBy, hpc]
      refine if_neg ?_
      rintro ⟨rfl, hlt, -⟩
      exact absurd hlt (Nat.not_lt.mpr hle)
  | drains lane out backend attempts out' hpc _ _ =>
      exact ⟨.keep, relays_of_same rfl rfl (by simp [absorbedBy, hpc])⟩
  | drained lane out hpc _ =>
      obtain ⟨v, hsame, out', heq, -⟩ := s.finishDrain_flow out
      exact ⟨.keep, relays_of_same (by rw [heq]; exact congrFun hsame.mailboxes i) rfl
        (by simp [absorbedBy, hpc])⟩

/-- **Every step is an event of the channel.** -/
theorem step_relays (h : RingInv s) (hmail : MailInv s) {a : Act} (hs : Step s a t) (i : Nat) :
    ∃ e, Relays i s a t e := by
  cases step_inv hs with
  | worker hw hm => exact hm.relays h hmail hw
  | proceed hm => exact hm.relays h hmail
  | call a hpc hout =>
      have hrelays := renewed_call hpc a
      cases a with
      | worker | proceed => exact absurd trivial hout
      | start | stop | setDifficulty | restoreLaneCap | reduceLaneCap | addLaneCap | setBatch
        | setQueueCounts | mineBatch | drainPipeline => exact hrelays.relays rfl rfl

/-- **Every run is a run of the channel**, with the same logs. -/
theorem run_relays (h : RingInv s) (hmail : MailInv s) (hr : Run Step s as t) (i : Nat) :
    ∃ es, Run Channel.Step (s.mailboxes i).channel es (t.mailboxes i).channel ∧
      es.flatMap Channel.Event.sent = published i s as ∧
      es.flatMap Channel.Event.received = absorbed i s as ∧
      (s.mailboxes i).asks ≤ (t.mailboxes i).asks ∧
      ((t.mailboxes i).asks = (s.mailboxes i).asks → Channel.Event.restart ∉ es) := by
  induction hr with
  | nil s => exact ⟨[], .nil _, rfl, rfl, Nat.le_refl _, fun _ ↦ List.not_mem_nil⟩
  | @cons s u t a as hs hr ih =>
      obtain ⟨e, he⟩ := step_relays h hmail hs i
      obtain ⟨es, hes, hsent, hreceived, hle, hrestart⟩ := ih (h.step hs) (hmail.step hs)
      refine ⟨e :: es, .cons he.step hes, ?_, ?_, he.asks_le.trans hle, fun hasks hmem ↦ ?_⟩
      · rw [published, logOf_cons _ hs, List.flatMap_cons, he.sent, hsent]
        rfl
      · rw [absorbed, logOf_cons _ hs, List.flatMap_cons, he.received, hreceived]
        rfl
      · have hstep : (s.mailboxes i).asks = (u.mailboxes i).asks :=
          Nat.le_antisymm he.asks_le (hasks ▸ hle)
        rcases List.mem_cons.mp hmem with heq | hmem
        · exact he.restart_iff.mp heq.symm hstep
        · exact hrestart (hasks.trans hstep) hmem

/-- **A run without another request is first in, first out**: what is absorbed, followed by what
is unread at the end, is a prefix of what was unread at the start and was published since. -/
theorem run_fifo (h : RingInv s) (hmail : MailInv s) (hr : Run Step s as t)
    (hasks : (t.mailboxes i).asks = (s.mailboxes i).asks) :
    absorbed i s as ++ Channel.pending (t.mailboxes i).channel <+:
      Channel.pending (s.mailboxes i).channel ++ published i s as := by
  obtain ⟨es, hes, hsent, hreceived, -, hrestart⟩ := run_relays h hmail hr i
  rw [← hsent, ← hreceived]
  exact Channel.run_fifo hes (hrestart hasks)

/-- The channel after a request has changed: nothing is on its way. -/
theorem pending_of_asked (h : RingInv s) (hmail : MailInv s) {a : Act} (hs : Step s a u)
    (hasks : (u.mailboxes i).asks ≠ (s.mailboxes i).asks) :
    Channel.pending (u.mailboxes i).channel = [] := by
  obtain ⟨e, he⟩ := step_relays h hmail hs i
  obtain rfl := he.restart_iff.mpr hasks.symm
  have hstep := he.step
  generalize (s.mailboxes i).channel = c, (u.mailboxes i).channel = c' at hstep ⊢
  cases hstep
  rfl

/-! ## The slots -/

/-- What the counters of lane `i` promise. -/
structure RingSafe (s : CudaEngine) (i : Nat) : Prop where
  consumed_le : (s.mailboxes i).ring.consumed ≤ (s.mailboxes i).ring.produced
  produced_le : (s.mailboxes i).ring.produced ≤ (s.mailboxes i).ring.consumed + kRing
  /-- As long as a worker writes, its slot holds nothing unread. -/
  writes : ∀ w req result err, s.workers[i]? = some w → w.pc = .publishing req result err →
    ∀ k, (s.mailboxes i).ring.consumed ≤ k → k < (s.mailboxes i).ring.produced →
      k % kRing ≠ (s.mailboxes i).ring.produced % kRing
  /-- The slot that `mine_batch` reads was written, and holds what is unread. -/
  reads : ∀ out totalHs, s.pc = .absorbing i out totalHs → i < s.lanes →
    (s.mailboxes i).ring.consumed < (s.mailboxes i).ring.produced

theorem RingInv.ringSafe (h : RingInv s) (i : Nat) : RingSafe s i where
  consumed_le := (h.sound i).consumed_le
  produced_le := (h.sound i).produced_le
  writes := fun w req result err hw hpc k hle hlt ↦ by
    have hroom : (s.mailboxes i).ring.produced < (s.mailboxes i).ring.consumed + kRing :=
      h.room i w hw (by simp [LaneWorker.Producing, hpc])
    exact Ring.mod_ne_mod hlt (by omega)
  reads := fun out totalHs hpc hlane ↦ h.ready i out totalHs hpc i (Nat.le_refl _) hlane

/-- **The ring of a lane is safe**, in every state that can be reached.  From one change of the
request to the next, what `mine_batch` absorbs is what the worker publishes, from the first result
on, each once and in order; and what it is about to read is the next one. -/
theorem lane_ring_safe {settings : Settings} {maxLanes : Nat}
    (hr : Run Step (create settings maxLanes) as s) (i : Nat) :
    RingSafe s i ∧
      ∀ a u bs t, Step s a u → (u.mailboxes i).asks ≠ (s.mailboxes i).asks →
        Run Step u bs t → (t.mailboxes i).asks = (u.mailboxes i).asks →
        absorbed i u bs <+: published i u bs ∧
          ∀ out totalHs, t.pc = .absorbing i out totalHs → i < t.lanes →
            absorbed i u bs ++ [(t.mailboxes i).ring.oldest] <+: published i u bs := by
  have hring := ringInv_run hr
  have hmail : MailInv s := hr.preserves (fun _ _ _ h hs ↦ h.step hs) (.create settings maxLanes)
  refine ⟨hring.ringSafe i, fun a u bs t hs hasked hbs hasks ↦ ?_⟩
  have hfifo := run_fifo (hring.step hs) (hmail.step hs) hbs hasks
  rw [pending_of_asked hring hmail hs hasked, List.nil_append] at hfifo
  refine ⟨(List.prefix_append _ _).trans hfifo, fun out totalHs hpc hlane ↦ ?_⟩
  have hring_t : RingInv t := hbs.preserves (fun _ _ _ h hs ↦ h.step hs) (hring.step hs)
  have hmail_t : MailInv t := hbs.preserves (fun _ _ _ h hs ↦ h.step hs) (hmail.step hs)
  have hready := (hring_t.ringSafe i).reads out totalHs hpc hlane
  have hseq : (t.mailboxes i).seq ≠ 0 := fun hzero ↦ hmail_t.fresh i hzero hready
  have hpending : Channel.pending (t.mailboxes i).channel =
      (t.mailboxes i).ring.oldest :: (t.mailboxes i).ring.pop.unread := by
    rw [LaneMailbox.channel, if_neg hseq]
    exact Ring.unread_eq_cons hready
  rw [hpending] at hfifo
  exact .trans (by simp) hfifo

/-- Both workers hash a wave, and `mine_batch` reads the first of the results. -/
def bothWavesRead : List Act :=
  [.worker 0 (.hashed [] 0), .worker 1 (.hashed [] 0)] ++ oneWave 0 (.hashed [aMatch] 1) ++
    oneWave 1 (.hashed [] 1) ++ [.proceed "", .proceed ""]

theorem lane_ring_safe_bothWaves :
    ∃ s u t, Run Step (create minerSettings 2) [.start 2 (some twoLanes), .proceed ""] s ∧
      Step s mineOnce u ∧ Run Step u bothWavesRead t ∧ (absorbed 0 u bothWavesRead).length = 1 ∧
      absorbed 0 u bothWavesRead <+: published 0 u bothWavesRead := by
  let start : List Act := [.start 2 (some twoLanes), .proceed ""]
  obtain ⟨s, hs⟩ : ∃ s, exec step (create minerSettings 2) start = some s := ⟨_, rfl⟩
  obtain ⟨u, hu⟩ : ∃ u, exec step (create minerSettings 2) (start ++ [mineOnce]) = some u :=
    ⟨_, rfl⟩
  obtain ⟨t, ht⟩ : ∃ t, exec step (create minerSettings 2)
      (start ++ [mineOnce] ++ bothWavesRead) = some t := ⟨_, rfl⟩
  have hasks : (exec step (create minerSettings 2) start).map (fun s ↦ (s.mailboxes 0).asks) =
      some 0 := rfl
  have hasked : (exec step (create minerSettings 2) (start ++ [mineOnce])).map
      (fun s ↦ ((s.mailboxes 0).asks, (absorbed 0 s bothWavesRead).length)) = some (1, 1) := by
    decide +kernel
  have hend : (exec step (create minerSettings 2) (start ++ [mineOnce] ++ bothWavesRead)).map
      (fun s ↦ (s.mailboxes 0).asks) = some 1 := by decide +kernel
  have hstep : Run Step s [mineOnce] u := run_of_exec (exec_append hs ▸ hu)
  have hbs : Run Step u bothWavesRead t := run_of_exec (exec_append hu ▸ ht)
  rw [hs] at hasks
  rw [hu] at hasked
  rw [ht] at hend
  simp only [Option.map_some, Option.some.injEq, Prod.mk.injEq] at hasks hasked hend
  refine ⟨s, u, t, run_of_exec hs, hstep.singleton_inv, hbs, hasked.2, ?_⟩
  exact ((lane_ring_safe (run_of_exec hs) 0).2 mineOnce u bothWavesRead t hstep.singleton_inv
    (by omega) hbs (by omega)).1

end CudaEngine

end XNMiner
