import XNMiner.App.RejectedBody
import XNMiner.Lib.Cursor
import XNMiner.Lib.Lts

/-!
# A flush wave, step by step

`try_flush_pending` from `list_flush_batch` on, as one transition system: the thread of the call,
the flush workers (posters) that share the cursor and the list of accepted ids, and the mining
thread, which may queue a hit at any moment.  Where the rows are posted one after another there is
one poster, and the cursor is the loop variable.

`handle_one` is taken step by step, with the counters it feeds; `handle_alone` says that a poster
that is alone does what the program of `handle_one` does.  Bodies are bytes: a poster that gets a
fatal answer throws, and as no thread catches, the process ends.

The rows are text, because `load` has them from a JSON document and `enqueue` prints a hit before it
appends its row.  The account and the worker name of the settings are taken to be text: `submit`
prints them into the payload, and `report_accepted` into the event.

`Accounted` says what the books of a wave are to be.
-/

namespace XNMiner

open Lib

/-! ## Counters -/

/-- The three fields that `stat_field_for_kind` chooses from. -/
structure KindCounts where
  xnm : Nat := 0
  xuni : Nat := 0
  xblk : Nat := 0
deriving DecidableEq

namespace KindCounts

/-- `stat_field_for_kind(..)++`, and the counts of accepts under `acc_mu`. -/
def count (k : KindCounts) (kind : String) : KindCounts :=
  if kind = "XUNI" then { k with xuni := k.xuni + 1 }
  else if kind = "XBLK" then { k with xblk := k.xblk + 1 }
  else { k with xnm := k.xnm + 1 }

def total (k : KindCounts) : Nat := k.xnm + k.xuni + k.xblk

@[simp] theorem total_count (k : KindCounts) (kind : String) :
    (k.count kind).total = k.total + 1 := by
  unfold count
  split
  · simp only [total]
    omega
  · split <;> simp only [total] <;> omega

end KindCounts

/-- What the metrics count of a flush. -/
structure FlushMetrics where
  acceptedFlush : KindCounts := {}
  rejectedFlush : KindCounts := {}
deriving DecidableEq

/-! ## States -/

/-- What is done for a row of the work list, at most once. -/
inductive Errand where
  /-- `POST /verify`. -/
  | post
  /-- Its id goes on the list of accepted ids, and its kind is counted. -/
  | record
  /-- `record_accepted_flush`. -/
  | meter
  /-- `flushed.fetch_add(1)`. -/
  | count
  /-- `record_rejected_flush`. -/
  | reject
  /-- `log_rejection`. -/
  | log
  /-- `mark_pending_reason`. -/
  | mark
deriving DecidableEq

/-- Where a poster is.  The number is the index it has taken. -/
inductive PosterPc where
  /-- At the check of `shutting_down_`. -/
  | looping
  | fetching
  | posting (i : Nat)
  /-- `handle_one` begins. -/
  | handling (i : Nat)
  | metering (i : Nat)
  | counting (i : Nat)
  /-- The counters of the match window. -/
  | drainFlushed
  | drainCleared
  /-- The accept is noted under `state_mu_`. -/
  | noting
  | logging (i : Nat)
  | marking (i : Nat)
  | done
deriving DecidableEq

/-- What a poster has yet to do for its row, as far as the answer may ask for it. -/
def PosterPc.owes : PosterPc → Errand → Option Nat
  | .posting i, _ => some i
  | .handling i, e => if e = .post then none else some i
  | .metering i, e => if e = .meter ∨ e = .count then some i else none
  | .counting i, e => if e = .count then some i else none
  | .logging i, e => if e = .log ∨ e = .mark then some i else none
  | .marking i, e => if e = .mark then some i else none
  | _, _ => none

/-- Where the thread of the call is. -/
inductive CallPc where
  | selecting (rest : List PendingBlock)
  /-- It posts, or waits for the posters. -/
  | posting
  /-- It has taken the accepted ids. -/
  | removing (ids : List Int)
  | counting
  | returned (flushed : Nat)
deriving DecidableEq

/-- What a call of `try_flush_pending` is given: its gates have let it through, and each row of the
work list has an answer of the pool and a time at which a rejection of it would be logged. -/
structure FlushCall where
  onShutdown : Bool := false
  draining : Bool := false
  netM : Int
  status : Nat → Int
  body : Nat → ByteArray
  stamp : Nat → String

namespace FlushCall

variable (c : FlushCall)

/-- The body as it is searched for words. -/
def text (i : Nat) : String := bytesText (c.body i)

def accepted (i : Nat) : Bool := submitAccepted (c.status i) (c.text i)

def rejected (i : Nat) : Bool := countsAsReject (c.status i) (c.text i)

/-- Which errands the answer for a row asks for. -/
def due : Errand → Nat → Bool
  | .post, _ => true
  | .record, i | .meter, i | .count, i => c.accepted i
  | .reject, i | .log, i | .mark, i => c.rejected i

end FlushCall

/-- Behind the branches of `handle_one` a poster has the answer that leads there. -/
def PosterPc.Fits (c : FlushCall) : PosterPc → Prop
  | .metering i | .counting i => c.accepted i = true
  | .logging i | .marking i => c.rejected i = true
  | _ => True

/-- A wave with `n + 1` posters. -/
structure FlushWave (n : Nat) where
  sup : Supervisor
  metrics : FlushMetrics := {}
  /-- `accept_xnm`, `accept_xuni`, `accept_xblk`. -/
  accepts : KindCounts := {}
  wave : Wave := {}
  /-- What `list_flush_batch` gave. -/
  fetched : List PendingBlock := []
  work : List WorkItem := []
  call : CallPc
  posters : Fin (n + 1) → PosterPc := fun _ ↦ .looping
  /-- An exception has left a thread. -/
  terminated : Bool := false
  -- ghosts
  /-- The bag when the selection is over. -/
  before : List PendingBlock
  /-- What was queued since. -/
  enqueued : List PendingBlock := []
  /-- The rows for which an errand was done. -/
  past : Errand → List Nat := fun _ ↦ []

namespace FlushWave

variable {n : Nat} (c : FlushCall)

def store (s : FlushWave n) : BlockStore := s.sup.store

/-- The row with an index; posters only have indices of the work list. -/
def item (s : FlushWave n) (i : Nat) : WorkItem := s.work.getD i { id := 0, hit := {} }

def setStore (s : FlushWave n) (store : BlockStore) : FlushWave n :=
  { s with sup := { s.sup with store } }

def goto (s : FlushWave n) (w : Fin (n + 1)) (pc : PosterPc) : FlushWave n :=
  { s with posters := Function.update s.posters w pc }

/-- Note that an errand was done for a row. -/
def did (s : FlushWave n) (e : Errand) (i : Nat) : FlushWave n :=
  { s with past := Function.update s.past e (s.past e ++ [i]) }

/-! ## Errands -/

/-- An accepted id goes on the list, and its kind is counted, under `acc_mu`. -/
def record (s : FlushWave n) (i : Nat) : FlushWave n :=
  ({ s with
    wave := { s.wave with acceptedIds := s.wave.acceptedIds ++ [(s.item i).id] }
    accepts := s.accepts.count (s.item i).hit.blockType }).did .record i

/-- `record_accepted_flush`. -/
def meter (s : FlushWave n) (i : Nat) : FlushWave n :=
  ({ s with metrics := { s.metrics with
    acceptedFlush := s.metrics.acceptedFlush.count (s.item i).hit.blockType } }).did .meter i

/-- `flushed.fetch_add(1)`. -/
def countFlushed (s : FlushWave n) (i : Nat) : FlushWave n :=
  ({ s with wave := { s.wave with flushed := s.wave.flushed + 1 } }).did .count i

/-- `record_rejected_flush`. -/
def reject (s : FlushWave n) (i : Nat) : FlushWave n :=
  ({ s with metrics := { s.metrics with
    rejectedFlush := s.metrics.rejectedFlush.count (s.item i).hit.blockType } }).did .reject i

/-- `log_rejection`, where it returns. -/
def log (s : FlushWave n) (store : BlockStore) (i : Nat) : FlushWave n :=
  (s.setStore store).did .log i

/-- `mark_pending_reason`. -/
def mark (s : FlushWave n) (i : Nat) : FlushWave n :=
  (s.setStore (s.store.markPendingReason (s.item i).id "resubmission")).did .mark i

/-! ## Steps -/

/-- How `handle_one` begins, with the answer for row `i`. -/
def handle (s : FlushWave n) (w : Fin (n + 1)) (i : Nat) : FlushWave n :=
  if c.accepted i then (s.record i).goto w (.metering i)
  else if c.status i = 0 ∨ isTransientSubmitFailure (c.status i) (c.text i) then
    ({ s with wave := { s.wave with transients := s.wave.transients + 1 } }).goto w .looping
  else if isPoolHold (c.status i) (c.text i) ∨ isDifficultyMismatch (c.status i) (c.text i) ∨
      isXuniWindowReject (c.status i) (c.text i) then
    ({ s with wave := { s.wave with holds := s.wave.holds + 1 } }).goto w .looping
  else if countsAsReject (c.status i) (c.text i) then (s.reject i).goto w (.logging i)
  else s.goto w (.logging i)

/-- A step of poster `w` from where it is. -/
def posterStep (s : FlushWave n) (w : Fin (n + 1)) : PosterPc → Option (FlushWave n)
  | .looping =>
      some (s.goto w (if s.sup.shuttingDown && !c.onShutdown then .done else .fetching))
  | .fetching =>
      some (({ s with wave := { s.wave with next := s.wave.next + 1 } }).goto w
        (if s.wave.next < s.work.length then .posting s.wave.next else .done))
  | .posting i => some ((s.did .post i).goto w (.handling i))
  | .handling i => some (s.handle c w i)
  | .metering i => some ((s.meter i).goto w (.counting i))
  | .counting i =>
      some ((s.countFlushed i).goto w (if c.draining then .drainFlushed else .noting))
  | .drainFlushed =>
      some (({ s with sup := { s.sup with
        matchDrainFlushed := s.sup.matchDrainFlushed + 1 } }).goto w .drainCleared)
  | .drainCleared =>
      some (({ s with sup := { s.sup with
        matchDrainCleared := s.sup.matchDrainCleared + 1 } }).goto w .noting)
  | .noting => some (({ s with sup := s.sup.noteAccepted }).goto w .looping)
  | .logging i =>
      match s.store.logRejectionBytes (c.stamp i) (s.item i).hit.bytes (c.status i) (c.body i)
          "flush" with
      | none => some { s with terminated := true }
      | some store => some ((s.log store i).goto w (.marking i))
  | .marking i => some ((s.mark i).goto w .looping)
  | .done => none

/-- The selection is over. -/
def selected (s : FlushWave n) : FlushWave n :=
  let s := { s with before := s.store.pending, enqueued := [] }
  if s.work = [] then
    match s.fetched.getLast? with
    | some last =>
        { s with sup := { s.sup with flushSkipBeforeId := last.id + 1 }, call := .returned 0 }
    | none => { s with call := .returned 0 }
  else { s with call := .posting }

/-- A step of the selection loop, with the minute and the costs it reads. -/
def select (s : FlushWave n) (minute : Nat) (miningM bagM : Int) :
    List PendingBlock → FlushWave n
  | [] => s.selected
  | pb :: rest =>
      match chooseRow s.sup.settings c.draining c.netM (readyToFlush minute pb.hit.blockType).1
          miningM bagM pb with
      | .skip => { s with call := .selecting rest }
      | .drop => { s.setStore (s.store.markSubmitted pb.id) with call := .selecting rest }
      | .take hit =>
          let work := s.work ++ [{ id := pb.id, hit }]
          let full := waveFull c.onShutdown (waveLimit s.sup.settings c.onShutdown c.draining) work
          { s with work, call := .selecting (if full then [] else rest) }

/-- The supervisor when the call returns: a wave with no accept makes the next one start behind its
last row. -/
def closing (s : FlushWave n) (t : Rat) : Supervisor :=
  if s.wave.flushed = 0 ∧ c.onShutdown = false ∧ (0 < s.wave.holds ∨ 0 < s.wave.transients) then
    s.sup.noteZeroAccepts c.draining t ((s.work.getLast?.map (·.id)).getD 0)
  else s.sup

/-- A step of the thread of the call after the selection, with the clock at `t`. -/
def callStep (s : FlushWave n) (t : Rat) : Option (FlushWave n) :=
  match s.call with
  | .posting =>
      if ∀ w, s.posters w = .done then
        some { s with
          wave := { s.wave with acceptedIds := [] }
          call := .removing s.wave.acceptedIds }
      else none
  | .removing ids =>
      some { s.setStore (s.store.markSubmittedMany ids) with call := .counting }
  | .counting =>
      some { s with sup := s.closing c t, call := .returned s.wave.flushed }
  | _ => none

/-- What can happen next. -/
inductive Act (n : Nat) where
  /-- `queue_hit` of the mining thread. -/
  | queueHit (now : String) (hit : BlockHit) (reason : String)
  /-- Another thread sets `shutting_down_`. -/
  | shutdown
  | select (minute : Nat) (miningM bagM : Int)
  | poster (w : Fin (n + 1))
  | call (t : Rat)

/-- `queue_hit`; the row, if the digest is new, is noted. -/
def queueHit (s : FlushWave n) (now : String) (hit : BlockHit) (reason : String) : FlushWave n :=
  let store := (s.store.enqueue now hit reason).2
  { s.setStore store with
    enqueued := s.enqueued ++ store.pending.drop s.store.pending.length }

/-- One step; nothing happens in a process that has ended. -/
def step (s : FlushWave n) (a : Act n) : Option (FlushWave n) :=
  if s.terminated then none
  else match a with
    | .queueHit now hit reason => some (s.queueHit now hit reason)
    | .shutdown => some { s with sup := { s.sup with shuttingDown := true } }
    | .select minute miningM bagM =>
        match s.call with
        | .selecting rest => some (s.select c minute miningM bagM rest)
        | _ => none
    | .poster w => if s.call = .posting then s.posterStep c w (s.posters w) else none
    | .call t => s.callStep c t

/-- The call when it fetches its rows. -/
def start (n : Nat) (c : FlushCall) (sup : Supervisor) (metrics : FlushMetrics) (minute : Nat)
    (bagM : Int) : FlushWave n :=
  let limit := fetchLimit c.onShutdown (waveLimit sup.settings c.onShutdown c.draining)
  let pending := sup.store.listFlushBatch minute c.netM bagM limit sup.flushSkipBeforeId
  { sup
    metrics
    fetched := pending
    call := if pending = [] then .returned 0 else .selecting pending
    before := sup.store.pending }

/-- The call has come to an end, or the process has. -/
def Finished (s : FlushWave n) : Prop := s.terminated = true ∨ ∃ k, s.call = .returned k

/-- The answer that a poster is about to get, if it is about to post, does not end it. -/
def Answerable (s : FlushWave n) : Act n → Prop
  | .poster w => match s.posters w with
      | .posting i => ¬ Sup.Fatal (c.status i) (c.body i)
      | _ => True
  | _ => True

instance (s : FlushWave n) : (a : Act n) → Decidable (s.Answerable c a)
  | .poster w => match h : s.posters w with
      | .posting i => decidable_of_iff
          (countsAsReject (c.status i) (bytesText (c.body i)) = true → (c.body i).IsValidUTF8) (by
            simp only [Answerable, h]
            exact ⟨fun hv hf ↦ hf.notText (hv hf.reject), fun hno hrej ↦
              by_contra fun hv ↦ hno ⟨hrej, hv⟩⟩)
      | .looping | .fetching | .handling _ | .metering _ | .counting _ | .drainFlushed
      | .drainCleared | .noting | .logging _ | .marking _ | .done =>
          isTrue (by simp only [Answerable, h])
  | .queueHit .. | .shutdown | .select .. | .call _ => isTrue trivial

/-! ## The claim of the books -/

/-- The rows of the indices that satisfy `p`, of those that were posted. -/
def idsOf (s : FlushWave n) (p : Nat → Bool) : List Int :=
  ((s.past .post).filter p).map fun i ↦ (s.item i).id

/-- A row after its rejection is noted. -/
def remark (ids : List Int) (pb : PendingBlock) : PendingBlock :=
  if pb.id ∈ ids then { pb with queueReason := "resubmission" } else pb

/-- The body as text. -/
def bodyText (body : ByteArray) : String :=
  if h : body.IsValidUTF8 then String.ofByteArray body h else ""

/-- The line that `log_rejection` writes for row `i`. -/
def auditRecord (s : FlushWave n) (i : Nat) : Json :=
  .obj (hitMembers (s.item i).hit ++ [("rejected_at", .str (c.stamp i)),
    ("http_status", .int (c.status i)), ("response_body", .str (bodyText (c.body i))),
    ("source", .str "flush"), ("category", .str "resubmission")])

/-- What a wave that began in `s₀` and has come to an end in `t` has done. -/
structure Accounted (s₀ t : FlushWave n) : Prop where
  /-- Each row was posted at most once. -/
  once : (t.past .post).Nodup ∧ ∀ i ∈ t.past .post, i < t.work.length
  /-- Each row was posted, unless the process is shutting down. -/
  all : t.sup.shuttingDown = false ∨ c.onShutdown = true →
    (t.past .post).Perm (List.range t.work.length)
  /-- The bag is the bag before and what was queued since, without the rows that were accepted;
  those that were rejected have a new reason. -/
  pending : t.store.pending = ((t.before ++ t.enqueued).filter fun pb ↦
    decide (pb.id ∉ t.idsOf c.accepted)).map (remark (t.idsOf c.rejected))
  /-- The number of rows that have left the bag is what the call returns and what it has
  counted. -/
  accepted : ∃ k, t.store.pending.length + k = (t.before ++ t.enqueued).length ∧
    t.call = .returned k ∧ t.accepts.total = k ∧
    t.metrics.acceptedFlush.total = s₀.metrics.acceptedFlush.total + k
  /-- Each reject was counted and logged. -/
  rejected : t.metrics.rejectedFlush.total =
      s₀.metrics.rejectedFlush.total + ((t.past .post).filter c.rejected).length ∧
    t.store.files.rejected.Perm (s₀.store.files.rejected ++
      ((t.past .post).filter c.rejected).map (t.auditRecord c))

/-! ## Small facts -/

variable {c} {s₀ s t : FlushWave n} {w : Fin (n + 1)} {e e' : Errand} {i : Nat} {pc : PosterPc}

@[simp] theorem did_past_self : (s.did e i).past e = s.past e ++ [i] := Function.update_self ..

@[simp] theorem did_past_of_ne (h : e' ≠ e) : (s.did e i).past e' = s.past e' :=
  Function.update_of_ne h ..

@[simp] theorem goto_past : (s.goto w pc).past = s.past := rfl

/-- The classes of answers `handle_one` tells apart: what is accepted is no reject. -/
theorem rejected_of_accepted (h : c.accepted i = true) : c.rejected i = false := by
  cases hrej : c.rejected i with
  | false => rfl
  | true =>
      have hacc := (Sup.of_countsAsReject hrej).1
      rw [FlushCall.accepted, hacc] at h
      cases h

/-- What `handle_one` takes for a failure of the transport or a hold is no reject. -/
theorem not_rejected_of_held
    (h : (c.status i = 0 ∨ isTransientSubmitFailure (c.status i) (c.text i) = true) ∨
      isPoolHold (c.status i) (c.text i) = true ∨
      isDifficultyMismatch (c.status i) (c.text i) = true ∨
      isXuniWindowReject (c.status i) (c.text i) = true) : c.rejected i = false := by
  cases hrej : c.rejected i with
  | false => rfl
  | true =>
      obtain ⟨-, hmis, hxuni, htrans, hhold, hzero⟩ := Sup.of_countsAsReject hrej
      rcases h with (hc | hc) | hc | hc | hc
      · exact absurd hc hzero
      · exact absurd (htrans.symm.trans hc) nofun
      · exact absurd (hhold.symm.trans hc) nofun
      · exact absurd (hmis.symm.trans hc) nofun
      · exact absurd (hxuni.symm.trans hc) nofun

/-- What is left is a reject. -/
theorem rejected_of_rest (hacc : c.accepted i = false)
    (htrans : ¬ (c.status i = 0 ∨ isTransientSubmitFailure (c.status i) (c.text i) = true))
    (hheld : ¬ (isPoolHold (c.status i) (c.text i) = true ∨
      isDifficultyMismatch (c.status i) (c.text i) = true ∨
      isXuniWindowReject (c.status i) (c.text i) = true)) : c.rejected i = true := by
  cases hrej : c.rejected i with
  | true => rfl
  | false =>
      rcases Sup.not_countsAsReject hrej with hc | hc | hc | hc | hc
      · exact absurd (hacc.symm.trans hc) nofun
      · exact absurd (.inr (.inl hc)) hheld
      · exact absurd (.inr (.inr hc)) hheld
      · exact absurd (.inr hc) htrans
      · exact absurd (.inl hc) hheld

/-- **What `handle_one` makes of an answer**, in the terms of the claim: an accept is recorded, a
reject is counted, and anything else leaves a mark only on the counters of the wave. -/
theorem handle_cases (c : FlushCall) (s : FlushWave n) (w : Fin (n + 1)) (i : Nat) :
    (c.accepted i = true ∧ c.rejected i = false ∧
      s.handle c w i = (s.record i).goto w (.metering i)) ∨
    (c.accepted i = false ∧ c.rejected i = false ∧ ∃ transients holds,
      s.handle c w i = ({ s with wave := { s.wave with transients, holds } }).goto w .looping) ∨
    (c.accepted i = false ∧ c.rejected i = true ∧
      s.handle c w i = (s.reject i).goto w (.logging i)) := by
  unfold handle
  cases hacc : c.accepted i with
  | true => exact .inl ⟨rfl, rejected_of_accepted hacc, rfl⟩
  | false =>
      simp only [Bool.false_eq_true, if_false]
      split
      · next h => exact .inr (.inl ⟨trivial, not_rejected_of_held (.inl h), _, _, rfl⟩)
      · next htrans =>
        split
        · next h => exact .inr (.inl ⟨trivial, not_rejected_of_held (.inr h), _, _, rfl⟩)
        · next hheld =>
          have hrej := rejected_of_rest hacc htrans hheld
          refine .inr (.inr ⟨trivial, hrej, ?_⟩)
          rw [if_pos (show countsAsReject (c.status i) (c.text i) = true from hrej)]

/-- What posters do not write. -/
theorem posterStep_frame (h : s.posterStep c w pc = some t) :
    t.call = s.call ∧ t.work = s.work ∧ t.before = s.before ∧ t.enqueued = s.enqueued := by
  cases pc with
  | handling i =>
      obtain rfl := Option.some.inj h
      rcases handle_cases c s w i with ⟨-, -, heq⟩ | ⟨-, -, _, _, heq⟩ | ⟨-, -, heq⟩
      all_goals
        rw [heq]
        exact ⟨rfl, rfl, rfl, rfl⟩
  | logging i =>
      simp only [posterStep] at h
      split at h
      all_goals
        obtain rfl := Option.some.inj h
        exact ⟨rfl, rfl, rfl, rfl⟩
  | done => cases h
  | _ =>
      obtain rfl := Option.some.inj h
      exact ⟨rfl, rfl, rfl, rfl⟩

theorem callStep_call {time : Rat} (h : s.callStep c time = some t) (rest : List PendingBlock) :
    t.call ≠ .selecting rest := by
  unfold callStep at h
  split at h
  · split at h
    · obtain rfl := Option.some.inj h
      nofun
    · cases h
  · obtain rfl := Option.some.inj h
    nofun
  · obtain rfl := Option.some.inj h
    nofun
  · cases h

/-- Closing writes neither the store nor the flag. -/
theorem closing_eq (c : FlushCall) (s : FlushWave n) (time : Rat) :
    (s.closing c time).store = s.sup.store ∧
      (s.closing c time).shuttingDown = s.sup.shuttingDown := by
  unfold closing
  split <;> exact ⟨rfl, rfl⟩

/-! ## A poster alone -/

theorem goto_posters_self : (s.goto w pc).posters w = pc := Function.update_self ..

/-- A step of a poster, then a run. -/
theorem run_poster {u : FlushWave n} {acts : List (Act n)} (hterm : s.terminated = false)
    (hcall : s.call = .posting) (hpc : s.posters w = pc) (hs : s.posterStep c w pc = some u)
    (hr : Run (fun s a t ↦ s.step c a = some t) u acts t) :
    Run (fun s a t ↦ s.step c a = some t) s (.poster w :: acts) t := by
  refine .cons ?_ hr
  simp only [step, hterm, hcall, hpc, hs, Bool.false_eq_true, if_false, if_true]

/-- What the program of `handle_one` does with an accept. -/
theorem ends_accepted {ok : ∀ q, Answer q → Prop} {v u : World} {returned draining : Bool}
    {address : ByteArray} {item : WorkItem} (haddress : address.IsValidUTF8)
    (hacc : c.accepted i = true)
    (h : Prog.Ends ok v (Sup.handleOneBytes address draining item (c.status i) (c.body i))
      returned u) :
    returned = true ∧ u = { v with
      wave := { v.wave with
        acceptedIds := v.wave.acceptedIds ++ [item.id]
        flushed := v.wave.flushed + 1 }
      sup := ({ v.sup with
        matchDrainFlushed := v.sup.matchDrainFlushed + if draining then 1 else 0
        matchDrainCleared := v.sup.matchDrainCleared + if draining then 1 else 0 } :
          Supervisor).noteAccepted } := by
  rw [FlushCall.accepted, FlushCall.text] at hacc
  have hreport := (Sup.reportAccepted_row address item.hit).mpr haddress
  cases draining <;>
    simpa [Sup.handleOneBytes, hacc, hreport, Sup.setWave, Sup.ends_set, Prog.ends_bind] using h

/-- What it does with an answer that is neither an accept nor a reject. -/
theorem ends_held {ok : ∀ q, Answer q → Prop} {v u : World} {returned draining : Bool}
    {address : ByteArray} {item : WorkItem} (hacc : c.accepted i = false)
    (hrej : c.rejected i = false)
    (h : Prog.Ends ok v (Sup.handleOneBytes address draining item (c.status i) (c.body i))
      returned u)
    (hwave : v.wave = s.wave) :
    returned = true ∧ u.sup = v.sup ∧ u.wave = (s.handle c w i).wave := by
  rw [FlushCall.accepted, FlushCall.text] at hacc
  unfold Sup.handleOneBytes at h
  simp only [hacc, Bool.false_eq_true, if_false] at h
  simp only [handle, FlushCall.accepted, FlushCall.text, hacc, Bool.false_eq_true, if_false]
  split at h
  · next htrans =>
    obtain ⟨rfl, rfl⟩ : returned = true ∧ _ := by simpa [Sup.setWave, Prog.ends_bind] using h
    exact ⟨rfl, rfl, by simp [htrans, hwave, goto]⟩
  · next htrans =>
    split at h
    · next hheld =>
      obtain ⟨rfl, rfl⟩ : returned = true ∧ _ := by simpa [Sup.setWave, Prog.ends_bind] using h
      exact ⟨rfl, rfl, by simp [htrans, hheld, hwave, goto]⟩
    · next hheld =>
      have hrej' := rejected_of_rest hacc htrans hheld
      exact absurd (hrej.symm.trans hrej') Bool.false_ne_true

/-- What it does with a reject. -/
theorem ends_rejected {ok : ∀ q, Answer q → Prop} {v u : World} {returned draining : Bool}
    {address : ByteArray} {item : WorkItem} (hstamp : ∀ a, ok .stamp a → a = c.stamp i)
    (hrej : c.rejected i = true)
    (h : Prog.Ends ok v (Sup.handleOneBytes address draining item (c.status i) (c.body i))
      returned u) :
    (∃ store, v.sup.store.logRejectionBytes (c.stamp i) item.hit.bytes (c.status i) (c.body i)
        "flush" = some store ∧ returned = true ∧ u = { v with
          sup := { v.sup with store := store.markPendingReason item.id "resubmission" } }) ∨
    (v.sup.store.logRejectionBytes (c.stamp i) item.hit.bytes (c.status i) (c.body i) "flush" =
      none ∧ returned = false ∧ u = v) := by
  obtain ⟨stamp, hok, logged, v', hlog, hend⟩ := (Sup.ends_handleOneBytes_of_reject hrej).mp h
  obtain rfl := hstamp stamp hok
  rcases Sup.ends_storeOr.mp hlog with ⟨store, hstore, rfl, rfl⟩ | ⟨hstore, rfl, rfl⟩
  · exact .inl ⟨store, hstore, hend.1, hend.2⟩
  · exact .inr ⟨hstore, hend.1, hend.2⟩

/-- **A poster that is alone** does with an answer what the program of `handle_one` does: the
supervisor and the wave end up the same, and the process ends where the program does not return. -/
theorem handle_alone {ok : ∀ q, Answer q → Prop} {v u : World} {returned : Bool}
    {address : ByteArray} (haddress : address.IsValidUTF8) (hterm : s.terminated = false)
    (hcall : s.call = .posting) (hpc : s.posters w = .handling i) (hsup : v.sup = s.sup)
    (hwave : v.wave = s.wave) (hstamp : ∀ a, ok .stamp a → a = c.stamp i)
    (h : Prog.Ends ok v
      (Sup.handleOneBytes address c.draining (s.item i) (c.status i) (c.body i)) returned u) :
    ∃ k t, Run (fun s a t ↦ s.step c a = some t) s (List.replicate k (.poster w)) t ∧
      t.sup = u.sup ∧ t.wave = u.wave ∧
      (if returned then t.posters w = .looping else t.terminated = true) := by
  rcases handle_cases c s w i with ⟨hacc, -, heq⟩ | ⟨hacc, hrej, transients, holds, heq⟩ |
    ⟨-, hrej, heq⟩
  · obtain ⟨rfl, rfl⟩ := ends_accepted haddress hacc h
    cases hdraining : c.draining with
    | false =>
        have hcounting : ∀ u : FlushWave n, u.posterStep c w (.counting i) =
            some ((u.countFlushed i).goto w .noting) := fun u ↦ by simp [posterStep, hdraining]
        refine ⟨4, _, run_poster hterm hcall hpc (congrArg some heq)
          (run_poster hterm hcall goto_posters_self rfl
            (run_poster hterm hcall goto_posters_self (hcounting _)
              (run_poster hterm hcall goto_posters_self rfl (.nil _)))), ?_, ?_,
                goto_posters_self⟩
        · simp [goto, countFlushed, meter, record, did, hsup]
        · simp [goto, countFlushed, meter, record, did, hwave]
    | true =>
        have hcounting : ∀ u : FlushWave n, u.posterStep c w (.counting i) =
            some ((u.countFlushed i).goto w .drainFlushed) := fun u ↦ by
          simp [posterStep, hdraining]
        refine ⟨6, _, run_poster hterm hcall hpc (congrArg some heq)
          (run_poster hterm hcall goto_posters_self rfl
            (run_poster hterm hcall goto_posters_self (hcounting _)
              (run_poster hterm hcall goto_posters_self rfl
                (run_poster hterm hcall goto_posters_self rfl
                  (run_poster hterm hcall goto_posters_self rfl (.nil _)))))), ?_, ?_,
                    goto_posters_self⟩
        · simp [goto, countFlushed, meter, record, did, hsup]
        · simp [goto, countFlushed, meter, record, did, hwave]
  · obtain ⟨rfl, hu, hw⟩ := ends_held (w := w) hacc hrej h hwave
    refine ⟨1, _, run_poster hterm hcall hpc (congrArg some heq) (.nil _), ?_, ?_,
      goto_posters_self⟩
    · rw [hu, hsup]
      rfl
    · rw [hw, heq]
  · have hlogging : ∀ next, s.store.logRejectionBytes (c.stamp i) (s.item i).hit.bytes (c.status i)
        (c.body i) "flush" = next →
        ((s.reject i).goto w (.logging i)).posterStep c w (.logging i) = match next with
          | none => some { (s.reject i).goto w (.logging i) with terminated := true }
          | some store => some ((((s.reject i).goto w (.logging i)).log store i).goto w
              (.marking i)) := by
      rintro _ rfl
      rfl
    rcases ends_rejected hstamp hrej h with ⟨kept, hstore, rfl, rfl⟩ | ⟨hstore, rfl, rfl⟩
    · rw [hsup] at hstore
      refine ⟨3, _, run_poster hterm hcall hpc (congrArg some heq)
        (run_poster hterm hcall goto_posters_self (hlogging _ hstore)
          (run_poster hterm hcall goto_posters_self rfl (.nil _))), ?_, ?_, goto_posters_self⟩
      · simp [goto, mark, log, reject, did, setStore, store, item, hsup]
      · simp [goto, mark, log, reject, did, setStore, hwave]
    · rw [hsup] at hstore
      refine ⟨2, _, run_poster hterm hcall hpc (congrArg some heq)
        (run_poster hterm hcall goto_posters_self (hlogging _ hstore) (.nil _)), ?_, ?_, rfl⟩
      · simp [goto, reject, did, hsup]
      · simp [goto, reject, did, hwave]

end FlushWave

end XNMiner
