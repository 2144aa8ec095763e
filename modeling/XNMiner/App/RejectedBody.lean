import XNMiner.App.Alone
import XNMiner.Queue.HitBytes

/-!
# Answers of the pool, as bytes

The body of an answer is any string of bytes.  It is searched for words, and where no class of
answers fits it goes into the audit record of `log_rejection` as it is, together with the hit; an
answer that puts the hit back has it printed by `enqueue`, and an accepted hit is reported to the
block scanner.  Each of these throws on a string that is not UTF-8 (`Queue.HitBytes`), and no
caller catches.

The rest of the model has bodies and hits as `String`s.  Here they are bytes, and a program that
does not return answers `false`.  The rows of a flush are rows of the bag, and so text.  The
worker name of the settings is taken to be text: `submit` prints it into every payload.
-/

namespace XNMiner

open Lib

/-- A body as `lower` and `find` read it: each byte is a character. -/
def bytesText (body : ByteArray) : String :=
  String.ofList (body.data.toList.map fun b ↦ Char.ofNat b.toNat)

/-- A hit that was posted: `submit` has printed its key and its digest. -/
structure PostedHit extends HitBytes where
  keyText : key.IsValidUTF8
  hashText : hashStr.IsValidUTF8

namespace PostedHit

def digest (hit : PostedHit) : String := .ofByteArray hit.hashStr hit.hashText

end PostedHit

/-- `report_accepted`: whether the event is printed, and no exception thrown.  The live path has
printed the kind before, for the timelapse and the statistics. -/
def reportAccepted (address kind key hash : ByteArray) : Bool :=
  address.IsValidUTF8 && kind.IsValidUTF8 && key.IsValidUTF8 && hash.IsValidUTF8

namespace Sup

open BlockStore

/-! ## The two threads that get answers -/

/-- An operation of the store that may throw: the answer is whether it returned, and `left` is what
an exception leaves of the store. -/
def storeOr (op : BlockStore → Option BlockStore) (left : BlockStore → BlockStore) : Sup Bool :=
  Prog.atomically fun w ↦ match op w.sup.store with
    | some store => (true, { w with sup := { w.sup with store } })
    | none => (false, { w with sup := { w.sup with store := left w.sup.store } })

/-- `queue_hit`.  Where the line is not printed the digest is indexed already. -/
def queueHitBytes (hit : PostedHit) (reason : String) : Sup Bool := do
  let stamp ← query .stamp
  storeOr (·.enqueueBytes stamp hit.toHitBytes reason) (·.enqueueNotText { hashStr := hit.digest })

/-- What `process_live_submit` does with an answer; `false` if an exception leaves it. -/
def settleLiveBytes (address : ByteArray) (hit : PostedHit) (status : Int) (body : ByteArray) :
    Sup Bool := do
  let text := bytesText body
  if submitAccepted status text then
    set (·.noteAccepted)
    if ← get (·.matchDrainActive) then
      set fun s ↦ { s with matchDrainFlushed := s.matchDrainFlushed + 1 }
      pure (reportAccepted address hit.blockType hit.key hit.hashStr)
    else pure (reportAccepted address hit.blockType hit.key hit.hashStr)
  else if isDifficultyMismatch status text then
    if ← get (·.shouldStore) then queueHitBytes hit difficultyChangeReason
    else pure true
  else if isPoolHold status text then queueHitBytes hit difficultyChangeReason
  else if status = 0 ∨ isTransientSubmitFailure status text then
    noteSubmitTransportFailure status
    queueHitBytes hit "network_down"
  else if isXuniWindowReject status text then queueHitBytes hit outsideXuniWindowReason
  else
    let stamp ← query .stamp
    storeOr (fun s ↦ (s.recordRejectionBytes stamp hit.toHitBytes status body "live").map Prod.snd)
      id

/-- What `handle_one` of a flush does with an answer; `false` if an exception leaves it. -/
def handleOneBytes (address : ByteArray) (draining : Bool) (item : WorkItem) (status : Int)
    (body : ByteArray) : Sup Bool := do
  let text := bytesText body
  if submitAccepted status text then
    setWave fun v ↦ { v with acceptedIds := v.acceptedIds ++ [item.id] }
    let row := item.hit.bytes
    if reportAccepted address row.blockType row.key row.hashStr then
      setWave fun v ↦ { v with flushed := v.flushed + 1 }
      if draining then
        set fun s ↦ { s with matchDrainFlushed := s.matchDrainFlushed + 1 }
        set fun s ↦ { s with matchDrainCleared := s.matchDrainCleared + 1 }
        set (·.noteAccepted)
        pure true
      else
        set (·.noteAccepted)
        pure true
    else pure false
  else if status = 0 ∨ isTransientSubmitFailure status text then
    setWave fun v ↦ { v with transients := v.transients + 1 }
    pure true
  else if isPoolHold status text ∨ isDifficultyMismatch status text ∨
      isXuniWindowReject status text then
    setWave fun v ↦ { v with holds := v.holds + 1 }
    pure true
  else
    let stamp ← query .stamp
    if ← storeOr (·.logRejectionBytes stamp item.hit.bytes status body "flush") id then
      store (.markPendingReason item.id "resubmission")
      pure true
    else pure false

/-! ## When they return -/

variable {ok : ∀ q, Answer q → Prop} {w u : World} {returned : Bool}

theorem ends_storeOr {op : BlockStore → Option BlockStore} {left : BlockStore → BlockStore} :
    Prog.Ends ok w (storeOr op left) returned u ↔
      (∃ store, op w.sup.store = some store ∧ returned = true ∧
        u = { w with sup := { w.sup with store } }) ∨
      (op w.sup.store = none ∧ returned = false ∧
        u = { w with sup := { w.sup with store := left w.sup.store } }) := by
  rw [storeOr, Prog.ends_atomically]
  cases op w.sup.store with
  | none => simp
  | some store => simp

/-- What is no reject falls into one of the other classes. -/
theorem not_countsAsReject {status : Int} {text : String} (h : countsAsReject status text = false) :
    submitAccepted status text = true ∨ isDifficultyMismatch status text = true ∨
      isXuniWindowReject status text = true ∨ isTransientSubmitFailure status text = true ∨
      isPoolHold status text = true := by
  unfold countsAsReject at h
  by_contra hno
  simp only [not_or, Bool.not_eq_true] at hno
  simp [hno] at h

/-- A reject is in no other class. -/
theorem of_countsAsReject {status : Int} {text : String} (h : countsAsReject status text = true) :
    submitAccepted status text = false ∧ isDifficultyMismatch status text = false ∧
      isXuniWindowReject status text = false ∧ isTransientSubmitFailure status text = false ∧
      isPoolHold status text = false ∧ status ≠ 0 := by
  unfold countsAsReject at h
  simp only [Bool.and_eq_true, Bool.not_eq_true'] at h
  obtain ⟨⟨⟨⟨hacc, hmis⟩, hxuni⟩, htrans⟩, hhold⟩ := h
  refine ⟨hacc, hmis, hxuni, htrans, hhold, ?_⟩
  rintro rfl
  simp [isTransientSubmitFailure] at htrans

theorem reportAccepted_posted (address : ByteArray) (hit : PostedHit) :
    reportAccepted address hit.blockType hit.key hit.hashStr = true ↔
      address.IsValidUTF8 ∧ hit.blockType.IsValidUTF8 := by
  simp [reportAccepted, hit.keyText, hit.hashText]

theorem reportAccepted_row (address : ByteArray) (hit : BlockHit) :
    reportAccepted address hit.bytes.blockType hit.bytes.key hit.bytes.hashStr = true ↔
      address.IsValidUTF8 := by
  simp [reportAccepted, BlockHit.bytes, String.isValidUTF8]

/-! ### The submit worker -/

/-- The answer puts the hit back into the bag. -/
def Requeues (sup : Supervisor) (status : Int) (body : ByteArray) : Prop :=
  submitAccepted status (bytesText body) = false ∧
    countsAsReject status (bytesText body) = false ∧
    (isDifficultyMismatch status (bytesText body) = true → sup.shouldStore = true)

/-- The answer ends the submit worker. -/
inductive LiveFatal (address : ByteArray) (sup : Supervisor) (hit : PostedHit) (status : Int)
    (body : ByteArray) : Prop where
  /-- In `report_accepted`, or before it for the kind. -/
  | report (hacc : submitAccepted status (bytesText body) = true)
      (hno : ¬ (address.IsValidUTF8 ∧ hit.blockType.IsValidUTF8))
  /-- In `enqueue`. -/
  | queue (hback : Requeues sup status body)
      (hno : ¬ (sup.store.IndexesBytes hit.hashStr ∨ hit.IsText))
  /-- In `log_rejection`. -/
  | log (hrej : countsAsReject status (bytesText body) = true)
      (hno : ¬ (hit.IsText ∧ body.IsValidUTF8))

/-- A reject goes to `record_rejection`. -/
theorem ends_settleLiveBytes_of_reject {address : ByteArray} {hit : PostedHit} {status : Int}
    {body : ByteArray} (hrej : countsAsReject status (bytesText body) = true) :
    Prog.Ends ok w (settleLiveBytes address hit status body) returned u ↔
      ∃ stamp, ok .stamp stamp ∧ Prog.Ends ok w (storeOr (fun s ↦
        (s.recordRejectionBytes stamp hit.toHitBytes status body "live").map Prod.snd) id)
        returned u := by
  obtain ⟨hacc, hmis, hxuni, htrans, hhold, hzero⟩ := of_countsAsReject hrej
  unfold settleLiveBytes
  simp only [hacc, hmis, hxuni, htrans, hhold, hzero, Bool.false_eq_true, or_self, if_false]
  exact ends_query_bind

/-- What the submit worker does with an answer: it reports an accept, drops a hit where the bag is
off, queues it, or records a reject. -/
theorem settleLiveBytes_cases {address : ByteArray} {hit : PostedHit} {status : Int}
    {body : ByteArray} (h : Prog.Ends ok w (settleLiveBytes address hit status body) returned u) :
    (submitAccepted status (bytesText body) = true ∧ u.sup.store = w.sup.store ∧
      returned = reportAccepted address hit.blockType hit.key hit.hashStr) ∨
    (submitAccepted status (bytesText body) = false ∧
      countsAsReject status (bytesText body) = false ∧ ¬ Requeues w.sup status body ∧
      returned = true) ∨
    (Requeues w.sup status body ∧ ∃ v reason, v.sup.store = w.sup.store ∧
      Prog.Ends ok v (queueHitBytes hit reason) returned u) ∨
    (countsAsReject status (bytesText body) = true ∧ ∃ stamp,
      Prog.Ends ok w (storeOr (fun s ↦ (s.recordRejectionBytes stamp hit.toHitBytes status body
        "live").map Prod.snd) id) returned u) := by
  cases hrej : countsAsReject status (bytesText body) with
  | true =>
      obtain ⟨stamp, -, h⟩ := (ends_settleLiveBytes_of_reject hrej).mp h
      exact .inr (.inr (.inr ⟨rfl, stamp, h⟩))
  | false =>
      unfold settleLiveBytes at h
      cases hacc : submitAccepted status (bytesText body) with
      | true =>
          simp only [hacc, if_true, ends_set_bind, ends_get_bind, Prog.ends_ite] at h
          refine .inl ⟨rfl, ?_⟩
          split at h
          · obtain ⟨rfl, rfl⟩ := Prog.ends_ret.mp h
            exact ⟨rfl, rfl⟩
          · obtain ⟨rfl, rfl⟩ := Prog.ends_ret.mp h
            exact ⟨rfl, rfl⟩
      | false =>
          simp only [hacc, Bool.false_eq_true, if_false] at h
          have hback (hstore : isDifficultyMismatch status (bytesText body) = true →
              w.sup.shouldStore = true) : Requeues w.sup status body := ⟨hacc, hrej, hstore⟩
          cases hmis : isDifficultyMismatch status (bytesText body) with
          | true =>
              simp only [hmis, if_true, ends_get_bind, Prog.ends_ite] at h
              split at h
              · next hstore => exact .inr (.inr (.inl ⟨hback fun _ ↦ hstore, w, _, rfl, h⟩))
              · next hstore =>
                exact .inr (.inl ⟨rfl, rfl, fun hr ↦ hstore (hr.2.2 hmis), (Prog.ends_ret.mp h).1⟩)
          | false =>
              simp only [hmis, Bool.false_eq_true, if_false] at h
              have hqueue : Requeues w.sup status body := hback fun hm ↦ by simp [hmis] at hm
              refine .inr (.inr (.inl ⟨hqueue, ?_⟩))
              simp only [Prog.ends_ite] at h
              split at h
              · exact ⟨w, _, rfl, h⟩
              · split at h
                · obtain ⟨_, v, hnote, h⟩ := Prog.ends_bind.mp h
                  exact ⟨v, _, store_of_noteSubmitTransportFailure hnote, h⟩
                · split at h
                  · exact ⟨w, _, rfl, h⟩
                  · next hhold htrans hxuni =>
                    rcases not_countsAsReject hrej with hc | hc | hc | hc | hc
                    · exact absurd (hacc.symm.trans hc) nofun
                    · exact absurd (hmis.symm.trans hc) nofun
                    · exact absurd hc hxuni
                    · exact absurd (.inr hc) htrans
                    · exact absurd hc hhold

/-- What `queue_hit` answers, and what it leaves in the bag. -/
theorem ends_queueHitBytes {hit : PostedHit} {reason : String}
    (h : Prog.Ends ok w (queueHitBytes hit reason) returned u) :
    (returned = true ↔ w.sup.store.IndexesBytes hit.hashStr ∨ hit.IsText) ∧
    (returned = true → ¬ w.sup.store.Stray hit.hashStr → u.sup.store.HoldsBytes hit.hashStr) ∧
    (returned = false → u.sup.store.pending = w.sup.store.pending) := by
  rw [queueHitBytes, ends_query_bind] at h
  obtain ⟨stamp, -, h⟩ := h
  rcases ends_storeOr.mp h with ⟨t, hqueue, rfl, rfl⟩ | ⟨hqueue, rfl, rfl⟩
  · refine ⟨iff_of_true rfl ?_, fun _ hstray ↦ holdsBytes_of_enqueueBytes hstray hqueue, nofun⟩
    rcases enqueueBytes_eq_some_iff.mp hqueue with ⟨hin, -⟩ | ⟨htext, -⟩
    · exact .inl hin
    · exact .inr htext
  · refine ⟨iff_of_false nofun ?_, nofun, fun _ ↦ enqueueNotText_pending ..⟩
    rintro (hin | htext)
    · rw [enqueueBytes_eq_some_iff.mpr (.inl ⟨hin, rfl⟩)] at hqueue
      cases hqueue
    · rw [enqueueBytes_of_isText htext] at hqueue
      cases hqueue

/-- What `record_rejection` answers, and what it leaves in the bag. -/
theorem ends_recordRejectionBytes {hit : HitBytes} {status : Int} {body : ByteArray}
    {stamp source : String} (h : Prog.Ends ok w (storeOr
      (fun s ↦ (s.recordRejectionBytes stamp hit status body source).map Prod.snd) id) returned u) :
    (returned = true ↔ hit.IsText ∧ body.IsValidUTF8) ∧
    (returned = true → ¬ w.sup.store.Stray hit.hashStr → u.sup.store.HoldsBytes hit.hashStr) ∧
    (returned = false → u.sup.store.pending = w.sup.store.pending) := by
  rcases ends_storeOr.mp h with ⟨t, hrecord, rfl, rfl⟩ | ⟨hrecord, rfl, rfl⟩
  · obtain ⟨r, hr, rfl⟩ := Option.map_eq_some_iff.mp hrecord
    obtain ⟨htext, hbody, heq⟩ := recordRejectionBytes_eq_some_iff.mp hr
    refine ⟨iff_of_true rfl ⟨htext, hbody⟩, fun _ hstray ↦ ?_, nofun⟩
    obtain ⟨t, ht, hholds⟩ := recordRejectionBytes_holds_iff.mpr ⟨⟨htext, hbody⟩, hstray⟩
    rw [ht] at hr
    obtain rfl := Option.some.inj hr
    exact hholds
  · refine ⟨iff_of_false nofun ?_, nofun, fun _ ↦ rfl⟩
    rintro ⟨htext, hbody⟩
    rw [recordRejectionBytes_eq_some_iff.mpr ⟨htext, hbody, rfl⟩] at hrecord
    cases hrecord

/-- An accepted answer is no reject. -/
theorem not_reject_of_accepted {status : Int} {text : String}
    (hacc : submitAccepted status text = true) : countsAsReject status text = false := by
  by_contra hrej
  rw [Bool.not_eq_false] at hrej
  exact absurd ((of_countsAsReject hrej).1.symm.trans hacc) Bool.false_ne_true

section Fatal

variable {address : ByteArray} {sup : Supervisor} {hit : PostedHit} {status : Int}
  {body : ByteArray}

theorem Requeues.not_accepted (hback : Requeues sup status body) :
    ¬ submitAccepted status (bytesText body) = true := Bool.eq_false_iff.mp hback.1

theorem Requeues.not_reject (hback : Requeues sup status body) :
    ¬ countsAsReject status (bytesText body) = true := Bool.eq_false_iff.mp hback.2.1

/-! The classes of answers exclude each other: in each, an answer is fatal in one way only. -/

theorem not_liveFatal_of_accepted (hacc : submitAccepted status (bytesText body) = true) :
    ¬ LiveFatal address sup hit status body ↔
      address.IsValidUTF8 ∧ hit.blockType.IsValidUTF8 := by
  constructor
  · intro hno
    by_contra htext
    exact hno (.report hacc htext)
  · intro htext hf
    cases hf with
    | report _ hno => exact hno htext
    | queue hback _ => exact hback.not_accepted hacc
    | log hrej _ => exact Bool.eq_false_iff.mp (not_reject_of_accepted hacc) hrej

theorem not_liveFatal_of_requeues (hback : Requeues sup status body) :
    ¬ LiveFatal address sup hit status body ↔
      sup.store.IndexesBytes hit.hashStr ∨ hit.IsText := by
  constructor
  · intro hno
    by_contra hin
    exact hno (.queue hback hin)
  · intro hin hf
    cases hf with
    | report hacc _ => exact hback.not_accepted hacc
    | queue _ hno => exact hno hin
    | log hrej _ => exact hback.not_reject hrej

theorem not_liveFatal_of_reject (hrej : countsAsReject status (bytesText body) = true) :
    ¬ LiveFatal address sup hit status body ↔ hit.IsText ∧ body.IsValidUTF8 := by
  constructor
  · intro hno
    by_contra htext
    exact hno (.log hrej htext)
  · intro htext hf
    cases hf with
    | report hacc _ => exact Bool.eq_false_iff.mp (not_reject_of_accepted hacc) hrej
    | queue hback _ => exact hback.not_reject hrej
    | log _ hno => exact hno htext

/-- A hit that the answer drops. -/
theorem not_liveFatal_of_dropped (hacc : ¬ submitAccepted status (bytesText body) = true)
    (hrej : ¬ countsAsReject status (bytesText body) = true) (hback : ¬ Requeues sup status body) :
    ¬ LiveFatal address sup hit status body := by
  intro hf
  cases hf with
  | report hacc' _ => exact hacc hacc'
  | queue hback' _ => exact hback hback'
  | log hrej' _ => exact hrej hrej'

end Fatal

/-- **The submit worker** returns from an answer that is not fatal, and a hit that is not accepted
and not dropped then has a row.  From a fatal answer it does not return, and the rows are as they
were. -/
theorem settleLiveBytes_iff {address : ByteArray} {hit : PostedHit} {status : Int}
    {body : ByteArray} (h : Prog.Ends ok w (settleLiveBytes address hit status body) returned u) :
    (returned = true ↔ ¬ LiveFatal address w.sup hit status body) ∧
    (returned = true →
      Requeues w.sup status body ∨ countsAsReject status (bytesText body) = true →
      ¬ w.sup.store.Stray hit.hashStr → u.sup.store.HoldsBytes hit.hashStr) ∧
    (returned = false → u.sup.store.pending = w.sup.store.pending) := by
  rcases settleLiveBytes_cases h with ⟨hacc, hstore, rfl⟩ | ⟨hacc, hrej, hno, rfl⟩ |
    ⟨hback, v, reason, hv, hqueue⟩ | ⟨hrej, stamp, hrecord⟩
  · refine ⟨(reportAccepted_posted address hit).trans (not_liveFatal_of_accepted hacc).symm,
      fun _ hor ↦ ?_, fun _ ↦ by rw [hstore]⟩
    rcases hor with hback | hrej
    · exact absurd hacc hback.not_accepted
    · exact absurd hrej (Bool.eq_false_iff.mp (not_reject_of_accepted hacc))
  · rw [Bool.eq_false_iff] at hacc hrej
    refine ⟨iff_of_true rfl (not_liveFatal_of_dropped hacc hrej hno), fun _ hor ↦ ?_, nofun⟩
    rcases hor with hback | hrej'
    · exact absurd hback hno
    · exact absurd hrej' hrej
  · obtain ⟨hret, hrow, hleft⟩ := ends_queueHitBytes hqueue
    rw [hv] at hret hrow hleft
    exact ⟨hret.trans (not_liveFatal_of_requeues hback).symm, fun hr _ ↦ hrow hr, hleft⟩
  · obtain ⟨hret, hrow, hleft⟩ := ends_recordRejectionBytes hrecord
    exact ⟨hret.trans (not_liveFatal_of_reject hrej).symm, fun hr _ ↦ hrow hr, hleft⟩

/-! ### The flush workers -/

/-- What a flush worker does with an answer that is no reject: nothing to the store, and only an
accept may not return. -/
theorem ends_handleOneBytes_of_not_reject {address : ByteArray} {draining : Bool} {item : WorkItem}
    {status : Int} {body : ByteArray} (hno : countsAsReject status (bytesText body) = false)
    (h : Prog.Ends ok w (handleOneBytes address draining item status body) returned u) :
    (returned = true ↔ (submitAccepted status (bytesText body) = true → address.IsValidUTF8)) ∧
      u.sup.store = w.sup.store := by
  unfold handleOneBytes at h
  cases hacc : submitAccepted status (bytesText body) with
  | true =>
      by_cases haddress : address.IsValidUTF8
      · simp only [hacc, if_true, (reportAccepted_row address item.hit).mpr haddress] at h
        cases draining
        all_goals
          obtain ⟨rfl, rfl⟩ : returned = true ∧ _ := by
            simpa [setWave, ends_set, Prog.ends_bind] using h
          exact ⟨iff_of_true rfl fun _ ↦ haddress, rfl⟩
      · have hreport := mt (reportAccepted_row address item.hit).mp haddress
        simp only [hacc, if_true, hreport] at h
        obtain ⟨rfl, rfl⟩ : returned = false ∧ _ := by simpa [setWave, Prog.ends_bind] using h
        exact ⟨iff_of_false nofun fun himp ↦ haddress (himp rfl), rfl⟩
  | false =>
      simp only [hacc, Bool.false_eq_true, if_false, Prog.ends_ite] at h
      split at h
      · obtain ⟨rfl, rfl⟩ : returned = true ∧ _ := by simpa [setWave, Prog.ends_bind] using h
        exact ⟨iff_of_true rfl nofun, rfl⟩
      · split at h
        · obtain ⟨rfl, rfl⟩ : returned = true ∧ _ := by simpa [setWave, Prog.ends_bind] using h
          exact ⟨iff_of_true rfl nofun, rfl⟩
        · next htrans hheld =>
          simp only [not_or, Bool.not_eq_true] at htrans hheld
          rcases not_countsAsReject hno with hc | hc | hc | hc | hc <;> simp_all

/-- A reject goes to `log_rejection`. -/
theorem ends_handleOneBytes_of_reject {address : ByteArray} {draining : Bool} {item : WorkItem}
    {status : Int} {body : ByteArray} (hrej : countsAsReject status (bytesText body) = true) :
    Prog.Ends ok w (handleOneBytes address draining item status body) returned u ↔
      ∃ stamp, ok .stamp stamp ∧ ∃ logged v,
        Prog.Ends ok w
          (storeOr (·.logRejectionBytes stamp item.hit.bytes status body "flush") id) logged v ∧
        if logged then returned = true ∧
          u = { v with sup := { v.sup with
            store := v.sup.store.exec (.markPendingReason item.id "resubmission") } }
        else returned = false ∧ u = v := by
  obtain ⟨hacc, hmis, hxuni, htrans, hhold, hzero⟩ := of_countsAsReject hrej
  unfold handleOneBytes
  simp only [hacc, hmis, hxuni, htrans, hhold, hzero, Bool.false_eq_true, or_self, if_false]
  rw [ends_query_bind]
  refine exists_congr fun stamp ↦ and_congr_right fun _ ↦ ?_
  rw [Prog.ends_bind]
  refine exists_congr fun logged ↦ exists_congr fun v ↦ and_congr_right fun _ ↦ ?_
  cases logged with
  | false => simp
  | true => simp [store, ends_set_bind]

/-- The answer ends a thread that gets it for a row: it is a reject, and its body is not text. -/
structure Fatal (status : Int) (body : ByteArray) : Prop where
  reject : countsAsReject status (bytesText body) = true
  notText : ¬ body.IsValidUTF8

/-- The answer ends a flush worker. -/
inductive FlushFatal (address : ByteArray) (status : Int) (body : ByteArray) : Prop where
  /-- In `report_accepted`. -/
  | report (hacc : submitAccepted status (bytesText body) = true) (hno : ¬ address.IsValidUTF8)
  /-- In `log_rejection`. -/
  | log (hrej : Fatal status body)

/-- **A flush worker** returns from an answer that is not fatal, and from no other.  It takes no
row from the bag. -/
theorem handleOneBytes_iff {address : ByteArray} {draining : Bool} {item : WorkItem} {status : Int}
    {body : ByteArray}
    (h : Prog.Ends ok w (handleOneBytes address draining item status body) returned u) :
    (returned = true ↔ ¬ FlushFatal address status body) ∧
      SameKeys u.sup.store.pending w.sup.store.pending := by
  cases hrej : countsAsReject status (bytesText body) with
  | false =>
      obtain ⟨hret, hstore⟩ := ends_handleOneBytes_of_not_reject hrej h
      refine ⟨hret.trans ⟨fun himp hf ↦ ?_, fun hno hacc ↦ ?_⟩, by rw [hstore]; exact .refl _⟩
      · cases hf with
        | report hacc hno => exact hno (himp hacc)
        | log hf => exact absurd (hrej.symm.trans hf.reject) nofun
      · exact by_contra fun hno' ↦ hno (.report hacc hno')
  | true =>
      obtain ⟨stamp, -, logged, v, hstore, hend⟩ := (ends_handleOneBytes_of_reject hrej).mp h
      rcases ends_storeOr.mp hstore with ⟨t, hlog, rfl, rfl⟩ | ⟨hlog, rfl, rfl⟩
      · obtain ⟨-, hbody, -⟩ := logRejectionBytes_eq_some_iff.mp hlog
        obtain ⟨hret, rfl⟩ := hend
        refine ⟨iff_of_true hret fun hf ↦ ?_, ?_⟩
        · cases hf with
          | report hacc _ => exact Bool.eq_false_iff.mp (not_reject_of_accepted hacc) hrej
          | log hf => exact hf.notText hbody
        · have hrows := (sameRows_markPendingReason t item.id "resubmission").keys
          rw [(logRejectionBytes_rows hlog).1] at hrows
          exact hrows
      · obtain ⟨hret, rfl⟩ := hend
        refine ⟨iff_of_false (by rw [hret]; nofun) fun hno ↦ hno (.log ⟨hrej, fun hbody ↦ ?_⟩),
          .refl _⟩
        rw [logRejectionBytes_of_valid hbody] at hlog
        cases hlog

/-! ## Which rejections are recorded -/

/-- **What can be rejected.**  `log_rejection` returns exactly if the strings of the hit and the
body are UTF-8, and `record_rejection` leaves the hit in the bag exactly if, besides, its digest is
not indexed without a row.  The submit worker and the flush workers return from every answer that
is not fatal, and from no other, and the hit or the row is then in the bag. -/
theorem rejection_iff_text {s : BlockStore} {now source : String} {hit : HitBytes} {status : Int}
    {body : ByteArray} :
    ((∃ t, s.logRejectionBytes now hit status body source = some t) ↔
      hit.IsText ∧ body.IsValidUTF8) ∧
    ((∃ t, s.recordRejectionBytes now hit status body source = some (true, t) ∧
      t.HoldsBytes hit.hashStr) ↔ (hit.IsText ∧ body.IsValidUTF8) ∧ ¬ s.Stray hit.hashStr) ∧
    (∀ ok w u returned address hit,
      Prog.Ends ok w (settleLiveBytes address hit status body) returned u →
        (returned = true ↔ ¬ LiveFatal address w.sup hit status body) ∧
        (returned = true →
          Requeues w.sup status body ∨ countsAsReject status (bytesText body) = true →
          ¬ w.sup.store.Stray hit.hashStr → u.sup.store.HoldsBytes hit.hashStr) ∧
        (returned = false → u.sup.store.pending = w.sup.store.pending)) ∧
    ∀ ok w u returned address draining item,
      Prog.Ends ok w (handleOneBytes address draining item status body) returned u →
        (returned = true ↔ ¬ FlushFatal address status body) ∧
        SameKeys u.sup.store.pending w.sup.store.pending := by
  refine ⟨?_, recordRejectionBytes_holds_iff, fun ok w u returned address hit ↦
    settleLiveBytes_iff, fun ok w u returned address draining item ↦ handleOneBytes_iff⟩
  constructor
  · rintro ⟨t, hlog⟩
    obtain ⟨htext, hbody, -⟩ := logRejectionBytes_eq_some_iff.mp hlog
    exact ⟨htext, hbody⟩
  · rintro ⟨htext, hbody⟩
    exact ⟨_, logRejectionBytes_eq_some_iff.mpr ⟨htext, hbody, rfl⟩⟩

/-! ### One byte that is not text -/

/-- A string of one byte that begins no character. -/
def strayByte : ByteArray := ⟨#[0xff]⟩

theorem strayByte_not_valid : ¬ strayByte.IsValidUTF8 := by decide

/-- A hit whose strategy is that byte. -/
def strayHit : PostedHit where
  hashStr := "a".toByteArray
  strategy := strayByte
  keyText := by decide
  hashText := by decide

/-- An answer `400` with that body is not logged, and its hit is not queued. -/
theorem rejection_of_strayByte : ¬ ∀ (s : BlockStore) (now : String) (hit : HitBytes)
    (status : Int) (body : ByteArray) (source : String), HashInv s →
      (∃ t, s.logRejectionBytes now hit status body source = some t) ∧
        ∃ t, s.recordRejectionBytes now hit status body source = some (true, t) ∧
          t.HoldsBytes hit.hashStr := by
  intro hall
  obtain ⟨⟨t, hlog⟩, -⟩ := hall {} "t₀" { hashStr := "a".toByteArray } 400 strayByte "live"
    ⟨by simp [hashesOf], by simp [hashesOf]⟩
  rw [logRejectionBytes_of_not_valid strayByte_not_valid] at hlog
  cases hlog

/-- A hit and a body that are text; a body that is not; a strategy that is not, which ends the
submit worker; and a flush worker that is ended by a body. -/
theorem rejection_iff_text_strayByte :
    (∃ t, ({} : BlockStore).recordRejectionBytes "t₀" { hashStr := "a".toByteArray } 400
      "no".toByteArray "live" = some (true, t) ∧ t.HoldsBytes "a".toByteArray) ∧
    (¬ ∃ t, ({} : BlockStore).logRejectionBytes "t₀" { hashStr := "a".toByteArray } 400 strayByte
      "live" = some t) ∧
    (¬ ∃ t, ({} : BlockStore).logRejectionBytes "t₀" strayHit.toHitBytes 400 "no".toByteArray
      "live" = some t) ∧
    (∃ u, Prog.Ends (fun _ _ ↦ True) {} (settleLiveBytes .empty strayHit 400 "no".toByteArray)
      false u ∧ u.sup.store.pending = [] ∧ LiveFatal .empty {} strayHit 400 "no".toByteArray) ∧
    ∃ u, Prog.Ends (fun _ _ ↦ True) {} (handleOneBytes .empty false { id := 1, hit := {} } 400
      strayByte) false u ∧ FlushFatal .empty 400 strayByte := by
  have hs : HashInv ({} : BlockStore) := ⟨by simp [hashesOf], by simp [hashesOf]⟩
  have hbad : ¬ strayHit.IsText := fun h ↦ strayByte_not_valid h.strategy
  refine ⟨?_, ?_, ?_, ?_, ?_⟩
  · exact rejection_iff_text.2.1.mpr ⟨⟨by decide, by decide⟩, hs.not_stray _⟩
  · exact fun hlog ↦ strayByte_not_valid (rejection_iff_text.1.mp hlog).2
  · exact fun hlog ↦ hbad (rejection_iff_text.1.mp hlog).1
  · have hrun : Prog.Ends (fun _ _ ↦ True) {} (settleLiveBytes .empty strayHit 400
        "no".toByteArray) false {} := by
      refine (ends_settleLiveBytes_of_reject (by decide)).mpr ⟨"t₀", trivial, ?_⟩
      refine ends_storeOr.mpr (.inr ⟨?_, rfl, rfl⟩)
      rw [Option.map_eq_none_iff, Option.eq_none_iff_forall_ne_some]
      exact fun r hr ↦ hbad (recordRejectionBytes_eq_some_iff.mp hr).1
    obtain ⟨hfatal, -, hkept⟩ := (@rejection_iff_text {} "" "" {} _ _).2.2.1 _ _ _ _ _ _ hrun
    exact ⟨{}, hrun, hkept rfl, by_contra fun hno ↦ absurd (hfatal.mpr hno) Bool.false_ne_true⟩
  · have hrun : Prog.Ends (fun _ _ ↦ True) {} (handleOneBytes .empty false
        { id := 1, hit := {} } 400 strayByte) false {} := by
      refine (ends_handleOneBytes_of_reject (by decide)).mpr ⟨"t₀", trivial, false, {}, ?_, ?_⟩
      · exact ends_storeOr.mpr (.inr ⟨logRejectionBytes_of_not_valid strayByte_not_valid, rfl, rfl⟩)
      · exact ⟨rfl, rfl⟩
    have hfatal := ((@rejection_iff_text {} "" "" {} _ _).2.2.2 _ _ _ _ _ _ _ hrun).1
    exact ⟨{}, hrun, by_contra fun hno ↦ absurd (hfatal.mpr hno) Bool.false_ne_true⟩

end Sup

end XNMiner
