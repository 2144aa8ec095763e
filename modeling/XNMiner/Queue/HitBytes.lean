import XNMiner.Queue.BagInvariant

/-!
# Hits whose strings are bytes

The strings of a hit come from the miner itself, but for two.  The strategy is what `miner.ini`
says, and the account is what the settings say; the salt is derived from it.  Nothing checks that
either is UTF-8.  The body of an answer of the pool is any string of bytes.

The JSON library prints strings as UTF-8 and throws on any other string.  `log_rejection` prints
the hit together with the body, `record_rejection` queues the hit only after that, and `enqueue`
prints the hit before it appends the row.  So the rows of a bag are text, and `BlockHit` has them
as such; here is the hit before it is a row.  An exception is `none`.
-/

namespace XNMiner

open Lib

/-- A hit as the program has it. -/
structure HitBytes where
  key : ByteArray := .empty
  hashStr : ByteArray := .empty
  blockType : ByteArray := .empty
  attempts : Int := 0
  strategy : ByteArray := "random".toByteArray
  hps : Rat := 0
  foundAt : ByteArray := .empty
  memoryCost : Option Int := none
  payoutAccount : ByteArray := .empty
  saltHex : ByteArray := .empty
  feeBlock : Bool := false

/-- The hit of a row. -/
def BlockHit.bytes (hit : BlockHit) : HitBytes where
  key := hit.key.toByteArray
  hashStr := hit.hashStr.toByteArray
  blockType := hit.blockType.toByteArray
  attempts := hit.attempts
  strategy := hit.strategy.toByteArray
  hps := hit.hps
  foundAt := hit.foundAt.toByteArray
  memoryCost := hit.memoryCost
  payoutAccount := hit.payoutAccount.toByteArray
  saltHex := hit.saltHex.toByteArray
  feeBlock := hit.feeBlock

/-- `dump()` of a string: it throws on a string that is not UTF-8. -/
def dumpString (body : ByteArray) : Option Json :=
  if h : body.IsValidUTF8 then some (.str (String.ofByteArray body h)) else none

namespace HitBytes

/-- All the strings of the hit are UTF-8. -/
structure IsText (hit : HitBytes) : Prop where
  key : hit.key.IsValidUTF8
  hashStr : hit.hashStr.IsValidUTF8
  blockType : hit.blockType.IsValidUTF8
  strategy : hit.strategy.IsValidUTF8
  foundAt : hit.foundAt.IsValidUTF8
  payoutAccount : hit.payoutAccount.IsValidUTF8
  saltHex : hit.saltHex.IsValidUTF8

theorem isText_iff {hit : HitBytes} : hit.IsText ↔ ∀ b ∈ [hit.key, hit.hashStr, hit.blockType,
    hit.strategy, hit.foundAt, hit.payoutAccount, hit.saltHex], b.IsValidUTF8 := by
  simp only [List.forall_mem_cons, List.not_mem_nil, false_implies, implies_true, and_true]
  exact ⟨fun ⟨h₁, h₂, h₃, h₄, h₅, h₆, h₇⟩ ↦ ⟨h₁, h₂, h₃, h₄, h₅, h₆, h₇⟩,
    fun ⟨h₁, h₂, h₃, h₄, h₅, h₆, h₇⟩ ↦ ⟨h₁, h₂, h₃, h₄, h₅, h₆, h₇⟩⟩

instance (hit : HitBytes) : Decidable hit.IsText := decidable_of_iff' _ isText_iff

/-- The hit as text. -/
def text (hit : HitBytes) (h : hit.IsText) : BlockHit where
  key := .ofByteArray hit.key h.key
  hashStr := .ofByteArray hit.hashStr h.hashStr
  blockType := .ofByteArray hit.blockType h.blockType
  attempts := hit.attempts
  strategy := .ofByteArray hit.strategy h.strategy
  hps := hit.hps
  foundAt := .ofByteArray hit.foundAt h.foundAt
  memoryCost := hit.memoryCost
  payoutAccount := .ofByteArray hit.payoutAccount h.payoutAccount
  saltHex := .ofByteArray hit.saltHex h.saltHex
  feeBlock := hit.feeBlock

/-- The members `hit_to_json` writes, printed. -/
def dumpMembers (hit : HitBytes) : Option (List (String × Json)) := do
  let key ← dumpString hit.key
  let hashStr ← dumpString hit.hashStr
  let blockType ← dumpString hit.blockType
  let strategy ← dumpString hit.strategy
  let foundAt ← dumpString hit.foundAt
  let payoutAccount ← dumpString hit.payoutAccount
  let saltHex ← dumpString hit.saltHex
  some ([("key", key), ("hash_str", hashStr), ("block_type", blockType), ("strategy", strategy),
    ("attempts", .int hit.attempts), ("hps", .real hit.hps), ("found_at", foundAt)] ++
    (match hit.memoryCost with
      | some m => [("memory_cost", .int m)]
      | none => []) ++
    (if hit.payoutAccount.size = 0 then [] else [("payout_account", payoutAccount)]) ++
    (if hit.saltHex.size = 0 then [] else [("salt_hex", saltHex)]) ++
    (if hit.feeBlock then [("fee_block", .bool true)] else []))

variable {hit : HitBytes}

@[simp] theorem text_hashStr (h : hit.IsText) : (hit.text h).hashStr.toByteArray = hit.hashStr :=
  rfl

theorem isText_bytes (hit : BlockHit) : hit.bytes.IsText where
  key := hit.key.isValidUTF8
  hashStr := hit.hashStr.isValidUTF8
  blockType := hit.blockType.isValidUTF8
  strategy := hit.strategy.isValidUTF8
  foundAt := hit.foundAt.isValidUTF8
  payoutAccount := hit.payoutAccount.isValidUTF8
  saltHex := hit.saltHex.isValidUTF8

@[simp] theorem text_bytes (hit : BlockHit) : hit.bytes.text (isText_bytes hit) = hit := rfl

/-- A string has no bytes exactly if it is empty. -/
theorem ofByteArray_eq_empty {b : ByteArray} (h : b.IsValidUTF8) :
    String.ofByteArray b h = "" ↔ b.size = 0 :=
  String.toByteArray_inj.symm.trans ByteArray.size_eq_zero_iff.symm

/-- A hit that is text is printed as before. -/
theorem dumpMembers_of_isText (h : hit.IsText) :
    hit.dumpMembers = some (hitMembers (hit.text h)) := by
  simp [dumpMembers, dumpString, hitMembers, text, h.key, h.hashStr, h.blockType, h.strategy,
    h.foundAt, h.payoutAccount, h.saltHex, ofByteArray_eq_empty]
  congr

theorem dumpString_eq_none_iff {b : ByteArray} : dumpString b = none ↔ ¬ b.IsValidUTF8 := by
  simp [dumpString]

theorem isText_of_dumpMembers {members : List (String × Json)}
    (h : hit.dumpMembers = some members) : hit.IsText := by
  rw [isText_iff]
  intro b hb
  by_contra hno
  have hnone := dumpString_eq_none_iff.mpr hno
  simp only [List.mem_cons, List.not_mem_nil, or_false] at hb
  rcases hb with rfl | rfl | rfl | rfl | rfl | rfl | rfl
  all_goals simp [dumpMembers, hnone] at h

end HitBytes

namespace BlockStore

/-! ## Operations -/

/-- `log_rejection`.  The record is dumped before a byte of it is written. -/
def logRejectionBytes (s : BlockStore) (now : String) (hit : HitBytes) (httpStatus : Int)
    (body : ByteArray) (source : String) : Option BlockStore := do
  let members ← hit.dumpMembers
  let responseBody ← dumpString body
  let rec' := Json.obj (members ++ [("rejected_at", .str now),
    ("http_status", .int httpStatus), ("response_body", responseBody), ("source", .str source),
    ("category", .str "resubmission")])
  some { s with files := { s.files with rejected := s.files.rejected ++ [rec'] } }

/-- `hash_index_` has the digest, and so `enqueue` takes the hit for a twin. -/
def IndexesBytes (s : BlockStore) (digest : ByteArray) : Prop :=
  digest.size ≠ 0 ∧ ∃ d ∈ s.hashIndex, d.toByteArray = digest

instance (s : BlockStore) (digest : ByteArray) : Decidable (s.IndexesBytes digest) :=
  haveI : DecidableEq ByteArray := ByteArray.decEq
  inferInstanceAs (Decidable (_ ∧ _))

/-- `enqueue`: the row is appended after its line for `queue.jsonl` is printed. -/
def enqueueBytes (s : BlockStore) (now : String) (hit : HitBytes) (reason : String) :
    Option BlockStore :=
  if s.IndexesBytes hit.hashStr then some s
  else if h : hit.IsText then some (s.enqueue now (hit.text h) reason).2
  else none

/-- `record_rejection`. -/
def recordRejectionBytes (s : BlockStore) (now : String) (hit : HitBytes) (httpStatus : Int)
    (body : ByteArray) (source : String) : Option (Bool × BlockStore) := do
  let logged ← s.logRejectionBytes now hit httpStatus body source
  let queued ← logged.enqueueBytes now hit "resubmission"
  some (true, queued)

/-- The bag has a row with this digest. -/
def HoldsBytes (s : BlockStore) (digest : ByteArray) : Prop :=
  ∃ pb ∈ s.pending, pb.hit.hashStr.toByteArray = digest

/-- The digest is in the index, and in no row. -/
def Stray (s : BlockStore) (digest : ByteArray) : Prop :=
  s.IndexesBytes digest ∧ ¬ s.HoldsBytes digest

variable {s t : BlockStore} {now source reason : String} {hit : HitBytes} {row : BlockHit}
  {status : Int} {body : ByteArray}

/-! ## Logging -/

/-- **When `log_rejection` returns.** -/
theorem logRejectionBytes_eq_some_iff :
    s.logRejectionBytes now hit status body source = some t ↔
      ∃ (h : hit.IsText) (hbody : body.IsValidUTF8),
        t = s.logRejection now (hit.text h) status (String.ofByteArray body hbody) source := by
  constructor
  · intro hlog
    obtain ⟨members, hmembers, hlog⟩ := Option.bind_eq_some_iff.mp hlog
    have h := HitBytes.isText_of_dumpMembers hmembers
    rw [HitBytes.dumpMembers_of_isText h] at hmembers
    obtain rfl := Option.some.inj hmembers
    obtain ⟨responseBody, hdump, hlog⟩ := Option.bind_eq_some_iff.mp hlog
    by_cases hbody : body.IsValidUTF8
    · rw [dumpString, dif_pos hbody] at hdump
      obtain rfl := Option.some.inj hdump
      exact ⟨h, hbody, (Option.some.inj hlog).symm⟩
    · rw [dumpString, dif_neg hbody] at hdump
      cases hdump
  · rintro ⟨h, hbody, rfl⟩
    simp [logRejectionBytes, HitBytes.dumpMembers_of_isText h, dumpString, hbody, logRejection]

/-- A row whose body is text is logged as before. -/
theorem logRejectionBytes_of_valid (h : body.IsValidUTF8) :
    s.logRejectionBytes now row.bytes status body source =
      some (s.logRejection now row status (String.ofByteArray body h) source) :=
  logRejectionBytes_eq_some_iff.mpr ⟨HitBytes.isText_bytes row, h, rfl⟩

theorem logRejectionBytes_of_not_valid (h : ¬ body.IsValidUTF8) :
    s.logRejectionBytes now hit status body source = none :=
  Option.eq_none_iff_forall_ne_some.mpr fun _ hlog ↦
    h (logRejectionBytes_eq_some_iff.mp hlog).2.1

/-- Logging touches no row. -/
theorem logRejectionBytes_rows (h : s.logRejectionBytes now hit status body source = some t) :
    t.pending = s.pending ∧ t.nextId = s.nextId ∧ t.hashIndex = s.hashIndex := by
  obtain ⟨-, -, rfl⟩ := logRejectionBytes_eq_some_iff.mp h
  exact ⟨rfl, rfl, rfl⟩

/-! ## Queueing -/

/-- The two ways to say that the index has a digest. -/
theorem indexesBytes_iff_bagged (h : hit.IsText) :
    s.IndexesBytes hit.hashStr ↔ s.Bagged (hit.text h) := by
  refine and_congr (not_congr (HitBytes.ofByteArray_eq_empty h.hashStr).symm) ⟨?_, fun hmem ↦ ?_⟩
  · rintro ⟨d, hd, heq⟩
    rwa [show (hit.text h).hashStr = d from String.toByteArray_inj.mp heq.symm]
  · exact ⟨_, hmem, rfl⟩

/-- A hit that is text is queued as before. -/
theorem enqueueBytes_of_isText (h : hit.IsText) :
    s.enqueueBytes now hit reason = some (s.enqueue now (hit.text h) reason).2 := by
  by_cases hin : s.IndexesBytes hit.hashStr
  · rw [enqueueBytes, if_pos hin, enqueue_of_bagged ((indexesBytes_iff_bagged h).mp hin)]
  · rw [enqueueBytes, if_neg hin, dif_pos h]

/-- **When `enqueue` returns.** -/
theorem enqueueBytes_eq_some_iff :
    s.enqueueBytes now hit reason = some t ↔ s.IndexesBytes hit.hashStr ∧ t = s ∨
      ∃ h : hit.IsText, t = (s.enqueue now (hit.text h) reason).2 := by
  constructor
  · intro hqueue
    by_cases hin : s.IndexesBytes hit.hashStr
    · rw [enqueueBytes, if_pos hin] at hqueue
      exact .inl ⟨hin, (Option.some.inj hqueue).symm⟩
    · rw [enqueueBytes, if_neg hin] at hqueue
      split at hqueue
      · next h => exact .inr ⟨h, (Option.some.inj hqueue).symm⟩
      · cases hqueue
  · rintro (⟨hin, rfl⟩ | ⟨h, rfl⟩)
    · rw [enqueueBytes, if_pos hin]
    · exact enqueueBytes_of_isText h

/-- A hit that is text gets a row, or has one, unless its digest is stray. -/
theorem holdsBytes_enqueue_iff (h : hit.IsText) :
    (s.enqueue now (hit.text h) reason).2.HoldsBytes hit.hashStr ↔ ¬ s.Stray hit.hashStr := by
  by_cases hb : s.Bagged (hit.text h)
  · rw [enqueue_of_bagged hb]
    exact ⟨fun hholds hstray ↦ hstray.2 hholds, fun hno ↦
      by_contra fun hrow ↦ hno ⟨(indexesBytes_iff_bagged h).mpr hb, hrow⟩⟩
  · have hpending := (enqueue_of_not_bagged hb now reason).2
    refine iff_of_true ⟨{ id := s.nextId, hit := hit.text h, queueReason := reason }, ?_, rfl⟩
      fun hstray ↦ hb ((indexesBytes_iff_bagged h).mp hstray.1)
    rw [hpending]
    exact List.mem_append_right _ List.mem_cons_self

/-- Where the line is not printed no row is appended. -/
theorem enqueueNotText_pending (s : BlockStore) (hit : BlockHit) :
    (s.enqueueNotText hit).pending = s.pending := by
  unfold enqueueNotText
  split <;> rfl

/-- A hit that was queued is in the bag, unless its digest is stray. -/
theorem holdsBytes_of_enqueueBytes (hstray : ¬ s.Stray hit.hashStr)
    (h : s.enqueueBytes now hit reason = some t) : t.HoldsBytes hit.hashStr := by
  rcases enqueueBytes_eq_some_iff.mp h with ⟨hin, rfl⟩ | ⟨htext, rfl⟩
  · exact by_contra fun hrow ↦ hstray ⟨hin, hrow⟩
  · exact (holdsBytes_enqueue_iff htext).mpr hstray

/-- In a store whose index is the set of the digests, no digest is stray. -/
theorem HashInv.not_stray (hs : HashInv s) (digest : ByteArray) : ¬ s.Stray digest := by
  rintro ⟨⟨-, d, hd, rfl⟩, hno⟩
  obtain ⟨-, pb, hpb, rfl⟩ := mem_hashesOf.mp ((hs.index d).mp hd)
  exact hno ⟨pb, hpb, rfl⟩

/-! ## Recording -/

/-- **When `record_rejection` returns.** -/
theorem recordRejectionBytes_eq_some_iff {r : Bool × BlockStore} :
    s.recordRejectionBytes now hit status body source = some r ↔
      ∃ (h : hit.IsText) (hbody : body.IsValidUTF8),
        r = s.recordRejection now (hit.text h) status (String.ofByteArray body hbody) source := by
  constructor
  · intro hrecord
    obtain ⟨logged, hlog, hrecord⟩ := Option.bind_eq_some_iff.mp hrecord
    obtain ⟨h, hbody, rfl⟩ := logRejectionBytes_eq_some_iff.mp hlog
    rw [enqueueBytes_of_isText h] at hrecord
    exact ⟨h, hbody, (Option.some.inj hrecord).symm⟩
  · rintro ⟨h, hbody, rfl⟩
    refine Option.bind_eq_some_iff.mpr ⟨_, logRejectionBytes_eq_some_iff.mpr ⟨h, hbody, rfl⟩, ?_⟩
    rw [enqueueBytes_of_isText h]
    rfl

/-- The row that `record_rejection` leaves. -/
theorem recordRejectionBytes_holds_iff :
    (∃ t, s.recordRejectionBytes now hit status body source = some (true, t) ∧
      t.HoldsBytes hit.hashStr) ↔ (hit.IsText ∧ body.IsValidUTF8) ∧ ¬ s.Stray hit.hashStr := by
  constructor
  · rintro ⟨t, hrecord, hholds⟩
    obtain ⟨h, hbody, heq⟩ := recordRejectionBytes_eq_some_iff.mp hrecord
    obtain ⟨-, rfl⟩ := Prod.mk.inj heq
    -- logging has touched neither the rows nor the index
    exact ⟨⟨h, hbody⟩, fun hstray ↦ (holdsBytes_enqueue_iff h).mp hholds hstray⟩
  · rintro ⟨⟨h, hbody⟩, hstray⟩
    exact ⟨_, recordRejectionBytes_eq_some_iff.mpr ⟨h, hbody, rfl⟩,
      (holdsBytes_enqueue_iff h).mpr fun hlogged ↦ hstray hlogged⟩

end BlockStore

end XNMiner
