import XNMiner.Queue.BagCodec
import XNMiner.Queue.Store

/-!
# What a damaged file or body does to the readers

The readers of the bag skip what is no JSON and what is no object.  The members of an object,
on the other hand, are read by typed accesses that throw, and `load` catches a throw only while it
reads `blocks.db`.  So whether a store can be constructed, and whether a body is taken at all,
depends on the type of every member that is read: one line of `queue.jsonl` that parses and has a
number for a digest keeps the miner from starting.

`ReadableLog` and `ReadableBag` are the exact conditions, in terms of the documents alone.
-/

namespace XNMiner

open Lib

/-! ## One hit -/

/-- The string members of a hit. -/
def hitTextKeys : List String :=
  ["key", "hash_str", "block_type", "strategy", "found_at", "payout_account", "salt_hex"]

/-- Every member that `hit_from_json` reads converts. -/
structure ReadableHit (j : Json) : Prop where
  text : ∀ k ∈ hitTextKeys, j.Reads Json.toStr k
  attempts : j.Reads Json.toInt32 "attempts"
  hps : j.Reads Json.toReal "hps"
  memoryCost : ∀ v ∈ j.find? "memory_cost", v = .null ∨ v.toInt32.isSome = true
  feeBlock : j.Reads Json.toBool "fee_block"

/-- Every member that `hit_from_json` reads has the type that `hit_to_json` writes. -/
structure WellFormedHit (j : Json) : Prop where
  object : j.isObject = true
  text : ∀ k ∈ hitTextKeys, ∀ v ∈ j.find? k, ∃ t, v = .str t
  attempts : ∀ v ∈ j.find? "attempts", ∃ n, v = .int n
  hps : ∀ v ∈ j.find? "hps", ∃ q, v = .real q
  memoryCost : ∀ v ∈ j.find? "memory_cost", ∃ n, v = .int n
  feeBlock : ∀ v ∈ j.find? "fee_block", ∃ b, v = .bool b

/-- The read of `memory_cost` goes through where the member is absent, `null` or a number. -/
theorem memoryCostFromJson_isSome_iff (j : Json) : (memoryCostFromJson j).isSome = true ↔
    ∀ v ∈ j.find? "memory_cost", v = .null ∨ v.toInt32.isSome = true := by
  unfold memoryCostFromJson
  split
  · next h => simp [h]
  · next h => simp [h]
  · next v hnull h =>
    simp only [h, Option.isSome_map, Option.mem_def, Option.some.injEq, forall_eq']
    constructor
    · exact .inr
    · rintro (rfl | hv)
      · exact absurd rfl hnull
      · exact hv

/-- **`hit_from_json` throws exactly where a member does not convert.** -/
theorem hitFromJson_isSome_iff {j : Json} (hobj : j.isObject = true) :
    (hitFromJson j).isSome = true ↔ ReadableHit j := by
  have hv {α : Type} (conv : Json → Option α) (k : String) (d : α) :=
    Json.value_isSome_iff hobj conv k d
  constructor
  · intro h
    obtain ⟨hit, hhit⟩ := Option.isSome_iff_exists.mp h
    simp only [hitFromJson, Option.bind_eq_bind, Option.bind_eq_some_iff] at hhit
    obtain ⟨_, h₁, _, h₂, _, h₃, _, h₄, _, h₅, _, h₆, _, h₇, _, h₈, _, h₉, _, h₁₀, _, h₁₁, -⟩ :=
      hhit
    refine ⟨fun k hk ↦ ?_, (hv _ _ _).mp (by rw [h₅]; rfl), (hv _ _ _).mp (by rw [h₆]; rfl),
      (memoryCostFromJson_isSome_iff j).mp (by rw [h₈]; rfl), (hv _ _ _).mp (by rw [h₁₁]; rfl)⟩
    simp only [hitTextKeys, List.mem_cons, List.not_mem_nil, or_false] at hk
    rcases hk with rfl | rfl | rfl | rfl | rfl | rfl | rfl
    · exact (hv _ _ "").mp (by rw [h₁]; rfl)
    · exact (hv _ _ "").mp (by rw [h₂]; rfl)
    · exact (hv _ _ "XNM").mp (by rw [h₃]; rfl)
    · exact (hv _ _ "random").mp (by rw [h₄]; rfl)
    · exact (hv _ _ "").mp (by rw [h₇]; rfl)
    · exact (hv _ _ "").mp (by rw [h₉]; rfl)
    · exact (hv _ _ "").mp (by rw [h₁₀]; rfl)
  · intro h
    have ht (k : String) (hk : k ∈ hitTextKeys) (d : String) :
        ∃ t, j.value Json.toStr k d = some t :=
      Option.isSome_iff_exists.mp ((hv _ _ d).mpr (h.text k hk))
    obtain ⟨_, h₁⟩ := ht "key" (by decide) ""
    obtain ⟨_, h₂⟩ := ht "hash_str" (by decide) ""
    obtain ⟨_, h₃⟩ := ht "block_type" (by decide) "XNM"
    obtain ⟨_, h₄⟩ := ht "strategy" (by decide) "random"
    obtain ⟨_, h₅⟩ := Option.isSome_iff_exists.mp ((hv _ _ 0).mpr h.attempts)
    obtain ⟨_, h₆⟩ := Option.isSome_iff_exists.mp ((hv _ _ 0).mpr h.hps)
    obtain ⟨_, h₇⟩ := ht "found_at" (by decide) ""
    obtain ⟨_, h₈⟩ := Option.isSome_iff_exists.mp
      ((memoryCostFromJson_isSome_iff j).mpr h.memoryCost)
    obtain ⟨_, h₉⟩ := ht "payout_account" (by decide) ""
    obtain ⟨_, h₁₀⟩ := ht "salt_hex" (by decide) ""
    obtain ⟨_, h₁₁⟩ := Option.isSome_iff_exists.mp ((hv _ _ false).mpr h.feeBlock)
    simp [hitFromJson, h₁, h₂, h₃, h₄, h₅, h₆, h₇, h₈, h₉, h₁₀, h₁₁]

/-- The digest a document names, the empty one where it names none. -/
def digest (j : Json) : String := ((j.find? "hash_str").bind Json.toStr).getD ""

/-- The key a document names. -/
def keyText (j : Json) : String := ((j.find? "key").bind Json.toStr).getD ""

/-- A read of a string that goes through answers what the document names. -/
theorem eq_of_value_toStr {j : Json} {k t : String}
    (h : j.value Json.toStr k "" = some t) : ((j.find? k).bind Json.toStr).getD "" = t := by
  cases j with
  | obj members =>
      unfold Json.value at h
      unfold Json.find?
      dsimp only at h ⊢
      cases hm : members.lookup k with
      | none =>
          rw [hm] at h
          exact Option.some.inj h
      | some v =>
          rw [hm] at h
          change v.toStr = some t at h
          rw [Option.bind_some, h]
          rfl
  | _ => cases h

/-- The digest of the hit that is read. -/
theorem digest_eq {j : Json} {hit : BlockHit} (h : hitFromJson j = some hit) :
    digest j = hit.hashStr ∧ keyText j = hit.key := by
  simp only [hitFromJson, Option.bind_eq_bind, Option.bind_eq_some_iff] at h
  obtain ⟨_, h₁, _, h₂, _, _, _, _, _, _, _, _, _, _, _, _, _, _, _, _, _, _, hit⟩ := h
  obtain rfl := Option.some.inj hit
  exact ⟨eq_of_value_toStr h₂, eq_of_value_toStr h₁⟩

/-! ## A row of the snapshot, a line of the log -/

/-- The members that only the queue writes convert. -/
structure ReadableRecord (j : Json) : Prop where
  id : j.Reads Json.toInt64 "id"
  reason : j.Reads Json.toStr "reason"
  queueReason : j.Reads Json.toStr "queue_reason"
  rejectCount : j.Reads Json.toInt32 "reject_count"

namespace BlockStore

/-- The reads of a line, after the hit. -/
theorem parseRecord_isSome_iff {rec : Json} (hobj : rec.isObject = true) (hit : BlockHit)
    (nextId : Int) : (parseRecord rec hit nextId).isSome = true ↔ ReadableRecord rec := by
  have hv {α : Type} (conv : Json → Option α) (k : String) (d : α) :=
    Json.value_isSome_iff hobj conv k d
  constructor
  · intro h
    obtain ⟨pb, hpb⟩ := Option.isSome_iff_exists.mp h
    simp only [parseRecord, Option.bind_eq_bind, Option.bind_eq_some_iff] at hpb
    obtain ⟨_, h₁, _, h₂, _, h₃, _, h₄, -⟩ := hpb
    exact ⟨(hv _ _ nextId).mp (by rw [h₁]; rfl), (hv _ _ _).mp (by rw [h₂]; rfl),
      (hv _ _ _).mp (by rw [h₃]; rfl), (hv _ _ _).mp (by rw [h₄]; rfl)⟩
  · intro h
    obtain ⟨_, h₁⟩ := Option.isSome_iff_exists.mp ((hv _ _ nextId).mpr h.id)
    obtain ⟨reason, h₂⟩ := Option.isSome_iff_exists.mp ((hv _ _ "jsonl_recover").mpr h.reason)
    obtain ⟨_, h₃⟩ := Option.isSome_iff_exists.mp ((hv _ _ reason).mpr h.queueReason)
    obtain ⟨_, h₄⟩ := Option.isSome_iff_exists.mp ((hv _ _ 0).mpr h.rejectCount)
    simp [parseRecord, h₁, h₂, h₃, h₄]

/-- What a row of the snapshot needs to be read. -/
theorem parseRow_isSome_iff {item : Json} (defaultId : Int) :
    (parseRow item defaultId).isSome = true ↔
      item.isObject = true ∧ ReadableHit item ∧ ReadableRecord item ∧
        item.Reads Json.toBool "forwarded" := by
  constructor
  · intro h
    obtain ⟨pb, hpb⟩ := Option.isSome_iff_exists.mp h
    simp only [parseRow, Option.bind_eq_bind, Option.bind_eq_some_iff] at hpb
    obtain ⟨_, h₁, _, h₂, _, h₃, _, h₄, _, h₅, _, h₆, -⟩ := hpb
    have hobj : item.isObject = true := Json.isObject_of_value (by rw [h₁]; rfl)
    have hv {α : Type} (conv : Json → Option α) (k : String) (d : α) :=
      Json.value_isSome_iff hobj conv k d
    exact ⟨hobj, (hitFromJson_isSome_iff hobj).mp (by rw [h₂]; rfl),
      ⟨(hv _ _ _).mp (by rw [h₁]; rfl), (hv _ _ _).mp (by rw [h₃]; rfl),
        (hv _ _ _).mp (by rw [h₄]; rfl), (hv _ _ _).mp (by rw [h₅]; rfl)⟩,
      (hv _ _ _).mp (by rw [h₆]; rfl)⟩
  · rintro ⟨hobj, hhit, hrec, hfwd⟩
    have hv {α : Type} (conv : Json → Option α) (k : String) (d : α) :=
      Json.value_isSome_iff hobj conv k d
    obtain ⟨_, h₁⟩ := Option.isSome_iff_exists.mp ((hv _ _ defaultId).mpr hrec.id)
    obtain ⟨_, h₂⟩ := Option.isSome_iff_exists.mp ((hitFromJson_isSome_iff hobj).mpr hhit)
    obtain ⟨reason, h₃⟩ := Option.isSome_iff_exists.mp ((hv _ _ "").mpr hrec.reason)
    obtain ⟨_, h₄⟩ := Option.isSome_iff_exists.mp ((hv _ _ reason).mpr hrec.queueReason)
    obtain ⟨_, h₅⟩ := Option.isSome_iff_exists.mp ((hv _ _ 0).mpr hrec.rejectCount)
    obtain ⟨_, h₆⟩ := Option.isSome_iff_exists.mp ((hv _ _ false).mpr hfwd)
    simp [parseRow, h₁, h₂, h₃, h₄, h₅, h₆]

/-- Whether a row of the snapshot can be read. -/
def readableRow (item : Json) : Bool := (parseRow item 0).isSome

/-- The default id does not decide whether a row can be read. -/
theorem parseRow_isSome (item : Json) (defaultId : Int) :
    (parseRow item defaultId).isSome = readableRow item := by
  rw [Bool.eq_iff_iff, readableRow, parseRow_isSome_iff, parseRow_isSome_iff]

/-- A row that is read has the digest of its document. -/
theorem parseRow_digest {item : Json} {defaultId : Int} {pb : PendingBlock}
    (h : parseRow item defaultId = some pb) : pb.hit.hashStr = digest item := by
  simp only [parseRow, Option.bind_eq_bind, Option.bind_eq_some_iff] at h
  obtain ⟨_, -, _, hhit, _, -, _, -, _, -, _, -, hpb⟩ := h
  rw [← Option.some.inj hpb]
  exact (digest_eq hhit).1.symm

/-! ## The snapshot -/

/-- The rows of a snapshot that are read before the first one that throws. -/
def rowsRead (items : List Json) : List Json := items.takeWhile readableRow

/-- The snapshot is read to its end, so that the log is not looked at. -/
def SnapshotRead (db : Option (Option Json)) : Prop :=
  ∃ root items, db = some (some root) ∧ (root.value Json.toInt32 "next_id" 1).isSome = true ∧
    bagArray root "pending" = some items ∧ ∀ item ∈ items, readableRow item = true

/-- The digests of the rows that are in the bag when the log is read. -/
def snapshotDigests : Option (Option Json) → List String
  | some (some root) =>
      if (root.value Json.toInt32 "next_id" 1).isSome then
        (rowsRead ((bagArray root "pending").getD [])).map digest
      else []
  | _ => []

/-- The index of a store has these digests; the empty one does not matter. -/
def Indexes (s : BlockStore) (seen : List String) : Prop :=
  ∀ h, h ≠ "" → (h ∈ s.hashIndex ↔ h ∈ seen)

theorem indexes_addRow {s : BlockStore} {seen : List String} (h : Indexes s seen)
    (pb : PendingBlock) : Indexes (s.addRow pb) (pb.hit.hashStr :: seen) := by
  intro d hd
  unfold addRow indexHash
  dsimp only
  split
  · next he =>
    rw [h d hd, he, List.mem_cons, or_iff_right hd]
  · rw [Finset.mem_insert, List.mem_cons, h d hd]

/-- What is left of a snapshot when its rows have been read as far as they go. -/
theorem loadRows_spec (items : List Json) {s : BlockStore} {seen : List String}
    (h : Indexes s seen) : (loadRows items s).2 = items.all readableRow ∧
      (loadRows items s).1.files = s.files ∧
      Indexes (loadRows items s).1 (((rowsRead items).map digest).reverse ++ seen) := by
  induction items generalizing s seen with
  | nil => exact ⟨rfl, rfl, h⟩
  | cons item rest ih =>
      have hread := parseRow_isSome item s.nextId
      let s₁ : BlockStore := { s with nextId := s.nextId + 1 }
      have h₁ : Indexes s₁ seen := h
      unfold loadRows rowsRead
      dsimp only
      cases hp : parseRow item s.nextId with
      | none =>
          rw [hp] at hread
          have hr : readableRow item = false := hread.symm
          refine ⟨by simp [hr], rfl, ?_⟩
          simpa [hr] using h₁
      | some pb =>
          rw [hp] at hread
          have hr : readableRow item = true := hread.symm
          have hd := parseRow_digest hp
          have hadd := indexes_addRow h₁ pb
          rw [hd] at hadd
          obtain ⟨hok, hfiles, hidx⟩ := ih hadd
          refine ⟨by simpa [hr] using hok, hfiles, ?_⟩
          simpa [hr, rowsRead] using hidx

theorem indexes_empty (files : Files) : Indexes { files } [] := fun d _ ↦ by simp

/-- What is left of a snapshot that parsed. -/
theorem loadSnapshot_spec (root : Json) (files : Files) (hdb : files.db = some (some root)) :
    ((loadSnapshot root { files }).2 = true ↔ SnapshotRead files.db) ∧
      (loadSnapshot root { files }).1.files = files ∧
      Indexes (loadSnapshot root { files }).1 (snapshotDigests files.db).reverse := by
  have hroot (P : Json → List Json → Prop) :
      (∃ root' items, files.db = some (some root') ∧ P root' items) ↔ ∃ items, P root items := by
    simp [hdb]
  unfold loadSnapshot SnapshotRead
  rw [hroot fun root' items ↦ (root'.value Json.toInt32 "next_id" 1).isSome = true ∧
    bagArray root' "pending" = some items ∧ ∀ item ∈ items, readableRow item = true]
  cases hn : root.value Json.toInt32 "next_id" 1 with
  | none => simpa [snapshotDigests, hdb, hn] using indexes_empty files
  | some n =>
      have hidx : Indexes { nextId := n, files } [] := fun d _ ↦ by simp
      dsimp only
      cases hi : (root.find? "pending").bind Json.items? with
      | none =>
          have hb : bagArray root "pending" = none := hi
          simpa [snapshotDigests, hdb, hn, hb, rowsRead] using hidx
      | some items =>
          have hb : bagArray root "pending" = some items := hi
          obtain ⟨hok, hfiles, hrows⟩ := loadRows_spec items hidx
          refine ⟨?_, hfiles, ?_⟩
          · simpa [hb] using congrArg (· = true) hok
          · simpa [snapshotDigests, hdb, hn, hb] using hrows

/-! ## The log -/

/-- What the members of one line decide, when the digests in `seen` are in the bag already: a
hit must be readable on every line that is an object, the rest only where the digest is new. -/
def LineOk (seen : List String) (line : Option Json) : Prop :=
  ∀ rec, line = some rec → rec.isObject = true →
    ReadableHit rec ∧ (digest rec = "" ∨ digest rec ∈ seen ∨ ReadableRecord rec)

/-- The digest on a line. -/
def lineDigest (line : Option Json) : String := (line.map digest).getD ""

/-- Every line can be read, on top of a bag that has the digests in `seen`: each line is judged
with the digests of the lines before it. -/
def ReadableLines (seen : List String) (lines : List (Option Json)) : Prop :=
  ∀ pre line post, lines = pre ++ line :: post →
    LineOk ((pre.map lineDigest).reverse ++ seen) line

theorem readableLines_nil (seen : List String) : ReadableLines seen [] := by
  intro pre line post h
  exact absurd h.symm (by simp)

theorem readableLines_cons {seen : List String} {line : Option Json}
    {rest : List (Option Json)} : ReadableLines seen (line :: rest) ↔
      LineOk seen line ∧ ReadableLines (lineDigest line :: seen) rest := by
  constructor
  · intro h
    refine ⟨h [] line rest rfl, fun pre next post heq ↦ ?_⟩
    have hnext := h (line :: pre) next post (by rw [heq, List.cons_append])
    simpa using hnext
  · rintro ⟨hline, hrest⟩ pre next post heq
    cases pre with
    | nil =>
        obtain ⟨rfl, rfl⟩ := List.cons.inj heq
        exact hline
    | cons first pre =>
        obtain ⟨rfl, htail⟩ := List.cons.inj heq
        simpa using hrest pre next post htail

/-- What one line of the log does: `none` is a throw, `some none` a line that is skipped. -/
def readLine (s : BlockStore) : Option Json → Option (Option PendingBlock)
  | none => some none
  | some rec =>
      if rec.isObject = false then some none
      else match hitFromJson rec with
        | none => none
        | some hit =>
            if hit.hashStr = "" ∨ hit.hashStr ∈ s.hashIndex then some none
            else (parseRecord rec hit s.nextId).map fun pb ↦
              some { pb with id := s.recoverId pb.id }

/-- The loop over the log goes by what each line does. -/
theorem recoverLines_cons (line : Option Json) (rest : List (Option Json)) (s : BlockStore)
    (added : Bool) : recoverLines (line :: rest) s added =
      match readLine s line with
      | none => (s, added, false)
      | some none => recoverLines rest s added
      | some (some pb) => recoverLines rest (s.addRow pb) true := by
  cases line with
  | none => rfl
  | some rec =>
      rw [recoverLines, readLine]
      by_cases hobj : rec.isObject = false
      · simp only [if_pos hobj]
      · simp only [if_neg hobj]
        cases hitFromJson rec with
        | none => rfl
        | some hit =>
            dsimp only
            by_cases hin : hit.hashStr = "" ∨ hit.hashStr ∈ s.hashIndex
            · simp only [if_pos hin]
            · simp only [if_neg hin]
              cases parseRecord rec hit s.nextId <;> rfl

/-- What a line that went this way has on it. -/
inductive LineRead (s : BlockStore) (line : Option Json) : Option (Option PendingBlock) → Prop
  | skips (h : ∀ rec, line = some rec → rec.isObject = true →
      ReadableHit rec ∧ (digest rec = "" ∨ digest rec ∈ s.hashIndex)) :
      LineRead s line (some none)
  | throws (rec : Json) (hline : line = some rec) (hobj : rec.isObject = true)
      (h : ReadableHit rec →
        digest rec ≠ "" ∧ digest rec ∉ s.hashIndex ∧ ¬ReadableRecord rec) : LineRead s line none
  | adds (rec : Json) (pb : PendingBlock) (hline : line = some rec) (hobj : rec.isObject = true)
      (hrec : ReadableRecord rec) (hhit : hitFromJson rec = some pb.hit)
      (hnew : digest rec ≠ "" ∧ digest rec ∉ s.hashIndex) : LineRead s line (some (some pb))

theorem readLine_inv (s : BlockStore) (line : Option Json) : LineRead s line (readLine s line) := by
  cases line with
  | none => exact .skips fun rec h ↦ absurd h (by simp)
  | some rec =>
      unfold readLine
      dsimp only
      by_cases hobj : rec.isObject = false
      · rw [if_pos hobj]
        refine .skips fun rec' h hobj' ↦ absurd hobj' ?_
        rw [← Option.some.inj h, hobj]
        simp
      · rw [if_neg hobj]
        have hobj : rec.isObject = true := by simpa using hobj
        cases hhit : hitFromJson rec with
        | none =>
            refine .throws rec rfl hobj fun hread ↦ ?_
            have hs := (hitFromJson_isSome_iff hobj).mpr hread
            rw [hhit] at hs
            exact absurd hs (by simp)
        | some hit =>
            have hread := (hitFromJson_isSome_iff hobj).mp (by rw [hhit]; rfl)
            have hd := (digest_eq hhit).1
            dsimp only
            split
            · next hin =>
              refine .skips fun rec' h _ ↦ ?_
              obtain rfl := Option.some.inj h
              exact ⟨hread, hd ▸ hin⟩
            · next hout =>
              rw [← hd, not_or] at hout
              have hsome := parseRecord_isSome_iff hobj hit s.nextId
              cases hrec : parseRecord rec hit s.nextId with
              | none =>
                  rw [hrec] at hsome
                  exact .throws rec rfl hobj fun _ ↦
                    ⟨hout.1, hout.2, fun hr ↦ absurd (hsome.mpr hr) (by simp)⟩
              | some pb =>
                  rw [hrec] at hsome
                  refine .adds rec _ rfl hobj (hsome.mp rfl) ?_ hout
                  rw [hhit, parseRecord_hit hrec]

/-- A document that is no object names no digest. -/
theorem digest_of_not_object {j : Json} (h : j.isObject = false) : digest j = "" := by
  cases j with
  | obj members => cases h
  | _ => rfl

/-- A line that is skipped leaves the digests as they were. -/
theorem Indexes.skip {s : BlockStore} {seen : List String} (hidx : Indexes s seen)
    {line : Option Json} (h : ∀ rec, line = some rec → rec.isObject = true →
      ReadableHit rec ∧ (digest rec = "" ∨ digest rec ∈ s.hashIndex)) :
    Indexes s (lineDigest line :: seen) := by
  have hknown : lineDigest line = "" ∨ lineDigest line ∈ s.hashIndex := by
    cases line with
    | none => exact .inl rfl
    | some rec =>
        by_cases hobj : rec.isObject = true
        · exact (h rec rfl hobj).2
        · exact .inl (digest_of_not_object (by simpa using hobj))
  intro d hd
  rw [hidx d hd, List.mem_cons]
  constructor
  · exact .inr
  · rintro (rfl | hin)
    · exact (hidx _ hd).mp (hknown.resolve_left hd)
    · exact hin

/-- A line that adds a row adds its digest. -/
theorem Indexes.add {s : BlockStore} {seen : List String} (hidx : Indexes s seen) {rec : Json}
    {pb : PendingBlock} (hhit : hitFromJson rec = some pb.hit) :
    Indexes (s.addRow pb) (lineDigest (some rec) :: seen) := by
  have h := indexes_addRow hidx pb
  rwa [← (digest_eq hhit).1] at h

/-- **The log is read to its end exactly when all its lines can be read.** -/
theorem recoverLines_ok_iff (lines : List (Option Json)) {s : BlockStore} {seen : List String}
    (hidx : Indexes s seen) (added : Bool) :
    (recoverLines lines s added).2.2 = true ↔ ReadableLines seen lines := by
  induction lines generalizing s seen added with
  | nil => exact iff_of_true rfl (readableLines_nil seen)
  | cons line rest ih =>
      rw [recoverLines_cons, readableLines_cons]
      have hinv := readLine_inv s line
      generalize readLine s line = r at hinv ⊢
      cases hinv with
      | skips h =>
          rw [ih (hidx.skip h) added, iff_and_self]
          intro _ rec hline hobj
          obtain ⟨hread, hin⟩ := h rec hline hobj
          refine ⟨hread, ?_⟩
          by_cases he : digest rec = ""
          · exact .inl he
          · exact .inr (.inl ((hidx _ he).mp (hin.resolve_left he)))
      | throws rec hline hobj h =>
          refine iff_of_false (by simp) ?_
          rintro ⟨hok, -⟩
          obtain ⟨hread, hcase⟩ := hok rec hline hobj
          obtain ⟨hne, hout, hbad⟩ := h hread
          rcases hcase with he | hin | hrec
          · exact hne he
          · exact hout ((hidx _ hne).mpr hin)
          · exact hbad hrec
      | adds rec pb hline hobj hrec hhit hnew =>
          subst hline
          rw [ih (hidx.add hhit) true, iff_and_self]
          intro _ rec' h _
          obtain rfl := Option.some.inj h
          exact ⟨(hitFromJson_isSome_iff hobj).mp (by rw [hhit]; rfl), .inr (.inr hrec)⟩

/-- Reading the log only adds to the bag. -/
theorem recoverLines_grows (lines : List (Option Json)) (s : BlockStore) (added : Bool) :
    s.pending ⊆ (recoverLines lines s added).1.pending ∧
      s.hashIndex ⊆ (recoverLines lines s added).1.hashIndex ∧
      (recoverLines lines s added).1.files = s.files := by
  induction lines generalizing s added with
  | nil => exact ⟨List.Subset.refl _, Finset.Subset.refl _, rfl⟩
  | cons line rest ih =>
      rw [recoverLines_cons]
      cases readLine s line with
      | none => exact ⟨List.Subset.refl _, Finset.Subset.refl _, rfl⟩
      | some r =>
          cases r with
          | none => exact ih s added
          | some pb =>
              obtain ⟨hp, hi, hf⟩ := ih (s.addRow pb) true
              refine ⟨fun row hrow ↦ hp (List.mem_append_left _ hrow), fun d hd ↦ hi ?_, hf⟩
              change d ∈ indexHash s.hashIndex pb.hit.hashStr
              unfold indexHash
              split
              · exact hd
              · exact Finset.mem_insert_of_mem hd

/-- **Recovery**: when the log is read to its end, every line that names a digest which nothing
before it has named is a row of the bag. -/
theorem recoverLines_recovers {lines : List (Option Json)} {s : BlockStore} {seen : List String}
    (hidx : Indexes s seen) {added : Bool} (hok : (recoverLines lines s added).2.2 = true)
    {pre post : List (Option Json)} {rec : Json} (hsplit : lines = pre ++ some rec :: post)
    (hobj : rec.isObject = true) (hne : digest rec ≠ "")
    (hnew : digest rec ∉ (pre.map lineDigest).reverse ++ seen) :
    ∃ pb ∈ (recoverLines lines s added).1.pending, hitFromJson rec = some pb.hit := by
  induction lines generalizing s seen added pre with
  | nil => exact absurd hsplit.symm (by simp)
  | cons line rest ih =>
      rw [recoverLines_cons] at hok ⊢
      have hinv := readLine_inv s line
      generalize readLine s line = r at hinv hok ⊢
      cases pre with
      | nil =>
          obtain ⟨rfl, rfl⟩ := List.cons.inj hsplit
          have hout : digest rec ∉ s.hashIndex := fun hin ↦ hnew ((hidx _ hne).mp hin)
          cases hinv with
          | skips h =>
              rcases (h rec rfl hobj).2 with he | hin
              · exact absurd he hne
              · exact absurd hin hout
          | throws => cases hok
          | adds rec' pb hline _ _ hhit _ =>
              obtain rfl := Option.some.inj hline
              have hsub := (recoverLines_grows rest (s.addRow pb) true).1
              exact ⟨pb, hsub (List.mem_append_right _ (List.mem_singleton_self pb)), hhit⟩
      | cons first pre =>
          obtain ⟨rfl, hrest⟩ := List.cons.inj hsplit
          have hnew' : digest rec ∉ (pre.map lineDigest).reverse ++ lineDigest line :: seen := by
            simpa using hnew
          cases hinv with
          | skips h => exact ih (hidx.skip h) hok hrest hnew'
          | throws => cases hok
          | adds rec' pb hline _ _ hhit _ =>
              subst hline
              exact ih (hidx.add hhit) hok hrest hnew'

/-- A log that throws once throws again: the rows that the first reading added only make it skip
more of the lines before the one that throws. -/
theorem recoverLines_again {lines : List (Option Json)} {s t : BlockStore} {added : Bool}
    (hbad : (recoverLines lines s added).2.2 = false)
    (hidx : t.hashIndex = (recoverLines lines s added).1.hashIndex) (again : Bool) :
    (recoverLines lines t again).2.2 = false := by
  induction lines generalizing s added with
  | nil => cases hbad
  | cons line rest ih =>
      rw [recoverLines_cons] at hbad hidx ⊢
      have hs := readLine_inv s line
      have ht := readLine_inv t line
      generalize readLine s line = r at hs hbad hidx
      generalize readLine t line = r' at ht ⊢
      cases hs with
      | throws rec hline hobj h =>
          -- the same line throws, since nothing was added before it
          change t.hashIndex = s.hashIndex at hidx
          cases ht with
          | throws => rfl
          | skips h' =>
              obtain ⟨hread, hin⟩ := h' rec hline hobj
              obtain ⟨hne, hout, -⟩ := h hread
              rcases hin with he | hin
              · exact absurd he hne
              · exact absurd (hidx ▸ hin) hout
          | adds rec' pb hline' _ hrec hhit _ =>
              obtain rfl := Option.some.inj (hline.symm.trans hline')
              exact absurd hrec (h ((hitFromJson_isSome_iff hobj).mp (by rw [hhit]; rfl))).2.2
      | skips h =>
          cases ht with
          | throws => rfl
          | skips => exact ih hbad hidx
          | adds rec pb hline hobj _ _ hnew =>
              rcases (h rec hline hobj).2 with he | hin
              · exact absurd he hnew.1
              · exact absurd (hidx ▸ (recoverLines_grows rest s added).2.1 hin) hnew.2
      | adds rec pb hline hobj _ hhit hnew =>
          have hin : digest rec ∈ (s.addRow pb).hashIndex := by
            have hidx' : Indexes (s.addRow pb) (lineDigest (some rec) :: s.hashIndex.toList) :=
              Indexes.add (fun d _ ↦ Finset.mem_toList.symm) hhit
            exact (hidx' _ hnew.1).mpr List.mem_cons_self
          cases ht with
          | throws => rfl
          | skips => exact ih hbad hidx
          | adds rec' pb' hline' _ _ _ hnew' =>
              obtain rfl := Option.some.inj (hline.symm.trans hline')
              exact absurd (hidx ▸ (recoverLines_grows rest (s.addRow pb) true).2.1 hin) hnew'.2

/-! ## Constructing a store -/

/-- The lines of the log; a file that is not there has none. -/
def logLines (files : Files) : List (Option Json) := files.jsonl.getD []

/-- Every line of the log can be read on top of what is left of the snapshot. -/
def ReadableLog (files : Files) : Prop :=
  ReadableLines (snapshotDigests files.db).reverse (logLines files)

/-- `recover_jsonl_unlocked` is the loop over the lines, but for a snapshot at the end. -/
theorem recoverJsonl_eq (s : BlockStore) :
    s.recoverJsonl.2 = (recoverLines (logLines s.files) s false).2.2 ∧
      s.recoverJsonl.1.pending = (recoverLines (logLines s.files) s false).1.pending ∧
      s.recoverJsonl.1.hashIndex = (recoverLines (logLines s.files) s false).1.hashIndex ∧
      logLines s.recoverJsonl.1.files = logLines s.files := by
  have hgrows := (recoverLines_grows (logLines s.files) s false).2.2
  unfold recoverJsonl logLines at *
  cases hlog : s.files.jsonl with
  | none => exact ⟨rfl, rfl, rfl, by rw [hlog]⟩
  | some lines =>
      rw [hlog, Option.getD_some] at hgrows
      rw [Option.getD_some]
      obtain ⟨s', added, ok, hr⟩ : ∃ s' added ok, recoverLines lines s false = (s', added, ok) :=
        ⟨_, _, _, rfl⟩
      simp only [hr] at hgrows ⊢
      have hjsonl : s'.files.jsonl = some lines := by rw [hgrows, hlog]
      cases ok with
      | false => exact ⟨rfl, rfl, rfl, by rw [hjsonl]; rfl⟩
      | true => cases added <;> exact ⟨rfl, rfl, rfl, by simp [saveDb, hjsonl]⟩

/-- The store into which the log is read. -/
def logStart (files : Files) : BlockStore :=
  match files.db with
  | some (some root) => (loadSnapshot root { files }).1
  | _ => { files }

/-- The log is read into the rows that were read of the snapshot. -/
theorem logStart_spec (files : Files) : (logStart files).files = files ∧
    Indexes (logStart files) (snapshotDigests files.db).reverse := by
  unfold logStart
  rcases hdb : files.db with _ | _ | root
  · exact ⟨rfl, indexes_empty files⟩
  · exact ⟨rfl, indexes_empty files⟩
  · have h := (loadSnapshot_spec root files hdb).2
    rw [hdb] at h
    exact h

/-- The log goes through exactly when its lines can be read. -/
theorem logStart_ok_iff (files : Files) :
    (logStart files).recoverJsonl.2 = true ↔ ReadableLog files := by
  obtain ⟨hfiles, hidx⟩ := logStart_spec files
  rw [(recoverJsonl_eq _).1, hfiles, recoverLines_ok_iff _ hidx]
  rfl

/-- A snapshot that is read to its end is the store. -/
theorem load_of_snapshotRead {files : Files} (h : SnapshotRead files.db) :
    load files = some (logStart files) := by
  obtain ⟨root, items, hdb, -⟩ := id h
  have hok := (loadSnapshot_spec root files hdb).1.mpr h
  unfold load logStart
  rw [hdb]
  obtain ⟨s, hs⟩ : ∃ s, loadSnapshot root { files } = (s, true) := ⟨_, Prod.ext rfl hok⟩
  dsimp only
  rw [hs]

/-- Otherwise the store is what the log makes of it, and where the log throws so does the
constructor: the second reading after a throw that is caught throws as well. -/
theorem load_of_not_snapshotRead {files : Files} (h : ¬SnapshotRead files.db) :
    load files = if (logStart files).recoverJsonl.2 = true
      then some (logStart files).recoverJsonl.1 else none := by
  unfold load logStart
  rcases hdb : files.db with _ | _ | root
  · dsimp only
    rcases recoverJsonl { files } with ⟨s, ok⟩
    cases ok <;> rfl
  · dsimp only
    have heq := recoverJsonl_eq { files }
    have hagain := (recoverJsonl_eq (recoverJsonl { files }).1).1
    rw [heq.2.2.2] at hagain
    cases hok : (recoverJsonl { files }).2 with
    | true =>
        rcases hr : recoverJsonl { files } with ⟨s, ok⟩
        rw [hr] at hok
        cases hok
        rfl
    | false =>
        rw [heq.1] at hok
        rw [recoverLines_again hok heq.2.2.1 false] at hagain
        rw [if_neg (by simp)]
        rcases hr : recoverJsonl { files } with ⟨s, ok⟩
        rw [hr] at hagain heq
        have hfalse : ok = false := heq.1.trans hok
        subst hfalse
        dsimp only at hagain ⊢
        rcases hr' : recoverJsonl s with ⟨s', ok'⟩
        rw [hr'] at hagain
        cases hagain
        rfl
  · dsimp only
    have hbad := mt (loadSnapshot_spec root files hdb).1.mp h
    obtain ⟨s, hs⟩ : ∃ s, loadSnapshot root { files } = (s, false) :=
      ⟨_, Prod.ext rfl (by simpa using hbad)⟩
    simp only [hs]
    rcases s.recoverJsonl with ⟨s', ok⟩
    cases ok <;> rfl

/-- **A store can be constructed exactly when the snapshot or the log can be read.** -/
theorem load_isSome_iff (files : Files) :
    (load files).isSome = true ↔ SnapshotRead files.db ∨ ReadableLog files := by
  by_cases h : SnapshotRead files.db
  · exact iff_of_true (by rw [load_of_snapshotRead h]; rfl) (.inl h)
  · rw [load_of_not_snapshotRead h, or_iff_right h, ← logStart_ok_iff]
    split
    · next hok => exact iff_of_true rfl hok
    · next hbad => exact iff_of_false (by simp) hbad

/-- The promise of a constructor that survives every damage: it does not throw, and where it
falls back on the log, every well-formed line with a digest that is new is a row of the bag. -/
def LoadsRobustly (files : Files) : Prop :=
  ∃ s, load files = some s ∧ (¬SnapshotRead files.db → ∀ pre rec post,
    logLines files = pre ++ some rec :: post → WellFormedHit rec → digest rec ≠ "" →
    digest rec ∉ snapshotDigests files.db → digest rec ∉ pre.map lineDigest →
      ∃ pb ∈ s.pending, hitFromJson rec = some pb.hit)

/-- The store that is constructed has recovered what it should. -/
theorem loadsRobustly_iff (files : Files) :
    LoadsRobustly files ↔ SnapshotRead files.db ∨ ReadableLog files := by
  rw [← load_isSome_iff, Option.isSome_iff_exists]
  constructor
  · rintro ⟨s, hs, -⟩
    exact ⟨s, hs⟩
  · rintro ⟨s, hs⟩
    refine ⟨s, hs, fun hfall pre rec post hsplit hwf hne hold hearlier ↦ ?_⟩
    rw [load_of_not_snapshotRead hfall] at hs
    split at hs
    · next hok =>
      obtain ⟨hfiles, hidx⟩ := logStart_spec files
      obtain ⟨hflag, hpending, -, -⟩ := recoverJsonl_eq (logStart files)
      rw [← Option.some.inj hs, hpending]
      rw [hflag] at hok
      refine recoverLines_recovers hidx hok (by rw [hfiles]; exact hsplit) hwf.object hne ?_
      simpa using ⟨by simpa using hearlier, hold⟩
    · cases hs

end BlockStore

/-! ## A body -/

/-- Every member that is read of a body converts: the name of the worker, when it is asked for,
and the hits. -/
def ReadableBag (body : Option Json) (worker : Option String) : Prop :=
  ∀ root, body = some root →
    (worker = none ∨
      root.Reads Json.toStr (if root.contains "worker" then "worker" else "source")) ∧
    ∀ item ∈ bagItems root, item.isObject = true → ReadableHit item

/-- The promise of a reader of bodies: it returns, with every well-formed hit that has a name. -/
def TakesRobustly (body : Option Json) (worker : Option String) : Prop :=
  ∃ out worker', hitsFromBagJson body worker = some (out, worker') ∧
    ∀ root, body = some root → ∀ item ∈ bagItems root, WellFormedHit item →
      ¬(digest item = "" ∧ keyText item = "") → ∃ hit ∈ out, hitFromJson item = some hit

/-- The items of a body are taken exactly when each object among them is a readable hit. -/
theorem takeItems_isSome_iff (items : List Json) : (takeItems items).isSome = true ↔
    ∀ item ∈ items, item.isObject = true → ReadableHit item := by
  induction items with
  | nil => simp [takeItems]
  | cons item rest ih =>
      rw [takeItems, List.forall_mem_cons]
      by_cases hobj : item.isObject = true
      · rw [if_neg (by simp [hobj]), ← ih, ← hitFromJson_isSome_iff hobj]
        cases hitFromJson item <;> cases takeItems rest <;> simp [hobj]
      · rw [if_pos (by simpa using hobj), ih]
        simp [hobj]

/-- A well-formed hit with a name is among what is taken. -/
theorem mem_takeItems {items : List Json} {out : List BlockHit} (h : takeItems items = some out)
    {item : Json} (hmem : item ∈ items) (hwf : WellFormedHit item)
    (hname : ¬(digest item = "" ∧ keyText item = "")) :
    ∃ hit ∈ out, hitFromJson item = some hit := by
  induction items generalizing out with
  | nil => cases hmem
  | cons first rest ih =>
      rw [takeItems] at h
      split at h
      · next hobj =>
        rcases List.mem_cons.mp hmem with rfl | hrest
        · exact absurd hwf.object (by simp [hobj])
        · exact ih h hrest
      · simp only [Option.bind_eq_bind, Option.bind_eq_some_iff] at h
        obtain ⟨hit, hhit, out', hout, heq⟩ := h
        obtain rfl := Option.some.inj heq
        rcases List.mem_cons.mp hmem with rfl | hrest
        · obtain ⟨hd, hk⟩ := digest_eq hhit
          have hkept : hit.kept = true := by
            rw [hd, hk] at hname
            exact decide_eq_true hname
          exact ⟨hit, by rw [if_pos hkept]; exact List.mem_cons_self, hhit⟩
        · obtain ⟨hit', hmem', hhit'⟩ := ih hout hrest
          refine ⟨hit', ?_, hhit'⟩
          split
          · exact List.mem_cons_of_mem _ hmem'
          · exact hmem'

/-- The name of the worker is read exactly when the member that is looked at is a string. -/
theorem bagWorker_isSome_iff (root : Json) (worker : Option String) :
    (bagWorker root worker).isSome = true ↔ worker = none ∨
      root.Reads Json.toStr (if root.contains "worker" then "worker" else "source") := by
  have hobj {k : String} (h : root.contains k = true) : root.isObject = true := by
    cases root with
    | obj members => rfl
    | _ => cases h
  cases worker with
  | none => exact iff_of_true rfl (.inl rfl)
  | some old =>
      rw [or_iff_right (by simp), bagWorker]
      split
      · next h => rw [Option.isSome_map, Json.value_isSome_iff (hobj h)]
      · split
        · next h => rw [Option.isSome_map, Json.value_isSome_iff (hobj h)]
        · next h =>
          refine iff_of_true rfl fun v hv ↦ absurd ?_ h
          rw [Json.contains, Option.mem_def.mp hv]
          rfl

/-- A body is taken with all its well-formed hits exactly when what is read of it converts. -/
theorem takesRobustly_iff (body : Option Json) (worker : Option String) :
    TakesRobustly body worker ↔ ReadableBag body worker := by
  unfold TakesRobustly ReadableBag
  cases body with
  | none => exact iff_of_true ⟨[], worker, rfl, by simp⟩ (by simp)
  | some root =>
      simp only [Option.some.injEq, forall_eq']
      rw [← bagWorker_isSome_iff, ← takeItems_isSome_iff, Option.isSome_iff_exists,
        Option.isSome_iff_exists]
      constructor
      · rintro ⟨out, worker', h, -⟩
        simp only [hitsFromBagJson, Option.bind_eq_bind, Option.bind_eq_some_iff] at h
        obtain ⟨name, hname, out', hout, -⟩ := h
        exact ⟨⟨name, hname⟩, ⟨out', hout⟩⟩
      · rintro ⟨⟨name, hname⟩, out, hout⟩
        exact ⟨out, name, by simp [hitsFromBagJson, hname, hout],
          fun item hmem hwf hn ↦ mem_takeItems hout hmem hwf hn⟩

/-! ## Both readers -/

/-- **A store is constructed, and a body is taken, exactly where every member that is read
converts.**  A line of the log is read even where the digest on it is known; a snapshot is left at
the first row that throws, and the rows before it stay in the bag. -/
theorem readers_robust_iff (files : Files) (body : Option Json) (worker : Option String) :
    (BlockStore.LoadsRobustly files ↔
        BlockStore.SnapshotRead files.db ∨ BlockStore.ReadableLog files) ∧
      (TakesRobustly body worker ↔ ReadableBag body worker) :=
  ⟨BlockStore.loadsRobustly_iff files, takesRobustly_iff body worker⟩

/-- A log of a good line and a line that has a number for a digest. -/
def damagedLog : Files where
  jsonl := some [some (.obj [("hash_str", .str "a")]), some (.obj [("hash_str", .int 5)])]

/-- A body of a good hit and a hit that has a number for a digest. -/
def damagedBag : Json :=
  .obj [("hits", .arr [.obj [("hash_str", .str "a")], .obj [("hash_str", .int 5)]])]

/-- One damaged line keeps the store from being constructed, one damaged hit a body from being
taken. -/
theorem readers_not_robust :
    (¬∀ files : Files, BlockStore.LoadsRobustly files) ∧
      ¬∀ (body : Option Json) (worker : Option String), TakesRobustly body worker := by
  constructor
  · intro hall
    obtain ⟨s, hs, -⟩ := hall damagedLog
    cases hs
  · intro hall
    obtain ⟨out, worker', h, -⟩ := hall (some damagedBag) none
    cases h

end XNMiner
