import XNMiner.Queue.Durability

/-!
# Which operations save

Some operations of the store rewrite `blocks.db` at once, some count a dirty operation and leave
the saving to every eighth of them, and some do nothing.  `Op.Saves` says which it is for an
operation in a state, and `exec_savesTo` what `blocks.db` holds afterwards.  The document says all
of a bag (`dbJson_injective`).
-/

namespace XNMiner

open Lib

namespace BlockStore

/-- One more dirty operation is the eighth. -/
def SaveDue (s : BlockStore) : Prop := kSaveEveryOps ≤ s.dirtyOps + 1

instance (s : BlockStore) : Decidable s.SaveDue := by unfold SaveDue; infer_instance

/-- `enqueue` drops the hit: its digest is in the bag. -/
def Bagged (s : BlockStore) (hit : BlockHit) : Prop := hit.hashStr ≠ "" ∧ hit.hashStr ∈ s.hashIndex

instance (s : BlockStore) (hit : BlockHit) : Decidable (s.Bagged hit) := by
  unfold Bagged; infer_instance

/-- `drop_by_hash` has a row to drop. -/
def Drops (s : BlockStore) (hashes : List String) : Prop :=
  ∃ pb ∈ s.pending, pb.hit.hashStr ≠ "" ∧ pb.hit.hashStr ∈ hashes

instance (s : BlockStore) (hashes : List String) : Decidable (s.Drops hashes) := by
  unfold Drops; infer_instance

/-- The operation rewrites `blocks.db`. -/
def Op.Saves (s : BlockStore) : Op → Prop
  | .enqueue _ hit _ | .recordRejection _ hit .. => ¬ s.Bagged hit ∧ s.SaveDue
  | .markSubmitted _ | .deferAllToNextStart _ => True
  | .markSubmittedMany ids | .markForwardedMany ids => ids ≠ []
  | .markPendingReason .. => s.SaveDue
  | .dropByHash hashes => s.Drops hashes
  | .flush => 0 < s.dirtyOps

instance (s : BlockStore) (op : Op) : Decidable (op.Saves s) := by
  cases op <;> unfold Op.Saves <;> infer_instance

/-- A step from `s` to `t` rewrites `blocks.db` exactly if `saves` holds. -/
def SavesTo (saves : Prop) (s t : BlockStore) : Prop :=
  (saves → t.files.db = some (some (dbJson t.nextId t.pending))) ∧
    (¬ saves → t.files.db = s.files.db)

theorem SavesTo.of_saved {saves : Prop} {s t : BlockStore} (h : saves)
    (hdb : t.files.db = some (some (dbJson t.nextId t.pending))) : SavesTo saves s t :=
  ⟨fun _ ↦ hdb, fun hno ↦ absurd h hno⟩

theorem SavesTo.of_not {saves : Prop} {s t : BlockStore} (h : ¬ saves)
    (hdb : t.files.db = s.files.db) : SavesTo saves s t :=
  ⟨fun hs ↦ absurd hs h, fun _ ↦ hdb⟩

theorem savesTo_maybeSave {s t : BlockStore} (hdirty : t.dirtyOps = s.dirtyOps + 1)
    (hdb : t.files.db = s.files.db) : SavesTo s.SaveDue s t.maybeSave := by
  rw [SaveDue, ← hdirty]
  unfold maybeSave
  split
  · next hdue => exact .of_saved hdue rfl
  · next hdue => exact .of_not hdue hdb

theorem savesTo_enqueue (s : BlockStore) (now : String) (hit : BlockHit) (reason : String) :
    SavesTo (¬ s.Bagged hit ∧ s.SaveDue) s (s.enqueue now hit reason).2 := by
  unfold enqueue
  split
  · next hbagged => exact .of_not (fun h ↦ h.1 hbagged) rfl
  · next hnew =>
    rw [and_iff_right (show ¬ s.Bagged hit from hnew)]
    exact savesTo_maybeSave rfl rfl

theorem savesTo_markSubmittedMany (s : BlockStore) (ids : List Int) :
    SavesTo (ids ≠ []) s (s.markSubmittedMany ids) := by
  unfold markSubmittedMany
  split
  · next hnil => exact .of_not (not_not.mpr hnil) rfl
  · next hids => exact .of_saved hids rfl

theorem savesTo_markForwardedMany (s : BlockStore) (ids : List Int) :
    SavesTo (ids ≠ []) s (s.markForwardedMany ids) := by
  unfold markForwardedMany
  split
  · next hnil => exact .of_not (not_not.mpr hnil) rfl
  · next hids => exact .of_saved hids rfl

theorem savesTo_dropByHash (s : BlockStore) (hashes : List String) :
    SavesTo (s.Drops hashes) s (s.dropByHash hashes).2 := by
  simp only [dropByHash]
  split
  · next hnone =>
    refine .of_not ?_ rfl
    rintro ⟨pb, -, hne, hmem⟩
    have hdrop : pb.hit.hashStr ∈ hashes.filter fun h ↦ decide (h ≠ "") :=
      List.mem_filter.mpr ⟨hmem, by simpa using hne⟩
    rw [hnone] at hdrop
    cases hdrop
  · split
    · next hgone =>
      refine .of_not ?_ rfl
      rintro ⟨pb, hpb, hne, hmem⟩
      have hrow : pb ∈ s.pending.filter fun pb ↦
          decide (pb.hit.hashStr ∈ hashes.filter fun h ↦ decide (h ≠ "")) := by
        simp [hpb, hne, hmem]
      rw [hgone] at hrow
      cases hrow
    · next hgone =>
      obtain ⟨pb, hrow⟩ := List.exists_mem_of_ne_nil _ hgone
      refine .of_saved ⟨pb, ?_⟩ rfl
      simp only [List.mem_filter, decide_eq_true_eq] at hrow
      exact ⟨hrow.1, hrow.2.2, hrow.2.1⟩

theorem savesTo_flush (s : BlockStore) : SavesTo (0 < s.dirtyOps) s s.flush := by
  unfold flush
  split
  · next hdirty => exact .of_saved hdirty rfl
  · next hclean => exact .of_not hclean rfl

/-- **What `blocks.db` holds after an operation**: the bag as the operation leaves it, or what it
held before. -/
theorem exec_savesTo (s : BlockStore) (op : Op) : SavesTo (op.Saves s) s (s.exec op) := by
  cases op with
  | enqueue now hit reason => exact savesTo_enqueue s now hit reason
  | recordRejection now hit st body src => exact savesTo_enqueue (s.logRejection ..) now hit _
  | markSubmitted id =>
      exact .of_saved trivial ((savesTo_markSubmittedMany s [id]).1 (List.cons_ne_nil id []))
  | markSubmittedMany ids => exact savesTo_markSubmittedMany s ids
  | markPendingReason id reason => exact savesTo_maybeSave rfl rfl
  | markForwardedMany ids => exact savesTo_markForwardedMany s ids
  | dropByHash hashes => exact savesTo_dropByHash s hashes
  | flush => exact savesTo_flush s
  | deferAllToNextStart minute => exact .of_saved trivial rfl

/-! ## What a document says -/

/-- The optional members of a hit, looked up. -/
theorem hitMembers_lookup (hit : BlockHit) :
    (hitMembers hit).lookup "memory_cost" = hit.memoryCost.map Json.int ∧
    (hitMembers hit).lookup "payout_account" =
      (if hit.payoutAccount = "" then none else some (.str hit.payoutAccount)) ∧
    (hitMembers hit).lookup "salt_hex" =
      (if hit.saltHex = "" then none else some (.str hit.saltHex)) ∧
    (hitMembers hit).lookup "fee_block" = (if hit.feeBlock then some (.bool true) else none) := by
  obtain ⟨key, hashStr, blockType, attempts, strategy, hps, foundAt, memoryCost,
    payoutAccount, saltHex, feeBlock⟩ := hit
  cases memoryCost <;> cases feeBlock <;>
    by_cases hp : payoutAccount = "" <;> by_cases hs : saltHex = "" <;>
    simp [hitMembers, List.lookup_cons, hp, hs]

/-- A text that is left out when it is empty. -/
theorem optional_str_injective {x y : String}
    (h : (if x = "" then none else some (Json.str x)) = if y = "" then none else some (.str y)) :
    x = y := by
  by_cases hx : x = "" <;> by_cases hy : y = ""
  · rw [hx, hy]
  · simp [hx, hy] at h
  · simp [hx, hy] at h
  · simpa [hx, hy] using h

theorem hitMembers_injective {hit hit' : BlockHit} {extra extra' : List (String × Json)}
    (hx : ∀ k ∈ ["memory_cost", "payout_account", "salt_hex", "fee_block"],
      extra.lookup k = none ∧ extra'.lookup k = none)
    (h : hitMembers hit ++ extra = hitMembers hit' ++ extra') : hit = hit' := by
  simp only [List.mem_cons, List.not_mem_nil, or_false, forall_eq_or_imp, forall_eq] at hx
  obtain ⟨⟨h₁, h₁'⟩, ⟨h₂, h₂'⟩, ⟨h₃, h₃'⟩, h₄, h₄'⟩ := hx
  have hlookup (k : String) : ((hitMembers hit).lookup k).or (extra.lookup k) =
      ((hitMembers hit').lookup k).or (extra'.lookup k) := by
    rw [← List.lookup_append, ← List.lookup_append, h]
  obtain ⟨hc, hp, hs, hf⟩ := hitMembers_lookup hit
  obtain ⟨hc', hp', hs', hf'⟩ := hitMembers_lookup hit'
  have hcost := hlookup "memory_cost"
  have hpayout := hlookup "payout_account"
  have hsalt := hlookup "salt_hex"
  have hfee := hlookup "fee_block"
  rw [hc, hc', h₁, h₁', Option.or_none, Option.or_none] at hcost
  rw [hp, hp', h₂, h₂', Option.or_none, Option.or_none] at hpayout
  rw [hs, hs', h₃, h₃', Option.or_none, Option.or_none] at hsalt
  rw [hf, hf', h₄, h₄', Option.or_none, Option.or_none] at hfee
  -- the members that are always there
  have hfixed : (hitMembers hit).take 7 = (hitMembers hit').take 7 := by
    have := congrArg (List.take 7) h
    rwa [List.take_append_of_le_length (by simp [hitMembers]),
      List.take_append_of_le_length (by simp [hitMembers])] at this
  simp only [hitMembers, List.append_assoc, List.cons_append, List.nil_append, List.take_succ_cons,
    List.take_zero, List.cons.injEq, Prod.mk.injEq, Json.str.injEq, Json.int.injEq,
    Json.real.injEq, true_and, and_true] at hfixed
  obtain ⟨hkey, hhash, htype, hstrategy, hattempts, hhps, hfound⟩ := hfixed
  have hcost := Option.map_injective (fun _ _ ↦ Json.int.inj) hcost
  have hpayout := optional_str_injective hpayout
  have hsalt := optional_str_injective hsalt
  have hfee : hit.feeBlock = hit'.feeBlock := by
    cases hb : hit.feeBlock <;> cases hb' : hit'.feeBlock <;> simp [hb, hb'] at hfee <;> rfl
  cases hit
  cases hit'
  simp only at hkey hhash htype hstrategy hattempts hhps hfound hcost hpayout hsalt hfee
  simp only [hkey, hhash, htype, hstrategy, hattempts, hhps, hfound, hcost, hpayout, hsalt, hfee]

/-- A row of `blocks.db` says all of the row. -/
theorem rowMembers_injective {pb pb' : PendingBlock} (h : rowMembers pb = rowMembers pb') :
    pb = pb' := by
  have hhit : pb.hit = pb'.hit := hitMembers_injective (by simp [List.lookup_cons]) h
  rw [rowMembers, rowMembers, hhit, List.append_cancel_left_eq] at h
  simp only [List.cons.injEq, Prod.mk.injEq, Json.int.injEq, Json.str.injEq, Json.bool.injEq,
    true_and, and_true] at h
  obtain ⟨hid, hreason, hcount, hforwarded⟩ := h
  cases pb
  cases pb'
  simp only at hhit hid hreason hcount hforwarded
  simp only [hhit, hid, hreason, hcount, hforwarded]

/-- **The document says all of the bag.** -/
theorem dbJson_injective {n n' : Int} {rows rows' : List PendingBlock}
    (h : dbJson n rows = dbJson n' rows') : n = n' ∧ rows = rows' := by
  simp only [dbJson, Json.obj.injEq, List.cons.injEq, Prod.mk.injEq, Json.int.injEq,
    Json.arr.injEq, true_and, and_true] at h
  refine ⟨h.1, List.map_injective_iff.mpr (fun pb pb' hrow ↦ ?_) h.2⟩
  exact rowMembers_injective (Json.obj.inj hrow)

/-! ## The next id after a load -/

/-- Reading a row whose id is below the next one takes one id. -/
theorem loadRows_nextId (rows : List PendingBlock) (s : BlockStore)
    (h : ∀ pb ∈ rows, wrap 64 pb.id < s.nextId) :
    (loadRows (rows.map fun pb ↦ .obj (rowMembers pb)) s).1.nextId = s.nextId + rows.length := by
  induction rows generalizing s with
  | nil => simp [loadRows]
  | cons pb rows ih =>
      have hpb := h pb List.mem_cons_self
      let s₁ : BlockStore := { s with nextId := s.nextId + 1 }
      have hnext : (s₁.addRow pb.reread).nextId = s.nextId + 1 := by
        have hid : pb.reread.id + 1 ≤ s.nextId + 1 := by
          change wrap 64 pb.id + 1 ≤ s.nextId + 1
          omega
        exact max_eq_left hid
      have hrest := ih (s₁.addRow pb.reread) fun row hrow ↦ by
        rw [hnext]
        exact (h row (List.mem_cons_of_mem _ hrow)).trans (Int.lt_succ _)
      rw [hnext] at hrest
      simp only [List.map_cons, loadRows, parseRow_rowMembers, List.length_cons, Nat.cast_succ]
      rw [show s.nextId + ((rows.length : Int) + 1) = s.nextId + 1 + rows.length by omega]
      exact hrest

/-- **A load moves the next id on** by the number of rows: the default id of a row, `next_id_++`,
is evaluated for every row. -/
theorem load_nextId {files : Files} {n : Int} {snap : List PendingBlock} {t : BlockStore}
    (hdb : files.db = some (some (dbJson n snap))) (hlow : -2 ^ 31 ≤ n) (hhigh : n < 2 ^ 31)
    (hids : ∀ pb ∈ snap, -2 ^ 63 ≤ pb.id ∧ pb.id < n) (hload : load files = some t) :
    t.nextId = n + snap.length := by
  have hn : wrap 32 n = n := wrap_of_fits (by omega) hlow hhigh
  have hwrap : ∀ pb ∈ snap, wrap 64 pb.id = pb.id := fun pb hpb ↦
    wrap_of_fits (by omega) (hids pb hpb).1 (by have := (hids pb hpb).2; omega)
  obtain ⟨s', hl, -⟩ := loadRows_rowMembers snap ({ files, nextId := n } : BlockStore)
    (by simp [hashesOf])
  have hnext := loadRows_nextId snap ({ files, nextId := n } : BlockStore) fun pb hpb ↦ by
    rw [hwrap pb hpb]
    exact (hids pb hpb).2
  have hs : loadSnapshot (dbJson n snap) { files } = (s', true) := by
    simpa [loadSnapshot, dbJson, Json.value, Json.find?, List.lookup_cons, Json.toInt32,
      Json.items?, hn] using hl
  have ht : s' = t := by simpa [load, hdb, hs] using hload
  rw [hl] at hnext
  rw [← ht]
  exact hnext

end BlockStore

end XNMiner
