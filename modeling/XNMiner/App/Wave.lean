import XNMiner.App.State
import XNMiner.Mining.Phc

/-!
# The work list of a flush wave, and its rotation

`try_flush_pending` fetches up to twice as many rows as a wave may have, keeps the first of
them that still qualify, and after a wave with no accept starts the next one behind the last
row it kept.

The rotation is fair only while the whole bag fits one wave (`rotation_fair_iff`): the fetched
rows are sorted before they are cut, so the row that sorts last is cut from every wave it is
fetched for.
-/

namespace XNMiner

open Lib

/-- One `POST` of a wave. -/
structure WorkItem where
  id : Int
  hit : BlockHit
deriving DecidableEq

/-- What the selection loop does with a fetched row. -/
inductive RowChoice where
  /-- Leave it in the bag. -/
  | skip
  /-- It can never be submitted: remove it. -/
  | drop
  /-- Submit this hit for it. -/
  | take (hit : BlockHit)
deriving DecidableEq

/-- `wave`: the most rows a wave may have; `0` is the whole matching bag. -/
def waveLimit (settings : Settings) (onShutdown draining : Bool) : Int :=
  if onShutdown then 0
  else if draining then if 0 < settings.matchDrainBatch then settings.matchDrainBatch else 0
  else 64

/-- `fetch`. -/
def fetchLimit (onShutdown : Bool) (wave : Int) : Int :=
  if onShutdown ∨ wave ≤ 0 then 0 else wave * 2

/-- The salt of a hit. -/
def hitSalt (settings : Settings) (hit : BlockHit) : String :=
  if hit.saltHex = "" then settings.saltHex else hit.saltHex

/-- The body of the selection loop, with what it reads: whether the block type is ready, the
difficulty the GPU mines at, and `bag_target_m()`. -/
def chooseRow (settings : Settings) (draining : Bool) (netM : Int) (ready : Bool)
    (miningM bagM : Int) (pb : PendingBlock) : RowChoice :=
  if ready = false then .skip
  else
    let hitM := pb.hit.memoryCost.getD miningM
    if (if draining then hitM ≠ bagM ∧ hitM ≠ netM else hitM ≠ netM) then .skip
    else if isArgon2Encoded pb.hit.hashStr then .take pb.hit
    else match prepareHitForSubmit pb.hit (hitSalt settings pb.hit) hitM settings.timeCost
        settings.parallelism with
      | none => .drop
      | some hit => .take hit

/-- A row that is a PHC string already is submitted as it is, or not at all. -/
theorem chooseRow_of_encoded {settings : Settings} {draining ready : Bool}
    {netM miningM bagM : Int} {pb : PendingBlock}
    (h : isArgon2Encoded pb.hit.hashStr = true) :
    chooseRow settings draining netM ready miningM bagM pb = .skip ∨
      chooseRow settings draining netM ready miningM bagM pb = .take pb.hit := by
  simp only [chooseRow, h, if_true]
  cases ready with
  | false => exact .inl rfl
  | true => cases draining <;> grind

/-- The loop has its wave: `!on_shutdown && wave > 0 && work.size() >= wave`. -/
def waveFull (onShutdown : Bool) (wave : Int) (work : List WorkItem) : Bool :=
  !onShutdown && decide (0 < wave ∧ wave ≤ work.length)

/-- The selection loop where nothing it reads changes. -/
def selectWork (choose : PendingBlock → RowChoice) (wave : Int) :
    List PendingBlock → List WorkItem → List WorkItem
  | [], work => work
  | pb :: rest, work =>
      match choose pb with
      | .take hit =>
          let work := work ++ [{ id := pb.id, hit }]
          if waveFull false wave work then work else selectWork choose wave rest work
      | _ => selectWork choose wave rest work

/-- A loop that takes every row takes the first `wave` of them. -/
theorem selectWork_ids {choose : PendingBlock → RowChoice} {wave : Int} (hwave : 1 ≤ wave)
    (rows : List PendingBlock) (hall : ∀ pb ∈ rows, ∃ hit, choose pb = .take hit)
    (work : List WorkItem) (hwork : (work.length : Int) < wave) :
    (selectWork choose wave rows work).map (·.id) =
      work.map (·.id) ++ (rows.take (wave.toNat - work.length)).map (·.id) := by
  induction rows generalizing work with
  | nil => simp [selectWork]
  | cons pb rest ih =>
      obtain ⟨hit, hhit⟩ := hall pb List.mem_cons_self
      have hrest : ∀ pb ∈ rest, ∃ hit, choose pb = .take hit := fun pb hpb ↦
        hall pb (List.mem_cons_of_mem _ hpb)
      obtain ⟨k, hk⟩ : ∃ k, wave.toNat - work.length = k + 1 :=
        ⟨wave.toNat - work.length - 1, by omega⟩
      simp only [selectWork, hhit]
      split
      · next hfull =>
        simp only [waveFull, Bool.not_false, Bool.true_and, decide_eq_true_eq,
          List.length_append, List.length_singleton, Nat.cast_add, Nat.cast_one] at hfull
        have hk0 : k = 0 := by omega
        simp [hk, hk0]
      · next hroom =>
        simp only [waveFull, Bool.not_false, Bool.true_and, decide_eq_true_eq,
          List.length_append, List.length_singleton, Nat.cast_add, Nat.cast_one] at hroom
        rw [ih hrest _ (by simp; omega)]
        have hk' : wave.toNat - (work ++ [(⟨pb.id, hit⟩ : WorkItem)]).length = k := by
          simp
          omega
        rw [hk', hk]
        simp

/-! ## The rotation -/

/-- A bag that nobody changes, and what the calls of `try_flush_pending` read while it is
flushed wave after wave: the settings, whether it is a match, the minute and the costs. -/
structure Rotation where
  store : BlockStore
  settings : Settings
  draining : Bool
  minute : Nat
  netM : Int
  bagM : Int
  miningM : Int

namespace Rotation

/-- The most rows of a wave. -/
def wave (r : Rotation) : Int := waveLimit r.settings false r.draining

/-- The selection loop of this rotation. -/
def choose (r : Rotation) (pb : PendingBlock) : RowChoice :=
  chooseRow r.settings r.draining r.netM (readyToFlush r.minute pb.hit.blockType).1 r.miningM
    r.bagM pb

/-- The rows a wave fetches. -/
def fetched (r : Rotation) (skip : Int) : List PendingBlock :=
  r.store.listFlushBatch r.minute r.netM r.bagM (fetchLimit false r.wave) skip

/-- The work list of the wave that starts from `skip`. -/
def work (r : Rotation) (skip : Int) : List WorkItem :=
  selectWork r.choose r.wave (r.fetched skip) []

/-- `flush_skip_before_id_` after a wave with no accept. -/
def nextSkip (r : Rotation) (skip : Int) : Int :=
  match (r.work skip).getLast? with
  | some item => item.id + 1
  | none => match (r.fetched skip).getLast? with
      | some pb => pb.id + 1
      | none => skip

/-- `flush_skip_before_id_` before wave `k`. -/
def skipAt (r : Rotation) (skip : Int) : Nat → Int
  | 0 => skip
  | k + 1 => r.nextSkip (r.skipAt skip k)

/-- The bag of the claim of fairness: ids are distinct, every row matches `net_m` and is ready,
and none would be removed because it cannot be prepared. -/
structure Ready (r : Rotation) : Prop where
  nodup : (r.store.pending.map (·.id)).Nodup
  cost : ∀ pb ∈ r.store.pending, BlockStore.rowCost r.bagM r.netM pb = r.netM
  mined : ∀ pb ∈ r.store.pending, pb.hit.memoryCost.getD r.miningM = r.netM
  ready : ∀ pb ∈ r.store.pending, (readyToFlush r.minute pb.hit.blockType).1 = true
  kept : ∀ pb ∈ r.store.pending, isArgon2Encoded pb.hit.hashStr = true ∨
    (prepareHitForSubmit pb.hit (hitSalt r.settings pb.hit) r.netM r.settings.timeCost
      r.settings.parallelism).isSome = true

/-- Every row of a ready bag is fetched when there is room. -/
theorem Ready.filter_eq {r : Rotation} (h : r.Ready) :
    r.store.pending.filter (BlockStore.flushable r.minute r.netM r.bagM) = r.store.pending := by
  rw [List.filter_eq_self]
  intro pb hpb
  simp [BlockStore.flushable, h.cost pb hpb, h.ready pb hpb]

/-- Every fetched row of a ready bag is taken. -/
theorem Ready.choose_take {r : Rotation} (h : r.Ready) {pb : PendingBlock}
    (hpb : pb ∈ r.store.pending) : ∃ hit, r.choose pb = .take hit := by
  have hm := h.mined pb hpb
  have hpass : ¬ (if r.draining then r.netM ≠ r.bagM ∧ r.netM ≠ r.netM else r.netM ≠ r.netM) := by
    split <;> simp
  simp only [choose, chooseRow, h.ready pb hpb, hm, Bool.true_eq_false, if_false, hpass]
  rcases h.kept pb hpb with henc | hprep
  · exact ⟨pb.hit, by simp [henc]⟩
  · obtain ⟨hit, hhit⟩ := Option.isSome_iff_exists.mp hprep
    cases isArgon2Encoded pb.hit.hashStr with
    | true => exact ⟨pb.hit, by simp⟩
    | false => exact ⟨hit, by simp [hhit]⟩

/-- The work list of a wave over a ready bag: the front of the sorted fetch. -/
theorem Ready.work_ids {r : Rotation} (h : r.Ready) (hw : 1 ≤ r.wave) (skip : Int) :
    (r.work skip).map (·.id) = ((r.fetched skip).take r.wave.toNat).map (·.id) := by
  have hall : ∀ pb ∈ r.fetched skip, ∃ hit, r.choose pb = .take hit := fun pb hpb ↦
    h.choose_take (BlockStore.mem_of_mem_listFlushBatch hpb).1
  simpa [work] using selectWork_ids hw (r.fetched skip) hall [] (by simp; omega)

/-- The rows a wave fetches, before they are cut to the wave. -/
theorem fetched_eq {r : Rotation} (hw : 1 ≤ r.wave) (skip : Int) :
    r.fetched skip = sortOn BlockStore.flushKey (pick (r.wave * 2).toNat
      (BlockStore.flushable r.minute r.netM r.bagM) (BlockStore.belowSkip skip)
      r.store.pending) := by
  have hf : fetchLimit false r.wave = r.wave * 2 := by
    rw [fetchLimit, if_neg (by simp; omega)]
  rw [fetched, BlockStore.listFlushBatch, BlockStore.flushCap, hf, if_pos (by omega)]

/-- **Starvation.**  A bag larger than a wave has a row that no wave submits, wherever the wave
starts: the row that sorts last. -/
theorem Ready.exists_starved {r : Rotation} (h : r.Ready) (hw : 1 ≤ r.wave)
    (hlarge : r.wave < r.store.pending.length) :
    ∃ x ∈ r.store.pending, ∀ skip, x.id ∉ (r.work skip).map (·.id) := by
  have hne : r.store.pending ≠ [] := by
    intro hnil
    rw [hnil] at hlarge
    simp at hlarge
    omega
  obtain ⟨x, hx, hmax⟩ := exists_max_key BlockStore.flushKey hne
  refine ⟨x, hx, fun skip hk ↦ ?_⟩
  rw [h.work_ids hw] at hk
  obtain ⟨y, hy, hid⟩ := List.mem_map.mp hk
  have hyx : y = x := by
    have hy' := (BlockStore.mem_of_mem_listFlushBatch (List.mem_of_mem_take hy)).1
    exact List.inj_on_of_nodup_map h.nodup hy' hx hid
  rw [hyx, fetched_eq hw] at hy
  have hsub := pick_subperm (r.wave * 2).toNat (BlockStore.flushable r.minute r.netM r.bagM)
    (BlockStore.belowSkip skip) r.store.pending
  refine not_mem_take_sortOn ?_ ?_ (fun z hz ↦ hmax z (mem_of_mem_pick hz).1) hy
  · rw [length_pick, h.filter_eq]
    omega
  · refine BlockStore.nodup_map_flushKey ?_
    rw [h.filter_eq] at hsub
    obtain ⟨l, hperm, hl⟩ := hsub
    exact (hperm.map _).nodup_iff.mp ((hl.map _).nodup h.nodup)

/-- A bag that fits one wave is submitted whole by every wave. -/
theorem Ready.mem_work_of_fits {r : Rotation} (h : r.Ready) (hw : 1 ≤ r.wave)
    (hfits : (r.store.pending.length : Int) ≤ r.wave) (skip : Int) {pb : PendingBlock}
    (hpb : pb ∈ r.store.pending) : pb.id ∈ (r.work skip).map (·.id) := by
  rw [h.work_ids hw, fetched_eq hw, List.take_of_length_le]
  · refine List.mem_map_of_mem ((sortOn_perm _ _).mem_iff.mpr ?_)
    refine (pick_perm _ _ ?_).mem_iff.mpr (h.filter_eq.symm ▸ hpb)
    rw [h.filter_eq]
    omega
  · rw [(sortOn_perm _ _).length_eq, length_pick, h.filter_eq]
    omega

/-- Each of the `n` rows is in the work list of one of the first `n` waves, the first of which
starts at `skip`. -/
def Fair (r : Rotation) (skip : Int) : Prop :=
  ∀ pb ∈ r.store.pending, ∃ k < r.store.pending.length,
    pb.id ∈ (r.work (r.skipAt skip k)).map (·.id)

/-- **The rotation is fair exactly on bags that fit one wave.**  On a ready bag of `n` rows, with
waves of at most `w ≥ 1` rows and from any starting id, each row is in the work list of one of
the first `n` waves if and only if `n ≤ w`. -/
theorem rotation_fair_iff {r : Rotation} (h : r.Ready) (hw : 1 ≤ r.wave) (skip : Int) :
    r.Fair skip ↔ (r.store.pending.length : Int) ≤ r.wave := by
  constructor
  · intro hfair
    by_contra hlarge
    obtain ⟨x, hx, hno⟩ := h.exists_starved hw (by omega)
    obtain ⟨k, -, hk⟩ := hfair x hx
    exact hno _ hk
  · exact fun hfits pb hpb ↦ ⟨0, List.length_pos_of_mem hpb, h.mem_work_of_fits hw hfits _ hpb⟩

/-- Two XNM rows of cost 100, flushed in a match one row at a time. -/
def twoRows (batch : Int) : Rotation where
  store := { pending := [
    { id := 1, hit := { hashStr := "$argon2id$1", blockType := "XNM", memoryCost := some 100 } },
    { id := 2, hit := { hashStr := "$argon2id$2", blockType := "XNM", memoryCost := some 100 } }] }
  settings := { Settings.defaults with forceMineMemoryCost := 100, matchDrainBatch := batch }
  draining := true
  minute := 30
  netM := 100
  bagM := 100
  miningM := 100

theorem twoRows_ready (batch : Int) : (twoRows batch).Ready where
  nodup := by simp [twoRows]
  cost := by simp [twoRows, BlockStore.rowCost]
  mined := by simp [twoRows]
  ready := by simp [twoRows]; decide
  kept := by
    intro pb hpb
    left
    revert pb
    simp only [twoRows]
    decide

/-- Of two rows flushed one at a time, one is never submitted. -/
theorem rotation_starves_a_row :
    ¬ ∀ (r : Rotation) (skip : Int), r.Ready → 1 ≤ r.wave → r.Fair skip := by
  intro hall
  obtain ⟨x, hx, hno⟩ := (twoRows_ready 1).exists_starved (by decide) (by decide)
  obtain ⟨k, -, hk⟩ := hall (twoRows 1) 0 (twoRows_ready 1) (by decide) x hx
  exact hno _ hk

/-- Two rows with room for both. -/
theorem rotation_fair_twoRows :
    (twoRows 512).store.pending.length = 2 ∧ (twoRows 512).Fair 0 :=
  ⟨rfl, (rotation_fair_iff (twoRows_ready 512) (by decide) 0).mpr (by decide)⟩

end Rotation

end XNMiner
