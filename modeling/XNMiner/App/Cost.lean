import XNMiner.App.Steps
import XNMiner.App.Window
import XNMiner.Queue.Reload

/-!
# The cost of what is posted

The pool compares the `m=` of a PHC string with its difficulty.  A hit carries its cost twice, in
a field and in that string, and the miner decides by the field.  So the argument has two halves:
the two costs of every hit on its way agree (`Costed`), and a gate lets a hit through only while
the field is a difficulty that was known during the call (`Known`).

`refresh_network` and `update_match_drain` are single steps here: an open window is pinned to the
known difficulty only at their ends.
-/

namespace XNMiner

open Lib Prog BlockStore

/-- Rereading a hit keeps its two costs the same. -/
theorem Costed.reread {hit : BlockHit} (h : Costed hit) : Costed hit.reread := by
  obtain ⟨henc, m, hm, hcost⟩ := h
  have hsame : toUint32 (wrap 32 m) = toUint32 m := by
    have hemod : m.bmod (2 ^ 32) % 2 ^ 32 = m % 2 ^ 32 := Int.bmod_emod
    change (m.bmod (2 ^ 32) % 2 ^ 32).toNat = (m % 2 ^ 32).toNat
    rw [hemod]
  exact ⟨henc, wrap 32 m, by simp [BlockHit.reread, hm], by rw [hsame]; exact hcost⟩

/-- The known difficulty has been `m` since the call began. -/
def Known (w : World) (m : Int) : Prop := some m ∈ w.held

/-- The hash that was posted is a PHC string whose cost was known during the call. -/
def Post.Matching (post : Post) : Prop :=
  isArgon2Encoded post.hash = true ∧
    ∃ m, memoryCostFromHash post.hash = some m ∧ some m ∈ post.held

/-- What holds at every moment. -/
structure CostInv (w : World) : Prop where
  rows : ∀ pb ∈ w.sup.store.pending, Costed pb.hit
  queue : ∀ job ∈ w.sup.liveSubmitQ, Costed job.hit
  known : w.sup.networkDifficulty ∈ w.held
  /-- `network_difficulty_` is an `int`.  The startup code may have put a `memory_cost` into it
  that is not positive. -/
  range : ∀ m, Known w m → m < 2 ^ 31
  fallback : w.sup.settings.memoryCost < 2 ^ 31
  window : w.sup.matchDrainActive = true →
    w.sup.drainDisabled = false ∧ w.sup.networkDifficulty = some w.sup.forcedMineM
  posted : ∀ post ∈ w.posted, post.Matching

/-- Only what is known now is remembered. -/
theorem CostInv.forget {w : World} (hinv : CostInv w) :
    CostInv { w with held := [w.sup.networkDifficulty] } :=
  ⟨hinv.rows, hinv.queue, List.mem_cons_self, fun m hm ↦ hinv.range m
    (show some m ∈ w.held from List.mem_singleton.mp hm ▸ hinv.known), hinv.fallback, hinv.window,
    hinv.posted⟩

/-- What the submit worker may rely on. -/
structure CostRely (w w' : World) : Prop where
  settings : w'.sup.settings = w.sup.settings
  held : ∀ d ∈ w.held, d ∈ w'.held
  /-- Another number is a positive one. -/
  number : w'.sup.networkDifficulty = w.sup.networkDifficulty ∨
    ∃ d, w'.sup.networkDifficulty = some d ∧ 0 < d

theorem CostRely.refl (w : World) : CostRely w w := ⟨rfl, fun _ h ↦ h, .inl rfl⟩

theorem CostRely.trans {w w' w'' : World} (h : CostRely w w') (h' : CostRely w' w'') :
    CostRely w w'' :=
  ⟨h'.settings.trans h.settings, fun d hd ↦ h'.held d (h.held d hd), by
    rcases h'.number with hsame | hnew
    · rw [hsame]
      exact h.number
    · exact .inr hnew⟩

/-- The engine finds digests, not PHC strings.  Anything else may be answered anything. -/
def EngineAnswers : ∀ q, Answer q → Prop
  | .round, found => ∀ hits, found = .hits hits → ∀ hit ∈ hits, IsDigest hit.hashStr
  | .drain, found => ∀ hits, found = some hits → ∀ hit ∈ hits, IsDigest hit.hashStr
  | _, _ => True

/-- The protocol of the three threads.  Only the submit worker posts. -/
def costProtocol : Protocol Thread World Query Answer where
  inv := CostInv
  answers := EngineAnswers
  rely i w w' := i = .submit → CostRely w w'
  rely_refl _ w _ := .refl w
  rely_trans := fun _ {_ _ _} h h' hi ↦ (h hi).trans (h' hi)

/-! ## Tame steps -/

/-- A step that keeps the invariant and that the submit worker does not mind. -/
def Tame (w w' : World) : Prop := CostInv w' ∧ CostRely w w'

theorem tame_refl (w : World) (h : CostInv w) : Tame w w := ⟨h, .refl w⟩

/-- **Tame steps from what they do to the hits.** -/
theorem tame_of {w w' : World} (hinv : CostInv w) (hset : w'.sup.settings = w.sup.settings)
    (hnet : w'.sup.networkDifficulty = w.sup.networkDifficulty)
    (hact : w'.sup.matchDrainActive = true → w.sup.matchDrainActive = true)
    (hrows : ∀ pb ∈ w'.sup.store.pending, Costed pb.hit)
    (hqueue : ∀ job ∈ w'.sup.liveSubmitQ, Costed job.hit)
    (hheld : w'.held = w.held) (hposted : w'.posted = w.posted) : Tame w w' := by
  refine ⟨⟨hrows, hqueue, ?_, ?_, by rw [hset]; exact hinv.fallback, fun ha ↦ ?_, ?_⟩,
    hset, fun d hd ↦ hheld ▸ hd, .inl hnet⟩
  · rw [hnet, hheld]
    exact hinv.known
  · unfold Known
    rw [hheld]
    exact hinv.range
  · have := hinv.window (hact ha)
    simpa [Supervisor.drainDisabled, Supervisor.bagOnly, Supervisor.forceMineMode,
      Supervisor.forcedMineM, hset, hnet] using this
  · rw [hposted]
    exact hinv.posted

/-- Fields that no gate on the cost reads. -/
structure Aside (s s' : Supervisor) : Prop where
  settings : s'.settings = s.settings
  networkDifficulty : s'.networkDifficulty = s.networkDifficulty
  matchDrainActive : s'.matchDrainActive = s.matchDrainActive
  liveSubmitQ : s'.liveSubmitQ = s.liveSubmitQ
  pending : s'.store.pending = s.store.pending

/-- A step that changes only such fields. -/
theorem tame_aside {w : World} (hinv : CostInv w) {sup : Supervisor} (h : Aside w.sup sup) :
    Tame w { w with sup } :=
  tame_of hinv h.settings h.networkDifficulty (fun ha ↦ h.matchDrainActive ▸ ha)
    (by rw [h.pending]; exact hinv.rows) (by rw [h.liveSubmitQ]; exact hinv.queue) rfl rfl

/-- An operation of the store that adds no other hit than a costed one. -/
theorem tame_store {w : World} (hinv : CostInv w) {op : BlockStore.Op}
    (hop : ∀ hit, op.hit? = some hit → Costed hit) :
    Tame w { w with sup := { w.sup with store := w.sup.store.exec op } } := by
  refine tame_of hinv rfl rfl (fun h ↦ h) (fun pb hpb ↦ ?_) hinv.queue rfl rfl
  rcases exec_hits w.sup.store op pb hpb with ⟨pb₀, hpb₀, hhit⟩ | hhit
  · exact hhit ▸ hinv.rows pb₀ hpb₀
  · exact hop _ hhit

/-! ### The two shared calls -/

/-- After `update_match_drain` an open window is pinned to the known difficulty. -/
theorem pinned_updateMatchDrain {s : Supervisor} {now : Rat}
    (h : s.matchDrainActive = true → s.drainDisabled = false ∧
      (s.networkDifficulty = some s.forcedMineM ∨ s.oracleLeftM s.bagTargetM = true))
    (hact : (s.updateMatchDrain now).matchDrainActive = true) :
    s.drainDisabled = false ∧ s.networkDifficulty = some s.forcedMineM := by
  rcases s.updateMatchDrain_cases now with ⟨-, -, heq⟩ | ⟨-, -, -, heq⟩ | ⟨hdis, hon, hend, -⟩ |
    ⟨hdis, -, hopen, -⟩ | ⟨hoff, heq⟩
  · simp [heq, Supervisor.stopWindow] at hact
  · simp [heq, Supervisor.endWindow, Supervisor.stopWindow] at hact
  · refine ⟨hdis, (h hon).2.resolve_right ?_⟩
    simp only [Supervisor.windowEnds, Bool.or_eq_false_iff] at hend
    simp [hend.2]
  · simp only [Supervisor.windowOpens, Bool.and_eq_true] at hopen
    obtain ⟨hbag, -⟩ := Window.bagTargetM_of_enabled hdis
    exact ⟨hdis, hbag ▸ (Supervisor.oracleSaysM_iff.mp hopen.1).2⟩
  · rw [heq, hoff] at hact
    cases hact

theorem tame_updateMatchDrain {w : World} (hinv : CostInv w) (now : Rat) :
    Tame w { w with sup := w.sup.updateMatchDrain now } := by
  refine ⟨⟨by simpa using hinv.rows, by simpa using hinv.queue, by simpa using hinv.known,
    hinv.range, by simpa using hinv.fallback, fun ha ↦ ?_, hinv.posted⟩, by simp, fun _ h ↦ h,
    .inl (by simp)⟩
  have hpinned := pinned_updateMatchDrain (fun hon ↦
    ⟨(hinv.window hon).1, .inl (hinv.window hon).2⟩) ha
  simpa [Supervisor.drainDisabled, Supervisor.bagOnly, Supervisor.forceMineMode,
    Supervisor.forcedMineM] using hpinned

/-- A number that is accepted fits. -/
theorem acceptNetworkDifficulty_lt {raw fallback : Int} (h : fallback < 2 ^ 31) :
    acceptNetworkDifficulty raw fallback < 2 ^ 31 := by
  unfold acceptNetworkDifficulty
  split
  · split <;> omega
  · split
    · split <;> omega
    · omega

/-- **A poll as one step** is tame: the number it leaves is remembered. -/
theorem tame_refreshOnce {w : World} (hinv : CostInv w) (blocking : Bool) (st : NetworkStatus)
    (t₁ t₂ t₃ : Rat) : Tame w (Sup.refreshOnce blocking st t₁ t₂ t₃ w).2 := by
  set s' := (w.sup.refreshNetwork blocking st t₁ t₂ t₃).2 with hs'
  change Tame w { w with sup := s', held := w.held ++ [s'.networkDifficulty] }
  -- what is kept, whatever the poll
  have hkeep : s'.settings = w.sup.settings ∧ s'.store.pending = w.sup.store.pending ∧
      s'.liveSubmitQ = w.sup.liveSubmitQ := by
    rw [hs']
    unfold Supervisor.refreshNetwork
    split
    · exact ⟨rfl, rfl, rfl⟩
    · cases st.difficulty with
      | none => exact ⟨rfl, rfl, rfl⟩
      | some raw => exact ⟨by simp; rfl, by simp; rfl, by simp; rfl⟩
  -- the number is the old one, or an accepted one
  have hnum : (s'.networkDifficulty = w.sup.networkDifficulty ∧
      (s'.matchDrainActive = true → w.sup.matchDrainActive = true)) ∨
      ∃ d, s'.networkDifficulty = some d ∧ (0 < d ∧ d < 2 ^ 31) ∧
        (s'.matchDrainActive = true → s'.drainDisabled = false ∧
          s'.networkDifficulty = some s'.forcedMineM) := by
    rw [hs']
    unfold Supervisor.refreshNetwork
    split
    · exact .inl ⟨rfl, fun h ↦ h⟩
    · cases st.difficulty with
      | none => exact .inl ⟨rfl, fun h ↦ h⟩
      | some raw =>
          have hfall : w.sup.networkDifficulty.getD w.sup.settings.memoryCost < 2 ^ 31 := by
            cases hd : w.sup.networkDifficulty with
            | none => exact hinv.fallback
            | some d => exact hinv.range d (show some d ∈ w.held from hd ▸ hinv.known)
          refine .inr ⟨_, by simp; rfl, ⟨acceptNetworkDifficulty_pos _ _,
            acceptNetworkDifficulty_lt hfall⟩, fun hact ↦ ?_⟩
          have hpinned := pinned_updateMatchDrain
            (s := (w.sup.noteSeq st).applyDifficulty raw t₁ t₂) (fun hon ↦ ⟨(hinv.window hon).1,
              Window.pinned_or_left (w.sup.noteSeq st) raw t₁ t₂ (hinv.window hon).1⟩) hact
          simpa [Supervisor.drainDisabled, Supervisor.bagOnly, Supervisor.forceMineMode,
            Supervisor.forcedMineM] using hpinned
  obtain ⟨hset, hpending, hqueue⟩ := hkeep
  refine ⟨⟨by rw [hpending]; exact hinv.rows, by rw [hqueue]; exact hinv.queue,
    List.mem_append_right _ List.mem_cons_self, fun m hm ↦ ?_, by rw [hset]; exact hinv.fallback,
    fun ha ↦ ?_, hinv.posted⟩, hset, fun d hd ↦ List.mem_append_left _ hd, ?_⟩
  · rcases List.mem_append.mp hm with hm | hm
    · exact hinv.range m hm
    · rw [List.mem_singleton] at hm
      rcases hnum with ⟨hnet, -⟩ | ⟨d, hnet, hrange, -⟩
      · exact hinv.range m (show some m ∈ w.held from (hm.trans hnet) ▸ hinv.known)
      · obtain rfl : m = d := Option.some.inj (hm.trans hnet)
        exact hrange.2
  · rcases hnum with ⟨hnet, hact⟩ | ⟨d, -, -, hwindow⟩
    · have := hinv.window (hact ha)
      simpa [Supervisor.drainDisabled, Supervisor.bagOnly, Supervisor.forceMineMode,
        Supervisor.forcedMineM, hset, hnet] using this
    · exact hwindow ha
  · rcases hnum with ⟨hnet, -⟩ | ⟨d, hnet, hrange, -⟩
    · exact .inl hnet
    · exact .inr ⟨d, hnet, hrange.1⟩

end XNMiner
