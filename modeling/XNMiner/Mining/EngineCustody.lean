import XNMiner.Lib.Custody
import XNMiner.Mining.EngineSteps

/-!
# Where matches are

Between the wave that finds it and the call that returns it a match is in one of four places:
the snapshot that its lane keeps, the hands of the worker, the ring of the lane, and the result
that `mine_batch` or `drain_pipeline` is collecting.  `CudaEngine.custody` says which match is
where, by its origin, for the matches that make a hit.

The steps of the engine refine the system of `Lib/Custody.lean`: `Discards`, `WorkerEffect` and
`MiningEffect` say which matches pass on in a step, which are found, and which are lost and why.
-/

namespace XNMiner

open Lib

/-- A place where a match can be. -/
inductive Place
  | buffered (lane : Nat)
  | held (lane : Nat)
  | unread (lane : Nat)
  | absorbed
  | returned
deriving DecidableEq

/-- The lane a place belongs to. -/
def Place.lane : Place → Option Nat
  | .buffered i | .held i | .unread i => some i
  | .absorbed | .returned => none

/-- The origins of the matches that make a hit. -/
def origins (ms : List HashApiMatch) : Multiset Origin :=
  ((ms.filter HashApiMatch.isHit).map HashApiMatch.origin : List Origin)

@[simp] theorem origins_nil : origins [] = 0 := rfl

@[simp] theorem origins_append (ms ms' : List HashApiMatch) :
    origins (ms ++ ms') = origins ms + origins ms' := by
  simp [origins]

theorem mem_origins {ms : List HashApiMatch} {o : Origin} :
    o ∈ origins ms ↔ ∃ m ∈ ms, m.isHit = true ∧ m.origin = o := by
  simp [origins, and_assoc]

/-- The origins of collected hits. -/
def foundOrigins (fs : List Found) : Multiset Origin := (fs.map Found.origin : List Origin)

@[simp] theorem foundOrigins_nil : foundOrigins [] = 0 := rfl

@[simp] theorem foundOrigins_append (fs fs' : List Found) :
    foundOrigins (fs ++ fs') = foundOrigins fs + foundOrigins fs' := by
  simp [foundOrigins]

/-- The hits of the call that is running. -/
def MiningPc.found : MiningPc → List Found
  | .absorbing _ out _ | .draining _ out => out.hits
  | _ => []

namespace CudaEngine

variable {s t : CudaEngine} {i : Nat}

/-- The snapshot of the lane. -/
def buffered (s : CudaEngine) (i : Nat) : List HashApiMatch :=
  match s.lanesImpl[i]? with
  | none => []
  | some backend => backend.buffered

/-- What the worker of the lane has in its hands. -/
def held (s : CudaEngine) (i : Nat) : List HashApiMatch :=
  match s.workers[i]? with
  | none => []
  | some w => w.held

/-- Which match is where. -/
def custody (s : CudaEngine) : Place → Multiset Origin
  | .buffered i => origins (s.buffered i)
  | .held i => origins (s.held i)
  | .unread i => origins (s.mailboxes i).unread
  | .absorbed => foundOrigins s.pc.found
  | .returned => foundOrigins s.returned

/-! ## Custody under updates -/

theorem custody_ext (hb : ∀ i, t.buffered i = s.buffered i) (hh : ∀ i, t.held i = s.held i)
    (hu : ∀ i, (t.mailboxes i).unread = (s.mailboxes i).unread) (hpc : t.pc.found = s.pc.found)
    (hr : t.returned = s.returned) : t.custody = s.custody := by
  funext p
  cases p with
  | buffered i => simp only [custody, hb]
  | held i => simp only [custody, hh]
  | unread i => simp only [custody, hu]
  | absorbed => simp only [custody, hpc]
  | returned => simp only [custody, hr]

theorem custody_setLane {b : CudaHashBackend} (hi : i < s.lanesImpl.length) :
    ({ s with lanesImpl := s.lanesImpl.set i b } : CudaEngine).custody =
      Function.update s.custody (.buffered i) (origins b.buffered) := by
  funext p
  by_cases hp : p = .buffered i
  · subst hp
    simp [custody, buffered, hi]
  · rw [Function.update_of_ne hp]
    cases p with
    | buffered j =>
        have hij : i ≠ j := fun h ↦ hp (congrArg Place.buffered h.symm)
        simp [custody, buffered, List.getElem?_set_ne hij]
    | held | unread | absorbed | returned => rfl

theorem custody_setWorker {w : LaneWorker} (hi : i < s.workers.length) :
    (s.setWorker i w).custody = Function.update s.custody (.held i) (origins w.held) := by
  funext p
  by_cases hp : p = .held i
  · subst hp
    simp [custody, held, setWorker, hi]
  · rw [Function.update_of_ne hp]
    cases p with
    | held j =>
        have hij : i ≠ j := fun h ↦ hp (congrArg Place.held h.symm)
        simp [custody, held, setWorker, List.getElem?_set_ne hij]
    | buffered | unread | absorbed | returned => rfl

theorem custody_setBox {box : LaneMailbox} :
    ({ s with mailboxes := Function.update s.mailboxes i box } : CudaEngine).custody =
      Function.update s.custody (.unread i) (origins box.unread) := by
  funext p
  by_cases hp : p = .unread i
  · subst hp
    simp [custody]
  · rw [Function.update_of_ne hp]
    cases p with
    | unread j =>
        have hij : j ≠ i := fun h ↦ hp (congrArg Place.unread h)
        simp [custody, hij]
    | buffered | held | absorbed | returned => rfl

theorem custody_setPc {pc : MiningPc} :
    ({ s with pc } : CudaEngine).custody =
      Function.update s.custody .absorbed (foundOrigins pc.found) := by
  funext p
  cases p <;> rfl

/-- A worker that has nothing in its hands before and after a step. -/
theorem custody_setWorker_of_held {w w' : LaneWorker} (hw : s.workers[i]? = some w)
    (hheld : w'.held = w.held) : (s.setWorker i w').custody = s.custody := by
  have hi : i < s.workers.length := (List.getElem?_eq_some_iff.mp hw).1
  rw [custody_setWorker hi, hheld]
  refine (Function.update_eq_self_iff ..).mpr ?_
  simp [custody, held, hw]

/-! ## From matches to hits -/

theorem hitFromMatch_isSome (now : String) (m : HashApiMatch) (attempts : Nat) (hps : Rat) :
    (s.hitFromMatch now m attempts hps).isSome = m.isHit := by
  unfold hitFromMatch HashApiMatch.isHit
  by_cases hk : m.kind = "OTHER" <;> cases hx : isHex64Key m.key <;> simp [hk]

section

variable {now : String} {attempts : Nat} {hps : Rat} {m : HashApiMatch} {ms : List HashApiMatch}
  {out : MineBatchResult}

/-- The loop over the matches collects those that make a hit. -/
theorem foundOrigins_addMatches (ms : List HashApiMatch) (out : MineBatchResult) :
    foundOrigins (s.addMatches now attempts hps ms out).hits =
      foundOrigins out.hits + origins ms := by
  induction ms generalizing out with
  | nil => exact (Multiset.add_zero _).symm
  | cons m rest ih =>
      have hsome := s.hitFromMatch_isSome now m attempts hps
      cases hhit : s.hitFromMatch now m attempts hps with
      | none =>
          rw [hhit] at hsome
          have hm : m.isHit = false := hsome.symm
          have horigins : origins (m :: rest) = origins rest := by simp [origins, hm]
          rw [addMatches_of_none hhit, ih, horigins]
      | some hit =>
          rw [hhit] at hsome
          have hm : m.isHit = true := hsome.symm
          have horigins : origins (m :: rest) = {m.origin} + origins rest := by
            simp [origins, hm]
          rw [addMatches_of_some hhit, ih, foundOrigins_append, horigins]
          exact Multiset.add_assoc ..

/-- What is true of the hits of a result, and of those that were there, is true of all. -/
theorem forall_addMatches {P : Found → Prop}
    (hnew : ∀ m ∈ ms, ∀ hit, s.hitFromMatch now m attempts hps = some hit →
      P { hit, origin := m.origin }) (hout : ∀ f ∈ out.hits, P f) :
    ∀ f ∈ (s.addMatches now attempts hps ms out).hits, P f := by
  induction ms generalizing out with
  | nil => exact hout
  | cons m rest ih =>
      have hrest : ∀ m ∈ rest, ∀ hit, s.hitFromMatch now m attempts hps = some hit →
          P { hit, origin := m.origin } := fun m hm ↦ hnew m (List.mem_cons_of_mem _ hm)
      cases hm : s.hitFromMatch now m attempts hps with
      | none =>
          rw [addMatches_of_none hm]
          exact ih hrest hout
      | some hit =>
          rw [addMatches_of_some hm]
          refine ih hrest fun f hf ↦ ?_
          rcases List.mem_append.mp hf with hf | hf
          · exact hout f hf
          · rw [List.mem_singleton.mp hf]
            exact hnew m List.mem_cons_self hit hm

end

/-- `absorb` collects the hits of a result, or throws. -/
theorem absorb_cases (now : String) (result : HashApiResult) (out : MineBatchResult)
    (totalHs : Rat) :
    (result.ok = false ∧ s.absorb now result out totalHs = .error (batchError result.error)) ∨
    (result.ok = true ∧ ∃ hps out' totalHs', s.absorb now result out totalHs =
        .ok (s.addMatches now result.attempts hps result.matches out', totalHs') ∧
      out'.hits = out.hits) := by
  unfold absorb
  cases result.ok with
  | false => exact .inl ⟨rfl, rfl⟩
  | true => exact .inr ⟨rfl, _, _, _, rfl, rfl⟩

end CudaEngine

end XNMiner
