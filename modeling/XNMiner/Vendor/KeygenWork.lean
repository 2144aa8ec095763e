import Mathlib.Algebra.BigOperators.Group.Finset.Basic
import Mathlib.Data.Fintype.Basic
import XNMiner.Vendor.KeygenPool

/-!
# No wait for keys goes on

What is left to do in the pool is a number: the steps that its workers can still take.  Each step of
a worker takes one away, and only a new call adds to it.  So while no lane calls anew, the workers
come to an end, in whatever order they take their turns, and then no lane waits (`wait_ends`).
-/

namespace XNMiner.HashApi.KeygenPool

open Lib

variable {L W : Type}

/-- The steps that a worker has left. -/
def Worker.left : Worker L → Nat
  | .idle => 0
  | .busy _ keys written => keys.length - written + 1

/-- The steps that all workers have left: those of the jobs that nobody took, and their own. -/
def State.work [Fintype W] (s : State L W) : Nat :=
  (s.queue.map fun job ↦ job.chunk.size + 2).sum + ∑ w, (s.workers w).left

namespace Action

/-- A lane calls. -/
def isCall : Action L W → Bool
  | .fill .. => true
  | _ => false

/-- A step of a worker. -/
def isWork : Action L W → Bool
  | .take .. | .write _ | .finish _ => true
  | _ => false

end Action

/-- When one worker goes on, the others have left what they had. -/
theorem sum_left_update [Fintype W] [DecidableEq W] (workers : W → Worker L) (worker : W)
    (next : Worker L) :
    ∑ w, (Function.update workers worker next w).left + (workers worker).left =
      ∑ w, (workers w).left + next.left := by
  have hothers : ∑ w ∈ Finset.univ.erase worker, (Function.update workers worker next w).left =
      ∑ w ∈ Finset.univ.erase worker, (workers w).left := by
    refine Finset.sum_congr rfl fun w hw ↦ ?_
    rw [Function.update_of_ne (Finset.ne_of_mem_erase hw)]
  rw [← Finset.add_sum_erase _ _ (Finset.mem_univ worker), hothers, Function.update_self,
    ← Finset.add_sum_erase Finset.univ (fun w ↦ (workers w).left) (Finset.mem_univ worker)]
  omega

section Work

variable [DecidableEq L] [DecidableEq W] [Fintype W] {threads : Nat} {s t : State L W}

/-- A step of a worker takes one away, and the end of a wait nothing. -/
theorem Step.work {a : Action L W} (h : Step threads s a t) (hcall : a.isCall = false) :
    t.work + a.isWork.toNat = s.work := by
  cases h with
  | fill _ _ => cases hcall
  | @take worker high low job queue f hidle hqueue _ =>
    have hsum := sum_left_update s.workers worker (.busy job
      ((RandomHexKeyGenerator.ofPrefix f.keyPrefix).fillMany high low job.chunk.size) 0)
    rw [hidle, Worker.left, Worker.left, RandomHexKeyGenerator.length_fillMany] at hsum
    rw [State.work, State.work, hqueue, List.map_cons, List.sum_cons, Action.isWork,
      Bool.toNat_true]
    dsimp only
    omega
  | @write worker job keys written key f hw hkey _ =>
    have hsum := sum_left_update s.workers worker (.busy job keys (written + 1))
    have hlt := (List.getElem?_eq_some_iff.mp hkey).1
    rw [hw, Worker.left, Worker.left] at hsum
    rw [State.work, State.work, Action.isWork, Bool.toNat_true]
    dsimp only
    omega
  | @finish worker job keys f hw _ =>
    have hsum := sum_left_update s.workers worker .idle
    rw [hw, Worker.left, Worker.left] at hsum
    rw [State.work, State.work, Action.isWork, Bool.toNat_true]
    dsimp only
    omega
  | done _ _ => rfl

theorem work_run {as : List (Action L W)} (h : Run (Step threads) s as t)
    (hcalls : ∀ a ∈ as, a.isCall = false) : t.work + as.countP Action.isWork = s.work := by
  induction h with
  | nil => rfl
  | @cons s u t a as hstep _ ih =>
    have hfirst := hstep.work (hcalls a List.mem_cons_self)
    have hrest := ih fun b hb ↦ hcalls b (List.mem_cons_of_mem _ hb)
    rw [List.countP_cons]
    cases hwork : a.isWork <;> simp [hwork] at hfirst ⊢ <;> omega

/-- **No wait goes on.**  From any state that the pool can reach, and as long as no lane calls anew,
the workers take no more steps than were left, and when they have taken them no lane waits. -/
theorem wait_ends [Nonempty W] {as bs : List (Action L W)} (h : Run (Step threads) State.idle as s)
    (hmore : Run (Step threads) s bs t) (hcalls : ∀ b ∈ bs, b.isCall = false) :
    bs.countP Action.isWork ≤ s.work ∧ (bs.countP Action.isWork = s.work →
      ∀ lane f, t.fills lane = some f → f.remaining ≤ 0) := by
  have hwork := work_run hmore hcalls
  -- When all are taken there is none to take, so nobody waits.
  have hnone (hall : bs.countP Action.isWork = s.work) {a : Action L W} {u : State L W}
      (hstep : Step threads t a u) (ha : a.isWork = true) (hcall : a.isCall = false) : False := by
    have hstep' := hstep.work hcall
    rw [ha, Bool.toNat_true] at hstep'
    omega
  refine ⟨by omega, fun hall lane f hf ↦ Int.not_lt.mp fun hwaits ↦ ?_⟩
  obtain ⟨worker, u, htake | hwrite | hfinish⟩ := worker_progress (h.append hmore) hf hwaits
  · exact hnone hall htake rfl rfl
  · exact hnone hall hwrite rfl rfl
  · exact hnone hall hfinish rfl rfl

end Work

theorem wait_ends_two : ∃ t : State Bool Bool, Run (Step 2) twoLanes fourJobs t ∧
    ∀ lane f, t.fills lane = some f → f.remaining ≤ 0 := by
  obtain ⟨t, f, g, hmade, -⟩ := twoLanes_made
  have hcalls : ∀ b ∈ fourJobs, b.isCall = false := by simp [fourJobs, Action.isCall]
  have hwork : twoLanes.work = 13 := by decide
  exact ⟨t, hmade, (wait_ends twoLanes_called hmade hcalls).2 hwork.symm⟩

end XNMiner.HashApi.KeygenPool
