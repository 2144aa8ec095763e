import Mathlib.Data.Nat.Periodic
import Mathlib.Data.List.Infix

/-!
# Throttles

A throttle is asked before every piece of work, with the length of a queue that the work feeds.  It
pauses when the queue reaches its cap, until the queue is down to where it resumes; and of the steps
at which it does not pause it lets every `every`-th through.

`log` is what it has answered over a run.  Two facts about every log: a pause lasts until a step
that clears it (`allowed_of_log`), and among any `every` consecutive steps that are not paused,
however many pauses there are between them, exactly one is let through (`allowed_once`).
-/

namespace Lib

/-- The limits of a throttle. -/
structure Throttle where
  cap : Int
  resume : Int
  every : Nat

namespace Throttle

/-- What a throttle keeps between steps. -/
structure State where
  paused : Bool
  seq : Nat

/-- One answer: the length of the queue, whether the throttle pauses, whether it lets through. -/
structure Verdict where
  count : Int
  paused : Bool
  allowed : Bool
deriving DecidableEq

variable (th : Throttle) {s : State} {n : Int} {ns : List Int}

/-- Whether the throttle pauses, with `n` in the queue. -/
def pauses (s : State) (n : Int) : Bool :=
  if th.cap ≤ n then true else if s.paused ∧ n ≤ th.resume then false else s.paused

/-- The state after a step. -/
def next (s : State) (n : Int) : State where
  paused := th.pauses s n
  seq := if th.pauses s n then s.seq else s.seq + 1

/-- The answer of a step. -/
def verdict (s : State) (n : Int) : Verdict where
  count := n
  paused := th.pauses s n
  allowed := !th.pauses s n && decide ((s.seq + 1) % th.every = 0)

/-- The answers of a run. -/
def log (s : State) : List Int → List Verdict
  | [] => []
  | n :: ns => th.verdict s n :: log (th.next s n) ns

/-- The state after a run. -/
def final (s : State) : List Int → State
  | [] => s
  | n :: ns => final (th.next s n) ns

/-- A queue that ends a pause. -/
def Clears (n : Int) : Prop := n < th.cap ∧ n ≤ th.resume

variable {th}

/-! ## Pauses -/

theorem pauses_of_cap_le (h : th.cap ≤ n) : th.pauses s n = true := if_pos h

/-- A pause goes on while nothing clears it. -/
theorem pauses_of_paused (h : s.paused = true) (hn : ¬th.Clears n) : th.pauses s n = true := by
  unfold pauses
  split
  · rfl
  · next hcap => rw [if_neg (fun hlow ↦ hn ⟨not_le.mp hcap, hlow.2⟩), h]

/-- Nothing is let through in a pause. -/
theorem allowed_of_pauses (h : th.pauses s n = true) : (th.verdict s n).allowed = false := by
  rw [verdict, h]
  rfl

/-- From a pause on, nothing is let through up to a step that clears it. -/
theorem allowed_of_paused {mid after : List Verdict} (h : s.paused = true)
    (hlog : th.log s ns = mid ++ after) (hmid : ∀ w ∈ mid, ¬th.Clears w.count) :
    ∀ w ∈ mid, w.allowed = false := by
  induction ns generalizing s mid with
  | nil =>
      obtain ⟨rfl, -⟩ := List.append_eq_nil_iff.mp hlog.symm
      simp
  | cons n ns ih =>
      cases mid with
      | nil => simp
      | cons v mid =>
          obtain ⟨rfl, hrest⟩ := List.cons.inj hlog
          have hpauses : th.pauses s n = true :=
            pauses_of_paused h (hmid (th.verdict s n) List.mem_cons_self)
          intro w hw
          rcases List.mem_cons.mp hw with rfl | hw
          · exact allowed_of_pauses hpauses
          · exact ih hpauses hrest (fun w hw ↦ hmid w (List.mem_cons_of_mem _ hw)) w hw

/-- **A pause begins at the cap and lasts until a step that clears it.** -/
theorem allowed_of_log {before mid after : List Verdict} {v : Verdict}
    (hlog : th.log s ns = before ++ v :: (mid ++ after)) (hv : th.cap ≤ v.count)
    (hmid : ∀ w ∈ mid, ¬th.Clears w.count) :
    v.allowed = false ∧ ∀ w ∈ mid, w.allowed = false := by
  induction ns generalizing s before with
  | nil => simp [log] at hlog
  | cons n ns ih =>
      cases before with
      | nil =>
          obtain ⟨rfl, hrest⟩ := List.cons.inj hlog
          have hpauses : th.pauses s n = true := pauses_of_cap_le hv
          exact ⟨allowed_of_pauses hpauses, allowed_of_paused hpauses hrest hmid⟩
      | cons w before => exact ih (List.cons.inj hlog).2

/-! ## Spacing -/

/-- The steps that are not paused. -/
def openSteps (vs : List Verdict) : List Verdict := vs.filter fun v ↦ !v.paused

/-- The steps that are not paused are counted on, and let through by their number. -/
theorem allowed_openSteps (s : State) (ns : List Int) :
    (openSteps (th.log s ns)).map (·.allowed) =
      (List.range' (s.seq + 1) (openSteps (th.log s ns)).length).map
        fun k ↦ decide (k % th.every = 0) := by
  induction ns generalizing s with
  | nil => rfl
  | cons n ns ih =>
      have hrest := ih (th.next s n)
      rw [log]
      cases hpauses : th.pauses s n with
      | true =>
          have hskip : openSteps (th.verdict s n :: th.log (th.next s n) ns) =
              openSteps (th.log (th.next s n) ns) :=
            List.filter_cons_of_neg (by simp [verdict, hpauses])
          have hseq : (th.next s n).seq = s.seq := by simp [next, hpauses]
          rw [hskip, hrest, hseq]
      | false =>
          have hkeep : openSteps (th.verdict s n :: th.log (th.next s n) ns) =
              th.verdict s n :: openSteps (th.log (th.next s n) ns) :=
            List.filter_cons_of_pos (by simp [verdict, hpauses])
          have hseq : (th.next s n).seq = s.seq + 1 := by simp [next, hpauses]
          rw [hkeep, List.map_cons, hrest, hseq, List.length_cons, List.range'_succ, List.map_cons]
          simp [verdict, hpauses]

/-- Among `every` consecutive numbers exactly one is a multiple of `every`. -/
theorem countP_range' (a : Nat) {every : Nat} (h : 0 < every) :
    (List.range' a every).countP (fun k ↦ decide (k % every = 0)) = 1 := by
  have hperiodic : Function.Periodic (fun k ↦ k % every = 0) every := fun k ↦ by
    simp
  have hone : every.count (fun k ↦ k % every = 0) = 1 := by
    rw [Nat.count_eq_card_filter_range]
    refine Finset.card_eq_one.mpr ⟨0, ?_⟩
    ext k
    rw [Finset.mem_filter, Finset.mem_range, Finset.mem_singleton]
    constructor
    · rintro ⟨hlt, hmod⟩
      rwa [Nat.mod_eq_of_lt hlt] at hmod
    · rintro rfl
      exact ⟨h, Nat.zero_mod every⟩
  have hcount := Nat.filter_multiset_Ico_card_eq_of_periodic a every _ hperiodic
  have hlist : Multiset.Ico a (a + every) = (List.range' a every : Multiset Nat) := by
    change ((List.range' a (a + every - a) : List Nat) : Multiset Nat) = _
    rw [Nat.add_sub_cancel_left]
  rw [hone, hlist, Multiset.filter_coe, Multiset.coe_card] at hcount
  rw [List.countP_eq_length_filter]
  exact hcount

/-- **Among any `every` consecutive steps that are not paused exactly one is let through.** -/
theorem allowed_once (hevery : 0 < th.every) {before window after : List Verdict}
    (hopen : openSteps (th.log s ns) = before ++ (window ++ after))
    (hlen : window.length = th.every) : window.countP (·.allowed) = 1 := by
  have hall : (openSteps (th.log s ns)).map (·.allowed) =
      (List.range' (s.seq + 1) (openSteps (th.log s ns)).length).map
        fun k ↦ decide (k % th.every = 0) := allowed_openSteps s ns
  rw [hopen, List.length_append, List.length_append, ← List.range'_append_1,
    ← List.range'_append_1, List.map_append, List.map_append, List.map_append,
    List.map_append] at hall
  obtain ⟨-, hrest⟩ := List.append_inj hall (by simp)
  obtain ⟨hwindow, -⟩ := List.append_inj hrest (by simp)
  have hcount := congrArg (List.countP id) hwindow
  rw [List.countP_map, List.countP_map, hlen] at hcount
  exact hcount.trans (countP_range' _ hevery)

end Throttle

end Lib
