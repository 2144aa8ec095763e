import XNMiner.Lib.Lts
import Mathlib.Logic.Function.Basic

/-!
# Processes that keep to regions of their own

Processes run programs over one memory, in any order of their turns.  Where each reads and writes
only a region of its own, and no two regions meet, the order does not matter: in its region a
process leaves what it would leave alone (`Confined.run`), and outside all regions the memory is as
it was.
-/

namespace Lib

variable {ι A β L τ : Type*}

/-- The memory, and for each process what it has still to do and its own state. -/
structure Shared (ι A β L τ : Type*) where
  mem : A → β
  left : ι → List τ
  loc : ι → L

/-- The process `i` takes its next turn. -/
def Shared.Step [DecidableEq ι] (turn : ι → τ → (A → β) × L → (A → β) × L)
    (s : Shared ι A β L τ) (i : ι) (s' : Shared ι A β L τ) : Prop :=
  ∃ t ts, s.left i = t :: ts ∧
    s' = { mem := (turn i t (s.mem, s.loc i)).1
           left := Function.update s.left i ts
           loc := Function.update s.loc i (turn i t (s.mem, s.loc i)).2 }

/-- A process takes some turns, and nobody else does. -/
def solo (turn : ι → τ → (A → β) × L → (A → β) × L) (i : ι) (ts : List τ) (p : (A → β) × L) :
    (A → β) × L :=
  ts.foldl (fun p t ↦ turn i t p) p

/-- Each process keeps to its region in the turns that it has still to take; what it needs for that
of its own state is `inv`. -/
structure Confined (turn : ι → τ → (A → β) × L → (A → β) × L) (own : ι → A → Prop)
    (inv : ι → List τ → L → Prop) : Prop where
  disjoint : ∀ {i j a}, own i a → own j a → i = j
  next : ∀ {i t ts l} (mem : A → β), inv i (t :: ts) l → inv i ts (turn i t (mem, l)).2
  frame : ∀ {i t ts l} (mem : A → β) {a}, inv i (t :: ts) l → ¬own i a →
    (turn i t (mem, l)).1 a = mem a
  local_ : ∀ {i t ts l} {mem mem' : A → β}, inv i (t :: ts) l → (∀ a, own i a → mem a = mem' a) →
    (turn i t (mem, l)).2 = (turn i t (mem', l)).2 ∧
      ∀ a, own i a → (turn i t (mem, l)).1 a = (turn i t (mem', l)).1 a

section

variable [DecidableEq ι] {turn : ι → τ → (A → β) × L → (A → β) × L} {own : ι → A → Prop}
  {inv : ι → List τ → L → Prop} {s₀ s s' : Shared ι A β L τ} {order : List ι}

/-- How far a process has come, seen from where it started. -/
structure Behind (turn : ι → τ → (A → β) × L → (A → β) × L) (own : ι → A → Prop)
    (s₀ s : Shared ι A β L τ) (i : ι) (done : List τ) : Prop where
  left : s₀.left i = done ++ s.left i
  loc : s.loc i = (solo turn i done (s₀.mem, s₀.loc i)).2
  mem : ∀ a, own i a → s.mem a = (solo turn i done (s₀.mem, s₀.loc i)).1 a

/-- The states between `s₀` and where it leads. -/
structure Confined.Reached (turn : ι → τ → (A → β) × L → (A → β) × L) (own : ι → A → Prop)
    (inv : ι → List τ → L → Prop) (s₀ s : Shared ι A β L τ) : Prop where
  inv : ∀ i, inv i (s.left i) (s.loc i)
  behind : ∀ i, ∃ done, Behind turn own s₀ s i done
  outside : ∀ a, (∀ i, ¬own i a) → s.mem a = s₀.mem a

/-- A turn of one process. -/
theorem Confined.reached_step (h : Confined turn own inv) {i : ι}
    (hs : Confined.Reached turn own inv s₀ s) (hstep : s.Step turn i s') :
    Confined.Reached turn own inv s₀ s' := by
  obtain ⟨t, ts, hleft, rfl⟩ := hstep
  have hinv : inv i (t :: ts) (s.loc i) := hleft ▸ hs.inv i
  refine ⟨fun j ↦ ?_, fun j ↦ ?_, fun a ha ↦ (h.frame s.mem hinv (ha i)).trans (hs.outside a ha)⟩
  · by_cases hj : j = i
    · subst hj
      simp only [Function.update_self]
      exact h.next s.mem hinv
    · simp only [Function.update_of_ne hj]
      exact hs.inv j
  · obtain ⟨done, hdone⟩ := hs.behind j
    by_cases hj : j = i
    · subst hj
      have hsame := h.local_ hinv hdone.mem
      have hsolo : solo turn j (done ++ [t]) (s₀.mem, s₀.loc j) =
          turn j t ((solo turn j done (s₀.mem, s₀.loc j)).1, s.loc j) := by
        rw [solo, List.foldl_append, hdone.loc]
        rfl
      refine ⟨done ++ [t], ?_, ?_, fun a ha ↦ ?_⟩
      · simp only [Function.update_self]
        rw [hdone.left, hleft, List.append_assoc]
        rfl
      · simp only [Function.update_self]
        rw [hsolo, hsame.1]
      · rw [hsolo]
        exact hsame.2 a ha
    · refine ⟨done, ?_, ?_, fun a ha ↦ ?_⟩
      · simp only [Function.update_of_ne hj]
        exact hdone.left
      · simp only [Function.update_of_ne hj]
        exact hdone.loc
      · have hother : ¬own i a := fun hi ↦ hj (h.disjoint ha hi)
        exact (h.frame s.mem hinv hother).trans (hdone.mem a ha)

/-- **The order of the turns does not matter.** -/
theorem Confined.run (h : Confined turn own inv) (hinv : ∀ i, inv i (s.left i) (s.loc i))
    (hrun : Run (Shared.Step turn) s order s') : Confined.Reached turn own inv s s' :=
  hrun.preserves (fun _ _ _ hreached hstep ↦ h.reached_step hreached hstep)
    ⟨hinv, fun _ ↦ ⟨[], rfl, rfl, fun _ _ ↦ rfl⟩, fun _ _ ↦ rfl⟩

omit [DecidableEq ι] in
/-- Where a process has finished, its region is as it would leave it alone. -/
theorem Confined.Reached.finished (h : Confined.Reached turn own inv s s') {i : ι}
    (hdone : s'.left i = []) :
    s'.loc i = (solo turn i (s.left i) (s.mem, s.loc i)).2 ∧
      ∀ a, own i a → s'.mem a = (solo turn i (s.left i) (s.mem, s.loc i)).1 a := by
  obtain ⟨done, hbehind⟩ := h.behind i
  have hall : s.left i = done := by rw [hbehind.left, hdone, List.append_nil]
  exact hall ▸ ⟨hbehind.loc, hbehind.mem⟩

/-! ## Launches -/

/-- Some processes are started with one program, and all of them finish. -/
def Launched (turn : ι → τ → (A → β) × L → (A → β) × L) (started : ι → Prop) [DecidablePred started]
    (program : List τ) (mem mem' : A → β) : Prop :=
  ∃ s s' order, s.mem = mem ∧ (∀ i, s.left i = if started i then program else []) ∧
    Run (Shared.Step turn) s order s' ∧ (∀ i, s'.left i = []) ∧ s'.mem = mem'

variable {started : ι → Prop} [DecidablePred started] {program : List τ} {mem mem' : A → β}

/-- **After a launch each region is as its process would leave it alone.** -/
theorem Confined.launched (h : Confined turn own inv)
    (hprogram : ∀ i, started i → ∀ l, inv i program l) (hnil : ∀ i l, inv i [] l)
    (hrun : Launched turn started program mem mem') :
    (∀ i, started i → ∃ l, ∀ a, own i a → mem' a = (solo turn i program (mem, l)).1 a) ∧
      ∀ a, (∀ i, started i → ¬own i a) → mem' a = mem a := by
  obtain ⟨s, s', order, rfl, hleft, hrun, hdone, rfl⟩ := hrun
  have hinv (i : ι) : inv i (s.left i) (s.loc i) := by
    rw [hleft]
    split
    · next hi => exact hprogram i hi _
    · exact hnil i _
  have hreached := h.run hinv hrun
  have hfinished (i : ι) := hreached.finished (hdone i)
  refine ⟨fun i hi ↦ ⟨s.loc i, fun a ha ↦ ?_⟩, fun a ha ↦ ?_⟩
  · rw [(hfinished i).2 a ha, hleft, if_pos hi]
  · by_cases hsome : ∃ i, own i a
    · obtain ⟨i, hi⟩ := hsome
      rw [(hfinished i).2 a hi, hleft, if_neg fun hstarted ↦ ha i hstarted hi]
      rfl
    · exact hreached.outside a fun i hi ↦ hsome ⟨i, hi⟩

/-- A process can take all its turns. -/
theorem exists_run_alone (turn : ι → τ → (A → β) × L → (A → β) × L) (i : ι) (ts : List τ) :
    ∀ s : Shared ι A β L τ, s.left i = ts → ∃ order s', Run (Shared.Step turn) s order s' ∧
      s'.left i = [] ∧ ∀ j, j ≠ i → s'.left j = s.left j := by
  induction ts with
  | nil => exact fun s hs ↦ ⟨[], s, .nil s, hs, fun _ _ ↦ rfl⟩
  | cons t ts ih =>
    intro s hs
    obtain ⟨order, s', hrun, hdone, hothers⟩ := ih
      { mem := (turn i t (s.mem, s.loc i)).1
        left := Function.update s.left i ts
        loc := Function.update s.loc i (turn i t (s.mem, s.loc i)).2 } (Function.update_self ..)
    refine ⟨i :: order, s', .cons ⟨t, ts, hs, rfl⟩ hrun, hdone, fun j hj ↦ ?_⟩
    exact (hothers j hj).trans (Function.update_of_ne hj ..)

/-- **A launch can finish.** -/
theorem exists_launched [Nonempty L] (turn : ι → τ → (A → β) × L → (A → β) × L) (jobs : List ι)
    (hjobs : ∀ i, started i → i ∈ jobs) (program : List τ) (mem : A → β) :
    ∃ mem', Launched turn started program mem mem' := by
  have hall (jobs : List ι) : ∀ s : Shared ι A β L τ, (∀ i, i ∉ jobs → s.left i = []) →
      ∃ order s', Run (Shared.Step turn) s order s' ∧ ∀ i, s'.left i = [] := by
    induction jobs with
    | nil => exact fun s hs ↦ ⟨[], s, .nil s, fun i ↦ hs i List.not_mem_nil⟩
    | cons i jobs ih =>
      intro s hs
      obtain ⟨order, s', hrun, hdone, hothers⟩ := exists_run_alone turn i _ s rfl
      obtain ⟨order', s'', hrun', hdone'⟩ := ih s' fun j hj ↦ by
        by_cases heq : j = i
        · rw [heq, hdone]
        · rw [hothers j heq, hs j (List.not_mem_cons_of_ne_of_not_mem heq hj)]
      exact ⟨order ++ order', s'', hrun.append hrun', hdone'⟩
  let s : Shared ι A β L τ :=
    { mem, left := fun i ↦ if started i then program else [], loc := fun _ ↦ Classical.arbitrary L }
  obtain ⟨order, s', hrun, hdone⟩ := hall jobs s fun i hi ↦ if_neg fun hs ↦ hi (hjobs i hs)
  exact ⟨s'.mem, s, s', order, rfl, fun _ ↦ rfl, hrun, hdone, rfl⟩

end

end Lib
