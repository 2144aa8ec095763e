import Mathlib.Logic.Relation

/-!
# Labelled transition systems: runs and invariants

A system is given by a relation `step s a t`: action `a` may take state `s` to state `t`.
`Run step s as t` is a finite run with the actions it took, in order.  The rules that
the rest of a development needs are packaged here once:

* `Run.preserves`: what every step preserves, a run preserves;
* `Run.split`: a run over `as ++ bs` passes through an intermediate state, so that a fact
  about one step can be read off at any moment of a run;
* `Run.guarded_iff`: when the runs of a guarded system are exactly those through good states.

`Guarded step ok` restricts a system to the steps whose action is admissible in the state
it is taken from; it is how "every run whose steps all meet a condition" is written.  A system
that is given by a function can be executed (`exec`).
-/

namespace Lib

variable {σ α : Type*}

/-- `Run step s as t`: from `s`, the actions `as` lead to `t`. -/
inductive Run (step : σ → α → σ → Prop) : σ → List α → σ → Prop
  | /-- The empty run stays where it is. -/
    nil (s : σ) : Run step s [] s
  | /-- A first step, then a run from where it leads. -/
    cons {s t u : σ} {a : α} {as : List α} :
      step s a t → Run step t as u → Run step s (a :: as) u

/-- The steps of `step` whose action is admissible where it is taken. -/
def Guarded (step : σ → α → σ → Prop) (ok : σ → α → Prop) (s : σ) (a : α) (t : σ) : Prop :=
  step s a t ∧ ok s a

namespace Run

variable {step : σ → α → σ → Prop} {s t u : σ} {a : α} {as bs : List α}

/-- One step is a run. -/
theorem single (h : step s a t) : Run step s [a] t := .cons h (.nil t)

/-- Runs compose. -/
theorem append (h₁ : Run step s as t) (h₂ : Run step t bs u) : Run step s (as ++ bs) u := by
  induction h₁ with
  | nil => exact h₂
  | cons hs _ ih => exact .cons hs (ih h₂)

/-- A run over a concatenation passes through a state between the two parts. -/
theorem split : ∀ {as : List α} {s : σ}, Run step s (as ++ bs) u →
    ∃ t, Run step s as t ∧ Run step t bs u
  | [], s, h => ⟨s, .nil s, h⟩
  | _ :: _, _, .cons hs hr =>
      let ⟨t, h₁, h₂⟩ := split hr
      ⟨t, .cons hs h₁, h₂⟩

/-- The first step of a run. -/
theorem head (h : Run step s (a :: as) u) : ∃ t, step s a t ∧ Run step t as u := by
  cases h with
  | cons hs hr => exact ⟨_, hs, hr⟩

/-- A run of one action is a step. -/
theorem singleton_inv (h : Run step s [a] u) : step s a u := by
  obtain ⟨t, hs, hr⟩ := h.head
  cases hr
  exact hs

/-- **Invariant rule.**  A predicate that every step preserves holds at the end of a run
that starts in it. -/
theorem preserves {I : σ → Prop} (hI : ∀ s a t, I s → step s a t → I t)
    (h : Run step s as t) (hs : I s) : I t := by
  induction h with
  | nil => exact hs
  | cons hst _ ih => exact ih (hI _ _ _ hs hst)

/-- A run is one of every system that has its steps. -/
theorem mono {step' : σ → α → σ → Prop} (hstep : ∀ s a t, step s a t → step' s a t)
    (h : Run step s as t) : Run step' s as t := by
  induction h with
  | nil => exact .nil _
  | cons hs _ ih => exact .cons (hstep _ _ _ hs) ih

/-- A run of a guarded system is a run of the system. -/
theorem of_guarded {ok : σ → α → Prop} (h : Run (Guarded step ok) s as t) :
    Run step s as t := h.mono fun _ _ _ hs ↦ hs.1

/-- **Exactness rule.**  Where, under an invariant, a step leads to a good state exactly if its
action is admissible, the runs through good states are the runs of the guarded system. -/
theorem guarded_iff {ok : σ → α → Prop} {I P : σ → Prop}
    (hok : ∀ s a t, I s → step s a t → (ok s a ↔ P t))
    (hI : ∀ s a t, I s → Guarded step ok s a t → I t) (hs : I s) :
    Run (Guarded step ok) s as t ↔ Run (fun s a t ↦ step s a t ∧ P t) s as t := by
  constructor
  · intro h
    induction h with
    | nil => exact .nil _
    | cons hst _ ih => exact .cons ⟨hst.1, (hok _ _ _ hs hst.1).mp hst.2⟩ (ih (hI _ _ _ hs hst))
  · intro h
    induction h with
    | nil => exact .nil _
    | cons hst _ ih =>
        have hg : Guarded step ok _ _ _ := ⟨hst.1, (hok _ _ _ hs hst.1).mpr hst.2⟩
        exact .cons hg (ih (hI _ _ _ hs hg))

end Run

/-! ## Systems given by a function -/

/-- Take a list of actions, if each can be taken. -/
def exec (next : σ → α → Option σ) : σ → List α → Option σ
  | s, [] => some s
  | s, a :: as => (next s a).bind fun t ↦ exec next t as

/-- What is executed is a run. -/
theorem run_of_exec {next : σ → α → Option σ} {as : List α} {s t : σ}
    (h : exec next s as = some t) : Run (fun s a t ↦ next s a = some t) s as t := by
  induction as generalizing s with
  | nil =>
      obtain rfl : s = t := Option.some.inj h
      exact .nil s
  | cons a as ih =>
      obtain ⟨u, hu, hrest⟩ := Option.bind_eq_some_iff.mp h
      exact .cons hu (ih hrest)

/-- Executing two lists, one after the other. -/
theorem exec_append {next : σ → α → Option σ} {as bs : List α} {s t : σ}
    (h : exec next s as = some t) : exec next s (as ++ bs) = exec next t bs := by
  induction as generalizing s with
  | nil =>
      obtain rfl : s = t := Option.some.inj h
      rfl
  | cons a as ih =>
      obtain ⟨u, hu, hrest⟩ := Option.bind_eq_some_iff.mp h
      rw [List.cons_append, exec, hu, Option.bind_some]
      exact ih hrest

/-- What the steps of a run leave in a log. -/
def logOf {β : Type*} (next : σ → α → Option σ) (log : σ → α → List β) : σ → List α → List β
  | _, [] => []
  | s, a :: as => log s a ++ match next s a with
      | some t => logOf next log t as
      | none => []

theorem logOf_cons {β : Type*} {next : σ → α → Option σ} (log : σ → α → List β) {s t : σ} {a : α}
    (h : next s a = some t) (as : List α) :
    logOf next log s (a :: as) = log s a ++ logOf next log t as := by
  rw [logOf, h]

/-- What is executed with admissible actions is a run of the guarded system. -/
theorem run_guarded_of_exec {next : σ → α → Option σ} {ok : σ → α → Prop}
    [∀ s a, Decidable (ok s a)] {as : List α} {s t : σ}
    (h : exec (fun s a ↦ if ok s a then next s a else none) s as = some t) :
    Run (Guarded (fun s a t ↦ next s a = some t) ok) s as t := by
  refine (run_of_exec h).mono fun s a t hs ↦ ?_
  split at hs
  · next hok => exact ⟨hs, hok⟩
  · cases hs

end Lib
