import XNMiner.Lib.Lts
import Mathlib.Data.Multiset.AddSub

/-!
# Custody

Tokens are handed from place to place.  A custody says what each place holds; three kinds of
events change it: tokens pass from one place to another, tokens are lost, and new tokens are
found.  A program that moves data between buffers refines such a system, and two rules then
speak about all its runs:

* `Custody.run_holds`: what is true of tokens when they are found, and stays true when they
  pass, is true of every token that is held;
* `Custody.run_once`: a token that is in exactly one place stays in exactly one, unless it is
  lost or found again.
-/

namespace Lib

namespace Custody

variable {P T : Type*}

/-- What can happen to tokens. -/
inductive Event (P T : Type*)
  | pass (p q : P) (ts : Multiset T)
  | lose (lost : P → Multiset T)
  | find (p : P) (ts : Multiset T)

/-- What an event does to a custody. -/
inductive Step : (P → Multiset T) → Event P T → (P → Multiset T) → Prop
  | pass {c c' : P → Multiset T} {p q : P} {ts : Multiset T} :
      p ≠ q → c p = ts + c' p → c' q = c q + ts → (∀ r, r ≠ p → r ≠ q → c' r = c r) →
      Step c (.pass p q ts) c'
  | lose {c c' lost : P → Multiset T} :
      (∀ r, c r = lost r + c' r) → Step c (.lose lost) c'
  | find {c c' : P → Multiset T} {p : P} {ts : Multiset T} :
      c' p = c p + ts → (∀ r, r ≠ p → c' r = c r) → Step c (.find p ts) c'

section Update

variable [DecidableEq P] {c : P → Multiset T} {p q : P} {ts rest : Multiset T}

theorem pass_update (hne : p ≠ q) (hp : c p = ts + rest) :
    Step c (.pass p q ts) (Function.update (Function.update c p rest) q (c q + ts)) := by
  refine .pass hne ?_ (Function.update_self ..) fun r hrp hrq ↦ ?_
  · rw [Function.update_of_ne hne, Function.update_self, hp]
  · rw [Function.update_of_ne hrq, Function.update_of_ne hrp]

theorem lose_update (hp : c p = ts + rest) :
    Step c (.lose (Function.update (fun _ ↦ 0) p ts)) (Function.update c p rest) := by
  refine .lose fun r ↦ ?_
  by_cases hr : r = p
  · subst hr
    rw [Function.update_self, Function.update_self, hp]
  · rw [Function.update_of_ne hr, Function.update_of_ne hr, Multiset.zero_add]

end Update

/-! ## Where a token goes -/

section Mem

variable {c c' lost : P → Multiset T} {p q r : P} {ts : Multiset T} {t : T}

/-- A token passes on, or stays. -/
theorem mem_of_pass (hs : Step c (.pass p q ts) c') (ht : t ∈ c r) :
    t ∈ c' r ∨ r = p ∧ t ∈ c' q := by
  cases hs with
  | pass hne hp hq hrest =>
      by_cases hrp : r = p
      · subst hrp
        rcases Multiset.mem_add.mp (hp ▸ ht) with ht | ht
        · exact .inr ⟨rfl, hq ▸ Multiset.mem_add.mpr (.inr ht)⟩
        · exact .inl ht
      by_cases hrq : r = q
      · subst hrq
        exact .inl (hq ▸ Multiset.mem_add.mpr (.inl ht))
      · exact .inl (hrest r hrp hrq ▸ ht)

end Mem

/-- The event finds the token. -/
def Event.Finds : Event P T → T → Prop
  | .find _ ts, t => t ∈ ts
  | _, _ => False

/-- The event loses the token. -/
def Event.Loses : Event P T → T → Prop
  | .lose lost, t => ∃ p, t ∈ lost p
  | _, _ => False

/-! ## What is true of every token -/

/-- `φ` is true of what is found, and stays true of what passes. -/
def Event.Keeps (φ : P → T → Prop) : Event P T → Prop
  | .pass p q ts => ∀ t ∈ ts, φ p t → φ q t
  | .lose _ => True
  | .find p ts => ∀ t ∈ ts, φ p t

variable {φ : P → T → Prop} {c c' : P → Multiset T}

theorem step_holds {e : Event P T} (hs : Step c e c') (he : e.Keeps φ)
    (h : ∀ p, ∀ t ∈ c p, φ p t) : ∀ p, ∀ t ∈ c' p, φ p t := by
  intro r t ht
  cases hs with
  | @pass _ p q ts hne hp hq hrest =>
      by_cases hrp : r = p
      · subst hrp
        exact h r t (hp ▸ Multiset.mem_add.mpr (.inr ht))
      by_cases hrq : r = q
      · subst hrq
        rcases Multiset.mem_add.mp (hq ▸ ht) with ht | ht
        · exact h r t ht
        · exact he t ht (h p t (hp ▸ Multiset.mem_add.mpr (.inl ht)))
      · exact h r t (hrest r hrp hrq ▸ ht)
  | lose hlost => exact h r t (hlost r ▸ Multiset.mem_add.mpr (.inr ht))
  | @find _ p ts hp hrest =>
      by_cases hrp : r = p
      · subst hrp
        rcases Multiset.mem_add.mp (hp ▸ ht) with ht | ht
        · exact h r t ht
        · exact he t ht
      · exact h r t (hrest r hrp ▸ ht)

/-- **What holds of every token**, over a run. -/
theorem run_holds {es : List (Event P T)} (hr : Run Step c es c') (he : ∀ e ∈ es, e.Keeps φ)
    (h : ∀ p, ∀ t ∈ c p, φ p t) : ∀ p, ∀ t ∈ c' p, φ p t := by
  induction hr with
  | nil => exact h
  | cons hs _ ih =>
      exact ih (fun e hm ↦ he e (List.mem_cons_of_mem _ hm))
        (step_holds hs (he _ List.mem_cons_self) h)

/-! ## Tokens that are in one place -/

variable [DecidableEq T] {t : T}

/-- The token is in exactly one place, and there only once. -/
def Once (c : P → Multiset T) (t : T) : Prop :=
  ∃ p, (c p).count t = 1 ∧ ∀ q, q ≠ p → t ∉ c q

/-- A token that is in one place only, and where that place is known. -/
theorem Once.count_eq {p : P} (h : Once c t) (hp : ∀ q, q ≠ p → t ∉ c q) : (c p).count t = 1 := by
  obtain ⟨r, hr, -⟩ := h
  by_cases hrp : r = p
  · exact hrp ▸ hr
  · exact absurd (Multiset.count_pos.mp (by omega)) (hp r hrp)

theorem step_once {e : Event P T} (hs : Step c e c') (hfind : ¬ e.Finds t) (hlose : ¬ e.Loses t)
    (h : Once c t) : Once c' t := by
  obtain ⟨r, hr, hrest⟩ := h
  cases hs with
  | @pass _ p q ts hne hp hq hframe =>
      have hcount : (c p).count t = ts.count t + (c' p).count t := by rw [hp, Multiset.count_add]
      have hcount' : (c' q).count t = (c q).count t + ts.count t := by rw [hq, Multiset.count_add]
      by_cases hmem : t ∈ ts
      · -- it passes from `p` to `q`
        have hcp : t ∈ c p := hp ▸ Multiset.mem_add.mpr (.inl hmem)
        obtain rfl : p = r := by
          by_contra hpr
          exact hrest p hpr hcp
        have hcq : (c q).count t = 0 := Multiset.count_eq_zero.mpr (hrest q hne.symm)
        have hpos : 0 < ts.count t := Multiset.count_pos.mpr hmem
        refine ⟨q, by omega, fun x hx hxt ↦ ?_⟩
        by_cases hxp : x = p
        · subst hxp
          exact absurd (Multiset.count_pos.mpr hxt) (by omega)
        · exact hrest x hxp (hframe x hxp hx ▸ hxt)
      · -- it stays where it is
        have hzero : ts.count t = 0 := Multiset.count_eq_zero.mpr hmem
        have hsame : ∀ x, (c' x).count t = (c x).count t := fun x ↦ by
          by_cases hxp : x = p
          · subst hxp
            omega
          by_cases hxq : x = q
          · subst hxq
            omega
          · rw [hframe x hxp hxq]
        refine ⟨r, (hsame r).trans hr, fun x hx hxt ↦ hrest x hx ?_⟩
        exact Multiset.count_pos.mp (hsame x ▸ Multiset.count_pos.mpr hxt)
  | @lose _ lost hlost =>
      have hsame : ∀ x, (c' x).count t = (c x).count t := fun x ↦ by
        have hzero : (lost x).count t = 0 :=
          Multiset.count_eq_zero.mpr fun hx ↦ hlose ⟨x, hx⟩
        rw [hlost x, Multiset.count_add, hzero, Nat.zero_add]
      refine ⟨r, (hsame r).trans hr, fun x hx hxt ↦ hrest x hx ?_⟩
      exact Multiset.count_pos.mp (hsame x ▸ Multiset.count_pos.mpr hxt)
  | @find _ p ts hp hframe =>
      have hsame : ∀ x, (c' x).count t = (c x).count t := fun x ↦ by
        by_cases hxp : x = p
        · subst hxp
          have hzero : ts.count t = 0 := Multiset.count_eq_zero.mpr hfind
          rw [hp, Multiset.count_add, hzero, Nat.add_zero]
        · rw [hframe x hxp]
      refine ⟨r, (hsame r).trans hr, fun x hx hxt ↦ hrest x hx ?_⟩
      exact Multiset.count_pos.mp (hsame x ▸ Multiset.count_pos.mpr hxt)

/-- **A token stays in exactly one place**, over a run that neither finds it again nor loses
it. -/
theorem run_once {es : List (Event P T)} (hr : Run Step c es c')
    (hfind : ∀ e ∈ es, ¬ e.Finds t) (hlose : ∀ e ∈ es, ¬ e.Loses t) (h : Once c t) :
    Once c' t := by
  induction hr with
  | nil => exact h
  | cons hs _ ih =>
      exact ih (fun e hm ↦ hfind e (List.mem_cons_of_mem _ hm))
        (fun e hm ↦ hlose e (List.mem_cons_of_mem _ hm))
        (step_once hs (hfind _ List.mem_cons_self) (hlose _ List.mem_cons_self) h)

/-- A new token is in exactly one place. -/
theorem once_of_find {p : P} {ts : Multiset T} (hs : Step c (.find p ts) c')
    (hnew : ∀ q, t ∉ c q) (hts : ts.count t = 1) : Once c' t := by
  cases hs with
  | find hp hframe =>
      refine ⟨p, ?_, fun q hq ht ↦ hnew q (hframe q hq ▸ ht)⟩
      rw [hp, Multiset.count_add, Multiset.count_eq_zero.mpr (hnew p), hts]

end Custody

end Lib
