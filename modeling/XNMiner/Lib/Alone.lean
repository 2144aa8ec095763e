import XNMiner.Lib.Prog

/-!
# A program that runs alone

When nothing interferes, a program can be executed symbolically.  `Ends ok s p a t` says that
`p`, started in `s` and answered as `ok` allows, can end in `t` with the answer `a`;
`Reaches ok s p t` that it can be in `t` while it runs; `Always ok s p G` that `G` holds
wherever it can be.  Each has one equation for each constructor and one for composition.

`Keeps C f p` says that no step of `p` changes what `f` reads of the state, as long as `C`
holds, and that `C` goes on to hold.
-/

namespace Lib

namespace Prog

variable {σ Q : Type} {A : Q → Type} {α β γ : Type} {ok : ∀ q, A q → Prop} {s t : σ}

/-- The program can end in `t` with the answer `a`. -/
def Ends (ok : ∀ q, A q → Prop) (s : σ) (p : Prog σ Q A α) (a : α) (t : σ) : Prop :=
  Steps ok s p t (ret a)

/-- The program can be in `t` while it runs. -/
def Reaches (ok : ∀ q, A q → Prop) (s : σ) (p : Prog σ Q A α) (t : σ) : Prop :=
  ∃ p', Steps ok s p t p'

/-! ## One equation for each constructor -/

@[simp] theorem ends_ret {a b : α} :
    Ends ok s (ret a : Prog σ Q A α) b t ↔ b = a ∧ t = s := by
  constructor
  · intro h
    cases h with
    | refl => exact ⟨rfl, rfl⟩
    | cons hs _ => nomatch hs
  · rintro ⟨rfl, rfl⟩
    exact .refl _ _

@[simp] theorem ends_step {ready : σ → Bool} {act : σ → σ} {next : σ → Prog σ Q A α} {a : α} :
    Ends ok s (step ready act next) a t ↔ ready s = true ∧ Ends ok (act s) (next s) a t := by
  constructor
  · intro h
    cases h with
    | cons hs hrest => cases hs with | step hready => exact ⟨hready, hrest⟩
  · exact fun ⟨hready, h⟩ ↦ .cons (.step hready) h

@[simp] theorem ends_ask {q : Q} {next : A q → Prog σ Q A α} {a : α} :
    Ends ok s (ask q next) a t ↔ ∃ b, ok q b ∧ Ends ok s (next b) a t := by
  constructor
  · intro h
    cases h with
    | cons hs hrest => cases hs with | ask b hb => exact ⟨b, hb, hrest⟩
  · exact fun ⟨b, hb, h⟩ ↦ .cons (.ask b hb) h

@[simp] theorem reaches_ret {a : α} : Reaches ok s (ret a : Prog σ Q A α) t ↔ t = s := by
  constructor
  · rintro ⟨p', h⟩
    cases h with
    | refl => rfl
    | cons hs _ => nomatch hs
  · rintro rfl
    exact ⟨_, .refl _ _⟩

@[simp] theorem reaches_step {ready : σ → Bool} {act : σ → σ} {next : σ → Prog σ Q A α} :
    Reaches ok s (step ready act next) t ↔
      t = s ∨ ready s = true ∧ Reaches ok (act s) (next s) t := by
  constructor
  · rintro ⟨p', h⟩
    cases h with
    | refl => exact .inl rfl
    | cons hs hrest => cases hs with | step hready => exact .inr ⟨hready, p', hrest⟩
  · rintro (rfl | ⟨hready, p', h⟩)
    · exact ⟨_, .refl _ _⟩
    · exact ⟨p', .cons (.step hready) h⟩

@[simp] theorem reaches_ask {q : Q} {next : A q → Prog σ Q A α} :
    Reaches ok s (ask q next) t ↔ t = s ∨ ∃ b, ok q b ∧ Reaches ok s (next b) t := by
  constructor
  · rintro ⟨p', h⟩
    cases h with
    | refl => exact .inl rfl
    | cons hs hrest => cases hs with | ask b hb => exact .inr ⟨b, hb, p', hrest⟩
  · rintro (rfl | ⟨b, hb, p', h⟩)
    · exact ⟨_, .refl _ _⟩
    · exact ⟨p', .cons (.ask b hb) h⟩

theorem reaches_self {p : Prog σ Q A α} : Reaches ok s p s := ⟨p, .refl _ _⟩

/-! ## Single steps -/

@[simp] theorem ends_read {f : σ → α} {a : α} :
    Ends ok s (read f : Prog σ Q A α) a t ↔ a = f s ∧ t = s := by
  simp [read]

@[simp] theorem ends_modify {f : σ → σ} {u : Unit} :
    Ends ok s (modify f : Prog σ Q A Unit) u t ↔ t = f s := by
  simp [modify]

@[simp] theorem ends_atomically {f : σ → α × σ} {a : α} :
    Ends ok s (atomically f : Prog σ Q A α) a t ↔ a = (f s).1 ∧ t = (f s).2 := by
  simp [atomically]

@[simp] theorem ends_query {q : Q} {a : A q} :
    Ends ok s (query q : Prog σ Q A (A q)) a t ↔ ok q a ∧ t = s := by
  simp only [query, ends_ask, ends_ret]
  exact ⟨fun ⟨b, hb, hab, hts⟩ ↦ ⟨hab ▸ hb, hts⟩, fun ⟨ha, hts⟩ ↦ ⟨a, ha, rfl, hts⟩⟩

theorem ends_ite {c : Prop} [Decidable c] {p q : Prog σ Q A α} {a : α} :
    Ends ok s (if c then p else q) a t ↔ if c then Ends ok s p a t else Ends ok s q a t := by
  split <;> rfl

/-! ## Composition -/

/-- A composition ends where its second part ends. -/
theorem ends_bind {p : Prog σ Q A α} {k : α → Prog σ Q A β} {b : β} :
    Ends ok s (p >>= k) b t ↔ ∃ a u, Ends ok s p a u ∧ Ends ok u (k a) b t := by
  induction p generalizing s with
  | ret a =>
      simp only [ret_bind, ends_ret]
      exact ⟨fun h ↦ ⟨a, s, ⟨rfl, rfl⟩, h⟩, fun ⟨_, _, ⟨ha, hu⟩, h⟩ ↦ ha ▸ hu ▸ h⟩
  | step ready act next ih =>
      change Ends ok s (step ready act fun s ↦ (next s >>= k)) b t ↔ _
      simp only [ends_step, ih, and_assoc, exists_and_left]
  | ask q next ih =>
      change Ends ok s (ask q fun a ↦ (next a >>= k)) b t ↔ _
      simp only [ends_ask, ih]
      constructor
      · rintro ⟨c, hc, a, u, hp, hk⟩
        exact ⟨a, u, ⟨c, hc, hp⟩, hk⟩
      · rintro ⟨a, u, ⟨c, hc, hp⟩, hk⟩
        exact ⟨c, hc, a, u, hp, hk⟩

/-- A composition is in its first part, or in its second. -/
theorem reaches_bind {p : Prog σ Q A α} {k : α → Prog σ Q A β} :
    Reaches ok s (p >>= k) t ↔
      Reaches ok s p t ∨ ∃ a u, Ends ok s p a u ∧ Reaches ok u (k a) t := by
  induction p generalizing s with
  | ret a =>
      simp only [ret_bind, reaches_ret, ends_ret]
      constructor
      · exact fun h ↦ .inr ⟨a, s, ⟨rfl, rfl⟩, h⟩
      · rintro (rfl | ⟨_, _, ⟨rfl, rfl⟩, h⟩)
        · exact reaches_self
        · exact h
  | step ready act next ih =>
      change Reaches ok s (step ready act fun s ↦ (next s >>= k)) t ↔ _
      simp only [reaches_step, ends_step, ih, and_assoc, exists_and_left, and_or_left, or_assoc]
  | ask q next ih =>
      change Reaches ok s (ask q fun a ↦ (next a >>= k)) t ↔ _
      simp only [reaches_ask, ends_ask, ih]
      constructor
      · rintro (rfl | ⟨c, hc, h | ⟨a, u, hp, hk⟩⟩)
        · exact .inl (.inl rfl)
        · exact .inl (.inr ⟨c, hc, h⟩)
        · exact .inr ⟨a, u, ⟨c, hc, hp⟩, hk⟩
      · rintro ((rfl | ⟨c, hc, h⟩) | ⟨a, u, ⟨c, hc, hp⟩, hk⟩)
        · exact .inl rfl
        · exact .inr ⟨c, hc, .inl h⟩
        · exact .inr ⟨c, hc, .inr ⟨a, u, hp, hk⟩⟩

/-- Where a program ends it has been. -/
theorem Ends.reaches {p : Prog σ Q A α} {a : α} (h : Ends ok s p a t) : Reaches ok s p t :=
  ⟨_, h⟩

/-! ## Execution -/

/-- Run a program for at most `fuel` steps, answering each question by `answer`. -/
def drive (answer : ∀ q, A q) : Nat → σ → Prog σ Q A α → Option (α × σ)
  | 0, _, _ => none
  | _ + 1, s, ret a => some (a, s)
  | fuel + 1, s, step ready act next =>
      if ready s then drive answer fuel (act s) (next s) else none
  | fuel + 1, s, ask q next => drive answer fuel s (next (answer q))

/-- Where an execution ends the program can end. -/
theorem ends_of_drive {answer : ∀ q, A q} (hok : ∀ q, ok q (answer q)) {fuel : Nat}
    {p : Prog σ Q A α} {a : α} (h : drive answer fuel s p = some (a, t)) : Ends ok s p a t := by
  induction fuel generalizing s p with
  | zero => simp [drive] at h
  | succ fuel ih =>
      cases p with
      | ret b =>
          obtain ⟨rfl, rfl⟩ : b = a ∧ s = t := by simpa [drive] using h
          exact ends_ret.mpr ⟨rfl, rfl⟩
      | step ready act next =>
          simp only [drive] at h
          split at h
          · next hready => exact ends_step.mpr ⟨hready, ih h⟩
          · cases h
      | ask q next => exact ends_ask.mpr ⟨answer q, hok q, ih h⟩

/-! ## What holds throughout -/

/-- `G` holds wherever the program can be. -/
def Always (ok : ∀ q, A q → Prop) (s : σ) (p : Prog σ Q A α) (G : σ → Prop) : Prop :=
  ∀ t, Reaches ok s p t → G t

variable {G : σ → Prop}

theorem always_ret {a : α} : Always ok s (ret a : Prog σ Q A α) G ↔ G s := by
  simp [Always]

theorem always_step {ready : σ → Bool} {act : σ → σ} {next : σ → Prog σ Q A α} :
    Always ok s (step ready act next) G ↔
      G s ∧ (ready s = true → Always ok (act s) (next s) G) := by
  simp only [Always, reaches_step]
  constructor
  · exact fun h ↦ ⟨h s (.inl rfl), fun hr t ht ↦ h t (.inr ⟨hr, ht⟩)⟩
  · rintro ⟨hs, h⟩ t (rfl | ⟨hr, ht⟩)
    · exact hs
    · exact h hr t ht

theorem always_ask {q : Q} {next : A q → Prog σ Q A α} :
    Always ok s (ask q next) G ↔ G s ∧ ∀ a, ok q a → Always ok s (next a) G := by
  simp only [Always, reaches_ask]
  constructor
  · exact fun h ↦ ⟨h s (.inl rfl), fun a ha t ht ↦ h t (.inr ⟨a, ha, ht⟩)⟩
  · rintro ⟨hs, h⟩ t (rfl | ⟨a, ha, ht⟩)
    · exact hs
    · exact h a ha t ht

/-- What holds throughout a composition. -/
theorem always_bind {p : Prog σ Q A α} {k : α → Prog σ Q A β} :
    Always ok s (p >>= k) G ↔
      Always ok s p G ∧ ∀ a u, Ends ok s p a u → Always ok u (k a) G := by
  simp only [Always, reaches_bind]
  constructor
  · exact fun h ↦ ⟨fun t ht ↦ h t (.inl ht), fun a u hu t ht ↦ h t (.inr ⟨a, u, hu, ht⟩)⟩
  · rintro ⟨hp, hk⟩ t (ht | ⟨a, u, hu, ht⟩)
    · exact hp t ht
    · exact hk a u hu t ht

/-! ## Frames -/

/-- While `C` holds, no step of the program changes what `f` reads, and `C` goes on to hold. -/
abbrev Keeps (C : σ → Prop) (f : σ → γ) (p : Prog σ Q A α) : Prop :=
  Does (fun _ _ ↦ True) C (fun s t ↦ C t ∧ f t = f s) p

variable {C : σ → Prop} {f : σ → γ}

/-- A program leaves alone what it keeps. -/
theorem Keeps.of_reaches {p : Prog σ Q A α} (hp : Keeps C f p) (hs : C s)
    (h : Reaches ok s p t) : C t ∧ f t = f s := by
  obtain ⟨p', h⟩ := h
  induction h with
  | refl => exact ⟨hs, rfl⟩
  | cons hstep _ ih =>
      cases hstep with
      | step _ =>
          obtain ⟨⟨hC, hf⟩, hnext⟩ := hp _ hs
          exact ⟨(ih hnext hC).1, (ih hnext hC).2.trans hf⟩
      | ask a _ => exact ih (hp a trivial) hs

/-- What follows from what a program keeps holds throughout. -/
theorem Keeps.always {p : Prog σ Q A α} (hp : Keeps C f p) (hs : C s)
    (h : ∀ u, C u → f u = f s → G u) : Always ok s p G := fun u hu ↦
  h u (hp.of_reaches hs hu).1 (hp.of_reaches hs hu).2

end Prog

/-! ## A round of a pool -/

namespace Pool

open Prog

variable {σ Q : Type} {A : Q → Type} {ι : Type} [DecidableEq ι] {ok : ∀ q, A q → Prop}
  {body prog : ι → Prog σ Q A Bool} {i : ι} {s t : σ} {again : Bool}

/-- A thread between two rounds may take a whole round alone. -/
theorem run_round (hidle : prog i = .ret true) (h : Ends ok s (body i) again t) :
    ∃ is, Run (Pool.Step ok body) ⟨s, prog⟩ is ⟨t, Function.update prog i (.ret again)⟩ := by
  have hprog : Function.update prog i (body i) i = body i := Function.update_self ..
  obtain ⟨is, hr⟩ := Pool.run_of_steps hprog h
  rw [Function.update_idem] at hr
  exact ⟨i :: is, .cons (.loop hidle) hr⟩

/-- The last step of such a round. -/
theorem run_round_last (hidle : prog i = .ret true) (h : Ends ok s (body i) again t)
    (hbody : body i ≠ .ret again) :
    ∃ is c, Run (Pool.Step ok body) ⟨s, prog⟩ is c ∧
      Pool.Step ok body c i ⟨t, Function.update prog i (.ret again)⟩ := by
  rcases h.last with ⟨-, hret⟩ | ⟨u, q, hsteps, hlast⟩
  · exact absurd hret hbody
  · have hprog : Function.update prog i (body i) i = body i := Function.update_self ..
    obtain ⟨is, hr⟩ := Pool.run_of_steps hprog hsteps
    rw [Function.update_idem] at hr
    refine ⟨i :: is, _, .cons (.loop hidle) hr, ?_⟩
    have hstep : Pool.Step ok body ⟨u, Function.update prog i q⟩ i
        ⟨t, Function.update (Function.update prog i q) i (.ret again)⟩ :=
      .move (by simpa using hlast)
    rwa [Function.update_idem] at hstep

end Pool

end Lib
