import XNMiner.Lib.Lts
import Mathlib.Logic.Function.Basic

/-!
# Programs that share a state

`Prog σ Q A α` is a program that answers an `α`.  It runs over a shared state `σ` in atomic
steps, and puts questions to its environment: a clock, a user, a server, a scheduler.  A
question `q : Q` is answered by any value of `A q`.  A program is a finite tree; a thread that
loops for ever repeats one program (`Pool`).

Two semantics are given: a program alone (`Steps`), and a pool of threads that interleave at
every step (`Pool.Step`).  For pools there is a rely-guarantee logic.  A `Protocol` fixes an
invariant of the state and, for each thread, what it may rely on the others for; `wp` is the
weakest precondition of a program of one thread under that interference, and `Protocol.sound`
says that programs which meet their specifications one by one keep the invariant together.
-/

namespace Lib

/-- A program over the shared state `σ` that asks questions `Q`, answered in `A`. -/
inductive Prog (σ : Type) (Q : Type) (A : Q → Type) (α : Type) : Type
  | /-- The program is over. -/
    ret (a : α)
  | /-- Wait until the state is `ready`, change it, and go on knowing what it was. -/
    step (ready : σ → Bool) (act : σ → σ) (next : σ → Prog σ Q A α)
  | /-- Put a question and go on with the answer. -/
    ask (q : Q) (next : A q → Prog σ Q A α)

namespace Prog

variable {σ Q : Type} {A : Q → Type} {α β γ : Type}

/-- Sequential composition. -/
def bind : Prog σ Q A α → (α → Prog σ Q A β) → Prog σ Q A β
  | ret a, k => k a
  | step ready act next, k => step ready act fun s ↦ (next s).bind k
  | ask q next, k => ask q fun a ↦ (next a).bind k

instance : Monad (Prog σ Q A) where
  pure := ret
  bind := bind

/-- One atomic change of the state, with an answer. -/
def atomically (f : σ → α × σ) : Prog σ Q A α :=
  step (fun _ ↦ true) (fun s ↦ (f s).2) fun s ↦ ret (f s).1

/-- One atomic read. -/
def read (f : σ → α) : Prog σ Q A α := step (fun _ ↦ true) id fun s ↦ ret (f s)

/-- One atomic write. -/
def modify (f : σ → σ) : Prog σ Q A Unit := step (fun _ ↦ true) f fun _ ↦ ret ()

/-- Wait for a condition. -/
def await (ready : σ → Bool) : Prog σ Q A Unit := step ready id fun _ ↦ ret ()

/-- One question. -/
def query (q : Q) : Prog σ Q A (A q) := ask q ret

@[simp] theorem pure_eq (a : α) : (pure a : Prog σ Q A α) = ret a := rfl

@[simp] theorem ret_bind (a : α) (k : α → Prog σ Q A β) : (ret a >>= k) = k a := rfl

@[simp] theorem atomically_bind (f : σ → α × σ) (k : α → Prog σ Q A β) :
    (atomically f >>= k) = step (fun _ ↦ true) (fun s ↦ (f s).2) fun s ↦ k (f s).1 := rfl

@[simp] theorem read_bind (f : σ → α) (k : α → Prog σ Q A β) :
    (read f >>= k) = step (fun _ ↦ true) id fun s ↦ k (f s) := rfl

@[simp] theorem modify_bind (f : σ → σ) (k : Unit → Prog σ Q A β) :
    (modify f >>= k) = step (fun _ ↦ true) f fun _ ↦ k () := rfl

@[simp] theorem await_bind (ready : σ → Bool) (k : Unit → Prog σ Q A β) :
    (await ready >>= k) = step ready id fun _ ↦ k () := rfl

@[simp] theorem query_bind (q : Q) (k : A q → Prog σ Q A β) : (query q >>= k) = ask q k := rfl

theorem bind_assoc (p : Prog σ Q A α) (k : α → Prog σ Q A β) (l : β → Prog σ Q A γ) :
    ((p >>= k) >>= l) = (p >>= fun a ↦ k a >>= l) := by
  change (p.bind k).bind l = p.bind fun a ↦ (k a).bind l
  induction p with
  | ret a => rfl
  | step ready act next ih => simp only [bind, ih]
  | ask q next ih => simp only [bind, ih]

/-! ## Side by side -/

/-- Run a second program next to one whose moves are known: `left q` is what the first does
next, with `q` still to do for the second. -/
def interleaveWith (turn : Q) (first : A turn → Bool)
    (left : Prog σ Q A Unit → Prog σ Q A Unit) : Prog σ Q A Unit → Prog σ Q A Unit
  | ret a => left (ret a)
  | step ready act next => ask turn fun t ↦
      if first t then left (step ready act next)
      else step ready act fun s ↦ interleaveWith turn first left (next s)
  | ask q next => ask turn fun t ↦
      if first t then left (ask q next)
      else ask q fun a ↦ interleaveWith turn first left (next a)

/-- Two programs side by side: as long as both have something to do, the environment says which
of them moves. -/
def interleave (turn : Q) (first : A turn → Bool) :
    Prog σ Q A Unit → Prog σ Q A Unit → Prog σ Q A Unit
  | ret _ => id
  | step ready act next =>
      interleaveWith turn first fun q ↦ step ready act fun s ↦ interleave turn first (next s) q
  | ask q next =>
      interleaveWith turn first fun r ↦ ask q fun a ↦ interleave turn first (next a) r

/-- A crew of programs side by side. -/
def interleaveAll (turn : Q) (first : A turn → Bool) :
    List (Prog σ Q A Unit) → Prog σ Q A Unit
  | [] => ret ()
  | p :: rest => interleave turn first p (interleaveAll turn first rest)

/-! ## What every step does -/

/-- Every step of the program that starts where `I` holds is in `R`, as long as the environment
answers as `ok` allows.  This is a fact about the text of the program. -/
def Does (ok : ∀ q, A q → Prop) (I : σ → Prop) (R : σ → σ → Prop) : Prog σ Q A α → Prop
  | ret _ => True
  | step _ act next => ∀ s, I s → R s (act s) ∧ Does ok I R (next s)
  | ask q next => ∀ a, ok q a → Does ok I R (next a)

section Does

variable {ok : ∀ q, A q → Prop} {I : σ → Prop} {R : σ → σ → Prop}

theorem does_bind {p : Prog σ Q A α} {k : α → Prog σ Q A β} (hp : Does ok I R p)
    (hk : ∀ a, Does ok I R (k a)) : Does ok I R (p >>= k) := by
  induction p with
  | ret a => exact hk a
  | step ready act next ih => exact fun s hs ↦ ⟨(hp s hs).1, ih s (hp s hs).2⟩
  | ask q next ih => exact fun a ha ↦ ih a (hp a ha)

theorem does_ite {c : Prop} [Decidable c] {p q : Prog σ Q A α} (hp : c → Does ok I R p)
    (hq : ¬ c → Does ok I R q) : Does ok I R (if c then p else q) := by
  split
  · next h => exact hp h
  · next h => exact hq h

/-- A program that does something does what follows from it. -/
theorem does_mono {ok' : ∀ q, A q → Prop} {I' : σ → Prop} {R' : σ → σ → Prop} {p : Prog σ Q A α}
    (hp : Does ok I R p) (h : ∀ s t, I' s → R s t → R' s t)
    (hok : ∀ q a, ok' q a → ok q a) (hI : ∀ s, I' s → I s) : Does ok' I' R' p := by
  induction p with
  | ret a => trivial
  | step ready act next ih =>
      exact fun s hs ↦ ⟨h _ _ hs (hp s (hI s hs)).1, ih s (hp s (hI s hs)).2⟩
  | ask q next ih => exact fun a ha ↦ ih a (hp a (hok q a ha))

variable {turn : Q} {first : A turn → Bool}

theorem does_interleaveWith {left : Prog σ Q A Unit → Prog σ Q A Unit} {q : Prog σ Q A Unit}
    (hleft : ∀ q, Does ok I R q → Does ok I R (left q)) (hq : Does ok I R q) :
    Does ok I R (interleaveWith turn first left q) := by
  induction q with
  | ret a => exact hleft _ hq
  | step ready act next ih =>
      exact fun t _ ↦ does_ite (fun _ ↦ hleft _ hq) fun _ s hs ↦ ⟨(hq s hs).1, ih s (hq s hs).2⟩
  | ask r next ih =>
      exact fun t _ ↦ does_ite (fun _ ↦ hleft _ hq) fun _ a ha ↦ ih a (hq a ha)

theorem does_interleave {p q : Prog σ Q A Unit} (hp : Does ok I R p) (hq : Does ok I R q) :
    Does ok I R (interleave turn first p q) := by
  induction p generalizing q with
  | ret a => exact hq
  | step ready act next ih =>
      exact does_interleaveWith (fun q hq s hs ↦ ⟨(hp s hs).1, ih s (hp s hs).2 hq⟩) hq
  | ask r next ih => exact does_interleaveWith (fun q hq a ha ↦ ih a (hp a ha) hq) hq

/-- A crew does what each of its members does. -/
theorem does_interleaveAll {ps : List (Prog σ Q A Unit)} (h : ∀ p ∈ ps, Does ok I R p) :
    Does ok I R (interleaveAll turn first ps) := by
  induction ps with
  | nil => trivial
  | cons p rest ih =>
      exact does_interleave (h p List.mem_cons_self) (ih fun q hq ↦ h q (List.mem_cons_of_mem _ hq))

end Does

/-! ## A program alone -/

/-- One step of a program, where the environment answers as `ok` allows. -/
inductive Step (ok : ∀ q, A q → Prop) : σ → Prog σ Q A α → σ → Prog σ Q A α → Prop
  | step {s : σ} {ready : σ → Bool} {act : σ → σ} {next : σ → Prog σ Q A α} :
      ready s = true → Step ok s (step ready act next) (act s) (next s)
  | ask {s : σ} {q : Q} {next : A q → Prog σ Q A α} (a : A q) :
      ok q a → Step ok s (ask q next) s (next a)

/-- Finitely many steps of a program. -/
inductive Steps (ok : ∀ q, A q → Prop) : σ → Prog σ Q A α → σ → Prog σ Q A α → Prop
  | refl (s : σ) (p : Prog σ Q A α) : Steps ok s p s p
  | cons {s s' s'' : σ} {p p' p'' : Prog σ Q A α} :
      Step ok s p s' p' → Steps ok s' p' s'' p'' → Steps ok s p s'' p''

/-- The last of a sequence of steps. -/
theorem Steps.last {ok : ∀ q, A q → Prop} {s t : σ} {p p' : Prog σ Q A α}
    (h : Steps ok s p t p') :
    (s = t ∧ p = p') ∨ ∃ u q, Steps ok s p u q ∧ Step ok u q t p' := by
  induction h with
  | refl s p => exact .inl ⟨rfl, rfl⟩
  | @cons s s' _ p q _ hstep _ ih =>
      rcases ih with ⟨rfl, rfl⟩ | ⟨u, r, hsteps, hlast⟩
      · exact .inr ⟨s, p, .refl s p, hstep⟩
      · exact .inr ⟨u, r, .cons hstep hsteps, hlast⟩

/-! ## How a program ends -/

/-- The program is not over, and the step with which it ends changes the state as `F` says. -/
def EndsBy (F : (σ → σ) → Prop) : Prog σ Q A α → Prop
  | ret _ => False
  | step _ act next => ∀ s, (∃ a, next s = ret a) ∧ F act ∨ EndsBy F (next s)
  | ask _ next => ∀ a, EndsBy F (next a)

variable {F : (σ → σ) → Prop}

/-- A composition ends as its second part does. -/
theorem endsBy_bind {p : Prog σ Q A α} {k : α → Prog σ Q A β} (hk : ∀ a, EndsBy F (k a)) :
    EndsBy F (p >>= k) := by
  induction p with
  | ret a => exact hk a
  | step ready act next ih => exact fun s ↦ .inr (ih s)
  | ask q next ih => exact fun a ↦ ih a

theorem endsBy_modify {f : σ → σ} {a : α} (hf : F f) :
    EndsBy F ((modify f : Prog σ Q A Unit) >>= fun _ ↦ ret a) := fun _ ↦ .inl ⟨⟨a, rfl⟩, hf⟩

/-- A step either leaves something to do, or was the last. -/
theorem EndsBy.of_step {ok : ∀ q, A q → Prop} {s s' : σ} {p p' : Prog σ Q A α}
    (h : EndsBy F p) (hs : Step ok s p s' p') :
    EndsBy F p' ∨ (∃ a, p' = ret a) ∧ ∃ act, F act ∧ s' = act s := by
  cases hs with
  | step _ =>
      rcases h s with ⟨hret, hact⟩ | hnext
      · exact .inr ⟨hret, _, hact, rfl⟩
      · exact .inl hnext
  | ask a _ => exact .inl (h a)

end Prog

/-! ## What threads agree on -/

variable {σ Q : Type} {A : Q → Type} {ι : Type} {α β : Type}

/-- What the threads of a pool agree on: an invariant, what the environment may answer, and for
each thread a relation that the other threads keep to. -/
structure Protocol (ι σ : Type) (Q : Type) (A : Q → Type) where
  inv : σ → Prop
  answers : ∀ q, A q → Prop
  rely : ι → σ → σ → Prop
  rely_refl : ∀ i s, rely i s s
  rely_trans : ∀ i {s t u}, rely i s t → rely i t u → rely i s u

namespace Protocol

/-- What thread `i` must guarantee of its steps. -/
def Guar (P : Protocol ι σ Q A) (i : ι) (s s' : σ) : Prop :=
  P.inv s' ∧ ∀ j, j ≠ i → P.rely j s s'

/-- The weakest precondition of a program of thread `i`, under the interference it relies on. -/
def wp (P : Protocol ι σ Q A) (i : ι) : Prog σ Q A α → (α → σ → Prop) → σ → Prop
  | .ret a, post, s => ∀ s', P.rely i s s' → P.inv s' → post a s'
  | .step ready act next, post, s => ∀ s', P.rely i s s' → P.inv s' → ready s' = true →
      P.Guar i s' (act s') ∧ wp P i (next s') post (act s')
  | .ask q next, post, s => ∀ a, P.answers q a → wp P i (next a) post s

variable {P : Protocol ι σ Q A} {i : ι} {p : Prog σ Q A α} {post : α → σ → Prop} {s s' : σ}

/-- Interference does not invalidate a weakest precondition. -/
theorem wp_stable (h : P.wp i p post s) (hr : P.rely i s s') : P.wp i p post s' := by
  induction p with
  | ret a => exact fun t ht ↦ h t (P.rely_trans i hr ht)
  | step ready act next _ => exact fun t ht ↦ h t (P.rely_trans i hr ht)
  | ask q next ih => exact fun a ha ↦ ih a (h a ha)

/-- Consequence. -/
theorem wp_mono {post' : α → σ → Prop} (h : P.wp i p post s)
    (hpost : ∀ a t, P.inv t → post a t → post' a t) : P.wp i p post' s := by
  induction p generalizing s with
  | ret a => exact fun t ht hinv ↦ hpost a t hinv (h t ht hinv)
  | step ready act next ih =>
      exact fun t ht hinv hready ↦ ⟨(h t ht hinv hready).1, ih t (h t ht hinv hready).2⟩
  | ask q next ih => exact fun a ha ↦ ih a (h a ha)

/-- Composition. -/
theorem wp_bind {k : α → Prog σ Q A β} {post : β → σ → Prop} (hinv : P.inv s)
    (h : P.wp i p (fun a t ↦ P.wp i (k a) post t) s) : P.wp i (p >>= k) post s := by
  change P.wp i (p.bind k) post s
  induction p generalizing s with
  | ret a => exact h s (P.rely_refl i s) hinv
  | step ready act next ih =>
      intro t ht hinv' hready
      obtain ⟨hg, hn⟩ := h t ht hinv' hready
      exact ⟨hg, ih t hg.1 hn⟩
  | ask q next ih => exact fun a ha ↦ ih a hinv (h a ha)

/-- A step of a program whose weakest precondition holds keeps to what the other threads rely
on, and leaves the weakest precondition of the rest. -/
theorem wp_step {p' : Prog σ Q A α} (hinv : P.inv s) (hwp : P.wp i p post s)
    (hs : Prog.Step P.answers s p s' p') :
    P.Guar i s s' ∧ P.wp i p' post s' := by
  cases hs with
  | step hready => exact hwp s (P.rely_refl i s) hinv hready
  | ask a ha => exact ⟨⟨hinv, fun j _ ↦ P.rely_refl j s⟩, hwp a ha⟩

/-! ### Specifications

`G` is an assertion that interference does not invalidate: a *stable* one.  A specification
`Triple P i G p post` starts with such a `G`. -/

/-- Thread `i` may go on assuming `G` while the others move. -/
def Stable (P : Protocol ι σ Q A) (i : ι) (G : σ → Prop) : Prop :=
  ∀ s s', P.rely i s s' → P.inv s' → G s → G s'

/-- Started in a state with `pre`, thread `i` keeps to the protocol and reaches `post`. -/
def Triple (P : Protocol ι σ Q A) (i : ι) (pre : σ → Prop) (p : Prog σ Q A α)
    (post : α → σ → Prop) : Prop :=
  ∀ s, P.inv s → pre s → P.wp i p post s

variable {G pre : σ → Prop}

theorem Stable.and {G' : σ → Prop} (h : P.Stable i G) (h' : P.Stable i G') :
    P.Stable i fun s ↦ G s ∧ G' s :=
  fun s s' hr hinv hG ↦ ⟨h s s' hr hinv hG.1, h' s s' hr hinv hG.2⟩

theorem Stable.const {c : Prop} : P.Stable i fun _ ↦ c := fun _ _ _ _ h ↦ h

theorem triple_ret {a : α} {G : σ → Prop} (hG : P.Stable i G) (h : ∀ s, P.inv s → G s → post a s) :
    P.Triple i G (.ret a : Prog σ Q A α) post :=
  fun s _ hs t ht hinv ↦ h t hinv (hG s t ht hinv hs)

theorem triple_bind {M : α → σ → Prop} {k : α → Prog σ Q A β} {post : β → σ → Prop}
    (hp : P.Triple i pre p M) (hk : ∀ a, P.Triple i (M a) (k a) post) :
    P.Triple i pre (p >>= k) post := by
  have hmid : ∀ (p : Prog σ Q A α) s, P.inv s → P.wp i p M s →
      P.wp i p (fun a t ↦ P.wp i (k a) post t) s := fun p s _ h ↦
    wp_mono h fun a t hinv ht ↦ hk a t hinv ht
  exact fun s hinv hs ↦ wp_bind hinv (hmid p s hinv (hp s hinv hs))

theorem triple_mono {pre' : σ → Prop} {post' : α → σ → Prop} (h : P.Triple i pre p post)
    (hpre : ∀ s, P.inv s → pre' s → pre s) (hpost : ∀ a s, P.inv s → post a s → post' a s) :
    P.Triple i pre' p post' :=
  fun s hinv hs ↦ wp_mono (h s hinv (hpre s hinv hs)) hpost

/-- A precondition that does not depend on the state. -/
theorem triple_pure {φ : Prop} (h : φ → P.Triple i G p post) :
    P.Triple i (fun s ↦ G s ∧ φ) p post := fun s hinv hs ↦ h hs.2 s hinv hs.1

/-- A program whose steps all keep to the protocol and to `G`. -/
theorem triple_of_does {R : σ → σ → Prop} (hp : Prog.Does P.answers (fun s ↦ P.inv s ∧ G s) R p)
    (hG : P.Stable i G) (hR : ∀ s s', P.inv s → G s → R s s' → P.Guar i s s' ∧ G s') :
    P.Triple i G p fun _ ↦ G := by
  intro s hinv hs
  induction p generalizing s with
  | ret a => exact fun t ht hinv' ↦ hG s t ht hinv' hs
  | step ready act next ih =>
      intro t ht hinv' _
      have hGt := hG s t ht hinv' hs
      obtain ⟨hstep, hnext⟩ := hp t ⟨hinv', hGt⟩
      obtain ⟨hguar, hG'⟩ := hR t (act t) hinv' hGt hstep
      exact ⟨hguar, ih t hnext (act t) hguar.1 hG'⟩
  | ask q next ih => exact fun a ha ↦ ih a (hp a ha) s hinv hs

/-- One step. -/
theorem triple_step {ready : σ → Bool} {act : σ → σ} {next : σ → Prog σ Q A α}
    (hG : P.Stable i G)
    (h : ∀ s, P.inv s → G s → ready s = true →
      P.Guar i s (act s) ∧ P.wp i (next s) post (act s)) :
    P.Triple i G (.step ready act next) post :=
  fun s _ hs t ht hinv hready ↦ h t hinv (hG s t ht hinv hs) hready

/-- One question. -/
theorem triple_ask {q : Q} {next : A q → Prog σ Q A α}
    (h : ∀ a, P.answers q a → P.Triple i G (next a) post) :
    P.Triple i G (.ask q next) post := fun s hinv hs a ha ↦ h a ha s hinv hs

/-- One read, and what is known of the state at that moment. -/
theorem triple_read {f : σ → β} {k : β → Prog σ Q A α} {M : β → σ → Prop} (hG : P.Stable i G)
    (hmid : ∀ s, P.inv s → G s → M (f s) s) (h : ∀ b, P.Triple i (M b) (k b) post) :
    P.Triple i G (Prog.read f >>= k) post :=
  triple_step hG fun s hinv hs _ ↦ ⟨⟨hinv, fun j _ ↦ P.rely_refl j s⟩,
    h (f s) s hinv (hmid s hinv hs)⟩

/-- One write. -/
theorem triple_modify {f : σ → σ} {goal : Unit → σ → Prop} (hG : P.Stable i G)
    (hgoal : P.Stable i (goal ()))
    (h : ∀ s, P.inv s → G s → P.Guar i s (f s) ∧ goal () (f s)) :
    P.Triple i G (Prog.modify f) goal :=
  triple_step hG fun s hinv hs _ ↦ ⟨(h s hinv hs).1, fun t ht hinv' ↦
    hgoal _ t ht hinv' (h s hinv hs).2⟩

theorem triple_ite {c : Prop} [Decidable c] {p q : Prog σ Q A α}
    (hp : c → P.Triple i pre p post) (hq : ¬ c → P.Triple i pre q post) :
    P.Triple i pre (if c then p else q) post := by
  split
  · next h => exact hp h
  · next h => exact hq h

/-! ### A crew

A thread may do part of its work with a crew of programs side by side.  A member of the crew
relies on what the thread relies on, and guarantees that to the thread as well. -/

/-- The protocol of a crew of thread `i`: its members are `none`. -/
def crew (P : Protocol ι σ Q A) (i : ι) : Protocol (Option ι) σ Q A where
  inv := P.inv
  answers := P.answers
  rely j := P.rely (j.getD i)
  rely_refl j := P.rely_refl (j.getD i)
  rely_trans j := P.rely_trans (j.getD i)

/-- What a member of a crew does, the other members tolerate. -/
theorem Guar.crew_rely (h : (P.crew i).Guar none s s') : P.rely i s s' :=
  h.2 (some i) (Option.some_ne_none i)

/-- What a crew reaches, its thread reaches. -/
theorem wp_of_crew (h : (P.crew i).wp none p post s) : P.wp i p post s := by
  induction p generalizing s with
  | ret a => exact h
  | step ready act next ih =>
      intro t ht hinv hready
      obtain ⟨⟨hinv', hrely⟩, hn⟩ := h t ht hinv hready
      exact ⟨⟨hinv', fun j _ ↦ hrely (some j) (Option.some_ne_none j)⟩, ih t hn⟩
  | ask q next ih => exact fun a ha ↦ ih a (h a ha)

theorem triple_of_crew {G : σ → Prop} (h : (P.crew i).Triple none G p post) :
    P.Triple i G p post := fun s hinv hs ↦ wp_of_crew (h s hinv hs)

variable {turn : Q} {first : A turn → Bool} {q : Prog σ Q A Unit}
  {both : Unit → σ → Prop} {post₂ : Unit → σ → Prop}

/-- What the whole crew tolerates stays true. -/
theorem wp_crew_frame {B : σ → Prop}
    (hstable : ∀ s s', B s → P.rely i s s' → B s') (hs : B s)
    (hq : (P.crew i).wp none q post₂ s) :
    (P.crew i).wp none q (fun a t ↦ B t ∧ post₂ a t) s := by
  induction q generalizing s with
  | ret a => exact fun t ht hinv ↦ ⟨hstable _ _ hs ht, hq t ht hinv⟩
  | step ready act next ih =>
      intro t ht hinv hready
      obtain ⟨hg, hn⟩ := hq t ht hinv hready
      exact ⟨hg, ih t (hstable _ _ (hstable _ _ hs ht) hg.crew_rely) hn⟩
  | ask r next ih => exact fun a ha ↦ ih a hs (hq a ha)

theorem wp_interleaveWith {left : Prog σ Q A Unit → Prog σ Q A Unit} {B : σ → Prop}
    (hstable : ∀ s s', B s → P.rely i s s' → B s')
    (hleft : ∀ q s, B s → (P.crew i).wp none q post₂ s → (P.crew i).wp none (left q) both s)
    (hs : B s) (hq : (P.crew i).wp none q post₂ s) :
    (P.crew i).wp none (Prog.interleaveWith turn first left q) both s := by
  induction q generalizing s with
  | ret a => exact hleft _ s hs hq
  | step ready act next ih =>
      intro t _
      by_cases ht : first t = true
      · simpa only [if_pos ht] using hleft _ s hs hq
      · simp only [if_neg ht]
        intro u hu hinv hready
        obtain ⟨hg, hn⟩ := hq u hu hinv hready
        exact ⟨hg, ih u (hstable _ _ (hstable _ _ hs hu) hg.crew_rely) hn⟩
  | ask r next ih =>
      intro t _
      by_cases ht : first t = true
      · simpa only [if_pos ht] using hleft _ s hs hq
      · simp only [if_neg ht]
        exact fun a ha ↦ ih a hs (hq a ha)

/-- **Two members side by side** reach what each of them reaches. -/
theorem wp_interleave {p : Prog σ Q A Unit} {post₁ : Unit → σ → Prop}
    (hp : (P.crew i).wp none p post₁ s) (hq : (P.crew i).wp none q post₂ s) :
    (P.crew i).wp none (Prog.interleave turn first p q)
      (fun _ t ↦ post₁ () t ∧ post₂ () t) s := by
  induction p generalizing q s with
  | ret a =>
      -- only the second is left
      exact wp_mono (wp_crew_frame (B := (P.crew i).wp none (.ret a) post₁)
        (fun _ _ h hr ↦ wp_stable h hr) hp hq) fun _ t hinv h ↦ ⟨h.1 t (P.rely_refl i t) hinv, h.2⟩
  | step ready act next ih =>
      refine wp_interleaveWith (B := (P.crew i).wp none (.step ready act next) post₁)
        (fun _ _ h hr ↦ wp_stable h hr) (fun q s h hq ↦ ?_) hp hq
      intro t ht hinv hready
      obtain ⟨hg, hn⟩ := h t ht hinv hready
      exact ⟨hg, ih t hn (wp_stable (wp_stable hq ht) hg.crew_rely)⟩
  | ask r next ih =>
      exact wp_interleaveWith (B := (P.crew i).wp none (.ask r next) post₁)
        (fun _ _ h hr ↦ wp_stable h hr) (fun q s h hq a ha ↦ ih a (h a ha) hq) hp hq

/-- **A crew** of programs that each reach `post`. -/
theorem wp_interleaveAll {ps : List (Prog σ Q A Unit)} {goal : σ → Prop}
    (hp : ∀ p ∈ ps, (P.crew i).wp none p (fun _ ↦ goal) s) :
    (P.crew i).wp none (Prog.interleaveAll turn first ps) (fun _ t ↦ ps ≠ [] → goal t) s := by
  induction ps with
  | nil => exact fun t _ _ h ↦ absurd rfl h
  | cons p rest ih =>
      refine wp_mono (wp_interleave (hp p List.mem_cons_self)
        (ih fun q hq ↦ hp q (List.mem_cons_of_mem _ hq))) fun _ t _ h _ ↦ h.1

end Protocol

/-! ## A pool of threads -/

/-- A moment of a pool: the shared state, and what each thread has still to do.  A thread that
has come to `ret true` starts its body again; one that has come to `ret false` has stopped. -/
structure Pool (σ Q : Type) (A : Q → Type) (ι : Type) where
  shared : σ
  prog : ι → Prog σ Q A Bool

namespace Protocol

variable {P : Protocol ι σ Q A} {body : ι → Prog σ Q A Bool} {i : ι}

/-- A specification of a pool: what holds where each thread starts its body, and where it
stops. -/
structure Spec (P : Protocol ι σ Q A) (body : ι → Prog σ Q A Bool) where
  /-- At the start of the body. -/
  loop : ι → σ → Prop
  /-- After the thread has stopped. -/
  done : ι → σ → Prop
  body_wp : ∀ i s, P.inv s → loop i s →
    P.wp i (body i) (fun again t ↦ if again then loop i t else done i t) s

/-- What holds at every moment of a pool that meets its specification. -/
structure Sound (S : Spec P body) (c : Pool σ Q A ι) : Prop where
  inv : P.inv c.shared
  wp : ∀ i, P.wp i (c.prog i) (fun again t ↦ if again then S.loop i t else S.done i t) c.shared

variable {S : Spec P body} {c c' : Pool σ Q A ι}

/-- A thread that has stopped has reached what it was to reach. -/
theorem Sound.done_of_ret (h : Sound S c) (hret : c.prog i = .ret false) : S.done i c.shared := by
  have := h.wp i
  rw [hret] at this
  simpa using this c.shared (P.rely_refl i _) h.inv

/-- Between two rounds of a thread, what holds at the start of its body holds. -/
theorem Sound.loop_of_ret (h : Sound S c) (hret : c.prog i = .ret true) : S.loop i c.shared := by
  have := h.wp i
  rw [hret] at this
  simpa using this c.shared (P.rely_refl i _) h.inv

end Protocol

variable [DecidableEq ι]

/-- Thread `i` moves, and the environment answers as `ok` allows. -/
inductive Pool.Step (ok : ∀ q, A q → Prop) (body : ι → Prog σ Q A Bool) (c : Pool σ Q A ι)
    (i : ι) : Pool σ Q A ι → Prop
  | /-- One step of its program. -/
    move {s' : σ} {p' : Prog σ Q A Bool} :
      Prog.Step ok c.shared (c.prog i) s' p' →
      Pool.Step ok body c i ⟨s', Function.update c.prog i p'⟩
  | /-- It starts its body again. -/
    loop : c.prog i = .ret true →
      Pool.Step ok body c i ⟨c.shared, Function.update c.prog i (body i)⟩

/-- A thread may run alone for a while. -/
theorem Pool.run_of_steps {ok : ∀ q, A q → Prop} {body : ι → Prog σ Q A Bool} {i : ι}
    {prog : ι → Prog σ Q A Bool} {s s' : σ} {p p' : Prog σ Q A Bool} (hp : prog i = p)
    (h : Prog.Steps ok s p s' p') :
    ∃ is, Run (Pool.Step ok body) ⟨s, prog⟩ is ⟨s', Function.update prog i p'⟩ := by
  induction h generalizing prog with
  | refl s p =>
      rw [← hp, Function.update_eq_self]
      exact ⟨[], .nil _⟩
  | @cons s s₁ s₂ p p₁ p₂ hstep _ ih =>
      obtain ⟨is, hr⟩ := @ih (Function.update prog i p₁) (Function.update_self ..)
      rw [Function.update_idem] at hr
      rw [← hp] at hstep
      exact ⟨i :: is, .cons (.move hstep) hr⟩

section Last

variable {ok : ∀ q, A q → Prop} {body : ι → Prog σ Q A Bool} {i j : ι} {c c' : Pool σ Q A ι}
  {F : (σ → σ) → Prop}

/-- A thread is between two rounds, or its round ends as its body does. -/
theorem Pool.endsBy_step (hbody : Prog.EndsBy F (body i))
    (h : (∃ a, c.prog i = .ret a) ∨ Prog.EndsBy F (c.prog i)) (hs : Pool.Step ok body c j c') :
    (∃ a, c'.prog i = .ret a) ∨ Prog.EndsBy F (c'.prog i) := by
  by_cases hij : i = j
  · subst hij
    cases hs with
    | move hstep =>
        rcases h with ⟨a, ha⟩ | hends
        · rw [ha] at hstep
          nomatch hstep
        · rcases hends.of_step hstep with hnext | ⟨hret, -⟩
          · exact .inr (by simpa using hnext)
          · exact .inl (by simpa using hret)
    | loop _ => exact .inr (by simpa using hbody)
  · cases hs <;> simpa [Function.update_of_ne hij] using h

/-- **The last step of a round** is the one its body ends with. -/
theorem Pool.last_step {c₀ : Pool σ Q A ι} {is : List ι} {a a₀ : Bool}
    (hbody : Prog.EndsBy F (body i)) (h₀ : c₀.prog i = .ret a₀)
    (hr : Run (Pool.Step ok body) c₀ is c) (hs : Pool.Step ok body c i c')
    (hret : c'.prog i = .ret a) :
    ∃ act, F act ∧ c'.shared = act c.shared := by
  have hc : (∃ a, c.prog i = .ret a) ∨ Prog.EndsBy F (c.prog i) :=
    hr.preserves (I := fun c ↦ (∃ a, c.prog i = .ret a) ∨ Prog.EndsBy F (c.prog i))
      (fun _ _ _ h hs ↦ Pool.endsBy_step hbody h hs) (.inl ⟨a₀, h₀⟩)
  cases hs with
  | move hstep =>
      rcases hc with ⟨b, hb⟩ | hends
      · rw [hb] at hstep
        nomatch hstep
      · rcases hends.of_step hstep with hnext | ⟨-, act, hact, heq⟩
        · simp only [Function.update_self] at hret
          rw [hret] at hnext
          exact hnext.elim
        · exact ⟨act, hact, heq⟩
  | loop _ =>
      simp only [Function.update_self] at hret
      rw [hret] at hbody
      exact hbody.elim

end Last

namespace Protocol

variable {P : Protocol ι σ Q A} {body : ι → Prog σ Q A Bool} {i : ι} {S : Spec P body}
  {c c' : Pool σ Q A ι}

/-- What a thread does, the others have relied on. -/
theorem Sound.rely (h : Sound S c) (hs : Pool.Step P.answers body c i c') {j : ι} (hj : j ≠ i) :
    P.rely j c.shared c'.shared := by
  cases hs with
  | move hstep => exact (wp_step h.inv (h.wp i) hstep).1.2 j hj
  | loop _ => exact P.rely_refl j _

/-- Every step of every thread keeps a pool sound. -/
theorem Sound.step (h : Sound S c) (hs : Pool.Step P.answers body c i c') : Sound S c' := by
  cases hs with
  | move hstep =>
      obtain ⟨⟨hinv, hrely⟩, hwp⟩ := wp_step h.inv (h.wp i) hstep
      refine ⟨hinv, fun j ↦ ?_⟩
      by_cases hj : j = i
      · subst hj
        simpa using hwp
      · simpa [Function.update_of_ne hj] using wp_stable (h.wp j) (hrely j hj)
  | loop hret =>
      refine ⟨h.inv, fun j ↦ ?_⟩
      by_cases hj : j = i
      · subst hj
        simpa using S.body_wp j c.shared h.inv (h.loop_of_ret hret)
      · simpa [Function.update_of_ne hj] using h.wp j

/-- **Soundness.**  A pool whose threads meet their specifications, each under what it relies
on, is sound at every moment of every run. -/
theorem sound {is : List ι} (h : Sound S c) (hr : Run (Pool.Step P.answers body) c is c') :
    Sound S c' := hr.preserves (fun _ _ _ h hs ↦ h.step hs) h

end Protocol

end Lib
