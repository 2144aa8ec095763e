import XNMiner.Lib.Lts
import Mathlib.Logic.Function.Basic
import Mathlib.Data.List.Nodup

/-!
# Mutexes, threads and signals

A program takes mutexes that are not recursive and gives them back (`Locked`).  Threads run
their programs side by side, and at any moment a signal may interrupt one of them: its handler is
pushed on the stack of the thread, and what is below it waits until the handler has returned.

A handler that takes a mutex which its own thread held when the signal came waits for ever.
`Clear` says that no handler is bound to do that; it is a question of what the program still takes
on every path (`Takes`) and of what was held below it.  Under `Clear` no handler waits for its own
thread (`Clear.not_waitsForItself`), and without it some handler never returns
(`Stuck.neverReturns`).
-/

namespace Lib

/-- A program with mutexes `M` over shared data `σ`. -/
inductive Locked (M σ α : Type) : Type
  | ret (a : α)
  | lock (m : M) (next : Locked M σ α)
  | unlock (m : M) (next : Locked M σ α)
  /-- Change the data, and go on knowing what they were. -/
  | step (act : σ → σ) (next : σ → Locked M σ α)
  /-- Go on in a way that depends on something else. -/
  | pick (next : Nat → Locked M σ α)

namespace Locked

variable {M σ α β : Type}

def bind : Locked M σ α → (α → Locked M σ β) → Locked M σ β
  | ret a, k => k a
  | lock m next, k => lock m (next.bind k)
  | unlock m next, k => unlock m (next.bind k)
  | step act next, k => step act fun s ↦ (next s).bind k
  | pick next, k => pick fun n ↦ (next n).bind k

instance : Monad (Locked M σ) where
  pure := ret
  bind := bind

@[simp] theorem pure_eq (a : α) : (pure a : Locked M σ α) = ret a := rfl

@[simp] theorem ret_bind (a : α) (k : α → Locked M σ β) : (ret a >>= k) = k a := rfl

@[simp] theorem lock_bind (m : M) (p : Locked M σ α) (k : α → Locked M σ β) :
    (lock m p >>= k) = lock m (p >>= k) := rfl

@[simp] theorem unlock_bind (m : M) (p : Locked M σ α) (k : α → Locked M σ β) :
    (unlock m p >>= k) = unlock m (p >>= k) := rfl

@[simp] theorem step_bind (act : σ → σ) (p : σ → Locked M σ α) (k : α → Locked M σ β) :
    (step act p >>= k) = step act fun s ↦ p s >>= k := rfl

/-- A program with a mutex held around it. -/
def holding (m : M) (p : Locked M σ α) : Locked M σ α :=
  lock m (p >>= fun a ↦ unlock m (ret a))

/-- Wait on a condition variable: the mutex is given back meanwhile. -/
def waitOn (m : M) : Locked M σ Unit := unlock m (lock m (ret ()))

/-- One of two programs. -/
def either (p q : Locked M σ α) : Locked M σ α := pick fun n ↦ if n = 0 then p else q

/-- A program, or nothing. -/
def perhaps (p : Locked M σ Unit) : Locked M σ Unit := either (ret ()) p

/-- A program, `n` times. -/
def times (p : Locked M σ Unit) : Nat → Locked M σ Unit
  | 0 => ret ()
  | n + 1 => p >>= fun _ ↦ times p n

/-- A program, any number of times. -/
def repeatedly (p : Locked M σ Unit) : Locked M σ Unit := pick (times p)

/-! ## What a program does with mutexes -/

/-- The program holds `held` and gives back all of it but `rest`, the last taken first; it never
takes what it holds. -/
def Tidy (rest : List M) : List M → Locked M σ α → Prop
  | held, ret _ => held = rest
  | held, lock m next => m ∉ held ∧ Tidy rest (m :: held) next
  | held, unlock m next => ∃ held', held = m :: held' ∧ Tidy rest held' next
  | held, step _ next => ∀ s, Tidy rest held (next s)
  | held, pick next => ∀ n, Tidy rest held (next n)

/-- Whatever happens, the program takes `m`. -/
def Takes (m : M) : Locked M σ α → Prop
  | ret _ => False
  | lock m' next => m' = m ∨ Takes m next
  | unlock _ next => Takes m next
  | step _ next => ∀ s, Takes m (next s)
  | pick next => ∀ n, Takes m (next n)

/-- Only where the program reads the data it is decided what it takes: `new s` is what comes
in addition if they are `s`. -/
def Settled (new : σ → M → Prop) : Locked M σ α → Prop
  | ret _ => True
  | lock _ next => Settled new next
  | unlock _ next => Settled new next
  | step _ next => ∀ s, (∀ m, Takes m (next s) ↔ (∀ s', Takes m (next s')) ∨ new s m) ∧
      Settled new (next s)
  | pick next => ∀ n, (∀ m, Takes m (next n) → ∀ n', Takes m (next n')) ∧ Settled new (next n)

theorem tidy_bind {rest mid held : List M} {p : Locked M σ α} {k : α → Locked M σ β}
    (hp : Tidy mid held p) (hk : ∀ a, Tidy rest mid (k a)) : Tidy rest held (p >>= k) := by
  change Tidy rest held (p.bind k)
  induction p generalizing held with
  | ret a =>
      obtain rfl : held = mid := hp
      exact hk a
  | lock m next ih => exact ⟨hp.1, ih hp.2⟩
  | unlock m next ih =>
      obtain ⟨held', rfl, hnext⟩ := hp
      exact ⟨held', rfl, ih hnext⟩
  | step act next ih => exact fun s ↦ ih s (hp s)
  | pick next ih => exact fun n ↦ ih n (hp n)

theorem tidy_holding {held : List M} {m : M} {p : Locked M σ α} (hm : m ∉ held)
    (hp : Tidy (m :: held) (m :: held) p) : Tidy held held (holding m p) :=
  ⟨hm, tidy_bind hp fun _ ↦ ⟨held, rfl, rfl⟩⟩

theorem tidy_times {held : List M} {p : Locked M σ Unit} (hp : Tidy held held p) (n : Nat) :
    Tidy held held (times p n) := by
  induction n with
  | zero => rfl
  | succ n ih => exact tidy_bind hp fun _ ↦ ih

/-! ### Programs without choices -/

/-- The program reads nothing and picks nothing. -/
def Plain : Locked M σ α → Prop
  | ret _ => True
  | lock _ next => Plain next
  | unlock _ next => Plain next
  | step .. => False
  | pick _ => False

theorem bind_assoc {γ : Type} (p : Locked M σ α) (k : α → Locked M σ β) (l : β → Locked M σ γ) :
    ((p >>= k) >>= l) = (p >>= fun a ↦ k a >>= l) := by
  change (p.bind k).bind l = p.bind fun a ↦ (k a).bind l
  induction p with
  | ret a => rfl
  | lock m next ih => simp only [bind, ih]
  | unlock m next ih => simp only [bind, ih]
  | step act next ih => simp only [bind, ih]
  | pick next ih => simp only [bind, ih]

theorem plain_bind {p : Locked M σ α} {k : α → Locked M σ β} (hp : Plain p)
    (hk : ∀ a, Plain (k a)) : Plain (p >>= k) := by
  change Plain (p.bind k)
  induction p with
  | ret a => exact hk a
  | lock m next ih => exact ih hp
  | unlock m next ih => exact ih hp
  | step act next ih => exact hp.elim
  | pick next ih => exact hp.elim

theorem plain_times {p : Locked M σ Unit} (hp : Plain p) (n : Nat) : Plain (times p n) := by
  induction n with
  | zero => trivial
  | succ n ih => exact plain_bind hp fun _ ↦ ih

theorem takes_bind {m : M} {p : Locked M σ Unit} {k : Unit → Locked M σ β} (hp : Plain p) :
    Takes m (p >>= k) ↔ Takes m p ∨ Takes m (k ()) := by
  change Takes m (p.bind k) ↔ _
  induction p with
  | ret a => simp [bind, Takes]
  | lock m' next ih => simp [bind, Takes, ih hp, or_assoc]
  | unlock m' next ih => simpa [bind, Takes] using ih hp
  | step act next ih => exact hp.elim
  | pick next ih => exact hp.elim

theorem takes_times {m : M} {p : Locked M σ Unit} (hp : Plain p) (n : Nat) :
    Takes m (times p n) ↔ n ≠ 0 ∧ Takes m p := by
  induction n with
  | zero => simp [times, Takes]
  | succ n ih =>
      rw [times, takes_bind hp, ih]
      constructor
      · rintro (h | ⟨-, h⟩) <;> exact ⟨Nat.succ_ne_zero n, h⟩
      · exact fun h ↦ .inl h.2

theorem settled_of_plain {new : σ → M → Prop} {p : Locked M σ α} (hp : Plain p) :
    Settled new p := by
  induction p with
  | ret a => trivial
  | lock m next ih => exact ih hp
  | unlock m next ih => exact ih hp
  | step act next ih => exact hp.elim
  | pick next ih => exact hp.elim

end Locked

/-! ## Threads and their stacks -/

/-- A program on the stack of a thread: its own, or the handler of a signal.  As a ghost it has
what the thread held when the signal came. -/
structure Frame (M σ S : Type) where
  prog : Locked M σ Unit
  signal : Option S
  -- ghost
  below : M → Bool

namespace Frame

variable {M σ S : Type}

/-- It runs the handler of a signal. -/
def Handles (f : Frame M σ S) : Prop := f.signal ≠ none

/-- It is bound to take something that was held when the signal came. -/
def Bound (f : Frame M σ S) : Prop := f.Handles ∧ ∃ m, f.prog.Takes m ∧ f.below m = true

end Frame

/-- Threads `T` that share mutexes and data; the top of a stack comes first. -/
structure Threads (M σ S T : Type) where
  owner : M → Option T
  data : σ
  frames : T → List (Frame M σ S)

/-- What happens: a thread goes on, or gets a signal. -/
inductive ThreadAct (S T : Type)
  | run (t : T) (n : Nat)
  | signal (t : T) (sig : S)

namespace Threads

open Locked

variable {M σ S T : Type}

/-- All threads are at the start of their programs. -/
def start (data : σ) (body : T → Locked M σ Unit) : Threads M σ S T where
  owner := fun _ ↦ none
  data := data
  frames := fun t ↦ [{ prog := body t, signal := none, below := fun _ ↦ false }]

/-- The handler on top of a stack waits for a mutex that its own thread has. -/
def WaitsForItself (s : Threads M σ S T) (t : T) : Prop :=
  ∃ f below m after, s.frames t = f :: below ∧ f.Handles ∧ f.prog = .lock m after ∧
    s.owner m = some t

/-- A thread is in a handler that returns in no run: it never comes back to what is below. -/
def NeverReturns (step : Threads M σ S T → ThreadAct S T → Threads M σ S T → Prop)
    (s : Threads M σ S T) (t : T) : Prop :=
  ∃ above f below, s.frames t = above ++ f :: below ∧ f.Handles ∧
    ∀ as u, Run step s as u → ∃ above' f', u.frames t = above' ++ f' :: below ∧ f'.Handles

variable {body : T → Locked M σ Unit} {handler : Locked M σ Unit} {s u : Threads M σ S T} {t : T}
  {n : Nat} {f : Frame M σ S} {below fs : List (Frame M σ S)}

/-! ## What holds of every stack -/

/-- A stack of a thread that has what `owns` says: each handler holds what its program has taken,
and what was held below it. -/
inductive Stack (new : σ → M → Prop) : (M → Prop) → List (Frame M σ S) → Prop
  | own {owns : M → Prop} {f : Frame M σ S} : f.signal = none → Stack new owns [f]
  | handler {owns : M → Prop} {f : Frame M σ S} {below : List (Frame M σ S)} (held : List M) :
      f.Handles → f.prog.Settled new → f.prog.Tidy [] held →
      (∀ m, owns m ↔ m ∈ held ∨ f.below m = true) → (∀ m ∈ held, f.below m = false) →
      held.Nodup → Stack new (fun m ↦ f.below m = true) below → Stack new owns (f :: below)

theorem Stack.congr {new : σ → M → Prop} {owns owns' : M → Prop} (h : Stack new owns fs)
    (heq : ∀ m, owns' m ↔ owns m) : Stack new owns' fs := by
  obtain rfl : owns' = owns := funext fun m ↦ propext (heq m)
  exact h

/-- All stacks are sound. -/
def Sound (new : σ → M → Prop) (s : Threads M σ S T) : Prop :=
  ∀ t, Stack new (fun m ↦ s.owner m = some t) (s.frames t)

/-- What is said of the handler. -/
structure Handler (always : M → Prop) (new : σ → M → Prop) (handler : Locked M σ Unit) :
    Prop where
  tidy : handler.Tidy [] []
  settled : handler.Settled new
  takes_iff : ∀ m, handler.Takes m ↔ always m

variable {always : M → Prop} {new : σ → M → Prop}

theorem sound_start (data : σ) : Sound new (start (S := S) data body) := fun _ ↦ .own rfl

/-- No handler is bound to take what was held when its signal came. -/
def Clear (s : Threads M σ S T) : Prop := ∀ t, ∀ f ∈ s.frames t, ¬ f.Bound

/-- **In a clear state no handler waits for its own thread.** -/
theorem Clear.not_waitsForItself (hc : Clear s) (h : Sound new s) (t : T) :
    ¬ WaitsForItself s t := by
  rintro ⟨f, below, m, after, hfs, hhandles, hp, howner⟩
  have hstack := h t
  rw [hfs] at hstack
  cases hstack with
  | own hsig => exact hhandles hsig
  | handler held _ _ htidy howns _ _ _ =>
      rw [hp] at htidy
      rcases (howns m).mp howner with hm | hm
      · exact htidy.1 hm
      · refine hc t f (hfs ▸ List.mem_cons_self) ⟨hhandles, m, ?_, hm⟩
        rw [hp]
        exact .inl rfl

/-! ## Moves -/

variable [DecidableEq T]

/-- The thread has another stack. -/
def setFrames (s : Threads M σ S T) (t : T) (fs : List (Frame M σ S)) : Threads M σ S T :=
  { s with frames := Function.update s.frames t fs }

@[simp] theorem owner_setFrames : (s.setFrames t fs).owner = s.owner := rfl

@[simp] theorem data_setFrames : (s.setFrames t fs).data = s.data := rfl

@[simp] theorem frames_setFrames : (s.setFrames t fs).frames t = fs := Function.update_self ..

theorem frames_setFrames_ne {v : T} (hv : v ≠ t) : (s.setFrames t fs).frames v = s.frames v :=
  Function.update_of_ne hv ..

variable [DecidableEq M]

/-- The mutex has another owner. -/
def setOwner (s : Threads M σ S T) (m : M) (owner : Option T) : Threads M σ S T :=
  { s with owner := Function.update s.owner m owner }

/-- The program on top of a stack goes on.  A handler that is over uncovers what it has
interrupted; a thread that is through with its own program starts it again. -/
def goOn (body : T → Locked M σ Unit) (s : Threads M σ S T) (t : T) (n : Nat)
    (f : Frame M σ S) (below : List (Frame M σ S)) : Option (Threads M σ S T) :=
  match f.prog with
  | .ret _ =>
      if f.signal = none then some (s.setFrames t ({ f with prog := body t } :: below))
      else some (s.setFrames t below)
  | .lock m next =>
      if s.owner m = none then
        some ((s.setOwner m (some t)).setFrames t ({ f with prog := next } :: below))
      else none
  | .unlock m next =>
      if s.owner m = some t then
        some ((s.setOwner m none).setFrames t ({ f with prog := next } :: below))
      else none
  | .step act next =>
      some (({ s with data := act s.data } : Threads M σ S T).setFrames t
        ({ f with prog := next s.data } :: below))
  | .pick next => some (s.setFrames t ({ f with prog := next n } :: below))

/-- How the program on top of a stack goes on. -/
inductive Move (body : T → Locked M σ Unit) (s : Threads M σ S T) (t : T) (n : Nat)
    (f : Frame M σ S) (below : List (Frame M σ S)) : Threads M σ S T → Prop
  | restarts : f.prog = .ret () → f.signal = none →
      Move body s t n f below (s.setFrames t ({ f with prog := body t } :: below))
  | returns : f.prog = .ret () → f.Handles → Move body s t n f below (s.setFrames t below)
  | locks (m : M) (after : Locked M σ Unit) : f.prog = .lock m after → s.owner m = none →
      Move body s t n f below
        ((s.setOwner m (some t)).setFrames t ({ f with prog := after } :: below))
  | unlocks (m : M) (after : Locked M σ Unit) : f.prog = .unlock m after → s.owner m = some t →
      Move body s t n f below
        ((s.setOwner m none).setFrames t ({ f with prog := after } :: below))
  | steps (act : σ → σ) (after : σ → Locked M σ Unit) : f.prog = .step act after →
      Move body s t n f below (({ s with data := act s.data } : Threads M σ S T).setFrames t
        ({ f with prog := after s.data } :: below))
  | picks (after : Nat → Locked M σ Unit) : f.prog = .pick after →
      Move body s t n f below (s.setFrames t ({ f with prog := after n } :: below))

theorem goOn_inv (h : s.goOn body t n f below = some u) : Move body s t n f below u := by
  unfold goOn at h
  cases hp : f.prog with
  | ret a =>
      simp only [hp] at h
      split at h
      · next hsig =>
          obtain rfl := Option.some.inj h
          exact .restarts hp hsig
      · next hsig =>
          obtain rfl := Option.some.inj h
          exact .returns hp hsig
  | lock m after =>
      simp only [hp] at h
      split at h
      · next howner =>
          obtain rfl := Option.some.inj h
          exact .locks m after hp howner
      · cases h
  | unlock m after =>
      simp only [hp] at h
      split at h
      · next howner =>
          obtain rfl := Option.some.inj h
          exact .unlocks m after hp howner
      · cases h
  | step act after =>
      simp only [hp] at h
      obtain rfl := Option.some.inj h
      exact .steps act after hp
  | pick after =>
      simp only [hp] at h
      obtain rfl := Option.some.inj h
      exact .picks after hp

/-- What the other threads have does not change. -/
theorem Move.owner_other (hm : Move body s t n f below u) {v : T} (hv : v ≠ t) (m : M) :
    u.owner m = some v ↔ s.owner m = some v := by
  cases hm with
  | restarts | returns | steps | picks => exact Iff.rfl
  | locks m' after _ hfree =>
      change Function.update s.owner m' (some t) m = some v ↔ _
      by_cases hmm : m = m'
      · subst hmm
        rw [Function.update_self, hfree]
        simp [Ne.symm hv]
      · rw [Function.update_of_ne hmm]
  | unlocks m' after _ howns =>
      change Function.update s.owner m' none m = some v ↔ _
      by_cases hmm : m = m'
      · subst hmm
        rw [Function.update_self, howns]
        simp [Ne.symm hv]
      · rw [Function.update_of_ne hmm]

theorem Move.frames_other (hm : Move body s t n f below u) {v : T} (hv : v ≠ t) :
    u.frames v = s.frames v := by
  cases hm with
  | restarts | returns | locks | unlocks | steps | picks => exact frames_setFrames_ne hv

/-- A move keeps the stack of its thread sound. -/
theorem Move.stack (hm : Move body s t n f below u)
    (h : Stack new (fun m ↦ s.owner m = some t) (f :: below)) :
    Stack new (fun m ↦ u.owner m = some t) (u.frames t) := by
  cases h with
  | own hsig =>
      cases hm with
      | returns _ hhandles => exact absurd hsig hhandles
      | restarts | locks | unlocks | steps | picks =>
          rw [frames_setFrames]
          exact .own hsig
  | handler held hhandles hsettled htidy howns hbelow hnodup hrest =>
      replace howns : ∀ m, s.owner m = some t ↔ m ∈ held ∨ f.below m = true := howns
      cases hm with
      | restarts _ hsig => exact absurd hsig hhandles
      | returns hret _ =>
          rw [frames_setFrames]
          rw [hret] at htidy
          obtain rfl : held = [] := htidy
          exact hrest.congr fun m ↦ by simpa using howns m
      | locks m after hp hfree =>
          rw [frames_setFrames]
          rw [hp] at htidy hsettled
          have hfresh : f.below m = false := by
            by_contra hm
            have hown : s.owner m = some t := (howns m).mpr (.inr (by simpa using hm))
            rw [hfree] at hown
            cases hown
          refine .handler (m :: held) hhandles hsettled htidy.2 (fun m' ↦ ?_) ?_
            (List.nodup_cons.mpr ⟨htidy.1, hnodup⟩) hrest
          · change Function.update s.owner m (some t) m' = some t ↔ _
            by_cases hmm : m' = m
            · subst hmm
              simp
            · rw [Function.update_of_ne hmm, howns m']
              simp [hmm]
          · simpa using ⟨hfresh, hbelow⟩
      | unlocks m after hp _ =>
          rw [frames_setFrames]
          rw [hp] at htidy hsettled
          obtain ⟨held', rfl, htidy⟩ := htidy
          obtain ⟨hm, hnodup⟩ := List.nodup_cons.mp hnodup
          refine .handler held' hhandles hsettled htidy (fun m' ↦ ?_)
            (fun m' hm' ↦ hbelow m' (List.mem_cons_of_mem _ hm')) hnodup hrest
          change Function.update s.owner m none m' = some t ↔ _
          by_cases hmm : m' = m
          · subst hmm
            simp [hm, hbelow m' List.mem_cons_self]
          · rw [Function.update_of_ne hmm, howns m']
            simp [hmm]
      | steps act after hp =>
          rw [frames_setFrames]
          rw [hp] at htidy hsettled
          exact .handler held hhandles (hsettled s.data).2 (htidy s.data) howns hbelow hnodup hrest
      | picks after hp =>
          rw [frames_setFrames]
          rw [hp] at htidy hsettled
          exact .handler held hhandles (hsettled n).2 (htidy n) howns hbelow hnodup hrest

/-! ## Steps -/

variable [DecidableEq S]

/-- One step.  A signal that the thread is handling is blocked. -/
def next (body : T → Locked M σ Unit) (handler : Locked M σ Unit) (s : Threads M σ S T) :
    ThreadAct S T → Option (Threads M σ S T)
  | .run t n => match s.frames t with
      | [] => none
      | f :: below => s.goOn body t n f below
  | .signal t sig =>
      if ∃ f ∈ s.frames t, f.signal = some sig then none
      else some (s.setFrames t
        ({ prog := handler
           signal := some sig
           below := fun m ↦ decide (s.owner m = some t) } :: s.frames t))

/-- A step is a move of the program on top of a stack, or the start of a handler. -/
theorem next_inv {a : ThreadAct S T} (h : next body handler s a = some u) :
    (∃ t n f below, a = .run t n ∧ s.frames t = f :: below ∧ Move body s t n f below u) ∨
      ∃ t sig, a = .signal t sig ∧ u = s.setFrames t
        ({ prog := handler
           signal := some sig
           below := fun m ↦ decide (s.owner m = some t) } :: s.frames t) := by
  cases a with
  | run t n =>
      simp only [next] at h
      split at h
      · cases h
      · next f below hfs => exact .inl ⟨t, n, f, below, rfl, hfs, goOn_inv h⟩
  | signal t sig =>
      simp only [next] at h
      split at h
      · cases h
      · exact .inr ⟨t, sig, rfl, (Option.some.inj h).symm⟩

/-- **The stacks stay sound**, over a step. -/
theorem Sound.step (h : Sound new s) (hh : Handler always new handler) {a : ThreadAct S T}
    (hs : next body handler s a = some u) : Sound new u := by
  intro v
  rcases next_inv hs with ⟨t, n, f, below, -, hfs, hm⟩ | ⟨t, sig, -, rfl⟩
  · by_cases hv : v = t
    · subst hv
      exact hm.stack (hfs ▸ h v)
    · rw [hm.frames_other hv]
      exact (h v).congr fun m ↦ hm.owner_other hv m
  · by_cases hv : v = t
    · subst hv
      rw [frames_setFrames]
      exact .handler [] (Option.some_ne_none _) hh.settled hh.tidy (by simp) (by simp)
        List.nodup_nil ((h v).congr (by simp))
    · rw [frames_setFrames_ne hv]
      exact h v

/-! ## Bound handlers -/

/-- When the next step keeps a clear state clear: a signal comes to a thread that has nothing of
what the handler always takes, and what the data add was not held. -/
def Harmless (always : M → Prop) (new : σ → M → Prop) (s : Threads M σ S T) :
    ThreadAct S T → Prop
  | .signal t _ => ∀ m, always m → s.owner m ≠ some t
  | .run t _ => ∀ f below act after, s.frames t = f :: below → f.Handles →
      f.prog = .step act after → ∀ m, new s.data m → f.below m = false

/-- **Harmless steps keep a state clear.** -/
theorem Clear.step (hc : Clear s) (h : Sound new s) (hh : Handler always new handler)
    {a : ThreadAct S T} (hs : next body handler s a = some u) (ha : Harmless always new s a) :
    Clear u := by
  intro v g hg hbound
  rcases next_inv hs with ⟨t, n, f, below, rfl, hfs, hm⟩ | ⟨t, sig, rfl, rfl⟩
  · by_cases hv : v = t
    swap
    · rw [hm.frames_other hv] at hg
      exact hc v g hg hbound
    subst hv
    have hrest : ∀ g ∈ below, ¬ g.Bound := fun g hg ↦ hc v g (hfs ▸ List.mem_cons_of_mem _ hg)
    have htop : ¬ f.Bound := hc v f (hfs ▸ List.mem_cons_self)
    have hstack := h v
    rw [hfs] at hstack
    -- the frame that moves; the others are where they were
    have hmoved : ∀ p : Locked M σ Unit, (f.Handles → ∀ m, p.Takes m → f.below m = true →
        f.prog.Takes m) → ∀ g ∈ { f with prog := p } :: below, ¬ g.Bound := by
      rintro p hp g hg ⟨hhandles, m, htakes, hbelow⟩
      rcases List.mem_cons.mp hg with rfl | hg
      · exact htop ⟨hhandles, m, hp hhandles m htakes hbelow, hbelow⟩
      · exact hrest g hg ⟨hhandles, m, htakes, hbelow⟩
    cases hm with
    | restarts _ hsig =>
        rw [frames_setFrames] at hg
        exact hmoved _ (fun hhandles ↦ absurd hsig hhandles) g hg hbound
    | returns =>
        rw [frames_setFrames] at hg
        exact hrest g hg hbound
    | locks m after hp _ =>
        rw [frames_setFrames] at hg
        exact hmoved _ (fun _ m' htakes _ ↦ by rw [hp]; exact .inr htakes) g hg hbound
    | unlocks m after hp _ =>
        rw [frames_setFrames] at hg
        exact hmoved _ (fun _ m' htakes _ ↦ by rw [hp]; exact htakes) g hg hbound
    | steps act after hp =>
        rw [frames_setFrames] at hg
        refine hmoved _ (fun hhandles m htakes hbelow ↦ ?_) g hg hbound
        cases hstack with
        | own hsig => exact absurd hsig hhandles
        | handler held _ hsettled _ _ _ _ _ =>
            rw [hp] at hsettled ⊢
            rcases ((hsettled s.data).1 m).mp htakes with hall | hnew
            · exact hall
            · have := ha f below act after hfs hhandles hp m hnew
              rw [hbelow] at this
              cases this
    | picks after hp =>
        rw [frames_setFrames] at hg
        refine hmoved _ (fun hhandles m htakes _ ↦ ?_) g hg hbound
        cases hstack with
        | own hsig => exact absurd hsig hhandles
        | handler held _ hsettled _ _ _ _ _ =>
            rw [hp] at hsettled ⊢
            exact (hsettled n).1 m htakes
  · by_cases hv : v = t
    swap
    · rw [frames_setFrames_ne hv] at hg
      exact hc v g hg hbound
    subst hv
    rw [frames_setFrames] at hg
    rcases List.mem_cons.mp hg with rfl | hg
    · obtain ⟨-, m, htakes, hbelow⟩ := hbound
      exact ha m ((hh.takes_iff m).mp htakes) (by simpa using hbelow)
    · exact hc v g hg hbound

/-! ## What becomes of a bound handler -/

/-- The thread is in a bound handler, over the programs `below`. -/
def Stuck (s : Threads M σ S T) (t : T) (below : List (Frame M σ S)) : Prop :=
  ∃ above f, s.frames t = above ++ f :: below ∧ f.Bound

/-- A bound handler cannot take what it must, so it stays bound. -/
theorem Stuck.step (hstuck : Stuck s t below) (h : Sound new s) {a : ThreadAct S T}
    (hs : next body handler s a = some u) : Stuck u t below := by
  obtain ⟨above, f, hframes, hbound⟩ := hstuck
  rcases next_inv hs with ⟨v, n, g, rest, rfl, hfs, hm⟩ | ⟨v, sig, rfl, rfl⟩
  · by_cases hv : t = v
    swap
    · exact ⟨above, f, (hm.frames_other hv).trans hframes, hbound⟩
    subst hv
    cases above with
    | cons g' above =>
        -- another handler is above it
        obtain ⟨rfl, rfl⟩ := List.cons.inj (hfs.symm.trans hframes)
        have hother : ∀ p, Stuck (s.setFrames t ({ g with prog := p } :: (above ++ f :: below)))
            t below := fun p ↦
          ⟨{ g with prog := p } :: above, f, frames_setFrames, hbound⟩
        cases hm with
        | restarts => exact hother _
        | returns => exact ⟨above, f, frames_setFrames, hbound⟩
        | locks m after => exact hother after
        | unlocks m after => exact hother after
        | steps act after => exact hother (after s.data)
        | picks after => exact hother (after n)
    | nil =>
        obtain ⟨rfl, rfl⟩ := List.cons.inj (hfs.symm.trans hframes)
        obtain ⟨hhandles, m, htakes, hbelow⟩ := hbound
        have hmoved : ∀ {w : Threads M σ S T} (p : Locked M σ Unit), p.Takes m →
            w.frames t = { g with prog := p } :: rest → Stuck w t rest := fun p hp hw ↦
          ⟨[], { g with prog := p }, hw, hhandles, m, hp, hbelow⟩
        cases hm with
        | restarts _ hsig => exact absurd hsig hhandles
        | returns hp _ =>
            rw [hp] at htakes
            exact htakes.elim
        | locks m' after hp hfree =>
            rw [hp] at htakes
            rcases htakes with rfl | htakes
            · have hstack := h t
              rw [hfs] at hstack
              cases hstack with
              | own hsig => exact absurd hsig hhandles
              | handler held _ _ _ howns _ _ _ =>
                  have hown : s.owner m' = some t := (howns m').mpr (.inr hbelow)
                  rw [hfree] at hown
                  cases hown
            · exact hmoved after htakes frames_setFrames
        | unlocks m' after hp _ =>
            rw [hp] at htakes
            exact hmoved after htakes frames_setFrames
        | steps act after hp =>
            rw [hp] at htakes
            exact hmoved _ (htakes s.data) frames_setFrames
        | picks after hp =>
            rw [hp] at htakes
            exact hmoved _ (htakes n) frames_setFrames
  · by_cases hv : t = v
    · subst hv
      exact ⟨_ :: above, f, frames_setFrames.trans (by rw [hframes]; rfl), hbound⟩
    · exact ⟨above, f, (frames_setFrames_ne hv).trans hframes, hbound⟩

/-- The steps of the threads. -/
abbrev Step (body : T → Locked M σ Unit) (handler : Locked M σ Unit) (s : Threads M σ S T)
    (a : ThreadAct S T) (u : Threads M σ S T) : Prop := next body handler s a = some u

/-- **A bound handler never returns.** -/
theorem Stuck.neverReturns (hstuck : Stuck s t below) (h : Sound new s)
    (hh : Handler always new handler) : NeverReturns (Step body handler) s t := by
  obtain ⟨above, f, hframes, hbound⟩ := hstuck
  refine ⟨above, f, below, hframes, hbound.1, fun as u hr ↦ ?_⟩
  have hend : Sound new u ∧ Stuck u t below :=
    hr.preserves (I := fun v ↦ Sound new v ∧ Stuck v t below)
      (fun _ _ _ hv hs ↦ ⟨hv.1.step hh hs, hv.2.step hv.1 hs⟩) ⟨h, above, f, hframes, hbound⟩
  obtain ⟨-, above', f', hframes', hbound'⟩ := hend
  exact ⟨above', f', hframes', hbound'.1⟩

/-- **A step that is not harmless binds a handler.** -/
theorem stuck_of_not_harmless (h : Sound new s) (hh : Handler always new handler)
    {a : ThreadAct S T} (hs : next body handler s a = some u) (ha : ¬ Harmless always new s a) :
    ∃ t below, Stuck u t below := by
  rcases next_inv hs with ⟨t, n, f, below, rfl, hfs, hm⟩ | ⟨t, sig, rfl, rfl⟩
  · simp only [Harmless, not_forall] at ha
    obtain ⟨f', below', act, after, hfs', hhandles, hp, m, hnew, hbelow⟩ := ha
    obtain ⟨rfl, rfl⟩ := List.cons.inj (hfs.symm.trans hfs')
    have hstack := h t
    rw [hfs] at hstack
    cases hstack with
    | own hsig => exact absurd hsig hhandles
    | handler held _ hsettled _ _ _ _ _ =>
        rw [hp] at hsettled
        have htakes : (after s.data).Takes m := ((hsettled s.data).1 m).mpr (.inr hnew)
        cases hm with
        | steps act' after' hp' =>
            obtain ⟨rfl, rfl⟩ := Locked.step.inj (hp.symm.trans hp')
            exact ⟨t, below, [], { f with prog := after s.data }, frames_setFrames, hhandles, m,
              htakes, by simpa using hbelow⟩
        | restarts hp' | returns hp' | locks _ _ hp' | unlocks _ _ hp' | picks _ hp' =>
            rw [hp] at hp'
            cases hp'
  · simp only [Harmless, not_forall, not_not] at ha
    obtain ⟨m, halways, howner⟩ := ha
    exact ⟨t, s.frames t, [], _, frames_setFrames, Option.some_ne_none _, m,
      (hh.takes_iff m).mpr halways, by simpa using howner⟩

/-! ## Runs -/

/-- **Where all steps are harmless no handler waits for its own thread, and the first that is not
makes one that never returns.** -/
theorem run_harmless (hh : Handler always new handler) {data : σ} {as : List (ThreadAct S T)}
    (hr : Run (Guarded (Step body handler) (Harmless always new)) (start data body) as s) :
    (∀ t, ¬ WaitsForItself s t) ∧
      ∀ a u, Step body handler s a u → ¬ Harmless always new s a →
        ∃ t, NeverReturns (Step body handler) u t := by
  have hend : Sound new s ∧ Clear s :=
    hr.preserves (I := fun v ↦ Sound new v ∧ Clear v)
      (fun _ _ _ hv hs ↦ ⟨hv.1.step hh hs.1, hv.2.step hv.1 hh hs.1 hs.2⟩)
      ⟨sound_start data, by simp [Clear, start, Frame.Bound, Frame.Handles]⟩
  refine ⟨hend.2.not_waitsForItself hend.1, fun a u hs ha ↦ ?_⟩
  obtain ⟨t, below, hstuck⟩ := stuck_of_not_harmless hend.1 hh hs ha
  exact ⟨t, hstuck.neverReturns (hend.1.step hh hs) hh⟩

end Threads

end Lib
