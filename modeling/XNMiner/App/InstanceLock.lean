import XNMiner.Lib.Lts
import Mathlib.Logic.Function.Basic

/-!
# One instance at a time

`InstanceLock` (`app/instance_lock.cpp`, the build for Linux) lets one miner run on a directory:
`acquire` opens `miner.lock`, creating it when there is none, and takes an exclusive `flock`
without waiting; `release` gives the lock back, closes the file, and removes the path.

The lock belongs to the file (the inode), but it is looked up by the path.  The model has one
step for each system call; any number of processes take them in any order.  Files are numbered
in the order of their creation.  An `open` that fails changes nothing, so it is no step.
-/

namespace XNMiner

open Lib

/-- Where a process is in `acquire` or `release`, with the file its descriptor belongs to. -/
inductive LockPc
  /-- It has no descriptor and will not remove the path. -/
  | idle
  /-- `acquire`, after `open`. -/
  | opened (file : Nat)
  /-- `acquire`, after a `flock` that failed. -/
  | refused (file : Nat)
  /-- `acquire`, after a `flock` that succeeded. -/
  | locked (file : Nat)
  /-- `acquire` has returned `true`. -/
  | held (file : Nat)
  /-- `release`, after `LOCK_UN`. -/
  | unlocked (file : Nat)
  /-- `release`, after `close`. -/
  | closed
deriving DecidableEq

/-- The system calls. -/
inductive LockCall
  | openCreate
  | flock
  /-- `ftruncate` and `write`, after which `acquire` returns. -/
  | writePid
  | unlock
  | close
  | remove
deriving DecidableEq

/-- The processes, the path and the locks. -/
structure LockSys (P : Type) where
  /-- The file that the path names. -/
  path : Option Nat := none
  /-- Files from here on have not been created. -/
  fresh : Nat := 0
  /-- Who has the lock on a file. -/
  owner : Nat → Option P := fun _ ↦ none
  proc : P → LockPc := fun _ ↦ .idle

namespace LockSys

variable {P : Type} [DecidableEq P]

def setProc (s : LockSys P) (p : P) (pc : LockPc) : LockSys P :=
  { s with proc := Function.update s.proc p pc }

/-- One system call of a process, if that is its next one. -/
def step (s : LockSys P) (act : P × LockCall) : Option (LockSys P) :=
  let p := act.1
  match act.2, s.proc p with
  | .openCreate, .idle => match s.path with
      | some file => some (s.setProc p (.opened file))
      | none => some (({ s with path := some s.fresh, fresh := s.fresh + 1 }).setProc p
          (.opened s.fresh))
  | .flock, .opened file =>
      if s.owner file = none then
        some (({ s with owner := Function.update s.owner file (some p) }).setProc p (.locked file))
      else some (s.setProc p (.refused file))
  | .close, .refused _ => some (s.setProc p .idle)
  | .writePid, .locked file => some (s.setProc p (.held file))
  | .unlock, .held file =>
      some (({ s with owner := Function.update s.owner file none }).setProc p (.unlocked file))
  | .close, .unlocked _ => some (s.setProc p .closed)
  | .remove, .closed => some (({ s with path := none }).setProc p .idle)
  | _, _ => none

/-- The steps of the system. -/
def Step (s : LockSys P) (act : P × LockCall) (t : LockSys P) : Prop := s.step act = some t

/-- Between a successful `acquire` and the `LOCK_UN` of `release`. -/
def Inside (s : LockSys P) (p : P) : Prop := ∃ file, s.proc p = .held file

/-- At most one process is inside. -/
def Exclusive (s : LockSys P) : Prop := ∀ p q, s.Inside p → s.Inside q → p = q

/-- No process has called anything yet.  A `miner.lock` may have been left behind. -/
structure Starts (s : LockSys P) : Prop where
  proc : ∀ p, s.proc p = .idle
  owner : ∀ file, s.owner file = none
  path : ∀ file, s.path = some file → file < s.fresh

/-! ## What a call does -/

/-- The process has the file open, and may have or get the lock on it. -/
def Uses (s : LockSys P) (p : P) (file : Nat) : Prop :=
  s.proc p = .opened file ∨ s.proc p = .locked file ∨ s.proc p = .held file

/-- The process has the lock on the file. -/
def Owns (s : LockSys P) (p : P) (file : Nat) : Prop :=
  s.proc p = .locked file ∨ s.proc p = .held file

omit [DecidableEq P] in
theorem Owns.uses {s : LockSys P} {p : P} {file : Nat} (h : s.Owns p file) : s.Uses p file :=
  .inr h

@[simp] theorem proc_setProc_self (s : LockSys P) (p : P) (pc : LockPc) :
    (s.setProc p pc).proc p = pc := Function.update_self ..

theorem proc_setProc_of_ne (s : LockSys P) {p q : P} (h : q ≠ p) (pc : LockPc) :
    (s.setProc p pc).proc q = s.proc q := Function.update_of_ne h ..

/-- **All a call can do.** -/
inductive Effect (s : LockSys P) (p : P) : LockCall → LockSys P → Prop
  | reopen {file : Nat} : s.proc p = .idle → s.path = some file →
      Effect s p .openCreate (s.setProc p (.opened file))
  | create : s.proc p = .idle → s.path = none →
      Effect s p .openCreate
        (({ s with path := some s.fresh, fresh := s.fresh + 1 }).setProc p (.opened s.fresh))
  | lock {file : Nat} : s.proc p = .opened file → s.owner file = none →
      Effect s p .flock
        (({ s with owner := Function.update s.owner file (some p) }).setProc p (.locked file))
  | refuse {file : Nat} : s.proc p = .opened file → s.owner file ≠ none →
      Effect s p .flock (s.setProc p (.refused file))
  | giveUp {file : Nat} : s.proc p = .refused file → Effect s p .close (s.setProc p .idle)
  | writePid {file : Nat} : s.proc p = .locked file →
      Effect s p .writePid (s.setProc p (.held file))
  | unlock {file : Nat} : s.proc p = .held file →
      Effect s p .unlock
        (({ s with owner := Function.update s.owner file none }).setProc p (.unlocked file))
  | close {file : Nat} : s.proc p = .unlocked file → Effect s p .close (s.setProc p .closed)
  | remove : s.proc p = .closed →
      Effect s p .remove (({ s with path := none }).setProc p .idle)

theorem effect_of_step {s t : LockSys P} {p : P} {call : LockCall} (h : Step s (p, call) t) :
    Effect s p call t := by
  change s.step (p, call) = some t at h
  unfold step at h
  dsimp only at h
  split at h
  · next hpc =>
    split at h
    · next hpath => exact Option.some.inj h ▸ .reopen hpc hpath
    · next hpath => exact Option.some.inj h ▸ .create hpc hpath
  · next hpc =>
    split at h
    · next hown => exact Option.some.inj h ▸ .lock hpc hown
    · next hown => exact Option.some.inj h ▸ .refuse hpc hown
  · next hpc => exact Option.some.inj h ▸ .giveUp hpc
  · next hpc => exact Option.some.inj h ▸ .writePid hpc
  · next hpc => exact Option.some.inj h ▸ .unlock hpc
  · next hpc => exact Option.some.inj h ▸ .close hpc
  · next hpc => exact Option.some.inj h ▸ .remove hpc
  · cases h

/-- What the process that moved uses afterwards. -/
theorem uses_setProc_self {s : LockSys P} {p : P} {pc : LockPc} {file : Nat} :
    (s.setProc p pc).Uses p file ↔ pc = .opened file ∨ pc = .locked file ∨ pc = .held file := by
  simp only [Uses, proc_setProc_self]

theorem owns_setProc_self {s : LockSys P} {p : P} {pc : LockPc} {file : Nat} :
    (s.setProc p pc).Owns p file ↔ pc = .locked file ∨ pc = .held file := by
  simp only [Owns, proc_setProc_self]

/-- What another process uses it used before. -/
theorem uses_setProc_of_ne {s : LockSys P} {p q : P} {pc : LockPc} {file : Nat} (hq : q ≠ p) :
    (s.setProc p pc).Uses q file ↔ s.Uses q file := by
  simp only [Uses, proc_setProc_of_ne s hq]

theorem owns_setProc_of_ne {s : LockSys P} {p q : P} {pc : LockPc} {file : Nat} (hq : q ≠ p) :
    (s.setProc p pc).Owns q file ↔ s.Owns q file := by
  simp only [Owns, proc_setProc_of_ne s hq]

/-! ## The books of the kernel -/

/-- What holds of files and locks in any run. -/
structure Tidy (s : LockSys P) : Prop where
  path : ∀ file, s.path = some file → file < s.fresh
  uses : ∀ p file, s.Uses p file → file < s.fresh
  fresh : ∀ file, s.fresh ≤ file → s.owner file = none
  owner : ∀ p file, s.owner file = some p ↔ s.Owns p file

omit [DecidableEq P] in
theorem Starts.tidy {s : LockSys P} (h : s.Starts) : s.Tidy where
  path := h.path
  uses p file hp := by simp [Uses, h.proc p] at hp
  fresh file _ := h.owner file
  owner p file := by simp [Owns, h.proc p, h.owner file]

/-- The conditions for a state in which `p` has moved. -/
theorem tidy_setProc {s : LockSys P} {p : P} {pc : LockPc}
    (hpath : ∀ file, s.path = some file → file < s.fresh)
    (huses : ∀ q file, q ≠ p → s.Uses q file → file < s.fresh)
    (hfresh : ∀ file, s.fresh ≤ file → s.owner file = none)
    (howner : ∀ q file, q ≠ p → (s.owner file = some q ↔ s.Owns q file))
    (husesp : ∀ file, pc = .opened file ∨ pc = .locked file ∨ pc = .held file → file < s.fresh)
    (hownerp : ∀ file, s.owner file = some p ↔ pc = .locked file ∨ pc = .held file) :
    (s.setProc p pc).Tidy := by
  refine ⟨hpath, fun q file hq ↦ ?_, hfresh, fun q file ↦ ?_⟩
  · by_cases hqp : q = p
    · subst hqp
      exact husesp file (uses_setProc_self.mp hq)
    · exact huses q file hqp ((uses_setProc_of_ne hqp).mp hq)
  · by_cases hqp : q = p
    · subst hqp
      exact (hownerp file).trans owns_setProc_self.symm
    · exact (howner q file hqp).trans (owns_setProc_of_ne hqp).symm

/-- Every call keeps the books. -/
theorem Tidy.step {s t : LockSys P} {act : P × LockCall} (h : s.Tidy) (hs : Step s act t) :
    t.Tidy := by
  obtain ⟨p, call⟩ := act
  cases effect_of_step hs with
  | @reopen file hpc hpath =>
      refine tidy_setProc h.path (fun q f _ ↦ h.uses q f) h.fresh (fun q f _ ↦ h.owner q f) ?_
        fun f ↦ (h.owner p f).trans (by simp [Owns, hpc])
      rintro f (hf | hf | hf)
      · exact LockPc.opened.inj hf ▸ h.path file hpath
      · cases hf
      · cases hf
  | create hpc hpath =>
      refine tidy_setProc ?_ (fun q f _ hq ↦ Nat.lt_succ_of_lt (h.uses q f hq))
        (fun f hf ↦ h.fresh f (Nat.le_of_succ_le hf)) (fun q f _ ↦ h.owner q f) ?_
        fun f ↦ (h.owner p f).trans (by simp [Owns, hpc])
      · intro f hf
        exact Option.some.inj hf ▸ Nat.lt_succ_self _
      · rintro f (hf | hf | hf)
        · exact LockPc.opened.inj hf ▸ Nat.lt_succ_self _
        · cases hf
        · cases hf
  | @lock file hpc hown =>
      have hlt := h.uses p file (.inl hpc)
      have hself : Function.update s.owner file (some p) file = some p := Function.update_self ..
      have hother {f : Nat} (hf : f ≠ file) :
          Function.update s.owner file (some p) f = s.owner f := Function.update_of_ne hf ..
      refine tidy_setProc h.path (fun q f _ ↦ h.uses q f) (fun f hf ↦ ?_) (fun q f hqp ↦ ?_)
        ?_ (fun f ↦ ?_)
      · have hne : f ≠ file := fun heq ↦ absurd (heq ▸ hf) (Nat.not_le_of_lt hlt)
        exact (hother hne).trans (h.fresh f hf)
      · change Function.update s.owner file (some p) f = some q ↔ s.Owns q f
        by_cases hf : f = file
        · subst hf
          -- nobody had the lock, and now `p` has it
          rw [hself, ← h.owner q f, hown]
          simp [hqp.symm]
        · rw [hother hf, h.owner q f]
      · rintro f (hf | hf | hf)
        · cases hf
        · exact LockPc.locked.inj hf ▸ hlt
        · cases hf
      · change Function.update s.owner file (some p) f = some p ↔ _
        by_cases hf : f = file
        · subst hf
          simp
        · rw [hother hf, h.owner p f]
          simp [Owns, hpc, Ne.symm hf]
  | refuse hpc | giveUp hpc | close hpc =>
      exact tidy_setProc h.path (fun q f _ ↦ h.uses q f) h.fresh (fun q f _ ↦ h.owner q f)
        (by simp) fun f ↦ (h.owner p f).trans (by simp [Owns, hpc])
  | @writePid file hpc =>
      refine tidy_setProc h.path (fun q f _ ↦ h.uses q f) h.fresh (fun q f _ ↦ h.owner q f) ?_
        fun f ↦ (h.owner p f).trans (by simp [Owns, hpc])
      rintro f (hf | hf | hf)
      · cases hf
      · cases hf
      · exact LockPc.held.inj hf ▸ h.uses p file (.inr (.inl hpc))
  | @unlock file hpc =>
      have hself : Function.update s.owner file none file = none := Function.update_self ..
      have hother {f : Nat} (hf : f ≠ file) :
          Function.update s.owner file none f = s.owner f := Function.update_of_ne hf ..
      refine tidy_setProc h.path (fun q f _ ↦ h.uses q f) (fun f hf ↦ ?_) (fun q f hqp ↦ ?_)
        (by simp) (fun f ↦ ?_)
      · by_cases hff : f = file
        · exact hff ▸ hself
        · exact (hother hff).trans (h.fresh f hf)
      · change Function.update s.owner file none f = some q ↔ s.Owns q f
        by_cases hf : f = file
        · subst hf
          -- `p` had the lock, so `q` had not
          rw [hself, ← h.owner q f, (h.owner p f).mpr (.inr hpc)]
          simp [hqp.symm]
        · rw [hother hf, h.owner q f]
      · change Function.update s.owner file none f = some p ↔ _
        by_cases hf : f = file
        · subst hf
          simp
        · rw [hother hf, h.owner p f]
          simp [Owns, hpc, Ne.symm hf]
  | remove hpc =>
      exact tidy_setProc (fun f hf ↦ absurd hf (by simp)) (fun q f _ ↦ h.uses q f) h.fresh
        (fun q f _ ↦ h.owner q f) (by simp) fun f ↦ (h.owner p f).trans (by simp [Owns, hpc])

/-! ## While the path stays where it is used -/

/-- `remove` deletes the path only when no process uses the file it names. -/
def Unused (s : LockSys P) (act : P × LockCall) : Prop :=
  act.2 = .remove → ∀ q file, s.path = some file → ¬ s.Uses q file

/-- Every file in use is the one that the path names. -/
def Named (s : LockSys P) : Prop := ∀ p file, s.Uses p file → s.path = some file

omit [DecidableEq P] in
/-- Then two processes inside have the lock on one file. -/
theorem Named.exclusive {s : LockSys P} (h : s.Named) (hs : s.Tidy) : s.Exclusive := by
  rintro p q ⟨file, hp⟩ ⟨file', hq⟩
  have hpath := h p file (.inr (.inr hp))
  have hpath' := h q file' (.inr (.inr hq))
  obtain rfl : file = file' := Option.some.inj (hpath.symm.trans hpath')
  have hown := (hs.owner p file).mpr (.inr hp)
  exact Option.some.inj (hown.symm.trans ((hs.owner q file).mpr (.inr hq)))

theorem named_setProc {s : LockSys P} {p : P} {pc : LockPc}
    (hpath : ∀ q file, q ≠ p → s.Uses q file → s.path = some file)
    (huses : ∀ file, pc = .opened file ∨ pc = .locked file ∨ pc = .held file →
      s.path = some file) : (s.setProc p pc).Named := by
  intro q file hq
  by_cases hqp : q = p
  · subst hqp
    exact huses file (uses_setProc_self.mp hq)
  · exact hpath q file hqp ((uses_setProc_of_ne hqp).mp hq)

/-- **A call keeps the path where it is used**, if it does not delete a path in use. -/
theorem Named.step {s t : LockSys P} {act : P × LockCall} (h : s.Named) (hs : Step s act t)
    (hok : s.Unused act) : t.Named := by
  obtain ⟨p, call⟩ := act
  cases effect_of_step hs with
  | reopen hpc hpath =>
      refine named_setProc (fun q f _ ↦ h q f) ?_
      rintro f (hf | hf | hf)
      · exact LockPc.opened.inj hf ▸ hpath
      · cases hf
      · cases hf
  | create hpc hpath =>
      refine named_setProc (fun q f _ hq ↦ ?_) ?_
      · -- without a path nothing was in use
        have hsome := h q f hq
        rw [hpath] at hsome
        cases hsome
      · rintro f (hf | hf | hf)
        · exact congrArg some (LockPc.opened.inj hf)
        · cases hf
        · cases hf
  | @lock file hpc =>
      refine named_setProc (fun q f _ ↦ h q f) ?_
      rintro f (hf | hf | hf)
      · cases hf
      · exact LockPc.locked.inj hf ▸ h p file (.inl hpc)
      · cases hf
  | @writePid file hpc =>
      refine named_setProc (fun q f _ ↦ h q f) ?_
      rintro f (hf | hf | hf)
      · cases hf
      · cases hf
      · exact LockPc.held.inj hf ▸ h p file (.inr (.inl hpc))
  | refuse | giveUp | unlock | close =>
      exact named_setProc (fun q f _ ↦ h q f) (by simp)
  | remove hpc =>
      exact named_setProc (fun q f _ hq ↦ absurd hq (hok rfl q f (h q f hq))) (by simp)

/-! ## When a path in use is deleted -/

/-- From `s`, `q` can get inside, and nothing else changes. -/
def CanEnter (s : LockSys P) (q : P) : Prop :=
  ∃ acts t, Run Step s acts t ∧ t.Inside q ∧ t.path = s.path ∧ ∀ r, r ≠ q → t.proc r = s.proc r

theorem canEnter_of_locked {s : LockSys P} {q : P} {file : Nat} (hq : s.proc q = .locked file) :
    s.CanEnter q := by
  have hstep : Step s (q, .writePid) (s.setProc q (.held file)) := by simp [Step, step, hq]
  exact ⟨_, _, .single hstep, ⟨file, proc_setProc_self ..⟩, rfl, fun r hr ↦
    proc_setProc_of_ne s hr _⟩

/-- A process that uses a file on which nobody else has the lock can get inside. -/
theorem canEnter_of_uses {s : LockSys P} (hs : s.Tidy) {q : P} {file : Nat}
    (huse : s.Uses q file) (hfree : s.owner file = none ∨ s.owner file = some q) :
    s.CanEnter q := by
  rcases huse with hq | hq | hq
  · have hown : s.owner file = none := by
      refine hfree.resolve_right fun ho ↦ ?_
      have := (hs.owner q file).mp ho
      simp [Owns, hq] at this
    have hlock : Step s (q, .flock) (({ s with
        owner := Function.update s.owner file (some q) }).setProc q (.locked file)) := by
      simp [Step, step, hq, hown]
    obtain ⟨acts, t, hr, hin, hpath, hrest⟩ :=
      canEnter_of_locked (proc_setProc_self { s with
        owner := Function.update s.owner file (some q) } q (.locked file))
    exact ⟨_, t, .cons hlock hr, hin, hpath, fun r hne ↦
      (hrest r hne).trans (proc_setProc_of_ne _ hne _)⟩
  · exact canEnter_of_locked hq
  · exact ⟨[], s, .nil s, ⟨file, hq⟩, rfl, fun _ _ ↦ rfl⟩

/-- **After a path in use is deleted** two processes can get inside: one through the old file,
and one through a new file. -/
theorem not_exclusive_of_used {s t : LockSys P} (hs : s.Tidy) {p r : P}
    (h : Step s (p, .remove) t) (hused : ¬ s.Unused (p, .remove)) (hr : s.proc r = .idle) :
    ∃ acts u, Run Step t acts u ∧ ¬ u.Exclusive := by
  have ht := hs.step h
  cases effect_of_step h with
  | remove hp =>
  -- somebody uses the file, and can get the lock on it
  obtain ⟨q, file, huse, hfree⟩ : ∃ q file, s.Uses q file ∧
      (s.owner file = none ∨ s.owner file = some q) := by
    simp only [Unused, forall_const, not_forall, not_not] at hused
    obtain ⟨q, file, -, huse⟩ := hused
    cases ho : s.owner file with
    | none => exact ⟨q, file, huse, .inl ho⟩
    | some q' => exact ⟨q', file, ((hs.owner q' file).mp ho).uses, .inr ho⟩
  have hqp : q ≠ p := by
    rintro rfl
    simp [Uses, hp] at huse
  have hrp : r ≠ p := by
    rintro rfl
    rw [hp] at hr
    cases hr
  have hrq : r ≠ q := by
    rintro rfl
    simp [Uses, hr] at huse
  obtain ⟨acts, u, hu, hqin, hpath, hrest⟩ :=
    canEnter_of_uses ht ((uses_setProc_of_ne hqp).mpr huse) hfree
  -- `r` creates a new file, on which nobody has a lock
  have hur : u.proc r = .idle := by rw [hrest r hrq, proc_setProc_of_ne _ hrp, hr]
  have hutidy : u.Tidy := hu.preserves (fun _ _ _ h hs ↦ h.step hs) ht
  have hcreate : Step u (r, .openCreate)
      (({ u with path := some u.fresh, fresh := u.fresh + 1 }).setProc r (.opened u.fresh)) := by
    simp only [Step, step, hur]
    rw [hpath]
    rfl
  obtain ⟨acts', v, hv, hrin, -, hrest'⟩ := canEnter_of_uses (hutidy.step hcreate)
    (.inl (proc_setProc_self ..)) (.inl (hutidy.fresh u.fresh (Nat.le_refl _)))
  refine ⟨_, v, hu.append (.cons hcreate hv), fun hex ↦ hrq (hex r q hrin ?_)⟩
  obtain ⟨f, hf⟩ := hqin
  refine ⟨f, ?_⟩
  rw [hrest' q hrq.symm, proc_setProc_of_ne _ hrq.symm]
  exact hf

/-! ## Every run -/

omit [DecidableEq P] in
theorem Starts.named {s : LockSys P} (h : s.Starts) : s.Named := by
  intro p file hp
  simp [Uses, h.proc p] at hp

/-- **One instance at a time, while no path in use is deleted.**  In every run in which `remove`
deletes the path only when no process uses the file it names, at most one process is inside at
any moment.  The condition is exact: after a `remove` that violates it two processes can get
inside, if there is one more process that has yet to start. -/
theorem exclusive_iff_unused {s t : LockSys P} (hs : s.Starts) {acts : List (P × LockCall)} :
    (Run (Guarded Step Unused) s acts t → t.Exclusive) ∧
    (Run Step s acts t → ∀ p u, Step t (p, .remove) u → ¬ t.Unused (p, .remove) →
      ∀ r, t.proc r = .idle → ∃ acts' v, Run Step u acts' v ∧ ¬ v.Exclusive) := by
  constructor
  · intro hr
    have htidy : t.Tidy := hr.of_guarded.preserves (fun _ _ _ h hs ↦ h.step hs) hs.tidy
    have hnamed : t.Named := hr.preserves (fun _ _ _ h hs ↦ h.step hs.1 hs.2) hs.named
    exact hnamed.exclusive htidy
  · intro hr p u hstep hused r hidle
    have htidy : t.Tidy := hr.preserves (fun _ _ _ h hs ↦ h.step hs) hs.tidy
    exact not_exclusive_of_used htidy hstep hused hidle

/-! ### Three processes -/

/-- The first process releases while the second has the file open, and the third starts. -/
def threeStarts : List (Nat × LockCall) :=
  [(0, .openCreate), (0, .flock), (0, .writePid), (1, .openCreate), (0, .unlock), (1, .flock),
    (1, .writePid), (0, .close), (0, .remove), (2, .openCreate), (2, .flock), (2, .writePid)]

/-- Then two of them are inside. -/
theorem two_instances : ∃ t : LockSys Nat, Run Step {} threeStarts t ∧ ¬ t.Exclusive := by
  obtain ⟨t, ht, hin⟩ := Option.map_eq_some_iff.mp (show
    (exec step ({} : LockSys Nat) threeStarts).map (fun t ↦ (t.proc 1, t.proc 2)) =
      some (.held 0, .held 1) by decide)
  refine ⟨t, run_of_exec ht, fun hex ↦ ?_⟩
  have h₁ : t.proc 1 = .held 0 := congrArg Prod.fst hin
  have h₂ : t.proc 2 = .held 1 := congrArg Prod.snd hin
  exact absurd (hex 1 2 ⟨0, h₁⟩ ⟨1, h₂⟩) (by decide)

/-- A run without a `remove` deletes no path in use. -/
theorem run_guarded {s t : LockSys P} {acts : List (P × LockCall)} (hr : Run Step s acts t)
    (h : ∀ act ∈ acts, act.2 ≠ .remove) : Run (Guarded Step Unused) s acts t := by
  induction hr with
  | nil => exact .nil _
  | cons hs _ ih =>
      exact .cons ⟨hs, fun hrem ↦ absurd hrem (h _ List.mem_cons_self)⟩
        (ih fun act ha ↦ h act (List.mem_cons_of_mem _ ha))

/-- A second instance is refused; and when the first one deletes the path that a second one has
open, a third one gets inside as well. -/
theorem exclusive_iff_unused_three :
    (∃ t : LockSys Nat, t.proc 0 = .held 0 ∧ t.proc 1 = .refused 0 ∧ t.Exclusive) ∧
      ∃ t u : LockSys Nat, t.proc 1 = .held 0 ∧ Step t (0, .remove) u ∧
        ∃ acts v, Run Step u acts v ∧ ¬ v.Exclusive := by
  have hs : Starts ({} : LockSys Nat) := ⟨fun _ ↦ rfl, fun _ ↦ rfl, fun _ h ↦ by cases h⟩
  constructor
  · obtain ⟨t, ht, hpc⟩ := Option.map_eq_some_iff.mp (show
      (exec step ({} : LockSys Nat)
        [(0, .openCreate), (1, .openCreate), (0, .flock), (0, .writePid), (1, .flock)]).map
          (fun t ↦ (t.proc 0, t.proc 1)) = some (.held 0, .refused 0) by decide)
    exact ⟨t, congrArg Prod.fst hpc, congrArg Prod.snd hpc,
      (exclusive_iff_unused hs).1 (run_guarded (run_of_exec ht) (by decide))⟩
  · obtain ⟨t, ht, hpc⟩ := Option.map_eq_some_iff.mp (show
      (exec step ({} : LockSys Nat) (threeStarts.take 8)).map
        (fun t ↦ (t.path, t.proc 0, t.proc 1, t.proc 2)) =
          some (some 0, .closed, .held 0, .idle) by decide)
    simp only [Prod.mk.injEq] at hpc
    obtain ⟨hpath, h₀, h₁, h₂⟩ := hpc
    have hstep : Step t (0, .remove) (({ t with path := none }).setProc 0 .idle) := by
      simp [Step, step, h₀]
    refine ⟨t, _, h₁, hstep, (exclusive_iff_unused hs).2 (run_of_exec ht) 0 _ hstep ?_ 2 h₂⟩
    exact fun hun ↦ hun rfl 1 0 hpath (.inr (.inr h₁))

end LockSys

end XNMiner
