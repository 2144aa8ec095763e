import XNMiner.Common

/-!
# Queue policy: the XUNI windows and the flush order

`queue/policy.cpp` reads the local minute of the hour each time it is asked.  Here the
minute is an argument, so that "in the same minute" can be said.
-/

namespace XNMiner

/-- The pool accepts XUNI in the minutes `:56`–`:59` and `:00`–`:04`. -/
def inXuniWindow (minute : Nat) : Bool := decide (56 ≤ minute) || decide (minute < 5)

/-- Queued XUNI are flushed one minute earlier, from `:55`. -/
def inXuniSubmitWindow (minute : Nat) : Bool := decide (55 ≤ minute) || decide (minute < 5)

/-- The last minute of the accept window. -/
def inXuniTaperWindow (minute : Nat) : Bool := decide (minute = 4)

def difficultyChangeReason : String := "difficulty_change"
def outsideXuniWindowReason : String := "outside_xuni_window"
def shutdownPendingReason : String := "shutdown_pending"
def matchWindowNewReason : String := "match_window_new"

/-- Whether a block of this type may be submitted now, and why (not). -/
def readyToFlush (minute : Nat) (blockType : String) : Bool × String :=
  let kind := upper blockType
  if kind = "XUNI" ∧ inXuniSubmitWindow minute = false then
    (false, "waiting_for_xuni_window")
  else if kind = "XNM" ∨ kind = "XBLK" ∨ kind = "XUNI" ∨ kind = "XEN11" ∨ kind = "NORMAL" then
    (true, "ready")
  else
    -- unknown types still flush
    (true, "ready")

/-- Lower is flushed sooner. -/
def flushPriority (blockType : String) : Nat :=
  let kind := upper blockType
  if kind = "XNM" ∨ kind = "XEN11" ∨ kind = "NORMAL" then 0
  else if kind = "XBLK" then 1
  else if kind = "XUNI" then 2
  else 3

/-- A block is held back exactly when it is an XUNI outside the submit window. -/
theorem readyToFlush_eq_false_iff {minute : Nat} {blockType : String} :
    (readyToFlush minute blockType).1 = false ↔
      upper blockType = "XUNI" ∧ inXuniSubmitWindow minute = false := by
  unfold readyToFlush
  constructor
  · intro h
    by_contra hc
    simp only [if_neg hc, ite_self] at h
    exact absurd h (by simp)
  · intro h
    simp [h]

/-- Inside the submit window every block is ready. -/
theorem readyToFlush_of_window {minute : Nat} (h : inXuniSubmitWindow minute = true)
    (blockType : String) : (readyToFlush minute blockType).1 = true := by
  by_contra hc
  rw [Bool.not_eq_true, readyToFlush_eq_false_iff] at hc
  simp [h] at hc

end XNMiner
