import XNMiner.Lib.Lts
import Mathlib.Data.List.Infix

/-!
# Channels that are restarted

A channel takes values on one side and hands them out on the other, in the order in which they
came.  Now and then it is restarted, which drops what is on its way, or closed; a closed channel
does nothing before it is restarted.

`run_fifo` is what a reader may rely on from one restart to the next: what has been received, and
what is still on its way, is a prefix of what has been sent.
-/

namespace Lib.Channel

variable {τ : Type*}

/-- What can happen to a channel. -/
inductive Event (τ : Type*)
  | keep
  | put (x : τ)
  | take (x : τ)
  | restart
  | close

/-- A channel is what is on its way, or `none` if it is closed. -/
inductive Step : Option (List τ) → Event τ → Option (List τ) → Prop
  | keep (c : Option (List τ)) : Step c .keep c
  | put (q : List τ) (x : τ) : Step (some q) (.put x) (some (q ++ [x]))
  | take (x : τ) (q : List τ) : Step (some (x :: q)) (.take x) (some q)
  | restart (c : Option (List τ)) : Step c .restart (some [])
  | close (c : Option (List τ)) : Step c .close none

/-- What an event sends. -/
def Event.sent : Event τ → List τ
  | .put x => [x]
  | _ => []

/-- What an event receives. -/
def Event.received : Event τ → List τ
  | .take x => [x]
  | _ => []

/-- What is on its way. -/
def pending : Option (List τ) → List τ
  | none => []
  | some q => q

variable {c c' : Option (List τ)} {es : List (Event τ)}

/-- A closed channel stays closed, and silent, until it is restarted. -/
theorem run_closed (hr : Run Step (none : Option (List τ)) es c) (hes : Event.restart ∉ es) :
    c = none ∧ es.flatMap Event.sent = [] ∧ es.flatMap Event.received = [] := by
  generalize hc : (none : Option (List τ)) = c₀ at hr
  induction hr with
  | nil =>
      subst hc
      exact ⟨rfl, rfl, rfl⟩
  | cons hs _ ih =>
      subst hc
      obtain ⟨hhead, htail⟩ := List.ne_and_not_mem_of_not_mem_cons hes
      cases hs with
      | keep => exact ih htail rfl
      | close => exact ih htail rfl
      | restart => exact absurd rfl hhead

/-- **Without a restart the channel is first in, first out**: what has been received, followed by
what is on its way, is a prefix of what has been sent. -/
theorem run_fifo (hr : Run Step c es c') (hes : Event.restart ∉ es) :
    es.flatMap Event.received ++ pending c' <+: pending c ++ es.flatMap Event.sent := by
  induction hr with
  | nil c => simp
  | @cons c d c' e es hs hr ih =>
      obtain ⟨hhead, htail⟩ := List.ne_and_not_mem_of_not_mem_cons hes
      have ih := ih htail
      cases hs with
      | keep => exact ih
      | put q x => simpa [pending, Event.sent, Event.received] using ih
      | take x q =>
          simpa [pending, Event.sent, Event.received, List.cons_prefix_cons] using ih
      | restart => exact absurd rfl hhead
      | close =>
          -- whatever was on its way is lost, but nothing comes after it
          obtain ⟨rfl, hsent, hreceived⟩ := run_closed hr htail
          simp [pending, Event.sent, Event.received, hsent, hreceived]

end Lib.Channel
