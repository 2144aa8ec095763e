import Mathlib.Data.Rat.Floor

/-!
# JSON documents and typed member reads

A JSON document as a value: the text form is not modelled, because a program that only
ever prints a document and parses a text sees a text through the document it parses to
(`none` where it does not parse).  Integers and non-integers are kept apart, as parsers
with a native integer type do, and a real number is an opaque rational.

The reads are those of a library with *typed, defaulted, throwing* access: `value` answers
the default when the key is absent, converts the member when it is present, and throws when
the member has another type or the document is no object.  Throwing is `none`.
Conversions to fixed-width integers wrap as a C cast does.
-/

namespace Lib

/-- A JSON document. -/
inductive Json where
  | null
  | bool (b : Bool)
  | int (n : Int)
  | real (q : Rat)
  | str (s : String)
  | arr (items : List Json)
  | obj (members : List (String × Json))

/-- The value of an integer after a cast to `w` bits, two's complement. -/
def wrap (w : Nat) (n : Int) : Int := n.bmod (2 ^ w)

/-- A cast leaves a number alone that fits. -/
theorem wrap_of_fits {w : Nat} {n : Int} (hw : 0 < w) (hlo : -2 ^ (w - 1) ≤ n)
    (hhi : n < 2 ^ (w - 1)) : wrap w n = n := by
  obtain ⟨k, rfl⟩ : ∃ k, w = k + 1 := ⟨w - 1, by omega⟩
  simp only [Nat.add_sub_cancel] at hlo hhi
  have hp : ((2 ^ (k + 1) : Nat) : Int) = 2 * 2 ^ k := by push_cast; ring
  unfold wrap
  apply Int.bmod_eq_of_le <;> rw [hp] <;> omega

/-- Casting twice is casting once. -/
@[simp] theorem wrap_wrap (w : Nat) (n : Int) : wrap w (wrap w n) = wrap w n := by
  simp [wrap]

namespace Json

/-- The member of an object under a key; a document that is no object has none. -/
def find? : Json → String → Option Json
  | obj ms, k => ms.lookup k
  | _, _ => none

/-- Whether the document is an object with this key. -/
def contains (j : Json) (k : String) : Bool := (j.find? k).isSome

/-- Whether the document is an object. -/
def isObject : Json → Bool
  | obj _ => true
  | _ => false

/-- Read as a string. -/
def toStr : Json → Option String
  | str s => some s
  | _ => none

/-- Read as a Boolean. -/
def toBool : Json → Option Bool
  | bool b => some b
  | _ => none

/-- A real number cut towards zero. -/
def truncate (q : Rat) : Int := if q < 0 then ⌈q⌉ else ⌊q⌋

/-- Read as the native 64-bit integer: any number, cast. -/
def toInt64 : Json → Option Int
  | int n => some (wrap 64 n)
  | real q => some (wrap 64 (truncate q))
  | _ => none

/-- Read as a 32-bit `int`: any number or Boolean, cast. -/
def toInt32 : Json → Option Int
  | int n => some (wrap 32 n)
  | real q => some (wrap 32 (truncate q))
  | bool b => some (if b then 1 else 0)
  | _ => none

/-- Read as a real number: any number. -/
def toReal : Json → Option Rat
  | int n => some n
  | real q => some q
  | _ => none

/-- Typed read with a default: the default when the key is absent, the converted member
when it is there, and `none` (a throw) when its type is another or `j` is no object. -/
def value {α : Type} (j : Json) (conv : Json → Option α) (key : String) (default : α) :
    Option α :=
  match j with
  | obj ms => match ms.lookup key with
    | some v => conv v
    | none => some default
  | _ => none

/-- The member under a key converts, where there is one. -/
def Reads {α : Type} (j : Json) (conv : Json → Option α) (key : String) : Prop :=
  ∀ v ∈ j.find? key, (conv v).isSome = true

/-- A typed read of an object goes through exactly when the member converts. -/
theorem value_isSome_iff {α : Type} {j : Json} (hobj : j.isObject = true)
    (conv : Json → Option α) (key : String) (default : α) :
    (j.value conv key default).isSome = true ↔ j.Reads conv key := by
  cases j with
  | obj members =>
      unfold value Reads find?
      dsimp only
      cases members.lookup key with
      | none => simp
      | some v => simp
  | _ => cases hobj

/-- A typed read that goes through was one of an object. -/
theorem isObject_of_value {α : Type} {j : Json} {conv : Json → Option α} {key : String}
    {default : α} (h : (j.value conv key default).isSome = true) : j.isObject = true := by
  cases j with
  | obj members => rfl
  | _ => cases h

/-- The members of an array. -/
def items? : Json → Option (List Json)
  | arr l => some l
  | _ => none

end Json

end Lib
