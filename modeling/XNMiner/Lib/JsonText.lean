import XNMiner.Lib.Json
import Mathlib.Data.List.Infix

/-!
# The text of a JSON document, and what is left of it when a write is cut off

`dump` prints a document without spaces.  How a real number is printed is a parameter; all that
matters here is that its text has no bracket and no quote.

A text that a parser accepts is closed: every bracket and every string that is opened is closed
again (`Complete`).  The text of an object closes its first bracket with its last character, so no
shorter prefix of it is complete (`not_complete_of_cut`), wherever it is cut off: inside a
number, a string or an escape.

A parser may take a NUL for the end of its input.  No text of a document has one, nor any other
control character (`printable_dump`).
-/

namespace Lib

/-! ## Scanning for brackets and strings -/

/-- Whether a reader is inside a string. -/
inductive ScanMode
  | plain
  | string
  /-- Behind a backslash. -/
  | escape
deriving DecidableEq

/-- Where a reader is: the number of open brackets, and whether it is inside a string. -/
structure Scan where
  depth : Nat
  mode : ScanMode
deriving DecidableEq

namespace Scan

/-- Read one character. -/
def next (s : Scan) (c : Char) : Scan :=
  match s.mode with
  | .escape => { s with mode := .string }
  | .string =>
      if c = '"' then { s with mode := .plain }
      else if c = '\\' then { s with mode := .escape }
      else s
  | .plain =>
      if c = '\x7b' ∨ c = '[' then { s with depth := s.depth + 1 }
      else if c = '\x7d' ∨ c = ']' then { s with depth := s.depth - 1 }
      else if c = '"' then { s with mode := .string }
      else s

/-- Read a text. -/
def text (s : Scan) (cs : List Char) : Scan := cs.foldl next s

@[simp] theorem text_nil (s : Scan) : s.text [] = s := rfl

@[simp] theorem text_cons (s : Scan) (c : Char) (cs : List Char) :
    s.text (c :: cs) = (s.next c).text cs := rfl

theorem text_append (s : Scan) (cs ds : List Char) : s.text (cs ++ ds) = (s.text cs).text ds :=
  List.foldl_append ..

end Scan

/-- A text in which everything that is opened is closed. -/
def Complete (cs : List Char) : Prop := cs ≠ [] ∧ (⟨0, .plain⟩ : Scan).text cs = ⟨0, .plain⟩

/-- From `s` on the text never has fewer than `d` brackets open. -/
def Above (d : Nat) : Scan → List Char → Prop
  | s, [] => d ≤ s.depth
  | s, c :: cs => d ≤ s.depth ∧ Above d (s.next c) cs

theorem above_append {d : Nat} {s : Scan} {cs ds : List Char} :
    Above d s (cs ++ ds) ↔ Above d s cs ∧ Above d (s.text cs) ds := by
  induction cs generalizing s with
  | nil =>
      cases ds with
      | nil => simp [Above]
      | cons c ds =>
          simp only [List.nil_append, Scan.text_nil, Above]
          tauto
  | cons c cs ih => simp only [List.cons_append, Above, ih, Scan.text_cons, and_assoc]

theorem Above.depth {d : Nat} {s : Scan} {p cs : List Char} (h : Above d s cs) (hp : p <+: cs) :
    d ≤ (s.text p).depth := by
  obtain ⟨q, rfl⟩ := hp
  have hp := (above_append.mp h).1
  clear h
  induction p generalizing s with
  | nil => exact hp
  | cons c p ih => exact ih hp.2

/-- A text that leaves a reader in the state it found it in, and closes nothing it did not
open. -/
structure Stays (mode : ScanMode) (cs : List Char) : Prop where
  closed : ∀ d, (⟨d, mode⟩ : Scan).text cs = ⟨d, mode⟩
  above : ∀ d, Above d ⟨d, mode⟩ cs

theorem stays_nil {mode : ScanMode} : Stays mode [] := ⟨fun _ ↦ rfl, fun d ↦ le_refl d⟩

theorem Stays.append {mode : ScanMode} {cs ds : List Char} (hc : Stays mode cs)
    (hd : Stays mode ds) : Stays mode (cs ++ ds) where
  closed d := by rw [Scan.text_append, hc.closed, hd.closed]
  above d := above_append.mpr ⟨hc.above d, by rw [hc.closed]; exact hd.above d⟩

/-- A character that opens and closes nothing. -/
def PlainChar (c : Char) : Prop := c ∉ ['\x7b', '\x7d', '[', ']', '"']

instance (c : Char) : Decidable (PlainChar c) := by unfold PlainChar; infer_instance

theorem PlainChar.stays {c : Char} (h : PlainChar c) : Stays .plain [c] := by
  simp only [PlainChar, List.mem_cons, List.not_mem_nil, or_false, not_or] at h
  constructor <;> simp [Scan.next, Above, h]

theorem stays_of_plain {cs : List Char} (h : ∀ c ∈ cs, PlainChar c) : Stays .plain cs := by
  induction cs with
  | nil => exact stays_nil
  | cons c cs ih =>
      exact (h c List.mem_cons_self).stays.append
        (ih fun c' hc' ↦ h c' (List.mem_cons_of_mem _ hc'))

/-! ## Strings -/

/-- The characters that stand for one character in a string. -/
def escapeChar (c : Char) : List Char :=
  if c = '"' then ['\\', '"']
  else if c = '\\' then ['\\', '\\']
  else if c.toNat = 8 then ['\\', 'b']
  else if c.toNat = 9 then ['\\', 't']
  else if c.toNat = 10 then ['\\', 'n']
  else if c.toNat = 12 then ['\\', 'f']
  else if c.toNat = 13 then ['\\', 'r']
  else if c.toNat < 32 then
    ['\\', 'u', '0', '0', Nat.digitChar (c.toNat / 16), Nat.digitChar (c.toNat % 16)]
  else [c]

/-- A string between quotes. -/
def quote (s : String) : List Char := '"' :: (s.toList.flatMap escapeChar ++ ['"'])

theorem digitChar_plain : ∀ k < 16, Nat.digitChar k ≠ '"' ∧ Nat.digitChar k ≠ '\\' := by decide

/-- An escaped character stays inside the string. -/
theorem stays_escapeChar (c : Char) : Stays .string (escapeChar c) := by
  unfold escapeChar
  split_ifs with h₁ h₂ h₃ h₄ h₅ h₆ h₇ h₈
  · constructor <;> simp [Scan.next, Above]
  · constructor <;> simp [Scan.next, Above]
  · constructor <;> simp [Scan.next, Above]
  · constructor <;> simp [Scan.next, Above]
  · constructor <;> simp [Scan.next, Above]
  · constructor <;> simp [Scan.next, Above]
  · constructor <;> simp [Scan.next, Above]
  · have hhigh := digitChar_plain (c.toNat / 16) (by omega)
    have hlow := digitChar_plain (c.toNat % 16) (by omega)
    constructor <;> simp [Scan.next, Above, hhigh, hlow]
  · constructor <;> simp [Scan.next, Above, h₁, h₂]

theorem stays_flatMap_escapeChar (cs : List Char) : Stays .string (cs.flatMap escapeChar) := by
  induction cs with
  | nil => exact stays_nil
  | cons c cs ih => exact (stays_escapeChar c).append ih

/-- A string between quotes is a token. -/
theorem stays_quote (s : String) : Stays .plain (quote s) := by
  have h := stays_flatMap_escapeChar s.toList
  have hopen (d : Nat) : (⟨d, .plain⟩ : Scan).next '"' = ⟨d, .string⟩ := by simp [Scan.next]
  have hclose (d : Nat) : (⟨d, .string⟩ : Scan).next '"' = ⟨d, .plain⟩ := by simp [Scan.next]
  constructor
  · intro d
    rw [quote, Scan.text_cons, hopen, Scan.text_append, h.closed, Scan.text_cons, hclose,
      Scan.text_nil]
  · intro d
    refine ⟨le_refl d, ?_⟩
    rw [hopen, above_append, h.closed]
    refine ⟨h.above d, le_refl d, ?_⟩
    rw [hclose]
    exact le_refl d

/-! ## Documents -/

section Dump

variable (num : Rat → List Char)

mutual

/-- The text of a document; `num` prints a real number. -/
def dump : Json → List Char
  | .null => "null".toList
  | .bool true => "true".toList
  | .bool false => "false".toList
  | .int n => (toString n).toList
  | .real q => num q
  | .str s => quote s
  | .arr items => '[' :: (dumpItems items ++ [']'])
  | .obj members => '\x7b' :: (dumpMembers members ++ ['\x7d'])

/-- The members of an array, with commas between them. -/
def dumpItems : List Json → List Char
  | [] => []
  | [j] => dump j
  | j :: k :: rest => dump j ++ ',' :: dumpItems (k :: rest)

/-- The members of an object, with commas between them. -/
def dumpMembers : List (String × Json) → List Char
  | [] => []
  | [m] => dumpMember m
  | m :: k :: rest => dumpMember m ++ ',' :: dumpMembers (k :: rest)

/-- One member of an object. -/
def dumpMember : String × Json → List Char
  | (key, j) => quote key ++ ':' :: dump j

end

variable {num}

/-- Between brackets. -/
theorem stays_brackets {cs : List Char} (h : Stays .plain cs) {l r : Char}
    (hl : ∀ d, (⟨d, .plain⟩ : Scan).next l = ⟨d + 1, .plain⟩)
    (hr : ∀ d, (⟨d + 1, .plain⟩ : Scan).next r = ⟨d, .plain⟩) :
    Stays .plain (l :: (cs ++ [r])) where
  closed d := by
    rw [Scan.text_cons, hl, Scan.text_append, h.closed, Scan.text_cons, hr, Scan.text_nil]
  above d := by
    have hmono {d : Nat} {s : Scan} {cs : List Char} (h : Above (d + 1) s cs) : Above d s cs := by
      induction cs generalizing s with
      | nil => exact Nat.le_of_succ_le h
      | cons c cs ih => exact ⟨Nat.le_of_succ_le h.1, ih h.2⟩
    refine ⟨le_refl d, ?_⟩
    rw [hl, above_append, h.closed]
    refine ⟨hmono (h.above (d + 1)), Nat.le_succ d, ?_⟩
    rw [hr]
    exact le_refl d

theorem next_open {c : Char} (h : c = '\x7b' ∨ c = '[') (d : Nat) :
    (⟨d, .plain⟩ : Scan).next c = ⟨d + 1, .plain⟩ := by simp [Scan.next, h]

theorem next_close {c : Char} (h : c = '\x7d' ∨ c = ']') (d : Nat) :
    (⟨d + 1, .plain⟩ : Scan).next c = ⟨d, .plain⟩ := by
  rcases h with rfl | rfl <;> rfl

/-- A printed integer has digits and perhaps a minus sign. -/
theorem mem_toString_int {n : Int} {c : Char} (hc : c ∈ (toString n).toList) :
    c.isDigit = true ∨ c = '-' := by
  have hnat (m : Nat) (hc : c ∈ (Nat.repr m).toList) : c.isDigit = true :=
    Nat.isDigit_of_mem_toDigits (b := 10) (by decide) (by decide) (by simpa [Nat.repr] using hc)
  rw [Int.toString_eq_repr] at hc
  cases n with
  | ofNat m => exact .inl (hnat m hc)
  | negSucc m =>
      simp only [Int.repr, String.toList_append, List.mem_append] at hc
      rcases hc with hc | hc
      · exact .inr (by simpa using hc)
      · exact .inl (hnat _ hc)

theorem plainChar_int (n : Int) : ∀ c ∈ (toString n).toList, PlainChar c := by
  intro c hc
  rcases mem_toString_int hc with hdigit | rfl
  · intro hbad
    simp only [List.mem_cons, List.not_mem_nil, or_false] at hbad
    rcases hbad with rfl | rfl | rfl | rfl | rfl <;> exact absurd hdigit (by decide)
  · decide

mutual

/-- **The text of a document is a token.** -/
theorem stays_dump (hnum : ∀ q, ∀ c ∈ num q, PlainChar c) : ∀ j : Json, Stays .plain (dump num j)
  | .null => stays_of_plain (by simp [dump]; decide)
  | .bool true => stays_of_plain (by simp [dump]; decide)
  | .bool false => stays_of_plain (by simp [dump]; decide)
  | .int n => by
      rw [dump]
      exact stays_of_plain (plainChar_int n)
  | .real q => by
      rw [dump]
      exact stays_of_plain (hnum q)
  | .str s => by
      rw [dump]
      exact stays_quote s
  | .arr items => by
      rw [dump]
      exact stays_brackets (stays_dumpItems hnum items) (next_open (.inr rfl))
        (next_close (.inr rfl))
  | .obj members => by
      rw [dump]
      exact stays_brackets (stays_dumpMembers hnum members) (next_open (.inl rfl))
        (next_close (.inl rfl))

theorem stays_dumpItems (hnum : ∀ q, ∀ c ∈ num q, PlainChar c) :
    ∀ items : List Json, Stays .plain (dumpItems num items)
  | [] => by
      rw [dumpItems]
      exact stays_nil
  | [j] => by
      rw [dumpItems]
      exact stays_dump hnum j
  | j :: k :: rest => by
      rw [dumpItems]
      have hcomma : Stays .plain [','] := PlainChar.stays (by decide)
      exact (stays_dump hnum j).append (hcomma.append (stays_dumpItems hnum (k :: rest)))

theorem stays_dumpMembers (hnum : ∀ q, ∀ c ∈ num q, PlainChar c) :
    ∀ members : List (String × Json), Stays .plain (dumpMembers num members)
  | [] => by
      rw [dumpMembers]
      exact stays_nil
  | [m] => by
      rw [dumpMembers]
      exact stays_dumpMember hnum m
  | m :: k :: rest => by
      rw [dumpMembers]
      have hcomma : Stays .plain [','] := PlainChar.stays (by decide)
      exact (stays_dumpMember hnum m).append (hcomma.append (stays_dumpMembers hnum (k :: rest)))

theorem stays_dumpMember (hnum : ∀ q, ∀ c ∈ num q, PlainChar c) :
    ∀ m : String × Json, Stays .plain (dumpMember num m)
  | (key, j) => by
      rw [dumpMember]
      have hcolon : Stays .plain [':'] := PlainChar.stays (by decide)
      exact (stays_quote key).append (hcolon.append (stays_dump hnum j))

end

/-- **A cut text is not complete.** -/
theorem not_complete_of_cut (hnum : ∀ q, ∀ c ∈ num q, PlainChar c)
    {members : List (String × Json)} {cs : List Char} (hcs : cs <+: dump num (.obj members))
    (hne : cs ≠ dump num (.obj members)) : ¬ Complete cs := by
  rintro ⟨hnil, hclosed⟩
  have hbody := stays_dumpMembers hnum members
  rw [dump] at hcs hne
  rcases List.prefix_cons_iff.mp hcs with rfl | ⟨p, rfl, hp⟩
  · exact hnil rfl
  · -- what is left ends before the last bracket
    have hp' : p <+: dumpMembers num members := by
      rcases List.prefix_concat_iff.mp hp with rfl | hp
      · exact absurd rfl hne
      · exact hp
    have hdepth := (hbody.above 1).depth hp'
    rw [Scan.text_cons, next_open (.inl rfl)] at hclosed
    rw [hclosed] at hdepth
    exact absurd hdepth (by decide)

/-! ## Control characters -/

/-- No control character, and so no NUL. -/
def Printable (cs : List Char) : Prop := ∀ c ∈ cs, 32 ≤ c.toNat

instance (cs : List Char) : Decidable (Printable cs) :=
  List.decidableBAll (fun c : Char ↦ 32 ≤ c.toNat) cs

theorem printable_append {cs ds : List Char} :
    Printable (cs ++ ds) ↔ Printable cs ∧ Printable ds := List.forall_mem_append

theorem printable_cons {c : Char} {cs : List Char} :
    Printable (c :: cs) ↔ 32 ≤ c.toNat ∧ Printable cs := List.forall_mem_cons

theorem Printable.nul {cs : List Char} (h : Printable cs) : '\x00' ∉ cs :=
  fun hnul ↦ absurd (h _ hnul) (by decide)

theorem printable_int (n : Int) : Printable (toString n).toList := by
  intro c hc
  rcases mem_toString_int hc with hdigit | rfl
  · have hval : 48 ≤ c.toNat ∧ c.toNat ≤ 57 := by
      simpa [Char.isDigit, Char.le_def, UInt32.le_iff_toNat_le] using hdigit
    omega
  · decide

theorem printable_escapeChar (c : Char) : Printable (escapeChar c) := by
  have hdigit : ∀ k < 16, 32 ≤ (Nat.digitChar k).toNat := by decide
  unfold escapeChar
  split_ifs with h₁ h₂ h₃ h₄ h₅ h₆ h₇ h₈
  · decide
  · decide
  · decide
  · decide
  · decide
  · decide
  · decide
  · simp only [printable_cons]
    exact ⟨by decide, by decide, by decide, by decide, hdigit _ (by omega), hdigit _ (by omega),
      nofun⟩
  · exact fun d hd ↦ List.mem_singleton.mp hd ▸ Nat.le_of_not_lt h₈

theorem printable_quote (s : String) : Printable (quote s) := by
  refine printable_cons.mpr ⟨by decide, printable_append.mpr ⟨fun c hc ↦ ?_, by decide⟩⟩
  obtain ⟨d, -, hd⟩ := List.mem_flatMap.mp hc
  exact printable_escapeChar d c hd

mutual

/-- **The text of a document is printable.** -/
theorem printable_dump (hnum : ∀ q, Printable (num q)) : ∀ j : Json, Printable (dump num j)
  | .null => by rw [dump]; decide
  | .bool true => by rw [dump]; decide
  | .bool false => by rw [dump]; decide
  | .int n => by
      rw [dump]
      exact printable_int n
  | .real q => by
      rw [dump]
      exact hnum q
  | .str s => by
      rw [dump]
      exact printable_quote s
  | .arr items => by
      rw [dump]
      exact printable_cons.mpr
        ⟨by decide, printable_append.mpr ⟨printable_dumpItems hnum items, by decide⟩⟩
  | .obj members => by
      rw [dump]
      exact printable_cons.mpr
        ⟨by decide, printable_append.mpr ⟨printable_dumpMembers hnum members, by decide⟩⟩

theorem printable_dumpItems (hnum : ∀ q, Printable (num q)) :
    ∀ items : List Json, Printable (dumpItems num items)
  | [] => by
      rw [dumpItems]
      nofun
  | [j] => by
      rw [dumpItems]
      exact printable_dump hnum j
  | j :: k :: rest => by
      rw [dumpItems]
      exact printable_append.mpr ⟨printable_dump hnum j,
        printable_cons.mpr ⟨by decide, printable_dumpItems hnum (k :: rest)⟩⟩

theorem printable_dumpMembers (hnum : ∀ q, Printable (num q)) :
    ∀ members : List (String × Json), Printable (dumpMembers num members)
  | [] => by
      rw [dumpMembers]
      nofun
  | [m] => by
      rw [dumpMembers]
      exact printable_dumpMember hnum m
  | m :: k :: rest => by
      rw [dumpMembers]
      exact printable_append.mpr ⟨printable_dumpMember hnum m,
        printable_cons.mpr ⟨by decide, printable_dumpMembers hnum (k :: rest)⟩⟩

theorem printable_dumpMember (hnum : ∀ q, Printable (num q)) :
    ∀ m : String × Json, Printable (dumpMember num m)
  | (key, j) => by
      rw [dumpMember]
      exact printable_append.mpr ⟨printable_quote key,
        printable_cons.mpr ⟨by decide, printable_dump hnum j⟩⟩

end

end Dump

end Lib
