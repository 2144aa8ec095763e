import XNMiner.Lib.Json
import XNMiner.Lib.Trim
import XNMiner.Mining.BlockTypes

/-!
# The body of `GET /difficulty`

`parse_difficulty_body` first tries `std::stoi` on the trimmed body and then the JSON forms.
`std::stoi` reads the number at the beginning of a text and ignores what follows, and `get<int>()`
keeps the low 32 bits of an integer, so the function also reads numbers that are not there.
`read_written_iff` has the bodies on which it reads what is written, and nothing else.

The JSON parser is a parameter; of a parser it is assumed only that a text which begins like a
number is a number (`NumberTexts`).  For the parser of the source a NUL ends the text, so it finds
a document in front of one; a text with a NUL is no document, and of it nothing is assumed.
-/

namespace XNMiner

open Lib

/-! ## `std::stoi` -/

/-- The values of an `int`. -/
def FitsInt (n : Int) : Prop := -2 ^ 31 ≤ n ∧ n < 2 ^ 31

instance (n : Int) : Decidable (FitsInt n) := inferInstanceAs (Decidable (_ ∧ _))

/-- An optional sign, and what follows it. -/
def readSign : List Char → Int × List Char
  | '-' :: cs => (-1, cs)
  | '+' :: cs => (1, cs)
  | cs => (1, cs)

/-- `std::stoi(text, &idx)`: the number after blanks, with the length of what has been read; `none`
where it throws. -/
def stoi (text : List Char) : Option (Int × Nat) :=
  let start := text.dropWhile isSpace
  let digits := (readSign start).2.takeWhile Char.isDigit
  let n := (readSign start).1 * Nat.ofDigitChars 10 digits 0
  let rest := (readSign start).2.dropWhile Char.isDigit
  if digits = [] then none
  else if FitsInt n then some (n, text.length - rest.length)
  else none

/-! ## `parse_difficulty_body` -/

/-- A JSON document or its member, read as a number: the `is_number_integer()` and the
`is_string()` branch.  The outer `none` is where neither is taken. -/
def readNumber : Json → Option (Option Int)
  | .int n => some (some (wrap 32 n))
  | .str s => some ((stoi s.toList).map Prod.fst)
  | _ => none

/-- The JSON forms. -/
def readJson (j : Json) : Option Int :=
  match (j.find? "difficulty").bind readNumber with
  | some answer => answer
  | none => match readNumber j with
      | some answer => answer
      | none => none

/-- `parse_difficulty_body`, with the JSON parser, which is `none` where it throws. -/
def parseDifficultyBody (parse : List Char → Option Json) (body : List Char) : Option Int :=
  let body := trim isSpace body
  if body = [] then none
  else
    let json := (parse body).bind readJson
    match stoi body with
    | some (d, idx) => if 0 < idx then some d else json
    | none => json

/-! ## Decimal integers -/

/-- The text is a decimal integer, as a whole. -/
def Decimal (text : List Char) (n : Int) : Prop :=
  (readSign text).2 ≠ [] ∧ (∀ c ∈ (readSign text).2, c.isDigit = true) ∧
    n = (readSign text).1 * Nat.ofDigitChars 10 (readSign text).2 0

/-- The text has a number that fits `int` at its beginning, but is more than it: there are blanks
before it, or something else after it. -/
def Loose (text : List Char) : Prop :=
  ∃ blanks number rest n, text = blanks ++ (number ++ rest) ∧ (∀ c ∈ blanks, isSpace c = true) ∧
    Decimal number n ∧ FitsInt n ∧ (∀ c, rest.head? = some c → c.isDigit = false) ∧
    (blanks ≠ [] ∨ rest ≠ [])

theorem isSpace_of_isDigit {c : Char} (h : c.isDigit = true) : isSpace c = false := by
  have hval : 48 ≤ c.toNat ∧ c.toNat ≤ 57 := by
    simpa [Char.isDigit, Char.le_def, UInt32.le_iff_toNat_le] using h
  have hne (d : Char) (hd : d.toNat < 48) : c ≠ d := by
    rintro rfl
    omega
  simp [isSpace, hne ' ' (by decide), hne '\t' (by decide), hne '\n' (by decide),
    hne '\r' (by decide), show c.toNat ≠ 11 by omega, show c.toNat ≠ 12 by omega]

/-- What a number can begin with. -/
def Leading (c : Char) : Prop := c = '-' ∨ c = '+' ∨ c.isDigit = true

theorem Leading.isSpace {c : Char} (h : Leading c) : XNMiner.isSpace c = false := by
  rcases h with rfl | rfl | h
  · decide
  · decide
  · exact isSpace_of_isDigit h

/-- The sign is what stands before the rest, and the same with other digits after it. -/
theorem readSign_split (cs : List Char) : ∃ sign, cs = sign ++ (readSign cs).2 ∧
    ∀ ds, ds ≠ [] → (∀ c ∈ ds, c.isDigit = true) →
      readSign (sign ++ ds) = ((readSign cs).1, ds) := by
  unfold readSign
  split
  · exact ⟨['-'], rfl, fun ds _ _ ↦ rfl⟩
  · exact ⟨['+'], rfl, fun ds _ _ ↦ rfl⟩
  · next hminus hplus =>
    refine ⟨[], rfl, fun ds hne hds ↦ ?_⟩
    cases ds with
    | nil => exact absurd rfl hne
    | cons d ds =>
        have hdigit := hds d List.mem_cons_self
        rw [List.nil_append]
        split
        · next heq =>
          obtain ⟨rfl, -⟩ := List.cons.inj heq
          exact absurd hdigit (by decide)
        · next heq =>
          obtain ⟨rfl, -⟩ := List.cons.inj heq
          exact absurd hdigit (by decide)
        · rfl

/-- Text after a number does not change its sign. -/
theorem readSign_append {cs : List Char} (h : (readSign cs).2 ≠ []) (rest : List Char) :
    readSign (cs ++ rest) = ((readSign cs).1, (readSign cs).2 ++ rest) := by
  unfold readSign at h ⊢
  split at h
  · rfl
  · rfl
  · next hminus hplus =>
    cases cs with
    | nil => exact absurd rfl h
    | cons c cs =>
        rw [List.cons_append]
        split
        · next heq =>
          obtain ⟨rfl, -⟩ := List.cons.inj heq
          exact absurd rfl (hminus cs)
        · next heq =>
          obtain ⟨rfl, -⟩ := List.cons.inj heq
          exact absurd rfl (hplus cs)
        · rfl

/-- A decimal integer begins with a sign or a digit. -/
theorem Decimal.head {text : List Char} {n : Int} (h : Decimal text n) :
    ∃ c cs, text = c :: cs ∧ Leading c := by
  obtain ⟨hne, hdigits, -⟩ := h
  unfold readSign at hne hdigits
  split at hdigits
  · exact ⟨_, _, rfl, .inl rfl⟩
  · exact ⟨_, _, rfl, .inr (.inl rfl)⟩
  · cases text with
    | nil => exact absurd rfl hne
    | cons c cs => exact ⟨c, cs, rfl, .inr (.inr (hdigits c List.mem_cons_self))⟩

theorem Decimal.nul {text : List Char} {n : Int} (h : Decimal text n) : '\x00' ∉ text := by
  obtain ⟨-, hdigits, -⟩ := h
  have hrest (cs : List Char) (hcs : ∀ c ∈ cs, c.isDigit = true) : '\x00' ∉ cs :=
    fun hnul ↦ absurd (hcs _ hnul) (by decide)
  unfold readSign at hdigits
  split at hdigits
  · exact List.not_mem_cons_of_ne_of_not_mem (by decide) (hrest _ hdigits)
  · exact List.not_mem_cons_of_ne_of_not_mem (by decide) (hrest _ hdigits)
  · exact hrest _ hdigits

/-- What `std::stoi` reads: the number that begins after the blanks. -/
theorem stoi_inv {text : List Char} {n : Int} {idx : Nat} (h : stoi text = some (n, idx)) :
    ∃ blanks number rest, text = blanks ++ (number ++ rest) ∧
      (∀ c ∈ blanks, isSpace c = true) ∧ Decimal number n ∧ FitsInt n ∧
      (∀ c, rest.head? = some c → c.isDigit = false) ∧ idx = text.length - rest.length := by
  unfold stoi at h
  dsimp only at h
  split at h
  · cases h
  next hne =>
  split at h
  next hfits =>
    obtain ⟨rfl, rfl⟩ := Prod.mk.inj (Option.some.inj h)
    let start := text.dropWhile isSpace
    obtain ⟨sign, hstart, hsign⟩ := readSign_split start
    let digits := (readSign start).2.takeWhile Char.isDigit
    let rest := (readSign start).2.dropWhile Char.isDigit
    have hdigits : ∀ c ∈ digits, c.isDigit = true := fun c hc ↦ List.mem_takeWhile_imp hc
    have hread : readSign (sign ++ digits) = ((readSign start).1, digits) :=
      hsign digits hne hdigits
    have hdecimal : Decimal (sign ++ digits)
        ((readSign start).1 * Nat.ofDigitChars 10 digits 0) := by
      rw [Decimal, hread]
      exact ⟨hne, hdigits, rfl⟩
    have htext : text = text.takeWhile isSpace ++ ((sign ++ digits) ++ rest) := by
      rw [List.append_assoc, List.takeWhile_append_dropWhile, ← hstart,
        List.takeWhile_append_dropWhile]
    have hrest (c : Char) (hc : rest.head? = some c) : c.isDigit = false := by
      have hnot := List.head?_dropWhile_not Char.isDigit (readSign start).2
      rw [hc] at hnot
      simpa using hnot
    exact ⟨_, _, _, htext, fun c hc ↦ List.mem_takeWhile_imp hc, hdecimal, hfits, hrest, rfl⟩
  next => cases h

/-- Where a number begins after the blanks, `std::stoi` reads it. -/
theorem stoi_eq {blanks number rest : List Char} {n : Int}
    (hblanks : ∀ c ∈ blanks, isSpace c = true) (hn : Decimal number n) (hfits : FitsInt n)
    (hrest : ∀ c, rest.head? = some c → c.isDigit = false) :
    ∃ idx, stoi (blanks ++ (number ++ rest)) = some (n, idx) := by
  obtain ⟨c, cs, hcs, hc⟩ := hn.head
  have hstart : (blanks ++ (number ++ rest)).dropWhile isSpace = number ++ rest := by
    rw [List.dropWhile_append_of_pos hblanks, hcs, List.cons_append,
      List.dropWhile_cons_of_neg (by rw [hc.isSpace]; exact Bool.false_ne_true)]
  obtain ⟨hne, hdigits, rfl⟩ := hn
  have hnone : rest.takeWhile Char.isDigit = [] := by
    cases rest with
    | nil => rfl
    | cons d rest => exact List.takeWhile_cons_of_neg (by simp [hrest d rfl])
  have htake : ((readSign number).2 ++ rest).takeWhile Char.isDigit = (readSign number).2 := by
    rw [List.takeWhile_append_of_pos hdigits, hnone, List.append_nil]
  unfold stoi
  dsimp only
  rw [hstart, readSign_append hne, htake, if_neg hne, if_pos hfits]
  exact ⟨_, rfl⟩

/-- What `std::stoi` reads is the whole text, or the text is loose. -/
theorem decimal_or_loose {text : List Char} {n : Int} {idx : Nat} (h : stoi text = some (n, idx)) :
    0 < idx ∧ (Decimal text n ∧ FitsInt n ∨ Loose text) := by
  obtain ⟨blanks, number, rest, htext, hblanks, hn, hfits, hrest, rfl⟩ := stoi_inv h
  obtain ⟨c, cs, rfl, -⟩ := hn.head
  refine ⟨?_, ?_⟩
  · rw [htext]
    simp
    omega
  by_cases hall : blanks = [] ∧ rest = []
  · obtain ⟨rfl, rfl⟩ := hall
    rw [List.nil_append, List.append_nil] at htext
    exact .inl ⟨htext ▸ hn, hfits⟩
  · exact .inr ⟨blanks, c :: cs, rest, n, htext, hblanks, hn, hfits, hrest, by tauto⟩

theorem Loose.stoi {text : List Char} (h : Loose text) : ∃ n idx, stoi text = some (n, idx) := by
  obtain ⟨blanks, number, rest, n, rfl, hblanks, hn, hfits, hrest, -⟩ := h
  exact ⟨n, stoi_eq hblanks hn hfits hrest⟩

/-- Loose text is no decimal integer. -/
theorem Loose.not_decimal {text : List Char} (h : Loose text) (m : Int) : ¬Decimal text m := by
  obtain ⟨blanks, number, rest, n, rfl, hblanks, hn, -, hrest, hmore⟩ := h
  intro hm
  obtain ⟨c, cs, hcs, hc⟩ := hm.head
  cases blanks with
  | cons b blanks =>
      obtain ⟨rfl, -⟩ := List.cons.inj hcs
      exact absurd (hblanks b List.mem_cons_self) (by rw [hc.isSpace]; exact Bool.false_ne_true)
  | nil =>
      cases rest with
      | nil => simp at hmore
      | cons d rest =>
          obtain ⟨-, hdigits, -⟩ := hm
          rw [List.nil_append, readSign_append hn.1] at hdigits
          have hd : d.isDigit = true := hdigits d (by simp)
          rw [hrest d rfl] at hd
          cases hd

/-- A decimal integer that fits is read as a whole. -/
theorem Decimal.stoi {text : List Char} {n : Int} (h : Decimal text n) (hfits : FitsInt n) :
    ∃ idx, stoi text = some (n, idx) := by
  simpa using @stoi_eq [] text [] n (by simp) h hfits (by simp)

theorem not_none_of_decimal {text : List Char} {n : Int} (h : Decimal text n) (hfits : FitsInt n) :
    stoi text ≠ none := by
  obtain ⟨idx, hsome⟩ := h.stoi hfits
  rw [hsome]
  exact Option.some_ne_none _

/-! ## What is written, and what is read -/

/-- The document is the integer, or a string that is it. -/
def WrittenIn : Json → Int → Prop
  | .int m, n => m = n
  | .str s, n => Decimal s.toList n
  | _, _ => False

/-- The document, or its member `difficulty`, is the integer or a string that is it. -/
def WrittenAt (j : Json) (n : Int) : Prop :=
  WrittenIn j n ∨ ∃ v, j.find? "difficulty" = some v ∧ WrittenIn v n

/-- The integer that is written in a body: the trimmed body as a whole, or in its JSON document.  A
text with a NUL is no document. -/
def Written (parse : List Char → Option Json) (body : List Char) (n : Int) : Prop :=
  Decimal (trim isSpace body) n ∨
    '\x00' ∉ trim isSpace body ∧ ∃ j, parse (trim isSpace body) = some j ∧ WrittenAt j n

/-- What is assumed of the JSON parser: an empty text is no document, and a text without a NUL that
begins like a number is a number, and an integer only if it is that decimal integer as a whole. -/
structure NumberTexts (parse : List Char → Option Json) : Prop where
  empty : parse [] = none
  number {text : List Char} {c : Char} {cs : List Char} {j : Json} : text = c :: cs → Leading c →
    (∀ d, text.getLast? = some d → isSpace d = false) → '\x00' ∉ text → parse text = some j →
      (∃ q, j = .real q) ∨ ∃ n, j = .int n ∧ Decimal text n

/-- The answer is the integer that is written, and there is an answer where it fits. -/
def Exact (answer : Option Int) (written : Int → Prop) : Prop :=
  (∀ n, answer = some n → written n) ∧ ∀ n, written n → FitsInt n → answer = some n

/-- An integer that fits, or a string that is not loose.  In front of a `nul` nothing is written:
there may be no integer, and no string that is one. -/
def Tight (nul : Prop) : Json → Prop
  | .int n => ¬nul ∧ FitsInt n
  | .str s => ¬Loose s.toList ∧ (nul → ∀ n, Decimal s.toList n → ¬FitsInt n)
  | _ => True

theorem wrap_eq_iff (n : Int) : wrap 32 n = n ↔ FitsInt n := by
  constructor
  · intro h
    have hlow := Int.le_bmod (x := n) (show 0 < 2 ^ 32 by decide)
    have hhigh := Int.bmod_lt (x := n) (show 0 < 2 ^ 32 by decide)
    unfold wrap at h
    unfold FitsInt
    omega
  · exact fun h ↦ wrap_of_fits (by decide) h.1 h.2

section Document

variable {nul : Prop}

/-- Reading a document. -/
theorem exact_readNumber (v : Json) :
    Exact (readNumber v).join (fun n ↦ ¬nul ∧ WrittenIn v n) ↔ Tight nul v := by
  cases v with
  | int m =>
      change Exact (some (wrap 32 m)) (fun n ↦ ¬nul ∧ m = n) ↔ ¬nul ∧ FitsInt m
      rw [← wrap_eq_iff]
      constructor
      · intro h
        obtain ⟨hnul, hm⟩ := h.1 _ rfl
        exact ⟨hnul, hm.symm⟩
      · rintro ⟨hnul, hm⟩
        refine ⟨fun n hn ↦ ⟨hnul, ?_⟩, fun n hn _ ↦ ?_⟩
        · rw [← hm]
          exact Option.some.inj hn
        · rw [hm, hn.2]
  | str s =>
      change Exact ((stoi s.toList).map Prod.fst) (fun n ↦ ¬nul ∧ Decimal s.toList n) ↔
        ¬Loose s.toList ∧ (nul → ∀ n, Decimal s.toList n → ¬FitsInt n)
      constructor
      · rintro ⟨hread, -⟩
        refine ⟨fun hloose ↦ ?_, fun hnul n hn hfits ↦ ?_⟩
        · obtain ⟨n, idx, hn⟩ := hloose.stoi
          exact hloose.not_decimal n (hread n (by rw [hn]; rfl)).2
        · obtain ⟨idx, hstoi⟩ := hn.stoi hfits
          exact (hread n (by rw [hstoi]; rfl)).1 hnul
      · rintro ⟨htight, hfront⟩
        refine ⟨fun n hn ↦ ?_, fun n hn hfits ↦ ?_⟩
        · obtain ⟨⟨m, idx⟩, hstoi, rfl⟩ := Option.map_eq_some_iff.mp hn
          obtain ⟨hdec, hfits⟩ := (decimal_or_loose hstoi).2.resolve_right htight
          exact ⟨fun hnul ↦ hfront hnul m hdec hfits, hdec⟩
        · obtain ⟨idx, hstoi⟩ := hn.2.stoi hfits
          rw [hstoi]
          rfl
  | null | bool | real | arr | obj =>
      refine iff_of_true ⟨fun n hn ↦ ?_, fun n hn _ ↦ hn.2.elim⟩ trivial
      cases hn

/-- Only an integer or a string is read, and only there is a number written. -/
theorem not_writtenIn_of_unread {v : Json} (h : readNumber v = none) :
    (∀ n, ¬WrittenIn v n) ∧ Tight nul v := by
  cases v with
  | int | str => cases h
  | null | bool | real | arr | obj => exact ⟨fun _ h ↦ h, trivial⟩

/-- An object is not read itself. -/
theorem readNumber_of_find {j v : Json} (h : j.find? "difficulty" = some v) :
    readNumber j = none := by
  cases j with
  | obj => rfl
  | null | bool | int | real | str | arr => cases h

/-- **Reading the JSON forms.** -/
theorem exact_readJson (j : Json) :
    Exact (readJson j) (fun n ↦ ¬nul ∧ WrittenAt j n) ↔
      Tight nul j ∧ ∀ v, j.find? "difficulty" = some v → Tight nul v := by
  cases hfind : j.find? "difficulty" with
  | none =>
      have hread : readJson j = (readNumber j).join := by
        rw [readJson, hfind, Option.bind_none]
        cases readNumber j <;> rfl
      have hwritten : WrittenAt j = WrittenIn j := by
        funext n
        simp [WrittenAt, hfind]
      rw [hread, hwritten, exact_readNumber]
      simp
  | some v =>
      obtain ⟨hnone, htight⟩ := @not_writtenIn_of_unread nul j (readNumber_of_find hfind)
      have hread : readJson j = (readNumber v).join := by
        rw [readJson, hfind, Option.bind_some, readNumber_of_find hfind]
        cases readNumber v <;> rfl
      have hwritten : WrittenAt j = WrittenIn v := by
        funext n
        simp [WrittenAt, hfind, hnone n]
      rw [hread, hwritten, exact_readNumber]
      simp [htight]

end Document

section Body

variable {parse : List Char → Option Json} {body : List Char}

/-- A body that is not empty: `std::stoi` is tried first. -/
theorem parseDifficultyBody_of_stoi {n : Int} {idx : Nat} (hne : trim isSpace body ≠ [])
    (h : stoi (trim isSpace body) = some (n, idx)) : parseDifficultyBody parse body = some n := by
  unfold parseDifficultyBody
  dsimp only
  rw [if_neg hne, h]
  exact if_pos (decimal_or_loose h).1

theorem parseDifficultyBody_of_json (hne : trim isSpace body ≠ [])
    (h : stoi (trim isSpace body) = none) :
    parseDifficultyBody parse body = (parse (trim isSpace body)).bind readJson := by
  unfold parseDifficultyBody
  dsimp only
  rw [if_neg hne, h]

/-- A trimmed body that begins like a number is a number. -/
theorem NumberTexts.trimmed (hparse : NumberTexts parse) {c : Char} {cs : List Char} {j : Json}
    (hcs : trim isSpace body = c :: cs) (hc : Leading c) (hnul : '\x00' ∉ trim isSpace body)
    (hj : parse (trim isSpace body) = some j) :
    (∃ q, j = .real q) ∨ ∃ n, j = .int n ∧ Decimal (trim isSpace body) n :=
  hparse.number hcs hc (fun _ hd ↦ getLast?_trim hd) hnul hj

/-- A decimal integer in a body is what its document is. -/
theorem writtenAt_of_decimal (hparse : NumberTexts parse) {j : Json} {n : Int}
    (hj : parse (trim isSpace body) = some j) (hn : Decimal (trim isSpace body) n) :
    (∃ q, j = .real q) ∨ j = .int n := by
  obtain ⟨c, cs, hcs, hc⟩ := hn.head
  refine (hparse.trimmed hcs hc hn.nul hj).imp id ?_
  rintro ⟨m, rfl, hm⟩
  rw [hm.2.2, ← hn.2.2]

/-- What `std::stoi` reads at the beginning of a trimmed body begins there. -/
theorem leading_of_stoi {n : Int} {idx : Nat} (h : stoi (trim isSpace body) = some (n, idx)) :
    ∃ c cs, trim isSpace body = c :: cs ∧ Leading c := by
  obtain ⟨blanks, number, rest, htext, hblanks, hn, -⟩ := stoi_inv h
  cases blanks with
  | nil =>
      obtain ⟨c, cs, rfl, hc⟩ := hn.head
      exact ⟨c, cs ++ rest, htext, hc⟩
  | cons b blanks =>
      have hb : isSpace b = false := head?_trim (by rw [htext]; rfl)
      rw [hblanks b List.mem_cons_self] at hb
      cases hb

/-- Where `std::stoi` reads a number, it is what is written exactly if the body is not loose. -/
theorem exact_of_stoi (hparse : NumberTexts parse) {n : Int} {idx : Nat}
    (hstoi : stoi (trim isSpace body) = some (n, idx)) :
    Exact (some n) (Written parse body) ↔
      ¬Loose (trim isSpace body) ∧ ∀ j, parse (trim isSpace body) = some j →
        Tight ('\x00' ∈ trim isSpace body) j ∧
          ∀ v, j.find? "difficulty" = some v → Tight ('\x00' ∈ trim isSpace body) v := by
  rcases (decimal_or_loose hstoi).2 with ⟨hn, hfits⟩ | hloose
  · -- the body is a decimal integer, and its document can be no other
    have hsame (j : Json) (hj : parse (trim isSpace body) = some j) :
        (∀ m, WrittenAt j m → m = n) ∧ Tight ('\x00' ∈ trim isSpace body) j ∧
          ∀ v, j.find? "difficulty" = some v → Tight ('\x00' ∈ trim isSpace body) v := by
      rcases writtenAt_of_decimal hparse hj hn with ⟨q, rfl⟩ | rfl
      · refine ⟨?_, trivial, fun v hv ↦ by cases hv⟩
        rintro m (h | ⟨v, hv, -⟩)
        · exact h.elim
        · cases hv
      · refine ⟨?_, ⟨hn.nul, hfits⟩, fun v hv ↦ by cases hv⟩
        rintro m (h | ⟨v, hv, -⟩)
        · exact Eq.symm h
        · cases hv
    refine iff_of_true ⟨fun m hm ↦ ?_, fun m hm _ ↦ ?_⟩
      ⟨fun hloose ↦ hloose.not_decimal n hn, fun j hj ↦ (hsame j hj).2⟩
    · exact .inl (Option.some.inj hm ▸ hn)
    · rcases hm with hm | ⟨-, j, hj, hm⟩
      · rw [hm.2.2, ← hn.2.2]
      · rw [(hsame j hj).1 m hm]
  · -- a number is read that is not written
    refine iff_of_false (fun h ↦ ?_) fun h ↦ h.1 hloose
    obtain ⟨c, cs, hcs, hc⟩ := leading_of_stoi hstoi
    rcases h.1 n rfl with hn | ⟨hnul, j, hj, hn⟩
    · exact hloose.not_decimal n hn
    · rcases hparse.trimmed hcs hc hnul hj with ⟨q, rfl⟩ | ⟨m, rfl, hm⟩
      · rcases hn with hn | ⟨v, hv, -⟩
        · exact hn
        · cases hv
      · exact hloose.not_decimal m hm

/-- Where it reads none, what counts is the document: a decimal integer in the body does not fit,
and is that of the document. -/
theorem exact_of_json (hparse : NumberTexts parse) (hstoi : stoi (trim isSpace body) = none)
    {j : Json} (hj : parse (trim isSpace body) = some j) :
    Exact (readJson j) (Written parse body) ↔
      Exact (readJson j) (fun n ↦ '\x00' ∉ trim isSpace body ∧ WrittenAt j n) := by
  constructor
  · rintro ⟨hsound, hcomplete⟩
    refine ⟨fun n hn ↦ ?_, fun n hn ↦ hcomplete n (.inr ⟨hn.1, j, hj, hn.2⟩)⟩
    rcases hsound n hn with hdec | ⟨hnul, j', hj', h⟩
    · rcases writtenAt_of_decimal hparse hj hdec with ⟨q, rfl⟩ | rfl
      · cases hn
      · exact ⟨hdec.nul, .inl rfl⟩
    · rw [hj] at hj'
      exact ⟨hnul, Option.some.inj hj' ▸ h⟩
  · rintro ⟨hsound, hcomplete⟩
    refine ⟨fun n hn ↦ ?_, fun n hn hfits ↦ ?_⟩
    · obtain ⟨hnul, h⟩ := hsound n hn
      exact .inr ⟨hnul, j, hj, h⟩
    · rcases hn with hdec | ⟨hnul, j', hj', h⟩
      · exact absurd hstoi (not_none_of_decimal hdec hfits)
      · rw [hj] at hj'
        exact hcomplete n ⟨hnul, Option.some.inj hj' ▸ h⟩ hfits

end Body

/-- **The bodies of which `parse_difficulty_body` reads the integer that is written.**  It reads
nothing else, and reads it where it fits, exactly if neither the trimmed body nor a JSON string in
its place is loose text, and a JSON integer in its place fits; in front of a NUL there may be no
integer in these places. -/
theorem read_written_iff {parse : List Char → Option Json} (hparse : NumberTexts parse)
    (body : List Char) :
    ((∀ n, parseDifficultyBody parse body = some n → Written parse body n) ∧
      ∀ n, Written parse body n → FitsInt n → parseDifficultyBody parse body = some n) ↔
    ¬Loose (trim isSpace body) ∧ ∀ j, parse (trim isSpace body) = some j →
      Tight ('\x00' ∈ trim isSpace body) j ∧
        ∀ v, j.find? "difficulty" = some v → Tight ('\x00' ∈ trim isSpace body) v := by
  change Exact (parseDifficultyBody parse body) (Written parse body) ↔ _
  by_cases hne : trim isSpace body = []
  · -- nothing is written in an empty body, and nothing read
    have hread : parseDifficultyBody parse body = none := if_pos hne
    have hnot (n : Int) : ¬Written parse body n := by
      rintro (hn | ⟨-, j, hj, -⟩)
      · obtain ⟨c, cs, hcs, -⟩ := hn.head
        rw [hne] at hcs
        cases hcs
      · rw [hne, hparse.empty] at hj
        cases hj
    refine iff_of_true ⟨fun n hn ↦ ?_, fun n hn ↦ (hnot n hn).elim⟩ ⟨fun hloose ↦ ?_, fun j hj ↦ ?_⟩
    · rw [hread] at hn
      cases hn
    · obtain ⟨n, idx, hn⟩ := hloose.stoi
      obtain ⟨c, cs, hcs, -⟩ := leading_of_stoi hn
      rw [hne] at hcs
      cases hcs
    · rw [hne, hparse.empty] at hj
      cases hj
  cases hstoi : stoi (trim isSpace body) with
  | some read =>
      rw [parseDifficultyBody_of_stoi hne hstoi]
      exact exact_of_stoi hparse hstoi
  | none =>
      have htight : ¬Loose (trim isSpace body) := fun hloose ↦ by
        obtain ⟨n, idx, hsome⟩ := hloose.stoi
        rw [hstoi] at hsome
        cases hsome
      rw [parseDifficultyBody_of_json hne hstoi]
      cases hj : parse (trim isSpace body) with
      | none =>
          refine iff_of_true ⟨fun n hn ↦ ?_, fun n hn hfits ↦ ?_⟩ ⟨htight, fun j h ↦ by cases h⟩
          · cases hn
          · rcases hn with hn | ⟨-, j, h, -⟩
            · exact absurd hstoi (not_none_of_decimal hn hfits)
            · rw [hj] at h
              cases h
      | some j =>
          rw [Option.bind_some, exact_of_json hparse hstoi hj, exact_readJson]
          simp [htight]

/-! ## Bodies -/

/-- The body that the comment in the source names. -/
def quotedBody : List Char := "\x7b\"difficulty\":\"1100\"\x7d".toList

/-- A JSON parser, as far as this body goes. -/
def quotedParser (text : List Char) : Option Json :=
  if text = quotedBody then some (.obj [("difficulty", .str "1100")]) else none

theorem numberTexts_quotedParser : NumberTexts quotedParser where
  empty := by decide
  number := by
    rintro text c cs j rfl hc - - hj
    unfold quotedParser at hj
    split at hj
    · next heq =>
      obtain ⟨rfl, -⟩ := List.cons.inj heq
      exact absurd hc (by unfold Leading; decide)
    · cases hj

/-- Of this body the integer is read. -/
theorem read_written_iff_quoted : parseDifficultyBody quotedParser quotedBody = some 1100 ∧
    ∀ n, parseDifficultyBody quotedParser quotedBody = some n →
      Written quotedParser quotedBody n := by
  have hbody : trim isSpace quotedBody = quotedBody := by decide +kernel
  have hdoc : quotedParser quotedBody = some (.obj [("difficulty", .str "1100")]) := if_pos rfl
  have hdecimal : Decimal "1100".toList 1100 :=
    ⟨by decide +kernel, List.all_eq_true.mp (by decide +kernel), by decide +kernel⟩
  refine ⟨by decide +kernel, ((read_written_iff numberTexts_quotedParser quotedBody).mpr ?_).1⟩
  rw [hbody, hdoc]
  refine ⟨fun hloose ↦ ?_, ?_⟩
  · obtain ⟨n, idx, hsome⟩ := hloose.stoi
    have hnone : stoi quotedBody = none := by decide +kernel
    rw [hnone] at hsome
    cases hsome
  · rintro j hj
    obtain rfl := Option.some.inj hj
    refine ⟨trivial, fun v hv ↦ ?_⟩
    obtain rfl : Json.str "1100" = v := Option.some.inj hv
    refine ⟨fun hloose ↦ hloose.not_decimal 1100 hdecimal, fun hnul ↦ ?_⟩
    exact absurd hnul (by decide +kernel)

/-- Of the body `1100abc` the number at its beginning is read. -/
theorem not_read_written : ¬∀ parse, NumberTexts parse → ∀ body,
    (∀ n, parseDifficultyBody parse body = some n → Written parse body n) ∧
      ∀ n, Written parse body n → FitsInt n → parseDifficultyBody parse body = some n := by
  intro hall
  let parse : List Char → Option Json := fun _ ↦ none
  have hparse : NumberTexts parse := ⟨rfl, fun _ _ _ _ h ↦ by cases h⟩
  have hread : parseDifficultyBody parse "1100abc".toList = some 1100 := by decide +kernel
  rcases (hall parse hparse "1100abc".toList).1 1100 hread with hn | ⟨-, j, hj, -⟩
  · have ha : 'a'.isDigit = true := hn.2.1 'a' (by decide +kernel)
    exact absurd ha (by decide)
  · cases hj

end XNMiner
