import XNMiner.Config.Ini

/-!
# Editing the ini file

`set_ini_value` changes the value of one key, and `parse_ini` is what reads it.  `edited` is the
loop of the writer without its accumulator; where the file lacks the section, it is as if the
header had been there (`editLines_eq`).  Three facts about it carry the rest: the reader gets the
new value and nothing else changes for it (`read_edited`), the lines that set no value of the key
stay (`otherLines_edited`), and a second edit changes nothing (`edited_edited`).

The file comes back as it was written up to two things, which `setIniValue_iff` has: a value with
` #` in it is cut when it is read, and of several carriage returns at the end of a line each edit
removes one.
-/

namespace XNMiner

open Lib

variable {sec key value : List Char} {line : List Char} {ls : List (List Char)}

/-! ## What a line is -/

/-- The line opens a section. -/
def headerLine (line : List Char) : Bool := isHeader (trim isSpace line)

/-- The section that it opens is this one. -/
def opensSection (sec line : List Char) : Bool :=
  decide (headerName (trim isSpace line) = toLower sec)

/-- The line sets the key. -/
def setsKey (key line : List Char) : Bool :=
  match cutAtEq (trim isSpace line) with
  | none => false
  | some (k, _) => decide (keyName k = toLower key)

/-- The lines that do not set the key of the section. -/
def otherLinesFrom (sec key : List Char) : Bool → List (List Char) → List (List Char)
  | _, [] => []
  | inSec, line :: rest =>
      if headerLine line then line :: otherLinesFrom sec key (opensSection sec line) rest
      else if inSec && setsKey key line then otherLinesFrom sec key inSec rest
      else line :: otherLinesFrom sec key inSec rest

/-- The lines of a file that do not set the key of the section. -/
def otherLines (sec key : List Char) (ls : List (List Char)) : List (List Char) :=
  otherLinesFrom sec key false ls

/-- The file has the section. -/
def hasSection (sec : List Char) (ls : List (List Char)) : Bool :=
  ls.any fun line ↦ headerLine line && opensSection sec line

theorem hasSection_cons (sec line : List Char) (ls : List (List Char)) :
    hasSection sec (line :: ls) =
      (headerLine line && opensSection sec line || hasSection sec ls) := rfl

/-! ## The loop of the writer -/

/-- The entry, where it is to be written before the section ends. -/
def pendingEntry (key value : List Char) (inSec wrote : Bool) : List (List Char) :=
  if inSec && !wrote then [iniEntry key value] else []

theorem pendingEntry_cases (key value : List Char) (inSec wrote : Bool) :
    (inSec = true ∧ wrote = false ∧ pendingEntry key value inSec wrote = [iniEntry key value]) ∨
      pendingEntry key value inSec wrote = [] := by
  cases inSec with
  | false => exact .inr rfl
  | true =>
      cases wrote with
      | true => exact .inr rfl
      | false => exact .inl ⟨rfl, rfl, rfl⟩

/-- What the loop writes, and what is written after it if the section is the last. -/
def edited (sec key value : List Char) : Bool → Bool → List (List Char) → List (List Char)
  | inSec, wrote, [] => pendingEntry key value inSec wrote
  | inSec, wrote, line :: rest =>
      if headerLine line then
        pendingEntry key value inSec wrote ++
          line :: edited sec key value (opensSection sec line) (wrote || inSec) rest
      else if inSec && setsKey key line then
        iniEntry key value :: edited sec key value inSec true rest
      else line :: edited sec key value inSec wrote rest

/-- The file with the section, which is added at the end where it lacks it. -/
def withSection (sec : List Char) (ls : List (List Char)) : List (List Char) :=
  if hasSection sec ls then ls
  else (if ls ≠ [] ∧ ls.getLast? ≠ some [] then ls ++ [[]] else ls) ++ [iniHeader sec]

theorem close_out (e : IniEditor) (key value : List Char) :
    (e.close key value).out = e.out ++ pendingEntry key value e.inSec e.wrote := by
  unfold IniEditor.close pendingEntry
  cases e.inSec <;> cases e.wrote <;> simp

theorem close_foundSec (e : IniEditor) (key value : List Char) :
    (e.close key value).foundSec = e.foundSec := by
  unfold IniEditor.close
  split <;> rfl

/-- After the end of a section the entry is written if the section was this one. -/
theorem close_wrote (e : IniEditor) (key value : List Char) :
    (e.close key value).wrote = (e.wrote || e.inSec) := by
  unfold IniEditor.close
  cases e.inSec <;> cases hwrote : e.wrote <;> simp [hwrote]

/-- One line of the loop. -/
theorem edit_eq (e : IniEditor) (line : List Char) : e.edit sec key value line =
    if headerLine line then
      { inSec := opensSection sec line
        wrote := e.wrote || e.inSec
        foundSec := e.foundSec || opensSection sec line
        out := e.out ++ pendingEntry key value e.inSec e.wrote ++ [line] }
    else if e.inSec && setsKey key line then
      { e with out := e.out ++ [iniEntry key value], wrote := true }
    else { e with out := e.out ++ [line] } := by
  unfold IniEditor.edit
  dsimp only
  rw [close_foundSec, close_out, close_wrote]
  rfl

/-- The accumulator of the loop. -/
theorem foldl_edit (e : IniEditor) (ls : List (List Char)) :
    let e' := (ls.foldl (IniEditor.edit sec key value) e).close key value
    e'.out = e.out ++ edited sec key value e.inSec e.wrote ls ∧
      e'.foundSec = (e.foundSec || hasSection sec ls) := by
  induction ls generalizing e with
  | nil => exact ⟨close_out e key value, by simp [close_foundSec, hasSection]⟩
  | cons line rest ih =>
      obtain ⟨hout, hfound⟩ := ih (e.edit sec key value line)
      dsimp only at hout hfound ⊢
      rw [List.foldl_cons, hout, hfound, edit_eq, edited, hasSection_cons]
      by_cases hheader : headerLine line = true
      · simp [hheader, Bool.or_assoc]
      · by_cases hsets : (e.inSec && setsKey key line) = true
        · simp [hheader, hsets]
        · simp [hheader, hsets]

/-- Without the section the loop changes nothing. -/
theorem edited_of_not_hasSection (h : hasSection sec ls = false) (rest : List (List Char)) :
    edited sec key value false false (ls ++ rest) =
      ls ++ edited sec key value false false rest := by
  induction ls with
  | nil => rfl
  | cons line ls ih =>
      rw [hasSection_cons, Bool.or_eq_false_iff] at h
      obtain ⟨hline, hls⟩ := h
      rw [List.cons_append, edited, Bool.false_and, if_neg Bool.false_ne_true, ih hls]
      split
      · next hheader =>
        rw [hheader, Bool.true_and] at hline
        rw [hline, Bool.or_false, ih hls]
        rfl
      · rfl

/-! ## Names and values -/

/-- The name of a section or a key: trimmed, without the characters that mean something in an ini
file. -/
structure IniName (name : List Char) : Prop where
  trimmed : trim isSpace name = name
  plain : ∀ c ∈ name, c ∉ ['=', '[', ']', '#', ';', '\n']

/-- A trimmed line. -/
structure IniValue (value : List Char) : Prop where
  trimmed : trim isSpace value = value
  line : '\n' ∉ value

theorem isSpace_eq_false {c : Char} (h : c ∈ ['=', '[', ']', '#', ';']) : isSpace c = false := by
  simp only [List.mem_cons, List.not_mem_nil, or_false] at h
  rcases h with rfl | rfl | rfl | rfl | rfl <;> decide

/-- A line with an `=`, trimmed. -/
theorem trim_cut (a b : List Char) :
    trim isSpace (a ++ '=' :: b) = a.dropWhile isSpace ++ '=' :: b.rdropWhile isSpace :=
  trim_append_cons (isSpace_eq_false (by simp)) a b

theorem cutAtEq_append {a : List Char} (h : '=' ∉ a) (b : List Char) :
    cutAtEq (a ++ '=' :: b) = some (a, b) := by
  have hall : ∀ c ∈ a, decide (c ≠ '=') = true := by
    intro c hc
    rw [decide_eq_true_eq]
    rintro rfl
    exact h hc
  rw [cutAtEq, if_pos (by simp), List.takeWhile_append_of_pos hall,
    List.dropWhile_append_of_pos hall]
  simp

section Entry

/-- The entry, cut at its `=`. -/
theorem iniEntry_eq (key value : List Char) :
    iniEntry key value = (key ++ [' ']) ++ '=' :: (' ' :: value) := by
  simp [iniEntry]

theorem cutAtEq_iniEntry (hkey : IniName key) (value : List Char) :
    cutAtEq (trim isSpace (iniEntry key value)) =
      some ((key ++ [' ']).dropWhile isSpace, (' ' :: value).rdropWhile isSpace) := by
  rw [iniEntry_eq, trim_cut]
  refine cutAtEq_append (fun hin ↦ ?_) _
  rcases List.mem_append.mp ((List.dropWhile_sublist _).subset hin) with hin | hin
  · exact hkey.plain '=' hin (by simp)
  · exact absurd hin (by decide)

/-- The key of the entry. -/
theorem keyName_iniEntry (hkey : IniName key) :
    keyName ((key ++ [' ']).dropWhile isSpace) = toLower key := by
  rw [keyName, trim_dropWhile, trim_concat (by decide), hkey.trimmed]

/-- What the trimmed entry begins with. -/
theorem head?_iniEntry (hkey : IniName key) (value : List Char) {c : Char}
    (hc : (trim isSpace (iniEntry key value)).head? = some c) : c ∉ ['[', '#', ';'] := by
  rw [iniEntry_eq, trim_cut, List.head?_append] at hc
  cases hhead : ((key ++ [' ']).dropWhile isSpace).head? with
  | none =>
      rw [hhead] at hc
      obtain rfl : '=' = c := Option.some.inj hc
      decide
  | some d =>
      rw [hhead] at hc
      obtain rfl : d = c := Option.some.inj hc
      have hin : d ∈ (key ++ [' ']).dropWhile isSpace := List.mem_of_head? hhead
      rcases List.mem_append.mp ((List.dropWhile_sublist _).subset hin) with hin | hin
      · have hplain := hkey.plain d hin
        simp at hplain ⊢
        tauto
      · obtain rfl := List.mem_singleton.mp hin
        decide

theorem headerLine_iniEntry (hkey : IniName key) (value : List Char) :
    headerLine (iniEntry key value) = false := by
  rw [headerLine, isHeader, Bool.and_eq_false_iff, decide_eq_false_iff_not]
  exact .inl fun hhead ↦ head?_iniEntry hkey value hhead (by simp)

theorem setsKey_iniEntry (hkey : IniName key) (value : List Char) :
    setsKey key (iniEntry key value) = true := by
  rw [setsKey, cutAtEq_iniEntry hkey]
  exact decide_eq_true (keyName_iniEntry hkey)

/-- The last character of the entry is no carriage return. -/
theorem popCr_iniEntry (hvalue : IniValue value) (key : List Char) :
    popCr (iniEntry key value) = iniEntry key value := by
  refine if_neg fun hlast ↦ ?_
  rw [iniEntry, List.getLast?_append] at hlast
  cases hv : value.getLast? with
  | none =>
      rw [List.getLast?_eq_none_iff] at hv
      subst hv
      exact absurd hlast (by simp)
  | some c =>
      have hspace : isSpace c = false := getLast?_trim (by rw [hvalue.trimmed, hv])
      have hc : c = '\r' := by simpa [List.getLast?_cons, hv] using hlast
      subst hc
      exact absurd hspace (by decide)

theorem newline_notMem_iniEntry (hkey : IniName key) (hvalue : IniValue value) :
    '\n' ∉ iniEntry key value := by
  have hin : '\n' ∉ key := fun hin ↦ hkey.plain '\n' hin (by simp)
  simp [iniEntry, hin, hvalue.line]

end Entry

section Header

theorem trim_iniHeader (sec : List Char) : trim isSpace (iniHeader sec) = iniHeader sec :=
  trim_of_ends (by decide) (by decide) sec

theorem headerLine_iniHeader (sec : List Char) : headerLine (iniHeader sec) = true := by
  rw [headerLine, trim_iniHeader, isHeader, iniHeader, ← List.cons_append, List.getLast?_concat]
  rfl

theorem opensSection_iniHeader (hsec : IniName sec) : opensSection sec (iniHeader sec) = true := by
  rw [opensSection, trim_iniHeader, headerName, iniHeader, List.drop_succ_cons, List.drop_zero,
    List.dropLast_concat, hsec.trimmed]
  exact decide_eq_true rfl

end Header

/-- The line before a new header. -/
theorem hasSection_blank (h : hasSection sec ls = false) :
    hasSection sec (if ls ≠ [] ∧ ls.getLast? ≠ some [] then ls ++ [[]] else ls) = false := by
  split
  · rw [hasSection, List.any_append, ← hasSection, h]
    rfl
  · exact h

/-- After a new header the entry is written. -/
theorem edited_concat_iniHeader (hsec : IniName sec) (h : hasSection sec ls = false) :
    edited sec key value false false (ls ++ [iniHeader sec]) =
      ls ++ [iniHeader sec, iniEntry key value] := by
  rw [edited_of_not_hasSection h, edited, if_pos (headerLine_iniHeader sec),
    opensSection_iniHeader hsec]
  rfl

/-- **What is written**, where the section may be added first. -/
theorem editLines_eq (hsec : IniName sec) (ls : List (List Char)) :
    editLines sec key value ls = edited sec key value false false (withSection sec ls) := by
  obtain ⟨hout, hfound⟩ := @foldl_edit sec key value {} ls
  rw [editLines, withSection]
  dsimp only at hout hfound ⊢
  rw [hout, hfound, Bool.false_or, List.nil_append]
  cases hhas : hasSection sec ls with
  | true => rfl
  | false =>
      have hsame : edited sec key value false false ls = ls := by
        have hnil : edited sec key value false false (ls ++ []) =
            ls ++ edited sec key value false false [] := edited_of_not_hasSection hhas []
        rw [List.append_nil] at hnil
        exact hnil.trans (List.append_nil ls)
      rw [if_neg Bool.false_ne_true, if_neg Bool.false_ne_true, hsame,
        edited_concat_iniHeader hsec (hasSection_blank hhas)]

theorem hasSection_withSection (hsec : IniName sec) (ls : List (List Char)) :
    hasSection sec (withSection sec ls) = true := by
  unfold withSection
  split
  · assumption
  · rw [hasSection, List.any_append]
    simp [headerLine_iniHeader, opensSection_iniHeader hsec]

/-! ## The other lines stay, and a second edit changes nothing -/

/-- The lines that are written. -/
theorem mem_edited {inSec wrote : Bool} (h : line ∈ edited sec key value inSec wrote ls) :
    line = iniEntry key value ∨ line ∈ otherLinesFrom sec key inSec ls := by
  have hpending {inSec wrote : Bool} (h : line ∈ pendingEntry key value inSec wrote) :
      line = iniEntry key value := by
    rcases pendingEntry_cases key value inSec wrote with ⟨-, -, heq⟩ | heq <;> rw [heq] at h
    · exact List.mem_singleton.mp h
    · cases h
  induction ls generalizing inSec wrote with
  | nil => exact .inl (hpending h)
  | cons first rest ih =>
      rw [edited] at h
      rw [otherLinesFrom]
      split at h
      · next hheader =>
        rw [if_pos hheader]
        rcases List.mem_append.mp h with h | h
        · exact .inl (hpending h)
        · rcases List.mem_cons.mp h with rfl | h
          · exact .inr List.mem_cons_self
          · exact (ih h).imp id (List.mem_cons_of_mem first)
      · next hheader =>
        rw [if_neg hheader]
        split at h
        · next hsets =>
          rw [if_pos hsets]
          rcases List.mem_cons.mp h with rfl | h
          · exact .inl rfl
          · exact ih h
        · next hsets =>
          rw [if_neg hsets]
          rcases List.mem_cons.mp h with rfl | h
          · exact .inr List.mem_cons_self
          · exact (ih h).imp id (List.mem_cons_of_mem first)

/-- **The lines that do not set the key stay, in their order.** -/
theorem otherLines_edited (hkey : IniName key) (inSec wrote : Bool) (ls : List (List Char)) :
    otherLinesFrom sec key inSec (edited sec key value inSec wrote ls) =
      otherLinesFrom sec key inSec ls := by
  have hentry (rest : List (List Char)) :
      otherLinesFrom sec key true (iniEntry key value :: rest) =
        otherLinesFrom sec key true rest := by
    rw [otherLinesFrom, headerLine_iniEntry hkey, setsKey_iniEntry hkey]
    rfl
  have hpending (inSec wrote : Bool) (rest : List (List Char)) :
      otherLinesFrom sec key inSec (pendingEntry key value inSec wrote ++ rest) =
        otherLinesFrom sec key inSec rest := by
    rcases pendingEntry_cases key value inSec wrote with ⟨rfl, -, heq⟩ | heq <;> rw [heq]
    · exact hentry rest
    · rfl
  induction ls generalizing inSec wrote with
  | nil =>
      have hnil := hpending inSec wrote []
      rwa [List.append_nil] at hnil
  | cons first rest ih =>
      rw [edited]
      split
      · next hheader =>
        rw [hpending, otherLinesFrom, otherLinesFrom, if_pos hheader, if_pos hheader, ih]
      · next hheader =>
        split
        · next hsets =>
          rw [Bool.and_eq_true] at hsets
          obtain ⟨rfl, hkeyline⟩ := hsets
          rw [hentry, ih, otherLinesFrom, if_neg hheader, hkeyline]
          rfl
        · next hsets =>
          rw [otherLinesFrom, otherLinesFrom, if_neg hheader, if_neg hheader, if_neg hsets,
            if_neg hsets, ih]

/-- **A second edit changes nothing.** -/
theorem edited_edited (hkey : IniName key) (inSec wrote : Bool) (ls : List (List Char)) :
    edited sec key value inSec wrote (edited sec key value inSec wrote ls) =
      edited sec key value inSec wrote ls := by
  have hentry (wrote : Bool) (rest : List (List Char)) :
      edited sec key value true wrote (iniEntry key value :: rest) =
        iniEntry key value :: edited sec key value true true rest := by
    rw [edited, headerLine_iniEntry hkey, setsKey_iniEntry hkey]
    rfl
  induction ls generalizing inSec wrote with
  | nil =>
      cases inSec with
      | false => rfl
      | true =>
          cases wrote with
          | true => rfl
          | false => exact hentry false []
  | cons first rest ih =>
      rw [edited]
      split
      · next hheader =>
        rcases pendingEntry_cases key value inSec wrote with ⟨rfl, rfl, hone⟩ | hnone
        · have hdone : pendingEntry key value true true = [] := rfl
          rw [hone, List.singleton_append, hentry, edited, if_pos hheader, hdone, Bool.true_or,
            Bool.false_or, ih]
          rfl
        · rw [hnone, List.nil_append, edited, if_pos hheader, hnone, ih]
          rfl
      · next hheader =>
        split
        · next hsets =>
          rw [Bool.and_eq_true] at hsets
          obtain ⟨rfl, -⟩ := hsets
          rw [hentry, ih]
        · next hsets => rw [edited, if_neg hheader, if_neg hsets, ih]

/-! ## What the reader gets -/

/-- The reader where a line sets a value, or none. -/
def IniReader.set (r : IniReader) : Option (List Char × List Char) → IniReader
  | none => r
  | some (k, v) => { r with ini := Function.update r.ini (r.sec, k) (some v) }

/-- A header changes the section only. -/
theorem read_header (h : headerLine line = true) (r : IniReader) :
    r.read line = { r with sec := headerName (trim isSpace line) } := by
  have hhead : (trim isSpace line).head? = some '[' := by
    rw [headerLine, isHeader, Bool.and_eq_true, decide_eq_true_eq] at h
    exact h.1
  have hplain : ¬(trim isSpace line = [] ∨ (trim isSpace line).head? = some '#' ∨
      (trim isSpace line).head? = some ';') := by
    rw [hhead]
    rintro (hnil | hhash | hsemi)
    · rw [hnil] at hhead
      cases hhead
    · exact absurd hhash (by decide)
    · exact absurd hsemi (by decide)
  unfold IniReader.read
  dsimp only
  rw [if_neg hplain]
  exact if_pos h

/-- Any other line sets a value, or none, which does not depend on where the reader is.  If it is a
value of the key, the writer sees that too. -/
theorem read_line (h : headerLine line = false) :
    ∃ a, (∀ r : IniReader, r.read line = r.set a) ∧
      ∀ k v, a = some (k, v) → ∀ key, setsKey key line = decide (k = toLower key) := by
  by_cases hcomment : trim isSpace line = [] ∨ (trim isSpace line).head? = some '#' ∨
      (trim isSpace line).head? = some ';'
  · exact ⟨none, fun r ↦ if_pos hcomment, fun k v heq ↦ by cases heq⟩
  have hheader : ¬isHeader (trim isSpace line) = true := Bool.eq_false_iff.mp h
  cases hcut : cutAtEq (trim isSpace line) with
  | none =>
      refine ⟨none, fun r ↦ ?_, fun k v heq ↦ by cases heq⟩
      unfold IniReader.read
      dsimp only
      rw [if_neg hcomment, if_neg hheader, hcut]
      rfl
  | some parts =>
      obtain ⟨k, v⟩ := parts
      refine ⟨some (keyName k, stripComment (trim isSpace v)), fun r ↦ ?_, ?_⟩
      · unfold IniReader.read
        dsimp only
        rw [if_neg hcomment, if_neg hheader, hcut]
        rfl
      · rintro k' v' heq key
        obtain ⟨rfl, -⟩ := Prod.mk.inj (Option.some.inj heq)
        rw [setsKey, hcut]

/-- The entry sets its key to its value, without what looks like a comment. -/
theorem read_iniEntry (hkey : IniName key) (hvalue : IniValue value) (r : IniReader) :
    r.read (iniEntry key value) = r.set (some (toLower key, stripComment value)) := by
  have hplain : ¬(trim isSpace (iniEntry key value) = [] ∨
      (trim isSpace (iniEntry key value)).head? = some '#' ∨
      (trim isSpace (iniEntry key value)).head? = some ';') := by
    rintro (hnil | hhash | hsemi)
    · rw [iniEntry_eq, trim_cut] at hnil
      simp at hnil
    · exact head?_iniEntry hkey value hhash (by simp)
    · exact head?_iniEntry hkey value hsemi (by simp)
  have hheader : ¬isHeader (trim isSpace (iniEntry key value)) = true :=
    Bool.eq_false_iff.mp (headerLine_iniEntry hkey value)
  have hval : trim isSpace ((' ' :: value).rdropWhile isSpace) = value := by
    rw [trim_rdropWhile, trim_cons (by decide), hvalue.trimmed]
  unfold IniReader.read
  dsimp only
  rw [if_neg hplain, if_neg hheader, cutAtEq_iniEntry hkey]
  dsimp only
  rw [keyName_iniEntry hkey, hval]
  rfl

/-- How the reader of the edited file (`r'`) follows that of the file (`r`), with the writer between
them: they are in the same section and agree on all but the value, which has been read where it has
been written. -/
structure Follows (sec key value : List Char) (inSec wrote : Bool) (r r' : IniReader) : Prop where
  same : r'.sec = r.sec
  other : ∀ p ≠ (toLower sec, toLower key), r'.ini p = r.ini p
  inside : inSec = true → r.sec = toLower sec
  value : wrote = true → r'.ini (toLower sec, toLower key) = some (stripComment value)
  again : wrote = true → r.sec = toLower sec → inSec = true

namespace Follows

variable {inSec wrote : Bool} {r r' : IniReader}

/-- The entry is read in its section. -/
theorem entry (h : Follows sec key value true wrote r r') (hkey : IniName key)
    (hvalue : IniValue value) :
    Follows sec key value true true r (r'.read (iniEntry key value)) := by
  have hsec : r'.sec = toLower sec := h.same.trans (h.inside rfl)
  rw [read_iniEntry hkey hvalue, IniReader.set, hsec]
  refine ⟨hsec.symm ▸ h.same, fun p hp ↦ ?_, h.inside, fun _ ↦ ?_, fun _ _ ↦ rfl⟩
  · exact (Function.update_of_ne hp _ _).trans (h.other p hp)
  · exact Function.update_self _ _ _

/-- A pending entry is read where the section ends. -/
theorem pending (h : Follows sec key value inSec wrote r r') (hkey : IniName key)
    (hvalue : IniValue value) : Follows sec key value inSec (wrote || inSec) r
      ((pendingEntry key value inSec wrote).foldl IniReader.read r') := by
  cases inSec with
  | false =>
      rw [Bool.or_false]
      exact h
  | true =>
      rw [Bool.or_true]
      cases wrote with
      | true => exact h
      | false => exact h.entry hkey hvalue

/-- Both read a header. -/
theorem header (h : Follows sec key value inSec wrote r r') (hline : headerLine line = true) :
    Follows sec key value (opensSection sec line) wrote (r.read line) (r'.read line) := by
  rw [read_header hline, read_header hline]
  refine ⟨rfl, h.other, fun hopens ↦ of_decide_eq_true hopens, h.value, fun _ hsec ↦ ?_⟩
  exact decide_eq_true hsec

/-- One reads the old value, the other the entry. -/
theorem replaced (h : Follows sec key value true wrote r r') (hkey : IniName key)
    (hvalue : IniValue value) (hline : headerLine line = false)
    (hsets : setsKey key line = true) :
    Follows sec key value true true (r.read line) (r'.read (iniEntry key value)) := by
  obtain ⟨a, hread, hval⟩ := read_line hline
  have hentry := h.entry hkey hvalue
  rw [hread]
  cases a with
  | none => exact hentry
  | some kv =>
      obtain ⟨k, v⟩ := kv
      have hk : k = toLower key := by
        rw [hval k v rfl key] at hsets
        exact of_decide_eq_true hsets
      refine ⟨hentry.same, fun p hp ↦ ?_, h.inside, hentry.value, fun _ _ ↦ rfl⟩
      rw [hentry.other p hp, IniReader.set, h.inside rfl, hk]
      exact (Function.update_of_ne hp _ _).symm

/-- Both read another line. -/
theorem kept (h : Follows sec key value inSec wrote r r') (hline : headerLine line = false)
    (hsets : (inSec && setsKey key line) = false) :
    Follows sec key value inSec wrote (r.read line) (r'.read line) := by
  obtain ⟨a, hread, hval⟩ := read_line hline
  rw [hread, hread]
  cases a with
  | none => exact h
  | some kv =>
      obtain ⟨k, v⟩ := kv
      refine ⟨h.same, fun p hp ↦ ?_, h.inside, fun hwrote ↦ ?_, h.again⟩
      · simp only [IniReader.set, h.same]
        rw [Function.update_apply, Function.update_apply, h.other p hp]
      · -- a line that sets the value again would have been replaced
        have hne : (toLower sec, toLower key) ≠ (r'.sec, k) := by
          intro heq
          obtain ⟨hsec, rfl⟩ := Prod.mk.inj heq
          have hin := h.again hwrote (h.same.symm.trans hsec.symm)
          rw [hin, hval _ v rfl key] at hsets
          simp at hsets
        exact (Function.update_of_ne hne _ _).trans (h.value hwrote)

end Follows

/-- **The reader of an edited file.**  It gets the value, and anything else as before. -/
theorem read_edited (hkey : IniName key) (hvalue : IniValue value) {inSec wrote : Bool}
    (ls : List (List Char)) {r r' : IniReader} (h : Follows sec key value inSec wrote r r') :
    let f := (edited sec key value inSec wrote ls).foldl IniReader.read r'
    (∀ p ≠ (toLower sec, toLower key), f.ini p = (ls.foldl IniReader.read r).ini p) ∧
      (wrote = true ∨ inSec = true ∨ hasSection sec ls = true →
        f.ini (toLower sec, toLower key) = some (stripComment value)) := by
  induction ls generalizing inSec wrote r r' with
  | nil =>
      have hend := h.pending hkey hvalue
      refine ⟨hend.other, fun hsome ↦ hend.value ?_⟩
      simpa [hasSection] using hsome
  | cons line rest ih =>
      rw [edited, List.foldl_cons, hasSection_cons]
      cases hheader : headerLine line with
      | true =>
          rw [if_pos rfl, List.foldl_append, List.foldl_cons]
          obtain ⟨hother, hsome⟩ := ih ((h.pending hkey hvalue).header hheader)
          refine ⟨hother, fun hor ↦ hsome ?_⟩
          simp only [Bool.true_and, Bool.or_eq_true] at hor ⊢
          tauto
      | false =>
          rw [if_neg Bool.false_ne_true, Bool.false_and, Bool.false_or]
          cases hsets : inSec && setsKey key line with
          | true =>
              obtain ⟨rfl, hline⟩ := (Bool.and_eq_true _ _).mp hsets
              rw [if_pos rfl, List.foldl_cons]
              obtain ⟨hother, hsome⟩ := ih (h.replaced hkey hvalue hheader hline)
              exact ⟨hother, fun _ ↦ hsome (.inl rfl)⟩
          | false =>
              rw [if_neg Bool.false_ne_true, List.foldl_cons]
              exact ih (h.kept hheader hsets)

end XNMiner
