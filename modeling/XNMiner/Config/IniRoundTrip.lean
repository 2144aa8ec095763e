import XNMiner.Config.IniEdit

/-!
# Editing and reading again

The facts about lines, carried to texts.  Reading a file again takes one carriage return from the
end of each line, which neither the reader nor the writer sees in what a line is, because both trim
it first; but it is gone from the file after the next edit.
-/

namespace XNMiner

open Lib

variable {sec key value : List Char} {line : List Char} {ls : List (List Char)}

/-! ## Carriage returns -/

theorem popCr_eq_self_iff : popCr line = line ↔ line.getLast? ≠ some '\r' := by
  unfold popCr
  split
  · next hlast =>
    refine iff_of_false (fun heq ↦ ?_) (not_not.mpr hlast)
    have hlen := congrArg List.length heq
    have hne : line ≠ [] := by
      rintro rfl
      cases hlast
    have hpos := List.length_pos_iff.mpr hne
    rw [List.length_dropLast] at hlen
    omega
  · next hlast => exact iff_of_true rfl hlast

theorem trim_popCr (line : List Char) : trim isSpace (popCr line) = trim isSpace line := by
  unfold popCr
  split
  · next hlast =>
    obtain ⟨front, rfl⟩ := List.getLast?_eq_some_iff.mp hlast
    rw [List.dropLast_concat, trim_concat (by decide)]
  · rfl

theorem popCr_subset (line : List Char) : popCr line ⊆ line := by
  unfold popCr
  split
  · exact List.dropLast_subset line
  · exact fun _ h ↦ h

theorem headerLine_popCr (line : List Char) : headerLine (popCr line) = headerLine line := by
  rw [headerLine, headerLine, trim_popCr]

theorem opensSection_popCr (sec line : List Char) :
    opensSection sec (popCr line) = opensSection sec line := by
  rw [opensSection, opensSection, trim_popCr]

theorem setsKey_popCr (key line : List Char) : setsKey key (popCr line) = setsKey key line := by
  rw [setsKey, setsKey, trim_popCr]

theorem read_popCr (r : IniReader) (line : List Char) : r.read (popCr line) = r.read line := by
  unfold IniReader.read
  rw [trim_popCr]

theorem hasSection_map_popCr (sec : List Char) (ls : List (List Char)) :
    hasSection sec (ls.map popCr) = hasSection sec ls := by
  induction ls with
  | nil => rfl
  | cons line ls ih =>
      rw [List.map_cons, hasSection_cons, hasSection_cons, ih, headerLine_popCr,
        opensSection_popCr]

theorem foldl_read_map_popCr (r : IniReader) (ls : List (List Char)) :
    (ls.map popCr).foldl IniReader.read r = ls.foldl IniReader.read r := by
  rw [List.foldl_map]
  simp only [read_popCr]

/-- The writer does the same with the lines as they are read again. -/
theorem edited_map_popCr (hvalue : IniValue value) (inSec wrote : Bool) (ls : List (List Char)) :
    edited sec key value inSec wrote (ls.map popCr) =
      (edited sec key value inSec wrote ls).map popCr := by
  have hpending (inSec wrote : Bool) : (pendingEntry key value inSec wrote).map popCr =
      pendingEntry key value inSec wrote := by
    rcases pendingEntry_cases key value inSec wrote with ⟨-, -, heq⟩ | heq <;> rw [heq]
    · rw [List.map_singleton, popCr_iniEntry hvalue]
    · rfl
  induction ls generalizing inSec wrote with
  | nil => exact (hpending inSec wrote).symm
  | cons line ls ih =>
      rw [List.map_cons, edited, edited, headerLine_popCr, opensSection_popCr, setsKey_popCr]
      split
      · rw [List.map_append, List.map_cons, hpending, ih]
      · split
        · rw [List.map_cons, popCr_iniEntry hvalue, ih]
        · rw [List.map_cons, ih]

/-! ## The edited file -/

theorem hasSection_edited (hkey : IniName key) (inSec wrote : Bool) (ls : List (List Char)) :
    hasSection sec (edited sec key value inSec wrote ls) = hasSection sec ls := by
  have hpending (inSec wrote : Bool) (rest : List (List Char)) :
      hasSection sec (pendingEntry key value inSec wrote ++ rest) = hasSection sec rest := by
    rcases pendingEntry_cases key value inSec wrote with ⟨-, -, heq⟩ | heq <;> rw [heq]
    · rw [List.singleton_append, hasSection_cons, headerLine_iniEntry hkey]
      rfl
    · rfl
  induction ls generalizing inSec wrote with
  | nil =>
      have hnil := hpending inSec wrote []
      rwa [List.append_nil] at hnil
  | cons line ls ih =>
      rw [edited]
      split
      · rw [hpending, hasSection_cons, hasSection_cons, ih]
      · next hheader =>
        have hline : (headerLine line && opensSection sec line) = false := by simp [hheader]
        split
        · rw [hasSection_cons, hasSection_cons, headerLine_iniEntry hkey, ih, hline]
          rfl
        · rw [hasSection_cons, hasSection_cons, ih]

/-- A second edit, of the lines as they are read again. -/
theorem editLines_map_popCr (hsec : IniName sec) (hkey : IniName key) (hvalue : IniValue value)
    (ls : List (List Char)) :
    editLines sec key value ((editLines sec key value ls).map popCr) =
      (editLines sec key value ls).map popCr := by
  have hhas : hasSection sec ((editLines sec key value ls).map popCr) = true := by
    rw [hasSection_map_popCr, editLines_eq hsec, hasSection_edited hkey,
      hasSection_withSection hsec]
  rw [editLines_eq hsec ((editLines sec key value ls).map popCr), withSection, if_pos hhas,
    edited_map_popCr hvalue, editLines_eq hsec, edited_edited hkey]

theorem otherLinesFrom_sublist (sec key : List Char) (inSec : Bool) (ls : List (List Char)) :
    (otherLinesFrom sec key inSec ls).Sublist ls := by
  induction ls generalizing inSec with
  | nil => exact List.Sublist.refl []
  | cons line ls ih =>
      rw [otherLinesFrom]
      split
      · exact (ih _).cons_cons line
      · split
        · exact (ih _).cons line
        · exact (ih _).cons_cons line

/-- Lines that are added do not change what the lines before them are. -/
theorem otherLinesFrom_append (sec key : List Char) (inSec : Bool) (ls rest : List (List Char)) :
    ∃ added, otherLinesFrom sec key inSec (ls ++ rest) =
      otherLinesFrom sec key inSec ls ++ added ∧ added ⊆ rest := by
  induction ls generalizing inSec with
  | nil =>
      exact ⟨otherLinesFrom sec key inSec rest, rfl,
        (otherLinesFrom_sublist sec key inSec rest).subset⟩
  | cons line ls ih =>
      rw [List.cons_append, otherLinesFrom, otherLinesFrom]
      split
      · obtain ⟨added, heq, hin⟩ := ih (opensSection sec line)
        exact ⟨added, by rw [heq, List.cons_append], hin⟩
      · split
        · exact ih inSec
        · obtain ⟨added, heq, hin⟩ := ih inSec
          exact ⟨added, by rw [heq, List.cons_append], hin⟩

/-- What is added to a file that lacks the section. -/
theorem withSection_eq (sec : List Char) (ls : List (List Char)) :
    ∃ added, withSection sec ls = ls ++ added ∧
      ∀ line ∈ added, line = [] ∨ line = iniHeader sec := by
  unfold withSection
  split
  · exact ⟨[], (List.append_nil ls).symm, by simp⟩
  · split
    · exact ⟨[[], iniHeader sec], by simp, by simp⟩
    · exact ⟨[iniHeader sec], rfl, by simp⟩

/-- The reader gets nothing from it. -/
theorem read_withSection (sec : List Char) (ls : List (List Char)) :
    ((withSection sec ls).foldl IniReader.read {}).ini = (ls.foldl IniReader.read {}).ini := by
  obtain ⟨added, heq, hadded⟩ := withSection_eq sec ls
  rw [heq, List.foldl_append]
  generalize ls.foldl IniReader.read {} = r
  clear heq
  induction added generalizing r with
  | nil => rfl
  | cons line added ih =>
      have hline : (r.read line).ini = r.ini := by
        rcases hadded line List.mem_cons_self with rfl | rfl
        · rfl
        · rw [read_header (headerLine_iniHeader sec)]
      rw [List.foldl_cons, ih (fun l hl ↦ hadded l (List.mem_cons_of_mem line hl)), hline]

/-- The lines that are written: the entry, other lines of the file, and what is added. -/
theorem mem_editLines (hsec : IniName sec) (h : line ∈ editLines sec key value ls) :
    line = iniEntry key value ∨ line ∈ otherLines sec key ls ∨ line = [] ∨
      line = iniHeader sec := by
  rw [editLines_eq hsec] at h
  refine (mem_edited h).imp id fun hother ↦ ?_
  obtain ⟨added, heq, hadded⟩ := withSection_eq sec ls
  obtain ⟨more, hmore, hin⟩ := otherLinesFrom_append sec key false ls added
  rw [heq, hmore] at hother
  exact (List.mem_append.mp hother).imp id fun h ↦ hadded line (hin h)

/-- The other lines are at the beginning of those that are written. -/
theorem otherLines_editLines (hsec : IniName sec) (hkey : IniName key)
    (ls : List (List Char)) :
    otherLines sec key ls <+: otherLines sec key (editLines sec key value ls) := by
  rw [editLines_eq hsec, otherLines, otherLines, otherLines_edited hkey]
  obtain ⟨added, heq, -⟩ := withSection_eq sec ls
  obtain ⟨more, hmore, -⟩ := otherLinesFrom_append sec key false ls added
  rw [heq, hmore]
  exact List.prefix_append _ _

/-- No newline is written inside a line. -/
theorem newline_notMem_editLines (hsec : IniName sec) (hkey : IniName key)
    (hvalue : IniValue value) (text : List Char) :
    ∀ line ∈ editLines sec key value (readLines text), '\n' ∉ line := by
  intro line hline
  rcases mem_editLines hsec hline with rfl | hother | rfl | rfl
  · exact newline_notMem_iniEntry hkey hvalue
  · have hin : line ∈ readLines text := (otherLinesFrom_sublist sec key false _).subset hother
    obtain ⟨raw, hraw, rfl⟩ := List.mem_map.mp hin
    exact fun hmem ↦ sep_notMem_of_mem_lines hraw (popCr_subset raw hmem)
  · simp
  · have hnot : '\n' ∉ sec := fun hin ↦ hsec.plain '\n' hin (by simp)
    simp [iniHeader, hnot]

/-! ## The value -/

theorem length_beforeComment {val : List Char} (h : [' ', '#'] <:+: val) :
    (beforeComment val).length < val.length := by
  induction val with
  | nil => exact absurd (List.infix_nil.mp h) (by simp)
  | cons c cs ih =>
      rw [beforeComment]
      split
      · simp
      · next hnot =>
        rw [List.infix_cons_iff] at h
        have hrest := ih (h.resolve_left hnot)
        simp only [List.length_cons]
        omega

/-- A value is read as it was written if there is no ` #` in it. -/
theorem stripComment_eq_self_iff (val : List Char) :
    stripComment val = val ↔ ¬[' ', '#'] <:+: val := by
  unfold stripComment
  split
  · next hin =>
    refine iff_of_false (fun heq ↦ ?_) (not_not.mpr hin)
    have hlen := congrArg List.length heq
    have hcut := length_beforeComment hin
    have htrim : (trim isSpace (beforeComment val)).length ≤ (beforeComment val).length :=
      length_trim_le
    omega
  · next hnot => exact iff_of_true rfl hnot

/-! ## Texts -/

/-- The file as it is read after an edit. -/
theorem lines_setIniValue (hsec : IniName sec) (hkey : IniName key) (hvalue : IniValue value)
    (text : List Char) :
    lines '\n' (setIniValue sec key value text) = editLines sec key value (readLines text) :=
  lines_unlines (newline_notMem_editLines hsec hkey hvalue text)

/-- **What the reader gets from an edited file.** -/
theorem parseIni_setIniValue (hsec : IniName sec) (hkey : IniName key) (hvalue : IniValue value)
    (text : List Char) :
    parseIni (setIniValue sec key value text) (toLower sec, toLower key) =
        some (stripComment value) ∧
      ∀ p ≠ (toLower sec, toLower key),
        parseIni (setIniValue sec key value text) p = parseIni text p := by
  have hread : parseIni (setIniValue sec key value text) =
      ((edited sec key value false false (withSection sec (readLines text))).foldl
        IniReader.read {}).ini := by
    rw [parseIni, readLines, lines_setIniValue hsec hkey hvalue, foldl_read_map_popCr,
      editLines_eq hsec]
  have hstart : Follows sec key value false false {} {} := by
    refine ⟨rfl, fun _ _ ↦ rfl, fun h ↦ ?_, fun h ↦ ?_, fun h ↦ ?_⟩ <;> cases h
  obtain ⟨hother, hsome⟩ := read_edited hkey hvalue (withSection sec (readLines text)) hstart
  rw [hread]
  refine ⟨hsome (.inr (.inr (hasSection_withSection hsec _))), fun p hp ↦ ?_⟩
  exact (hother p hp).trans (congrFun (read_withSection sec (readLines text)) p)

/-- **A second edit leaves the file as it is if no other line ends with a carriage return**, beyond
that of its line end. -/
theorem setIniValue_setIniValue_iff (hsec : IniName sec) (hkey : IniName key)
    (hvalue : IniValue value) (text : List Char) :
    setIniValue sec key value (setIniValue sec key value text) = setIniValue sec key value text ↔
      ∀ line ∈ otherLines sec key (readLines text), line.getLast? ≠ some '\r' := by
  let out := editLines sec key value (readLines text)
  have hagain : setIniValue sec key value (setIniValue sec key value text) =
      unlines '\n' (out.map popCr) := by
    rw [setIniValue, readLines, lines_setIniValue hsec hkey hvalue,
      editLines_map_popCr hsec hkey hvalue]
  have hclean : ∀ line ∈ out, '\n' ∉ line := newline_notMem_editLines hsec hkey hvalue text
  have hpopped : ∀ line ∈ out.map popCr, '\n' ∉ line := by
    intro line hline
    obtain ⟨raw, hraw, rfl⟩ := List.mem_map.mp hline
    exact fun hmem ↦ hclean raw hraw (popCr_subset raw hmem)
  have htext : unlines '\n' (out.map popCr) = unlines '\n' out ↔ out.map popCr = out := by
    refine ⟨fun heq ↦ ?_, fun heq ↦ by rw [heq]⟩
    rw [← lines_unlines hpopped, heq, lines_unlines hclean]
  have hlines : out.map popCr = out ↔ ∀ line ∈ out, line.getLast? ≠ some '\r' := by
    have hid : out.map popCr = out.map id ↔ ∀ line ∈ out, popCr line = id line :=
      List.map_inj_left
    rw [List.map_id] at hid
    simp only [← popCr_eq_self_iff]
    exact hid
  rw [hagain]
  refine htext.trans (hlines.trans ⟨fun hout line hline ↦ ?_, fun hother line hline ↦ ?_⟩)
  · have hin : line ∈ otherLines sec key out := (otherLines_editLines hsec hkey _).subset hline
    exact hout line ((otherLinesFrom_sublist sec key false out).subset hin)
  · rcases mem_editLines hsec hline with rfl | hin | rfl | rfl
    · exact popCr_eq_self_iff.mp (popCr_iniEntry hvalue key)
    · exact hother line hin
    · simp
    · rw [iniHeader, ← List.cons_append, List.getLast?_concat]
      decide

/-- **When a value survives being written and read.**  After `set_ini_value` the reader gets exactly
the value, and for any other key what it got before; the lines that do not set the value stay in
their order; and the same call changes nothing more: all this exactly if the value has no ` #` in
it, and no other line ends with a carriage return beyond that of its line end. -/
theorem setIniValue_iff (hsec : IniName sec) (hkey : IniName key) (hvalue : IniValue value)
    (text : List Char) :
    let text' := setIniValue sec key value text
    (parseIni text' (toLower sec, toLower key) = some value ∧
      (∀ p ≠ (toLower sec, toLower key), parseIni text' p = parseIni text p) ∧
      otherLines sec key (readLines text) <+: otherLines sec key (lines '\n' text') ∧
      setIniValue sec key value text' = text') ↔
    ¬[' ', '#'] <:+: value ∧
      ∀ line ∈ otherLines sec key (readLines text), line.getLast? ≠ some '\r' := by
  intro text'
  obtain ⟨hread, hother⟩ := parseIni_setIniValue hsec hkey hvalue text
  have hkept : otherLines sec key (readLines text) <+: otherLines sec key (lines '\n' text') := by
    rw [lines_setIniValue hsec hkey hvalue]
    exact otherLines_editLines hsec hkey _
  rw [hread, ← stripComment_eq_self_iff, setIniValue_setIniValue_iff hsec hkey hvalue,
    Option.some_inj]
  exact ⟨fun h ↦ ⟨h.1, h.2.2.2⟩, fun h ↦ ⟨h.1, hother, hkept, h.2⟩⟩

/-! ## The names of miners -/

/-- The file that `ensure_wallet_configured` makes. -/
def firstIni : List Char := "[account]\naddress =\nworker =\n".toList

theorem iniName_of_all {name : List Char} (htrim : trim isSpace name = name)
    (h : (name.all fun c ↦ decide (c ∉ ['=', '[', ']', '#', ';', '\n'])) = true) :
    IniName name :=
  ⟨htrim, fun c hc ↦ of_decide_eq_true (List.all_eq_true.mp h c hc)⟩

theorem iniName_account : IniName "account".toList :=
  iniName_of_all (by decide +kernel) (by decide +kernel)

theorem iniName_worker : IniName "worker".toList :=
  iniName_of_all (by decide +kernel) (by decide +kernel)

/-- A name with a blank is kept. -/
theorem setIniValue_iff_blank :
    let text' := setIniValue "account".toList "worker".toList "rig 1".toList firstIni
    text' = "[account]\naddress =\nworker = rig 1\n".toList ∧
      parseIni text' ("account".toList, "worker".toList) = some "rig 1".toList ∧
      setIniValue "account".toList "worker".toList "rig 1".toList text' = text' := by
  intro text'
  have hvalue : IniValue "rig 1".toList := ⟨by decide +kernel, by decide +kernel⟩
  have hkept := (setIniValue_iff iniName_account iniName_worker hvalue firstIni).mpr
    ⟨by decide +kernel, by decide +kernel⟩
  exact ⟨by decide +kernel, hkept.1, hkept.2.2.2⟩

/-- A name with a number sign behind a blank is not. -/
theorem not_setIniValue_kept :
    ¬∀ sec key value text : List Char, IniName sec → IniName key → IniValue value →
      let text' := setIniValue sec key value text
      parseIni text' (toLower sec, toLower key) = some value ∧
        (∀ p ≠ (toLower sec, toLower key), parseIni text' p = parseIni text p) ∧
        otherLines sec key (readLines text) <+: otherLines sec key (lines '\n' text') ∧
        setIniValue sec key value text' = text' := by
  intro hall
  have hvalue : IniValue "rig #1".toList := ⟨by decide +kernel, by decide +kernel⟩
  have hkept := (hall _ _ _ firstIni iniName_account iniName_worker hvalue).1
  exact absurd hkept (by decide +kernel)

end XNMiner
