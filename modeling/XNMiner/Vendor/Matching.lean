import XNMiner.Mining.PhcTypes
import XNMiner.Vendor.Encoding

/-!
# Matches

`vendor/hashapi/HashApiMatching.cpp` looks for the target in the text of a digest, by loops over its
characters; `mining/block_types.cpp` classifies the same text later by regular expressions.  What
the first finds the second takes for a block of the same kind (`classifyBlock_match`).
-/

namespace XNMiner.HashApi

/-! ## What is looked for -/

def isSuperblockHash (hash : List Char) : Bool :=
  if hash.length = 0 then false else decide (50 ≤ hash.countP Char.isUpper)

def hasXuniMatch (hash : List Char) : Bool :=
  if hash.length < 5 then false
  else (List.range (hash.length - 4)).any fun i ↦
    hash[i]? = some 'X' && hash[i + 1]? = some 'U' && hash[i + 2]? = some 'N' &&
      hash[i + 3]? = some 'I' && (hash[i + 4]?).any Char.isDigit

def containsXen11 (hash : List Char) : Bool :=
  if hash.length < 5 then false
  else (List.range (hash.length - 4)).any fun p ↦
    hash[p]? = some 'X' && hash[p + 1]? = some 'E' && hash[p + 2]? = some 'N' &&
      hash[p + 3]? = some '1' && hash[p + 4]? = some '1'

/-- `containsPatternRaw`, with `std::search`. -/
def containsPatternRaw (hash pattern : List Char) : Bool :=
  if pattern = ['X', 'E', 'N', '1', '1'] then containsXen11 hash
  else if pattern = [] ∨ hash.length < pattern.length then false
  else (List.range (hash.length - pattern.length + 1)).any fun first ↦
    (hash.drop first).take pattern.length = pattern

def isHex64KeyRaw (key : List Char) : Bool :=
  if key.length ≠ 64 then false else (List.range 64).all fun i ↦ (key[i]?).any isXDigit

/-! ## Matches of a digest -/

/-- `HashApiMatch`. -/
@[ext] structure Match where
  key : List Char
  hash : List Char
  matchedPattern : List Char
  attemptIndex : Nat
  isSuperblock : Bool
deriving DecidableEq

/-- `appendMatchesRaw`, of the two fields of a request that it reads. -/
def appendMatchesRaw (targetPattern : List Char) (allowXuni : Bool) (result : List Match)
    (key hash : List Char) (attemptIndex : Nat) : List Match :=
  if isHex64KeyRaw key = false then result
  else
    let xen := containsPatternRaw hash targetPattern
    let xuni := allowXuni && hasXuniMatch hash
    if !xen && !xuni then result
    else
      let result := if xen then
        result ++ [{ key, hash, matchedPattern := targetPattern, attemptIndex,
                     isSuperblock := isSuperblockHash hash }] else result
      if xuni then
        result ++ [{ key, hash, matchedPattern := ['X', 'U', 'N', 'I'], attemptIndex,
                     isSuperblock := false }]
      else result

/-! ## Loops over a text -/

/-- A loop over the places of a text finds what is somewhere in it. -/
theorem any_drop_iff {hash : List Char} {n : Nat} (found : List Char → Bool) (hn : 0 < n)
    (hfound : ∀ cs, found cs = true → n ≤ cs.length) :
    (List.range (hash.length - n + 1)).any (fun i ↦ found (hash.drop i)) = true ↔
      ∃ i, found (hash.drop i) = true := by
  rw [List.any_eq_true]
  constructor
  · rintro ⟨i, -, hi⟩
    exact ⟨i, hi⟩
  · rintro ⟨i, hi⟩
    have hlen := hfound _ hi
    rw [List.length_drop] at hlen
    exact ⟨i, List.mem_range.mpr (by omega), hi⟩

/-- A text is in another if it is in front of what is left somewhere. -/
theorem exists_prefix_drop_iff {pattern hash : List Char} :
    (∃ i, pattern <+: hash.drop i) ↔ pattern <:+: hash := by
  constructor
  · rintro ⟨i, hi⟩
    exact hi.isInfix.trans (List.drop_suffix i hash).isInfix
  · rintro ⟨front, back, rfl⟩
    refine ⟨front.length, back, ?_⟩
    rw [List.append_assoc, List.drop_left]

/-- Five characters at a place. -/
theorem five_prefix_iff {hash : List Char} {a b c d e : Char} (i : Nat) :
    [a, b, c, d, e] <+: hash.drop i ↔ hash[i]? = some a ∧ hash[i + 1]? = some b ∧
      hash[i + 2]? = some c ∧ hash[i + 3]? = some d ∧ hash[i + 4]? = some e := by
  have hplace (k : Nat) : hash[i + k]? = (hash.drop i)[k]? := List.getElem?_drop.symm
  have hfirst : hash[i]? = (hash.drop i)[0]? := hplace 0
  rw [hfirst, hplace, hplace, hplace, hplace]
  generalize hash.drop i = cs
  constructor
  · rintro ⟨rest, rfl⟩
    simp
  · rintro ⟨ha, hb, hc, hd, he⟩
    match cs with
    | [] => simp at ha
    | [_] => simp at hb
    | [_, _] => simp at hc
    | [_, _, _] => simp at hd
    | [_, _, _, _] => simp at he
    | a' :: b' :: c' :: d' :: e' :: rest =>
      simp at ha hb hc hd he
      subst ha hb hc hd he
      exact ⟨rest, rfl⟩

/-- `containsXen11` finds its target wherever it is. -/
theorem containsXen11_iff (hash : List Char) :
    containsXen11 hash = true ↔ ['X', 'E', 'N', '1', '1'] <:+: hash := by
  have hfive : ['X', 'E', 'N', '1', '1'] <:+: hash → 5 ≤ hash.length := fun h ↦ h.length_le
  rw [containsXen11]
  split
  · next hshort => exact ⟨nofun, fun h ↦ absurd (hfive h) (by omega)⟩
  · next hlong =>
    rw [← exists_prefix_drop_iff, List.any_eq_true]
    simp only [five_prefix_iff, Bool.and_eq_true, decide_eq_true_eq, List.mem_range, and_assoc]
    refine exists_congr fun i ↦ and_iff_right_of_imp ?_
    rintro ⟨-, -, -, -, hlast⟩
    have hlt := (List.getElem?_eq_some_iff.mp hlast).1
    omega

/-- `hasXuniMatch` finds what the classification looks for. -/
theorem hasXuniMatch_eq (hash : List Char) : hasXuniMatch hash = hasXuniTag hash := by
  refine Bool.eq_iff_iff.mpr ?_
  rw [hasXuniTag_iff, hasXuniMatch]
  split
  · next hshort =>
    refine ⟨nofun, ?_⟩
    rintro ⟨d, -, h⟩
    have hfive : 5 ≤ hash.length := h.length_le
    omega
  · next hlong =>
    rw [List.any_eq_true]
    simp only [← exists_prefix_drop_iff, five_prefix_iff, Bool.and_eq_true, decide_eq_true_eq,
      List.mem_range, Option.any_eq_true]
    constructor
    · rintro ⟨i, -, ⟨⟨⟨hx, hu⟩, hn⟩, hi⟩, d, hd, hdigit⟩
      exact ⟨d, hdigit, i, hx, hu, hn, hi, hd⟩
    · rintro ⟨d, hdigit, i, hx, hu, hn, hi, hd⟩
      have hlt := (List.getElem?_eq_some_iff.mp hd).1
      exact ⟨i, by omega, ⟨⟨⟨hx, hu⟩, hn⟩, hi⟩, d, hd, hdigit⟩

/-- **Both ways to look for a pattern find it wherever it is.** -/
theorem containsPatternRaw_iff (hash pattern : List Char) :
    containsPatternRaw hash pattern = true ↔ pattern ≠ [] ∧ pattern <:+: hash := by
  rw [containsPatternRaw]
  split
  · next htarget =>
    rw [htarget, containsXen11_iff]
    exact (and_iff_right (by decide)).symm
  · split
    · next hout =>
      refine ⟨nofun, fun ⟨hne, hin⟩ ↦ ?_⟩
      rcases hout with hempty | hshort
      · exact absurd hempty hne
      · exact absurd hin.length_le (Nat.not_le.mpr hshort)
    · next hin =>
      obtain ⟨hne, hlong⟩ := not_or.mp hin
      have htake (cs : List Char) : cs.take pattern.length = pattern ↔ pattern <+: cs :=
        ⟨fun h ↦ h ▸ List.take_prefix _ _, fun h ↦ (List.prefix_iff_eq_take.mp h).symm⟩
      rw [any_drop_iff (fun cs ↦ cs.take pattern.length = pattern)
        (List.length_pos_of_ne_nil hne)]
      · simp only [decide_eq_true_eq, htake, exists_prefix_drop_iff]
        exact (and_iff_right hne).symm
      · intro cs hcs
        exact ((htake cs).mp (of_decide_eq_true hcs)).length_le

theorem isHex64KeyRaw_eq (key : List Char) :
    isHex64KeyRaw key = isHex64Key (String.ofList key) := by
  rw [isHex64KeyRaw, isHex64Key, String.toList_ofList]
  split
  · next hlen => rw [decide_eq_false hlen, Bool.false_and]
  · next hlen =>
    have hlength : key.length = 64 := Decidable.not_not.mp hlen
    rw [decide_eq_true hlength, Bool.true_and]
    refine Bool.eq_iff_iff.mpr ?_
    simp only [List.all_eq_true, List.mem_range, Option.any_eq_true]
    constructor
    · intro h c hc
      obtain ⟨i, hi, rfl⟩ := List.mem_iff_getElem.mp hc
      obtain ⟨d, hd, hdigit⟩ := h i (hlength ▸ hi)
      obtain rfl : key[i] = d := Option.some.inj ((List.getElem?_eq_getElem hi).symm.trans hd)
      exact hdigit
    · intro h i hi
      exact ⟨key[i], List.getElem?_eq_getElem (hlength ▸ hi), h _ (List.getElem_mem _)⟩

/-! ## What is reported -/

variable {targetPattern key hash : List Char} {allowXuni : Bool} {attemptIndex : Nat} {m : Match}

/-- What is to be reported of a digest. -/
structure Match.Of (targetPattern : List Char) (allowXuni : Bool) (key hash : List Char)
    (attemptIndex : Nat) (m : Match) : Prop where
  key_eq : m.key = key
  hash_eq : m.hash = hash
  attempt_eq : m.attemptIndex = attemptIndex
  hex : isHex64Key (String.ofList key) = true
  pattern : (m.matchedPattern = targetPattern ∧ m.isSuperblock = isSuperblockHash hash ∧
      targetPattern ≠ [] ∧ targetPattern <:+: hash) ∨
    (m.matchedPattern = ['X', 'U', 'N', 'I'] ∧ m.isSuperblock = false ∧
      allowXuni = true ∧ hasXuniTag hash = true)

/-- **All of it is reported, and nothing else.** -/
theorem mem_appendMatchesRaw :
    m ∈ appendMatchesRaw targetPattern allowXuni [] key hash attemptIndex ↔
      m.Of targetPattern allowXuni key hash attemptIndex := by
  have hlist : m ∈ appendMatchesRaw targetPattern allowXuni [] key hash attemptIndex ↔
      isHex64KeyRaw key = true ∧
        ((containsPatternRaw hash targetPattern = true ∧
          m = ⟨key, hash, targetPattern, attemptIndex, isSuperblockHash hash⟩) ∨
        ((allowXuni = true ∧ hasXuniMatch hash = true) ∧
          m = ⟨key, hash, ['X', 'U', 'N', 'I'], attemptIndex, false⟩)) := by
    unfold appendMatchesRaw
    cases isHex64KeyRaw key <;> cases containsPatternRaw hash targetPattern <;>
      cases allowXuni <;> cases hasXuniMatch hash <;> simp
  rw [hlist, isHex64KeyRaw_eq, containsPatternRaw_iff, hasXuniMatch_eq]
  constructor
  · rintro ⟨hhex, ⟨hfound, rfl⟩ | ⟨hfound, rfl⟩⟩
    · exact ⟨rfl, rfl, rfl, hhex, .inl ⟨rfl, rfl, hfound⟩⟩
    · exact ⟨rfl, rfl, rfl, hhex, .inr ⟨rfl, rfl, hfound⟩⟩
  · rintro ⟨hkey, hhash, hattempt, hhex, ⟨hpattern, hsuper, hfound⟩ | ⟨hpattern, hsuper, hfound⟩⟩
    · exact ⟨hhex, .inl ⟨hfound, Match.ext hkey hhash hpattern hattempt hsuper⟩⟩
    · exact ⟨hhex, .inr ⟨hfound, Match.ext hkey hhash hpattern hattempt hsuper⟩⟩

/-- **What is reported, in its order**: behind the matches that are there, first the target and then
XUNI, each once and only where the key is well formed and the digest has it. -/
theorem appendMatchesRaw_spec (result : List Match) :
    appendMatchesRaw targetPattern allowXuni result key hash attemptIndex = result ++
      (if isHex64Key (String.ofList key) = true ∧ targetPattern ≠ [] ∧ targetPattern <:+: hash then
        [⟨key, hash, targetPattern, attemptIndex, isSuperblockHash hash⟩] else []) ++
      (if isHex64Key (String.ofList key) = true ∧ allowXuni = true ∧ hasXuniTag hash = true then
        [⟨key, hash, ['X', 'U', 'N', 'I'], attemptIndex, false⟩] else []) ∧
    ∀ m, m ∈ appendMatchesRaw targetPattern allowXuni [] key hash attemptIndex ↔
      m.Of targetPattern allowXuni key hash attemptIndex := by
  refine ⟨?_, fun m ↦ mem_appendMatchesRaw⟩
  simp only [← isHex64KeyRaw_eq, ← containsPatternRaw_iff, ← hasXuniMatch_eq]
  unfold appendMatchesRaw
  cases isHex64KeyRaw key <;> cases containsPatternRaw hash targetPattern <;>
    cases allowXuni <;> cases hasXuniMatch hash <;> simp

/-! ## What becomes of it -/

/-- A text without `$` is a superblock for both. -/
theorem isSuperblockHash_eq (hdollar : '$' ∉ hash) :
    isSuperblockHash hash = isSuperblock (String.ofList hash) := by
  have hbare : hashDigestForSuperblock (String.ofList hash) = String.ofList hash := by
    have hfront : hash.head? ≠ some '$' := fun h ↦ hdollar (List.mem_of_mem_head? h)
    have hcount : hash.count '$' = 0 := List.count_eq_zero.mpr hdollar
    unfold hashDigestForSuperblock
    dsimp only
    rw [String.toList_ofList]
    exact if_neg (by simp [hfront, hcount])
  rw [isSuperblock, hbare, uppercaseCount, String.toList_ofList, isSuperblockHash]
  split
  · next hempty =>
    rw [List.eq_nil_of_length_eq_zero hempty]
    rfl
  · rfl

/-- **Every match is a hit**: the text that matched `XEN11` is classified as the match says, unless
it is an XUNI block too. -/
theorem classifyBlock_match (hdollar : '$' ∉ hash)
    (h : m ∈ appendMatchesRaw "XEN11".toList allowXuni [] key hash attemptIndex) :
    isHex64Key (String.ofList m.key) = true ∧
      classifyBlock (String.ofList m.hash) (String.ofList m.matchedPattern) =
        if hasXuniTag hash = true then "XUNI"
        else if m.isSuperblock = true then "XBLK" else "XNM" := by
  obtain ⟨hkey, hhash, -, hhex, hpattern⟩ := mem_appendMatchesRaw.mp h
  refine ⟨hkey ▸ hhex, ?_⟩
  rw [classifyBlock_eq, hhash, String.toList_ofList]
  rcases hpattern with ⟨hp, hsuper, -, hin⟩ | ⟨hp, -, -, htag⟩
  · have htype : normalizeType (String.ofList m.matchedPattern) = "XEN11" := by
      rw [hp]
      decide +kernel
    have hsub : hasSubstr (String.ofList hash) "XEN11" = true := by
      have hlist : (String.ofList hash).toList = hash := String.toList_ofList
      refine decide_eq_true ?_
      rw [hlist]
      exact hin
    rw [htype, hsub, ← isSuperblockHash_eq hdollar, hsuper]
    simp
  · have htype : normalizeType (String.ofList m.matchedPattern) = "XUNI" := by
      rw [hp]
      decide +kernel
    rw [htype, if_pos (.inl rfl), if_pos htag]

theorem classifyBlock_match_xen :
    isHex64Key (String.ofList (List.replicate 64 'a')) = true ∧
      classifyBlock (String.ofList "XEN11".toList) (String.ofList "XEN11".toList) = "XNM" := by
  have hmem : ⟨List.replicate 64 'a', "XEN11".toList, "XEN11".toList, 0, false⟩ ∈
      appendMatchesRaw "XEN11".toList true [] (List.replicate 64 'a') "XEN11".toList 0 := by
    decide +kernel
  have hno : ¬hasXuniTag "XEN11".toList = true := by decide
  have hkind := classifyBlock_match (by decide) hmem
  rw [if_neg hno] at hkind
  exact hkind

end XNMiner.HashApi
