import XNMiner.Mining.Phc
import XNMiner.Mining.Engine
import XNMiner.Lib.Segments

/-!
# Types of assembled strings

A hit is classified twice: by its bare digest when the GPU finds it, and by the whole PHC string
when it is prepared for the pool.  `classify_block` looks for superblocks in the digest only, but
for `XUNI` and `XEN11` in the whole text, and there the salt stands in front of the digest.

The first half of this file takes an assembled string apart and shows that preparing a hit is
assembling it once: the cost and the digest are read back, and preparing it again changes nothing.
The second half says when the salt leaves the type alone.
-/

namespace XNMiner

/-! ## The parts of an assembled string -/

/-- The salt as it stands in an assembled string. -/
def saltText (saltHex : String) : List Char := base64Encode (hexToBytes saltHex.toList)

/-- The text before the salt. -/
def phcHead (m t p : Int) : List Char :=
  "$argon2id$v=19$m=".toList ++ decimal (toUint32 m) ++ ",t=".toList ++ decimal (toUint32 t) ++
    ",p=".toList ++ decimal (toUint32 p)

/-- An assembled string is its head, the salt and the digest, with `$` between them. -/
theorem encode_toList (saltHex : String) (m t p : Int) (d : String) :
    (encodeArgon2idPhc saltHex m t p d).toList =
      phcHead m t p ++ '$' :: (saltText saltHex ++ '$' :: d.toList) := by
  have hdollar : "$".toList = ['$'] := by decide
  unfold encodeArgon2idPhc phcHead saltText
  rw [String.toList_ofList, hdollar]
  simp only [List.append_assoc, List.cons_append, List.nil_append]

/-- The digest is what stands behind the last `$`. -/
theorem afterLastDollar_encode (saltHex : String) (m t p : Int) {d : String}
    (hd : '$' ∉ d.toList) :
    afterLastDollar (encodeArgon2idPhc saltHex m t p d).toList = d.toList := by
  rw [encode_toList, ← List.cons_append, ← List.append_assoc]
  exact Lib.reverse_takeWhile_append_cons hd

/-- Nothing in the head is an `X`. -/
theorem not_mem_phcHead (m t p : Int) : 'X' ∉ phcHead m t p := by
  have hnum (n : Nat) : 'X' ∉ decimal n := fun h ↦ by
    have hdigit := Nat.isDigit_of_mem_toDigits (b := 10) (by decide) (by decide) h
    exact absurd hdigit (by decide)
  have hlit : 'X' ∉ "$argon2id$v=19$m=".toList ∧ 'X' ∉ ",t=".toList ∧ 'X' ∉ ",p=".toList := by
    decide
  unfold phcHead
  simp only [List.mem_append, hnum, hlit, or_false, not_false_eq_true]

/-- A text with an `X` and without a `$` is found in an assembled string when it is found in the
salt or in the digest. -/
theorem infix_encode_iff (saltHex : String) (m t p : Int) (d : String) {pat : List Char}
    (hx : 'X' ∈ pat) (hdollar : '$' ∉ pat) :
    pat <:+: (encodeArgon2idPhc saltHex m t p d).toList ↔
      pat <:+: saltText saltHex ∨ pat <:+: d.toList := by
  have hne : pat ≠ [] := List.ne_nil_of_mem hx
  have hhead : ¬pat <:+: phcHead m t p := fun h ↦ not_mem_phcHead m t p (h.subset hx)
  rw [encode_toList, Lib.infix_append_cons_iff hdollar hne, Lib.infix_append_cons_iff hdollar hne]
  exact or_iff_right hhead

/-! ## What is looked for -/

/-- The tag of an XUNI block, somewhere in the text. -/
theorem hasXuniTag_iff (cs : List Char) :
    hasXuniTag cs = true ↔ ∃ d : Char, d.isDigit = true ∧ ['X', 'U', 'N', 'I', d] <:+: cs := by
  induction cs with
  | nil => simp [hasXuniTag]
  | cons c cs ih =>
      simp only [List.infix_cons_iff, and_or_left, exists_or]
      rw [hasXuniTag, Bool.or_eq_true, ih]
      refine or_congr ⟨fun h ↦ ?_, ?_⟩ Iff.rfl
      · split at h
        · next d rest heq => exact ⟨d, h, ⟨rest, by rw [heq]; rfl⟩⟩
        · cases h
      · rintro ⟨d, hd, rest, heq⟩
        rw [← heq]
        exact hd

theorem hasXuniTag_encode (saltHex : String) (m t p : Int) (d : String) :
    hasXuniTag (encodeArgon2idPhc saltHex m t p d).toList = true ↔
      hasXuniTag (saltText saltHex) = true ∨ hasXuniTag d.toList = true := by
  rw [hasXuniTag_iff, hasXuniTag_iff, hasXuniTag_iff, ← exists_or]
  refine exists_congr fun c ↦ ?_
  rw [← and_or_left]
  refine and_congr_right fun hc ↦ infix_encode_iff saltHex m t p d (by simp) ?_
  have hne : '$' ≠ c := by
    rintro rfl
    exact absurd hc (by decide)
  simp [hne]

theorem hasXen11_encode (saltHex : String) (m t p : Int) (d : String) :
    hasSubstr (encodeArgon2idPhc saltHex m t p d) "XEN11" = true ↔
      "XEN11".toList <:+: saltText saltHex ∨ hasSubstr d "XEN11" = true := by
  unfold hasSubstr
  rw [decide_eq_true_eq, decide_eq_true_eq]
  exact infix_encode_iff saltHex m t p d (by decide) (by decide)

/-- A superblock is one by its digest. -/
theorem isSuperblock_encode (saltHex : String) (m t p : Int) {d : String}
    (hd : '$' ∉ d.toList) :
    isSuperblock (encodeArgon2idPhc saltHex m t p d) = isSuperblock d := by
  have hdigest : hashDigestForSuperblock (encodeArgon2idPhc saltHex m t p d) = d := by
    have hfront : (encodeArgon2idPhc saltHex m t p d).toList.head? = some '$' := by
      rw [encode_toList]
      rfl
    unfold hashDigestForSuperblock
    dsimp only
    rw [if_pos (.inl hfront), afterLastDollar_encode saltHex m t p hd, String.ofList_toList]
  have hbare : hashDigestForSuperblock d = d := by
    have hfront : d.toList.head? ≠ some '$' := fun h ↦ hd (List.mem_of_mem_head? h)
    have hcount : d.toList.count '$' = 0 := List.count_eq_zero.mpr hd
    unfold hashDigestForSuperblock
    dsimp only
    refine if_neg ?_
    rintro (h | h)
    · exact hfront h
    · omega
  rw [isSuperblock, hdigest, isSuperblock, hbare]

/-! ## Classifying twice -/

/-- The names that `classify_block` gives are names it reads as themselves. -/
theorem normalizeType_names :
    normalizeType "XUNI" = "XUNI" ∧ normalizeType "XBLK" = "XBLK" ∧
      normalizeType "XNM" = "XNM" ∧ normalizeType "OTHER" = "OTHER" := by
  decide +kernel

/-- `classify_block`, with the type it compares written out. -/
theorem classifyBlock_eq (hashStr blockType : String) : classifyBlock hashStr blockType =
    if normalizeType blockType = "XUNI" ∨ hasXuniTag hashStr.toList = true then "XUNI"
    else if normalizeType blockType = "XBLK" ∨
      (hasSubstr hashStr "XEN11" = true ∧ isSuperblock hashStr = true) then "XBLK"
    else if hasSubstr hashStr "XEN11" = true ∨ normalizeType blockType = "XEN11" ∨
      normalizeType blockType = "NORMAL" ∨ normalizeType blockType = "XNM" then "XNM"
    else "OTHER" := rfl

/-- **A type that was given by the text is given by it again.** -/
theorem classifyBlock_classifyBlock (hashStr blockType : String) :
    classifyBlock hashStr (classifyBlock hashStr blockType) = classifyBlock hashStr blockType := by
  obtain ⟨hxuni, hxblk, hxnm, hother⟩ := normalizeType_names
  rw [classifyBlock_eq hashStr blockType]
  split_ifs with h₁ h₂ h₃
  · rw [classifyBlock_eq, hxuni, if_pos (.inl rfl)]
  all_goals
    obtain ⟨-, htag⟩ := not_or.mp h₁
  · rw [classifyBlock_eq, hxblk, if_neg (by simpa using htag), if_pos (.inl rfl)]
  all_goals
    obtain ⟨-, hsuper⟩ := not_or.mp h₂
  · rw [classifyBlock_eq, hxnm, if_neg (by simpa using htag), if_neg (by simpa using hsuper),
      if_pos (.inr (.inr (.inr rfl)))]
  · obtain ⟨hxen, -⟩ := not_or.mp h₃
    rw [classifyBlock_eq, hother, if_neg (by simpa using htag), if_neg (by simpa using hsuper),
      if_neg (by simpa using hxen)]

/-! ## Preparing a hit -/

/-- What does not start with `$` is no PHC string. -/
theorem not_encoded_of_no_dollar {hashStr : String} (hd : '$' ∉ hashStr.toList) :
    isArgon2Encoded hashStr = false := by
  rw [isArgon2Encoded]
  cases hs : hashStr.toList with
  | nil => rfl
  | cons c cs =>
      refine not_prefix_of_ne ?_ cs
      rintro rfl
      exact hd (hs ▸ List.mem_cons_self)

/-- A bare digest is assembled. -/
theorem prepare_digest (hit : BlockHit) (saltHex : String) (m t p : Int)
    (hd : '$' ∉ hit.hashStr.toList) :
    prepareHitForSubmit hit saltHex m t p = some { hit with
      hashStr := encodeArgon2idPhc saltHex m t p hit.hashStr
      blockType := classifyBlock (encodeArgon2idPhc saltHex m t p hit.hashStr) hit.blockType
      memoryCost := some m } := by
  have hsub : hasSubstr (encodeArgon2idPhc saltHex m t p hit.hashStr) hit.hashStr = true := by
    rw [hasSubstr, decide_eq_true_eq, encode_toList]
    exact ((List.suffix_cons _ _).trans ((List.suffix_append _ _).trans
      ((List.suffix_cons _ _).trans (List.suffix_append _ _)))).isInfix
  rw [prepareHitForSubmit, if_neg (by simp [not_encoded_of_no_dollar hd])]
  dsimp only
  rw [if_neg (by simp [hsub])]

/-- **Preparing a hit is assembling it once.**  A bare digest is wrapped; its cost is read back from
the string, its digest is behind the last `$`, nothing else changes but the type, and preparing the
result again keeps it at the same cost and refuses it at any other. -/
theorem prepare_roundTrip (hit : BlockHit) (saltHex : String) (m t p : Int) (hm : 1 ≤ m)
    (hmax : m ≤ 2 ^ 31 - 1) (hd : '$' ∉ hit.hashStr.toList) :
    ∃ out, prepareHitForSubmit hit saltHex m t p = some out ∧
      memoryCostFromHash out.hashStr = some m ∧ out.memoryCost = some m ∧
      afterLastDollar out.hashStr.toList = hit.hashStr.toList ∧
      (out.key = hit.key ∧ out.attempts = hit.attempts ∧ out.strategy = hit.strategy ∧
        out.hps = hit.hps ∧ out.foundAt = hit.foundAt ∧
        out.payoutAccount = hit.payoutAccount ∧ out.saltHex = hit.saltHex ∧
        out.feeBlock = hit.feeBlock) ∧
      ∀ (saltHex' : String) (m' t' p' : Int),
        prepareHitForSubmit out saltHex' m' t' p' = if m' = m then some out else none := by
  have hcost : memoryCostFromHash (encodeArgon2idPhc saltHex m t p hit.hashStr) = some m :=
    memoryCostFromHash_encode_of_pos (by omega) (by omega)
  refine ⟨_, prepare_digest hit saltHex m t p hd, hcost, rfl,
    afterLastDollar_encode saltHex m t p hd, ⟨rfl, rfl, rfl, rfl, rfl, rfl, rfl, rfl⟩,
    fun saltHex' m' t' p' ↦ ?_⟩
  rw [prepareHitForSubmit, if_pos (isArgon2Encoded_encode saltHex m t p hit.hashStr)]
  dsimp only
  rw [hcost, classifyBlock_classifyBlock]
  dsimp only
  by_cases hsame : m' = m
  · rw [if_pos hsame, if_neg (not_not.mpr hsame.symm)]
  · rw [if_neg hsame, if_pos (Ne.symm hsame)]

/-- A digest that is prepared at `m=8` and prepared again. -/
theorem prepare_roundTrip_eight :
    ∃ out, prepareHitForSubmit { hashStr := "XEN11abc" } "00ff" 8 1 1 = some out ∧
      memoryCostFromHash out.hashStr = some 8 ∧ out.memoryCost = some 8 ∧
      prepareHitForSubmit out "" 8 2 3 = some out ∧ prepareHitForSubmit out "" 9 2 3 = none := by
  obtain ⟨out, hout, hcost, hfield, -, -, hagain⟩ := prepare_roundTrip
    { hashStr := "XEN11abc" } "00ff" 8 1 1 (by decide) (by decide) (by decide)
  exact ⟨out, hout, hcost, hfield, hagain "" 8 2 3, hagain "" 9 2 3⟩

/-! ## What the salt can do -/

/-- **Where the salt leaves the type alone.**  An XUNI tag in it does no harm to what is XUNI
anyway, and a `XEN11` in it none to what is found by another sign first, or would be XNM and does
not become a superblock. -/
structure SaltHarmless (salt : List Char) (d blockType : String) : Prop where
  xuni : hasXuniTag salt = true →
    normalizeType blockType = "XUNI" ∨ hasXuniTag d.toList = true
  xen11 : "XEN11".toList <:+: salt →
    normalizeType blockType = "XUNI" ∨ hasXuniTag d.toList = true ∨
      hasSubstr d "XEN11" = true ∨ normalizeType blockType = "XBLK" ∨
      (isSuperblock d = false ∧ (normalizeType blockType = "XEN11" ∨
        normalizeType blockType = "NORMAL" ∨ normalizeType blockType = "XNM"))

/-- Two passes through the tests of `classify_block`, one of them with a tag (`s`) and a `XEN11`
(`y`) more. -/
theorem sameType_iff {a t s b x y u n : Prop} [Decidable a] [Decidable t] [Decidable s]
    [Decidable b] [Decidable x] [Decidable y] [Decidable u] [Decidable n] :
    ((if a ∨ s ∨ t then "XUNI" else if b ∨ (y ∨ x) ∧ u then "XBLK"
        else if (y ∨ x) ∨ n then "XNM" else "OTHER") =
      (if a ∨ t then "XUNI" else if b ∨ x ∧ u then "XBLK"
        else if x ∨ n then "XNM" else "OTHER")) ↔
      (s → a ∨ t) ∧ (y → a ∨ t ∨ x ∨ b ∨ (¬u ∧ n)) := by
  by_cases hxuni : a ∨ t
  · have hmore : a ∨ s ∨ t := by tauto
    rw [if_pos hmore, if_pos hxuni]
    exact iff_of_true rfl ⟨fun _ ↦ hxuni, by tauto⟩
  rw [if_neg hxuni]
  by_cases hs : s
  · rw [if_pos (.inr (.inl hs))]
    refine iff_of_false ?_ fun h ↦ hxuni (h.1 hs)
    split_ifs <;> decide
  rw [if_neg (by tauto)]
  by_cases hy : y
  · by_cases hb : b
    · rw [if_pos (.inl hb), if_pos (.inl hb)]
      exact iff_of_true rfl ⟨fun h ↦ absurd h hs, by tauto⟩
    · by_cases hx : x
      · simp [hs, hb, hx, hy]
      · by_cases hu : u <;> by_cases hn : n <;> simp [hs, hb, hx, hy, hu, hn]
        all_goals tauto
  · simp [hs, hy]

/-- The type of an assembled string is that of its digest exactly where the salt is harmless. -/
theorem classifyBlock_encode_iff (saltHex : String) (m t p : Int) {d : String} (blockType : String)
    (hd : '$' ∉ d.toList) :
    classifyBlock (encodeArgon2idPhc saltHex m t p d) blockType = classifyBlock d blockType ↔
      SaltHarmless (saltText saltHex) d blockType := by
  rw [classifyBlock_eq, classifyBlock_eq]
  simp only [hasXuniTag_encode, hasXen11_encode, isSuperblock_encode saltHex m t p hd]
  rw [sameType_iff, Bool.not_eq_true]
  exact ⟨fun h ↦ ⟨h.1, h.2⟩, fun h ↦ ⟨h.xuni, h.xen11⟩⟩

/-- The type of a match is given by its digest again. -/
theorem classifyBlock_kind (found : HashApiMatch) :
    classifyBlock found.hash found.kind = found.kind := by
  unfold HashApiMatch.kind
  exact classifyBlock_classifyBlock found.hash found.matchedPattern

/-- The hit that is made of a match has its digest and its type. -/
theorem hitFromMatch_type {s : CudaEngine} {now : String} {found : HashApiMatch} {attempts : Nat}
    {hps : Rat} {hit : BlockHit} (h : s.hitFromMatch now found attempts hps = some hit) :
    hit.hashStr = found.hash ∧ hit.blockType = found.kind := by
  unfold CudaEngine.hitFromMatch at h
  split_ifs at h
  rw [← Option.some.inj h]
  constructor <;> dsimp only

/-- **The salt leaves the type of a block alone exactly where it is harmless**: in the assembled
string, and between the hit that is made of a match and the hit that is prepared of it. -/
theorem saltKeepsType_iff (saltHex : String) (m t p : Int) (d blockType : String)
    (hd : '$' ∉ d.toList) :
    (classifyBlock (encodeArgon2idPhc saltHex m t p d) blockType = classifyBlock d blockType ↔
        SaltHarmless (saltText saltHex) d blockType) ∧
      ∀ (s : CudaEngine) (now : String) (found : HashApiMatch) (attempts : Nat) (hps : Rat)
        (hit out : BlockHit), found.hash = d →
        s.hitFromMatch now found attempts hps = some hit →
        prepareHitForSubmit hit saltHex m t p = some out →
          (out.blockType = hit.blockType ↔
            SaltHarmless (saltText saltHex) d hit.blockType) := by
  refine ⟨classifyBlock_encode_iff saltHex m t p blockType hd, ?_⟩
  rintro s now found attempts hps hit out rfl hhit hout
  obtain ⟨hhash, hkind⟩ := hitFromMatch_type hhit
  rw [prepare_digest hit saltHex m t p (by rwa [hhash])] at hout
  cases hout
  dsimp only
  rw [hhash, ← classifyBlock_encode_iff saltHex m t p hit.blockType hd, hkind,
    classifyBlock_kind found]

/-- A wallet whose salt has neither sign, and a digest of an XNM block. -/
theorem saltKeepsType_iff_plain :
    classifyBlock (encodeArgon2idPhc "0102" 8 1 1 "XEN11abc") "XEN11" =
      classifyBlock "XEN11abc" "XEN11" :=
  (saltKeepsType_iff "0102" 8 1 1 "XEN11abc" "XEN11" (by decide)).1.mpr
    ⟨by decide +kernel, by decide +kernel⟩

/-- A wallet keeps the type of every block exactly where its salt has neither sign. -/
theorem saltKeepsAllTypes_iff (saltHex : String) :
    (∀ (m t p : Int) (d blockType : String), '$' ∉ d.toList →
        classifyBlock (encodeArgon2idPhc saltHex m t p d) blockType = classifyBlock d blockType) ↔
      hasXuniTag (saltText saltHex) = false ∧ ¬"XEN11".toList <:+: saltText saltHex := by
  constructor
  · intro hall
    have h := (classifyBlock_encode_iff saltHex 0 0 0 "" (d := "") (by decide)).mp
      (hall 0 0 0 "" "" (by decide))
    have hempty : ¬(normalizeType "" = "XUNI" ∨ hasXuniTag "".toList = true) := by decide +kernel
    refine ⟨Bool.eq_false_iff.mpr fun htag ↦ hempty (h.xuni htag), fun hxen ↦ ?_⟩
    exact absurd (h.xen11 hxen) (by decide +kernel)
  · rintro ⟨htag, hxen⟩ m t p d blockType hd
    refine (classifyBlock_encode_iff saltHex m t p blockType hd).mpr ⟨fun h ↦ ?_, fun h ↦ ?_⟩
    · exact absurd h (by simp [htag])
    · exact absurd h hxen

/-- The wallet `0x5d4348e4…` has the salt `XUNI5AAA…`; its XNM blocks become XUNI blocks. -/
theorem saltChangesType :
    ¬∀ (saltHex : String) (m t p : Int) (d blockType : String),
      saltHex.toList.length % 2 = 0 → (∀ c ∈ saltHex.toList, isXDigit c = true) →
      '$' ∉ d.toList →
        classifyBlock (encodeArgon2idPhc saltHex m t p d) blockType =
          classifyBlock d blockType := by
  intro hall
  have h := hall "5d4348e400000000000000000000000000000000" 1100 1 1 "XEN11abc" "XEN11"
    (by decide +kernel) (List.all_eq_true.mp (by decide +kernel)) (by decide)
  exact absurd h (by decide +kernel)

end XNMiner
