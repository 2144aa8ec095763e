import XNMiner.Mining.BlockTypes

/-!
# The PHC string the pool verifies

`mining/argon2_encode.cpp`: the GPU gives the bare base64 digest of a match; before a hit is
queued or submitted, `prepare_hit_for_submit` wraps it as
`$argon2id$v=19$m=M,t=T,p=P$salt$digest`.  The cost in that text is what the pool compares with
its difficulty, and `memory_cost_from_hash` is how the miner reads it back.
-/

namespace XNMiner

/-! ## Keys and bytes -/

def isXDigit (c : Char) : Bool :=
  c.isDigit || (decide ('a' ≤ c) && decide (c ≤ 'f')) || (decide ('A' ≤ c) && decide (c ≤ 'F'))

def isHex64Key (key : String) : Bool :=
  decide (key.toList.length = 64) && key.toList.all isXDigit

/-- The value of a hex digit. -/
def nibble (c : Char) : Option Nat :=
  if '0' ≤ c ∧ c ≤ '9' then some (c.toNat - '0'.toNat)
  else if 'a' ≤ c ∧ c ≤ 'f' then some (c.toNat - 'a'.toNat + 10)
  else if 'A' ≤ c ∧ c ≤ 'F' then some (c.toNat - 'A'.toNat + 10)
  else none

/-- `hex_to_bytes`: stops at the first pair that is not hex. -/
def hexToBytes : List Char → List Nat
  | a :: b :: rest =>
      match nibble a, nibble b with
      | some hi, some lo => (16 * hi + lo) :: hexToBytes rest
      | _, _ => []
  | _ => []

def kBase64Chars : List Char :=
  "ABCDEFGHIJKLMNOPQRSTUVWXYZabcdefghijklmnopqrstuvwxyz0123456789+/".toList

/-- One base64 character. -/
def base64Char (i : Nat) : Char := kBase64Chars.getD (i % 64) 'A'

/-- `base64Encode`, without padding. -/
def base64Encode : List Nat → List Char
  | a :: b :: c :: rest =>
      let value := 65536 * a + 256 * b + c
      [base64Char (value / 2 ^ 18), base64Char (value / 2 ^ 12), base64Char (value / 2 ^ 6),
        base64Char value] ++ base64Encode rest
  | [a, b] =>
      let value := 65536 * a + 256 * b
      [base64Char (value / 2 ^ 18), base64Char (value / 2 ^ 12), base64Char (value / 2 ^ 6)]
  | [a] =>
      let value := 65536 * a
      [base64Char (value / 2 ^ 18), base64Char (value / 2 ^ 12)]
  | [] => []

/-! ## The text -/

/-- `static_cast<uint32_t>`. -/
def toUint32 (n : Int) : Nat := (n % 2 ^ 32).toNat

/-- `std::to_string` of an unsigned number. -/
def decimal (n : Nat) : List Char := Nat.toDigits 10 n

def isArgon2Encoded (hashStr : String) : Bool := "$argon2".toList.isPrefixOf hashStr.toList

def encodeArgon2idPhc (saltHex : String) (memoryCost timeCost parallelism : Int)
    (pureB64Hash : String) : String :=
  String.ofList ("$argon2id$v=19$m=".toList ++ decimal (toUint32 memoryCost) ++
    ",t=".toList ++ decimal (toUint32 timeCost) ++
    ",p=".toList ++ decimal (toUint32 parallelism) ++
    "$".toList ++ base64Encode (hexToBytes saltHex.toList) ++ "$".toList ++ pureB64Hash.toList)

/-- A match of `\$m=(\d+),` at the front: the digits. -/
def matchCost : List Char → Option (List Char)
  | '$' :: 'm' :: '=' :: rest =>
      let digits := rest.takeWhile Char.isDigit
      if digits ≠ [] ∧ (rest.dropWhile Char.isDigit).head? = some ',' then some digits else none
  | _ => none

/-- `std::regex_search` for `\$m=(\d+),`: the digits of the first match. -/
def searchCost : List Char → Option (List Char)
  | [] => none
  | c :: cs => match matchCost (c :: cs) with
      | some digits => some digits
      | none => searchCost cs

/-- `std::stoi` on digits; `none` where it throws `out_of_range`. -/
def stoiDigits (digits : List Char) : Option Int :=
  let n := Nat.ofDigitChars 10 digits 0
  if n < 2 ^ 31 then some n else none

def memoryCostFromHash (hashStr : String) : Option Int :=
  if isArgon2Encoded hashStr then (searchCost hashStr.toList).bind stoiDigits else none

def prepareHitForSubmit (hit : BlockHit) (saltHex : String)
    (memoryCost timeCost parallelism : Int) : Option BlockHit :=
  if isArgon2Encoded hit.hashStr then
    match memoryCostFromHash hit.hashStr with
    | some blockM =>
        if blockM ≠ memoryCost then none
        else some { hit with blockType := classifyBlock hit.hashStr hit.blockType }
    | none => some { hit with blockType := classifyBlock hit.hashStr hit.blockType }
  else
    let encoded := encodeArgon2idPhc saltHex memoryCost timeCost parallelism hit.hashStr
    if hasSubstr encoded hit.hashStr = false then none
    else some { hit with
      hashStr := encoded
      blockType := classifyBlock encoded hit.blockType
      memoryCost := some memoryCost }

/-! ## Reading the cost back -/

/-- A printed number is read up to the comma behind it. -/
theorem span_decimal (n : Nat) (rest : List Char) :
    (decimal n ++ ',' :: rest).takeWhile Char.isDigit = decimal n ∧
      (decimal n ++ ',' :: rest).dropWhile Char.isDigit = ',' :: rest := by
  have hdigits : ∀ c ∈ decimal n, c.isDigit = true := fun c hc ↦
    Nat.isDigit_of_mem_toDigits (by decide) (by decide) hc
  have hcomma : ¬ ','.isDigit = true := by decide
  rw [List.takeWhile_append_of_pos hdigits, List.dropWhile_append_of_pos hdigits]
  simp [hcomma]

/-- A cost in the text is matched. -/
theorem matchCost_decimal (n : Nat) (rest : List Char) :
    matchCost ('$' :: 'm' :: '=' :: (decimal n ++ ',' :: rest)) = some (decimal n) := by
  obtain ⟨htake, hdrop⟩ := span_decimal n rest
  have hne : decimal n ≠ [] := Nat.toDigits_ne_nil
  simp [matchCost, htake, hdrop, hne]

/-- Only `$m=` starts a match. -/
theorem matchCost_of_ne {c : Char} (h : c ≠ '$') (cs : List Char) : matchCost (c :: cs) = none := by
  unfold matchCost
  split
  · next heq => exact absurd (List.cons.inj heq).1 h
  · rfl

theorem matchCost_dollar_of_ne {c : Char} (h : c ≠ 'm') (cs : List Char) :
    matchCost ('$' :: c :: cs) = none := by
  unfold matchCost
  split
  · next heq => exact absurd (List.cons.inj (List.cons.inj heq).2).1 h
  · rfl

theorem searchCost_of_none {c : Char} {cs : List Char} (h : matchCost (c :: cs) = none) :
    searchCost (c :: cs) = searchCost cs := by
  rw [searchCost, h]

/-- The digits found in a text that starts as an assembled one does. -/
theorem searchCost_phc (n : Nat) (rest : List Char) :
    searchCost ("$argon2id$v=19$m=".toList ++ decimal n ++ ',' :: rest) = some (decimal n) := by
  rw [List.append_assoc]
  change searchCost ('$' :: 'a' :: 'r' :: 'g' :: 'o' :: 'n' :: '2' :: 'i' :: 'd' :: '$' :: 'v' ::
    '=' :: '1' :: '9' :: '$' :: 'm' :: '=' :: (decimal n ++ ',' :: rest)) = _
  rw [searchCost_of_none (matchCost_dollar_of_ne (by decide) _)]
  iterate 8 rw [searchCost_of_none (matchCost_of_ne (by decide) _)]
  rw [searchCost_of_none (matchCost_dollar_of_ne (by decide) _)]
  iterate 4 rw [searchCost_of_none (matchCost_of_ne (by decide) _)]
  rw [searchCost, matchCost_decimal]

/-- An assembled text, up to its cost. -/
theorem encodeArgon2idPhc_toList (saltHex : String) (m t p : Int) (d : String) :
    ∃ rest, (encodeArgon2idPhc saltHex m t p d).toList =
      "$argon2id$v=19$m=".toList ++ decimal (toUint32 m) ++ ',' :: rest := by
  refine ⟨"t=".toList ++ decimal (toUint32 t) ++ ",p=".toList ++ decimal (toUint32 p) ++
    "$".toList ++ base64Encode (hexToBytes saltHex.toList) ++ "$".toList ++ d.toList, ?_⟩
  have ht : ",t=".toList = [','] ++ "t=".toList := by decide
  unfold encodeArgon2idPhc
  rw [String.toList_ofList, ht]
  simp only [List.append_assoc, List.cons_append, List.nil_append]

/-- An assembled text is recognised as one. -/
theorem isArgon2Encoded_encode (saltHex : String) (m t p : Int) (d : String) :
    isArgon2Encoded (encodeArgon2idPhc saltHex m t p d) = true := by
  obtain ⟨rest, h⟩ := encodeArgon2idPhc_toList saltHex m t p d
  rw [isArgon2Encoded, h, List.isPrefixOf_iff_prefix, List.append_assoc]
  exact (show "$argon2".toList <+: "$argon2id$v=19$m=".toList from ⟨"id$v=19$m=".toList, rfl⟩).trans
    (List.prefix_append _ _)

/-- **The cost in an assembled text** is the cost it was assembled with, cast to 32 bits; it is
not read back when it does not fit an `int`. -/
theorem memoryCostFromHash_encode (saltHex : String) (m t p : Int) (d : String) :
    memoryCostFromHash (encodeArgon2idPhc saltHex m t p d) =
      if toUint32 m < 2 ^ 31 then some (toUint32 m : Int) else none := by
  obtain ⟨rest, h⟩ := encodeArgon2idPhc_toList saltHex m t p d
  rw [memoryCostFromHash, if_pos (isArgon2Encoded_encode saltHex m t p d), h, searchCost_phc,
    Option.bind_some, stoiDigits, decimal, Nat.ofDigitChars_ten_toDigits]

/-- A cost that fits an `int` is read back as itself. -/
theorem memoryCostFromHash_encode_of_pos {saltHex : String} {m t p : Int} {d : String}
    (hm : 0 ≤ m) (hlt : m < 2 ^ 31) :
    memoryCostFromHash (encodeArgon2idPhc saltHex m t p d) = some m := by
  have hu : (toUint32 m : Int) = m := by
    unfold toUint32
    omega
  rw [memoryCostFromHash_encode, if_pos (by omega), hu]

/-- A prepared hit is a PHC string, and it is not empty. -/
theorem isArgon2Encoded_of_prepare {hit out : BlockHit} {saltHex : String} {m t p : Int}
    (h : prepareHitForSubmit hit saltHex m t p = some out) :
    isArgon2Encoded out.hashStr = true := by
  unfold prepareHitForSubmit at h
  split at h
  · next henc =>
    split at h
    · split at h
      · cases h
      · cases h
        exact henc
    · cases h
      exact henc
  · simp only at h
    split at h
    · cases h
    · cases h
      exact isArgon2Encoded_encode saltHex m t p hit.hashStr

/-! ## The two costs of a prepared hit -/

/-- A digest as the GPU gives it. -/
def IsDigest (digest : String) : Prop := ∃ bytes, digest = String.ofList (base64Encode bytes)

theorem base64Char_ne_dollar (i : Nat) : base64Char i ≠ '$' := by
  have hmem : base64Char i ∈ kBase64Chars := by
    have hlen : kBase64Chars.length = 64 := by decide
    have hlt : i % 64 < kBase64Chars.length := hlen ▸ Nat.mod_lt i (by decide)
    rw [base64Char, List.getD_eq_getElem?_getD, List.getElem?_eq_getElem hlt, Option.getD_some]
    exact List.getElem_mem hlt
  intro h
  rw [h] at hmem
  exact absurd hmem (by decide)

/-- What starts with another character is no PHC string. -/
theorem not_prefix_of_ne {c : Char} (hc : c ≠ '$') (cs : List Char) :
    "$argon2".toList.isPrefixOf (c :: cs) = false := by
  have hlit : "$argon2".toList = '$' :: "argon2".toList := by decide
  rw [hlit, List.isPrefixOf_cons_cons, beq_eq_false_iff_ne.mpr hc.symm, Bool.false_and]

/-- A digest is no PHC string. -/
theorem IsDigest.not_encoded {digest : String} (h : IsDigest digest) :
    isArgon2Encoded digest = false := by
  obtain ⟨bytes, rfl⟩ := h
  have hlist : (String.ofList (base64Encode bytes)).toList = base64Encode bytes :=
    String.toList_ofList
  rw [isArgon2Encoded, hlist]
  match bytes with
  | [] => rfl
  | [_] => exact not_prefix_of_ne (base64Char_ne_dollar _) _
  | [_, _] => exact not_prefix_of_ne (base64Char_ne_dollar _) _
  | _ :: _ :: _ :: _ => exact not_prefix_of_ne (base64Char_ne_dollar _) _

/-- A hit as `handle_hit` makes it of a digest. -/
def Prepared (hit : BlockHit) : Prop :=
  ∃ raw saltHex m t p, IsDigest raw.hashStr ∧ prepareHitForSubmit raw saltHex m t p = some hit

/-- A hit that carries its cost twice: in a field and in its PHC string. -/
def Costed (hit : BlockHit) : Prop :=
  isArgon2Encoded hit.hashStr = true ∧ ∃ m, hit.memoryCost = some m ∧
    memoryCostFromHash hit.hashStr =
      if toUint32 m < 2 ^ 31 then some (toUint32 m : Int) else none

/-- **A prepared hit carries its cost twice.** -/
theorem Prepared.costed {hit : BlockHit} (h : Prepared hit) : Costed hit := by
  obtain ⟨raw, saltHex, m, t, p, hdigest, hprep⟩ := h
  rw [prepareHitForSubmit, if_neg (by simp [hdigest.not_encoded])] at hprep
  simp only at hprep
  split at hprep
  · cases hprep
  · cases hprep
    exact ⟨isArgon2Encoded_encode .., m, rfl, memoryCostFromHash_encode ..⟩

/-- A cost that fits an `int` is the one in the PHC string. -/
theorem Costed.memoryCostFromHash_eq {hit : BlockHit} (h : Costed hit) {m : Int}
    (hm : hit.memoryCost = some m) (hpos : 0 ≤ m) (hlt : m < 2 ^ 31) :
    memoryCostFromHash hit.hashStr = some m := by
  obtain ⟨-, m', hm', hcost⟩ := h
  obtain rfl : m = m' := Option.some.inj (hm.symm.trans hm')
  have hu : (toUint32 m : Int) = m := by
    unfold toUint32
    omega
  rw [hcost, if_pos (by omega), hu]

end XNMiner
