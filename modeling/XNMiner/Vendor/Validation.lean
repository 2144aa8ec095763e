import XNMiner.Vendor.Argon2Params

/-!
# Requests

`vendor/hashapi/HashApiValidation.cpp` says what is wrong with a request.  A request that is valid
(`Request.Valid`) has a salt that every reader of hex reads alike, and so does the text that is
submitted later.
-/

namespace XNMiner.HashApi

def kHashApiKeyLength : Nat := 64

def kMaxTargetPatternLength : Nat := 128

def kMaxCpuBatchSize : Nat := 10000

/-- `HashApiRequest`. -/
structure Request where
  requestId : String := ""
  algorithm : String := "argon2id-xen"
  backend : String := "cpu"
  saltHex : List Char := []
  key : List Char := []
  keyPrefix : List Char := []
  targetPattern : List Char := "XEN11".toList
  difficulty : Nat := 42069
  batchSize : Nat := 1
  deviceId : Int := 0
  allowXuni : Bool := true
  gpuFirstBlocks : Bool := false

def isHexString (value : List Char) : Bool := value.all isXDigit

def normalizeHex (value : List Char) : List Char :=
  let normalized := match value with
    | '0' :: 'x' :: rest => rest
    | '0' :: 'X' :: rest => rest
    | _ => value
  normalized.map Char.toLower

/-- `if (wrong) errors.push_back(text)`. -/
def errorIf (wrong : Prop) [Decidable wrong] (text : String) : List String :=
  if wrong then [text] else []

/-- What `validateRequest` says of the salt. -/
def saltErrors (salt : List Char) : List String :=
  if salt = [] then ["salt_hex is required"]
  else
    errorIf (salt.length % 2 ≠ 0) "salt_hex must contain an even number of hex characters" ++
    errorIf (salt.length < 16) "salt_hex must be at least 16 hex characters" ++
    errorIf (isHexString salt = false) "salt_hex must contain only hex characters"

/-- What it says of the prefix of the keys. -/
def keyPrefixErrors (keyPrefix : List Char) : List String :=
  if keyPrefix = [] then []
  else
    errorIf (kHashApiKeyLength < keyPrefix.length) "key_prefix cannot exceed 64 hex characters" ++
    errorIf (isHexString keyPrefix = false) "key_prefix must contain only hex characters"

/-- What it says of the key. -/
def keyErrors (keyPrefix key : List Char) : List String :=
  if key = [] then []
  else
    errorIf (key.length ≠ kHashApiKeyLength) "key must contain exactly 64 hex characters" ++
    errorIf (isHexString key = false) "key must contain only hex characters" ++
    errorIf (keyPrefix ≠ [] ∧ ¬keyPrefix <+: key)
      "key must start with key_prefix when both are provided"

def validateRequest (request : Request) : List String :=
  let keyPrefix := normalizeHex request.keyPrefix
  errorIf (request.algorithm ≠ "argon2id-xen") ("unsupported algorithm: " ++ request.algorithm) ++
  errorIf (request.backend ∉ ["cpu", "reference", "cuda"])
    ("unsupported backend: " ++ request.backend) ++
  saltErrors (normalizeHex request.saltHex) ++
  keyPrefixErrors keyPrefix ++
  keyErrors keyPrefix (normalizeHex request.key) ++
  errorIf (request.targetPattern = []) "target_pattern is required" ++
  errorIf (kMaxTargetPatternLength < request.targetPattern.length) "target_pattern is too long" ++
  errorIf (request.difficulty = 0) "difficulty must be greater than zero" ++
  errorIf (request.batchSize = 0) "batch_size must be greater than zero" ++
  errorIf ((request.backend = "cpu" ∨ request.backend = "reference") ∧
    kMaxCpuBatchSize < request.batchSize) "cpu batch_size exceeds safe limit" ++
  errorIf (request.deviceId < 0) "device_id must be non-negative" ++
  errorIf (request.gpuFirstBlocks = true ∧ request.backend ≠ "cuda")
    "gpu_first_blocks requires backend=cuda"

/-! ## Valid requests -/

/-- What a request has to be. -/
structure Request.Valid (request : Request) : Prop where
  algorithm : request.algorithm = "argon2id-xen"
  backend : request.backend ∈ ["cpu", "reference", "cuda"]
  salt : (normalizeHex request.saltHex).length % 2 = 0 ∧
    16 ≤ (normalizeHex request.saltHex).length ∧
    isHexString (normalizeHex request.saltHex) = true
  keyPrefix : (normalizeHex request.keyPrefix).length ≤ kHashApiKeyLength ∧
    isHexString (normalizeHex request.keyPrefix) = true
  key : normalizeHex request.key ≠ [] →
    (normalizeHex request.key).length = kHashApiKeyLength ∧
    isHexString (normalizeHex request.key) = true ∧
    normalizeHex request.keyPrefix <+: normalizeHex request.key
  targetPattern : request.targetPattern ≠ [] ∧
    request.targetPattern.length ≤ kMaxTargetPatternLength
  difficulty : 0 < request.difficulty
  batchSize : 0 < request.batchSize
  cpuBatchSize : request.backend ≠ "cuda" → request.batchSize ≤ kMaxCpuBatchSize
  deviceId : 0 ≤ request.deviceId
  gpuFirstBlocks : request.gpuFirstBlocks = true → request.backend = "cuda"

theorem errorIf_eq_nil {wrong : Prop} [Decidable wrong] {text : String} :
    errorIf wrong text = [] ↔ ¬wrong := by
  rw [errorIf]
  split
  · next h => exact ⟨nofun, fun hn ↦ absurd h hn⟩
  · next h => exact ⟨fun _ ↦ h, fun _ ↦ rfl⟩

theorem saltErrors_eq_nil (salt : List Char) : saltErrors salt = [] ↔
    salt.length % 2 = 0 ∧ 16 ≤ salt.length ∧ isHexString salt = true := by
  rw [saltErrors]
  split
  · next h => simp [h]
  · simp only [List.append_eq_nil_iff, errorIf_eq_nil, Decidable.not_not, Nat.not_lt,
      Bool.not_eq_false, and_assoc]

theorem keyPrefixErrors_eq_nil (keyPrefix : List Char) : keyPrefixErrors keyPrefix = [] ↔
    keyPrefix.length ≤ kHashApiKeyLength ∧ isHexString keyPrefix = true := by
  rw [keyPrefixErrors]
  split
  · next h => simp [h, isHexString]
  · simp only [List.append_eq_nil_iff, errorIf_eq_nil, Nat.not_lt, Bool.not_eq_false]

theorem keyErrors_eq_nil (keyPrefix key : List Char) : keyErrors keyPrefix key = [] ↔
    (key ≠ [] → key.length = kHashApiKeyLength ∧ isHexString key = true ∧ keyPrefix <+: key) := by
  rw [keyErrors]
  split
  · next h => simp [h]
  · next h =>
    have hprefix : ¬(keyPrefix ≠ [] ∧ ¬keyPrefix <+: key) ↔ keyPrefix <+: key := by
      rw [not_and, not_not]
      refine ⟨fun himp ↦ ?_, fun hpre _ ↦ hpre⟩
      by_cases hempty : keyPrefix = []
      · exact hempty ▸ List.nil_prefix
      · exact himp hempty
    simp only [List.append_eq_nil_iff, errorIf_eq_nil, Decidable.not_not, Bool.not_eq_false,
      hprefix, and_assoc, h, ne_eq, not_false_eq_true, true_implies]

/-- **Nothing is wrong with a request exactly if it is valid.** -/
theorem validateRequest_eq_nil_iff (request : Request) :
    validateRequest request = [] ↔ request.Valid := by
  rw [validateRequest]
  simp only [List.append_eq_nil_iff, errorIf_eq_nil, saltErrors_eq_nil, keyPrefixErrors_eq_nil,
    keyErrors_eq_nil]
  constructor
  · rintro ⟨⟨⟨⟨⟨⟨⟨⟨⟨⟨⟨halgorithm, hbackend⟩, hsalt⟩, hprefix⟩, hkey⟩, hpattern⟩, hlength⟩,
      hdifficulty⟩, hbatch⟩, hcpu⟩, hdevice⟩, hgpu⟩
    have hbackend := Decidable.not_not.mp hbackend
    refine ⟨Decidable.not_not.mp halgorithm, hbackend, hsalt, hprefix, hkey,
      ⟨hpattern, Nat.not_lt.mp hlength⟩, Nat.pos_of_ne_zero hdifficulty, Nat.pos_of_ne_zero hbatch,
      fun hne ↦ ?_, Int.not_lt.mp hdevice, fun hfirst ↦ ?_⟩
    · refine Nat.not_lt.mp fun hlarge ↦ hcpu ⟨?_, hlarge⟩
      simpa [hne] using hbackend
    · exact Decidable.not_not.mp fun hne ↦ hgpu ⟨hfirst, hne⟩
  · intro h
    refine ⟨⟨⟨⟨⟨⟨⟨⟨⟨⟨⟨not_not.mpr h.algorithm, not_not.mpr h.backend⟩, h.salt⟩, h.keyPrefix⟩,
      h.key⟩, h.targetPattern.1⟩, Nat.not_lt.mpr h.targetPattern.2⟩, Nat.ne_of_gt h.difficulty⟩,
      Nat.ne_of_gt h.batchSize⟩, fun ⟨hcpu, hlarge⟩ ↦ ?_⟩, Int.not_lt.mpr h.deviceId⟩,
      fun ⟨hfirst, hne⟩ ↦ hne (h.gpuFirstBlocks hfirst)⟩
    refine absurd (h.cpuBatchSize ?_) (Nat.not_le.mpr hlarge)
    rcases hcpu with heq | heq <;> rw [heq] <;> decide

/-! ## Its salt -/

theorem exists_nibble {c : Char} (h : isXDigit c = true) : ∃ n, nibble c = some n := by
  simp only [isXDigit, Bool.or_eq_true, Bool.and_eq_true, decide_eq_true_eq] at h
  rw [nibble]
  split
  · exact ⟨_, rfl⟩
  · next hdigit =>
    split
    · exact ⟨_, rfl⟩
    · next hlower =>
      refine ⟨_, if_pos ?_⟩
      rcases h with (h | h) | h
      · simp only [Char.isDigit, Bool.and_eq_true, decide_eq_true_eq] at h
        exact absurd h hdigit
      · exact absurd h hlower
      · exact h

/-- The reader of the backend reads all hex texts of even length. -/
theorem exists_decodeHexBytes {text : List Char} (heven : text.length % 2 = 0)
    (hhex : isHexString text = true) :
    ∃ bytes, decodeHexBytes text = some bytes ∧ 2 * bytes.length = text.length := by
  induction text using decodeHexBytes.induct with
  | case1 => exact ⟨[], rfl, rfl⟩
  | case2 a =>
    rw [List.length_singleton] at heven
    exact absurd heven (by decide)
  | case3 a b rest ih =>
    simp only [isHexString, List.all_cons, Bool.and_eq_true] at hhex
    obtain ⟨ha, hb, hrest⟩ := hhex
    obtain ⟨high, hhigh⟩ := exists_nibble ha
    obtain ⟨low, hlow⟩ := exists_nibble hb
    simp only [List.length_cons] at heven
    obtain ⟨bytes, hbytes, hlen⟩ := ih (by omega) hrest
    refine ⟨_, by rw [decodeHexBytes, hhigh, hlow, hbytes]; rfl, ?_⟩
    simp only [List.length_cons]
    omega

/-- What holds of the capital letters, and of what `tolower` leaves as it is. -/
theorem toLower_cases {p : Char → Char → Prop}
    (hupper : ∀ k < 26, p (Char.ofNat (65 + k)).toLower (Char.ofNat (65 + k)))
    (hsame : ∀ c : Char, c.toLower = c → p c c) (c : Char) : p c.toLower c := by
  by_cases hc : 65 ≤ c.toNat ∧ c.toNat ≤ 90
  · have hletter := hupper (c.toNat - 65) (by omega)
    rwa [Nat.add_sub_cancel' hc.1, Char.ofNat_toNat] at hletter
  · have hleft : c.toLower = c := dif_neg hc
    rw [hleft]
    exact hsame c hleft

theorem nibble_toLower (c : Char) : nibble c.toLower = nibble c :=
  toLower_cases (p := fun d c ↦ nibble d = nibble c) (by decide) (fun _ _ ↦ rfl) c

theorem toLower_toLower (c : Char) : c.toLower.toLower = c.toLower :=
  toLower_cases (p := fun d _ ↦ d.toLower = d) (by decide) (fun _ h ↦ h) c

/-- The case of the digits does not matter. -/
theorem hexToBytes_map_toLower (text : List Char) :
    hexToBytes (text.map Char.toLower) = hexToBytes text := by
  induction text using hexToBytes.induct with
  | case1 a b rest high low hhigh hlow ih => simp [hexToBytes, nibble_toLower, hhigh, hlow, ih]
  | case2 a b rest hno => simp [hexToBytes, nibble_toLower]
  | case3 text hno =>
    rcases text with _ | ⟨a, _ | ⟨b, rest⟩⟩
    · rfl
    · rfl
    · exact absurd rfl (hno a b rest)

/-- A text of hex digits has no `0x` to cut off. -/
theorem normalizeHex_of_hex {value : List Char} (h : isHexString value = true) :
    normalizeHex value = value.map Char.toLower := by
  have hx : isXDigit 'x' = false ∧ isXDigit 'X' = false := by decide
  refine congrArg (List.map Char.toLower) ?_
  split
  · simp [isHexString, hx] at h
  · simp [isHexString, hx] at h
  · rfl

/-- **The salt of a valid request is read alike by all**: by the backend, by the host's parameters,
and, if it has no `0x`, by the text that is submitted. -/
theorem Request.Valid.salt_read {request : Request} (h : request.Valid) :
    ∃ bytes, decodeHexBytes (normalizeHex request.saltHex) = some bytes ∧
      stoiHexToBytes (normalizeHex request.saltHex) = some bytes ∧ 8 ≤ bytes.length ∧
      (isHexString request.saltHex = true →
        hexToBytes request.saltHex = bytes.map BitVec.toNat) := by
  obtain ⟨heven, hlong, hhex⟩ := h.salt
  obtain ⟨bytes, hbytes, hlen⟩ := exists_decodeHexBytes heven hhex
  obtain ⟨hstoi, hread⟩ := decodeHexBytes_agree hbytes
  refine ⟨bytes, hbytes, hstoi, by omega, fun hplain ↦ ?_⟩
  rw [← hread, normalizeHex_of_hex hplain, hexToBytes_map_toLower]

/-- A request for the GPU. -/
def plainRequest : Request where
  backend := "cuda"
  saltHex := "0123456789ABCDEF".toList
  keyPrefix := "0x7A".toList
  gpuFirstBlocks := true

theorem plainRequest_valid : plainRequest.Valid :=
  (validateRequest_eq_nil_iff _).mp (by decide +kernel)

theorem Request.Valid.salt_read_plain :
    ∃ bytes, decodeHexBytes (normalizeHex plainRequest.saltHex) = some bytes ∧
      stoiHexToBytes (normalizeHex plainRequest.saltHex) = some bytes ∧ 8 ≤ bytes.length ∧
      (isHexString plainRequest.saltHex = true →
        hexToBytes plainRequest.saltHex = bytes.map BitVec.toNat) := plainRequest_valid.salt_read

end XNMiner.HashApi
