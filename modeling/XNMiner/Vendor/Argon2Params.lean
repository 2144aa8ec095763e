import XNMiner.Lib.Argon2
import XNMiner.Mining.Phc
import XNMiner.Network.Difficulty
import XNMiner.Vendor.Blake2b

/-!
# The ends of an Argon2 computation

What `vendor/argon2params.cpp` computes on the host, and `vendor/kernelrunner.cu` on the device: the
hash of any length, the initial hash, the first two blocks of each lane before the memory is filled,
and the tag after it.  Both agree with the standard, so they agree with each other.

The salt is a hex string.  Three functions of the program read such a string, in three ways, and
they agree wherever the strictest of them succeeds.
-/

namespace XNMiner

open Lib.LittleEndian Lib.Blake2b

/-! ## The hash of any length -/

def store32 (v : Nat) : List (BitVec 8) :=
  (List.range 4).map fun i ↦ (BitVec.ofNat 32 v >>> (8 * i)).setWidth 8

/-- The loop of `digestLong` with what follows it.  `Blake2b::update` counts in `w` bits. -/
def digestLongLoop (w : Nat) (outBuffer : List (BitVec 8)) (toProduce : Nat) : List (BitVec 8) :=
  if 64 < toProduce then
    let outBuffer := ((Blake2b.init 64).updateBits w outBuffer).final 64
    outBuffer.take 32 ++ digestLongLoop w outBuffer (toProduce - 32)
  else ((Blake2b.init toProduce).updateBits w outBuffer).final toProduce
termination_by toProduce

def digestLongBits (w outLen : Nat) (input : List (BitVec 8)) : List (BitVec 8) :=
  if outLen ≤ 64 then
    (((Blake2b.init outLen).updateBits w (store32 outLen)).updateBits w input).final outLen
  else
    let outBuffer :=
      (((Blake2b.init 64).updateBits w (store32 outLen)).updateBits w input).final 64
    outBuffer.take 32 ++ digestLongLoop w outBuffer (outLen - 32)

def digestLong : Nat → List (BitVec 8) → List (BitVec 8) := digestLongBits 64

def deviceDigestLong : Nat → List (BitVec 8) → List (BitVec 8) := digestLongBits 32

theorem store32_eq (v : Nat) : store32 v = Lib.Argon2.le32 v := by
  rw [store32, Lib.Argon2.le32, bytes]
  refine List.map_congr_left fun i _ ↦ BitVec.eq_of_getLsbD_eq fun k hk ↦ ?_
  simp [BitVec.getLsbD_setWidth, BitVec.getLsbD_extractLsb']

@[simp] theorem length_store32 (v : Nat) : (store32 v).length = 4 := by simp [store32]

theorem digestLongLoop_eq {w : Nat} (hw : 8 ≤ w) {outBuffer : List (BitVec 8)}
    (hlen : outBuffer.length = 64) (toProduce : Nat) :
    digestLongLoop w outBuffer toProduce = Lib.Argon2.hPrimeTail outBuffer toProduce := by
  have hbound : 64 + 128 < 2 ^ w := lt_of_lt_of_le (by decide) (Nat.pow_le_pow_right (by decide) hw)
  have hhash {nn : Nat} (hnn : nn ≤ 64) {buffer : List (BitVec 8)} (hbuffer : buffer.length = 64) :
      ((Blake2b.init nn).updateBits w buffer).final nn = blake2b nn buffer := by
    have hlen : ∀ piece ∈ [buffer], piece.length + 128 < 2 ^ w := by simp [hbuffer, hbound]
    simpa using Blake2b.final_pieces hnn hlen
  induction toProduce using Nat.strong_induction_on generalizing outBuffer with
  | _ toProduce ih =>
    rw [digestLongLoop, Lib.Argon2.hPrimeTail]
    split
    · next hmore =>
      dsimp only
      rw [hhash le_rfl hlen, ih (toProduce - 32) (by omega) (length_blake2b le_rfl _)]
    · next hlast => exact hhash (by omega) hlen

/-- **The hash of any length is H′.** -/
theorem digestLongBits_eq {w : Nat} (hw : 8 ≤ w) {input : List (BitVec 8)}
    (hinput : input.length + 128 < 2 ^ w) (outLen : Nat) :
    digestLongBits w outLen input = Lib.Argon2.hPrime outLen input := by
  have hbound : 4 + 128 < 2 ^ w := lt_of_lt_of_le (by decide) (Nat.pow_le_pow_right (by decide) hw)
  have hhash {nn : Nat} (hnn : nn ≤ 64) :
      (((Blake2b.init nn).updateBits w (store32 outLen)).updateBits w input).final nn =
        blake2b nn (Lib.Argon2.le32 outLen ++ input) := by
    have hlen : ∀ piece ∈ [store32 outLen, input], piece.length + 128 < 2 ^ w := by
      simp [hinput, hbound]
    rw [← store32_eq]
    simpa using Blake2b.final_pieces hnn hlen
  rw [digestLongBits, Lib.Argon2.hPrime]
  split
  · next hshort => exact hhash hshort
  · next hlong =>
    dsimp only
    rw [hhash le_rfl, digestLongLoop_eq hw (length_blake2b le_rfl _)]

theorem digestLongBits_long : digestLongBits 32 1024 [1, 2, 3] = Lib.Argon2.hPrime 1024 [1, 2, 3] :=
  digestLongBits_eq (by decide) (by decide) 1024

/-! ## The initial hash on the device -/

def deviceInitialHash (password salt : List (BitVec 8))
    (outputLen memoryCost timeCost version : Nat) (type : Lib.Argon2.Variant) (lanes : Nat) :
    List (BitVec 8) :=
  let header := [lanes, outputLen, memoryCost, timeCost, version, type.number,
    password.length].flatMap store32
  let blake := deviceBlake2bUpdate (deviceBlake2bInit 64) header
  let blake := deviceBlake2bUpdate blake password
  let blake := deviceBlake2bUpdate blake (store32 salt.length)
  let blake := deviceBlake2bUpdate blake salt
  let blake := deviceBlake2bUpdate blake (store32 0)
  let blake := deviceBlake2bUpdate blake (store32 0)
  deviceBlake2bFinal blake 64

/-- **The device's initial hash is H₀.** -/
theorem deviceInitialHash_eq {password salt : List (BitVec 8)} (p : Lib.Argon2.Params)
    (hsecret : p.secret = []) (hdata : p.data = []) (hpassword : password.length + 128 < 2 ^ 32)
    (hsalt : salt.length + 128 < 2 ^ 32) :
    deviceInitialHash password salt p.tagLength p.memory p.passes 0x13 p.variant p.lanes =
      p.h0 password salt := by
  let header := [p.lanes, p.tagLength, p.memory, p.passes, 0x13, p.variant.number,
    password.length].flatMap store32
  let pieces := [header, password, store32 salt.length, salt, store32 0, store32 0]
  have hlen : ∀ piece ∈ pieces, piece.length + 128 < 2 ^ 32 := by
    simp [pieces, header]
    exact ⟨hpassword, hsalt⟩
  have hfold : deviceInitialHash password salt p.tagLength p.memory p.passes 0x13 p.variant
      p.lanes = (pieces.foldl (Blake2b.updateBits 32) (Blake2b.init 64)).final 64 := by
    rw [deviceInitialHash, deviceBlake2bFinal_eq, deviceBlake2bUpdate, deviceBlake2bInit]
    simp only [pieces, header, List.foldl_cons, List.foldl_nil]
  rw [hfold, Blake2b.final_pieces le_rfl hlen, Lib.Argon2.Params.h0]
  simp [pieces, header, store32_eq, hsecret, hdata]

/-- The 72 bytes from which a first block is made. -/
theorem digestLongBits_firstBlock {w : Nat} (hw : 8 ≤ w) (p : Lib.Argon2.Params)
    (message nonce : List (BitVec 8)) (i l : Nat) :
    digestLongBits w 1024 (p.h0 message nonce ++ store32 i ++ store32 l) =
      Lib.Argon2.bytesOfBlock (p.firstBlocks message nonce l i) := by
  have hinput : (p.h0 message nonce ++ store32 i ++ store32 l).length + 128 < 2 ^ w := by
    simp only [List.length_append, Lib.Argon2.Params.length_h0, length_store32]
    exact lt_of_lt_of_le (by decide) (Nat.pow_le_pow_right (by decide) hw)
  rw [digestLongBits_eq hw hinput, Lib.Argon2.Params.firstBlocks,
    Lib.Argon2.bytesOfBlock_blockOfBytes (Lib.Argon2.length_hPrime _ _), store32_eq, store32_eq]

/-! ## Reading hex -/

/-- `std::stoi(text, nullptr, 16)` for a text of at most two characters, which leaves no room for a
`0x` or a number that does not fit.  `none` is an exception. -/
def stoi16 (text : List Char) : Option Int :=
  let start := readSign (text.dropWhile isSpace)
  let digits := start.2.takeWhile isXDigit
  if digits = [] then none
  else some (start.1 * digits.foldl (fun n c ↦ 16 * n + ((nibble c).getD 0 : Nat)) 0)

/-- `hex_to_bytes` of `argon2params.cpp`. -/
def stoiHexToBytes : List Char → Option (List (BitVec 8))
  | [] => some []
  | [a] => (stoi16 [a]).map fun n ↦ [BitVec.ofInt 8 n]
  | a :: b :: rest => do
      let n ← stoi16 [a, b]
      let bytes ← stoiHexToBytes rest
      return BitVec.ofInt 8 n :: bytes

/-- `decodeHexBytes`.  `none` is an exception; after the last digit of an odd text comes a NUL. -/
def decodeHexBytes : List Char → Option (List (BitVec 8))
  | [] => some []
  | [_] => none
  | a :: b :: rest => do
      let high ← nibble a
      let low ← nibble b
      let bytes ← decodeHexBytes rest
      return (BitVec.ofNat 8 high <<< 4 ||| BitVec.ofNat 8 low) :: bytes

theorem nibble_eq_some {c : Char} {n : Nat} (h : nibble c = some n) :
    n < 16 ∧ isXDigit c = true ∧ 48 ≤ c.toNat := by
  have hle (a b : Char) : a ≤ b ↔ a.toNat ≤ b.toNat := Iff.rfl
  have hvalue : n < 16 ∧ ((48 ≤ c.toNat ∧ c.toNat ≤ 57) ∨ (97 ≤ c.toNat ∧ c.toNat ≤ 102) ∨
      (65 ≤ c.toNat ∧ c.toNat ≤ 70)) := by
    rw [nibble] at h
    split at h
    · next hdigit =>
      change 48 ≤ c.toNat ∧ c.toNat ≤ 57 at hdigit
      have hn : c.toNat - 48 = n := Option.some.inj h
      omega
    · split at h
      · next hlower =>
        change 97 ≤ c.toNat ∧ c.toNat ≤ 102 at hlower
        have hn : c.toNat - 97 + 10 = n := Option.some.inj h
        omega
      · split at h
        · next hupper =>
          change 65 ≤ c.toNat ∧ c.toNat ≤ 70 at hupper
          have hn : c.toNat - 65 + 10 = n := Option.some.inj h
          omega
        · cases h
  refine ⟨hvalue.1, ?_, by omega⟩
  simp only [isXDigit, Char.isDigit, Bool.or_eq_true, Bool.and_eq_true, decide_eq_true_eq]
  change ((48 ≤ c.toNat ∧ c.toNat ≤ 57) ∨ 97 ≤ c.toNat ∧ c.toNat ≤ 102) ∨
    65 ≤ c.toNat ∧ c.toNat ≤ 70
  omega

/-- A pair of digits is read as its byte. -/
theorem stoi16_pair {a b : Char} {high low : Nat} (ha : nibble a = some high)
    (hb : nibble b = some low) : stoi16 [a, b] = some (16 * high + low : Nat) := by
  obtain ⟨-, hxa, hda⟩ := nibble_eq_some ha
  obtain ⟨-, hxb, -⟩ := nibble_eq_some hb
  have hne (d : Char) (hd : d.toNat < 48) : a ≠ d := by
    rintro rfl
    omega
  have hspace : isSpace a = false := by
    simp only [isSpace, Bool.or_eq_false_iff, decide_eq_false_iff_not]
    refine ⟨⟨⟨⟨⟨hne ' ' ?_, hne '\t' ?_⟩, hne '\n' ?_⟩, hne '\r' ?_⟩, ?_⟩, ?_⟩
    all_goals first | decide | omega
  have hsign : readSign [a, b] = (1, [a, b]) := by
    unfold readSign
    split
    · next heq => exact absurd (List.cons.inj heq).1 (hne '-' (by decide))
    · next heq => exact absurd (List.cons.inj heq).1 (hne '+' (by decide))
    · rfl
  rw [stoi16, List.dropWhile_cons_of_neg (by simp [hspace]), hsign]
  simp [hxa, hxb, ha, hb]

theorem decodeHexBytes_cons {a b : Char} {rest : List Char} {bs : List (BitVec 8)}
    (h : decodeHexBytes (a :: b :: rest) = some bs) : ∃ high low bytes, nibble a = some high ∧
      nibble b = some low ∧ decodeHexBytes rest = some bytes ∧
      bs = BitVec.ofNat 8 (16 * high + low) :: bytes := by
  rw [decodeHexBytes] at h
  cases ha : nibble a with
  | none => simp [ha] at h
  | some high =>
    cases hb : nibble b with
    | none => simp [ha, hb] at h
    | some low =>
      cases hrest : decodeHexBytes rest with
      | none => simp [ha, hb, hrest] at h
      | some bytes =>
        refine ⟨high, low, bytes, rfl, rfl, rfl, ?_⟩
        simp only [ha, hb, hrest, Option.bind_eq_bind, Option.bind_some, Option.pure_def,
          Option.some.injEq] at h
        rw [← h]
        have hbyte : ∀ high low : Fin 16, BitVec.ofNat 8 high <<< 4 ||| BitVec.ofNat 8 low =
            BitVec.ofNat 8 (16 * high + low) := by decide
        exact congrArg (· :: bytes)
          (hbyte ⟨high, (nibble_eq_some ha).1⟩ ⟨low, (nibble_eq_some hb).1⟩)

/-- **The readers of hex agree.** -/
theorem decodeHexBytes_agree {text : List Char} {bs : List (BitVec 8)}
    (h : decodeHexBytes text = some bs) :
    stoiHexToBytes text = some bs ∧ hexToBytes text = bs.map BitVec.toNat := by
  induction text using decodeHexBytes.induct generalizing bs with
  | case1 =>
    cases h
    exact ⟨rfl, rfl⟩
  | case2 a => cases h
  | case3 a b rest ih =>
    obtain ⟨high, low, bytes, ha, hb, hrest, rfl⟩ := decodeHexBytes_cons h
    obtain ⟨hstoi, hbytes⟩ := ih hrest
    have hhigh := (nibble_eq_some ha).1
    have hlow := (nibble_eq_some hb).1
    refine ⟨?_, ?_⟩
    · rw [stoiHexToBytes, stoi16_pair ha hb, hstoi]
      exact congrArg (fun byte ↦ some (byte :: bytes)) (BitVec.ofInt_natCast 8 _)
    · simp [hexToBytes, ha, hb, hbytes]
      omega

theorem decodeHexBytes_agree_mixed : stoiHexToBytes ['0', 'a', 'F', 'f'] = some [0x0a, 0xff] ∧
    hexToBytes ['0', 'a', 'F', 'f'] = [10, 255] := decodeHexBytes_agree (by decide)

/-! ## The parameters -/

/-- `Argon2Params`.  A pointer with its length is a list. -/
structure Argon2Params where
  type : Lib.Argon2.Variant
  version : Nat
  salt : List Char
  secret : List (BitVec 8)
  ad : List (BitVec 8)
  outLen : Nat
  tCost : Nat
  mCost : Nat
  lanes : Nat
  segmentBlocks : Nat

namespace Argon2Params

/-- The constructor.  The arguments are of `std::size_t`, the members have 32 bits. -/
def new (type : Lib.Argon2.Variant) (version outLen : Nat) (salt : List Char)
    (secret ad : List (BitVec 8)) (tCost mCost lanes : Nat) : Argon2Params :=
  let segments := lanes * 4
  { type, version, salt, secret, ad,
    outLen := outLen % 2 ^ 32, tCost := tCost % 2 ^ 32, mCost := mCost % 2 ^ 32,
    lanes := lanes % 2 ^ 32, segmentBlocks := max mCost (2 * segments) / segments % 2 ^ 32 }

/-- `getLaneBlocks`. -/
def laneBlocks (p : Argon2Params) : Nat := p.segmentBlocks * 4 % 2 ^ 32

/-- The first seven numbers of the initial hash. -/
def header (p : Argon2Params) (pwdLen : Nat) : List (List (BitVec 8)) :=
  [store32 p.lanes, store32 p.outLen, store32 p.mCost, store32 p.tCost, store32 p.version,
    store32 p.type.number, store32 pwdLen]

/-- `initialHash`.  Without a secret and data the numbers go to the hash in fewer pieces.  `none` is
an exception from a salt that is not hex. -/
def initialHash (p : Argon2Params) (pwd : List (BitVec 8)) : Option (List (BitVec 8)) :=
  (stoiHexToBytes p.salt).map fun hexSalt ↦
    let pieces :=
      if p.secret.length = 0 ∧ p.ad.length = 0 then
        [(p.header pwd.length).flatten, pwd, store32 hexSalt.length, hexSalt,
          store32 p.secret.length ++ store32 p.ad.length]
      else
        p.header pwd.length ++ [pwd, store32 hexSalt.length, hexSalt, store32 p.secret.length,
          p.secret, store32 p.ad.length, p.ad]
    (pieces.foldl Blake2b.update (Blake2b.init 64)).final 64

/-- `fillFirstBlocks`: the bytes it writes, the first block of every lane before the second. -/
def fillFirstBlocks (p : Argon2Params) (pwd : List (BitVec 8)) : Option (List (BitVec 8)) :=
  (p.initialHash pwd).map fun initHash ↦
    [0, 1].flatMap fun i ↦ (List.range p.lanes).flatMap fun l ↦
      digestLong 1024 (initHash ++ store32 i ++ store32 l)

/-- `finalize`, of the last block of every lane. -/
def finalize (p : Argon2Params) (memory : Nat → Lib.Argon2.Block) : List (BitVec 8) :=
  if p.lanes = 1 then digestLong p.outLen (Lib.Argon2.bytesOfBlock (memory 0))
  else
    let xored := (List.range' 1 (p.lanes - 1)).foldl
      (fun x l ↦ Vector.zipWith (· ^^^ ·) x (memory l)) (memory 0)
    digestLong p.outLen (Lib.Argon2.bytesOfBlock xored)

/-- The parameters of the standard. -/
def params (p : Argon2Params) : Lib.Argon2.Params :=
  { lanes := p.lanes, tagLength := p.outLen, memory := p.mCost, passes := p.tCost,
    variant := p.type, secret := p.secret, data := p.ad }

theorem length_flatten_header (p : Argon2Params) (pwdLen : Nat) :
    (p.header pwdLen).flatten.length = 28 := by
  simp [header]

theorem flatten_header {p : Argon2Params} (hversion : p.version = 0x13) (pwdLen : Nat) :
    (p.header pwdLen).flatten = Lib.Argon2.le32 p.lanes ++ Lib.Argon2.le32 p.outLen ++
      Lib.Argon2.le32 p.mCost ++ Lib.Argon2.le32 p.tCost ++ Lib.Argon2.le32 0x13 ++
      Lib.Argon2.le32 p.type.number ++ Lib.Argon2.le32 pwdLen := by
  simp [header, hversion, store32_eq]

/-- **The initial hash is H₀**, by either of its ways. -/
theorem initialHash_eq {p : Argon2Params} {pwd salt : List (BitVec 8)}
    (hversion : p.version = 0x13) (hsalt : stoiHexToBytes p.salt = some salt)
    (hlen : ∀ bs ∈ [pwd, salt, p.secret, p.ad], bs.length + 128 < 2 ^ 64) :
    p.initialHash pwd = some (p.params.h0 pwd salt) := by
  have hheader : ∀ piece ∈ p.header pwd.length, piece.length + 128 < 2 ^ 64 := by simp [header]
  simp only [List.forall_mem_cons, List.not_mem_nil, false_implies, implies_true,
    and_true] at hlen
  obtain ⟨hpwd, hsaltLen, hsecret, had⟩ := hlen
  rw [initialHash, hsalt, Option.map_some, Option.some.injEq]
  dsimp only
  split
  · next hnone =>
    refine (Blake2b.final_pieces (w := 64) le_rfl ?_).trans (congrArg (blake2b 64) ?_)
    · simp [length_flatten_header, -List.length_flatten]
      exact ⟨hpwd, hsaltLen⟩
    · simp [flatten_header hversion, store32_eq, params,
        List.eq_nil_of_length_eq_zero hnone.1, List.eq_nil_of_length_eq_zero hnone.2]
  · refine (Blake2b.final_pieces (w := 64) le_rfl ?_).trans (congrArg (blake2b 64) ?_)
    · rw [List.forall_mem_append]
      refine ⟨hheader, ?_⟩
      simp
      exact ⟨hpwd, hsaltLen, hsecret, had⟩
    · rw [List.flatten_append, flatten_header hversion]
      simp [store32_eq, params]

/-- **The host writes the first blocks of the standard.** -/
theorem fillFirstBlocks_eq {p : Argon2Params} {pwd salt : List (BitVec 8)}
    (hversion : p.version = 0x13) (hsalt : stoiHexToBytes p.salt = some salt)
    (hlen : ∀ bs ∈ [pwd, salt, p.secret, p.ad], bs.length + 128 < 2 ^ 64) :
    p.fillFirstBlocks pwd = some ([0, 1].flatMap fun i ↦ (List.range p.lanes).flatMap fun l ↦
      Lib.Argon2.bytesOfBlock (p.params.firstBlocks pwd salt l i)) := by
  rw [fillFirstBlocks, initialHash_eq hversion hsalt hlen, Option.map_some, digestLong]
  simp only [digestLongBits_firstBlock (by decide : 8 ≤ 64)]

theorem fillFirstBlocks_salted :
    (new .id 0x13 64 ['0', '1'] [] [] 1 8 2).fillFirstBlocks [5, 6] =
      some ([0, 1].flatMap fun i ↦ (List.range 2).flatMap fun l ↦ Lib.Argon2.bytesOfBlock
        ((new .id 0x13 64 ['0', '1'] [] [] 1 8 2).params.firstBlocks [5, 6] [1] l i)) :=
  fillFirstBlocks_eq rfl (by decide) (by decide)

/-- **The host's tag is that of the standard**, of a memory that is filled. -/
theorem finalize_eq (p : Argon2Params) (pwd salt : List (BitVec 8)) :
    p.finalize (fun l ↦ p.params.fill (p.params.firstBlocks pwd salt) l (p.params.laneLength - 1)) =
      p.params.argon2 pwd salt := by
  have hdigest (x : Lib.Argon2.Block) : digestLong p.outLen (Lib.Argon2.bytesOfBlock x) =
      Lib.Argon2.hPrime p.outLen (Lib.Argon2.bytesOfBlock x) :=
    digestLongBits_eq (by decide) (by rw [Lib.Argon2.length_bytesOfBlock]; decide) p.outLen
  rw [finalize, Lib.Argon2.Params.argon2]
  split
  · next hone => rw [hdigest]; simp [params, hone]
  · exact hdigest _

end Argon2Params

end XNMiner
