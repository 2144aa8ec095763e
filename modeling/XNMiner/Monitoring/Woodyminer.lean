import XNMiner.Util.Sha256

/-!
# The machine id of the leaderboard

`monitoring/woodyminer.cpp` names a rig by a piece of the SHA-256 of its MAC address and the index
of its device.  The piece is taken by `sha256_hex_prefix`, which has a body for each system: the
one for Windows asks BCrypt for the digest and cuts the text to `n` characters, the one for Linux
hands `n` to `sha256_hex`, which counts bytes.  So the Linux build writes twice as many characters,
and no rig has one id on both (`deriveMachineId_linux_ne`).
-/

namespace XNMiner

open Lib.Sha256

/-- Whether `_WIN32` is defined. -/
inductive Build where
  | windows
  | linux

/-- What BCrypt answers for some bytes: a digest, or nothing if the provider does not open or
makes no hash. -/
abbrev BCrypt := List (BitVec 8) → Option (List (BitVec 8))

def BCrypt.ComputesSha256 (bcrypt : BCrypt) : Prop :=
  ∀ data, bcrypt data = some (digestBytes data)

/-- The BCrypt that always answers, and with the digest. -/
def BCrypt.sha256 : BCrypt := fun data ↦ some (digestBytes data)

theorem BCrypt.computesSha256_sha256 : BCrypt.sha256.ComputesSha256 := fun _ ↦ rfl

/-! ## `sha256_hex_prefix` -/

/-- The loop that writes the digest, while `oss.str().size() < n * 2`. -/
def writeDigest (n : Nat) (oss : List Char) : List (BitVec 8) → List Char
  | [] => oss
  | b :: digest =>
      if oss.length < n * 2 % 2 ^ 64 then writeDigest n (oss ++ hexByte b) digest else oss

/-- `sha256_hex_prefix`.  On Windows the size of the data passes through a `ULONG`. -/
def sha256HexPrefix (bcrypt : BCrypt) : Build → List (BitVec 8) → Nat → String
  | .windows, data, n =>
      match bcrypt (data.take (data.length % 2 ^ 32)) with
      | none => "unknown"
      | some digest => String.ofList ((writeDigest n [] digest).take n)
  | .linux, data, n => sha256Hex data n

/-- The loop stops at `n` bytes. -/
theorem writeDigest_eq {n : Nat} (hn : n < 2 ^ 63) (front digest : List (BitVec 8)) :
    writeDigest n (front.flatMap hexByte) digest =
      (front ++ digest.take (n - front.length)).flatMap hexByte := by
  induction digest generalizing front with
  | nil => rw [List.take_nil, List.append_nil, writeDigest]
  | cons b digest ih =>
      have hsize : n * 2 % 2 ^ 64 = 2 * n := by omega
      rw [writeDigest, length_flatMap_hexByte, hsize]
      by_cases hmore : front.length < n
      · have hfront : front.flatMap hexByte ++ hexByte b = (front ++ [b]).flatMap hexByte := by
          rw [List.flatMap_append, List.flatMap_singleton]
        have hleft : n - front.length = (n - (front ++ [b]).length) + 1 := by
          rw [List.length_append, List.length_singleton]
          omega
        rw [if_pos (by omega), hfront, ih, hleft, List.take_succ_cons, List.append_assoc,
          List.singleton_append]
      · have hleft : n - front.length = 0 := by omega
        rw [if_neg (by omega), hleft, List.take_zero, List.append_nil]

/-- **On Windows the prefix is of `n` characters.** -/
theorem sha256HexPrefix_windows {bcrypt : BCrypt} (hsha : bcrypt.ComputesSha256)
    {data : List (BitVec 8)} (hdata : data.length < 2 ^ 32) {n : Nat} (hn : n < 2 ^ 63) :
    (sha256HexPrefix bcrypt .windows data n).toList =
      ((digestBytes data).flatMap hexByte).take n := by
  have hwhole : data.take (data.length % 2 ^ 32) = data := by
    rw [Nat.mod_eq_of_lt hdata, List.take_length]
  have hwrite : writeDigest n [] (digestBytes data) =
      ((digestBytes data).flatMap hexByte).take (2 * n) := by
    rw [take_flatMap length_hexByte]
    exact writeDigest_eq hn [] _
  rw [sha256HexPrefix, hwhole, hsha]
  dsimp only
  rw [String.toList_ofList, hwrite, List.take_take, min_eq_left (by omega)]

/-- **On Linux it is of `n` bytes**, and the whole digest for none or for more than there are. -/
theorem sha256HexPrefix_linux (bcrypt : BCrypt) (data : List (BitVec 8)) (n : Nat) :
    (sha256HexPrefix bcrypt .linux data n).toList =
      ((digestBytes data).flatMap hexByte).take
        (2 * if n = 0 ∨ 32 < n then 32 else n) := by
  rw [take_flatMap length_hexByte]
  exact sha256Hex_toList data n

/-- **The two bodies agree just where the prefix is the whole text.** -/
theorem sha256HexPrefix_agree_iff {bcrypt : BCrypt} (hsha : bcrypt.ComputesSha256)
    {data : List (BitVec 8)} (hdata : data.length < 2 ^ 32) {n : Nat} (hn : n < 2 ^ 63) :
    sha256HexPrefix bcrypt .linux data n = sha256HexPrefix bcrypt .windows data n ↔ 64 ≤ n := by
  have hlen : ((digestBytes data).flatMap hexByte).length = 64 := by
    rw [length_flatMap_hexByte, length_digestBytes]
  rw [← String.toList_inj, sha256HexPrefix_linux, sha256HexPrefix_windows hsha hdata hn]
  refine ⟨fun h ↦ ?_, fun h ↦ ?_⟩
  · have hlens := congrArg List.length h
    rw [List.length_take, List.length_take, hlen] at hlens
    split_ifs at hlens <;> omega
  · rw [if_pos (by omega), List.take_of_length_le (by omega), List.take_of_length_le (by omega)]

/-! ## `derive_machine_id` -/

/-- The bytes of an ASCII text. -/
def ascii (s : String) : List (BitVec 8) := s.toList.map fun c ↦ BitVec.ofNat 8 c.toNat

/-- `mac + std::to_string(device_index) + ","`. -/
def material (mac : List (BitVec 8)) (deviceIndex : Int) : List (BitVec 8) :=
  mac ++ ascii (toString deviceIndex) ++ ascii ","

/-- `derive_machine_id`, after `mac_string`. -/
def deriveMachineId (bcrypt : BCrypt) (build : Build) (mac : List (BitVec 8))
    (deviceIndex : Int) : String :=
  sha256HexPrefix bcrypt build (material mac deviceIndex) 16

/-- The id that the comment asks for: `sha256(mac + f"{device_index},")[:16]`. -/
def pythonMachineId (mac : List (BitVec 8)) (deviceIndex : Int) : String :=
  String.ofList ((hex (digestBytes (material mac deviceIndex))).toList.take 16)

theorem pythonMachineId_toList (mac : List (BitVec 8)) (deviceIndex : Int) :
    (pythonMachineId mac deviceIndex).toList =
      ((digestBytes (material mac deviceIndex)).flatMap hexByte).take 16 := by
  rw [pythonMachineId, String.toList_ofList, hex, String.toList_ofList, funext hexByte_eq]

/-- **The Windows build makes the id of the Python miner.** -/
theorem deriveMachineId_windows {bcrypt : BCrypt} (hsha : bcrypt.ComputesSha256)
    {mac : List (BitVec 8)} {deviceIndex : Int}
    (hsize : (material mac deviceIndex).length < 2 ^ 32) :
    deriveMachineId bcrypt .windows mac deviceIndex = pythonMachineId mac deviceIndex := by
  rw [← String.toList_inj, pythonMachineId_toList]
  exact sha256HexPrefix_windows hsha hsize (by decide)

/-- The Linux build makes one of which it is the first half. -/
theorem deriveMachineId_linux (bcrypt : BCrypt) (mac : List (BitVec 8)) (deviceIndex : Int) :
    pythonMachineId mac deviceIndex =
      String.ofList ((deriveMachineId bcrypt .linux mac deviceIndex).toList.take 16) := by
  rw [← String.toList_inj, String.toList_ofList, pythonMachineId_toList, deriveMachineId,
    sha256HexPrefix_linux, List.take_take]
  rfl

theorem length_linux (bcrypt : BCrypt) (mac : List (BitVec 8)) (deviceIndex : Int) :
    (deriveMachineId bcrypt .linux mac deviceIndex).length = 32 := by
  rw [← String.length_toList, deriveMachineId, sha256HexPrefix_linux, List.length_take,
    length_flatMap_hexByte, length_digestBytes]
  rfl

/-- Whatever BCrypt answers. -/
theorem length_windows_le (bcrypt : BCrypt) (mac : List (BitVec 8)) (deviceIndex : Int) :
    (deriveMachineId bcrypt .windows mac deviceIndex).length ≤ 16 := by
  rw [deriveMachineId, sha256HexPrefix]
  cases bcrypt _ with
  | none => decide
  | some digest =>
      rw [← String.length_toList, String.toList_ofList]
      exact List.length_take_le 16 _

/-- **No rig has one id on both systems**, and on Linux none has that of the Python miner. -/
theorem deriveMachineId_linux_ne (bcrypt : BCrypt) (mac : List (BitVec 8)) (deviceIndex : Int) :
    deriveMachineId bcrypt .linux mac deviceIndex ≠
        deriveMachineId bcrypt .windows mac deviceIndex ∧
      deriveMachineId bcrypt .linux mac deviceIndex ≠ pythonMachineId mac deviceIndex := by
  have hlinux := length_linux bcrypt mac deviceIndex
  refine ⟨fun h ↦ ?_, fun h ↦ ?_⟩
  · have hwindows := length_windows_le bcrypt mac deviceIndex
    rw [← h] at hwindows
    omega
  · have hpython : (pythonMachineId mac deviceIndex).length ≤ 16 := by
      rw [← String.length_toList, pythonMachineId_toList]
      exact List.length_take_le 16 _
    rw [← h] at hpython
    omega

/-- What `mac_string` returns if it finds no address. -/
def zeroMac : List (BitVec 8) := ascii "00:00:00:00:00:00"

/-- The rig whose MAC address is not found, with its first device. -/
theorem machineId_zeroMac :
    deriveMachineId BCrypt.sha256 .linux zeroMac 0 = "f616b3daa4fe8bd33718bdaeb1091d58" ∧
      deriveMachineId BCrypt.sha256 .windows zeroMac 0 = "f616b3daa4fe8bd3" ∧
      pythonMachineId zeroMac 0 = "f616b3daa4fe8bd3" ∧
      ¬∀ bcrypt : BCrypt, bcrypt.ComputesSha256 → ∀ mac deviceIndex,
        deriveMachineId bcrypt .windows mac deviceIndex = pythonMachineId mac deviceIndex ∧
          deriveMachineId bcrypt .linux mac deviceIndex = pythonMachineId mac deviceIndex := by
  have hlinux : deriveMachineId BCrypt.sha256 .linux zeroMac 0 =
      "f616b3daa4fe8bd33718bdaeb1091d58" := by decide +kernel
  have hpython : pythonMachineId zeroMac 0 = "f616b3daa4fe8bd3" := by
    rw [deriveMachineId_linux BCrypt.sha256, hlinux]
    decide
  have hsize : (material zeroMac 0).length < 2 ^ 32 := by decide
  have hwindows := (deriveMachineId_windows BCrypt.computesSha256_sha256 hsize).trans hpython
  refine ⟨hlinux, hwindows, hpython, fun h ↦ ?_⟩
  obtain ⟨-, hsame⟩ := h BCrypt.sha256 BCrypt.computesSha256_sha256 zeroMac 0
  rw [hlinux, hpython] at hsame
  exact absurd hsame (by decide)

end XNMiner
