import XNMiner.Common
import XNMiner.Lib.Json

/-!
# The JSON form of a hit and of a queue row

`hit_to_json` and `hit_from_json` of `queue/store.cpp`.  The two are written separately in
the source: the encoder leaves out empty optional members, the decoder reads each member
with a default whose C++ type decides the conversion.  `attempts` is an `int64_t` that is
read back through the `int` default `0`, so a reread hit has its attempts cast to 32 bits
(`BlockHit.reread`); every other field survives.
-/

namespace XNMiner

open Lib

/-- The members `hit_to_json` writes. -/
def hitMembers (hit : BlockHit) : List (String × Json) :=
  [("key", .str hit.key), ("hash_str", .str hit.hashStr), ("block_type", .str hit.blockType),
   ("strategy", .str hit.strategy), ("attempts", .int hit.attempts), ("hps", .real hit.hps),
   ("found_at", .str hit.foundAt)] ++
  (match hit.memoryCost with
    | some m => [("memory_cost", .int m)]
    | none => []) ++
  (if hit.payoutAccount = "" then [] else [("payout_account", .str hit.payoutAccount)]) ++
  (if hit.saltHex = "" then [] else [("salt_hex", .str hit.saltHex)]) ++
  (if hit.feeBlock then [("fee_block", .bool true)] else [])

def hitToJson (hit : BlockHit) : Json := .obj (hitMembers hit)

/-- The optional `memory_cost` member: absent and `null` are no cost, anything else must
convert to `int`. -/
def memoryCostFromJson (j : Json) : Option (Option Int) :=
  match j.find? "memory_cost" with
  | none => some none
  | some .null => some none
  | some v => v.toInt32.map some

/-- `hit_from_json`; `none` is a thrown type error. -/
def hitFromJson (j : Json) : Option BlockHit := do
  let key ← j.value Json.toStr "key" ""
  let hashStr ← j.value Json.toStr "hash_str" ""
  let blockType ← j.value Json.toStr "block_type" "XNM"
  let strategy ← j.value Json.toStr "strategy" "random"
  let attempts ← j.value Json.toInt32 "attempts" 0
  let hps ← j.value Json.toReal "hps" 0
  let foundAt ← j.value Json.toStr "found_at" ""
  let memoryCost ← memoryCostFromJson j
  let payoutAccount ← j.value Json.toStr "payout_account" ""
  let saltHex ← j.value Json.toStr "salt_hex" ""
  let feeBlock ← j.value Json.toBool "fee_block" false
  some { key, hashStr, blockType, attempts, strategy, hps, foundAt, memoryCost,
         payoutAccount, saltHex, feeBlock }

/-- A hit as it comes back from its JSON form. -/
def BlockHit.reread (hit : BlockHit) : BlockHit :=
  { hit with attempts := wrap 32 hit.attempts, memoryCost := hit.memoryCost.map (wrap 32) }

@[simp] theorem BlockHit.reread_hashStr (hit : BlockHit) : hit.reread.hashStr = hit.hashStr := rfl

@[simp] theorem BlockHit.reread_key (hit : BlockHit) : hit.reread.key = hit.key := rfl

@[simp] theorem BlockHit.reread_blockType (hit : BlockHit) :
    hit.reread.blockType = hit.blockType := rfl

/-- Rereading twice changes nothing more. -/
@[simp] theorem BlockHit.reread_reread (hit : BlockHit) : hit.reread.reread = hit.reread := by
  simp [BlockHit.reread, Function.comp_def]

/-- The number fields of a hit fit the C++ `int` they are read back through. -/
def BlockHit.FitsInt (hit : BlockHit) : Prop :=
  (-2 ^ 31 ≤ hit.attempts ∧ hit.attempts < 2 ^ 31) ∧
    ∀ m ∈ hit.memoryCost, -2 ^ 31 ≤ m ∧ m < 2 ^ 31

/-- A hit whose numbers fit comes back unchanged. -/
theorem BlockHit.reread_of_fitsInt {hit : BlockHit} (h : hit.FitsInt) : hit.reread = hit := by
  obtain ⟨⟨hlo, hhi⟩, hm⟩ := h
  have ha : wrap 32 hit.attempts = hit.attempts := wrap_of_fits (by decide) hlo hhi
  have hc : hit.memoryCost.map (wrap 32) = hit.memoryCost := by
    cases hmc : hit.memoryCost with
    | none => rfl
    | some m => exact congrArg some (wrap_of_fits (by decide) (hm m hmc).1 (hm m hmc).2)
  rw [BlockHit.reread, ha, hc]

/-- **Codec round trip.**  Decoding what `hit_to_json` wrote, with any further members after
it whose keys the decoder does not read, gives the reread hit. -/
theorem hitFromJson_append (hit : BlockHit) {extra : List (String × Json)}
    (hx : ∀ k ∈ ["memory_cost", "payout_account", "salt_hex", "fee_block"],
      extra.lookup k = none) :
    hitFromJson (.obj (hitMembers hit ++ extra)) = some hit.reread := by
  obtain ⟨key, hashStr, blockType, attempts, strategy, hps, foundAt, memoryCost,
    payoutAccount, saltHex, feeBlock⟩ := hit
  simp only [List.mem_cons, List.not_mem_nil, or_false, forall_eq_or_imp, forall_eq] at hx
  obtain ⟨h₁, h₂, h₃, h₄⟩ := hx
  cases memoryCost <;> cases feeBlock <;>
    by_cases hp : payoutAccount = "" <;> by_cases hs : saltHex = "" <;>
    simp [hitMembers, hitFromJson, memoryCostFromJson, Json.value, Json.find?, List.lookup_cons,
      Json.toStr, Json.toInt32, Json.toReal, Json.toBool, BlockHit.reread, h₁, h₂, h₃, h₄, hp, hs]

end XNMiner
