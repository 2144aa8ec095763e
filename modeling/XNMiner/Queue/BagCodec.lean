import XNMiner.Queue.Codec

/-!
# The bag as a message

`hits_to_bag_json` packs a list of hits and the name of the worker that found them into one
document; `hits_from_bag_json` unpacks it.  The decoder takes more than the encoder writes: a
`source` in place of a `worker`, the `pending` rows of a snapshot in place of `hits`, or a single
hit.  What is no object is skipped, and so is a hit that has neither key nor digest.

A body is seen through the document it parses to, `none` where it is discarded.  The decoder does
not catch what its typed reads throw; a throw is `none` here.
-/

namespace XNMiner

open Lib

/-! ## The two functions -/

/-- A hit that a bag keeps: it has a key or a digest. -/
def BlockHit.kept (hit : BlockHit) : Bool := decide (¬(hit.hashStr = "" ∧ hit.key = ""))

@[simp] theorem BlockHit.reread_kept (hit : BlockHit) : hit.reread.kept = hit.kept := rfl

def hitsToBagJson (hits : List BlockHit) (worker : String) : Json :=
  .obj [("worker", .str worker), ("hits", .arr (hits.map hitToJson))]

/-- The lambda `take` of `hits_from_bag_json`, over the items of an array. -/
def takeItems : List Json → Option (List BlockHit)
  | [] => some []
  | item :: rest =>
      if item.isObject = false then takeItems rest
      else do
        let hit ← hitFromJson item
        let out ← takeItems rest
        some (if hit.kept then hit :: out else out)

/-- The name of the worker, when the caller asks for it: the one it had stays where the body
names none. -/
def bagWorker (root : Json) : Option String → Option (Option String)
  | none => some none
  | some old =>
      if root.contains "worker" then (root.value Json.toStr "worker" "").map some
      else if root.contains "source" then (root.value Json.toStr "source" "").map some
      else some (some old)

/-- The array `key` of a body, where it has one. -/
def bagArray (root : Json) (key : String) : Option (List Json) :=
  (root.find? key).bind Json.items?

/-- The items `hits_from_bag_json` looks at. -/
def bagItems (root : Json) : List Json :=
  match bagArray root "hits" with
  | some items => items
  | none => match bagArray root "pending" with
    | some items => items
    | none => if root.contains "hash_str" || root.contains "key" then [root] else []

/-- `hits_from_bag_json`: the hits and the worker that the caller's variables hold after it.
`worker` is the variable before the call, `none` for a null pointer. -/
def hitsFromBagJson (body : Option Json) (worker : Option String) :
    Option (List BlockHit × Option String) :=
  match body with
  | none => some ([], worker)
  | some root => do
      let worker' ← bagWorker root worker
      let out ← takeItems (bagItems root)
      some (out, worker')

/-! ## The round trip -/

/-- The number fields of a hit are in the range of their C++ types: `attempts` is an `int64_t`,
`memory_cost` an `int`. -/
structure BlockHit.Typed (hit : BlockHit) : Prop where
  attempts : -2 ^ 63 ≤ hit.attempts ∧ hit.attempts < 2 ^ 63
  memoryCost : ∀ m ∈ hit.memoryCost, -2 ^ 31 ≤ m ∧ m < 2 ^ 31

/-- A cast to `int` leaves a number alone exactly when it is one. -/
theorem wrap_eq_self_iff {n : Int} : wrap 32 n = n ↔ -2 ^ 31 ≤ n ∧ n < 2 ^ 31 := by
  constructor
  · intro h
    have hm : 0 < 2 ^ 32 := by decide
    have hlo := Int.le_bmod (x := n) hm
    have hhi := Int.bmod_lt (x := n) hm
    unfold wrap at h
    rw [h] at hlo hhi
    omega
  · rintro ⟨hlo, hhi⟩
    exact wrap_of_fits (by decide) hlo hhi

/-- A hit comes back from its JSON form as it was exactly when its attempts fit the `int` they
are read through. -/
theorem BlockHit.reread_eq_self_iff {hit : BlockHit} (h : hit.Typed) :
    hit.reread = hit ↔ -2 ^ 31 ≤ hit.attempts ∧ hit.attempts < 2 ^ 31 := by
  constructor
  · intro he
    exact wrap_eq_self_iff.mp (congrArg BlockHit.attempts he)
  · intro ha
    exact BlockHit.reread_of_fitsInt ⟨ha, h.memoryCost⟩

/-- Decoding what `hit_to_json` wrote. -/
theorem hitFromJson_hitToJson (hit : BlockHit) : hitFromJson (hitToJson hit) = some hit.reread := by
  have h : hitFromJson (.obj (hitMembers hit ++ [])) = _ := hitFromJson_append hit (by simp)
  rwa [List.append_nil] at h

/-- The items of an encoded bag come back reread, without the hits that have no name. -/
theorem takeItems_map (hits : List BlockHit) :
    takeItems (hits.map hitToJson) = some ((hits.filter BlockHit.kept).map BlockHit.reread) := by
  induction hits with
  | nil => rfl
  | cons hit rest ih =>
      have hobj : (hitToJson hit).isObject = true := rfl
      rw [List.map_cons, takeItems, hobj, hitFromJson_hitToJson, ih]
      cases hk : hit.kept <;> simp [hk]

/-- What `hits_from_bag_json` makes of an encoded bag. -/
theorem hitsFromBagJson_hitsToBagJson (hits : List BlockHit) (name : String)
    (worker : Option String) :
    hitsFromBagJson (some (hitsToBagJson hits name)) worker =
      some ((hits.filter BlockHit.kept).map BlockHit.reread, worker.map fun _ ↦ name) := by
  have hi : bagItems (hitsToBagJson hits name) = hits.map hitToJson := rfl
  have hw : bagWorker (hitsToBagJson hits name) worker = some (worker.map fun _ ↦ name) := by
    cases worker <;> rfl
  simp [hitsFromBagJson, hi, hw, takeItems_map]

/-- A map leaves a list alone exactly when it leaves each entry alone. -/
theorem map_eq_self_iff {α : Type*} {f : α → α} {l : List α} :
    l.map f = l ↔ ∀ x ∈ l, f x = x := by
  induction l with
  | nil => simp
  | cons x rest ih => simp [ih]

/-- **The bag codec is a round trip exactly for attempts that fit an `int`.**  The worker, the
choice and the order of the hits and every other field survive for all bags. -/
theorem bag_roundTrip_iff (hits : List BlockHit) (h : ∀ hit ∈ hits, hit.Typed) (name : String)
    (worker : Option String) :
    hitsFromBagJson (some (hitsToBagJson hits name)) worker =
        some (hits.filter BlockHit.kept, worker.map fun _ ↦ name) ↔
      ∀ hit ∈ hits, hit.kept = true → -2 ^ 31 ≤ hit.attempts ∧ hit.attempts < 2 ^ 31 := by
  rw [hitsFromBagJson_hitsToBagJson]
  simp only [Option.some.injEq, Prod.mk.injEq, and_true]
  rw [map_eq_self_iff]
  constructor
  · intro hall hit hmem hk
    exact (BlockHit.reread_eq_self_iff (h hit hmem)).mp
      (hall hit (List.mem_filter.mpr ⟨hmem, hk⟩))
  · intro hall hit hmem
    obtain ⟨hin, hk⟩ := List.mem_filter.mp hmem
    exact (BlockHit.reread_eq_self_iff (h hit hin)).mpr (hall hit hin hk)

/-- A hit of the third billion of attempts: its count does not fit an `int`. -/
def longHit : BlockHit := { key := "k", hashStr := "h", attempts := 2 ^ 31 }

theorem longHit_typed : longHit.Typed := ⟨by decide, by simp [longHit]⟩

/-- A bag with one hit that has counted `2 ^ 31` attempts comes back with another count. -/
theorem not_bag_roundTrip_longHit :
    ¬∀ (hits : List BlockHit) (name : String) (worker : Option String),
      (∀ hit ∈ hits, hit.Typed) → hitsFromBagJson (some (hitsToBagJson hits name)) worker =
        some (hits.filter BlockHit.kept, worker.map fun _ ↦ name) := by
  intro hall
  have h := hall [longHit] "rig" none (by simpa using longHit_typed)
  rw [hitsFromBagJson_hitsToBagJson] at h
  exact absurd h (by decide)

/-- The round trip of a bag of two, one of them without a name. -/
theorem bag_roundTrip_iff_pair :
    hitsFromBagJson (some (hitsToBagJson [{ hashStr := "h", attempts := 7 }, {}] "rig")) (some "") =
      some ([{ hashStr := "h", attempts := 7 }], some "rig") :=
  (bag_roundTrip_iff [{ hashStr := "h", attempts := 7 }, {}]
    (by
      intro hit hmem
      rcases List.mem_pair.mp hmem with rfl | rfl
      · exact ⟨by decide, by simp⟩
      · exact ⟨by decide, by simp⟩) "rig" (some "")).mpr (by decide)

end XNMiner
