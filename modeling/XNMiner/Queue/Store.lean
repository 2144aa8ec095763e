import XNMiner.Queue.Codec
import XNMiner.Queue.Policy
import Mathlib.Data.Finset.Basic
import Mathlib.Data.List.Basic

/-!
# The block store

`BlockStore` (`queue/store.cpp`) keeps the bag of blocks that wait for the pool: a list in
RAM, a snapshot of it in `blocks.db`, and an append-only log `queue.jsonl`.  Every operation
of the class is one critical section of `mu_`, so each is one function on the store.

## Files

A file is what a later `load` can see of it.  `blocks.db` is missing (`none`), holds text that
does not parse (`some none`), or holds a document.  A line of `queue.jsonl` is a document, or
`none` where it is blank or does not parse; the reader skips both.  `rejected.jsonl` is an
audit log that is only written.

## Exceptions

A typed read of a JSON member throws when the type is another.  Functions that can throw say
so with a Boolean (`true`: went through) next to the state the throw leaves behind, because
`load` catches and goes on from exactly that state.
-/

namespace XNMiner

open Lib

/-- A row of the bag. -/
structure PendingBlock where
  id : Int := 0
  hit : BlockHit
  queueReason : String := ""
  rejectCount : Int := 0
  forwarded : Bool := false
deriving DecidableEq

/-- The three files of a store. -/
structure Files where
  db : Option (Option Json) := none
  jsonl : Option (List (Option Json)) := none
  rejected : List Json := []

/-- `BlockStore`: the fields of the object, and the files it writes. -/
structure BlockStore where
  pending : List PendingBlock := []
  hashIndex : Finset String := ∅
  nextId : Int := 1
  dirtyOps : Nat := 0
  files : Files := {}

/-- Dirty operations between two snapshots. -/
def kSaveEveryOps : Nat := 8

namespace BlockStore

/-! ## Writing -/

/-- The member list of one row in `blocks.db`. -/
def rowMembers (pb : PendingBlock) : List (String × Json) :=
  hitMembers pb.hit ++ [("id", .int pb.id), ("queue_reason", .str pb.queueReason),
    ("reject_count", .int pb.rejectCount), ("forwarded", .bool pb.forwarded)]

/-- The text of `blocks.db` for a bag. -/
def dbJson (nextId : Int) (pending : List PendingBlock) : Json :=
  .obj [("next_id", .int nextId), ("pending", .arr (pending.map fun pb ↦ .obj (rowMembers pb)))]

/-- `save_db_unlocked`: rewrite `blocks.db`; RAM and disk agree. -/
def saveDb (s : BlockStore) : BlockStore :=
  { s with
    dirtyOps := 0
    files := { s.files with db := some (some (dbJson s.nextId s.pending)) } }

/-- `mark_dirty_unlocked`. -/
def markDirty (s : BlockStore) : BlockStore := { s with dirtyOps := s.dirtyOps + 1 }

/-- `maybe_save_unlocked`: snapshot every eighth dirty operation. -/
def maybeSave (s : BlockStore) : BlockStore :=
  if kSaveEveryOps ≤ s.dirtyOps then s.saveDb else s

/-- The line `append_queue_jsonl` writes. -/
def queueRecord (now : String) (pb : PendingBlock) : Json :=
  .obj (hitMembers pb.hit ++ [("queued_at", .str now), ("reason", .str pb.queueReason),
    ("id", .int pb.id)])

def appendQueueJsonl (s : BlockStore) (now : String) (pb : PendingBlock) : BlockStore :=
  { s with files := { s.files with
      jsonl := some (s.files.jsonl.getD [] ++ [some (queueRecord now pb)]) } }

/-- `hash_index_.insert` for a digest that is not empty. -/
def indexHash (index : Finset String) (hashStr : String) : Finset String :=
  if hashStr = "" then index else insert hashStr index

/-- `enqueue`: append a row unless its digest is already in the bag.  The answer is the id of
the new row, or `0`. -/
def enqueue (s : BlockStore) (now : String) (hit : BlockHit) (reason : String) :
    Int × BlockStore :=
  if hit.hashStr ≠ "" ∧ hit.hashStr ∈ s.hashIndex then (0, s)
  else
    let pb : PendingBlock := { id := s.nextId, hit, queueReason := reason }
    let s₁ : BlockStore :=
      { s with nextId := s.nextId + 1, hashIndex := indexHash s.hashIndex hit.hashStr }
    let s₂ := s₁.appendQueueJsonl now pb
    (pb.id, ({ s₂ with pending := s₂.pending ++ [pb] } : BlockStore).markDirty.maybeSave)

/-- `log_rejection`: one audit record. -/
def logRejection (s : BlockStore) (now : String) (hit : BlockHit) (httpStatus : Int)
    (body source : String) : BlockStore :=
  { s with files := { s.files with
      rejected := s.files.rejected ++ [.obj (hitMembers hit ++ [("rejected_at", .str now),
        ("http_status", .int httpStatus), ("response_body", .str body),
        ("source", .str source), ("category", .str "resubmission")])] } }

/-- `record_rejection`: audit, then queue again. -/
def recordRejection (s : BlockStore) (now : String) (hit : BlockHit) (httpStatus : Int)
    (body source : String) : Bool × BlockStore :=
  (true, ((s.logRejection now hit httpStatus body source).enqueue now hit "resubmission").2)

/-! ## Removing and marking -/

/-- Drop the digests of removed rows from the index. -/
def unindex (index : Finset String) (gone : List PendingBlock) : Finset String :=
  index \ (gone.map (·.hit.hashStr)).toFinset

/-- Remove the rows with this id (one pass of the loop in `mark_submitted_many`). -/
def removeId (s : BlockStore) (id : Int) : BlockStore :=
  { s with
    pending := s.pending.filter fun pb ↦ decide (pb.id ≠ id)
    hashIndex := unindex s.hashIndex (s.pending.filter fun pb ↦
      decide (pb.id = id ∧ pb.hit.hashStr ≠ "")) }

/-- `mark_submitted_many`: remove rows by id, one snapshot. -/
def markSubmittedMany (s : BlockStore) (ids : List Int) : BlockStore :=
  if ids = [] then s else (ids.foldl removeId s).markDirty.saveDb

def markSubmitted (s : BlockStore) (id : Int) : BlockStore := s.markSubmittedMany [id]

/-- Change the first row with this id (the `for … break` loops). -/
def updateFirst (id : Int) (f : PendingBlock → PendingBlock) :
    List PendingBlock → List PendingBlock
  | [] => []
  | pb :: rest => if pb.id = id then f pb :: rest else pb :: updateFirst id f rest

def markPendingReason (s : BlockStore) (id : Int) (reason : String) : BlockStore :=
  ({ s with pending := updateFirst id (fun pb ↦ { pb with queueReason := reason }) s.pending }
    : BlockStore).markDirty.maybeSave

def markForwardedMany (s : BlockStore) (ids : List Int) : BlockStore :=
  if ids = [] then s
  else
    let forward := fun l id ↦ updateFirst id (fun pb ↦ { pb with forwarded := true }) l
    ({ s with pending := ids.foldl forward s.pending } : BlockStore).markDirty.saveDb

/-- `drop_by_hash`: remove rows by digest; the empty digest is never dropped.  The answer is
the number of rows removed. -/
def dropByHash (s : BlockStore) (hashes : List String) : Nat × BlockStore :=
  let drop := hashes.filter fun h ↦ decide (h ≠ "")
  if drop = [] then (0, s)
  else
    let gone := s.pending.filter fun pb ↦ decide (pb.hit.hashStr ∈ drop)
    let s' : BlockStore :=
      { s with
        pending := s.pending.filter fun pb ↦ decide (pb.hit.hashStr ∉ drop)
        hashIndex := unindex s.hashIndex gone }
    (gone.length, if gone = [] then s' else s'.saveDb)

/-- `flush`, and what the destructor does. -/
def flush (s : BlockStore) : BlockStore := if 0 < s.dirtyOps then s.saveDb else s

/-- The reason `defer_all_to_next_start` gives a row. -/
def deferReason (minute : Nat) (pb : PendingBlock) : String :=
  if pb.hit.blockType = "XUNI" ∧ inXuniSubmitWindow minute = false then outsideXuniWindowReason
  else shutdownPendingReason

def deferAllToNextStart (s : BlockStore) (minute : Nat) : BlockStore :=
  ({ s with pending := s.pending.map fun pb ↦ { pb with queueReason := deferReason minute pb } }
    : BlockStore).markDirty.saveDb

/-! ## Reading back -/

/-- The reads of one element of `root["pending"]`. -/
def parseRow (item : Json) (defaultId : Int) : Option PendingBlock := do
  let id ← item.value Json.toInt64 "id" defaultId
  let hit ← hitFromJson item
  let reason ← item.value Json.toStr "reason" ""
  let queueReason ← item.value Json.toStr "queue_reason" reason
  let rejectCount ← item.value Json.toInt32 "reject_count" 0
  let forwarded ← item.value Json.toBool "forwarded" false
  some { id, hit, queueReason, rejectCount, forwarded }

/-- Add a row that was read back. -/
def addRow (s : BlockStore) (pb : PendingBlock) : BlockStore :=
  { s with
    nextId := max s.nextId (pb.id + 1)
    hashIndex := indexHash s.hashIndex pb.hit.hashStr
    pending := s.pending ++ [pb] }

/-- The loop over `root["pending"]`.  The default id is `next_id_++`, an argument that is
evaluated for every element whether or not it has an id of its own. -/
def loadRows : List Json → BlockStore → BlockStore × Bool
  | [], s => (s, true)
  | item :: rest, s =>
      let s₁ : BlockStore := { s with nextId := s.nextId + 1 }
      match parseRow item s.nextId with
      | none => (s₁, false)
      | some pb => loadRows rest (s₁.addRow pb)

/-- The reads of one line of `queue.jsonl`, after the hit. -/
def parseRecord (rec : Json) (hit : BlockHit) (nextId : Int) : Option PendingBlock := do
  let id ← rec.value Json.toInt64 "id" nextId
  let reason ← rec.value Json.toStr "reason" "jsonl_recover"
  let queueReason ← rec.value Json.toStr "queue_reason" reason
  let rejectCount ← rec.value Json.toInt32 "reject_count" 0
  some { id, hit, queueReason, rejectCount }

/-- The row of a line has the hit of the line. -/
theorem parseRecord_hit {rec : Json} {hit : BlockHit} {nextId : Int} {pb : PendingBlock}
    (h : parseRecord rec hit nextId = some pb) : pb.hit = hit := by
  simp only [parseRecord, Option.bind_eq_bind, Option.bind_eq_some_iff] at h
  obtain ⟨_, -, _, -, _, -, _, -, hpb⟩ := h
  rw [← Option.some.inj hpb]

/-- The id a recovered row is given: its own unless that is taken or not positive. -/
def recoverId (s : BlockStore) (id : Int) : Int :=
  if id < 1 then s.nextId
  else if ∃ pb ∈ s.pending, pb.id = id then s.nextId
  else id

/-- The loop over the lines of `queue.jsonl`.  The first Boolean is `added`. -/
def recoverLines : List (Option Json) → BlockStore → Bool → BlockStore × Bool × Bool
  | [], s, added => (s, added, true)
  | none :: rest, s, added => recoverLines rest s added
  | some rec :: rest, s, added =>
      if rec.isObject = false then recoverLines rest s added
      else match hitFromJson rec with
        | none => (s, added, false)
        | some hit =>
            if hit.hashStr = "" ∨ hit.hashStr ∈ s.hashIndex then recoverLines rest s added
            else match parseRecord rec hit s.nextId with
              | none => (s, added, false)
              | some pb =>
                  recoverLines rest (s.addRow { pb with id := s.recoverId pb.id }) true

/-- `recover_jsonl_unlocked`. -/
def recoverJsonl (s : BlockStore) : BlockStore × Bool :=
  match s.files.jsonl with
  | none => (s, true)
  | some lines =>
      match recoverLines lines s false with
      | (s', _, false) => (s', false)
      | (s', added, true) => (if added then s'.saveDb else s', true)

/-- The part of `load` inside the `try` for a document that parsed: `true` means the snapshot
was read (`db_ok`). -/
def loadSnapshot (root : Json) (s : BlockStore) : BlockStore × Bool :=
  match root.value Json.toInt32 "next_id" 1 with
  | none => (s, false)
  | some n =>
      let s₁ : BlockStore := { s with nextId := n }
      match (root.find? "pending").bind Json.items? with
      | none => (s₁, false)
      | some items => loadRows items s₁

/-- `load`, that is, constructing a `BlockStore` on these files; `none` when an exception
leaves the constructor.  The log is read only when the snapshot is missing or unreadable. -/
def load (files : Files) : Option BlockStore :=
  let s : BlockStore := { files }
  match files.db with
  | none => match s.recoverJsonl with
      | (s', true) => some s'
      | (_, false) => none
  | some none =>
      -- inside the `try`: a throw is caught and the log is read once more
      match s.recoverJsonl with
      | (s', true) => some s'
      | (s', false) => match s'.recoverJsonl with
          | (s'', true) => some s''
          | (_, false) => none
  | some (some root) =>
      match loadSnapshot root s with
      | (s', true) => some s'
      | (s', false) => match s'.recoverJsonl with
          | (s'', true) => some s''
          | (_, false) => none

/-! ## Queries -/

/-- The cost a row counts for when its own is absent. -/
def rowCost (defaultM m : Int) (pb : PendingBlock) : Int :=
  pb.hit.memoryCost.getD (if 0 < defaultM then defaultM else m)

def pendingMatchingM (s : BlockStore) (m defaultM : Int) : Nat :=
  s.pending.countP fun pb ↦ decide (rowCost defaultM m pb = m)

def pendingCount (s : BlockStore) : Nat := s.pending.length

end BlockStore

end XNMiner
