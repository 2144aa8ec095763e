import XNMiner.Lib.Chunks
import XNMiner.Lib.Lts
import XNMiner.Vendor.Keygen

/-!
# The pool that makes the keys

`KeygenPool` (`vendor/hashapi/KeygenPool.cpp`) has a queue and some workers.  A lane that wants keys
cuts its arena into chunks, queues a job for each, and waits until a counter says that all are done.
Several lanes may wait at once.  A worker takes a job, writes its keys one after the other, and
counts it as done.

However the lanes and workers interleave, a lane whose wait is over has its arena filled, each chunk
by one filling (`arena_filled`), with keys as they were asked for (`arena_valid`), and nobody is at
a job of a lane that does not wait (`Sound.called`).  As long as a lane waits, a worker has
something to do (`worker_progress`).

How a waiting lane is woken, and how long what it waits on lives, is not modelled.
-/

namespace XNMiner.HashApi.KeygenPool

open Lib

variable {L W : Type}

/-- `Job`: a chunk of the arena of a lane. -/
@[ext] structure Job (L : Type) where
  lane : L
  chunk : Chunk

/-- What a worker is at: the keys that it writes, and how many it has written. -/
inductive Worker (L : Type)
  | idle
  | busy (job : Job L) (keys : List (List Char)) (done : Nat)

/-- A lane in `fill`.  `remaining` is its counter. -/
structure Fill where
  keyPrefix : List Char
  count : Nat
  arena : Nat → List Char
  remaining : Int

structure State (L W : Type) where
  fills : L → Option Fill
  queue : List (Job L)
  workers : W → Worker L

/-- How many workers a filling is cut for. -/
def use (threads count : Nat) : Nat := max 1 (min (max 1 threads) count)

/-- What `remaining` is when the jobs are in the queue: one less for each worker to whom no key is
left. -/
def counted (threads count : Nat) : Int :=
  use threads count - ((List.range (use threads count)).countP fun t ↦
    count ≤ t * chunkSize count (use threads count))

inductive Action (L W : Type)
  | fill (lane : L) (keyPrefix : List Char) (count : Nat) (arena : Nat → List Char)
  | take (worker : W) (high low : BitVec 32)
  | write (worker : W)
  | finish (worker : W)
  | done (lane : L)

/-- One step of a lane or a worker. -/
inductive Step [DecidableEq L] [DecidableEq W] (threads : Nat) :
    State L W → Action L W → State L W → Prop
  /-- A lane queues its jobs.  With nothing to fill it returns at once. -/
  | fill {s : State L W} {lane : L} {keyPrefix : List Char} {count : Nat}
      {arena : Nat → List Char} : s.fills lane = none → 0 < count →
      Step threads s (.fill lane keyPrefix count arena)
        { s with
          fills := Function.update s.fills lane
            (some { keyPrefix, count, arena, remaining := counted threads count })
          queue := s.queue ++ (chunks count (use threads count)).map (Job.mk lane) }
  /-- A worker takes the next job, and draws its keys. -/
  | take {s : State L W} {worker : W} {high low : BitVec 32} {job : Job L} {queue : List (Job L)}
      {f : Fill} : s.workers worker = .idle → s.queue = job :: queue → s.fills job.lane = some f →
      Step threads s (.take worker high low)
        { s with
          queue
          workers := Function.update s.workers worker (.busy job
            ((RandomHexKeyGenerator.ofPrefix f.keyPrefix).fillMany high low job.chunk.size) 0) }
  /-- It writes the next key. -/
  | write {s : State L W} {worker : W} {job : Job L} {keys : List (List Char)} {written : Nat}
      {key : List Char} {f : Fill} : s.workers worker = .busy job keys written →
      keys[written]? = some key → s.fills job.lane = some f →
      Step threads s (.write worker)
        { s with
          fills := Function.update s.fills job.lane
            (some { f with arena := Function.update f.arena (job.chunk.first + written) key })
          workers := Function.update s.workers worker (.busy job keys (written + 1)) }
  /-- It has written all of them, and counts the job as done. -/
  | finish {s : State L W} {worker : W} {job : Job L} {keys : List (List Char)} {f : Fill} :
      s.workers worker = .busy job keys keys.length → s.fills job.lane = some f →
      Step threads s (.finish worker)
        { s with
          fills := Function.update s.fills job.lane (some { f with remaining := f.remaining - 1 })
          workers := Function.update s.workers worker .idle }
  /-- The wait of a lane is over. -/
  | done {s : State L W} {lane : L} {f : Fill} : s.fills lane = some f → f.remaining ≤ 0 →
      Step threads s (.done lane) { s with fills := Function.update s.fills lane none }

/-- Nobody waits, and nobody works. -/
def State.idle : State L W := { fills := fun _ ↦ none, queue := [], workers := fun _ ↦ .idle }

/-! ## What is always so -/

/-- The job is in the queue, or a worker is at it. -/
def State.Outstanding (s : State L W) (job : Job L) : Prop :=
  job ∈ s.queue ∨ ∃ w keys written, s.workers w = .busy job keys written

/-- The keys are in the arena from some place on. -/
def Written (arena : Nat → List Char) (first : Nat) (keys : List (List Char)) : Prop :=
  ∀ j key, keys[j]? = some key → arena (first + j) = key

/-- The keys are those of one filling of a chunk. -/
def Drawn (keyPrefix : List Char) (size : Nat) (keys : List (List Char)) : Prop :=
  ∃ high low, keys = (RandomHexKeyGenerator.ofPrefix keyPrefix).fillMany high low size

theorem Drawn.length {keyPrefix : List Char} {size : Nat} {keys : List (List Char)}
    (h : Drawn keyPrefix size keys) : keys.length = size := by
  obtain ⟨high, low, rfl⟩ := h
  exact RandomHexKeyGenerator.length_fillMany ..

/-- A lane that waits for the chunks `out`. -/
structure Waits (threads : Nat) (s : State L W) (lane : L) (f : Fill) (out : List Chunk) :
    Prop where
  nodup : out.Nodup
  remaining : f.remaining = out.length
  subset : out ⊆ chunks f.count (use threads f.count)
  mem : ∀ c, c ∈ out ↔ s.Outstanding ⟨lane, c⟩
  written : ∀ c ∈ chunks f.count (use threads f.count), c ∉ out →
    ∃ keys, Drawn f.keyPrefix c.size keys ∧ Written f.arena c.first keys

structure Sound (threads : Nat) (s : State L W) : Prop where
  waits : ∀ lane f, s.fills lane = some f → ∃ out, Waits threads s lane f out
  /-- A lane waits for each job. -/
  called : ∀ job, s.Outstanding job → ∃ f, s.fills job.lane = some f
  queue : s.queue.Nodup
  apart : ∀ w job keys written, s.workers w = .busy job keys written → job ∉ s.queue
  alone : ∀ w w' job keys keys' written written', s.workers w = .busy job keys written →
    s.workers w' = .busy job keys' written' → w = w'
  busy : ∀ w job keys written f, s.workers w = .busy job keys written →
    s.fills job.lane = some f → written ≤ keys.length ∧ Drawn f.keyPrefix job.chunk.size keys ∧
      Written f.arena job.chunk.first (keys.take written)

theorem use_pos (threads count : Nat) : 0 < use threads count := Nat.lt_of_lt_of_le Nat.one_pos
  (Nat.le_max_left _ _)

/-- Two chunks of a filling do not meet. -/
theorem ne_of_mem_chunks {threads count i j : Nat} {c d : Chunk}
    (hc : c ∈ chunks count (use threads count)) (hd : d ∈ chunks count (use threads count))
    (hne : c ≠ d) (hi : i < c.size) (hj : j < d.size) : c.first + i ≠ d.first + j := by
  have : Std.Symm fun c d : Chunk ↦ c.indices.Disjoint d.indices :=
    ⟨fun _ _ h ↦ List.Disjoint.symm h⟩
  have hdisjoint : c.indices.Disjoint d.indices :=
    (pairwise_chunks (use_pos threads count)).forall hc hd hne
  intro heq
  refine hdisjoint (a := c.first + i) (Chunk.mem_indices.mpr ?_) (Chunk.mem_indices.mpr ?_)
  · omega
  · omega

theorem counted_eq (threads count : Nat) :
    counted threads count = (chunks count (use threads count)).length := by
  have hlength : (chunks count (use threads count)).length =
      (List.range (use threads count)).countP fun t ↦
        !decide (count ≤ t * chunkSize count (use threads count)) := by
    rw [chunks, List.length_filterMap_eq_countP]
    refine List.countP_congr fun t _ ↦ ?_
    dsimp only
    split <;> simp [*]
  have hall := List.length_eq_countP_add_countP (l := List.range (use threads count)) fun t ↦
    decide (count ≤ t * chunkSize count (use threads count))
  rw [List.length_range] at hall
  rw [counted, hlength]
  simp only [Bool.not_eq_true, Bool.decide_eq_false] at hall
  omega

theorem Written.update {arena : Nat → List Char} {first i : Nat} {keys : List (List Char)}
    {key : List Char} (h : Written arena first keys)
    (hne : ∀ j < keys.length, first + j ≠ i) :
    Written (Function.update arena i key) first keys := by
  intro j k hk
  have hlt := (List.getElem?_eq_some_iff.mp hk).1
  rw [Function.update_of_ne (hne j hlt), h j k hk]

theorem Waits.congr {threads : Nat} {s t : State L W} {lane : L} {f : Fill} {out : List Chunk}
    (h : Waits threads s lane f out)
    (hsame : ∀ c, s.Outstanding ⟨lane, c⟩ ↔ t.Outstanding ⟨lane, c⟩) :
    Waits threads t lane f out :=
  ⟨h.nodup, h.remaining, h.subset, fun c ↦ (h.mem c).trans (hsame c), h.written⟩

/-! ## Step by step -/

/-- What an update holds is new there, and old elsewhere. -/
theorem of_update {α β : Type} [DecidableEq α] {g : α → β} {a b : α} {x y : β}
    (h : Function.update g a x b = y) : b = a ∧ x = y ∨ b ≠ a ∧ g b = y := by
  by_cases hb : b = a
  · rw [hb, Function.update_self] at h
    exact .inl ⟨hb, h⟩
  · rw [Function.update_of_ne hb] at h
    exact .inr ⟨hb, h⟩

/-- What is held elsewhere is held after an update, and something is held there. -/
theorem exists_update {α β : Type} [DecidableEq α] {g : α → Option β} {a b : α} {x : β}
    (h : b ≠ a → ∃ y, g b = some y) : ∃ y, Function.update g a (some x) b = some y := by
  by_cases hb : b = a
  · rw [hb, Function.update_self]
    exact ⟨x, rfl⟩
  · rw [Function.update_of_ne hb]
    exact h hb

section Steps

variable {threads : Nat} {s : State L W} {worker : W} {lane : L}
  {job : Job L} {keys : List (List Char)} {written : Nat} {f : Fill}

theorem Sound.fill [DecidableEq L] (h : Sound threads s) (hnone : s.fills lane = none)
    (keyPrefix : List Char) (count : Nat) (arena : Nat → List Char) :
    Sound threads
      { s with
        fills := Function.update s.fills lane
          (some { keyPrefix, count, arena, remaining := counted threads count })
        queue := s.queue ++ (chunks count (use threads count)).map (Job.mk lane) } := by
  have hfree (c : Chunk) : ¬s.Outstanding ⟨lane, c⟩ := fun hout ↦ by
    obtain ⟨f, hf⟩ := h.called _ hout
    rw [hnone] at hf
    cases hf
  have hjobs {job : Job L} : job ∈ (chunks count (use threads count)).map (Job.mk lane) ↔
      job.lane = lane ∧ job.chunk ∈ chunks count (use threads count) := by
    rw [List.mem_map]
    constructor
    · rintro ⟨c, hc, rfl⟩
      exact ⟨rfl, hc⟩
    · rintro ⟨rfl, hc⟩
      exact ⟨job.chunk, hc, rfl⟩
  have hnodup : (chunks count (use threads count)).Nodup :=
    (pairwise_chunks (use_pos threads count)).imp_of_mem fun {c d} hc _ hdisjoint heq ↦ by
      have hsize := size_pos_of_mem_chunks hc
      exact hdisjoint (a := c.first) (Chunk.mem_indices.mpr (by omega))
        (heq ▸ Chunk.mem_indices.mpr (by omega))
  refine ⟨fun lane' f hf ↦ ?_, fun job hjob ↦ ?_, ?_, fun w job keys written hw hmem ↦ ?_, h.alone,
    fun w job keys written f hw hf ↦ ?_⟩
  · rcases of_update hf with ⟨hlane, hnew⟩ | ⟨hlane, hold⟩
    · obtain rfl := Option.some.inj hnew
      refine ⟨chunks count (use threads count), hnodup, counted_eq threads count,
        List.Subset.refl _, fun c ↦ ?_, fun c hc hnot ↦ absurd hc hnot⟩
      constructor
      · exact fun hc ↦ .inl (List.mem_append_right _ (hjobs.mpr ⟨hlane, hc⟩))
      · rintro (hqueue | ⟨w, keys, written, hw⟩)
        · rcases List.mem_append.mp hqueue with hold | hnew
          · exact absurd (.inl (hlane ▸ hold)) (hfree c)
          · exact (hjobs.mp hnew).2
        · exact absurd (.inr ⟨w, keys, written, hlane ▸ hw⟩) (hfree c)
    · obtain ⟨out, hout⟩ := h.waits lane' f hold
      refine ⟨out, hout.congr fun c ↦ or_congr ?_ Iff.rfl⟩
      rw [List.mem_append, hjobs]
      exact (or_iff_left fun hnew ↦ hlane hnew.1).symm
  · refine exists_update fun hlane ↦ h.called job (hjob.imp_left fun hmem ↦ ?_)
    exact (List.mem_append.mp hmem).resolve_right fun hnew ↦ hlane (hjobs.mp hnew).1
  · refine List.nodup_append'.mpr ⟨h.queue, hnodup.map fun c d heq ↦ (Job.mk.inj heq).2,
      fun job hold hnew ↦ ?_⟩
    exact hfree job.chunk (.inl ((hjobs.mp hnew).1 ▸ hold))
  · rcases List.mem_append.mp hmem with hold | hnew
    · exact h.apart w job keys written hw hold
    · exact hfree job.chunk (.inr ⟨w, keys, written, (hjobs.mp hnew).1 ▸ hw⟩)
  · have hlane : job.lane ≠ lane := fun heq ↦
      hfree job.chunk (.inr ⟨w, keys, written, heq ▸ hw⟩)
    exact h.busy w job keys written f hw ((Function.update_of_ne hlane ..).symm.trans hf)

theorem Sound.take [DecidableEq W] (h : Sound threads s) {queue : List (Job L)}
    (hidle : s.workers worker = .idle) (hqueue : s.queue = job :: queue)
    (hf : s.fills job.lane = some f) (high low : BitVec 32) :
    Sound threads
      { s with
        queue
        workers := Function.update s.workers worker (.busy job
          ((RandomHexKeyGenerator.ofPrefix f.keyPrefix).fillMany high low job.chunk.size) 0) } := by
  have hhead : job ∈ s.queue := hqueue ▸ List.mem_cons_self
  have hnodup := h.queue
  rw [hqueue, List.nodup_cons] at hnodup
  have hsame (j : Job L) : s.Outstanding j ↔ State.Outstanding { s with
      queue
      workers := Function.update s.workers worker (.busy job
        ((RandomHexKeyGenerator.ofPrefix f.keyPrefix).fillMany high low job.chunk.size) 0) } j := by
    constructor
    · rintro (hmem | ⟨w, keys, written, hw⟩)
      · rcases List.mem_cons.mp (hqueue ▸ hmem) with rfl | htail
        · exact .inr ⟨worker, _, _, Function.update_self ..⟩
        · exact .inl htail
      · refine .inr ⟨w, keys, written, (Function.update_of_ne ?_ ..).trans hw⟩
        rintro rfl
        rw [hidle] at hw
        cases hw
    · rintro (hmem | ⟨w, keys, written, hw⟩)
      · exact .inl (hqueue ▸ List.mem_cons_of_mem _ hmem)
      · rcases of_update hw with ⟨-, hnew⟩ | ⟨-, hold⟩
        · cases hnew
          exact .inl hhead
        · exact .inr ⟨w, keys, written, hold⟩
  refine ⟨fun lane' f' hf' ↦ ?_, fun j hj ↦ h.called j ((hsame j).mpr hj), hnodup.2,
    fun w j keys written hw hmem ↦ ?_, fun w w' j keys keys' written written' hw hw' ↦ ?_,
    fun w j keys written f' hw hf' ↦ ?_⟩
  · obtain ⟨out, hout⟩ := h.waits lane' f' hf'
    exact ⟨out, hout.congr fun c ↦ hsame _⟩
  · rcases of_update hw with ⟨-, hnew⟩ | ⟨-, hold⟩
    · cases hnew
      exact hnodup.1 hmem
    · exact h.apart w j keys written hold (hqueue ▸ List.mem_cons_of_mem _ hmem)
  · rcases of_update hw with ⟨rfl, hnew⟩ | ⟨-, hold⟩ <;>
      rcases of_update hw' with ⟨rfl, hnew'⟩ | ⟨-, hold'⟩
    · rfl
    · cases hnew
      exact absurd hhead (h.apart w' _ keys' written' hold')
    · cases hnew'
      exact absurd hhead (h.apart w _ keys written hold)
    · exact h.alone w w' j keys keys' written written' hold hold'
  · rcases of_update hw with ⟨-, hnew⟩ | ⟨-, hold⟩
    · cases hnew
      obtain rfl := Option.some.inj (hf.symm.trans hf')
      refine ⟨Nat.zero_le _, ⟨high, low, rfl⟩, fun j key hj ↦ ?_⟩
      rw [List.take_zero] at hj
      cases hj
    · exact h.busy w j keys written f' hold hf'

/-- A job that a worker is at is in its lane's chunks. -/
theorem Sound.chunk (h : Sound threads s) (hw : s.workers worker = .busy job keys written)
    (hf : s.fills job.lane = some f) : job.chunk ∈ chunks f.count (use threads f.count) := by
  obtain ⟨out, hout⟩ := h.waits job.lane f hf
  exact hout.subset ((hout.mem job.chunk).mpr (.inr ⟨worker, keys, written, hw⟩))

theorem Sound.write [DecidableEq L] [DecidableEq W] (h : Sound threads s) {key : List Char}
    (hw : s.workers worker = .busy job keys written) (hkey : keys[written]? = some key)
    (hf : s.fills job.lane = some f) :
    Sound threads
      { s with
        fills := Function.update s.fills job.lane
          (some { f with arena := Function.update f.arena (job.chunk.first + written) key })
        workers := Function.update s.workers worker (.busy job keys (written + 1)) } := by
  have hchunk := h.chunk hw hf
  obtain ⟨-, hdrawn, hbefore⟩ := h.busy worker job keys written f hw hf
  have hlt : written < job.chunk.size := hdrawn.length ▸ (List.getElem?_eq_some_iff.mp hkey).1
  have hsame (j : Job L) : s.Outstanding j ↔ State.Outstanding { s with
      fills := Function.update s.fills job.lane
        (some { f with arena := Function.update f.arena (job.chunk.first + written) key })
      workers := Function.update s.workers worker (.busy job keys (written + 1)) } j := by
    refine or_congr Iff.rfl ?_
    constructor
    · rintro ⟨w, keys', written', hw'⟩
      by_cases heq : w = worker
      · rw [heq, hw] at hw'
        cases hw'
        exact ⟨worker, _, _, Function.update_self ..⟩
      · exact ⟨w, keys', written', (Function.update_of_ne heq ..).trans hw'⟩
    · rintro ⟨w, keys', written', hw'⟩
      rcases of_update hw' with ⟨-, hnew⟩ | ⟨-, hold⟩
      · cases hnew
        exact ⟨worker, keys, written, hw⟩
      · exact ⟨w, keys', written', hold⟩
  refine ⟨fun lane' f' hf' ↦ ?_, fun j hj ↦ ?_, h.queue, fun w j keys' written' hw' ↦ ?_,
    fun w w' j keys₁ keys₂ written₁ written₂ hw₁ hw₂ ↦ ?_, fun w j keys' written' f' hw' hf' ↦ ?_⟩
  · rcases of_update hf' with ⟨rfl, hnew⟩ | ⟨-, hold⟩
    · obtain rfl := Option.some.inj hnew
      obtain ⟨out, hout⟩ := h.waits job.lane f hf
      refine ⟨out, hout.nodup, hout.remaining, hout.subset, fun c ↦ (hout.mem c).trans (hsame _),
        fun c hc hnot ↦ ?_⟩
      obtain ⟨keys', hdrawn', hwritten⟩ := hout.written c hc hnot
      refine ⟨keys', hdrawn', hwritten.update fun j hj ↦ ?_⟩
      refine ne_of_mem_chunks hc hchunk ?_ (hdrawn'.length ▸ hj) hlt
      rintro rfl
      exact hnot ((hout.mem job.chunk).mpr (.inr ⟨worker, keys, written, hw⟩))
    · obtain ⟨out, hout⟩ := h.waits lane' f' hold
      exact ⟨out, hout.congr fun c ↦ hsame _⟩
  · obtain ⟨f', hf'⟩ := h.called j ((hsame j).mpr hj)
    exact exists_update fun _ ↦ ⟨f', hf'⟩
  · rcases of_update hw' with ⟨-, hnew⟩ | ⟨-, hold⟩
    · cases hnew
      exact h.apart worker job keys written hw
    · exact h.apart w j keys' written' hold
  · rcases of_update hw₁ with ⟨rfl, hnew₁⟩ | ⟨-, hold₁⟩ <;>
      rcases of_update hw₂ with ⟨rfl, hnew₂⟩ | ⟨-, hold₂⟩
    · rfl
    · cases hnew₁
      exact h.alone w w' job keys keys₂ written written₂ hw hold₂
    · cases hnew₂
      exact h.alone w w' job keys₁ keys written₁ written hold₁ hw
    · exact h.alone w w' j keys₁ keys₂ written₁ written₂ hold₁ hold₂
  · rcases of_update hw' with ⟨-, hnew⟩ | ⟨hne, hold⟩
    · cases hnew
      obtain ⟨-, hnew⟩ | ⟨hne, -⟩ := of_update hf'
      swap
      · exact absurd rfl hne
      obtain rfl := Option.some.inj hnew
      refine ⟨(List.getElem?_eq_some_iff.mp hkey).1, hdrawn, fun i k hk ↦ ?_⟩
      rw [List.getElem?_take] at hk
      split at hk
      · next hi =>
        by_cases heq : i = written
        · subst heq
          rw [hkey] at hk
          cases hk
          exact Function.update_self ..
        · have hi' : i < written := by omega
          refine (Function.update_of_ne (by omega) ..).trans (hbefore i k ?_)
          rw [List.getElem?_take, if_pos hi', hk]
      · cases hk
    · rcases of_update hf' with ⟨hlane, hnew⟩ | ⟨-, holdf⟩
      · obtain rfl := Option.some.inj hnew
        obtain ⟨hle, hdrawn', hwritten⟩ := h.busy w j keys' written' f hold (hlane ▸ hf)
        refine ⟨hle, hdrawn', hwritten.update fun i hi ↦ ?_⟩
        have hne' : j.chunk ≠ job.chunk := fun heq ↦ by
          obtain rfl : j = job := Job.ext hlane heq
          exact hne (h.alone w worker j keys' keys written' written hold hw)
        refine ne_of_mem_chunks (h.chunk hold (hlane ▸ hf)) hchunk hne' ?_ hlt
        rw [List.length_take] at hi
        have hlen := hdrawn'.length
        omega
      · exact h.busy w j keys' written' f' hold holdf

theorem Sound.finish [DecidableEq L] [DecidableEq W] (h : Sound threads s)
    (hw : s.workers worker = .busy job keys keys.length) (hf : s.fills job.lane = some f) :
    Sound threads
      { s with
        fills := Function.update s.fills job.lane (some { f with remaining := f.remaining - 1 })
        workers := Function.update s.workers worker .idle } := by
  obtain ⟨-, hdrawn, hbefore⟩ := h.busy worker job keys keys.length f hw hf
  rw [List.take_length] at hbefore
  have hsame (j : Job L) : State.Outstanding { s with
      fills := Function.update s.fills job.lane (some { f with remaining := f.remaining - 1 })
      workers := Function.update s.workers worker .idle } j ↔ s.Outstanding j ∧ j ≠ job := by
    constructor
    · rintro (hmem | ⟨w, keys', written', hw'⟩)
      · exact ⟨.inl hmem, fun heq ↦ h.apart worker job keys _ hw (heq ▸ hmem)⟩
      · rcases of_update hw' with ⟨-, hnew⟩ | ⟨hne, hold⟩
        · cases hnew
        · refine ⟨.inr ⟨w, keys', written', hold⟩, ?_⟩
          rintro rfl
          exact hne (h.alone w worker j keys' keys written' _ hold hw)
    · rintro ⟨hmem | ⟨w, keys', written', hw'⟩, hne⟩
      · exact .inl hmem
      · refine .inr ⟨w, keys', written', (Function.update_of_ne ?_ ..).trans hw'⟩
        rintro rfl
        rw [hw] at hw'
        cases hw'
        exact hne rfl
  refine ⟨fun lane' f' hf' ↦ ?_, fun j hj ↦ ?_, h.queue, fun w j keys' written' hw' ↦ ?_,
    fun w w' j keys₁ keys₂ written₁ written₂ hw₁ hw₂ ↦ ?_, fun w j keys' written' f' hw' hf' ↦ ?_⟩
  · rcases of_update hf' with ⟨rfl, hnew⟩ | ⟨hlane, hold⟩
    · obtain rfl := Option.some.inj hnew
      obtain ⟨out, hout⟩ := h.waits job.lane f hf
      have hmem : job.chunk ∈ out := (hout.mem job.chunk).mpr (.inr ⟨worker, keys, _, hw⟩)
      have hpos := List.length_pos_of_mem hmem
      refine ⟨out.erase job.chunk, hout.nodup.erase _, ?_, fun c hc ↦ hout.subset
        (List.mem_of_mem_erase hc), fun c ↦ ?_, fun c hc hnot ↦ ?_⟩
      · rw [List.length_erase_of_mem hmem]
        have hremaining := hout.remaining
        dsimp only
        omega
      · rw [hout.nodup.mem_erase_iff, hsame, hout.mem c, and_comm]
        refine and_congr_right fun _ ↦ not_congr ⟨fun heq ↦ Job.ext rfl heq, fun heq ↦ ?_⟩
        exact congrArg Job.chunk heq
      · by_cases heq : c = job.chunk
        · exact heq ▸ ⟨keys, hdrawn, hbefore⟩
        · exact hout.written c hc fun hin ↦ hnot ((List.mem_erase_of_ne heq).mpr hin)
    · obtain ⟨out, hout⟩ := h.waits lane' f' hold
      refine ⟨out, hout.congr fun c ↦ ((hsame _).trans (and_iff_left ?_)).symm⟩
      exact fun heq ↦ hlane (congrArg Job.lane heq)
  · obtain ⟨f', hf'⟩ := h.called j ((hsame j).mp hj).1
    exact exists_update fun _ ↦ ⟨f', hf'⟩
  · rcases of_update hw' with ⟨-, hnew⟩ | ⟨-, hold⟩
    · cases hnew
    · exact h.apart w j keys' written' hold
  · rcases of_update hw₁ with ⟨-, hnew₁⟩ | ⟨-, hold₁⟩
    · cases hnew₁
    · rcases of_update hw₂ with ⟨-, hnew₂⟩ | ⟨-, hold₂⟩
      · cases hnew₂
      · exact h.alone w w' j keys₁ keys₂ written₁ written₂ hold₁ hold₂
  · rcases of_update hw' with ⟨-, hnew⟩ | ⟨-, hold⟩
    · cases hnew
    · rcases of_update hf' with ⟨hlane, hnew⟩ | ⟨-, holdf⟩
      · obtain rfl := Option.some.inj hnew
        exact h.busy w j keys' written' f hold (hlane ▸ hf)
      · exact h.busy w j keys' written' f' hold holdf

/-- A lane whose wait is over has nothing outstanding. -/
theorem Waits.none_outstanding {out : List Chunk} (h : Waits threads s lane f out)
    (hover : f.remaining ≤ 0) : out = [] := by
  have hremaining := h.remaining
  exact List.eq_nil_of_length_eq_zero (by omega)

theorem Sound.done [DecidableEq L] (h : Sound threads s) (hf : s.fills lane = some f)
    (hover : f.remaining ≤ 0) :
    Sound threads { s with fills := Function.update s.fills lane none } := by
  obtain ⟨out, hout⟩ := h.waits lane f hf
  have hfree {job : Job L} (hjob : s.Outstanding job) : job.lane ≠ lane := by
    rintro rfl
    have hmem := (hout.mem job.chunk).mpr hjob
    rw [hout.none_outstanding hover] at hmem
    cases hmem
  refine ⟨fun lane' f' hf' ↦ ?_, fun job hjob ↦ ?_, h.queue, h.apart, h.alone,
    fun w job keys written f' hw hf' ↦ ?_⟩
  · rcases of_update hf' with ⟨-, hnew⟩ | ⟨-, hold⟩
    · cases hnew
    · obtain ⟨out', hout'⟩ := h.waits lane' f' hold
      exact ⟨out', hout'.congr fun c ↦ Iff.rfl⟩
  · obtain ⟨f', hf'⟩ := h.called job hjob
    exact ⟨f', (Function.update_of_ne (hfree hjob) ..).trans hf'⟩
  · rcases of_update hf' with ⟨-, hnew⟩ | ⟨-, hold⟩
    · cases hnew
    · exact h.busy w job keys written f' hw hold

end Steps

/-! ## All runs -/

section Runs

variable [DecidableEq L] [DecidableEq W] {threads : Nat} {s t : State L W} {lane : L} {f : Fill}

omit [DecidableEq L] [DecidableEq W] in
theorem sound_idle : Sound threads (State.idle : State L W) where
  waits := fun _ _ hf ↦ by cases hf
  called := fun job hjob ↦ by
    obtain hmem | ⟨w, keys, written, hw⟩ := hjob
    · cases hmem
    · cases hw
  queue := List.nodup_nil
  apart := fun _ _ _ _ hw ↦ by cases hw
  alone := fun _ _ _ _ _ _ _ hw ↦ by cases hw
  busy := fun _ _ _ _ _ hw ↦ by cases hw

theorem Sound.step {a : Action L W} (h : Sound threads s) (hstep : Step threads s a t) :
    Sound threads t := by
  cases hstep with
  | fill hnone _ => exact h.fill hnone _ _ _
  | take hidle hqueue hf => exact h.take hidle hqueue hf _ _
  | write hw hkey hf => exact h.write hw hkey hf
  | finish hw hf => exact h.finish hw hf
  | done hf hover => exact h.done hf hover

theorem sound_run {as : List (Action L W)} (h : Run (Step threads) State.idle as s) :
    Sound threads s := Run.preserves (fun _ _ _ hI hstep ↦ hI.step hstep) h sound_idle

theorem Written.map_indices {arena : Nat → List Char} {c : Chunk} {keys : List (List Char)}
    (h : Written arena c.first keys) (hlen : keys.length = c.size) :
    c.indices.map arena = keys := by
  refine List.ext_getElem (by rw [List.length_map, Chunk.indices, List.length_range', hlen])
    fun i hi hi' ↦ ?_
  have hkey := h i keys[i] (List.getElem?_eq_getElem hi')
  rw [List.getElem_map, ← hkey]
  simp [Chunk.indices, Nat.add_comm]

/-- **A lane whose wait is over has its arena filled**: from the first key to the last, chunk by
chunk, each by one filling with the lane's prefix. -/
theorem arena_filled {as : List (Action L W)} (h : Run (Step threads) State.idle as s)
    (hf : s.fills lane = some f) (hover : f.remaining ≤ 0) : ∃ high low : Chunk → BitVec 32,
    (List.range f.count).map f.arena = (chunks f.count (use threads f.count)).flatMap fun c ↦
      (RandomHexKeyGenerator.ofPrefix f.keyPrefix).fillMany (high c) (low c) c.size := by
  obtain ⟨out, hout⟩ := (sound_run h).waits lane f hf
  obtain rfl := hout.none_outstanding hover
  have hchunk : ∀ c ∈ chunks f.count (use threads f.count), ∃ high low, c.indices.map f.arena =
      (RandomHexKeyGenerator.ofPrefix f.keyPrefix).fillMany high low c.size := by
    intro c hc
    obtain ⟨keys, hdrawn, hwritten⟩ := hout.written c hc List.not_mem_nil
    have hmap := hwritten.map_indices hdrawn.length
    obtain ⟨high, low, rfl⟩ := hdrawn
    exact ⟨high, low, hmap⟩
  choose! high low hall using hchunk
  refine ⟨high, low, ?_⟩
  rw [← flatMap_chunks (use_pos threads f.count), List.map_flatMap]
  exact List.flatMap_congr hall

/-- Two lanes wait, one for two keys and one for three. -/
def twoLanes : State Bool Bool where
  fills := Function.update (Function.update (fun _ ↦ none) false
    (some { keyPrefix := ['7', 'a'], count := 2, arena := fun _ ↦ [], remaining := 2 })) true
    (some { keyPrefix := ['7', 'a'], count := 3, arena := fun _ ↦ [], remaining := 2 })
  queue := [⟨false, 0, 1⟩, ⟨false, 1, 1⟩, ⟨true, 0, 2⟩, ⟨true, 2, 1⟩]
  workers := fun _ ↦ .idle

def twoCalls : List (Action Bool Bool) :=
  [.fill false ['7', 'a'] 2 fun _ ↦ [], .fill true ['7', 'a'] 3 fun _ ↦ []]

theorem twoLanes_called : Run (Step 2) State.idle twoCalls twoLanes :=
  .cons (.fill rfl Nat.two_pos) (.single (.fill rfl (Nat.succ_pos 2)))

/-- Two workers at the four chunks. -/
def fourJobs : List (Action Bool Bool) :=
  [.take false 7 8, .take true 1 2, .write true, .write false, .finish true, .take true 3 4,
    .finish false, .take false 5 6, .write true, .write false, .write true, .finish false,
    .finish true]

theorem twoLanes_made : ∃ (t : State Bool Bool) (f g : Fill), Run (Step 2) twoLanes fourJobs t ∧
    (t.fills false = some f ∧ f.count = 2 ∧ f.keyPrefix = ['7', 'a'] ∧ f.remaining ≤ 0) ∧
    t.fills true = some g ∧ g.count = 3 ∧ g.keyPrefix = ['7', 'a'] ∧ g.remaining ≤ 0 := by
  have hone (high low : BitVec 32) : ∃ key,
      (RandomHexKeyGenerator.ofPrefix ['7', 'a']).fillMany high low 1 = [key] := ⟨_, rfl⟩
  obtain ⟨_, h₀⟩ := hone 7 8
  obtain ⟨_, h₁⟩ := hone 1 2
  obtain ⟨_, _, h₂⟩ : ∃ key key',
      (RandomHexKeyGenerator.ofPrefix ['7', 'a']).fillMany 3 4 2 = [key, key'] := ⟨_, _, rfl⟩
  obtain ⟨_, h₃⟩ := hone 5 6
  have hall (job : Job Bool) (keys : List (List Char)) (n : Nat) (h : keys.length = n) :
      Worker.busy job keys n = .busy job keys keys.length := by rw [h]
  have hlength := (RandomHexKeyGenerator.ofPrefix ['7', 'a']).length_fillMany
  have hrun : Run (Step 2) twoLanes fourJobs _ :=
    .cons (.take rfl rfl rfl) <| .cons (.take rfl rfl rfl) <|
    .cons (.write rfl (congrArg (·[0]?) h₁) rfl) <|
    .cons (.write rfl (congrArg (·[0]?) h₀) rfl) <|
    .cons (.finish (hall ⟨false, 1, 1⟩ _ _ (hlength 1 2 1)) rfl) <| .cons (.take rfl rfl rfl) <|
    .cons (.finish (hall ⟨false, 0, 1⟩ _ _ (hlength 7 8 1)) rfl) <| .cons (.take rfl rfl rfl) <|
    .cons (.write rfl (congrArg (·[0]?) h₂) rfl) <|
    .cons (.write rfl (congrArg (·[0]?) h₃) rfl) <|
    .cons (.write rfl (congrArg (·[1]?) h₂) rfl) <|
    .cons (.finish (hall ⟨true, 2, 1⟩ _ _ (hlength 5 6 1)) rfl) <|
    .single (.finish (hall ⟨true, 0, 2⟩ _ _ (hlength 3 4 2)) rfl)
  exact ⟨_, _, _, hrun, ⟨rfl, rfl, rfl, le_rfl⟩, rfl, rfl, rfl, le_rfl⟩

theorem arena_filled_two : ∃ (s : State Bool Bool) (f g : Fill),
    Run (Step 2) State.idle (twoCalls ++ fourJobs) s ∧ s.fills false = some f ∧
      s.fills true = some g ∧ f.count = 2 ∧ g.count = 3 ∧
      (∃ high low : Chunk → BitVec 32,
        (List.range f.count).map f.arena = (chunks f.count (use 2 f.count)).flatMap fun c ↦
          (RandomHexKeyGenerator.ofPrefix f.keyPrefix).fillMany (high c) (low c) c.size) ∧
      ∃ high low : Chunk → BitVec 32,
        (List.range g.count).map g.arena = (chunks g.count (use 2 g.count)).flatMap fun c ↦
          (RandomHexKeyGenerator.ofPrefix g.keyPrefix).fillMany (high c) (low c) c.size := by
  obtain ⟨s, f, g, hmade, ⟨hf, hcount, -, hover⟩, hg, hcount', -, hover'⟩ := twoLanes_made
  have hrun := twoLanes_called.append hmade
  exact ⟨s, f, g, hrun, hf, hg, hcount, hcount', arena_filled hrun hf hover,
    arena_filled hrun hg hover'⟩

/-- **What is in an arena that is filled for a valid request are keys**: each has its 64 hex digits
and begins with the prefix that was asked for. -/
theorem arena_valid {request : Request} (hvalid : request.Valid) {as : List (Action L W)}
    (h : Run (Step threads) State.idle as s) (hf : s.fills lane = some f) (hover : f.remaining ≤ 0)
    (hasked : f.keyPrefix = normalizeHex request.keyPrefix) {i : Nat} (hi : i < f.count) :
    isHex64KeyRaw (f.arena i) = true ∧ normalizeHex request.keyPrefix <+: f.arena i := by
  obtain ⟨high, low, hall⟩ := arena_filled h hf hover
  have hmem : f.arena i ∈ (List.range f.count).map f.arena :=
    List.mem_map_of_mem (List.mem_range.mpr hi)
  rw [hall, List.mem_flatMap] at hmem
  obtain ⟨c, -, hkey⟩ := hmem
  rw [hasked] at hkey
  exact RandomHexKeyGenerator.fillMany_valid hvalid hkey

theorem arena_valid_two : ∃ (s : State Bool Bool) (g : Fill),
    Run (Step 2) State.idle (twoCalls ++ fourJobs) s ∧ s.fills true = some g ∧ g.count = 3 ∧
      ∀ i < 3, isHex64KeyRaw (g.arena i) = true ∧
        normalizeHex plainRequest.keyPrefix <+: g.arena i := by
  obtain ⟨s, f, g, hmade, -, hg, hcount, hasked, hover⟩ := twoLanes_made
  have hrun := twoLanes_called.append hmade
  have hkeys : g.keyPrefix = normalizeHex plainRequest.keyPrefix := hasked.trans (by decide)
  exact ⟨s, g, hrun, hg, hcount, fun i hi ↦
    arena_valid plainRequest_valid hrun hg hover hkeys (hcount ▸ hi)⟩

/-- **As long as a lane waits, a worker has something to do.** -/
theorem worker_progress [Nonempty W] {as : List (Action L W)}
    (h : Run (Step threads) State.idle as s) (hf : s.fills lane = some f)
    (hwaits : 0 < f.remaining) : ∃ worker t,
    Step threads s (.take worker 0 0) t ∨ Step threads s (.write worker) t ∨
      Step threads s (.finish worker) t := by
  have hsound := sound_run h
  have hbusy {worker : W} {job : Job L} {keys : List (List Char)} {written : Nat}
      (hw : s.workers worker = .busy job keys written) : ∃ worker t,
      Step threads s (.take worker 0 0) t ∨ Step threads s (.write worker) t ∨
        Step threads s (.finish worker) t := by
    obtain ⟨f', hf'⟩ := hsound.called job (.inr ⟨worker, keys, written, hw⟩)
    obtain ⟨hle, -, -⟩ := hsound.busy worker job keys written f' hw hf'
    rcases hle.lt_or_eq with hlt | rfl
    · exact ⟨worker, _, .inr (.inl (.write hw (List.getElem?_eq_getElem hlt) hf'))⟩
    · exact ⟨worker, _, .inr (.inr (.finish hw hf'))⟩
  obtain ⟨out, hout⟩ := hsound.waits lane f hf
  have hremaining := hout.remaining
  obtain ⟨c, hc⟩ := List.exists_mem_of_length_pos (by omega : 0 < out.length)
  rcases (hout.mem c).mp hc with hqueue | ⟨worker, keys, written, hw⟩
  · obtain ⟨worker⟩ := ‹Nonempty W›
    cases hw : s.workers worker with
    | busy job keys written => exact hbusy hw
    | idle =>
      obtain ⟨job, queue, hhead⟩ := List.exists_cons_of_ne_nil (List.ne_nil_of_mem hqueue)
      obtain ⟨f', hf'⟩ := hsound.called job (.inl (hhead ▸ List.mem_cons_self))
      exact ⟨worker, _, .inl (.take hw hhead hf')⟩
  · exact hbusy hw

/-- Both workers have a chunk, and both lanes wait. -/
theorem worker_progress_two : ∃ (s : State Bool Bool) (f g : Fill),
    Run (Step 2) State.idle (twoCalls ++ [.take false 7 8, .take true 1 2]) s ∧
      s.fills false = some f ∧ s.fills true = some g ∧ 0 < f.remaining ∧ 0 < g.remaining ∧
      ∃ worker t, Step 2 s (.take worker 0 0) t ∨ Step 2 s (.write worker) t ∨
        Step 2 s (.finish worker) t := by
  obtain ⟨s, htake, hf, hg⟩ : ∃ s, Run (Step 2) twoLanes [.take false 7 8, .take true 1 2] s ∧
      s.fills false = some { keyPrefix := ['7', 'a'], count := 2, arena := _, remaining := 2 } ∧
      s.fills true = some { keyPrefix := ['7', 'a'], count := 3, arena := _, remaining := 2 } :=
    ⟨_, .cons (.take rfl rfl rfl) (.single (.take rfl rfl rfl)), rfl, rfl⟩
  have hrun := twoLanes_called.append htake
  exact ⟨s, _, _, hrun, hf, hg, two_pos, two_pos, worker_progress hrun hf two_pos⟩

end Runs

end XNMiner.HashApi.KeygenPool
