import XNMiner.Mining.EngineRefines

/-!
# The books of the engine

A match is of value as long as its lane has the request that it was hashed under.  Every match of
value is in exactly one place (`Books.once`), in every run whose steps lose none: `Kept` says what
that takes.
-/

namespace XNMiner

open Lib

/-! ## The matches of a wave -/

theorem mem_waveMatches {origin : Origin} {found : List (String × String × String)}
    {m : HashApiMatch} (h : m ∈ waveMatches origin found) :
    ∃ pos, m.origin = { origin with pos } := by
  obtain ⟨pos, hpos, rfl⟩ := List.mem_mapIdx.mp h
  exact ⟨pos, rfl⟩

theorem nodup_waveMatches (origin : Origin) (found : List (String × String × String)) :
    ((waveMatches origin found).map HashApiMatch.origin).Nodup := by
  rw [List.nodup_iff_pairwise_ne, List.pairwise_iff_getElem]
  intro i j hi hj hij heq
  simp only [waveMatches, List.getElem_map, List.getElem_mapIdx] at heq
  have hpos := congrArg Origin.pos heq
  dsimp only at hpos
  omega

theorem mem_found {outcome : Outcome} {origin : Origin} {m : HashApiMatch}
    (h : m ∈ outcome.found origin) : ∃ pos, m.origin = { origin with pos } := by
  cases outcome with
  | hashed found hashrate => exact mem_waveMatches h
  | unready | failed | refused | threw => exact absurd h List.not_mem_nil

/-- What a wave finds comes from this wave. -/
theorem mem_origins_found {outcome : Outcome} {origin o : Origin}
    (h : o ∈ origins (outcome.found origin)) : ∃ pos, o = { origin with pos } := by
  obtain ⟨m, hm, -, rfl⟩ := mem_origins.mp h
  exact mem_found hm

theorem count_origins_found {outcome : Outcome} {origin : Origin} {m : HashApiMatch}
    (h : m ∈ outcome.found origin) (hhit : m.isHit = true) :
    (origins (outcome.found origin)).count m.origin = 1 := by
  have hnodup : (origins (outcome.found origin)).Nodup := by
    cases outcome with
    | hashed found hashrate =>
        exact Multiset.coe_nodup.mpr
          (((List.filter_sublist).map _).nodup (nodup_waveMatches origin found))
    | unready | failed | refused | threw => exact Multiset.nodup_zero
  exact Multiset.count_eq_one_of_mem hnodup (mem_origins.mpr ⟨m, h, hhit, rfl⟩)

namespace CudaEngine

variable {s t : CudaEngine} {i : Nat}

/-- The match was hashed under the request that its lane still has. -/
def Current (s : CudaEngine) (o : Origin) : Prop := o.epoch = (s.mailboxes o.lane).epoch

/-- No match in this place was. -/
def Clear (s : CudaEngine) (p : Place) : Prop := ∀ o ∈ s.custody p, ¬ s.Current o

/-- The step loses no match of value.  Of an only lane nothing is said. -/
structure Kept (s : CudaEngine) (a : Act) : Prop where
  clear : ∀ p, s.Loses a p → s.Clear p
  lanes : ∀ minutes now outcome, a = .mineBatch minutes now outcome → s.lanes ≠ 1

/-! ## The books -/

/-- The match in this place comes from a wave of its lane. -/
structure Placed (s : CudaEngine) (p : Place) (o : Origin) : Prop where
  wave : o.wave < s.waves
  lane : ∀ i, p.lane = some i → o.lane = i
  source : ∃ m ∈ s.hashed, m.isHit = true ∧ m.origin = o

theorem Placed.mono {p q : Place} {o : Origin} (h : s.Placed p o) (hwaves : s.waves ≤ t.waves)
    (hhashed : ∀ m ∈ s.hashed, m ∈ t.hashed)
    (hlane : ∀ i, q.lane = some i → p.lane = some i) : t.Placed q o where
  wave := Nat.lt_of_lt_of_le h.wave hwaves
  lane := fun i hi ↦ h.lane i (hlane i hi)
  source := by
    obtain ⟨m, hm, hhit⟩ := h.source
    exact ⟨m, hhashed m hm, hhit⟩

/-- What holds of the matches at any moment of a run that loses none. -/
structure Books (s : CudaEngine) : Prop where
  place : ∀ p, ∀ o ∈ s.custody p, s.Placed p o
  hashed : ∀ m ∈ s.hashed, m.origin.wave < s.waves ∧
    m.origin.epoch ≤ (s.mailboxes m.origin.lane).epoch
  worker : ∀ (i : Nat) (w : LaneWorker), s.workers[i]? = some w →
    w.epoch ≤ (s.mailboxes i).epoch
  /-- **A match is in exactly one place**, as long as its lane has the same request. -/
  once : ∀ m ∈ s.hashed, m.isHit = true → s.Current m.origin → Custody.Once s.custody m.origin

/-- A step that hashes nothing and leaves the requests as they are. -/
structure Quiet (s t : CudaEngine) : Prop where
  hashed : t.hashed = s.hashed
  waves : s.waves ≤ t.waves
  epoch : ∀ i, (t.mailboxes i).epoch = (s.mailboxes i).epoch
  worker : (∀ (i : Nat) (w : LaneWorker), s.workers[i]? = some w →
      w.epoch ≤ (s.mailboxes i).epoch) →
    ∀ (i : Nat) (w : LaneWorker), t.workers[i]? = some w → w.epoch ≤ (t.mailboxes i).epoch

theorem SameBooks.quiet (h : SameBooks s t) : Quiet s t where
  hashed := h.hashed
  waves := Nat.le_of_eq h.waves.symm
  epoch := h.epoch
  worker := fun hworker i w hw ↦ by
    rw [h.epoch]
    exact hworker i w (h.workers ▸ hw)

section

variable {w : LaneWorker} {outcome : Outcome}

/-- A worker leaves the requests as they are. -/
theorem WorkerMove.epoch (hm : WorkerMove s i w outcome t) (j : Nat) :
    (t.mailboxes j).epoch = (s.mailboxes j).epoch := by
  rcases hm.mailboxes with heq | ⟨req, result, err, -, heq⟩
  · rw [heq]
  · rw [heq]
    by_cases hj : j = i
    · subst hj
      rw [Function.update_self]
    · rw [Function.update_of_ne hj]

/-- A worker knows no request that is newer than its mailbox. -/
theorem WorkerMove.worker_epoch (hm : WorkerMove s i w outcome t) (hw : s.workers[i]? = some w)
    (hworker : ∀ (i : Nat) (w : LaneWorker), s.workers[i]? = some w →
      w.epoch ≤ (s.mailboxes i).epoch) (j : Nat) (v : LaneWorker)
    (hv : t.workers[j]? = some v) : v.epoch ≤ (t.mailboxes j).epoch := by
  rw [hm.epoch j]
  have hown := hworker i w hw
  cases hm with
  | skips | takes =>
      rcases workers_setWorker hv with ⟨rfl, rfl⟩ | ⟨-, hv⟩
      · exact Nat.le_refl _
      · exact hworker j v hv
  | hashes | ends | leaves | enters | lacks | publishes =>
      rcases workers_setWorker hv with ⟨rfl, rfl⟩ | ⟨-, hv⟩
      · exact hown
      · exact hworker j v hv

end

namespace Books

theorem create (settings : Settings) (maxLanes : Nat) : Books (create settings maxLanes) := by
  have hnone : ∀ p, (CudaEngine.create settings maxLanes).custody p = 0 := by
    intro p
    cases p with
    | unread i => simp [CudaEngine.custody, CudaEngine.create, LaneMailbox.unread]
    | buffered | held | absorbed | returned => rfl
  exact ⟨fun p o ho ↦ by simp [hnone] at ho, by simp [CudaEngine.create],
    by simp [CudaEngine.create], by simp [CudaEngine.create]⟩

/-- What is hashed under the request of its lane was so before. -/
theorem current (h : Books s) (hepoch : ∀ i, (s.mailboxes i).epoch ≤ (t.mailboxes i).epoch)
    {m : HashApiMatch} (hm : m ∈ s.hashed) (hcur : t.Current m.origin) : s.Current m.origin :=
  Nat.le_antisymm (h.hashed m hm).2 (by
    rw [hcur]
    exact hepoch _)

/-- The requests that end take their matches with them. -/
theorem discards {L : Place → Prop} (h : Books s) (hd : Discards L s t)
    (hclear : ∀ p, L p → s.Clear p) : Books t where
  place := fun p o ho ↦ by
    have hs : s.Placed p o := by
      rcases hd.custody p with heq | ⟨hle, -⟩
      · exact h.place p o (heq ▸ ho)
      · exact h.place p o (Multiset.mem_of_le hle ho)
    exact hs.mono (Nat.le_of_eq hd.waves.symm) (fun m hm ↦ hd.hashed ▸ hm) fun _ hi ↦ hi
  hashed := fun m hm ↦ by
    obtain ⟨hwave, hepoch⟩ := h.hashed m (hd.hashed ▸ hm)
    exact ⟨hd.waves ▸ hwave, hepoch.trans (hd.epoch _)⟩
  worker := fun i w hw ↦ by
    rcases hd.workers i w hw with hw | rfl
    · exact (h.worker i w hw).trans (hd.epoch i)
    · exact Nat.zero_le _
  once := fun m hm hhit hcur ↦ by
    have hm : m ∈ s.hashed := hd.hashed ▸ hm
    have hcur₀ := h.current hd.epoch hm hcur
    have hle : ∀ p, t.custody p ≤ s.custody p := fun p ↦
      (hd.custody p).elim (fun heq ↦ le_of_eq heq) And.left
    have hlose : Custody.Step s.custody (.lose fun p ↦ s.custody p - t.custody p) t.custody :=
      .lose fun p ↦ (Multiset.sub_add_cancel (hle p)).symm
    refine Custody.step_once hlose id ?_ (h.once m hm hhit hcur₀)
    rintro ⟨p, hp⟩
    rcases hd.custody p with heq | ⟨-, hL | ⟨i, hlane, hlt⟩⟩
    · have hle' : s.custody p - t.custody p ≤ 0 := Multiset.sub_le_iff_le_add.mpr (by simp [heq])
      exact Multiset.notMem_zero _ (Multiset.mem_of_le hle' hp)
    · exact hclear p hL _ (Multiset.mem_of_le (Multiset.sub_le_self _ _) hp) hcur₀
    · have hmem := Multiset.mem_of_le (Multiset.sub_le_self _ _) hp
      obtain rfl := (h.place p _ hmem).lane i hlane
      have : m.origin.epoch < m.origin.epoch := by
        calc m.origin.epoch = (s.mailboxes m.origin.lane).epoch := hcur₀
          _ < (t.mailboxes m.origin.lane).epoch := hlt
          _ = m.origin.epoch := hcur.symm
      exact Nat.lt_irrefl _ this

/-- Nothing is hashed, and no request changes. -/
theorem of_quiet (h : Books s) (hquiet : Quiet s t)
    (hplace : ∀ p, ∀ o ∈ t.custody p, s.Placed p o)
    (honce : ∀ m ∈ s.hashed, m.isHit = true → s.Current m.origin →
      Custody.Once t.custody m.origin) : Books t where
  place := fun p o ho ↦
    (hplace p o ho).mono hquiet.waves (fun m hm ↦ hquiet.hashed ▸ hm) fun _ hi ↦ hi
  hashed := fun m hm ↦ by
    rw [hquiet.epoch]
    exact (h.hashed m (hquiet.hashed ▸ hm)).imp_left fun hlt ↦
      Nat.lt_of_lt_of_le hlt hquiet.waves
  worker := hquiet.worker h.worker
  once := fun m hm hhit hcur ↦ by
    refine honce m (hquiet.hashed ▸ hm) hhit ?_
    rwa [Current, ← hquiet.epoch]

/-- No match moves. -/
theorem rests (h : Books s) (hquiet : Quiet s t) (hc : t.custody = s.custody) : Books t :=
  h.of_quiet hquiet (hc ▸ h.place) (hc ▸ h.once)

/-- Matches pass from one place to another. -/
theorem passes (h : Books s) (hquiet : Quiet s t) {p q : Place} {ts : Multiset Origin}
    (hlane : ∀ i, q.lane = some i → p.lane = some i)
    (hpass : Custody.Step s.custody (.pass p q ts) t.custody) : Books t :=
  h.of_quiet hquiet
    (Custody.step_holds hpass (fun _ _ ho ↦ ho.mono (Nat.le_refl _) (fun _ hm ↦ hm) hlane)
      h.place)
    fun m hm hhit hcur ↦ Custody.step_once hpass id id (h.once m hm hhit hcur)

/-- What one place holds is lost, and nothing in it was of value. -/
theorem loses (h : Books s) (hquiet : Quiet s t) {p : Place} (hclear : s.Clear p)
    (hlose : Custody.Step s.custody
      (.lose (Function.update (fun _ ↦ 0) p (s.custody p))) t.custody) : Books t := by
  refine h.of_quiet hquiet (Custody.step_holds hlose trivial h.place) fun m hm hhit hcur ↦ ?_
  refine Custody.step_once hlose id ?_ (h.once m hm hhit hcur)
  rintro ⟨q, hq⟩
  by_cases hqp : q = p
  · subst hqp
    rw [Function.update_self] at hq
    exact hclear _ hq hcur
  · rw [Function.update_of_ne hqp] at hq
    exact Multiset.notMem_zero _ hq

/-- A wave is hashed: its matches are new, and the answer has those of the wave before. -/
theorem hashes (h : Books s) {w : LaneWorker} {origin : Origin} {found : List HashApiMatch}
    (hw : s.workers[i]? = some w) (hlane : origin.lane = i) (hwave : origin.wave = s.waves)
    (hepoch : origin.epoch = w.epoch)
    (hfound : ∀ m ∈ found, ∃ pos, m.origin = { origin with pos })
    (hcount : ∀ m ∈ found, m.isHit = true → (origins found).count m.origin = 1)
    (hrun : Run Custody.Step s.custody [.pass (.buffered i) (.held i) (s.custody (.buffered i)),
      .find (.buffered i) (origins found)] t.custody)
    (hhashed : t.hashed = s.hashed ++ found) (hwaves : t.waves = s.waves + 1)
    (hboxes : ∀ j, (t.mailboxes j).epoch = (s.mailboxes j).epoch)
    (hworker : ∀ (i : Nat) (w : LaneWorker), t.workers[i]? = some w →
      w.epoch ≤ (t.mailboxes i).epoch) : Books t := by
  have hnew : ∀ m ∈ found, m.origin.wave = s.waves ∧ m.origin.lane = i ∧
      m.origin.epoch = w.epoch := by
    intro m hm
    obtain ⟨pos, hpos⟩ := hfound m hm
    rw [hpos]
    exact ⟨hwave, hlane, hepoch⟩
  have hfind : ∀ o ∈ origins found, o.wave = s.waves ∧ t.Placed (.buffered i) o := by
    intro o ho
    obtain ⟨m, hm, hhit, rfl⟩ := mem_origins.mp ho
    obtain ⟨hmwave, hmlane, -⟩ := hnew m hm
    refine ⟨hmwave, ⟨?_, fun j hj ↦ hmlane.trans (Option.some.inj hj), m, ?_, hhit, rfl⟩⟩
    · rw [hwaves, hmwave]
      exact Nat.lt_succ_self _
    · rw [hhashed]
      exact List.mem_append_right _ hm
  obtain ⟨c, hpass, hrest⟩ := hrun.head
  have hfinds := hrest.singleton_inv
  have hplace : ∀ p, ∀ o ∈ c p, s.Placed p o :=
    Custody.step_holds hpass (fun _ _ ho ↦ ho.mono (Nat.le_refl _) (fun _ hm ↦ hm) fun _ hj ↦ hj)
      h.place
  have hcur : ∀ o, t.Current o ↔ s.Current o := fun o ↦ by rw [Current, Current, hboxes]
  refine ⟨?_, fun m hm ↦ ?_, hworker, fun m hm hhit hmcur ↦ ?_⟩
  · refine Custody.step_holds hfinds (fun o ho ↦ (hfind o ho).2) fun p o ho ↦ ?_
    refine (hplace p o ho).mono (by omega) (fun m hm ↦ ?_) fun _ hj ↦ hj
    rw [hhashed]
    exact List.mem_append_left _ hm
  · rw [hwaves, hboxes]
    rcases List.mem_append.mp (hhashed ▸ hm) with hm | hm
    · exact (h.hashed m hm).imp_left Nat.lt_succ_of_lt
    · obtain ⟨hmwave, hmlane, hmepoch⟩ := hnew m hm
      rw [hmwave, hmlane, hmepoch]
      exact ⟨Nat.lt_succ_self _, h.worker i w hw⟩
  · rcases List.mem_append.mp (hhashed ▸ hm) with hm | hm
    · refine Custody.run_once hrun (fun e he ↦ ?_) (fun e he ↦ ?_)
        (h.once m hm hhit ((hcur _).mp hmcur))
      · rcases List.mem_pair.mp he with rfl | rfl
        · exact id
        · exact fun hmem ↦ absurd (hfind _ hmem).1 (Nat.ne_of_lt (h.hashed m hm).1)
      · rcases List.mem_pair.mp he with rfl | rfl <;> exact id
    · refine Custody.once_of_find hfinds (fun p hmem ↦ ?_) (hcount m hm hhit)
      exact absurd (hplace p _ hmem).wave (by rw [(hnew m hm).1]; exact Nat.lt_irrefl _)

/-- A worker goes on. -/
theorem workerMove (h : Books s) (hr : RingInv s) {w : LaneWorker} {outcome : Outcome}
    (hw : s.workers[i]? = some w) (hm : WorkerMove s i w outcome t)
    (hkept : Kept s (.worker i outcome)) : Books t := by
  have hworker := hm.worker_epoch hw h.worker
  cases hm.effect hr hw with
  | rests hc hhashed hwaves => exact h.rests ⟨hhashed, hwaves, hm.epoch, fun _ ↦ hworker⟩ hc
  | hashes req origin hpc _ horigin hrun hhashed hwaves =>
      subst horigin
      exact h.hashes hw rfl rfl rfl (fun _ ↦ mem_found) (fun _ ↦ count_origins_found) hrun
        hhashed hwaves hm.epoch hworker
  | drops req error hpc houtcome hlose hhashed hwaves =>
      exact h.loses ⟨hhashed, hwaves, hm.epoch, fun _ ↦ hworker⟩
        (hkept.clear _ (by subst houtcome; exact ⟨rfl, w, req, hw, hpc⟩)) hlose
  | writes hpass hhashed hwaves =>
      refine h.passes ⟨hhashed, Nat.le_of_eq hwaves.symm, hm.epoch, fun _ ↦ hworker⟩ ?_ hpass
      exact fun _ hj ↦ hj

/-- The mining thread goes on with a call. -/
theorem miningMove (h : Books s) (hr : RingInv s) (hmail : MailInv s) {now : String}
    (hm : MiningMove s now t) (hkept : Kept s (.proceed now)) : Books t := by
  cases hm.effect hr hmail with
  | discards hd => exact h.discards hd hkept.clear
  | reads lane out out' totalHs totalHs' ts _ _ hpass hsame =>
      exact h.passes hsame.quiet (by simp [Place.lane]) hpass
  | drains lane out out' _ _ hpass hsame =>
      exact h.passes hsame.quiet (by simp [Place.lane]) hpass
  | throws lane out totalHs hpc hlane hbad hlose hsame =>
      exact h.loses hsame.quiet (hkept.clear .absorbed ⟨lane, out, totalHs, hpc, hlane, hbad⟩) hlose
  | returns _ hpass hsame => exact h.passes hsame.quiet (by simp [Place.lane]) hpass

end Books

/-! ## Runs -/

/-- What holds at any moment of a run that loses no match. -/
structure Sound (s : CudaEngine) : Prop where
  rings : RingInv s
  mail : MailInv s
  staff : Staffed s
  books : Books s

theorem sound_create (settings : Settings) (maxLanes : Nat) :
    Sound (create settings maxLanes) :=
  ⟨ringInv_create settings maxLanes, .create settings maxLanes, staffed_create settings maxLanes,
    .create settings maxLanes⟩

/-- **The books stay right**, over a step that loses no match. -/
theorem Sound.step (h : Sound s) {a : Act} (hs : Guarded Step Kept s a t) : Sound t := by
  refine ⟨h.rings.step hs.1, h.mail.step hs.1, h.staff.step hs.1, ?_⟩
  obtain ⟨hs, hkept⟩ := hs
  cases step_inv hs with
  | worker hw hm => exact h.books.workerMove h.rings hw hm hkept
  | proceed hm => exact h.books.miningMove h.rings h.mail hm hkept
  | call a hpc _ => exact h.books.discards (.call hpc h.mail h.staff hkept.lanes) hkept.clear

theorem Sound.run {as : List Act} (h : Sound s) (hrun : Run (Guarded Step Kept) s as t) :
    Sound t :=
  hrun.preserves (fun _ _ _ h hs ↦ h.step hs) h

end CudaEngine

end XNMiner
