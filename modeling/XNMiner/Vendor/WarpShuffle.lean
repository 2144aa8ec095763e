import XNMiner.Vendor.Warp

/-!
# The compression of a warp

Four threads that pass their registers round and back mix sixteen words (`Turns.permute`).  After
`transpose` they hold a row of the block, before it a column, so `shuffle_block` is the permutation
of the standard (`shuffleBlock_load`).
-/

namespace XNMiner.Device

open Lib.Argon2

/-! ## The registers of a warp -/

/-- The registers of a block. -/
abbrev load (x : Block) : Warp := loadBlock fun _ ↦ x

/-- The place of a register in a block. -/
def place (t : Fin 32) (r : Fin 4) : Fin 128 := Fin.ofNat 128 (32 * r.val + t.val)

theorem val_place (t : Fin 32) (r : Fin 4) : (place t r).val = 32 * r.val + t.val :=
  Nat.mod_eq_of_lt (by omega)

theorem register_loadBlock (src : Fin 32 → Block) (t : Fin 32) (r : Fin 4) :
    register (loadBlock src) t r = (src t)[place t r] := by
  rw [register, loadBlock, fin_getElem_ofFn]
  simp only [Fin.getElem_fin, val_place]
  fin_cases r <;> rfl

theorem register_load (x : Block) (t : Fin 32) (r : Fin 4) :
    register (load x) t r = x.get (place t r) := register_loadBlock _ t r

/-- Warps with the same registers are the same. -/
theorem ext_register {u v : Warp} (h : ∀ t r, register u t r = register v t r) : u = v :=
  ext_getElem fun t ↦ Quad.ext_get (h t)

/-- The thread with another group of the four in its sixteen. -/
def withGroup (t : Fin 32) (r : Fin 4) : Fin 32 :=
  Fin.ofNat 32 (16 * (t.val / 16) + 4 * r.val + t.val % 4)

/-- A thread's group. -/
def group (t : Fin 32) : Fin 4 := Fin.ofNat 4 (t.val / 4)

/-- `transpose` exchanges the number of the register with the group of the thread. -/
theorem register_transpose (block : Warp) (t : Fin 32) (r : Fin 4) :
    register (transpose block) t r = register block (withGroup t r) (group t) := by
  have hquad : (transpose block)[t] =
      { a := block[withGroup t 0].get (group t), b := block[withGroup t 1].get (group t)
        c := block[withGroup t 2].get (group t), d := block[withGroup t 3].get (group t) } := by
    simp only [transpose, shflXor, shfl, Vector.getElem_ofFn, Fin.getElem_fin]
    fin_cases t <;> rfl
  rw [register, hquad]
  fin_cases r <;> rfl

/-! ## Sixteen words on four threads -/

/-- The words of four threads, register by register. -/
def gather (block : Warp) (quad : Fin 4 → Fin 32) : Vector (BitVec 64) 16 :=
  Vector.ofFn fun i ↦ register block (quad (Fin.ofNat 4 i)) (Fin.ofNat 4 (i.val / 4))

theorem get_gather (block : Warp) (quad : Fin 4 → Fin 32) (i : Fin 16) :
    (gather block quad).get i = register block (quad (Fin.ofNat 4 i)) (Fin.ofNat 4 (i.val / 4)) :=
  get_ofFn _ i

theorem gather_map_g (block : Warp) (quad : Fin 4 → Fin 32) :
    gather (block.map g) quad = mixColumns (gather block quad) := by
  have hquad (q : Fin 4) :
      block[quad q] = quadAt (gather block quad) q (4 + q) (8 + q) (12 + q) := by
    simp only [quadAt, get_gather]
    fin_cases q <;> rfl
  refine ext_get fun i ↦ ?_
  rw [get_gather, mixColumns, get_ofFn, register,
    Fin.getElem_fin, Vector.getElem_map, g_eq]
  exact congrArg (fun x ↦ (gb x).get _) (hquad (Fin.ofNat 4 i))

/-- Four threads pass their registers round: the register `r` by `n * r` threads. -/
def Turns (quad : Fin 4 → Fin 32) (n : Fin 4) (turn : Warp → Warp) : Prop :=
  ∀ block q r, register (turn block) (quad q) r = register block (quad (q + n * r)) r

/-- Between a turn and the turn back, diagonals are mixed. -/
theorem Turns.gather {quad : Fin 4 → Fin 32} {shift unshift : Warp → Warp}
    (hshift : Turns quad 1 shift) (hunshift : Turns quad 3 unshift) (block : Warp) :
    gather (unshift ((shift block).map g)) quad = mixDiagonals (gather block quad) := by
  have hquad (q : Fin 4) : (shift block)[quad q] = quadAt (Device.gather block quad) q
      (4 + (q + 1) % 4) (8 + (q + 2) % 4) (12 + (q + 3) % 4) := by
    refine Quad.ext_get fun r ↦ (hshift block q r).trans ?_
    simp only [quadAt, get_gather]
    fin_cases q <;> fin_cases r <;> rfl
  have hplace : ∀ i : Fin 16, (Fin.ofNat 4 i + 3 * Fin.ofNat 4 (i / 4)).val =
      (i.val + 3 * (i.val / 4)) % 4 := by decide
  refine ext_get fun i ↦ ?_
  rw [get_gather, hunshift, register, Fin.getElem_fin, Vector.getElem_map, g_eq,
    ← Fin.getElem_fin, hquad, hplace, mixDiagonals, get_ofFn]

/-- **Four threads mix sixteen words.** -/
theorem Turns.permute {quad : Fin 4 → Fin 32} {shift unshift : Warp → Warp}
    (hshift : Turns quad 1 shift) (hunshift : Turns quad 3 unshift) (block : Warp) :
    Device.gather (unshift ((shift (block.map g)).map g)) quad =
      permute (Device.gather block quad) := by
  rw [hshift.gather hunshift, gather_map_g, permute_eq]

/-! ## Rows and columns -/

/-- The threads that hold a row after `transpose`. -/
def rowThread (r : Fin 8) (q : Fin 4) : Fin 32 :=
  Fin.ofNat 32 (4 * (r.val / 2) + 16 * (r.val % 2) + q.val)

/-- The threads that hold a column. -/
def columnThread (c : Fin 8) (q : Fin 4) : Fin 32 :=
  Fin.ofNat 32 (16 * (q.val / 2) + 2 * c.val + q.val % 2)

/-- What the threads have to name for a turn. -/
theorem turns_shuffleRows {quad : Fin 4 → Fin 32} {n : Fin 4} {srcThrB srcThrD : Fin 32 → Nat}
    {mask : Nat} (hb : ∀ q, Fin.ofNat 32 (srcThrB (quad q)) = quad (q + n * 1))
    (hc : ∀ q, Fin.ofNat 32 ((quad q).val ^^^ mask) = quad (q + n * 2))
    (hd : ∀ q, Fin.ofNat 32 (srcThrD (quad q)) = quad (q + n * 3)) :
    Turns quad n fun block ↦ shuffleRows block srcThrB mask srcThrD := by
  intro block q r
  rw [register]
  simp only [shuffleRows, shfl, shflXor, Fin.getElem_fin, Vector.getElem_ofFn, Vector.getElem_map]
  fin_cases r
  · exact congrArg (fun t ↦ register block (quad t) 0) (by omega : q = q + n * 0)
  · exact congrArg (fun t ↦ register block t 1) (hb q)
  · exact congrArg (fun t ↦ register block t 2) (hc q)
  · exact congrArg (fun t ↦ register block t 3) (hd q)

theorem turns_shift1Shuffle : ∀ r, Turns (rowThread r) 1 shift1Shuffle :=
  fun r ↦ turns_shuffleRows (by decide +revert) (by decide +revert) (by decide +revert)

theorem turns_unshift1Shuffle : ∀ r, Turns (rowThread r) 3 unshift1Shuffle :=
  fun r ↦ turns_shuffleRows (by decide +revert) (by decide +revert) (by decide +revert)

theorem turns_shift2Shuffle : ∀ c, Turns (columnThread c) 1 shift2Shuffle :=
  fun c ↦ turns_shuffleRows (by decide +revert) (by decide +revert) (by decide +revert)

theorem turns_unshift2Shuffle : ∀ c, Turns (columnThread c) 3 unshift2Shuffle :=
  fun c ↦ turns_shuffleRows (by decide +revert) (by decide +revert) (by decide +revert)

/-- A row of a block, after `transpose`. -/
theorem gather_transpose (x : Block) (r : Fin 8) :
    gather (transpose (load x)) (rowThread r) = row x r := by
  have hplace : ∀ (r : Fin 8) (i : Fin 16),
      (place (withGroup (rowThread r (Fin.ofNat 4 i)) (Fin.ofNat 4 (i.val / 4)))
        (group (rowThread r (Fin.ofNat 4 i)))).val = 16 * r.val + i.val := by decide
  refine ext_get fun i ↦ ?_
  rw [get_gather, register_transpose, register_loadBlock, row, get_ofFn]
  simp only [Fin.getElem_fin, hplace]

/-- A column of a block. -/
theorem gather_load (x : Block) (c : Fin 8) : gather (load x) (columnThread c) = column x c := by
  have hplace : ∀ (c : Fin 8) (i : Fin 16),
      (place (columnThread c (Fin.ofNat 4 i)) (Fin.ofNat 4 (i.val / 4))).val =
        16 * (i.val / 2) + 2 * c.val + i.val % 2 := by decide
  refine ext_get fun i ↦ ?_
  rw [get_gather, register_loadBlock, column, get_ofFn]
  simp only [Fin.getElem_fin, hplace]

/-- Warps with the same sixteen words on every four of the threads are the same. -/
theorem ext_gather {quads : Fin 8 → Fin 4 → Fin 32} (hall : ∀ t, ∃ n q, quads n q = t) {u v : Warp}
    (h : ∀ n, gather u (quads n) = gather v (quads n)) : u = v := by
  have hplace : ∀ q r : Fin 4, Fin.ofNat 4 (Fin.ofNat 16 (4 * r.val + q.val)).val = q ∧
      Fin.ofNat 4 ((Fin.ofNat 16 (4 * r.val + q.val)).val / 4) = r := by decide
  refine ext_register fun t r ↦ ?_
  obtain ⟨n, q, rfl⟩ := hall t
  have hword := congrArg (fun words ↦ words.get (Fin.ofNat 16 (4 * r.val + q.val))) (h n)
  simpa only [get_gather, hplace] using hword

theorem transpose_transpose (block : Warp) : transpose (transpose block) = block := by
  have hback : ∀ t r, withGroup (withGroup t r) (group t) = t ∧ group (withGroup t r) = r := by
    decide
  refine ext_register fun t r ↦ ?_
  rw [register_transpose, register_transpose, (hback t r).1, (hback t r).2]

/-- **The warp shuffles a block as the standard does.** -/
theorem shuffleBlock_load (x : Block) :
    shuffleBlock (load x) = load (permuteColumns (permuteRows x)) := by
  have hrow : ∀ t, ∃ r q, rowThread r q = t := by decide
  have hcolumn : ∀ t, ∃ c q, columnThread c q = t := by decide
  have hrows : unshift1Shuffle ((shift1Shuffle ((transpose (load x)).map g)).map g) =
      transpose (load (permuteRows x)) :=
    ext_gather hrow fun r ↦ by
      rw [(turns_shift1Shuffle r).permute (turns_unshift1Shuffle r), gather_transpose,
        gather_transpose, row_permuteRows]
  have hcolumns : unshift2Shuffle ((shift2Shuffle ((load (permuteRows x)).map g)).map g) =
      load (permuteColumns (permuteRows x)) :=
    ext_gather hcolumn fun c ↦ by
      rw [(turns_shift2Shuffle c).permute (turns_unshift2Shuffle c), gather_load,
        gather_load, column_permuteColumns]
  rw [shuffleBlock, hrows, transpose_transpose, hcolumns]

/-! ## The plain exchange -/

theorem cmpeqMask_and (test ref : Nat) (x : BitVec 64) :
    cmpeqMask test ref &&& x = if test = ref then x else 0 := by
  rw [cmpeqMask]
  split
  · exact BitVec.allOnes_and
  · exact BitVec.zero_and

theorem blockThGet_eq (b : BlockTh) (r : Fin 4) : blockThGet b r = b.get r := by
  simp only [blockThGet, cmpeqMask_and]
  fin_cases r <;> simp [Quad.get]

theorem get_blockThSet (b : BlockTh) (i r : Fin 4) (v : BitVec 64) :
    (blockThSet b i v).get r = if i = r then v else b.get r := by
  have hset (x : BitVec 64) : x ^^^ (v ^^^ x) = v := by
    rw [BitVec.xor_comm v, ← BitVec.xor_assoc, BitVec.xor_self, BitVec.zero_xor]
  simp only [blockThSet, cmpeqMask_and]
  fin_cases i <;> fin_cases r <;> simp [Quad.get, hset]

theorem u64Shuffle_eq (v : Vector (BitVec 64) 32) (threadSrc : Fin 32 → Nat) :
    u64Shuffle v threadSrc = shfl v threadSrc := by
  refine ext_getElem fun t ↦ ?_
  simp only [u64Shuffle, shfl, Fin.getElem_fin, Vector.getElem_ofFn, Vector.getElem_map,
    u64Build_eq, append_halves]

/-- The register that is exchanged in a turn of the loop, and the one that comes for it. -/
def exchanged (i : Fin 4) (p : Fin 32 × Fin 4) : Fin 32 × Fin 4 :=
  if group p.1 ^^^ i = p.2 then (withGroup p.1 p.2, group p.1) else p

theorem register_transpose1Step (block : Warp) (i : Fin 4) (p : Fin 32 × Fin 4) :
    register (transpose1Step block i) p.1 p.2 =
      register block (exchanged i p).1 (exchanged i p).2 := by
  have hidx : ∀ (i : Fin 4) (t : Fin 32),
      (t.val &&& 0x0C) >>> 2 ^^^ i.val = (group t ^^^ i).val := by decide
  have hsrc : ∀ (i : Fin 4) (t : Fin 32),
      Fin.ofNat 32 (i.val <<< 2 ^^^ t.val) = withGroup t (group t ^^^ i) := by decide
  have hback : ∀ (i : Fin 4) (t : Fin 32), group (withGroup t (group t ^^^ i)) ^^^ i = group t := by
    decide
  obtain ⟨t, r⟩ := p
  have hget : (transpose1Step block i)[t] =
      blockThSet block[t] (group t ^^^ i : Fin 4)
        (register block (withGroup t (group t ^^^ i)) (group t)) := by
    rw [transpose1Step, fin_getElem_ofFn, u64Shuffle_eq, shfl, fin_getElem_ofFn, fin_getElem_ofFn,
      hsrc]
    simp only [hidx, hback, blockThGet_eq]
    rfl
  dsimp only
  rw [register, hget, get_blockThSet, exchanged]
  split
  · next hr =>
    rw [hr]
  · rfl

/-- **The two ways to transpose are one.** -/
theorem transpose1_eq (block : Warp) : transpose1 block = transpose block := by
  have hall : ∀ t r, exchanged 1 (exchanged 2 (exchanged 3 (t, r))) = (withGroup t r, group t) := by
    decide
  refine ext_register fun t r ↦ ?_
  have hthree (p : Fin 32 × Fin 4) :=
    (register_transpose1Step (transpose1Step (transpose1Step block 1) 2) 3 p).trans
      ((register_transpose1Step (transpose1Step block 1) 2 _).trans
        (register_transpose1Step block 1 _))
  refine (hthree (t, r)).trans ?_
  rw [register_transpose, hall]

/-! ## Stores -/

section

variable {α : Type} {dst : Vector α 128} {order : List (Fin 32)}

theorem getElem_setFour (v : Fin 4 → α) (thread t : Fin 32) (r : Fin 4) :
    (setFour dst thread (v 0) (v 1) (v 2) (v 3))[place t r] =
      if t = thread then v r else dst[place t r] := by
  simp only [setFour, Fin.getElem_fin, Vector.getElem_set, val_place]
  by_cases heq : t = thread
  · subst heq
    fin_cases r <;> simp
  · have hne : t.val ≠ thread.val := fun h ↦ heq (Fin.ext h)
    rw [if_neg (by omega), if_neg (by omega), if_neg (by omega), if_neg (by omega), if_neg heq]

/-- After the threads of a list have written, in its order. -/
theorem getElem_foldl_setFour (v : Fin 32 → Fin 4 → α) (t : Fin 32) (r : Fin 4) :
    (order.foldl (fun dst thread ↦ setFour dst thread (v thread 0) (v thread 1) (v thread 2)
      (v thread 3)) dst)[place t r] = if t ∈ order then v t r else dst[place t r] := by
  induction order generalizing dst with
  | nil => rfl
  | cons thread order ih =>
    rw [List.foldl_cons, ih, getElem_setFour]
    by_cases hin : t ∈ order
    · rw [if_pos hin, if_pos (List.mem_cons_of_mem thread hin)]
    · rw [if_neg hin]
      by_cases heq : t = thread
      · rw [if_pos heq, if_pos (heq ▸ List.mem_cons_self), heq]
      · rw [if_neg heq, if_neg (by simp [heq, hin])]

end

theorem ext_place {α : Type} {v w : Vector α 128} (h : ∀ t r, v[place t r] = w[place t r]) :
    v = w := by
  have hall : ∀ k : Fin 128, place (Fin.ofNat 32 k) (Fin.ofNat 4 (k / 32)) = k := by decide
  refine ext_getElem fun k ↦ ?_
  have hword := h (Fin.ofNat 32 k) (Fin.ofNat 4 (k / 32))
  simpa only [hall] using hword

/-- **In whatever order the threads store**, and however often, a word of the block is the register
of the thread that has its place, once that thread has stored; the other words are as they were. -/
theorem foldl_storeBlockThread (order : List (Fin 32)) (dst : Block) (src : Warp) (t : Fin 32)
    (r : Fin 4) :
    (order.foldl (fun dst thread ↦ storeBlockThread dst (src.get thread) thread) dst)[place t r] =
      if t ∈ order then register src t r else dst[place t r] :=
  getElem_foldl_setFour (register src) t r

theorem storeBlock_load (dst x : Block) : storeBlock dst (load x) = x := by
  refine ext_place fun t r ↦ (getElem_foldl_setFour (register (load x)) t r).trans ?_
  rw [if_pos (List.mem_finRange t), register_loadBlock]

/-- What the threads have put aside comes back to them. -/
theorem register_blockLLoadXor (dst : BlockL) (block kept : Warp) (t : Fin 32) (r : Fin 4) :
    register (blockLLoadXor block (blockLStore dst kept)) t r =
      register block t r ^^^ register kept t r := by
  have hlo : (blockLStore dst kept).lo[place t r] = u64Lo (register kept t r) := by
    have hfold : (blockLStore dst kept).lo = (List.finRange 32).foldl (fun lo thread ↦
        setFour lo thread (u64Lo kept[thread].a) (u64Lo kept[thread].b) (u64Lo kept[thread].c)
          (u64Lo kept[thread].d)) dst.lo := (List.foldl_hom BlockL.lo fun _ _ ↦ rfl).symm
    rw [hfold]
    exact (getElem_foldl_setFour (fun t r ↦ u64Lo (register kept t r)) t r).trans
      (if_pos (List.mem_finRange t))
  have hhi : (blockLStore dst kept).hi[place t r] = u64Hi (register kept t r) := by
    have hfold : (blockLStore dst kept).hi = (List.finRange 32).foldl (fun hi thread ↦
        setFour hi thread (u64Hi kept[thread].a) (u64Hi kept[thread].b) (u64Hi kept[thread].c)
          (u64Hi kept[thread].d)) dst.hi := (List.foldl_hom BlockL.hi fun _ _ ↦ rfl).symm
    rw [hfold]
    exact (getElem_foldl_setFour (fun t r ↦ u64Hi (register kept t r)) t r).trans
      (if_pos (List.mem_finRange t))
  have hxor (src : BlockL) : register (blockLLoadXor block src) t r =
      register block t r ^^^ u64Build src.hi[place t r] src.lo[place t r] := by
    rw [register, blockLLoadXor, fin_getElem_ofFn]
    simp only [Fin.getElem_fin, val_place]
    fin_cases r <;> rfl
  rw [hxor, hlo, hhi, u64Build_eq, append_halves]

theorem register_loadBlockXor (dst : Warp) (src : Fin 32 → Block) (t : Fin 32) (r : Fin 4) :
    register (loadBlockXor dst src) t r = register dst t r ^^^ (src t)[place t r] := by
  rw [register, loadBlockXor, fin_getElem_ofFn]
  simp only [Fin.getElem_fin, val_place]
  fin_cases r <;> rfl

theorem loadBlockXor_load (x y : Block) :
    loadBlockXor (load x) (fun _ ↦ y) = load (Block.xor x y) := by
  refine ext_register fun t r ↦ ?_
  rw [register_loadBlockXor, register_loadBlock, register_loadBlock, Block.xor]
  simp only [Fin.getElem_fin, Vector.getElem_zipWith]

/-- **The warp compresses as the standard does.** -/
theorem compress_load (dst : BlockL) (x y : Block) :
    blockLLoadXor (shuffleBlock (load (Block.xor x y))) (blockLStore dst (load (Block.xor x y))) =
      load (compress x y) := by
  refine ext_register fun t r ↦ ?_
  rw [register_blockLLoadXor, shuffleBlock_load, compress]
  generalize permuteColumns (permuteRows (Block.xor x y)) = z
  simp only [register_loadBlock, Block.xor, Fin.getElem_fin, Vector.getElem_zipWith]

end XNMiner.Device
