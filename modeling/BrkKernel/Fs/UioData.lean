import BrkKernel.Fs.Tmpfs
import BrkKernel.Fs.UioSafe

/-!
# Calls on user buffers and the contents of files

`Fs.Uio` leaves the bytes out and takes the errors of the pages as an input. Here its operations on
brkfs and tmpfs files are compared with the ones that move the bytes: whatever the state of the
file, there are errors of its pages with which the operation of `Fs.Uio` returns what the one of
`Mm` or `Tmpfs` returns. The operations on pipes are made of the sections of `Fs.Pipe` already.
-/

set_option autoImplicit false

namespace BrkKernel.Fs

open Lib Lib.ByteMem

/-! ## brkfs -/

/-- With errors of some pages, none of them before the first page, the loop over pages ends with
`err` and `total'`. -/
def LoopEnds (fuel pos size total : Nat) (err : Option Errno) (total' : Nat) : Prop :=
  ∃ pageErr : Nat → Option Errno, (∀ i < pos / pageSize, pageErr i = none) ∧
    ∀ buf, (pageLoop pageErr fuel pos size buf total).err = err ∧
      (pageLoop pageErr fuel pos size buf total).total = total'

section Loop

variable {fuel pos size total total' : Nat} {err : Option Errno}

theorem pageLoop_zero (pageErr : Nat → Option Errno) (buf : BitVec 64) :
    pageLoop pageErr fuel pos 0 buf total = ⟨[], total, none⟩ := by
  cases fuel with
  | zero => rfl
  | succ fuel => rfl

theorem LoopEnds.done : LoopEnds fuel pos 0 total none total := by
  refine ⟨fun _ => none, fun _ _ => rfl, fun buf => ?_⟩
  rw [pageLoop_zero]
  exact ⟨rfl, rfl⟩

theorem LoopEnds.fail (hsize : size ≠ 0) (e : Errno) :
    LoopEnds (fuel + 1) pos size total (some e) total := by
  refine ⟨fun i => if i < pos / pageSize then none else some e, fun i hi => if_pos hi,
    fun buf => ?_⟩
  rw [pageLoop, if_neg hsize, if_neg (lt_irrefl _)]
  exact ⟨rfl, rfl⟩

/-- The first page does not fail. -/
theorem LoopEnds.page (hsize : size ≠ 0)
    (h : LoopEnds fuel (pos + chunkLen pos size) (size - chunkLen pos size)
      (total + chunkLen pos size) err total') : LoopEnds (fuel + 1) pos size total err total' := by
  obtain ⟨pageErr, hbefore, h⟩ := h
  by_cases hrest : size - chunkLen pos size = 0
  · -- nothing is left, so no page fails
    obtain ⟨rfl, rfl⟩ := h 0
    refine ⟨fun _ => none, fun _ _ => rfl, fun buf => ?_⟩
    rw [pageLoop, if_neg hsize]
    simp only [hrest, pageLoop_zero, LoopEnd.cons, and_self]
  · have hlt : pos / pageSize < (pos + chunkLen pos size) / pageSize := by
      unfold chunkLen pageSize at *
      omega
    refine ⟨pageErr, fun i hi => hbefore i (hi.trans hlt), fun buf => ?_⟩
    rw [pageLoop, if_neg hsize, hbefore _ hlt]
    exact h _

/-- What is returned at the end of the loop. -/
theorem LoopEnds.ret (h : LoopEnds fuel pos size 0 err total') : ∃ pageErr, ∀ buf,
    (pageLoop pageErr fuel pos size buf 0).result.ret =
      some (err.elim (.ok total') fun e => if 0 < total' then .ok total' else .error e) := by
  obtain ⟨pageErr, -, h⟩ := h
  refine ⟨pageErr, fun buf => ?_⟩
  rw [LoopEnd.result, (h buf).1, (h buf).2]
  cases err with
  | some e => rfl
  | none =>
    cases total' with
    | zero => rfl
    | succ n => rfl

end Loop

section Brkfs

open Mm

variable {σ : Type} {fuel size pos total : Nat} {m : PageCache σ} {ops : InodeOps σ}

theorem fileReadLoop_ends (ops : PageCacheOps σ) (out : List UInt8) :
    LoopEnds fuel pos size out.length (fileReadLoop ops fuel m size pos out).1
      (fileReadLoop ops fuel m size pos out).2.1.length := by
  fun_induction fileReadLoop ops fuel m size pos out with
  | case1 => exact ⟨fun _ => none, fun _ _ => rfl, fun _ => ⟨rfl, rfl⟩⟩
  | case2 => exact .done
  | case3 _ _ _ _ _ hsize => exact .fail hsize _
  | case4 _ _ _ _ _ hsize _ _ _ _ _ ih =>
    rw [List.length_append, slice_length] at ih
    exact .page hsize ih

theorem fileWriteLoop_ends (buf : List UInt8) :
    LoopEnds fuel pos buf.length total (fileWriteLoop ops fuel m buf pos total).1
      (fileWriteLoop ops fuel m buf pos total).2.1 := by
  fun_induction fileWriteLoop ops fuel m buf pos total with
  | case1 => exact ⟨fun _ => none, fun _ _ => rfl, fun _ => ⟨rfl, rfl⟩⟩
  | case2 _ _ _ _ _ hsize =>
    rw [hsize]
    exact .done
  | case3 _ _ _ _ _ hsize => exact .fail hsize _
  | case4 _ _ _ _ _ hsize _ _ _ _ _ ih =>
    rw [List.length_drop] at ih
    exact .page hsize ih

/-- Below the wrap of the sum, `generic_file_read` returns the number of the bytes it copies. -/
theorem genericFileRead_ret (hsum : pos + size < 2 ^ 63) : ∃ pageErr, ∀ buf,
    (genericFileRead pageErr true (ops.isize m.host) pos buf size).ret =
      some ((Mm.genericFileRead ops m size pos).1.map List.length) := by
  have hint : (BitVec.ofNat 64 (pos + size)).toInt = ((pos + size : Nat) : Int) := by
    rw [BitVec.toInt_eq_toNat_cond, BitVec.toNat_ofNat]
    omega
  unfold genericFileRead Mm.genericFileRead
  simp only [hint, Nat.cast_lt, Bool.not_true, Bool.false_eq_true, if_false]
  split
  · exact ⟨fun _ => none, fun _ => rfl⟩
  generalize (if ops.isize m.host < pos + size then ops.isize m.host - pos else size) = n
  obtain ⟨pageErr, h⟩ := (fileReadLoop_ends ops.toPageCacheOps []).ret
  refine ⟨pageErr, fun buf => (h buf).trans ?_⟩
  generalize fileReadLoop ops.toPageCacheOps n m n pos [] = r
  rcases r with ⟨_ | e, out, m1⟩
  · rfl
  · simp only [Option.elim_some]
    split <;> rfl

/-- `generic_file_write`. -/
theorem genericFileWrite_ret (now : Int) (data : List UInt8) : ∃ pageErr, ∀ buf,
    (genericFileWrite pageErr true pos buf data.length).ret =
      some (Mm.genericFileWrite ops now m data pos).1 := by
  obtain ⟨pageErr, h⟩ := (fileWriteLoop_ends data).ret
  refine ⟨pageErr, fun buf => (h buf).trans ?_⟩
  rw [Mm.genericFileWrite]
  generalize fileWriteLoop ops data.length m data pos 0 = r
  rcases r with ⟨_ | e, total, m1⟩
  · rfl
  · rfl

end Brkfs

/-! ## tmpfs -/

section Tmpfs

variable {isize pos size fuel i : Nat} {ps : Tmpfs.PageSource} {chain : List ByteMem}

theorem tmpfsReadLoop_left (buf : BitVec 64) (data : ByteMem) :
    (tmpfsReadLoop isize buf chain.length pos size).2 =
      (Tmpfs.readLoop isize chain data size pos).2.1 := by
  induction chain generalizing data pos size with
  | nil => rfl
  | cons page next ih =>
    simp only [List.length_cons, tmpfsReadLoop, Tmpfs.readLoop]
    split
    next hend =>
      split
      · rfl
      next hmore =>
        rw [List.eq_nil_of_length_eq_zero (hend.resolve_left hmore)]
        rfl
    next hend =>
      rw [if_neg fun h => hend (.inl h)]
      exact ih _

/-- `tmpfs_file_read`. -/
theorem tmpfsFileRead_ret (s : Tmpfs.File) (data : ByteMem) (buf : BitVec 64) (size pos : Nat) :
    (tmpfsFileRead s.tInode.iSize s.tInode.iPage.length pos buf size).ret =
      some (Tmpfs.tmpfsFileRead s data size pos).1 := by
  unfold tmpfsFileRead Tmpfs.tmpfsFileRead Tmpfs.tmpfsReadFileAt Tmpfs.tmpfsInodeDataPageRo
  split
  · rfl
  split
  next hpages => rw [List.drop_eq_nil_of_le hpages]
  next hpages =>
    simp only [← List.length_drop, tmpfsReadLoop_left buf data]
    cases hdrop : s.tInode.iPage.drop (pos / pageSize) with
    | nil => exact absurd (List.drop_eq_nil_iff.1 hdrop) hpages
    | cons page next => rfl

/-- Without an error everything is written. -/
theorem writeLoop_left {buf : List UInt8} (hfuel : buf.length ≤ fuel)
    (h : (Tmpfs.writeLoop fuel ps chain i buf pos).ret = none) :
    (Tmpfs.writeLoop fuel ps chain i buf pos).left = 0 := by
  have hrest : ∀ {fuel pos : Nat} {buf : List UInt8}, buf.length ≤ fuel + 1 → buf.length ≠ 0 →
      (buf.drop (min (pageSize - pos % pageSize) buf.length)).length ≤ fuel := by
    intro fuel pos buf hfuel hsize
    rw [List.length_drop]
    unfold pageSize
    omega
  fun_induction Tmpfs.writeLoop fuel ps chain i buf pos with
  | case1 => exact Nat.le_zero.1 hfuel
  | case2 => rfl
  | case3 => rfl
  | case4 _ _ _ _ _ _ hsize _ _ _ _ _ _ ih => exact ih (hrest hfuel hsize) h
  | case5 => cases h
  | case6 _ _ _ _ _ _ hsize _ _ _ _ _ _ _ _ _ ih => exact ih (hrest hfuel hsize) h

/-- `tmpfs_file_write`. -/
theorem tmpfsFileWrite_ret (now : Int) (s : Tmpfs.File) (data : List UInt8) (pos : Nat) :
    ∃ pageErr, ∀ buf, (tmpfsFileWrite pageErr pos buf data.length).ret =
      some (Tmpfs.tmpfsFileWrite now s data pos).1 := by
  unfold Tmpfs.tmpfsFileWrite
  dsimp only
  split
  next e he => exact ⟨fun _ => some e, fun _ => rfl⟩
  next hnone =>
    have hleft : (Tmpfs.tmpfsWriteFileAt s.pages s.tInode.iPage data pos).left = 0 := by
      unfold Tmpfs.tmpfsWriteFileAt at hnone ⊢
      split at hnone
      · cases hnone
      · exact writeLoop_left le_rfl hnone
    refine ⟨fun _ => none, fun buf => ?_⟩
    obtain ⟨htotal, herr⟩ :=
      pageLoop_all (fun _ => none) (fun _ => rfl) data.length pos data.length buf 0 le_rfl
    simp only [tmpfsFileWrite, herr, htotal, Option.elim_none, hleft, Nat.sub_zero, zero_add]

end Tmpfs

end BrkKernel.Fs
