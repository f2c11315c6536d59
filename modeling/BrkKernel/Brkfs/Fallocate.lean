import BrkKernel.Brkfs.Persist

/-!
# What `fallocate` reserves

The loop of `brkfs_file_fallocate` goes from the offset in steps of one block. From an offset inside
a block it can step over the end of the range before it comes to the last block of the range, which
then stays a hole (`fallocate_misses_block`). `fallocate_reserves_iff` says when the whole range is
reserved. The bytes of the file are in any case what they were.
-/

set_option autoImplicit false

namespace BrkKernel.Brkfs

open Lib Lib.ByteMem

/-- The device block of file block `j`. -/
abbrev FsHost.blockAt (g : Geometry) (h : FsHost) (j : Nat) : Option Nat :=
  inodeWalk g h.vol.bd.data h.inode j

/-- A file on a volume that serves every request: its block map is its own and clean. -/
structure MapOk (g : Geometry) (h : FsHost) : Prop where
  ok : h.vol.Ok g
  owned : InodeOwned g h.vol h.inode
  clean : InodeClean g h.vol.bd.data h.inode

/-- The file got blocks: those that it had stay, and all its bytes are what they were. -/
structure Extended (g : Geometry) (h h' : FsHost) : Prop where
  map : MapOk g h'
  bytes : hostBytes g h' = hostBytes g h
  kept : ∀ j c, h.blockAt g j = some c → h'.blockAt g j = some c

section Reserve

variable {g : Geometry} {h h' h'' : FsHost} {nd : FsInode} {v : Vol} {off stop fuel j : Nat}

theorem Extended.refl (hh : MapOk g h) : Extended g h h := ⟨hh, rfl, fun _ _ => id⟩

theorem Extended.trans (h1 : Extended g h h') (h2 : Extended g h' h'') : Extended g h h'' :=
  ⟨h2.map, h2.bytes.trans h1.bytes, fun j c hc => h2.kept j c (h1.kept j c hc)⟩

/-- A hole gets a block of zeros. -/
theorem MapOk.fillHole {c : Nat} (hh : MapOk g h) (hhole : h.blockAt g (off / g.blocksize) = none)
    (hget : brkfsInodeGetblk h.vol h.inode off true = (.ok c, nd, v)) :
    ∃ w, kmalloc v = (true, v) ∧ brkfsBlockWrite v c (fun _ => 0) = (.ok (), w) ∧
      Extended g h ⟨w, nd⟩ ∧ ∀ j, FsHost.blockAt g ⟨w, nd⟩ j =
        if j = off / g.blocksize then some c else h.blockAt g j := by
  have hg := hh.ok.layout
  obtain ⟨res, nd', v', hrun, hgrow, hout⟩ := brkfsInodeGetblk_create hh.ok hh.owned off
  rw [hget] at hrun
  cases hrun
  have hok := hgrow.writes.ok hh.ok
  obtain ⟨hdata, -, hwalk⟩ := id hout
  have hwc : inodeWalk g v.bd.data nd (off / g.blocksize) = some c := by rw [hwalk, if_pos rfl]
  obtain ⟨hown, hclean, hbytes⟩ := fileByte_putBlock hh.ok hh.owned hgrow hout fun _ => 0
  have hf : Frame g (· = c) v (v.poke (c * g.blocksize) g.blocksize fun _ => 0) := frame_poke hg _
  have hblock := fun j => (((hgrow.owned hh.owned).write_leaf hg hwc hf).2.2 j).trans (hwalk j)
  refine ⟨_, kmalloc_eq hok, brkfsBlockWrite_eq hok (hg.isData_lt hdata) _,
    ⟨⟨hf.ok hok, hown, hclean hh.clean⟩, ?_, ?_⟩, hblock⟩
  · -- the bytes of a hole are zero already
    funext a
    refine (hbytes a).trans ?_
    split
    · next ha => exact (fileByte_of_none (by rw [ha]; exact hhole)).symm
    · rfl
  · intro j b hb
    have hj : j ≠ off / g.blocksize := by
      rintro rfl
      rw [hhole] at hb
      cases hb
    exact (hblock j).trans ((if_neg hj).trans hb)

/-- The blocks that a loop from `off` on visits. -/
def Visited (bs stop off j : Nat) : Prop := ∃ i, off + i * bs < stop ∧ j = off / bs + i

theorem visited_iff {bs : Nat} (hbs : 0 < bs) (hoff : off < stop) :
    Visited bs stop off j ↔ j = off / bs ∨ Visited bs stop (off + bs) j := by
  have hnext : (off + bs) / bs = off / bs + 1 := Nat.add_div_right off hbs
  constructor
  · rintro ⟨i, hi, rfl⟩
    cases i with
    | zero => exact .inl rfl
    | succ i =>
      rw [Nat.succ_mul] at hi
      exact .inr ⟨i, by omega, by omega⟩
  · rintro (rfl | ⟨i, hi, rfl⟩)
    · exact ⟨0, by omega, rfl⟩
    · refine ⟨i + 1, ?_, by omega⟩
      rw [Nat.succ_mul]
      omega

/-- When the loop succeeds, the file has the blocks that it had and those that were visited. -/
theorem fallocateLoop_spec (hstop : stop ≤ 2 ^ 32) (hh : MapOk g h) (hfuel : stop - off ≤ fuel)
    (hrun : fallocateLoop g.blocksize stop fuel h off = (.ok (), h')) :
    Extended g h h' ∧
      ∀ j, (h'.blockAt g j).isSome ↔ (h.blockAt g j).isSome ∨ Visited g.blocksize stop off j := by
  have hbs := hh.ok.layout.bs_pos
  induction fuel generalizing h off with
  | zero =>
    cases hrun
    refine ⟨.refl hh, fun j => (or_iff_left ?_).symm⟩
    rintro ⟨i, hi, -⟩
    omega
  | succ fuel ih =>
    rw [fallocateLoop] at hrun
    split at hrun
    · cases hrun
      refine ⟨.refl hh, fun j => (or_iff_left ?_).symm⟩
      rintro ⟨i, hi, -⟩
      omega
    next hoff =>
    have hget : _ = (Except.ok ((h.blockAt g (off / g.blocksize)).getD 0), _) :=
      brkfsInodeGetblk_read hh.ok hh.clean off (page_blkPos hh.ok.layout (by omega))
    rw [hget] at hrun
    simp only at hrun
    simp only [visited_iff hbs (Nat.lt_of_not_le hoff)]
    cases hc : h.blockAt g (off / g.blocksize) with
    | some c =>
      have hne := hh.ok.layout.isData_ne_zero (isData_of_inodeWalk hc)
      rw [hc, Option.getD_some, if_pos hne] at hrun
      obtain ⟨hext, hmap⟩ := ih hh (by omega) hrun
      refine ⟨hext, fun j => (hmap j).trans ?_⟩
      by_cases hj : j = off / g.blocksize
      · simp [hj, hc]
      · simp [hj]
    | none =>
      rw [hc, Option.getD_none, if_neg (fun hne => hne rfl)] at hrun
      split at hrun
      · cases hrun
      next hnew =>
        obtain ⟨w, hbuf, hzero, hext, hblock⟩ := hh.fillHole hc hnew
        simp only [hbuf, hzero] at hrun
        obtain ⟨hrest, hmap⟩ := ih hext.map (by omega) hrun
        refine ⟨hext.trans hrest, fun j => (hmap j).trans ?_⟩
        rw [hblock]
        by_cases hj : j = off / g.blocksize
        · simp [hj]
        · simp [hj]

/-- The end of the call changes neither the block map nor the bytes. -/
theorem fallocateDone_spec (now : Int) (mode stop : Nat) (hh : MapOk g h) :
    hostBytes g (fallocateDone now mode stop h).2 = hostBytes g h ∧
      ∀ j, (fallocateDone now mode stop h).2.blockAt g j = h.blockAt g j := by
  unfold fallocateDone
  generalize hnd : (if mode &&& fallocFlKeepSize = 0 ∧ h.inode.size < stop then
    { h.inode with size := stop, mtime := now, ctime := now } else h.inode) = nd
  have hslots : ∀ s < nrBlockPtrs, nd.iBlock s = h.inode.iBlock s := by
    intro s _
    rw [← hnd]
    split <;> rfl
  have hf := (brkfsInodeWrite_frame hh.ok nd).1
  have hM : ∀ y, InodeInner g h.vol.bd.data nd y → ¬ g.IsInodeTable y := fun y hy =>
    inodeTable_not_data (isData_of_inodeInner hy)
  have hwalk : ∀ j, inodeWalk g (brkfsInodeWrite h.vol nd).2.bd.data nd j =
      inodeWalk g h.vol.bd.data h.inode j := fun j =>
    (inodeWalk_of_frame hM hf j).trans (inodeWalk_slots hslots _ j)
  refine ⟨?_, hwalk⟩
  funext a
  exact fileByte_of_frame hh.ok.layout hf (hwalk _) fun c hc =>
    inodeTable_not_data (isData_of_inodeWalk hc)

variable {s s' : FileState} {now : Int} {mode offset len : Nat}

/-- A call that succeeds. -/
theorem brkfsFileFallocate_spec (hh : MapOk g s.cache.host)
    (hrun : brkfsFileFallocate now s mode offset len = (.ok (), s')) :
    0 < len ∧ hostBytes g s'.cache.host = hostBytes g s.cache.host ∧
      (∀ j c, s.cache.host.blockAt g j = some c → s'.cache.host.blockAt g j = some c) ∧
      ∀ j, (s'.cache.host.blockAt g j).isSome ↔ (s.cache.host.blockAt g j).isSome ∨
        Visited g.blocksize (offset + len) offset j := by
  have hstop : ((offset : Int) + len).toNat = offset + len := by omega
  have hoff : (offset : Int).toNat = offset := Int.toNat_natCast offset
  simp only [brkfsFileFallocate, hstop, hoff, hh.ok.bs] at hrun
  split at hrun
  · cases hrun
  split at hrun
  · cases hrun
  split at hrun
  · cases hrun
  split at hrun
  · cases hrun
  split at hrun
  · cases hrun
  next hloop =>
    obtain ⟨hext, hmap⟩ := fallocateLoop_spec (by omega) hh (by omega) hloop
    obtain ⟨hbytes, hblock⟩ := fallocateDone_spec now mode (offset + len) hext.map
    obtain rfl := (Prod.mk.inj hrun).2
    refine ⟨by omega, hbytes.trans hext.bytes, fun j c hc => ?_, fun j => ?_⟩
    · exact (hblock j).trans (hext.kept j c hc)
    · rw [← hmap, ← hblock]
      rfl

/-- A call that succeeds leaves every byte of the file as it was, and the blocks that were there. It
has reserved every block of its range exactly if the last one is visited or was there: the offset
and the last byte of the length, both inside their blocks, do not add up to a block. -/
theorem fallocate_reserves_iff (hh : MapOk g s.cache.host)
    (hrun : brkfsFileFallocate now s mode offset len = (.ok (), s')) :
    (hostBytes g s'.cache.host = hostBytes g s.cache.host ∧
      ∀ j c, s.cache.host.blockAt g j = some c → s'.cache.host.blockAt g j = some c) ∧
    ((∀ j, j * g.blocksize < offset + len → offset < (j + 1) * g.blocksize →
      (s'.cache.host.blockAt g j).isSome) ↔
    offset % g.blocksize + (len - 1) % g.blocksize < g.blocksize ∨
      (s.cache.host.blockAt g ((offset + len - 1) / g.blocksize)).isSome) := by
  obtain ⟨hlen, hbytes, hkept, hmap⟩ := brkfsFileFallocate_spec hh hrun
  refine ⟨⟨hbytes, hkept⟩, ?_⟩
  have hbs := hh.ok.layout.bs_pos
  have hlast : (offset + len - 1) / g.blocksize = offset / g.blocksize + (len - 1) / g.blocksize +
      if g.blocksize ≤ offset % g.blocksize + (len - 1) % g.blocksize then 1 else 0 := by
    rw [← Nat.add_div hbs, Nat.add_sub_assoc hlen]
  constructor
  · intro hall
    have hsome := hall ((offset + len - 1) / g.blocksize)
      (lt_of_le_of_lt (Nat.div_mul_le_self _ _) (by omega))
      (lt_of_le_of_lt (by omega) (Nat.lt_div_mul_add hbs |>.trans_eq (Nat.succ_mul _ _).symm))
    refine ((hmap _).1 hsome).symm.imp_left ?_
    rintro ⟨i, hi, heq⟩
    have hle : i ≤ (len - 1) / g.blocksize := (Nat.le_div_iff_mul_le hbs).2 (by omega)
    by_contra hcarry
    rw [hlast, if_pos (Nat.le_of_not_lt hcarry)] at heq
    omega
  · intro hcond j hj hoff
    have hfirst : offset / g.blocksize ≤ j := Nat.le_of_lt_succ (Nat.div_lt_of_lt_mul (by
      rw [mul_comm]; exact hoff))
    have hupper : j ≤ (offset + len - 1) / g.blocksize := (Nat.le_div_iff_mul_le hbs).2 (by omega)
    refine (hmap j).2 ?_
    by_cases hin : j ≤ offset / g.blocksize + (len - 1) / g.blocksize
    · right
      refine ⟨j - offset / g.blocksize, ?_, by omega⟩
      have hle : (j - offset / g.blocksize) * g.blocksize ≤ len - 1 :=
        (Nat.le_div_iff_mul_le hbs).1 (by omega)
      omega
    · left
      split at hlast
      · obtain rfl : j = (offset + len - 1) / g.blocksize := by omega
        exact hcond.resolve_left (by omega)
      · omega

end Reserve

theorem tinyFile_mapOk : MapOk tinySuper.geom tinyFile.cache.host := by
  have hfresh : InodeOwned tinySuper.geom tinyVol (emptyInode 1 0o100644) ∧ _ :=
    inode_fresh tinyVol_ok.layout fun _ _ => rfl
  exact ⟨tinyVol_ok, hfresh.1, hfresh.2.1⟩

theorem fallocate_reserves_iff_first : ∃ s', brkfsFileFallocate 0 tinyFile 0 0 1 = (.ok (), s') ∧
    (s'.cache.host.blockAt tinySuper.geom 0).isSome := by
  have hrun : brkfsFileFallocate 0 tinyFile 0 (0 : Nat) (1 : Nat) =
      (.ok (), (brkfsFileFallocate 0 tinyFile 0 (0 : Nat) (1 : Nat)).2) := rfl
  exact ⟨_, hrun, (fallocate_reserves_iff tinyFile_mapOk hrun).2.2 (.inl (by decide)) 0 (by decide)
    (by decide)⟩

/-- Two bytes around the end of the first block: the second block stays a hole. -/
theorem fallocate_misses_block : ∃ s', brkfsFileFallocate 0 tinyFile 0 1023 2 = (.ok (), s') ∧
    s'.cache.host.blockAt tinySuper.geom 1 = none := by
  have hrun : brkfsFileFallocate 0 tinyFile 0 (1023 : Nat) (2 : Nat) =
      (.ok (), (brkfsFileFallocate 0 tinyFile 0 (1023 : Nat) (2 : Nat)).2) := rfl
  refine ⟨_, hrun, ?_⟩
  have hmap := (brkfsFileFallocate_spec tinyFile_mapOk hrun).2.2.2 1
  rw [← Option.not_isSome_iff_eq_none, hmap]
  rintro (hold | ⟨i, hi, hj⟩)
  · cases hold
  · have hbs : tinySuper.geom.blocksize = 1024 := rfl
    rw [hbs] at hi hj
    omega

end BrkKernel.Brkfs
