import BrkKernel.Brkfs.Addressing
import BrkKernel.Brkfs.FileRefine
import BrkKernel.Mm.PageCacheKeep

/-!
# What the on-disk inode keeps

`brkfs_inode_write` stores the size and the seconds of the times in 32 bits. An inode is read back
as it was exactly when its size is below `2 ^ 32` and its times lie in the first `2 ^ 32` seconds;
writes, changes of attributes and `brkfs_file_fallocate` keep an inode so as long as they are
asked for positions, sizes and times in this range (`inode_persists`).
-/

set_option autoImplicit false

namespace BrkKernel.Brkfs

open Lib Lib.ByteMem Mm

/-! ## `fallocate` -/

/-- `FALLOC_FL_KEEP_SIZE`. -/
def fallocFlKeepSize : Nat := 1

/-- The loop of `brkfs_file_fallocate` up to the offset `stop`. -/
def fallocateLoop (bs stop : Nat) : Nat → FsHost → Nat → Except Errno Unit × FsHost
  | 0, h, _ => (.ok (), h)
  | fuel + 1, h, off =>
    if stop ≤ off then (.ok (), h)
    else
      match brkfsInodeGetblk h.vol h.inode off false with
      | (.error e, nd, v) => (.error e, ⟨v, nd⟩)
      | (.ok bno, nd, v) =>
        if bno ≠ 0 then fallocateLoop bs stop fuel ⟨v, nd⟩ (off + bs)
        else
          match brkfsInodeGetblk v nd off true with
          | (.error e, nd1, v1) => (.error e, ⟨v1, nd1⟩)
          | (.ok bno, nd1, v1) =>
            match kmalloc v1 with
            | (false, v2) => (.error .enomem, ⟨v2, nd1⟩)
            | (true, v2) =>
              match brkfsBlockWrite v2 bno fun _ => 0 with
              | (.error e, v3) => (.error e, ⟨v3, nd1⟩)
              | (.ok (), v3) => fallocateLoop bs stop fuel ⟨v3, nd1⟩ (off + bs)

/-- The new size and `brkfs_inode_write` at the end of `brkfs_file_fallocate`. -/
def fallocateDone (now : Int) (mode stop : Nat) (h : FsHost) : Except Errno Unit × FsHost :=
  let nd := if mode &&& fallocFlKeepSize = 0 ∧ h.inode.size < stop then
      { h.inode with size := stop, mtime := now, ctime := now }
    else h.inode
  ((brkfsInodeWrite h.vol nd).1, ⟨(brkfsInodeWrite h.vol nd).2, nd⟩)

/-- `brkfs_file_fallocate` at time `now`. -/
def brkfsFileFallocate (now : Int) (s : FileState) (mode : Nat) (offset len : Int) :
    Except Errno Unit × FileState :=
  let h := s.cache.host
  if mode ||| fallocFlKeepSize ≠ fallocFlKeepSize then (.error .eopnotsupp, s)
  else if !sIsReg h.inode.mode then (.error .einval, s)
  else if offset < 0 ∨ len ≤ 0 then (.error .einval, s)
  else if offset + len > 0xffffffff then (.error .efbig, s)
  else
    let stop := (offset + len).toNat
    match fallocateLoop h.vol.sb.sBlocksize stop stop h offset.toNat with
    | (.error e, h1) => (.error e, s.setHost h1)
    | (.ok (), h1) =>
      ((fallocateDone now mode stop h1).1, s.setHost (fallocateDone now mode stop h1).2)

/-! ## The round trip -/

/-- An inode whose fields other than the size and the times fit their types. -/
structure CInode extends FsInode where
  ino_lt : ino < 4294967296
  mode_lt : mode < 4294967296
  rdev_lt : rdev < 4294967296
  nlink_lt : nlink < 4294967296
  uid_lt : uid < 4294967296
  gid_lt : gid < 4294967296
  iBlock_lt : ∀ i, iBlock i < 4294967296
  iNextOrphan_lt : iNextOrphan < 4294967296

/-- The two inodes agree in what is stored of them. -/
structure FsInode.Same (nd nd' : FsInode) : Prop where
  size : nd'.size = nd.size
  mode : nd'.mode = nd.mode
  rdev : nd'.rdev = nd.rdev
  nlink : nd'.nlink = nd.nlink
  uid : nd'.uid = nd.uid
  gid : nd'.gid = nd.gid
  iBlock : ∀ i < nrBlockPtrs, nd'.iBlock i = nd.iBlock i
  iNextOrphan : nd'.iNextOrphan = nd.iNextOrphan
  atime : nd'.atime = nd.atime
  mtime : nd'.mtime = nd.mtime
  ctime : nd'.ctime = nd.ctime

/-- A time in the first `2 ^ 32` seconds. -/
def TimeFits (t : Int) : Prop := 0 ≤ t ∧ t < 4294967296 * nsPerSec

instance (t : Int) : Decidable (TimeFits t) := inferInstanceAs (Decidable (_ ∧ _))

/-- The size and the times of an inode fit their fields on the device. -/
structure FsInode.Encodable (nd : FsInode) : Prop where
  size : nd.size < 4294967296
  atime : TimeFits nd.atime
  mtime : TimeFits nd.mtime
  ctime : TimeFits nd.ctime

section RoundTrip

variable {v v' : Vol} {nd : FsInode}

theorem u32OfInt_eq (z : Int) : (u32OfInt z : Int) = z % 4294967296 :=
  Int.toNat_of_nonneg (Int.emod_nonneg z (by decide))

/-- A time that is cut to 32 bits of seconds and nanoseconds is the same exactly if it fits. -/
theorem time_eq_iff (t : Int) :
    (u32OfInt (t.tdiv nsPerSec) * nsPerSec + u32OfInt (t.tmod nsPerSec) : Int) = t ↔
      TimeFits t := by
  rcases Int.lt_or_le t 0 with hneg | hpos
  · have hs : (0 : Int) ≤ u32OfInt (t.tdiv nsPerSec) * nsPerSec := by
      refine Int.mul_nonneg (Int.natCast_nonneg _) (by decide)
    unfold TimeFits
    constructor
    · intro h
      omega
    · intro h
      omega
  have hsplit := Int.mul_tdiv_add_tmod t nsPerSec
  have hn := Int.tmod_nonneg nsPerSec hpos
  have hlt := Int.tmod_lt_of_pos t (show 0 < nsPerSec by decide)
  have hns : nsPerSec = 1000000000 := rfl
  rw [u32OfInt_eq, u32OfInt_eq]
  unfold TimeFits
  generalize t.tmod nsPerSec = n at hsplit hn hlt ⊢
  rw [hns] at hlt hsplit ⊢
  omega

/-- The stored inode is the same exactly if the size and the times fit. -/
theorem same_stored_iff (nd : CInode) :
    nd.toFsInode.Same nd.toFsInode.stored ↔ nd.toFsInode.Encodable := by
  constructor
  · intro h
    refine ⟨?_, (time_eq_iff _).1 h.atime, (time_eq_iff _).1 h.mtime, (time_eq_iff _).1 h.ctime⟩
    have hsize : u32 nd.size = nd.size := h.size
    rw [← hsize]
    exact u32_lt _
  · intro h
    refine ⟨u32_of_lt h.size, u32_of_lt nd.mode_lt, u32_of_lt nd.rdev_lt, u32_of_lt nd.nlink_lt,
      u32_of_lt nd.uid_lt, u32_of_lt nd.gid_lt, ?_, u32_of_lt nd.iNextOrphan_lt,
      (time_eq_iff _).2 h.atime, (time_eq_iff _).2 h.mtime, (time_eq_iff _).2 h.ctime⟩
    intro i hi
    show (if i < nrBlockPtrs then u32 (nd.iBlock i) else 0) = nd.iBlock i
    rw [if_pos hi]
    exact u32_of_lt (nd.iBlock_lt i)

end RoundTrip

/-! ## What changes the size and the times -/

section Changes

variable {v : Vol} {nd : FsInode} {h : FsHost} (bs off k boff : Nat) (data : ByteMem)

/-- The inodes differ in block pointers at most. -/
def FsInode.SameButBlocks (nd nd' : FsInode) : Prop := ∃ f, nd' = { nd with iBlock := f }

theorem FsInode.SameButBlocks.refl (nd : FsInode) : nd.SameButBlocks nd := ⟨nd.iBlock, rfl⟩

theorem FsInode.SameButBlocks.setBlock (nd : FsInode) (i b : Nat) :
    nd.SameButBlocks (nd.setBlock i b) :=
  ⟨_, rfl⟩

theorem FsInode.SameButBlocks.trans {nd1 nd2 nd3 : FsInode} (h1 : nd1.SameButBlocks nd2)
    (h2 : nd2.SameButBlocks nd3) : nd1.SameButBlocks nd3 := by
  obtain ⟨f, rfl⟩ := h1
  obtain ⟨g, rfl⟩ := h2
  exact ⟨g, rfl⟩

theorem FsInode.SameButBlocks.encodable {nd nd' : FsInode} (h : nd.SameButBlocks nd')
    (he : nd.Encodable) : nd'.Encodable := by
  obtain ⟨f, rfl⟩ := h
  exact ⟨he.size, he.atime, he.mtime, he.ctime⟩

theorem brkfsGetblkIndirect_inode (v : Vol) (nd : FsInode) (l idx : Nat) (create : Bool) :
    nd.SameButBlocks (brkfsGetblkIndirect v nd l idx create).2.1 := by
  unfold brkfsGetblkIndirect
  split
  · exact .refl nd
  · exact .setBlock nd _ _

/-- `brkfs_inode_getblk` changes block pointers only. -/
theorem brkfsInodeGetblk_inode {nd' : FsInode} {v' : Vol} {off : Nat} {create : Bool}
    {r : Except Errno Nat} (hget : brkfsInodeGetblk v nd off create = (r, nd', v')) :
    nd.SameButBlocks nd' := by
  suffices h : nd.SameButBlocks (brkfsInodeGetblk v nd off create).2.1 by
    rw [hget] at h
    exact h
  unfold brkfsInodeGetblk
  simp only
  split
  · split
    · split
      · exact .refl nd
      split
      · exact .refl nd
      · exact .setBlock nd _ _
    · split
      · exact .refl nd
      · exact .refl nd
  · split
    · exact .refl nd
    split
    · exact brkfsGetblkIndirect_inode _ _ _ _ _
    · split
      · exact brkfsGetblkIndirect_inode _ _ _ _ _
      · exact brkfsGetblkIndirect_inode _ _ _ _ _

theorem fileReadBlocks_inode (h : FsHost) :
    h.inode.SameButBlocks (fileReadBlocks bs off k boff data h).2.2.inode := by
  induction k generalizing boff data h with
  | zero => exact .refl _
  | succ k ih =>
    unfold fileReadBlocks
    split
    · next hc => exact brkfsInodeGetblk_inode hc
    next hc =>
      have hget := brkfsInodeGetblk_inode hc
      split
      · exact hget.trans (ih _ _ _)
      split
      · exact hget
      · exact hget.trans (ih _ _ _)

theorem fileWriteBlocks_inode (h : FsHost) :
    h.inode.SameButBlocks (fileWriteBlocks bs off k boff data h).2.2.inode := by
  induction k generalizing boff data h with
  | zero => exact .refl _
  | succ k ih =>
    unfold fileWriteBlocks
    split
    · exact .refl _
    split
    · next hc => exact brkfsInodeGetblk_inode hc
    next hc =>
      have hget := brkfsInodeGetblk_inode hc
      split
      · exact hget
      simp only
      split
      · exact hget
      · exact hget.trans (ih _ _ _)

/-- Reading and writing back pages keeps the size and the times. -/
theorem brkfsFile_keeps : Keeps brkfsFilePcOps.toPageCacheOps fun h => h.inode.Encodable where
  alloc h hh := hh
  readPage h i data hh := by
    show (brkfsFileReadPage h i data).2.2.inode.Encodable
    unfold brkfsFileReadPage
    simp only
    split
    · exact hh
    · exact (fileReadBlocks_inode _ _ _ _ _ h).encodable hh
  writePage h i data hh := by
    show (brkfsFileWritePage h i data).2.2.inode.Encodable
    unfold brkfsFileWritePage
    simp only
    split
    · exact hh
    have hw := (fileWriteBlocks_inode h.vol.sb.sBlocksize (i * pageSize)
      (pageSize / h.vol.sb.sBlocksize) 0 data h).encodable hh
    split
    · next hc => rwa [hc] at hw
    · next hc => rwa [hc] at hw

theorem fallocateLoop_inode (bs stop fuel off : Nat) (h : FsHost) :
    h.inode.SameButBlocks (fallocateLoop bs stop fuel h off).2.inode := by
  induction fuel generalizing off h with
  | zero => exact .refl _
  | succ fuel ih =>
    unfold fallocateLoop
    split
    · exact .refl _
    split
    · next hc => exact brkfsInodeGetblk_inode hc
    next hc =>
      have hget := brkfsInodeGetblk_inode hc
      split
      · exact hget.trans (ih _ _)
      split
      · next hc' => exact hget.trans (brkfsInodeGetblk_inode hc')
      next hc' =>
        have hnew := hget.trans (brkfsInodeGetblk_inode hc')
        split
        · exact hnew
        split
        · exact hnew
        · exact hnew.trans (ih _ _)

theorem truncateDirect_inode (newN n : Nat) (st : FsInode × Vol) :
    st.1.SameButBlocks ((List.range n).foldl (truncateDirect newN) st).1 := by
  refine foldl_range (P := fun _ (x : FsInode × Vol) => st.1.SameButBlocks x.1) (.refl _) ?_
  intro bi x _ h
  unfold truncateDirect
  split
  · exact h
  simp only
  split
  · exact h.trans (.setBlock _ _ _)
  · exact h

theorem truncateLevel_inode (ptrs freeFrom n : Nat) (st : FsInode × Vol × Nat) :
    st.1.SameButBlocks ((List.range n).foldl (truncateLevel ptrs freeFrom) st).1 := by
  refine foldl_range (P := fun _ (x : FsInode × Vol × Nat) => st.1.SameButBlocks x.1) (.refl _) ?_
  intro k x _ h
  unfold truncateLevel
  simp only
  split
  · exact h.trans (.setBlock _ _ _)
  · exact h

/-- `brkfs_truncate_inode_blocks` sets the size that it is given. -/
theorem brkfsTruncateInodeBlocks_encodable {newSize : Int} (he : nd.Encodable)
    (hsize : newSize < 4294967296) : (brkfsTruncateInodeBlocks v nd newSize).2.1.Encodable := by
  unfold brkfsTruncateInodeBlocks
  simp only
  split
  · exact he
  split
  · exact ⟨by show newSize.toNat < 4294967296; omega, he.atime, he.mtime, he.ctime⟩
  generalize hnew : (newSize.toNat + v.sb.sBlocksize - 1) / v.sb.sBlocksize = newN
  have h1 := truncateDirect_inode newN directBlocks (nd, v)
  obtain ⟨-, ha, hm, hc⟩ := (h1.trans (truncateLevel_inode _ _ 3 (_, _, 0))).encodable he
  exact ⟨by show newSize.toNat < 4294967296; omega, ha, hm, hc⟩

end Changes

/-! ## Runs -/

/-- A call that changes a file, with the time of the clock at the call. -/
inductive FileCall where
  | write (now : Int) (buf : List UInt8) (pos : Nat)
  | setattr (now : Int) (attr : FsIattr)
  | fallocate (now : Int) (mode : Nat) (offset len : Int)
  | flush

/-- The file after a call. -/
def FileCall.exec (s : FileState) : FileCall → FileState
  | .write now buf pos => (brkfsFileWrite now s buf pos).2
  | .setattr now attr => (brkfsSetattr now s attr).2
  | .fallocate now mode offset len => (brkfsFileFallocate now s mode offset len).2
  | .flush => s.flush.2

/-- Whether the call succeeds. -/
def FileCall.Succeeds (s : FileState) : FileCall → Prop
  | .write now buf pos => ∃ n, (brkfsFileWrite now s buf pos).1 = .ok n
  | .setattr now attr => (brkfsSetattr now s attr).1 = .ok ()
  | .fallocate now mode offset len => (brkfsFileFallocate now s mode offset len).1 = .ok ()
  | .flush => s.flush.1 = .ok ()

/-- The call is asked for positions, sizes and times that fit. -/
def FileCall.InRange : FileCall → Prop
  | .write now buf pos => TimeFits now ∧ pos + buf.length < 4294967296
  | .setattr now attr => TimeFits now ∧ (∀ n, attr.size = some n → n < 4294967296) ∧
      (∀ t, attr.atime = some t → TimeFits t) ∧ ∀ t, attr.mtime = some t → TimeFits t
  | .fallocate now _ _ _ => TimeFits now
  | .flush => True

/-- A step of a file: any call. -/
def CallStep (s s' : FileState) : Prop := ∃ c : FileCall, c.Succeeds s ∧ s' = c.exec s

/-- A step of a file with a call in range, whatever it returns. -/
def CallStepInRange (s s' : FileState) : Prop := ∃ c : FileCall, c.InRange ∧ s' = c.exec s

section Runs

variable {s s' : FileState} {now : Int} {attr : FsIattr}

theorem write_encodable {buf : List UInt8} {pos : Nat}
    (hr : (FileCall.write now buf pos).InRange) (he : s.cache.host.inode.Encodable) :
    (brkfsFileWrite now s buf pos).2.cache.host.inode.Encodable := by
  unfold brkfsFileWrite
  split
  · refine brkfsFile_keeps.write 4294967295 ?_ ?_ buf pos (Nat.le_of_lt_succ hr.2) he
    · intro h n hh hn
      exact ⟨Nat.lt_succ_of_le hn, hh.atime, hh.mtime, hh.ctime⟩
    · intro h hh
      exact ⟨hh.size, hh.atime, hr.1, hh.ctime⟩
  · exact he

theorem setattrMeta_encodable {nd : FsInode}
    (hr : (FileCall.setattr now attr).InRange) (he : nd.Encodable) :
    (setattrMeta now nd attr).Encodable := by
  obtain ⟨hnow, -, hatime, hmtime⟩ := hr
  have hgetD : ∀ (o : Option Int) (t : Int), TimeFits t → (∀ t', o = some t' → TimeFits t') →
      TimeFits (o.getD t) := by
    intro o t ht ho
    cases o with
    | none => exact ht
    | some t' => exact ho t' rfl
  have htimes : ∀ nd2 : FsInode, nd2.Encodable →
      (if attr.atime.isSome || attr.mtime.isSome || attr.ctime.isSome then
        { nd2 with
          atime := attr.atime.getD nd2.atime, mtime := attr.mtime.getD nd2.mtime, ctime := now }
      else nd2).Encodable := by
    intro nd2 h2
    split
    · exact ⟨h2.size, hgetD _ _ h2.atime hatime, hgetD _ _ h2.mtime hmtime, hnow⟩
    · exact h2
  have howner : ∀ nd1 : FsInode, nd1.Encodable →
      (if attr.uid.isSome || attr.gid.isSome then
        { nd1 with
          uid := attr.uid.getD nd1.uid
          gid := attr.gid.getD nd1.gid
          mode := nd1.mode &&& (0xffffffff - 0o6000)
          ctime := now }
      else nd1).Encodable := by
    intro nd1 h1
    split
    · exact ⟨h1.size, h1.atime, h1.mtime, hnow⟩
    · exact h1
  unfold setattrMeta
  cases attr.mode with
  | none => exact htimes _ (howner _ he)
  | some m => exact htimes _ (howner _ ⟨he.size, he.atime, he.mtime, hnow⟩)

section

variable (he : s.cache.host.inode.Encodable)

include he

theorem flush_encodable : s.flush.2.cache.host.inode.Encodable := by
  unfold FileState.flush
  split
  · exact brkfsFile_keeps.flush he
  · exact he

theorem setattrPages_encodable (size : Int) :
    (setattrPages s size).2.cache.host.inode.Encodable := by
  unfold setattrPages
  split
  · have ht := brkfsFile_keeps.truncate he size
    split
    · next hc => rwa [hc] at ht
    · next hc =>
        rw [hc] at ht
        exact flush_encodable ht
  · exact he

theorem setattrSize_encodable {now size : Int} (hnow : TimeFits now) (hsize : size < 4294967296) :
    (setattrSize now s size).2.cache.host.inode.Encodable := by
  have hp := setattrPages_encodable he size
  unfold setattrSize
  split
  · next hc => rwa [hc] at hp
  next s1 hc =>
    rw [hc] at hp
    have ht := brkfsTruncateInodeBlocks_encodable (v := s1.cache.host.vol) hp hsize
    split
    · next hb => rwa [hb] at ht
    · next hb =>
        rw [hb] at ht
        exact ⟨ht.size, ht.atime, hnow, hnow⟩

theorem setattr_encodable (hr : (FileCall.setattr now attr).InRange) :
    (brkfsSetattr now s attr).2.cache.host.inode.Encodable := by
  have hmeta := setattrMeta_encodable hr he
  unfold brkfsSetattr
  cases hsize : attr.size with
  | none => exact hmeta
  | some size =>
    have hs := setattrSize_encodable
      (s := s.setHost { s.cache.host with inode := setattrMeta now s.cache.host.inode attr })
      hmeta hr.1 (hr.2.1 size hsize)
    simp only
    split
    · next hc => rwa [hc] at hs
    · next hc => rwa [hc] at hs

theorem fallocate_encodable {now offset len : Int} {mode : Nat} (hnow : TimeFits now) :
    (brkfsFileFallocate now s mode offset len).2.cache.host.inode.Encodable := by
  unfold brkfsFileFallocate
  simp only
  split
  · exact he
  split
  · exact he
  split
  · exact he
  split
  · exact he
  rename_i hbig
  have hloop := fallocateLoop_inode s.cache.host.vol.sb.sBlocksize (offset + len).toNat
    (offset + len).toNat offset.toNat s.cache.host
  have hk := hloop.encodable he
  split
  · next hc => rwa [hc] at hk
  next hc =>
    rw [hc] at hk
    simp only [fallocateDone, FileState.setHost]
    split
    · exact ⟨by show (offset + len).toNat < 4294967296; omega, hk.atime, hnow, hnow⟩
    · exact hk

/-- A call in range keeps the size and the times in range. -/
theorem FileCall.InRange.encodable {c : FileCall} (hr : c.InRange) :
    (c.exec s).cache.host.inode.Encodable := by
  cases c with
  | write now buf pos => exact write_encodable hr he
  | setattr now attr => exact setattr_encodable he hr
  | fallocate now mode offset len => exact fallocate_encodable he hr
  | flush => exact flush_encodable he

end

end Runs

/-- **What the on-disk inode keeps.** An inode that `brkfs_inode_write` wrote is read back with the
same size, mode, numbers, block pointers and times exactly when its size is below `2 ^ 32` and its
times are in the first `2 ^ 32` seconds. A run of calls in range keeps it so. -/
theorem inode_persists (v v' : Vol) (nd : CInode) (s s' : FileState) :
    (brkfsInodeWrite v nd.toFsInode = (.ok (), v') → v'.tick.1 = none →
      ((∃ nd', (brkfsInodeRead v' nd.ino).1 = .ok nd' ∧ nd.toFsInode.Same nd') ↔
        nd.toFsInode.Encodable)) ∧ (Run CallStepInRange s s' → s.cache.host.inode.Encodable →
      s'.cache.host.inode.Encodable) := by
  refine ⟨?_, ?_⟩
  · intro hwrite htick
    have hread := brkfsInodeRead_stored nd.ino_lt hwrite htick
    rw [← same_stored_iff]
    constructor
    · rintro ⟨nd', hok, hsame⟩
      rw [hread] at hok
      cases hok
      exact hsame
    · intro hsame
      exact ⟨_, hread, hsame⟩
  · intro hrun he
    refine Run.invariant (P := fun s => s.cache.host.inode.Encodable) ?_ hrun he
    rintro s1 s2 ⟨c, hr, rfl⟩ h1
    exact hr.encodable h1

/-- An empty regular file on the tiny volume. -/
def tinyFile : FileState := ⟨pageCacheCreate ⟨tinyVol, emptyInode 1 0o100644⟩, true⟩

/-- The inode of a regular file with the given size and without blocks. -/
def sizedInode (n : Nat) : FsInode := { emptyInode 1 0o100644 with size := n }

/-- `ATTR_SIZE` with the given size. -/
def sizeAttr (n : Nat) : FsIattr := ⟨none, none, none, some n, none, none, none⟩

/-- Growing the empty file is a write of its inode. -/
theorem brkfsSetattr_grow {n : Nat} (hn : n = 4096 ∨ n = 4294967296) :
    (brkfsSetattr 0 tinyFile (sizeAttr n)).1 = (brkfsInodeWrite tinyVol (sizedInode n)).1 ∧
    (brkfsSetattr 0 tinyFile (sizeAttr n)).2.cache.host =
      ⟨(brkfsInodeWrite tinyVol (sizedInode n)).2, sizedInode n⟩ := by
  rcases hn with rfl | rfl
  · exact ⟨rfl, rfl⟩
  · exact ⟨rfl, rfl⟩

/-- The inode is written, and can be written again. -/
theorem sizedInode_written (n : Nat) : (brkfsInodeWrite tinyVol (sizedInode n)).1 = .ok () ∧
    ∃ v', brkfsInodeWrite (brkfsInodeWrite tinyVol (sizedInode n)).2 (sizedInode n) = (.ok (), v') ∧
      v'.tick.1 = none := by
  have hok := (brkfsInodeWrite_frame tinyVol_ok (sizedInode n)).1.ok tinyVol_ok
  have hfault := ((brkfsInodeWrite_frame hok (sizedInode n)).1.ok hok).noFault
  rw [@brkfsInodeWrite_eq _ _ (sizedInode n) 1 tinyVol_ok rfl (by decide) (by decide)]
    at hok hfault ⊢
  rw [@brkfsInodeWrite_eq _ _ (sizedInode n) 1 hok rfl (by decide) (by decide)] at hfault ⊢
  refine ⟨rfl, _, rfl, ?_⟩
  unfold Vol.tick
  rw [hfault]

/-- The inode of a regular file of one page. -/
def tinyInode : CInode where
  toFsInode := sizedInode 4096
  ino_lt := by decide
  mode_lt := by decide
  rdev_lt := by decide
  nlink_lt := by decide
  uid_lt := by decide
  gid_lt := by decide
  iBlock_lt _ := show 0 < 4294967296 by decide
  iNextOrphan_lt := by decide

/-- Growing a file to 4096 bytes succeeds, and its inode is read back with this size. -/
theorem inode_persists_tiny : ∃ s v', Run CallStepInRange tinyFile s ∧
    s.cache.host.inode = tinyInode.toFsInode ∧
    brkfsInodeWrite s.cache.host.vol tinyInode.toFsInode = (.ok (), v') ∧ v'.tick.1 = none ∧
    ∃ nd', (brkfsInodeRead v' tinyInode.ino).1 = .ok nd' ∧ nd'.size = 4096 := by
  have hrun : Run CallStepInRange tinyFile (brkfsSetattr 0 tinyFile (sizeAttr 4096)).2 := by
    refine .single ⟨.setattr 0 (sizeAttr 4096), ⟨by decide, ?_, nofun, nofun⟩, rfl⟩
    rintro n ⟨⟩
    decide
  have hhost := (brkfsSetattr_grow (.inl rfl)).2
  obtain ⟨-, v', hwrite, htick⟩ := sizedInode_written 4096
  have hempty : tinyFile.cache.host.inode.Encodable := by
    refine ⟨?_, ?_, ?_, ?_⟩ <;> decide
  obtain ⟨hread, hkept⟩ := inode_persists _ v' tinyInode tinyFile _
  have hfits := hkept hrun hempty
  rw [hhost] at hfits
  obtain ⟨nd', hnd', hsame⟩ := (hread hwrite htick).2 hfits
  refine ⟨_, v', hrun, ?_, ?_, htick, nd', hnd', hsame.size⟩
  · rw [hhost]
    rfl
  · rw [hhost]
    exact hwrite

/-- Growing a file to `2 ^ 32` bytes succeeds; its inode is read back as that of an empty file. -/
theorem inode_size_lost : ∃ s v', CallStep tinyFile s ∧ s.cache.host.inode.size = 4294967296 ∧
    brkfsInodeWrite s.cache.host.vol s.cache.host.inode = (.ok (), v') ∧ v'.tick.1 = none ∧
    ∃ nd', (brkfsInodeRead v' s.cache.host.inode.ino).1 = .ok nd' ∧ nd'.size = 0 := by
  obtain ⟨hres, hhost⟩ := brkfsSetattr_grow (.inr rfl)
  obtain ⟨hok, v', hwrite, htick⟩ := sizedInode_written 4294967296
  refine ⟨_, v', ⟨.setattr 0 (sizeAttr 4294967296), hres.trans hok, rfl⟩, ?_⟩
  show (brkfsSetattr 0 tinyFile (sizeAttr 4294967296)).2.cache.host.inode.size = _ ∧ _
  simp only [FileCall.exec, hhost]
  exact ⟨rfl, hwrite, htick, _, brkfsInodeRead_stored (by decide) hwrite htick, rfl⟩

end BrkKernel.Brkfs
