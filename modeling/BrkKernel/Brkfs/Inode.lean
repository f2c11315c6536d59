import BrkKernel.Brkfs.Truncate

/-!
# On-disk inodes and eviction

`brkfs_inode_read`, `brkfs_inode_write`, the orphan list and the eviction of an unlinked inode
(`fs/brkfs/inode.c`, `fs/brkfs/super.c`). An inode that was written reads back with its fields cut
to 32 bits (`brkfsInodeRead_write`). Besides cutting the block map, eviction writes only to the
inode table and the inode bitmap (`brkfsOrphanRemove_frame`, `brkfsInodeWrite_frame`,
`brkfsInodeFree_frame`).
-/

set_option autoImplicit false

namespace BrkKernel.Brkfs

open Lib Lib.ByteMem

/-- Conversion of a signed 64-bit value to `u32`. -/
def u32OfInt (z : Int) : Nat := (z % 4294967296).toNat

/-- `NS_PER_SEC`. -/
def nsPerSec : Int := 1000000000

/-- The words `brkfs_inode_write` stores, with their offsets in `struct brkfs_inode`. The word
`i_flags` at offset 12 keeps its value. -/
def inodeWords (ino : Nat) (nd : FsInode) : List (Nat × Nat) :=
  [(0, ino), (4, nd.mode), (8, nd.rdev), (16, nd.nlink), (20, nd.size)] ++
  (List.range nrBlockPtrs).map (fun i => (56 + 4 * i, nd.iBlock i)) ++
  [(24, u32OfInt (nd.atime.tdiv nsPerSec)), (28, u32OfInt (nd.atime.tmod nsPerSec)),
    (40, u32OfInt (nd.mtime.tdiv nsPerSec)), (44, u32OfInt (nd.mtime.tmod nsPerSec)),
    (32, u32OfInt (nd.ctime.tdiv nsPerSec)), (36, u32OfInt (nd.ctime.tmod nsPerSec)),
    (48, nd.uid), (52, nd.gid), (96, nd.iNextOrphan)]

/-- Offset of `i_checksum`. -/
def inodeCsumOffset : Nat := 100

/-- `brkfs_inode_set_checksum`. -/
def brkfsInodeSetChecksum (buf : ByteMem) : ByteMem :=
  let cleared := store 4 buf inodeCsumOffset 0
  store 4 cleared inodeCsumOffset (brkfsCrc32c 0 cleared diskInodeSize).toNat

/-- `brkfs_inode_checksum_ok`. -/
def brkfsInodeChecksumOk (buf : ByteMem) : Bool :=
  load 4 buf inodeCsumOffset ==
    (brkfsCrc32c 0 (store 4 buf inodeCsumOffset 0) diskInodeSize).toNat

/-- The block of the inode table that holds inode `ino`. -/
def Vol.inodeBlock (v : Vol) (ino : Nat) : Nat :=
  u32 (v.sb.sInodeTable + (ino - 1) / v.inodesPerBlock)

/-- Offset of inode `ino` in its block. -/
def Vol.inodeOffset (v : Vol) (ino : Nat) : Nat := (ino - 1) % v.inodesPerBlock * v.sb.sInodeSize

/-- The inode stored in a `struct brkfs_inode`. -/
def decodeInode (ino : Nat) (buf : ByteMem) : FsInode where
  ino := ino
  mode := load 4 buf 4
  rdev := load 4 buf 8
  nlink := load 4 buf 16
  size := load 4 buf 20
  uid := load 4 buf 48
  gid := load 4 buf 52
  atime := load 4 buf 24 * nsPerSec + load 4 buf 28
  mtime := load 4 buf 40 * nsPerSec + load 4 buf 44
  ctime := load 4 buf 32 * nsPerSec + load 4 buf 36
  iBlock i := if i < nrBlockPtrs then load 4 buf (56 + 4 * i) else 0
  iNextOrphan := load 4 buf 96

/-- `brkfs_inode_read`. -/
def brkfsInodeRead (v : Vol) (ino : Nat) : Except Errno FsInode × Vol :=
  if ino < 1 ∨ v.sb.sInodesCount < ino then (.error .einval, v)
  else
    match brkfsGetBlock v (v.inodeBlock ino) with
    | (.error e, v') => (.error e, v')
    | (.ok bb, v') =>
      let buf := window v'.bd.data (bb.addr + v.inodeOffset ino)
      if load 4 buf 0 ≠ ino then (.error .eio, v')
      else if !brkfsInodeChecksumOk buf then (.error .eio, v')
      else (.ok (decodeInode ino buf), v')

/-- `brkfs_inode_write`. -/
def brkfsInodeWrite (v : Vol) (nd : FsInode) : Except Errno Unit × Vol :=
  let ino := u32 nd.ino
  if ino < 1 ∨ v.sb.sInodesCount < ino then (.error .einval, v)
  else
    match brkfsGetBlock v (v.inodeBlock ino) with
    | (.error e, v') => (.error e, v')
    | (.ok bb, v') =>
      let a := bb.addr + v.inodeOffset ino
      (.ok (), v'.poke a diskInodeSize
        (brkfsInodeSetChecksum (storeWords (window v'.bd.data a) (inodeWords ino nd))))

/-- `brkfs_inode_free`. -/
def brkfsInodeFree (v : Vol) (ino : Nat) : Except Errno Unit × Vol :=
  if ino < 1 ∨ v.sb.sInodesCount < ino then (.error .einval, v)
  else
    match brkfsBitmapFree v v.sb.sInodeBitmap v.sb.sInodesCount (ino - 1) with
    | (.error e, v') => (.error e, v')
    | (.ok (), v') =>
      (.ok (), v'.setSuper { v'.sb with sFreeInodes := u32 (v'.sb.sFreeInodes + 1) })

/-- The unlinking of orphan `cur` after `prev` in `brkfs_orphan_remove`. -/
def orphanUnlink (v : Vol) (prev next : Nat) : Vol :=
  if prev = 0 then v.setSuper { v.sb with sOrphan := next }
  else
    match brkfsInodeRead v prev with
    | (.error _, v1) => v1.setSuper v1.sb
    | (.ok p, v1) =>
      let v2 := (brkfsInodeWrite v1 { p with iNextOrphan := next }).2
      v2.setSuper v2.sb

/-- The walk of `brkfs_orphan_remove` along the orphan list; the first argument is `guard`. -/
def orphanRemoveFrom (ino : Nat) : Nat → Vol → Nat → Nat → Vol
  | 0, v, _, _ => v
  | guard + 1, v, prev, cur =>
    if cur = 0 then v
    else
      match brkfsInodeRead v cur with
      | (.error _, v1) => v1
      | (.ok nd, v1) =>
        if cur = ino then orphanUnlink v1 prev nd.iNextOrphan
        else orphanRemoveFrom ino guard v1 cur nd.iNextOrphan

/-- `brkfs_orphan_remove`. -/
def brkfsOrphanRemove (v : Vol) (ino : Nat) : Vol :=
  orphanRemoveFrom ino v.sb.sInodesCount v 0 v.sb.sOrphan

/-- The branch of `brkfs_evict_inode` for an inode without links. The cached pages of the file are
dropped without being written. -/
def brkfsEvictUnlinked (v : Vol) (nd : FsInode) : FsInode × Vol :=
  let v1 := brkfsOrphanRemove v (u32 nd.ino)
  match brkfsTruncateInodeBlocks v1 nd 0 with
  | (_, nd1, v2) =>
    let nd2 := { nd1 with size := 0, nlink := 0, iNextOrphan := 0 }
    let v3 := (brkfsInodeWrite v2 nd2).2
    (nd2, (brkfsInodeFree v3 (u32 nd.ino)).2)

/-! ## Inodes on the device -/

/-- Blocks of the inode table. -/
def Geometry.IsInodeTable (g : Geometry) (b : Nat) : Prop :=
  g.inodeTable ≤ b ∧ b < g.firstDataBlock

/-- Device address of inode `ino`. -/
def Geometry.inodeAddr (g : Geometry) (ino : Nat) : Nat :=
  (g.inodeTable + (ino - 1) / (g.blocksize / g.inodeSize)) * g.blocksize +
    (ino - 1) % (g.blocksize / g.inodeSize) * g.inodeSize

/-- What an inode reads back as after it was written. -/
def FsInode.stored (nd : FsInode) : FsInode :=
  { nd with
    mode := u32 nd.mode
    rdev := u32 nd.rdev
    nlink := u32 nd.nlink
    size := u32 nd.size
    uid := u32 nd.uid
    gid := u32 nd.gid
    atime := u32OfInt (nd.atime.tdiv nsPerSec) * nsPerSec + u32OfInt (nd.atime.tmod nsPerSec)
    mtime := u32OfInt (nd.mtime.tdiv nsPerSec) * nsPerSec + u32OfInt (nd.mtime.tmod nsPerSec)
    ctime := u32OfInt (nd.ctime.tdiv nsPerSec) * nsPerSec + u32OfInt (nd.ctime.tmod nsPerSec)
    iBlock := fun i => if i < nrBlockPtrs then u32 (nd.iBlock i) else 0
    iNextOrphan := u32 nd.iNextOrphan }

section InodeIo

variable {g : Geometry} {v v' : Vol} {nd : FsInode} {ino b : Nat} {m m' : ByteMem}

theorem inodeWords_disjoint (ino : Nat) (nd : FsInode) :
    ((inodeWords ino nd).map Prod.fst).Pairwise fun x y => x + 4 ≤ y ∨ y + 4 ≤ x := by
  show List.Pairwise _ [0, 4, 8, 16, 20, 56, 60, 64, 68, 72, 76, 80, 84, 88, 92, 24, 28, 40, 44,
    32, 36, 48, 52, 96]
  decide

theorem inodeWords_below_csum (ino : Nat) (nd : FsInode) :
    ∀ w ∈ inodeWords ino nd, w.1 + 4 ≤ inodeCsumOffset := by
  have h : ∀ a ∈ (inodeWords ino nd).map Prod.fst, a + 4 ≤ inodeCsumOffset := by
    show ∀ a ∈ [0, 4, 8, 16, 20, 56, 60, 64, 68, 72, 76, 80, 84, 88, 92, 24, 28, 40, 44, 32, 36,
      48, 52, 96], a + 4 ≤ inodeCsumOffset
    decide
  exact fun w hw => h w.1 (List.mem_map_of_mem hw)

theorem Vol.Ok.inodesPerBlock (h : v.Ok g) : v.inodesPerBlock = g.blocksize / g.inodeSize := by
  rw [Vol.inodesPerBlock, h.bs]
  exact congrArg (g.blocksize / ·) (congrArg Geometry.inodeSize h.geom)

theorem Vol.Ok.inodesCount (h : v.Ok g) : v.sb.sInodesCount = g.inodesCount :=
  congrArg Geometry.inodesCount h.geom

/-- A valid inode lies inside one block of the inode table. -/
theorem inode_place (hg : g.LayoutOk) (h1 : 1 ≤ ino) (h2 : ino ≤ g.inodesCount) :
    g.IsInodeTable (g.inodeTable + (ino - 1) / (g.blocksize / g.inodeSize)) ∧
      (ino - 1) % (g.blocksize / g.inodeSize) * g.inodeSize + diskInodeSize ≤ g.blocksize := by
  have hipb : 0 < g.blocksize / g.inodeSize ∧
      g.blocksize / g.inodeSize * g.inodeSize = g.blocksize ∧ diskInodeSize ≤ g.inodeSize := by
    rcases hg.blocksize with hb | hb | hb <;> rcases hg.inodeSize with hi | hi <;>
      rw [hb, hi] <;> decide
  generalize g.blocksize / g.inodeSize = ipb at hipb ⊢
  obtain ⟨hpos, hmul, hsize⟩ := hipb
  refine ⟨⟨Nat.le_add_right _ _, ?_⟩, ?_⟩
  · have hblk : (ino - 1) / ipb < divCeil g.inodesCount ipb := by
      rw [Nat.div_lt_iff_lt_mul hpos]
      have hcov := le_divCeil_mul g.inodesCount hpos
      omega
    have htab := hg.afterInodeTable
    have hipb' : g.blocksize / g.inodeSize = ipb := by
      rw [← hmul]
      exact Nat.mul_div_cancel _ (by unfold diskInodeSize at hsize; omega)
    rw [hipb'] at htab
    omega
  · have hlt := Nat.mod_lt (ino - 1) hpos
    have hle := Nat.mul_le_mul_right g.inodeSize (Nat.succ_le_of_lt hlt)
    rw [Nat.succ_mul, hmul] at hle
    omega

theorem inodeTable_not_dataBitmap (hb : g.IsDataBitmap b) : ¬ g.IsInodeTable b :=
  fun ht => not_lt.2 ht.1 hb.2

theorem inodeTable_not_data (hb : g.IsData b) : ¬ g.IsInodeTable b :=
  fun ht => not_lt.2 hb.1 ht.2

theorem isInodeTable_lt (hg : g.LayoutOk) (hb : g.IsInodeTable b) : b < g.blocksCount := by
  have h1 := hg.afterData
  have h2 := hg.backup
  have h3 := hb.2
  omega

theorem inode_addr_eq (h : v.Ok g) (h1 : 1 ≤ ino) (h2 : ino ≤ g.inodesCount) :
    ∃ bb, brkfsGetBlock v (v.inodeBlock ino) = (.ok bb, v) ∧
      bb.addr + v.inodeOffset ino = g.inodeAddr ino := by
  have htab : v.sb.sInodeTable = g.inodeTable := congrArg Geometry.inodeTable h.geom
  have hsize : v.sb.sInodeSize = g.inodeSize := congrArg Geometry.inodeSize h.geom
  have hblk : v.inodeBlock ino = g.inodeTable + (ino - 1) / (g.blocksize / g.inodeSize) := by
    have hlt := isInodeTable_lt h.layout (inode_place h.layout h1 h2).1
    have hcount := h.reach.stop_le
    rw [Vol.inodeBlock, htab, h.inodesPerBlock]
    exact u32_of_lt (by omega)
  have hget := h.reach.getBlock (isInodeTable_lt h.layout (inode_place h.layout h1 h2).1)
  rw [hblk]
  refine ⟨_, hget, ?_⟩
  rw [BlockRef.addr_split, Vol.inodeOffset, h.inodesPerBlock, hsize]
  rfl

theorem ino_in_range (h : v.Ok g) (h1 : 1 ≤ ino) (h2 : ino ≤ g.inodesCount) :
    ¬ (ino < 1 ∨ v.sb.sInodesCount < ino) := by
  rw [h.inodesCount]
  omega

/-- Reading an inode depends on its bytes in the inode table only. -/
theorem brkfsInodeRead_eq (h : v.Ok g) (h1 : 1 ≤ ino) (h2 : ino ≤ g.inodesCount) :
    brkfsInodeRead v ino =
      (if load 4 (window v.bd.data (g.inodeAddr ino)) 0 ≠ ino then .error .eio
        else if !brkfsInodeChecksumOk (window v.bd.data (g.inodeAddr ino)) then .error .eio
        else .ok (decodeInode ino (window v.bd.data (g.inodeAddr ino))), v) := by
  obtain ⟨bb, hget, haddr⟩ := inode_addr_eq h h1 h2
  rw [brkfsInodeRead, if_neg (ino_in_range h h1 h2), hget]
  simp only [haddr]
  split
  · rfl
  · split <;> rfl

theorem brkfsInodeRead_vol (h : v.Ok g) (ino : Nat) : (brkfsInodeRead v ino).2 = v := by
  by_cases hv : ino < 1 ∨ v.sb.sInodesCount < ino
  · rw [brkfsInodeRead, if_pos hv]
  · rw [h.inodesCount] at hv
    rw [brkfsInodeRead_eq h (by omega) (by omega)]

theorem brkfsInodeWrite_eq (h : v.Ok g) (hino : u32 nd.ino = ino) (h1 : 1 ≤ ino)
    (h2 : ino ≤ g.inodesCount) :
    brkfsInodeWrite v nd = (.ok (), v.poke (g.inodeAddr ino) diskInodeSize (brkfsInodeSetChecksum
        (storeWords (window v.bd.data (g.inodeAddr ino)) (inodeWords ino nd)))) := by
  obtain ⟨bb, hget, haddr⟩ := inode_addr_eq h h1 h2
  rw [brkfsInodeWrite, hino]
  simp only [if_neg (ino_in_range h h1 h2), hget, haddr]

theorem frame_inode_poke (hg : g.LayoutOk) (h1 : 1 ≤ ino) (h2 : ino ≤ g.inodesCount)
    (buf : ByteMem) : Frame g g.IsInodeTable v (v.poke (g.inodeAddr ino) diskInodeSize buf) := by
  obtain ⟨htab, hoff⟩ := inode_place hg h1 h2
  unfold Geometry.inodeAddr
  generalize (ino - 1) % (g.blocksize / g.inodeSize) * g.inodeSize = off at hoff ⊢
  generalize g.inodeTable + (ino - 1) / (g.blocksize / g.inodeSize) = b at htab ⊢
  have hlt : ∀ x, b * g.blocksize + off ≤ x → x < b * g.blocksize + off + diskInodeSize →
      x - b * g.blocksize < g.blocksize ∧ b * g.blocksize + (x - b * g.blocksize) = x :=
    fun x h1 h2 => by omega
  have hoff' : off < g.blocksize := by
    unfold diskInodeSize at hoff
    omega
  refine frame_poke_of (fun x h1 h2 => ?_) fun x h1 h2 => ?_
  · obtain ⟨hx, hx'⟩ := hlt x h1 h2
    rw [hg.block_page hoff', ← hx', hg.block_page hx]
  · obtain ⟨hx, hx'⟩ := hlt x h1 h2
    rwa [← hx', block_div hx]

theorem brkfsInodeWrite_frame (h : v.Ok g) (nd : FsInode) :
    Frame g g.IsInodeTable v (brkfsInodeWrite v nd).2 ∧ (brkfsInodeWrite v nd).2.sb = v.sb := by
  by_cases hv : u32 nd.ino < 1 ∨ v.sb.sInodesCount < u32 nd.ino
  · rw [brkfsInodeWrite]
    simp only [if_pos hv]
    exact ⟨Frame.refl g _ v, trivial⟩
  · rw [h.inodesCount] at hv
    rw [brkfsInodeWrite_eq h rfl (by omega) (by omega)]
    exact ⟨frame_inode_poke h.layout (by omega) (by omega) _, rfl⟩

/-! ### Reading back a written inode -/

theorem load_setChecksum {buf : ByteMem} {a : Nat} (ha : a + 4 ≤ inodeCsumOffset) :
    load 4 (brkfsInodeSetChecksum buf) a = load 4 buf a := by
  unfold brkfsInodeSetChecksum
  rw [load_store_of_disjoint (Or.inl ha), load_store_of_disjoint (Or.inl ha)]

theorem load_image {old : ByteMem} {a n : Nat} (h : (a, n) ∈ inodeWords ino nd) :
    load 4 (brkfsInodeSetChecksum (storeWords old (inodeWords ino nd))) a = u32 n := by
  rw [load_setChecksum (inodeWords_below_csum ino nd _ h),
    load_storeWords (inodeWords_disjoint ino nd) h]
  rfl

theorem brkfsInodeChecksumOk_congr (h : ∀ i < diskInodeSize, m i = m' i) :
    brkfsInodeChecksumOk m = brkfsInodeChecksumOk m' := by
  have hl : load 4 m inodeCsumOffset = load 4 m' inodeCsumOffset :=
    load_congr fun i hi => h _ (by unfold inodeCsumOffset diskInodeSize; omega)
  have hc : brkfsCrc32c 0 (store 4 m inodeCsumOffset 0) diskInodeSize =
      brkfsCrc32c 0 (store 4 m' inodeCsumOffset 0) diskInodeSize := by
    refine brkfsCrc32c_congr fun i hi => ?_
    unfold store blit
    rw [h i hi]
  rw [brkfsInodeChecksumOk, brkfsInodeChecksumOk, hl, hc]

theorem checksumOk_setChecksum (buf : ByteMem) :
    brkfsInodeChecksumOk (brkfsInodeSetChecksum buf) = true := by
  unfold brkfsInodeChecksumOk brkfsInodeSetChecksum
  simp only
  have hlt : (brkfsCrc32c 0 (store 4 buf inodeCsumOffset 0) diskInodeSize).toNat < 256 ^ 4 :=
    UInt32.toNat_lt _
  rw [load_store_of_lt hlt, beq_iff_eq]
  refine congrArg UInt32.toNat (brkfsCrc32c_congr fun i _ => ?_)
  unfold store blit
  split
  · rfl
  · rfl

theorem decodeInode_congr (h : ∀ i < diskInodeSize, m i = m' i) :
    decodeInode ino m = decodeInode ino m' := by
  have hl : ∀ a, a + 4 ≤ diskInodeSize → load 4 m a = load 4 m' a := fun a ha =>
    load_congr fun i hi => h _ (by omega)
  have hb : (fun i => if i < nrBlockPtrs then load 4 m (56 + 4 * i) else 0) =
      fun i => if i < nrBlockPtrs then load 4 m' (56 + 4 * i) else 0 := by
    funext i
    split
    next hi => exact hl _ (by unfold nrBlockPtrs at hi; unfold diskInodeSize; omega)
    next => rfl
  simp only [decodeInode, hb, hl 4 (by decide), hl 8 (by decide), hl 16 (by decide),
    hl 20 (by decide), hl 48 (by decide), hl 52 (by decide), hl 24 (by decide), hl 28 (by decide),
    hl 40 (by decide), hl 44 (by decide), hl 32 (by decide), hl 36 (by decide), hl 96 (by decide)]

theorem u32OfInt_lt (z : Int) : u32OfInt z < 4294967296 := by
  unfold u32OfInt
  omega

theorem decodeInode_image (old : ByteMem) (hino : nd.ino = ino) :
    decodeInode ino (brkfsInodeSetChecksum (storeWords old (inodeWords ino nd))) = nd.stored := by
  have hw : ∀ {a n}, (a, n) ∈ inodeWords ino nd →
      load 4 (brkfsInodeSetChecksum (storeWords old (inodeWords ino nd))) a = u32 n := load_image
  have ht : ∀ {a z}, (a, u32OfInt z) ∈ inodeWords ino nd →
      load 4 (brkfsInodeSetChecksum (storeWords old (inodeWords ino nd))) a = u32OfInt z :=
    fun h => (hw h).trans (u32_of_lt (u32OfInt_lt _))
  have hb : (fun i => if i < nrBlockPtrs then
      load 4 (brkfsInodeSetChecksum (storeWords old (inodeWords ino nd))) (56 + 4 * i) else 0) =
      fun i => if i < nrBlockPtrs then u32 (nd.iBlock i) else 0 := by
    funext i
    split
    next hi =>
      refine hw (List.mem_append_left _ (List.mem_append_right _ ?_))
      exact List.mem_map.2 ⟨i, List.mem_range.2 hi, rfl⟩
    next => rfl
  unfold decodeInode
  rw [hb, hw (a := 4) (n := nd.mode) (by simp [inodeWords]),
    hw (a := 8) (n := nd.rdev) (by simp [inodeWords]),
    hw (a := 16) (n := nd.nlink) (by simp [inodeWords]),
    hw (a := 20) (n := nd.size) (by simp [inodeWords]),
    hw (a := 48) (n := nd.uid) (by simp [inodeWords]),
    hw (a := 52) (n := nd.gid) (by simp [inodeWords]),
    hw (a := 96) (n := nd.iNextOrphan) (by simp [inodeWords]),
    ht (a := 24) (z := nd.atime.tdiv nsPerSec) (by simp [inodeWords]),
    ht (a := 28) (z := nd.atime.tmod nsPerSec) (by simp [inodeWords]),
    ht (a := 40) (z := nd.mtime.tdiv nsPerSec) (by simp [inodeWords]),
    ht (a := 44) (z := nd.mtime.tmod nsPerSec) (by simp [inodeWords]),
    ht (a := 32) (z := nd.ctime.tdiv nsPerSec) (by simp [inodeWords]),
    ht (a := 36) (z := nd.ctime.tmod nsPerSec) (by simp [inodeWords])]
  rw [FsInode.stored, hino]

/-- An inode that was written is read back with its fields cut to 32 bits, on any volume. -/
theorem brkfsInodeRead_stored (hino : nd.ino < 4294967296)
    (hwrite : brkfsInodeWrite v nd = (.ok (), v')) (htick : v'.tick.1 = none) :
    (brkfsInodeRead v' nd.ino).1 = .ok nd.stored := by
  unfold brkfsInodeWrite at hwrite
  rw [u32_of_lt hino] at hwrite
  simp only at hwrite
  split at hwrite
  · cases hwrite
  rename_i hvalid
  split at hwrite
  · cases hwrite
  next bb v1 hget =>
    simp only [Prod.mk.injEq, true_and] at hwrite
    have hsb : v'.sb = v1.sb := by
      rw [← hwrite]
      rfl
    have hsb1 : v1.sb = v.sb := (getBlock_addr hget).2.1
    have hagain := getBlock_again hget (hsb.trans hsb1) htick
    have hblock : v'.inodeBlock nd.ino = v.inodeBlock nd.ino := by
      unfold Vol.inodeBlock Vol.inodesPerBlock
      rw [hsb.trans hsb1]
    have hoff : v'.inodeOffset nd.ino = v.inodeOffset nd.ino := by
      unfold Vol.inodeOffset Vol.inodesPerBlock
      rw [hsb.trans hsb1]
    generalize ha : bb.addr + v.inodeOffset nd.ino = a at hwrite
    generalize hold : window v1.bd.data a = old at hwrite
    have hwin : ∀ i < diskInodeSize, window v'.bd.data a i =
        brkfsInodeSetChecksum (storeWords old (inodeWords nd.ino nd)) i := by
      intro i hi
      rw [← hwrite]
      show blit _ _ _ _ _ = _
      rw [blit_of_mem (by omega) (by omega), Nat.add_sub_cancel_left]
    have hid : load 4 (window v'.bd.data a) 0 = nd.ino := by
      refine (load_congr (b := 0) fun i hi => hwin _ (by unfold diskInodeSize; omega)).trans ?_
      rw [load_image (n := nd.ino) (by simp [inodeWords]), u32_of_lt hino]
    unfold brkfsInodeRead
    rw [hsb.trans hsb1, if_neg hvalid, hblock, hagain]
    simp only [hoff, ha, v'.tick_same.2]
    rw [if_neg (not_not.2 hid), brkfsInodeChecksumOk_congr hwin, checksumOk_setChecksum,
      decodeInode_congr hwin, decodeInode_image old rfl]
    rfl

/-- A written inode reads back. -/
theorem brkfsInodeRead_write (h : v.Ok g) (h1 : 1 ≤ nd.ino) (h2 : nd.ino ≤ g.inodesCount)
    (h32 : nd.ino < 4294967296) :
    brkfsInodeRead (brkfsInodeWrite v nd).2 nd.ino = (.ok nd.stored, (brkfsInodeWrite v nd).2) := by
  have hok := (brkfsInodeWrite_frame h nd).1.ok h
  have hwrite := brkfsInodeWrite_eq h (u32_of_lt h32) h1 h2
  refine Prod.ext (brkfsInodeRead_stored h32 (Prod.ext (by rw [hwrite]) rfl) ?_)
    (brkfsInodeRead_vol hok _)
  rw [Vol.tick, hok.noFault]

/-! ### Orphans and inode numbers -/

/-- Blocks of the inode bitmap. -/
def Geometry.IsInodeBitmap (g : Geometry) (b : Nat) : Prop :=
  g.inodeBitmap ≤ b ∧ b < g.dataBlockBitmap

theorem orphanUnlink_frame (h : v.Ok g) (prev next : Nat) :
    Frame g g.IsInodeTable v (orphanUnlink v prev next) ∧
      (orphanUnlink v prev next).sb.sFreeBlocks = v.sb.sFreeBlocks := by
  unfold orphanUnlink
  split
  · exact ⟨frame_setSuper rfl, rfl⟩
  have hvol := brkfsInodeRead_vol h prev
  generalize brkfsInodeRead v prev = r at hvol ⊢
  obtain ⟨res, v1⟩ := r
  obtain rfl : v1 = v := hvol
  cases res with
  | error e => exact ⟨frame_setSuper rfl, rfl⟩
  | ok p =>
    obtain ⟨hf, hsb⟩ := brkfsInodeWrite_frame h { p with iNextOrphan := next }
    refine ⟨hf.trans (frame_setSuper rfl), ?_⟩
    show (brkfsInodeWrite v1 { p with iNextOrphan := next }).2.sb.sFreeBlocks = _
    rw [hsb]

theorem orphanRemoveFrom_frame (ino guard prev cur : Nat) (h : v.Ok g) :
    Frame g g.IsInodeTable v (orphanRemoveFrom ino guard v prev cur) ∧
      (orphanRemoveFrom ino guard v prev cur).sb.sFreeBlocks = v.sb.sFreeBlocks := by
  induction guard generalizing v prev cur with
  | zero => exact ⟨Frame.refl g _ v, rfl⟩
  | succ guard ih =>
    rw [orphanRemoveFrom]
    split
    · exact ⟨Frame.refl g _ v, rfl⟩
    have hvol := brkfsInodeRead_vol h cur
    generalize brkfsInodeRead v cur = r at hvol ⊢
    obtain ⟨res, v1⟩ := r
    obtain rfl : v1 = v := hvol
    cases res with
    | error e => exact ⟨Frame.refl g _ v1, rfl⟩
    | ok nd =>
      dsimp only
      split
      · exact orphanUnlink_frame h prev nd.iNextOrphan
      · exact ih cur nd.iNextOrphan h

theorem brkfsOrphanRemove_frame (h : v.Ok g) (ino : Nat) :
    Frame g g.IsInodeTable v (brkfsOrphanRemove v ino) ∧
      (brkfsOrphanRemove v ino).sb.sFreeBlocks = v.sb.sFreeBlocks :=
  orphanRemoveFrom_frame ino _ 0 _ h

theorem brkfsInodeFree_frame (h : v.Ok g) (ino : Nat) :
    Frame g g.IsInodeBitmap v (brkfsInodeFree v ino).2 ∧
      (brkfsInodeFree v ino).2.sb.sFreeBlocks = v.sb.sFreeBlocks := by
  unfold brkfsInodeFree
  split
  · exact ⟨Frame.refl g _ v, rfl⟩
  rename_i hv
  have hg := h.layout
  have hbm : v.sb.sInodeBitmap = g.inodeBitmap := congrArg Geometry.inodeBitmap h.geom
  rw [h.inodesCount] at hv ⊢
  have hend : g.inodeBitmap + divCeil g.inodesCount (g.blocksize * 8) ≤ g.blocksCount := by
    have h1 := hg.afterInodeBitmap
    have h2 := hg.afterDataBitmap
    have h3 := hg.afterInodeTable
    have h4 := hg.afterData
    have h5 := hg.backup
    omega
  obtain ⟨v', hstep, hrun⟩ := brkfsBitmapFree_spec
    (show ino - 1 < g.inodesCount by omega) (h.reach.mono hend)
  rw [hbm, hrun]
  refine ⟨(hstep.frame.mono fun b hb => ?_).trans (frame_setSuper rfl), ?_⟩
  · have hbs := hg.bs_pos
    have hcov := le_divCeil_mul g.inodesCount (d := g.blocksize * 8) (by omega)
    have hmul := Nat.mul_le_mul_right g.blocksize hg.afterInodeBitmap
    have e2 : divCeil g.inodesCount (g.blocksize * 8) * (g.blocksize * 8) =
        8 * (divCeil g.inodesCount (g.blocksize * 8) * g.blocksize) := by ring
    rw [Nat.add_mul] at hmul
    rw [hb]
    refine ⟨?_, ?_⟩
    · rw [Nat.le_div_iff_mul_le hbs]
      omega
    · rw [Nat.div_lt_iff_lt_mul hbs]
      omega
  · show v'.sb.sFreeBlocks = v.sb.sFreeBlocks
    rw [hstep.sb]

end InodeIo

end BrkKernel.Brkfs
