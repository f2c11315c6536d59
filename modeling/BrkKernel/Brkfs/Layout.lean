import BrkKernel.Kern.Base

/-!
# brkfs on-disk format

The structures of `fs/brkfs/brkfs.h`: the superblock, the on-disk inode, the CRC32C that guards
them, and the checks `brkfs_validate_super` makes before a volume is mounted.
`brkfsValidateSuper_layoutOk` extracts from an accepted superblock the layout facts every block
address argument uses: metadata areas in order and disjoint, data blocks below the backup
superblock.
-/

set_option autoImplicit false

namespace BrkKernel.Brkfs

open Lib Lib.ByteMem

/-- `BRKFS_DIRECT_BLOCKS`. -/
def directBlocks : Nat := 7

/-- `BRKFS_INDIRECT_BLOCK`. -/
def indirectBlock : Nat := directBlocks

/-- `BRKFS_BLOCKS`. -/
def nrBlockPtrs : Nat := 10

/-- `BRKFS_MAGIC`. -/
def brkfsMagic : Nat := 0x6b7262

/-- `BRKFS_FORMAT_VERSION`. -/
def formatVersion : Nat := 2

/-- `BRKFS_SUPER_OFFSET`. -/
def superOffset : Nat := 1024

/-- `BRKFS_SUPER_SIZE`. -/
def superSize : Nat := 1024

/-- `BRKFS_DIR_ENTRY_MIN_LEN`. -/
def dirEntryMinLen : Nat := 12

/-- `BRKFS_DIR_CSUM_SIZE`. -/
def dirCsumSize : Nat := 4

/-- `BRKFS_FEATURE_DOUBLE_INDIRECT`. -/
def featureDoubleIndirect : Nat := 1

/-- `BRKFS_FEATURE_TRIPLE_INDIRECT`. -/
def featureTripleIndirect : Nat := 2

/-- `BRKFS_FEATURE_DIR_INDIRECT`. -/
def featureDirIndirect : Nat := 4

/-- `BRKFS_FEATURE_ALL`. -/
def featureAll : Nat := featureDoubleIndirect ||| featureTripleIndirect ||| featureDirIndirect

/-- `sizeof(struct brkfs_inode)`. -/
def diskInodeSize : Nat := 104

/-- `struct brkfs_super_block`. -/
structure SuperBlock where
  sBlocksize : Nat
  sInodeBitmap : Nat
  sInodesCount : Nat
  sDataBlockBitmap : Nat
  sDataBlocksCount : Nat
  sInodeTable : Nat
  sFirstDataBlock : Nat
  sMagic : Nat
  sInodeSize : Nat
  sBlocksCount : Nat
  sVersion : Nat
  sFeatures : Nat
  sState : Nat
  sUuid : List UInt8
  sLabel : List UInt8
  sFreeBlocks : Nat
  sFreeInodes : Nat
  sMtime : Nat
  sLastcheck : Nat
  sMntCount : Nat
  sMaxMntCount : Nat
  sBackupSuper : Nat
  sOrphan : Nat
  sChecksum : Nat
  sPadding : List UInt8
deriving DecidableEq

/-- One round of the CRC over a byte already xored into the register. -/
def crcBits : Nat → UInt32 → UInt32
  | 0, crc => crc
  | n + 1, crc => crcBits n ((crc >>> 1) ^^^ (0x82f63b78 &&& (0 - (crc &&& 1))))

/-- The byte loop of `brkfs_crc32c`. -/
def crcBytes (buf : ByteMem) : Nat → Nat → UInt32 → UInt32
  | _, 0, crc => crc
  | a, len + 1, crc => crcBytes buf (a + 1) len (crcBits 8 (crc ^^^ (buf a).toUInt32))

/-- `brkfs_crc32c`. -/
def brkfsCrc32c (crc : UInt32) (buf : ByteMem) (len : Nat) : UInt32 :=
  ~~~ crcBytes buf 0 len (~~~ crc)

theorem crcBytes_congr {m m' : ByteMem} :
    ∀ {len a : Nat} {crc : UInt32}, (∀ i < len, m (a + i) = m' (a + i)) →
      crcBytes m a len crc = crcBytes m' a len crc
  | 0, _, _, _ => rfl
  | len + 1, a, crc, h => by
    have h0 : m a = m' a := h 0 (Nat.succ_pos len)
    rw [crcBytes, crcBytes, h0]
    refine crcBytes_congr fun i hi => ?_
    have hi' := h (i + 1) (Nat.succ_lt_succ hi)
    rwa [add_comm i 1, ← add_assoc] at hi'

/-- The checksum depends only on the bytes it covers. -/
theorem brkfsCrc32c_congr {m m' : ByteMem} {crc : UInt32} {len : Nat}
    (h : ∀ i < len, m i = m' i) : brkfsCrc32c crc m len = brkfsCrc32c crc m' len := by
  have hb : crcBytes m 0 len (~~~ crc) = crcBytes m' 0 len (~~~ crc) := by
    refine crcBytes_congr fun i hi => ?_
    rw [zero_add]
    exact h i hi
  rw [brkfsCrc32c, brkfsCrc32c, hb]

/-- Consecutive little-endian 32-bit words. -/
def wordBytes (ws : List Nat) : List UInt8 :=
  ws.flatMap fun w => slice (leByte w) 0 4

/-- The superblock as the 1024 bytes written to the device. -/
def SuperBlock.bytes (sb : SuperBlock) : ByteMem :=
  ofList
    (wordBytes [sb.sBlocksize, sb.sInodeBitmap, sb.sInodesCount, sb.sDataBlockBitmap,
        sb.sDataBlocksCount, sb.sInodeTable, sb.sFirstDataBlock, sb.sMagic, sb.sInodeSize,
        sb.sBlocksCount, sb.sVersion, sb.sFeatures, sb.sState] ++
      sb.sUuid ++ sb.sLabel ++
      wordBytes [sb.sFreeBlocks, sb.sFreeInodes, sb.sMtime, sb.sLastcheck, sb.sMntCount,
        sb.sMaxMntCount, sb.sBackupSuper, sb.sOrphan, sb.sChecksum] ++
      sb.sPadding)

/-- The superblock that 1024 bytes hold. -/
def SuperBlock.ofBytes (raw : ByteMem) : SuperBlock where
  sBlocksize := load 4 raw 0
  sInodeBitmap := load 4 raw 4
  sInodesCount := load 4 raw 8
  sDataBlockBitmap := load 4 raw 12
  sDataBlocksCount := load 4 raw 16
  sInodeTable := load 4 raw 20
  sFirstDataBlock := load 4 raw 24
  sMagic := load 4 raw 28
  sInodeSize := load 4 raw 32
  sBlocksCount := load 4 raw 36
  sVersion := load 4 raw 40
  sFeatures := load 4 raw 44
  sState := load 4 raw 48
  sUuid := slice raw 52 16
  sLabel := slice raw 68 64
  sFreeBlocks := load 4 raw 132
  sFreeInodes := load 4 raw 136
  sMtime := load 4 raw 140
  sLastcheck := load 4 raw 144
  sMntCount := load 4 raw 148
  sMaxMntCount := load 4 raw 152
  sBackupSuper := load 4 raw 156
  sOrphan := load 4 raw 160
  sChecksum := load 4 raw 164
  sPadding := slice raw 168 856

/-- `brkfs_super_checksum`: the CRC with the checksum field cleared. -/
def brkfsSuperChecksum (sb : SuperBlock) : Nat :=
  (brkfsCrc32c 0 ({ sb with sChecksum := 0 } : SuperBlock).bytes superSize).toNat

/-- `brkfs_is_pow_of_two`. -/
def brkfsIsPowOfTwo (value : Nat) : Bool := value != 0 && value &&& (value - 1) == 0

/-- `brkfs_validate_super`. -/
def brkfsValidateSuper (sb : SuperBlock) (capacity : Nat) : Except Errno Unit :=
  let bitsPerBlock := sb.sBlocksize * 8
  let inodesPerBlock := sb.sBlocksize / sb.sInodeSize
  let inodeBitmapBlocks := divCeil sb.sInodesCount bitsPerBlock
  let dataBitmapBlocks := divCeil sb.sDataBlocksCount bitsPerBlock
  let inodeTableBlocks := divCeil sb.sInodesCount inodesPerBlock
  if sb.sMagic ≠ brkfsMagic then .error .einval
  else if sb.sVersion ≠ formatVersion then .error .einval
  else if sb.sFeatures &&& featureAll ≠ sb.sFeatures then .error .einval
  else if sb.sChecksum ≠ brkfsSuperChecksum sb then .error .einval
  else if sb.sState < 1 ∨ sb.sState > 3 then .error .einval
  else if sb.sFreeBlocks > sb.sDataBlocksCount ∨ sb.sFreeInodes > sb.sInodesCount then
    .error .einval
  else if sb.sOrphan > sb.sInodesCount then .error .einval
  else if sb.sBlocksize < 1024 ∨ sb.sBlocksize > 4096 ∨ !brkfsIsPowOfTwo sb.sBlocksize then
    .error .einval
  else if sb.sInodeSize < diskInodeSize ∨ sb.sInodeSize > 256 ∨ !brkfsIsPowOfTwo sb.sInodeSize ∨
      sb.sBlocksize % sb.sInodeSize ≠ 0 then .error .einval
  else if sb.sBlocksCount = 0 ∨ sb.sInodesCount = 0 ∨ sb.sDataBlocksCount = 0 then .error .einval
  else if sb.sBlocksCount < 2 ∨ sb.sBackupSuper ≠ sb.sBlocksCount - 1 then .error .einval
  else if capacity ≠ 0 ∧ sb.sBlocksCount * sb.sBlocksize > capacity then .error .einval
  else if sb.sInodeBitmap < divCeil (superOffset + superSize) sb.sBlocksize then .error .einval
  else if sb.sInodeBitmap + inodeBitmapBlocks > sb.sDataBlockBitmap then .error .einval
  else if sb.sDataBlockBitmap + dataBitmapBlocks > sb.sInodeTable then .error .einval
  else if sb.sInodeTable + inodeTableBlocks > sb.sFirstDataBlock then .error .einval
  else if sb.sFirstDataBlock + sb.sDataBlocksCount > sb.sBackupSuper then .error .einval
  else .ok ()

/-- The part of the superblock that no operation changes after the mount. -/
structure Geometry where
  blocksize : Nat
  inodeBitmap : Nat
  inodesCount : Nat
  dataBlockBitmap : Nat
  dataBlocksCount : Nat
  inodeTable : Nat
  firstDataBlock : Nat
  inodeSize : Nat
  blocksCount : Nat
  backupSuper : Nat
deriving DecidableEq

/-- The geometry fields of a superblock. -/
def SuperBlock.geom (sb : SuperBlock) : Geometry where
  blocksize := sb.sBlocksize
  inodeBitmap := sb.sInodeBitmap
  inodesCount := sb.sInodesCount
  dataBlockBitmap := sb.sDataBlockBitmap
  dataBlocksCount := sb.sDataBlocksCount
  inodeTable := sb.sInodeTable
  firstDataBlock := sb.sFirstDataBlock
  inodeSize := sb.sInodeSize
  blocksCount := sb.sBlocksCount
  backupSuper := sb.sBackupSuper

/-- The layout of a mountable volume: block and inode sizes from the supported sets, and the
superblock, inode bitmap, data bitmap, inode table, data area and backup superblock in this order
without overlap. -/
structure Geometry.LayoutOk (g : Geometry) : Prop where
  blocksize : g.blocksize = 1024 ∨ g.blocksize = 2048 ∨ g.blocksize = 4096
  inodeSize : g.inodeSize = 128 ∨ g.inodeSize = 256
  inodesPos : 0 < g.inodesCount
  dataPos : 0 < g.dataBlocksCount
  backup : g.backupSuper + 1 = g.blocksCount
  afterSuper : superOffset + superSize ≤ g.inodeBitmap * g.blocksize
  afterInodeBitmap :
    g.inodeBitmap + divCeil g.inodesCount (g.blocksize * 8) ≤ g.dataBlockBitmap
  afterDataBitmap :
    g.dataBlockBitmap + divCeil g.dataBlocksCount (g.blocksize * 8) ≤ g.inodeTable
  afterInodeTable :
    g.inodeTable + divCeil g.inodesCount (g.blocksize / g.inodeSize) ≤ g.firstDataBlock
  afterData : g.firstDataBlock + g.dataBlocksCount ≤ g.backupSuper

theorem brkfsIsPowOfTwo_eq_two_pow {n : Nat} (h : brkfsIsPowOfTwo n = true) : ∃ k, n = 2 ^ k := by
  simp only [brkfsIsPowOfTwo, Bool.and_eq_true, bne_iff_ne, beq_iff_eq] at h
  exact (Nat.and_sub_one_eq_zero_iff_isPowerOfTwo h.1).1 h.2

theorem two_pow_between {n k l u : Nat} (hn : n = 2 ^ k) (hl : 2 ^ l < 2 * n)
    (hu : n < 2 * 2 ^ u) : l ≤ k ∧ k ≤ u := by
  subst hn
  rw [← Nat.pow_succ'] at hl hu
  have h1 := (Nat.pow_lt_pow_iff_right (by decide : 1 < 2)).1 hl
  have h2 := (Nat.pow_lt_pow_iff_right (by decide : 1 < 2)).1 hu
  omega

/-- An accepted superblock describes a mountable layout. -/
theorem brkfsValidateSuper_layoutOk {sb : SuperBlock} {capacity : Nat}
    (h : brkfsValidateSuper sb capacity = .ok ()) : sb.geom.LayoutOk := by
  simp only [brkfsValidateSuper, ite_error_eq_ok, not_or, not_lt, Bool.not_eq_true',
    Bool.not_eq_false, ne_eq, Decidable.not_not] at h
  obtain ⟨-, -, -, -, -, -, -, ⟨hb1, hb2, hb3⟩, ⟨hi1, hi2, hi3, -⟩, ⟨-, hc2, hc3⟩, ⟨hc4, hback⟩, -,
    h1, h2, h3, h4, h5, -⟩ := h
  obtain ⟨k, hk⟩ := brkfsIsPowOfTwo_eq_two_pow hb3
  obtain ⟨j, hj⟩ := brkfsIsPowOfTwo_eq_two_pow hi3
  have hkb : 10 ≤ k ∧ k ≤ 12 := two_pow_between hk (by omega) (by omega)
  have hjb : 7 ≤ j ∧ j ≤ 8 :=
    two_pow_between hj (by unfold diskInodeSize at hi1; omega) (by omega)
  have hb : sb.sBlocksize = 1024 ∨ sb.sBlocksize = 2048 ∨ sb.sBlocksize = 4096 := by
    obtain rfl | rfl | rfl : k = 10 ∨ k = 11 ∨ k = 12 := by omega
    · exact .inl hk
    · exact .inr (.inl hk)
    · exact .inr (.inr hk)
  have hi : sb.sInodeSize = 128 ∨ sb.sInodeSize = 256 := by
    obtain rfl | rfl : j = 7 ∨ j = 8 := by omega
    · exact .inl hj
    · exact .inr hj
  refine ⟨hb, hi, pos_of_ne_zero hc2, pos_of_ne_zero hc3, ?_, ?_, h2, h3, h4, h5⟩
  · show sb.sBackupSuper + 1 = sb.sBlocksCount
    omega
  show superOffset + superSize ≤ sb.sInodeBitmap * sb.sBlocksize
  unfold divCeil superOffset superSize at h1
  unfold superOffset superSize
  rcases hb with hb | hb | hb <;> rw [hb] at h1 ⊢ <;> omega

/-- The superblock of a volume with ten blocks of 1024 bytes, four of them for data. -/
def tinySuper : SuperBlock where
  sBlocksize := 1024
  sInodeBitmap := 2
  sInodesCount := 8
  sDataBlockBitmap := 3
  sDataBlocksCount := 4
  sInodeTable := 4
  sFirstDataBlock := 5
  sMagic := brkfsMagic
  sInodeSize := 128
  sBlocksCount := 10
  sVersion := formatVersion
  sFeatures := 0
  sState := 1
  sUuid := List.replicate 16 0
  sLabel := List.replicate 64 0
  sFreeBlocks := 4
  sFreeInodes := 8
  sMtime := 0
  sLastcheck := 0
  sMntCount := 0
  sMaxMntCount := 0
  sBackupSuper := 9
  sOrphan := 0
  sChecksum := 0
  sPadding := List.replicate 856 0

theorem tinySuper_layoutOk : tinySuper.geom.LayoutOk := by
  constructor <;> decide

/-- In-core inode: `struct fs_inode` with the `struct brkfs_inode_info` behind its private data. -/
structure FsInode where
  ino : Nat
  mode : Nat
  rdev : Nat
  nlink : Nat
  size : Nat
  uid : Nat
  gid : Nat
  atime : Int
  mtime : Int
  ctime : Int
  iBlock : Nat → Nat
  iNextOrphan : Nat

/-- An inode without blocks. -/
def emptyInode (ino mode : Nat) : FsInode where
  ino := ino
  mode := mode
  rdev := 0
  nlink := 1
  size := 0
  uid := 0
  gid := 0
  atime := 0
  mtime := 0
  ctime := 0
  iBlock := fun _ => 0
  iNextOrphan := 0

/-- `S_ISDIR`. -/
def sIsDir (mode : Nat) : Bool := mode &&& 0o170000 == 0o040000

/-- `S_ISREG`. -/
def sIsReg (mode : Nat) : Bool := mode &&& 0o170000 == 0o100000

/-- `S_ISLNK`. -/
def sIsLnk (mode : Nat) : Bool := mode &&& 0o170000 == 0o120000

end BrkKernel.Brkfs
