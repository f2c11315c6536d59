import BrkKernel.Brkfs.Inode
import BrkKernel.Brkfs.SuperImage

/-!
# Addresses on an accepted volume

`brkfs_validate_super` bounds a volume by the capacity of the device in 64 bits, and
`brkfs_get_block` multiplies a block number by the block size in 32. The areas of an accepted
volume are in order and apart, and inode and bitmap accesses stay inside their areas, exactly when
the inode table ends within the first `2 ^ 32` bytes (`addressing_safe_iff`). Block numbers address
their own bytes exactly when the whole volume has at most `2 ^ 32` of them (`blocks_apart_iff`),
and the bits of a bitmap are allocated and freed exactly under such a bound (`bitmap_exact_iff`).
-/

set_option autoImplicit false

namespace BrkKernel.Brkfs

open Lib Lib.ByteMem SuperBlock

/-! ## Areas -/

/-- A range of blocks: the first one, and how many there are. -/
structure Area where
  start : Nat
  count : Nat
deriving DecidableEq

namespace Area

/-- The first block behind the area. -/
def stop (a : Area) : Nat := a.start + a.count

/-- The area has the block. -/
def Has (a : Area) (b : Nat) : Prop := a.start ≤ b ∧ b < a.stop

/-- No block lies in both areas. -/
def Apart (a b : Area) : Prop := a.stop ≤ b.start ∨ b.stop ≤ a.start

/-- The `n` bytes from `x` on lie in blocks of the area, of `bs` bytes each. -/
def Covers (a : Area) (bs x n : Nat) : Prop := a.start * bs ≤ x ∧ x + n ≤ a.stop * bs

end Area

/-- The superblock with the bytes before it. -/
def SuperBlock.superArea (sb : SuperBlock) : Area :=
  ⟨0, divCeil (superOffset + superSize) sb.sBlocksize⟩

/-- The inode bitmap. -/
def SuperBlock.inodeBitmapArea (sb : SuperBlock) : Area :=
  ⟨sb.sInodeBitmap, divCeil sb.sInodesCount (sb.sBlocksize * 8)⟩

/-- The bitmap of the data blocks. -/
def SuperBlock.dataBitmapArea (sb : SuperBlock) : Area :=
  ⟨sb.sDataBlockBitmap, divCeil sb.sDataBlocksCount (sb.sBlocksize * 8)⟩

/-- The inode table. -/
def SuperBlock.inodeTableArea (sb : SuperBlock) : Area :=
  ⟨sb.sInodeTable, divCeil sb.sInodesCount (sb.sBlocksize / sb.sInodeSize)⟩

/-- All areas of a volume. -/
def SuperBlock.areas (sb : SuperBlock) : List Area :=
  [sb.superArea, sb.inodeBitmapArea, sb.dataBitmapArea, sb.inodeTableArea,
    ⟨sb.sFirstDataBlock, sb.sDataBlocksCount⟩, ⟨sb.sBackupSuper, 1⟩]

/-! ## What the accesses compute -/

/-- The values of the `u32` expressions of `brkfs_get_block`, before they are cut to 32 bits. -/
def getBlockTerms (sb : SuperBlock) (bno : Nat) : List Nat := [bno * sb.sBlocksize]

/-- The values of the `u32` expressions of `brkfs_inode_read` and `brkfs_inode_write`, with
`s_inodes_per_block`. -/
def inodeTerms (sb : SuperBlock) (ino : Nat) : List Nat :=
  let ipb := sb.sBlocksize / sb.sInodeSize
  let bno := sb.sInodeTable + (ino - 1) / ipb
  [bno, (ino - 1) % ipb * sb.sInodeSize] ++ getBlockTerms sb bno

/-- The values of the `u32` expressions of `brkfs_bitmap_alloc` and `brkfs_bitmap_free` for one bit,
with `s_bits_per_block`. -/
def bitmapTerms (sb : SuperBlock) (startBno nbits bit : Nat) : List Nat :=
  let bpb := sb.sBlocksize * 8
  let bno := startBno + bit / bpb
  [bpb, nbits + bpb, startBno + divCeil nbits bpb, bno, bit / bpb * bpb,
    bit / bpb * bpb + bit % bpb] ++ getBlockTerms sb bno

/-- The blocks that the loop of `brkfs_bitmap_alloc` asks for. -/
def bitmapAllocVisits (startBno endBno : Nat) : Nat → Vol → Nat → Nat → List Nat
  | 0, _, _, _ => []
  | fuel + 1, v, nbits, bno =>
    bno :: match brkfsGetBlock v bno with
    | (.error _, _) => []
    | (.ok bb, v') =>
      let n := if nbits > v.bitsPerBlock then v.bitsPerBlock else nbits
      match bitmapAllocBit v'.bd.data bb.addr n with
      | some _ => []
      | none =>
        if endBno ≤ bno + 1 then []
        else bitmapAllocVisits startBno endBno fuel v' (nbits - n) (bno + 1)

/-- The blocks that `brkfs_bitmap_alloc` asks for. -/
def brkfsBitmapAllocVisits (v : Vol) (startBno nbits : Nat) : List Nat :=
  let nblks := divCeil32 nbits v.bitsPerBlock
  bitmapAllocVisits startBno (u32 (startBno + nblks)) (nblks + 1) v nbits startBno

/-- Accesses to a bitmap of `nbits` bits stay inside its area. -/
structure BitmapSafe (sb : SuperBlock) (area : Area) (nbits : Nat) : Prop where
  /-- The blocks that an allocation looks at. -/
  alloc : ∀ v : Vol, v.sb = sb → ∀ b ∈ brkfsBitmapAllocVisits v area.start nbits, area.Has b
  /-- The block that a bit is cleared in. -/
  free : ∀ bit < nbits, area.Has (u32 (area.start + bit / (sb.sBlocksize * 8)))
  /-- The bytes of a block of the area. -/
  bytes : ∀ (v v' : Vol) (b : Nat) (bb : BlockRef), v.sb = sb → area.Has b →
    brkfsGetBlock v b = (.ok bb, v') → area.Covers sb.sBlocksize bb.addr sb.sBlocksize
  /-- Nothing is cut to 32 bits. -/
  exact : ∀ bit < nbits, ∀ x ∈ bitmapTerms sb area.start nbits bit, x < 4294967296

/-- Accesses to the inodes stay inside the inode table and inside one block. -/
structure InodesSafe (sb : SuperBlock) : Prop where
  block : ∀ v : Vol, v.sb = sb → ∀ ino, 1 ≤ ino → ino ≤ sb.sInodesCount →
    sb.inodeTableArea.Has (v.inodeBlock ino) ∧
      v.inodeOffset ino + diskInodeSize ≤ sb.sBlocksize
  bytes : ∀ (v v' : Vol) (ino : Nat) (bb : BlockRef), v.sb = sb → 1 ≤ ino →
    ino ≤ sb.sInodesCount → brkfsGetBlock v (v.inodeBlock ino) = (.ok bb, v') →
    sb.inodeTableArea.Covers sb.sBlocksize (bb.addr + v.inodeOffset ino) diskInodeSize
  exact : ∀ ino, 1 ≤ ino → ino ≤ sb.sInodesCount → ∀ x ∈ inodeTerms sb ino, x < 4294967296

/-- All metadata is addressed where it lies. -/
structure AddressingSafe (sb : SuperBlock) : Prop where
  apart : sb.areas.Pairwise Area.Apart
  below : ∀ a ∈ sb.areas, a.stop ≤ sb.sBlocksCount
  divisors : 0 < sb.sBlocksize ∧ 0 < sb.sInodeSize ∧ 0 < sb.sBlocksize / sb.sInodeSize ∧
    0 < sb.sBlocksize * 8
  inodes : InodesSafe sb
  inodeBitmap : BitmapSafe sb sb.inodeBitmapArea sb.sInodesCount
  dataBitmap : BitmapSafe sb sb.dataBitmapArea sb.sDataBlocksCount

/-! ## Proofs -/

section Facts

variable {sb : SuperBlock} {v v' : Vol} {bb : BlockRef} {b : Nat} {area : Area}

theorem divCeil_eq_succ {n d : Nat} (hn : 0 < n) (hd : 0 < d) : divCeil n d = (n - 1) / d + 1 := by
  have e : n + d - 1 = n - 1 + d := by omega
  rw [divCeil, e, Nat.add_div_right _ hd]

/-- A block of an area that ends within 4 GiB is addressed by its own bytes. -/
theorem covers_of_has (hv : v.sb = sb) (hb : area.Has b)
    (hbs : 0 < sb.sBlocksize) (hend : area.stop * sb.sBlocksize ≤ 4294967296)
    (h : brkfsGetBlock v b = (.ok bb, v')) :
    bb.addr = b * sb.sBlocksize ∧ area.Covers sb.sBlocksize bb.addr sb.sBlocksize := by
  have hle := block_end_le (s := sb.sBlocksize) hb.2
  have haddr : bb.addr = b * sb.sBlocksize := by
    rw [(getBlock_addr h).1, hv]
    exact u32_of_lt (by omega)
  rw [haddr]
  exact ⟨rfl, Nat.mul_le_mul_right _ hb.1, hle⟩

/-- The loop of `brkfs_bitmap_alloc` stays below its end. -/
theorem mem_bitmapAllocVisits {startBno endBno fuel nbits bno : Nat} (hb : bno < endBno)
    (h : b ∈ bitmapAllocVisits startBno endBno fuel v nbits bno) : bno ≤ b ∧ b < endBno := by
  induction fuel generalizing v nbits bno with
  | zero => cases h
  | succ fuel ih =>
    unfold bitmapAllocVisits at h
    rw [List.mem_cons] at h
    rcases h with rfl | h
    · exact ⟨le_rfl, hb⟩
    split at h
    · cases h
    simp only at h
    split at h
    · cases h
    split at h
    · cases h
    next hend =>
      obtain ⟨hle, hlt⟩ := ih (Nat.lt_of_not_le hend) h
      exact ⟨Nat.le_of_succ_le hle, hlt⟩

/-- An area of an accepted volume that ends within 4 GiB has few blocks before its end. -/
theorem stop_le_of_end (hbs : 1024 ≤ sb.sBlocksize)
    (hend : area.stop * sb.sBlocksize ≤ 4294967296) : area.stop ≤ 4194304 := by
  have hmul := Nat.mul_le_mul_left area.stop hbs
  omega

/-- A bitmap that ends within 4 GiB and whose size is not near `2 ^ 32` is safe. -/
theorem bitmapSafe_of_end {nbits : Nat} (hbs : 1024 ≤ sb.sBlocksize)
    (hbs' : sb.sBlocksize ≤ 4096) (hpos : 0 < nbits) (hbits : nbits + 32768 < 4294967296)
    (hcount : area.count = divCeil nbits (sb.sBlocksize * 8))
    (hend : area.stop * sb.sBlocksize ≤ 4294967296) : BitmapSafe sb area nbits := by
  have hstop := stop_le_of_end hbs hend
  have hceil : divCeil32 nbits (sb.sBlocksize * 8) = area.count := by
    rw [hcount]
    exact divCeil32_of_lt (by omega)
  have hcpos : 0 < area.count := by
    rw [hcount]
    exact divCeil_pos hpos (by omega)
  have hhas bit (hbit : bit < nbits) : area.Has (area.start + bit / (sb.sBlocksize * 8)) := by
    refine ⟨Nat.le_add_right _ _, Nat.add_lt_add_left ?_ _⟩
    rw [hcount, divCeil_eq_succ hpos (by omega)]
    exact Nat.lt_succ_of_le (Nat.div_le_div_right (by omega))
  have hsmall : ∀ bit < nbits, area.start + bit / (sb.sBlocksize * 8) < 4194304 := fun bit hbit =>
    lt_of_lt_of_le (hhas bit hbit).2 hstop
  refine ⟨?_, ?_, ?_, ?_⟩
  · intro v hv b hb
    unfold brkfsBitmapAllocVisits at hb
    simp only [Vol.bitsPerBlock, hv, hceil] at hb
    rw [u32_of_lt (by unfold Area.stop at hstop; omega)] at hb
    exact mem_bitmapAllocVisits (Nat.lt_add_of_pos_right hcpos) hb
  · intro bit hbit
    have hlt := hsmall bit hbit
    rw [u32_of_lt (by omega)]
    exact hhas bit hbit
  · intro v v' b bb hv hb hget
    exact (covers_of_has hv hb (by omega) hend hget).2
  · intro bit hbit x hx
    have hlt := hsmall bit hbit
    have hmod : bit / (sb.sBlocksize * 8) * (sb.sBlocksize * 8) + bit % (sb.sBlocksize * 8) = bit :=
      Nat.div_add_mod' _ _
    have hblock := block_end_le (s := sb.sBlocksize) (hhas bit hbit).2
    have hstop' : area.start + divCeil nbits (sb.sBlocksize * 8) ≤ 4194304 := by
      rw [← hcount]
      exact hstop
    simp only [bitmapTerms, getBlockTerms, List.mem_append, List.mem_cons, List.not_mem_nil,
      or_false] at hx
    rcases hx with (rfl | rfl | rfl | rfl | rfl | rfl) | rfl <;> omega

end Facts

section Accepted

variable {sb : SuperBlock} {capacity : Nat}

/-- The areas of an accepted volume, in order. -/
structure InOrder (sb : SuperBlock) : Prop where
  inodeBitmap : sb.superArea.stop ≤ sb.inodeBitmapArea.start
  dataBitmap : sb.inodeBitmapArea.stop ≤ sb.dataBitmapArea.start
  inodeTable : sb.dataBitmapArea.stop ≤ sb.inodeTableArea.start
  data : sb.inodeTableArea.stop ≤ sb.sFirstDataBlock
  backup : sb.sFirstDataBlock + sb.sDataBlocksCount ≤ sb.sBackupSuper
  count : sb.sBackupSuper + 1 = sb.sBlocksCount

theorem sBlocksize_cases (h : sb.geom.LayoutOk) :
    sb.sBlocksize = 1024 ∨ sb.sBlocksize = 2048 ∨ sb.sBlocksize = 4096 := h.blocksize

theorem inOrder_of_layoutOk (h : sb.geom.LayoutOk) : InOrder sb := by
  refine ⟨?_, h.afterInodeBitmap, h.afterDataBitmap, h.afterInodeTable, h.afterData, h.backup⟩
  have hsuper : superOffset + superSize ≤ sb.sInodeBitmap * sb.sBlocksize := h.afterSuper
  show 0 + divCeil (superOffset + superSize) sb.sBlocksize ≤ sb.sInodeBitmap
  unfold divCeil superOffset superSize at *
  rcases sBlocksize_cases h with hb | hb | hb <;> rw [hb] at hsuper ⊢ <;> omega

theorem InOrder.apart (h : InOrder sb) : sb.areas.Pairwise Area.Apart := by
  obtain ⟨h1, h2, h3, h4, h5, -⟩ := h
  unfold areas Area.Apart
  simp only [Area.stop, superArea, inodeBitmapArea, dataBitmapArea, inodeTableArea] at *
  simp only [List.pairwise_cons, List.mem_cons, List.not_mem_nil, or_false, forall_eq_or_imp,
    forall_eq, List.Pairwise.nil, and_true, false_implies, implies_true]
  omega

theorem InOrder.below (h : InOrder sb) : ∀ a ∈ sb.areas, a.stop ≤ sb.sBlocksCount := by
  obtain ⟨h1, h2, h3, h4, h5, h6⟩ := h
  unfold areas
  simp only [Area.stop, superArea, inodeBitmapArea, dataBitmapArea, inodeTableArea] at *
  simp only [List.mem_cons, List.not_mem_nil, or_false, forall_eq_or_imp, forall_eq]
  omega

section

variable (h : sb.geom.LayoutOk)

include h

theorem inodesPerBlock_bounds :
    0 < sb.sBlocksize / sb.sInodeSize ∧ sb.sBlocksize / sb.sInodeSize ≤ 32 := by
  have his : sb.sInodeSize = 128 ∨ sb.sInodeSize = 256 := h.inodeSize
  rcases sBlocksize_cases h with hb | hb | hb <;> rcases his with hi | hi <;> rw [hb, hi] <;> decide

/-- The last block of the inode table holds the last inode. -/
theorem inodeTable_last :
    sb.sInodeTable + (sb.sInodesCount - 1) / (sb.sBlocksize / sb.sInodeSize) + 1 =
      sb.inodeTableArea.stop := by
  unfold Area.stop inodeTableArea
  rw [divCeil_eq_succ (n := sb.sInodesCount) h.inodesPos (inodesPerBlock_bounds h).1, add_assoc]

section

variable (hend : sb.inodeTableArea.stop * sb.sBlocksize ≤ 4294967296)

include hend

theorem inodesSafe_of_end : InodesSafe sb := by
  have hbs : 1024 ≤ sb.sBlocksize := h.bs_ge
  have hstop := stop_le_of_end hbs hend
  have hlast := inodeTable_last h
  have hhas : ∀ ino, 1 ≤ ino → ino ≤ sb.sInodesCount → sb.inodeTableArea.Has
      (sb.sInodeTable + (ino - 1) / (sb.sBlocksize / sb.sInodeSize)) := by
    intro ino h1 h2
    have hle : (ino - 1) / (sb.sBlocksize / sb.sInodeSize) ≤
        (sb.sInodesCount - 1) / (sb.sBlocksize / sb.sInodeSize) :=
      Nat.div_le_div_right (by omega)
    exact ⟨Nat.le_add_right _ _, by omega⟩
  have hblock : ∀ v : Vol, v.sb = sb → ∀ ino, 1 ≤ ino → ino ≤ sb.sInodesCount →
      v.inodeBlock ino = sb.sInodeTable + (ino - 1) / (sb.sBlocksize / sb.sInodeSize) := by
    intro v hv ino h1 h2
    have hlt := (hhas ino h1 h2).2
    unfold Vol.inodeBlock Vol.inodesPerBlock
    rw [hv]
    exact u32_of_lt (by omega)
  have hoff : ∀ v : Vol, v.sb = sb → ∀ ino, 1 ≤ ino → ino ≤ sb.sInodesCount →
      v.inodeOffset ino + diskInodeSize ≤ sb.sBlocksize := by
    intro v hv ino h1 h2
    unfold Vol.inodeOffset Vol.inodesPerBlock
    rw [hv]
    exact (inode_place h h1 h2).2
  refine ⟨?_, ?_, ?_⟩
  · intro v hv ino h1 h2
    rw [hblock v hv ino h1 h2]
    exact ⟨hhas ino h1 h2, hoff v hv ino h1 h2⟩
  · intro v v' ino bb hv h1 h2 hget
    rw [hblock v hv ino h1 h2] at hget
    obtain ⟨-, hlow, hhigh⟩ := covers_of_has hv (hhas ino h1 h2) (by omega) hend hget
    have hin := hoff v hv ino h1 h2
    refine ⟨hlow.trans (Nat.le_add_right _ _), ?_⟩
    omega
  · intro ino h1 h2 x hx
    have hlt := (hhas ino h1 h2).2
    have hle := block_end_le (s := sb.sBlocksize) hlt
    have hplace : (ino - 1) % (sb.sBlocksize / sb.sInodeSize) * sb.sInodeSize + diskInodeSize ≤
        sb.sBlocksize := (inode_place h h1 h2).2
    have hle' : sb.sBlocksize ≤ 4096 := h.bs_le
    simp only [inodeTerms, getBlockTerms, List.mem_append, List.mem_cons, List.not_mem_nil,
      or_false] at hx
    rcases hx with (rfl | rfl) | rfl <;> omega

/-- A volume whose inode table ends within 4 GiB has far fewer than `2 ^ 32` inodes. -/
theorem inodesCount_of_end : sb.sInodesCount ≤ 134217728 := by
  have hstop := @stop_le_of_end sb _ h.bs_ge hend
  obtain ⟨hpos, hipb⟩ := inodesPerBlock_bounds h
  have hcov := le_divCeil_mul sb.sInodesCount hpos
  have hcount : divCeil sb.sInodesCount (sb.sBlocksize / sb.sInodeSize) ≤ 4194304 :=
    (Nat.le_add_left _ _).trans hstop
  have hmul := Nat.mul_le_mul hcount hipb
  omega

end

/-- The bitmap of the data blocks takes so many blocks that there are not `2 ^ 32` data blocks. -/
theorem dataBlocksCount_lt (hfits : sb.Fits) : sb.sDataBlocksCount + 32768 < 4294967296 := by
  have horder := inOrder_of_layoutOk h
  obtain ⟨-, -, h3, h4, h5, h6⟩ := horder
  have hcount : sb.sBlocksCount < 4294967296 := hfits.head _ (by simp [head])
  have hbs : sb.sBlocksize ≤ 4096 := h.bs_le
  have hpos : 0 < sb.sBlocksize := h.bs_pos
  have hcov := le_divCeil_mul sb.sDataBlocksCount (d := sb.sBlocksize * 8) (by omega)
  have hmul : divCeil sb.sDataBlocksCount (sb.sBlocksize * 8) * (sb.sBlocksize * 8) ≤
      divCeil sb.sDataBlocksCount (sb.sBlocksize * 8) * 32768 :=
    Nat.mul_le_mul_left _ (by omega)
  simp only [Area.stop, dataBitmapArea, inodeTableArea] at h3 h4
  omega

/-- Block sizes divide 4 GiB. -/
theorem end_le_of_block_lt {b : Nat}
    (hb : b * sb.sBlocksize < 4294967296) : (b + 1) * sb.sBlocksize ≤ 4294967296 := by
  rcases sBlocksize_cases h with hs | hs | hs <;> rw [hs] at hb ⊢ <;> omega

end

/-- **Metadata is addressed where it lies, up to 4 GiB.** On an accepted volume the areas are apart
and in range, and inode and bitmap accesses stay inside their areas without a wrap of a 32-bit
value, exactly when the inode table ends within the first `2 ^ 32` bytes. -/
theorem addressing_safe_iff (raw : ByteMem) (capacity : Nat)
    (h : brkfsValidateSuper (SuperBlock.ofBytes raw) capacity = .ok ()) :
    AddressingSafe (SuperBlock.ofBytes raw) ↔
      (SuperBlock.ofBytes raw).inodeTableArea.stop * (SuperBlock.ofBytes raw).sBlocksize ≤
        4294967296 := by
  have hfits := ofBytes_fits raw
  generalize ofBytes raw = sb at h hfits ⊢
  have hlayout := brkfsValidateSuper_layoutOk h
  have horder := inOrder_of_layoutOk hlayout
  have hbs : 1024 ≤ sb.sBlocksize := hlayout.bs_ge
  have hbs' : sb.sBlocksize ≤ 4096 := hlayout.bs_le
  constructor
  · intro hsafe
    -- The last inode lies in the last block of the table.
    have hterm := hsafe.inodes.exact sb.sInodesCount hlayout.inodesPos (Nat.le_refl _)
      ((sb.sInodeTable + (sb.sInodesCount - 1) / (sb.sBlocksize / sb.sInodeSize)) * sb.sBlocksize)
      (by simp [inodeTerms, getBlockTerms])
    rw [← inodeTable_last hlayout]
    exact end_le_of_block_lt hlayout hterm
  · intro hend
    have hinodes := inodesCount_of_end hlayout hend
    have hbefore : ∀ area : Area, area.stop ≤ sb.inodeTableArea.stop →
        area.stop * sb.sBlocksize ≤ 4294967296 := fun area ha =>
      (Nat.mul_le_mul_right _ ha).trans hend
    have htable : sb.dataBitmapArea.stop ≤ sb.inodeTableArea.stop :=
      horder.inodeTable.trans (Nat.le_add_right _ _)
    have hbitmap : sb.inodeBitmapArea.stop ≤ sb.inodeTableArea.stop :=
      (horder.dataBitmap.trans (Nat.le_add_right _ _)).trans htable
    have his : sb.sInodeSize = 128 ∨ sb.sInodeSize = 256 := hlayout.inodeSize
    refine ⟨horder.apart, horder.below,
      ⟨by omega, by omega, Nat.div_pos (by omega) (by omega), by omega⟩,
      inodesSafe_of_end hlayout hend, ?_, ?_⟩
    · exact bitmapSafe_of_end hbs hbs' hlayout.inodesPos (by omega) rfl (hbefore _ hbitmap)
    · exact bitmapSafe_of_end hbs hbs' hlayout.dataPos (dataBlocksCount_lt hlayout hfits) rfl
        (hbefore _ htable)

end Accepted

/-! ## Two volumes -/

/-- The superblock of the tiny volume, with its checksum. -/
def tinyImage : ByteMem := (brkfsSuperSetChecksum tinySuper).bytes

theorem tinySuper_fits : tinySuper.Fits := ⟨by decide, by decide, rfl, rfl, List.length_replicate⟩

theorem tinyImage_super : ofBytes tinyImage = brkfsSuperSetChecksum tinySuper :=
  ofBytes_bytes (Fits.setChecksum tinySuper_fits)

theorem tinyImage_accepted {capacity : Nat} (hcap : 10240 ≤ capacity) :
    brkfsValidateSuper (ofBytes tinyImage) capacity = .ok () := by
  rw [tinyImage_super]
  simp only [brkfsValidateSuper, ite_error_eq_ok]
  refine ⟨?_, ?_, ?_, fun hc => hc (brkfsSuperChecksum_set tinySuper).symm, ?_, ?_, ?_, ?_, ?_, ?_,
    ?_, fun hc => absurd hc.2 (not_lt.2 hcap), ?_, ?_, ?_, ?_, ?_, trivial⟩ <;> decide

theorem addressing_safe_tiny : brkfsValidateSuper (SuperBlock.ofBytes tinyImage) 10240 = .ok () ∧
      AddressingSafe (SuperBlock.ofBytes tinyImage) := by
  have h := tinyImage_accepted le_rfl
  refine ⟨h, (addressing_safe_iff tinyImage 10240 h).2 ?_⟩
  decide

/-- A volume of blocks of 4096 bytes whose inode table begins at the byte `2 ^ 32`. -/
def wideSuper : SuperBlock :=
  { tinySuper with
    sBlocksize := 4096
    sInodeTable := 1048576
    sFirstDataBlock := 1048577
    sBackupSuper := 1048581
    sBlocksCount := 1048582 }

/-- The superblock of the wide volume, with its checksum. -/
def wideImage : ByteMem := (brkfsSuperSetChecksum wideSuper).bytes

theorem wideSuper_fits : wideSuper.Fits := ⟨by decide, by decide, rfl, rfl, List.length_replicate⟩

theorem wideImage_super : ofBytes wideImage = brkfsSuperSetChecksum wideSuper :=
  ofBytes_bytes (Fits.setChecksum wideSuper_fits)

theorem wideImage_accepted : brkfsValidateSuper (ofBytes wideImage) 4294991872 = .ok () := by
  rw [wideImage_super]
  simp only [brkfsValidateSuper, ite_error_eq_ok]
  refine ⟨?_, ?_, ?_, fun hc => hc (brkfsSuperChecksum_set wideSuper).symm, ?_, ?_, ?_, ?_, ?_, ?_,
    ?_, ?_, ?_, ?_, ?_, ?_, ?_, trivial⟩ <;> decide

/-- The wide volume, mounted. -/
def wideVol : Vol := { tinyVol with sb := SuperBlock.ofBytes wideImage }

/-- Inode 1 of the wide volume is accessed at the first byte of the device. -/
theorem addressing_wraps : brkfsValidateSuper (SuperBlock.ofBytes wideImage) 4294991872 = .ok () ∧
      wideVol.inodeBlock 1 = 1048576 ∧ (brkfsGetBlock wideVol 1048576).1 = .ok ⟨0, 0⟩ ∧
      ¬ AddressingSafe (SuperBlock.ofBytes wideImage) := by
  refine ⟨wideImage_accepted, ?_, ?_, ?_⟩
  · decide
  · rfl
  intro hsafe
  have hterm := hsafe.inodes.exact 1 le_rfl (by rw [wideImage_super]; decide) 4294967296
    (by rw [wideImage_super]; decide)
  exact absurd hterm (by decide)

/-! ## Blocks -/

/-- Every block number addresses its own bytes. -/
structure BlocksApart (sb : SuperBlock) : Prop where
  addr : ∀ (v v' : Vol) (bno : Nat) (bb : BlockRef), v.sb = sb → bno < sb.sBlocksCount →
    brkfsGetBlock v bno = (.ok bb, v') → bb.page * pageSize + bb.offset = bno * sb.sBlocksize
  disjoint : ∀ (v v₁ v₂ : Vol) (b c : Nat) (bb cc : BlockRef), v.sb = sb → b < sb.sBlocksCount →
    c < sb.sBlocksCount → b ≠ c → brkfsGetBlock v b = (.ok bb, v₁) →
    brkfsGetBlock v c = (.ok cc, v₂) →
    bb.addr + sb.sBlocksize ≤ cc.addr ∨ cc.addr + sb.sBlocksize ≤ bb.addr
  readWrite : ∀ (v v₀ v₁ v₂ : Vol) (b c : Nat) (buf r₀ r : ByteMem), v.sb = sb →
    b < sb.sBlocksCount → c < sb.sBlocksCount → b ≠ c → brkfsBlockRead v c = (.ok r₀, v₀) →
    brkfsBlockWrite v b buf = (.ok (), v₁) → brkfsBlockRead v₁ c = (.ok r, v₂) →
    ∀ i < sb.sBlocksize, r i = r₀ i

section Blocks

variable {sb : SuperBlock} {v v' : Vol} {b : Nat}

/-- A block that is read is the window at its address. -/
theorem blockRead_ok {r : ByteMem} (h : brkfsBlockRead v b = (.ok r, v')) :
    ∃ bb v1, brkfsGetBlock v b = (.ok bb, v1) ∧ r = window v1.bd.data bb.addr := by
  unfold brkfsBlockRead at h
  split at h
  · cases h
  next bb v1 hget =>
    cases h
    exact ⟨bb, v', hget, rfl⟩

theorem blockWrite_ok {buf : ByteMem} (h : brkfsBlockWrite v b buf = (.ok (), v')) :
    ∃ bb v1, brkfsGetBlock v b = (.ok bb, v1) ∧ v' = v1.poke bb.addr v1.sb.sBlocksize buf := by
  unfold brkfsBlockWrite at h
  split at h
  · cases h
  next bb v1 hget =>
    cases h
    exact ⟨bb, v1, hget, rfl⟩

theorem blocksApart_of_small (hpos : 0 < sb.sBlocksize)
    (hsmall : sb.sBlocksCount * sb.sBlocksize ≤ 4294967296) : BlocksApart sb := by
  have haddr : ∀ (v v' : Vol) (b : Nat) (bb : BlockRef), v.sb = sb → b < sb.sBlocksCount →
      brkfsGetBlock v b = (.ok bb, v') → bb.addr = b * sb.sBlocksize := by
    intro v v' b bb hv hb hget
    have hle := block_end_le (s := sb.sBlocksize) hb
    rw [(getBlock_addr hget).1, hv]
    exact u32_of_lt (by omega)
  refine ⟨haddr, ?_, ?_⟩
  · intro v v1 v2 b c bb cc hv hb hc hne hgetb hgetc
    rw [haddr v v1 b bb hv hb hgetb, haddr v v2 c cc hv hc hgetc]
    exact block_range_disjoint hne
  intro v v0 v1 v2 b c buf r0 r hv hb hc hne hread0 hwrite hread i hi
  obtain ⟨cc0, u0, hget0, rfl⟩ := blockRead_ok hread0
  obtain ⟨bb, u1, hget1, rfl⟩ := blockWrite_ok hwrite
  obtain ⟨cc, u2, hget2, rfl⟩ := blockRead_ok hread
  obtain ⟨-, -, hbd0⟩ := getBlock_addr hget0
  obtain ⟨-, hsb1, hbd1⟩ := getBlock_addr hget1
  obtain ⟨-, -, hbd2⟩ := getBlock_addr hget2
  rw [hv] at hsb1
  have hb2 := haddr (u1.poke bb.addr u1.sb.sBlocksize buf) u2 c cc hsb1 hc hget2
  rw [window_apply, window_apply, hbd2, hbd0, hb2, haddr v u0 c cc0 hv hc hget0,
    haddr v u1 b bb hv hb hget1, hsb1, ← hbd1]
  have hapart := @block_range_disjoint _ _ sb.sBlocksize hne
  refine blit_of_disjoint ?_
  rcases hapart with hbc | hcb
  · exact .inr (hbc.trans (Nat.le_add_right _ _))
  · exact .inl (by omega)

/-- A volume with a superblock and zeros. -/
def blankVol (sb : SuperBlock) : Vol := { tinyVol with sb }

/-- **Block numbers address the right bytes, up to 4 GiB.** On an accepted volume every block
number gives a page and an offset of its own bytes, blocks are apart and a write to one leaves the
others as they are, exactly when the volume has at most `2 ^ 32` bytes. -/
theorem blocks_apart_iff (raw : ByteMem) (capacity : Nat)
    (h : brkfsValidateSuper (SuperBlock.ofBytes raw) capacity = .ok ()) :
    BlocksApart (SuperBlock.ofBytes raw) ↔
      (SuperBlock.ofBytes raw).sBlocksCount * (SuperBlock.ofBytes raw).sBlocksize ≤ 4294967296 := by
  generalize ofBytes raw = sb at h ⊢
  have hlayout := brkfsValidateSuper_layoutOk h
  constructor
  · intro hapart
    have hcount : sb.sBackupSuper + 1 = sb.sBlocksCount := hlayout.backup
    have hlast : sb.sBackupSuper < sb.sBlocksCount := hcount ▸ Nat.lt_succ_self _
    have haddr := hapart.addr (blankVol sb) (blankVol sb) sb.sBackupSuper _ rfl hlast
      (brkfsGetBlock_eq rfl hlast)
    rw [← hcount]
    refine end_le_of_block_lt hlayout ?_
    rw [← haddr]
    exact (BlockRef.addr_split _).trans_lt (u32_lt _)
  · exact blocksApart_of_small hlayout.bs_pos

end Blocks

theorem blocks_apart_tiny : brkfsValidateSuper (SuperBlock.ofBytes tinyImage) 10240 = .ok () ∧
      BlocksApart (SuperBlock.ofBytes tinyImage) := by
  have h := tinyImage_accepted le_rfl
  refine ⟨h, (blocks_apart_iff tinyImage 10240 h).2 ?_⟩
  decide

/-- On the wide volume blocks 0 and 1048576 are the same bytes. -/
theorem blocks_alias : brkfsValidateSuper (SuperBlock.ofBytes wideImage) 4294991872 = .ok () ∧
      (brkfsGetBlock wideVol 0).1 = .ok ⟨0, 0⟩ ∧ (brkfsGetBlock wideVol 1048576).1 = .ok ⟨0, 0⟩ ∧
      ¬ BlocksApart (SuperBlock.ofBytes wideImage) := by
  have hzero : brkfsGetBlock wideVol 0 = (.ok ⟨0, 0⟩, wideVol) := by
    rfl
  have hwrap : brkfsGetBlock wideVol 1048576 = (.ok ⟨0, 0⟩, wideVol) := by
    rfl
  refine ⟨wideImage_accepted, congrArg Prod.fst hzero, congrArg Prod.fst hwrap, ?_⟩
  intro hapart
  have haddr := hapart.addr wideVol wideVol 1048576 ⟨0, 0⟩ rfl
    (by rw [wideImage_super]; decide) hwrap
  exact absurd haddr (by decide)

/-! ## Bits -/

/-- Bits of the bitmap of `nbits` bits from block `startBno` on are allocated and freed exactly. -/
structure BitmapExact (v : Vol) (startBno nbits : Nat) : Prop where
  alloc : BitSearch v (8 * (startBno * v.sb.sBlocksize)) nbits 0 (brkfsBitmapAlloc v startBno nbits)
  free : ∀ bit < nbits, ∃ v', BitStep v v' (8 * (startBno * v.sb.sBlocksize) + bit) false ∧
    brkfsBitmapFree v startBno nbits bit = (.ok (), v')
  restore : ∀ bit v₁, brkfsBitmapAlloc v startBno nbits = (.ok bit, v₁) →
    ∃ v₂, brkfsBitmapFree v₁ startBno nbits bit = (.ok (), v₂) ∧
      ∀ k, bitAt v₂.bd.data k = bitAt v.bd.data k

section Bits

variable {sb : SuperBlock} {v : Vol} {startBno nbits : Nat}

theorem bitmapExact_of_reach (h0 : 0 < nbits) (hn : nbits + v.sb.sBlocksize * 8 ≤ 4294967296)
    (h : v.Reach v.sb.geom (startBno + divCeil nbits (v.sb.sBlocksize * 8))) :
    BitmapExact v startBno nbits := by
  have halloc := brkfsBitmapAlloc_spec h0 hn h
  refine ⟨halloc, fun bit hbit => brkfsBitmapFree_spec hbit h, ?_⟩
  intro bit v1 hrun
  rcases halloc with ⟨i, v1', hi, hclear, hset, hrun'⟩ | ⟨-, hrun'⟩
  · cases hrun.symm.trans hrun'
    have h1 : v1.Reach v.sb.geom (startBno + divCeil nbits (v.sb.sBlocksize * 8)) :=
      ⟨congrArg geom hset.sb, h.layout, h.count, h.small, hset.faults.trans h.noFault⟩
    obtain ⟨v2, hfree, hrun2⟩ := brkfsBitmapFree_spec hi h1
    refine ⟨v2, by rwa [zero_add], fun k => ?_⟩
    rw [hfree.bit, hset.bit]
    split
    · next hk => exact hk ▸ hclear.symm
    · rfl
  · cases hrun.symm.trans hrun'

/-- Freeing the last bit of a bitmap marks the page of its last block, which is below `2 ^ 32`. -/
theorem BitmapExact.last_lt (h : BitmapExact (blankVol sb) startBno nbits) (h0 : 0 < nbits)
    (hbs : 0 < sb.sBlocksize) (hcount : sb.sBlocksCount < 4294967296)
    (hlast : startBno + (nbits - 1) / (sb.sBlocksize * 8) < sb.sBlocksCount) :
    (startBno + (nbits - 1) / (sb.sBlocksize * 8)) * sb.sBlocksize < 4294967296 := by
  obtain ⟨v', hstep, hrun⟩ := h.free (nbits - 1) (by omega)
  obtain ⟨bb, hget⟩ : ∃ bb, brkfsGetBlock (blankVol sb)
      (u32 (startBno + (nbits - 1) / (sb.sBlocksize * 8))) = (.ok bb, blankVol sb) := by
    rw [u32_of_lt (hlast.trans hcount)]
    exact ⟨_, brkfsGetBlock_eq rfl hlast⟩
  have haddr : bb.page * pageSize + bb.offset < 4294967296 :=
    (getBlock_addr hget).1.trans_lt (u32_lt _)
  cases hrun.symm.trans (brkfsBitmapFree_eq (by omega) rfl (Nat.mul_pos hbs (by decide)) hget)
  have hpage : bb.page = (8 * (startBno * sb.sBlocksize) + (nbits - 1)) / 8 / pageSize :=
    eq_of_beq ((hstep.dirty bb.page).symm.trans (beq_self_eq_true bb.page))
  have hle : (nbits - 1) / (sb.sBlocksize * 8) * sb.sBlocksize ≤ (nbits - 1) / 8 := by
    rw [mul_comm sb.sBlocksize, ← Nat.div_div_eq_div_mul]
    exact Nat.div_mul_le_self _ _
  rw [add_mul]
  unfold pageSize at haddr hpage
  omega

/-- Of a bitmap so large that the number of its blocks wraps to zero, only the first block is
searched. -/
theorem BitmapExact.bits_le (h : BitmapExact v startBno nbits) (hf : v.faults = [])
    (hs : startBno < v.sb.sBlocksCount) (hsmall : startBno * v.sb.sBlocksize < 4294967296)
    (hn : nbits < 4294967296) (hbs : v.sb.sBlocksize ≤ 4096)
    (hbit : ∀ i, bitAt v.bd.data (8 * (startBno * v.sb.sBlocksize) + i) =
      decide (i < v.bitsPerBlock)) : nbits + v.bitsPerBlock ≤ 4294967296 := by
  by_contra hlt
  have hbpb : v.bitsPerBlock = v.sb.sBlocksize * 8 := rfl
  have hceil : divCeil32 nbits v.bitsPerBlock = 0 := by
    refine Nat.div_eq_of_lt ?_
    unfold u32
    omega
  have hget := brkfsGetBlock_eq hf hs
  rw [u32_of_lt hsmall] at hget
  have hend : u32 (startBno + 0) ≤ startBno + 1 := (Nat.mod_le _ _).trans (Nat.le_succ _)
  have hmore : nbits > v.bitsPerBlock := by omega
  have hnone : bitmapAllocBit v.bd.data (startBno * v.sb.sBlocksize) v.bitsPerBlock = none := by
    rcases bitmapAllocBit_spec v.bd.data (startBno * v.sb.sBlocksize) v.bitsPerBlock with
      ⟨i, hi, hclear, -⟩ | ⟨-, hnone⟩
    · rw [hbit, decide_eq_true hi] at hclear
      cases hclear
    · exact hnone
  have hrun : brkfsBitmapAlloc v startBno nbits = (.error .enospc, v) := by
    simp only [brkfsBitmapAlloc, brkfsBitmapAllocFrom, hceil, hget, BlockRef.addr_split,
      if_pos hmore, hnone, if_pos hend]
  rcases h.alloc with ⟨i, v', -, -, -, hok⟩ | ⟨hall, -⟩
  · cases hrun.symm.trans hok
  · have hset := hall _ hmore
    rw [hbit, decide_eq_true_iff] at hset
    exact lt_irrefl _ hset

/-- A volume with all bits set up to the end of a block. -/
def onesVol (sb : SuperBlock) (bno : Nat) : Vol :=
  { blankVol sb with bd := { tinyVol.bd with
      data := fun a => if a < bno * sb.sBlocksize + sb.sBlocksize then 255 else 0 } }

theorem bitAt_ones (bno i : Nat) : bitAt (onesVol sb bno).bd.data (8 * (bno * sb.sBlocksize) + i) =
      decide (i < sb.sBlocksize * 8) := by
  have hi : (8 * (bno * sb.sBlocksize) + i) / 8 < bno * sb.sBlocksize + sb.sBlocksize ↔
      i < sb.sBlocksize * 8 := by omega
  simp only [onesVol, bitAt, hi]
  split
  · next h =>
    rw [decide_eq_true h]
    exact (Nat.testBit_two_pow_sub_one 8 _).trans (decide_eq_true (Nat.mod_lt _ (by decide)))
  · next h =>
    rw [decide_eq_false h]
    exact Nat.zero_testBit _

/-- **Bitmap allocation is exact, up to 4 GiB.** On volumes of an accepted layout bits are found,
set and cleared where they lie exactly when the bitmap ends within the first `2 ^ 32` bytes and the
32-bit division that gives its number of blocks does not wrap. -/
theorem bitmap_exact_iff (sb : SuperBlock) (h : sb.geom.LayoutOk)
    (hcount : sb.sBlocksCount < 4294967296) {startBno nbits : Nat} (h0 : 0 < nbits)
    (hn : nbits < 4294967296)
    (hend : startBno + divCeil nbits (sb.sBlocksize * 8) ≤ sb.sBlocksCount) :
    (∀ v : Vol, v.sb = sb → v.faults = [] → BitmapExact v startBno nbits) ↔
      (startBno + divCeil nbits (sb.sBlocksize * 8)) * sb.sBlocksize ≤ 4294967296 ∧
        nbits + sb.sBlocksize * 8 ≤ 4294967296 := by
  have hbs : 0 < sb.sBlocksize := h.bs_pos
  constructor
  · intro hexact
    have hlast := divCeil_eq_succ h0 (Nat.mul_pos hbs (by decide : 0 < 8))
    rw [hlast, ← add_assoc] at hend ⊢
    have hsmall := (hexact (blankVol sb) rfl rfl).last_lt h0 hbs hcount hend
    refine ⟨end_le_of_block_lt h hsmall, ?_⟩
    have hle := Nat.le_add_right startBno ((nbits - 1) / (sb.sBlocksize * 8))
    exact (hexact (onesVol sb startBno) rfl rfl).bits_le rfl (hle.trans_lt hend)
      ((Nat.mul_le_mul_right _ hle).trans_lt hsmall) hn h.bs_le (bitAt_ones startBno)
  · rintro ⟨hsmall, hbits⟩ v rfl hf
    exact bitmapExact_of_reach h0 hbits ⟨rfl, h, hend, hsmall, hf⟩

end Bits

theorem bitmap_exact_tiny : BitmapExact tinyVol 3 4 :=
  (bitmap_exact_iff tinySuper tinySuper_layoutOk (by decide) (by decide) (by decide)
    (by decide)).2 (by decide) tinyVol rfl rfl

/-- A layout whose data bitmap begins at the byte `2 ^ 32`. -/
def lateSuper : SuperBlock :=
  { wideSuper with
    sDataBlockBitmap := 1048576
    sInodeTable := 1048577
    sFirstDataBlock := 1048578
    sBackupSuper := 1048582
    sBlocksCount := 1048583 }

/-- Freeing bit 0 of that bitmap changes the first page of the device. -/
theorem bitmap_free_wraps : lateSuper.geom.LayoutOk ∧
      (brkfsBitmapFree (blankVol lateSuper) 1048576 4 0).2.bd.dirty 0 = true ∧
      ¬ BitmapExact (blankVol lateSuper) 1048576 4 := by
  refine ⟨by constructor <;> decide, rfl, ?_⟩
  intro h
  have hlt := h.last_lt (by decide) (by decide) (by decide) (by decide)
  exact absurd hlt (by decide)

end BrkKernel.Brkfs
