import BrkKernel.Kern.Bitmap
import BrkKernel.Brkfs.Layout
import Mathlib.Data.Finset.Card

/-!
# Block access and block allocation

`fs/brkfs/block.c` over a mounted volume. The block device is seen through its page cache: `data`
is what `read_mapping_page` on `bd_mapping` yields, `dirty` the pages marked for write-back, `disk`
the medium. Memory exhaustion and I/O errors come from `faults`, one answer for every request in
program order; with no answers left nothing fails.

On a volume of at most `2 ^ 32` bytes block numbers address their own bytes
(`brkfsBlockRead_eq`, `brkfsBlockWrite_eq`), and allocating or freeing a data block changes one bit
of the data bitmap and the free counter (`brkfsDataAlloc_spec`, `brkfsDataFree_spec`). `Frame` says
which blocks an operation may have written.
-/

set_option autoImplicit false

namespace BrkKernel.Brkfs

open Lib Lib.ByteMem Finset

/-- The block device below a mounted volume. -/
structure Bdev where
  data : ByteMem
  dirty : Nat → Bool
  disk : ByteMem
  phyBcnt : Nat

/-- A mounted volume: `struct brkfs_sb_info` with its device, and the answers to the coming
allocation and I/O requests (`none` grants the request). -/
structure Vol where
  sb : SuperBlock
  superDirty : Bool
  bd : Bdev
  faults : List (Option Errno)

variable {val : Bool} {g : Geometry} {b n x s a d : Nat} {M : Nat → Prop} {v : Vol}

/-- The answer to the next request that can fail. -/
def Vol.tick (v : Vol) : Option Errno × Vol :=
  match v.faults with
  | [] => (none, v)
  | f :: fs => (f, { v with faults := fs })

/-- `kmalloc`: whether a buffer was obtained. -/
def kmalloc (v : Vol) : Bool × Vol := (v.tick.1.isNone, v.tick.2)

/-- `s_inodes_per_block`. -/
def Vol.inodesPerBlock (v : Vol) : Nat := v.sb.sBlocksize / v.sb.sInodeSize

/-- `s_bits_per_block`. -/
def Vol.bitsPerBlock (v : Vol) : Nat := v.sb.sBlocksize * 8

/-- `struct brkfs_block`: a page of `bd_mapping` and an offset in it. -/
structure BlockRef where
  page : Nat
  offset : Nat
deriving DecidableEq

/-- Device address of a block reference. -/
def BlockRef.addr (bb : BlockRef) : Nat := bb.page * pageSize + bb.offset

/-- The device after `n` bytes were copied to `a` through one cached page, which is marked dirty. -/
def Vol.poke (v : Vol) (a n : Nat) (src : ByteMem) : Vol :=
  { v with bd := { v.bd with
      data := blit v.bd.data a n src
      dirty := fun p => v.bd.dirty p || p == a / pageSize } }

/-- The device after a bitmap word of the page of `bb` was replaced. -/
def Vol.setBits (v : Vol) (bb : BlockRef) (data : ByteMem) : Vol :=
  { v with bd := { v.bd with
      data := data
      dirty := fun p => v.bd.dirty p || p == bb.page } }

/-- `brkfs_get_block`. The product `bno * bsize` is computed in 32 bits. -/
def brkfsGetBlock (v : Vol) (bno : Nat) : Except Errno BlockRef × Vol :=
  if v.sb.sBlocksCount ≤ bno then (.error .einval, v)
  else
    match v.tick with
    | (some e, v') => (.error e, v')
    | (none, v') =>
      (.ok ⟨u32 (bno * v.sb.sBlocksize) / pageSize, u32 (bno * v.sb.sBlocksize) % pageSize⟩, v')

/-- `brkfs_block_read`: the buffer after the copy. -/
def brkfsBlockRead (v : Vol) (bno : Nat) : Except Errno ByteMem × Vol :=
  match brkfsGetBlock v bno with
  | (.error e, v') => (.error e, v')
  | (.ok bb, v') => (.ok (window v'.bd.data bb.addr), v')

/-- `brkfs_block_write`. -/
def brkfsBlockWrite (v : Vol) (bno : Nat) (buf : ByteMem) : Except Errno Unit × Vol :=
  match brkfsGetBlock v bno with
  | (.error e, v') => (.error e, v')
  | (.ok bb, v') => (.ok (), v'.poke bb.addr v'.sb.sBlocksize buf)

/-- The loop of `brkfs_bitmap_alloc`, at block `bno` with `nbits` bits left. The fuel is the number
of bitmap blocks left. -/
def brkfsBitmapAllocFrom (startBno endBno : Nat) : Nat → Vol → Nat → Nat → Except Errno Nat × Vol
  | 0, v, _, _ => (.error .enospc, v)
  | fuel + 1, v, nbits, bno =>
    match brkfsGetBlock v bno with
    | (.error e, v') => (.error e, v')
    | (.ok bb, v') =>
      let n := if nbits > v.bitsPerBlock then v.bitsPerBlock else nbits
      match bitmapAllocBit v'.bd.data bb.addr n with
      | some (bit, data) =>
        (.ok (u32 ((bno - startBno) * v.bitsPerBlock + bit)), v'.setBits bb data)
      | none =>
        if endBno ≤ bno + 1 then (.error .enospc, v')
        else brkfsBitmapAllocFrom startBno endBno fuel v' (nbits - n) (bno + 1)

/-- `brkfs_bitmap_alloc`. -/
def brkfsBitmapAlloc (v : Vol) (startBno nbits : Nat) : Except Errno Nat × Vol :=
  let nblks := divCeil32 nbits v.bitsPerBlock
  brkfsBitmapAllocFrom startBno (u32 (startBno + nblks)) (nblks + 1) v nbits startBno

/-- `brkfs_bitmap_free`. -/
def brkfsBitmapFree (v : Vol) (startBno nbits bit : Nat) : Except Errno Unit × Vol :=
  if nbits ≤ bit then (.error .einval, v)
  else
    let bpb := v.bitsPerBlock
    let lb := bit / bpb * bpb
    let n := if nbits - lb > bpb then bpb else nbits - lb
    match brkfsGetBlock v (u32 (startBno + bit / bpb)) with
    | (.error e, v') => (.error e, v')
    | (.ok bb, v') => (.ok (), v'.setBits bb (bitmapFreeBit v'.bd.data bb.addr n (bit - lb)))

/-- The volume after a change of the in-core superblock, which is marked dirty. -/
def Vol.setSuper (v : Vol) (sb : SuperBlock) : Vol := { v with sb := sb, superDirty := true }

/-- `brkfs_data_alloc`. -/
def brkfsDataAlloc (v : Vol) : Except Errno Nat × Vol :=
  match brkfsBitmapAlloc v v.sb.sDataBlockBitmap v.sb.sDataBlocksCount with
  | (.error e, v') => (.error e, v')
  | (.ok bit, v') =>
    (.ok (u32 (v'.sb.sFirstDataBlock + bit)),
      v'.setSuper { v'.sb with sFreeBlocks := v'.sb.sFreeBlocks - 1 })

/-- `brkfs_data_free`. -/
def brkfsDataFree (v : Vol) (bno : Nat) : Except Errno Unit × Vol :=
  if bno < v.sb.sFirstDataBlock ∨
      u32 (v.sb.sFirstDataBlock + v.sb.sDataBlocksCount) ≤ bno then (.error .einval, v)
  else
    match brkfsBitmapFree v v.sb.sDataBlockBitmap v.sb.sDataBlocksCount
        (bno - v.sb.sFirstDataBlock) with
    | (.error e, v') => (.error e, v')
    | (.ok (), v') =>
      (.ok (), v'.setSuper { v'.sb with sFreeBlocks := u32 (v'.sb.sFreeBlocks + 1) })

/-- `brkfs_valid_data_bno`. -/
def brkfsValidDataBno (v : Vol) (bno : Nat) : Bool :=
  v.sb.sFirstDataBlock ≤ bno && bno < v.sb.sFirstDataBlock + v.sb.sDataBlocksCount

/-! ## Addresses on a small volume -/

/-- A mounted volume of geometry `g` and at most `2 ^ 32` bytes on which no request fails. -/
structure Vol.Ok (g : Geometry) (v : Vol) : Prop where
  geom : v.sb.geom = g
  layout : g.LayoutOk
  small : g.blocksCount * g.blocksize ≤ 2 ^ 32
  noFault : v.faults = []

/-- A volume on which no request fails and whose blocks below `stop` lie within 4 GiB. -/
structure Vol.Reach (g : Geometry) (v : Vol) (stop : Nat) : Prop where
  geom : v.sb.geom = g
  layout : g.LayoutOk
  count : stop ≤ g.blocksCount
  small : stop * g.blocksize ≤ 2 ^ 32
  noFault : v.faults = []

/-- The tiny volume without files. -/
def tinyVol : Vol where
  sb := tinySuper
  superDirty := false
  bd := ⟨fun _ => 0, fun _ => false, fun _ => 0, 20⟩
  faults := []

theorem tinyVol_ok : tinyVol.Ok tinySuper.geom := ⟨rfl, tinySuper_layoutOk, by decide, rfl⟩

/-- Data blocks of the volume. -/
def Geometry.IsData (g : Geometry) (b : Nat) : Prop :=
  g.firstDataBlock ≤ b ∧ b < g.firstDataBlock + g.dataBlocksCount

instance (g : Geometry) (b : Nat) : Decidable (g.IsData b) :=
  inferInstanceAs (Decidable (_ ∧ _))

/-- Blocks of the data bitmap, up to the inode table. -/
def Geometry.IsDataBitmap (g : Geometry) (b : Nat) : Prop :=
  g.dataBlockBitmap ≤ b ∧ b < g.inodeTable

namespace Geometry.LayoutOk

variable {g : Geometry} {b : Nat}

section

variable (h : g.LayoutOk)

include h

theorem bs_pos : 0 < g.blocksize := by
  rcases h.blocksize with hb | hb | hb <;> omega

theorem bs_ge : 1024 ≤ g.blocksize := by
  rcases h.blocksize with hb | hb | hb <;> omega

theorem bs_le : g.blocksize ≤ 4096 := by
  rcases h.blocksize with hb | hb | hb <;> omega

theorem isData_lt (hb : g.IsData b) : b < g.blocksCount := by
  have h1 := h.afterData
  have h2 := h.backup
  have h3 := hb.2
  omega

theorem inodeBitmap_pos : 0 < g.inodeBitmap := by
  have h1 := h.afterSuper
  rcases Nat.eq_zero_or_pos g.inodeBitmap with h0 | h0
  · rw [h0, zero_mul] at h1
    exact absurd h1 (by decide)
  · exact h0

theorem isData_ne_zero (hb : g.IsData b) : b ≠ 0 := by
  have h0 := h.inodeBitmap_pos
  have h2 := h.afterInodeBitmap
  have h3 := h.afterDataBitmap
  have h4 := h.afterInodeTable
  have h5 := hb.1
  omega

theorem not_isData_zero : ¬ g.IsData 0 := fun hb => h.isData_ne_zero hb rfl

theorem isData_not_bitmap (hb : g.IsData b) : ¬ g.IsDataBitmap b := by
  have h4 := h.afterInodeTable
  have h5 := hb.1
  intro hc
  have h6 := hc.2
  omega

theorem bitmap_ne (hb : g.IsData b) (c : Nat) (hc : g.IsDataBitmap c) : ¬ c = b := by
  rintro rfl
  exact h.isData_not_bitmap hb hc

/-- All bytes of a block lie in one page. -/
theorem block_page (hx : x < g.blocksize) :
    (b * g.blocksize + x) / pageSize = b * g.blocksize / pageSize := by
  unfold pageSize
  rcases h.blocksize with hb | hb | hb <;> rw [hb] at hx ⊢ <;> omega

end

end Geometry.LayoutOk

theorem block_end_le (h : b < n) : b * s + s ≤ n * s := by
  rw [← Nat.succ_mul]
  exact Nat.mul_le_mul_right s h

/-- Distinct blocks occupy disjoint address ranges. -/
theorem block_range_disjoint {c bs : Nat} (h : b ≠ c) :
    b * bs + bs ≤ c * bs ∨ c * bs + bs ≤ b * bs := by
  rcases Nat.lt_or_gt_of_ne h with h | h
  · exact .inl (block_end_le h)
  · exact .inr (block_end_le h)

theorem block_div (h : x < s) : (b * s + x) / s = b := by
  rw [mul_comm, Nat.mul_add_div (by omega), Nat.div_eq_of_lt h, add_zero]

section Access

variable {g : Geometry} {v : Vol} {b : Nat}

namespace Vol.Ok

section

variable (h : v.Ok g)

include h

theorem bs : v.sb.sBlocksize = g.blocksize := congrArg Geometry.blocksize h.geom

theorem firstDataBlock : v.sb.sFirstDataBlock = g.firstDataBlock :=
  congrArg Geometry.firstDataBlock h.geom

theorem dataBlocksCount : v.sb.sDataBlocksCount = g.dataBlocksCount :=
  congrArg Geometry.dataBlocksCount h.geom

theorem dataBlockBitmap : v.sb.sDataBlockBitmap = g.dataBlockBitmap :=
  congrArg Geometry.dataBlockBitmap h.geom

theorem reach : v.Reach g g.blocksCount :=
  ⟨h.geom, h.layout, le_rfl, h.small, h.noFault⟩

end

end Vol.Ok

theorem brkfsGetBlock_eq (hf : v.faults = []) (hb : b < v.sb.sBlocksCount) : brkfsGetBlock v b =
      (.ok ⟨u32 (b * v.sb.sBlocksize) / pageSize, u32 (b * v.sb.sBlocksize) % pageSize⟩, v) := by
  rw [brkfsGetBlock, if_neg (not_le.2 hb), Vol.tick, hf]

namespace Vol.Reach

variable {stop : Nat}

section

variable (h : v.Reach g stop)

include h

theorem stop_le : stop ≤ 4194304 := by
  have h1 := h.small
  have h2 : stop * 1024 ≤ stop * g.blocksize := Nat.mul_le_mul_left _ h.layout.bs_ge
  omega

theorem mono (hn : n ≤ stop) : v.Reach g n :=
  ⟨h.geom, h.layout, hn.trans h.count, (Nat.mul_le_mul_right _ hn).trans h.small, h.noFault⟩

theorem bitsPerBlock : v.bitsPerBlock = g.blocksize * 8 := by
  rw [← h.geom]
  rfl

/-- A block number below the limit addresses its own bytes. -/
theorem getBlock (hb : b < stop) : brkfsGetBlock v b =
      (.ok ⟨b * g.blocksize / pageSize, b * g.blocksize % pageSize⟩, v) := by
  have hsmall := h.small
  have hpos := h.layout.bs_pos
  have hend := block_end_le (s := g.blocksize) hb
  have hcount := h.count
  rw [← h.geom] at hcount
  have hu : u32 (b * v.sb.sBlocksize) = b * g.blocksize := by
    rw [show v.sb.sBlocksize = g.blocksize from congrArg Geometry.blocksize h.geom]
    exact u32_of_lt (by omega)
  rw [brkfsGetBlock_eq h.noFault (hb.trans_le hcount), hu]

end

end Vol.Reach

theorem brkfsValidDataBno_iff (h : v.Ok g) : brkfsValidDataBno v b = true ↔ g.IsData b := by
  simp [brkfsValidDataBno, Geometry.IsData, h.firstDataBlock, h.dataBlocksCount]

theorem brkfsValidDataBno_eq_false (h : v.Ok g) (hb : ¬ g.IsData b) :
    brkfsValidDataBno v b = false :=
  Bool.eq_false_iff.2 fun hc => hb ((brkfsValidDataBno_iff h).1 hc)

theorem BlockRef.addr_split (a : Nat) : BlockRef.addr ⟨a / pageSize, a % pageSize⟩ = a :=
  Nat.div_add_mod' _ _

/-- A fault changes no byte. -/
theorem Vol.tick_same (v : Vol) : v.tick.2.sb = v.sb ∧ v.tick.2.bd = v.bd := by
  unfold Vol.tick
  split
  · exact ⟨rfl, rfl⟩
  · exact ⟨rfl, rfl⟩

/-- The address that `brkfs_get_block` gives to a block is cut to 32 bits. No byte changes. -/
theorem getBlock_addr {v' : Vol} {bb : BlockRef} (h : brkfsGetBlock v b = (.ok bb, v')) :
    bb.addr = u32 (b * v.sb.sBlocksize) ∧ v'.sb = v.sb ∧ v'.bd = v.bd := by
  have htick := v.tick_same
  unfold brkfsGetBlock at h
  split at h
  · cases h
  split at h
  · cases h
  next u hu =>
    rw [hu] at htick
    cases h
    exact ⟨BlockRef.addr_split _, htick⟩

/-- Looking up a block again gives the same place. -/
theorem getBlock_again {v' v1 : Vol} {bb : BlockRef}
    (h : brkfsGetBlock v b = (.ok bb, v1)) (hsb : v'.sb = v.sb) (htick : v'.tick.1 = none) :
    brkfsGetBlock v' b = (.ok bb, v'.tick.2) := by
  unfold brkfsGetBlock at h ⊢
  rw [hsb]
  split at h
  · cases h
  rename_i hb
  rw [if_neg hb]
  split at h
  · cases h
  cases h
  split
  next ht => exact nomatch (congrArg Prod.fst ht).symm.trans htick
  next u ht => rw [ht]

theorem brkfsBlockRead_eq (h : v.Ok g) (hb : b < g.blocksCount) :
    brkfsBlockRead v b = (.ok (window v.bd.data (b * g.blocksize)), v) := by
  rw [brkfsBlockRead, h.reach.getBlock hb]
  simp only [BlockRef.addr_split]

theorem brkfsBlockWrite_eq (h : v.Ok g) (hb : b < g.blocksCount) (buf : ByteMem) :
    brkfsBlockWrite v b buf = (.ok (), v.poke (b * g.blocksize) g.blocksize buf) := by
  rw [brkfsBlockWrite, h.reach.getBlock hb]
  simp only [BlockRef.addr_split, h.bs]

theorem kmalloc_eq (h : v.Ok g) : kmalloc v = (true, v) := by
  simp only [kmalloc, Vol.tick, h.noFault, Option.isNone_none]

end Access

/-! ## What an operation may change -/

/-- Cached device pages that are not dirty hold what the medium holds. -/
def Vol.Synced (v : Vol) : Prop :=
  ∀ a, a < 512 * v.bd.phyBcnt → v.bd.dirty (a / pageSize) = false → v.bd.data a = v.bd.disk a

/-- `v'` arises from `v` by writes to blocks in `M` and to the in-core superblock counters. -/
structure Frame (g : Geometry) (M : Nat → Prop) (v v' : Vol) : Prop where
  ok : v.Ok g → v'.Ok g
  synced : v.Synced → v'.Synced
  capacity : v'.bd.phyBcnt = v.bd.phyBcnt
  bytes : ∀ a, ¬ M (a / g.blocksize) → v'.bd.data a = v.bd.data a

namespace Frame

variable {g : Geometry} {M N : Nat → Prop} {v v' v'' : Vol}

theorem refl (g : Geometry) (M : Nat → Prop) (v : Vol) : Frame g M v v :=
  ⟨id, id, rfl, fun _ _ => rfl⟩

theorem trans (h : Frame g M v v') (h' : Frame g M v' v'') : Frame g M v v'' where
  ok := h'.ok ∘ h.ok
  synced := h'.synced ∘ h.synced
  capacity := h'.capacity.trans h.capacity
  bytes a ha := (h'.bytes a ha).trans (h.bytes a ha)

theorem mono (h : Frame g M v v') (hMN : ∀ b, M b → N b) : Frame g N v v' :=
  { h with bytes := fun a ha => h.bytes a fun hm => ha (hMN _ hm) }

/-- Blocks outside `M` keep their contents. -/
theorem block_byte (h : Frame g M v v') (hb : ¬ M b) (hx : x < g.blocksize) :
    v'.bd.data (b * g.blocksize + x) = v.bd.data (b * g.blocksize + x) :=
  h.bytes _ (by rwa [block_div hx])

end Frame

/-- A copy inside one page touches the blocks it overlaps. -/
theorem frame_poke_of {buf : ByteMem} (hpage : ∀ x, a ≤ x → x < a + n → x / pageSize = a / pageSize)
    (hM : ∀ x, a ≤ x → x < a + n → M (x / g.blocksize)) : Frame g M v (v.poke a n buf) where
  ok h := ⟨h.geom, h.layout, h.small, h.noFault⟩
  synced h x hcap hd := by
    simp only [Vol.poke, Bool.or_eq_false_iff, beq_eq_false_iff_ne] at hd ⊢
    have hout : x < a ∨ a + n ≤ x := by
      by_contra hc
      exact hd.2 (hpage x (by omega) (by omega))
    rw [blit_of_disjoint hout]
    exact h x hcap hd.1
  capacity := rfl
  bytes x hx := by
    refine blit_of_disjoint ?_
    by_contra hc
    exact hx (hM x (by omega) (by omega))

theorem frame_poke (hg : g.LayoutOk) (buf : ByteMem) :
    Frame g (· = b) v (v.poke (b * g.blocksize) g.blocksize buf) := by
  refine frame_poke_of (fun x h1 h2 => ?_) fun x h1 h2 => ?_
  · have hp := hg.block_page (b := b) (x := x - b * g.blocksize) (by omega)
    rwa [Nat.add_sub_cancel' h1] at hp
  · have hd := block_div (b := b) (s := g.blocksize) (x := x - b * g.blocksize) (by omega)
    rwa [Nat.add_sub_cancel' h1] at hd

/-- Changes to the superblock fields outside the geometry are within any frame. -/
theorem frame_setSuper {sb : SuperBlock} (h : sb.geom = v.sb.geom) :
    Frame g M v (v.setSuper sb) where
  ok hv := ⟨h.trans hv.geom, hv.layout, hv.small, hv.noFault⟩
  synced := id
  capacity := rfl
  bytes _ _ := rfl

/-! ## Bitmaps on the device -/

/-- `v'` is `v` with one bit of the device set to `val`. -/
structure BitStep (v v' : Vol) (n : Nat) (val : Bool) : Prop where
  sb : v'.sb = v.sb
  superDirty : v'.superDirty = v.superDirty
  faults : v'.faults = v.faults
  disk : v'.bd.disk = v.bd.disk
  capacity : v'.bd.phyBcnt = v.bd.phyBcnt
  dirty : ∀ p, v'.bd.dirty p = (v.bd.dirty p || p == n / 8 / pageSize)
  bit : ∀ k, bitAt v'.bd.data k = if k = n then val else bitAt v.bd.data k

theorem BitStep.byte_eq {v' : Vol} (h : BitStep v v' n val) (ha : a ≠ n / 8) :
    v'.bd.data a = v.bd.data a := by
  refine eq_of_bitAt_eq fun t ht => ?_
  rw [h.bit, if_neg (by omega)]

theorem BitStep.frame {v' : Vol} (h : BitStep v v' n val) :
    Frame g (· = n / 8 / g.blocksize) v v' where
  ok hv := ⟨by rw [h.sb]; exact hv.geom, hv.layout, hv.small, by rw [h.faults]; exact hv.noFault⟩
  synced hv a hcap hd := by
    rw [h.dirty, Bool.or_eq_false_iff, beq_eq_false_iff_ne] at hd
    rw [h.capacity] at hcap
    have hne : a ≠ n / 8 := by
      rintro rfl
      exact hd.2 rfl
    rw [h.byte_eq hne, h.disk]
    exact hv a hcap hd.1
  capacity := h.capacity
  bytes a ha := h.byte_eq (by rintro rfl; exact ha rfl)

section BitmapBlocks

variable {g : Geometry} {v : Vol}

theorem bitStep_setBits {i : Nat} {data : ByteMem} (hg : g.LayoutOk) (hi : i < g.blocksize * 8)
    (hbit : ∀ k, bitAt data k = if k = 8 * (b * g.blocksize) + i then val else bitAt v.bd.data k) :
    BitStep v (v.setBits ⟨b * g.blocksize / pageSize, b * g.blocksize % pageSize⟩ data)
      (8 * (b * g.blocksize) + i) val where
  sb := rfl
  superDirty := rfl
  faults := rfl
  disk := rfl
  capacity := rfl
  dirty p := by
    have e : (8 * (b * g.blocksize) + i) / 8 = b * g.blocksize + i / 8 := by omega
    rw [e, hg.block_page (by omega)]
    rfl
  bit := hbit

/-- What a search of `nbits` bits from `base` on does: it sets the first clear bit and returns its
number, from `first` on, or all bits are set. -/
def BitSearch (v : Vol) (base nbits first : Nat) (out : Except Errno Nat × Vol) : Prop :=
  (∃ i v', i < nbits ∧ bitAt v.bd.data (base + i) = false ∧ BitStep v v' (base + i) true ∧
    out = (.ok (first + i), v')) ∨
  (∀ i < nbits, bitAt v.bd.data (base + i) = true) ∧ out = (.error .enospc, v)

theorem brkfsBitmapAllocFrom_spec {startBno endBno : Nat} (h : v.Reach g endBno)
    (fuel nbits bno : Nat) (hend : bno + fuel = endBno) (hs : startBno ≤ bno) (hpos : 0 < fuel)
    (hn : nbits ≤ fuel * (g.blocksize * 8))
    (hu : ∀ i < nbits, (bno - startBno) * (g.blocksize * 8) + i < 4294967296) :
    BitSearch v (8 * (bno * g.blocksize)) nbits ((bno - startBno) * (g.blocksize * 8))
      (brkfsBitmapAllocFrom startBno endBno (fuel + 1) v nbits bno) := by
  induction fuel generalizing nbits bno with
  | zero => exact absurd hpos (lt_irrefl 0)
  | succ fuel ih =>
    have hidx : (bno + 1 - startBno) * (g.blocksize * 8) =
        (bno - startBno) * (g.blocksize * 8) + g.blocksize * 8 := by
      rw [Nat.succ_sub hs, Nat.succ_mul]
    have hnext : 8 * ((bno + 1) * g.blocksize) = 8 * (bno * g.blocksize) + g.blocksize * 8 := by
      rw [Nat.succ_mul bno]
      omega
    rw [Nat.succ_mul] at hn
    replace ih := ih (nbits - g.blocksize * 8) (bno + 1) (by omega) (by omega)
    rw [hnext, hidx] at ih
    rw [brkfsBitmapAllocFrom, h.getBlock (by omega)]
    simp only [h.bitsPerBlock, BlockRef.addr_split]
    generalize hbp : g.blocksize * 8 = bpb at *
    rw [show (if nbits > bpb then bpb else nbits) = min nbits bpb by split <;> omega]
    rcases bitmapAllocBit_spec v.bd.data (bno * g.blocksize) (min nbits bpb) with
      ⟨i, hi, hclear, hres⟩ | ⟨hset, hres⟩
    · left
      have hu' : u32 ((bno - startBno) * bpb + i) = (bno - startBno) * bpb + i :=
        u32_of_lt (hu i (by omega))
      refine ⟨i, _, by omega, hclear, ?_, by rw [hres]; simp only [hu']; rfl⟩
      exact bitStep_setBits h.layout (by omega) (bitAt_bitmapSetBit _ _ _)
    rw [hres]
    by_cases hlast : endBno ≤ bno + 1
    · right
      obtain rfl : fuel = 0 := by omega
      rw [if_pos hlast]
      exact ⟨fun i hi => hset i (by omega), rfl⟩
    -- bits of later blocks are read only when this block is full
    rw [if_neg hlast, show nbits - min nbits bpb = nbits - bpb by omega]
    rcases ih (by omega) (by omega) fun i hi => by have := hu (bpb + i) (by omega); omega with
      ⟨i, v', hi, hclear, hstep, hrun⟩ | ⟨hall, hrun⟩
    · rw [add_assoc] at hclear hstep hrun
      exact .inl ⟨bpb + i, v', by omega, hclear, hstep, hrun⟩
    · right
      refine ⟨fun i hi => ?_, hrun⟩
      by_cases hin : i < bpb
      · exact hset i (by omega)
      · have hi' := hall (i - bpb) (by omega)
        rwa [add_assoc, Nat.add_sub_cancel' (by omega)] at hi'

theorem le_divCeil_mul (n : Nat) {d : Nat} (hd : 0 < d) : n ≤ divCeil n d * d :=
  (roundUp_bounds n hd).1

theorem divCeil_pos (hn : 0 < n) (hd : 0 < d) : 0 < divCeil n d :=
  Nat.div_pos (by omega) hd

theorem brkfsBitmapAlloc_spec {startBno nbits : Nat} (h0 : 0 < nbits)
    (hn : nbits + g.blocksize * 8 ≤ 4294967296)
    (h : v.Reach g (startBno + divCeil nbits (g.blocksize * 8))) :
    BitSearch v (8 * (startBno * g.blocksize)) nbits 0 (brkfsBitmapAlloc v startBno nbits) := by
  have hbs := h.layout.bs_pos
  have hcov := le_divCeil_mul nbits (d := g.blocksize * 8) (by omega)
  have hpos := divCeil_pos (d := g.blocksize * 8) h0 (by omega)
  have hmain := brkfsBitmapAllocFrom_spec h
    (divCeil nbits (g.blocksize * 8)) nbits startBno rfl (Nat.le_refl _) hpos hcov fun i hi => by
      rw [Nat.sub_self, Nat.zero_mul]
      omega
  have hceil : divCeil32 nbits (g.blocksize * 8) = divCeil nbits (g.blocksize * 8) :=
    divCeil32_of_lt (by omega)
  have hu : u32 (startBno + divCeil nbits (g.blocksize * 8)) =
      startBno + divCeil nbits (g.blocksize * 8) := u32_of_lt (h.stop_le.trans_lt (by decide))
  rw [Nat.sub_self, Nat.zero_mul] at hmain
  simpa only [brkfsBitmapAlloc, h.bitsPerBlock, hceil, hu] using hmain

/-- `brkfs_bitmap_free` clears a bit of the block that `brkfs_get_block` gives it. -/
theorem brkfsBitmapFree_eq {startBno nbits bit bpb : Nat} {bb : BlockRef} (hbit : bit < nbits)
    (hbpb : v.bitsPerBlock = bpb) (hpos : 0 < bpb)
    (hget : brkfsGetBlock v (u32 (startBno + bit / bpb)) = (.ok bb, v)) :
    brkfsBitmapFree v startBno nbits bit =
      (.ok (), v.setBits bb (bitmapClearBit v.bd.data bb.addr (bit % bpb))) := by
  have hd := Nat.div_add_mod' bit bpb
  have hm := Nat.mod_lt bit hpos
  have hn : bit % bpb <
      (if nbits - bit / bpb * bpb > bpb then bpb else nbits - bit / bpb * bpb) := by
    split <;> omega
  have hoff : bit - bit / bpb * bpb = bit % bpb := by omega
  rw [brkfsBitmapFree, if_neg (not_le.2 hbit)]
  simp only [hbpb, hget, hoff, bitmapFreeBit, if_pos hn]

/-- `brkfs_bitmap_free` clears the bit. -/
theorem brkfsBitmapFree_spec {startBno nbits bit : Nat} (hbit : bit < nbits)
    (h : v.Reach g (startBno + divCeil nbits (g.blocksize * 8))) :
    ∃ v', BitStep v v' (8 * (startBno * g.blocksize) + bit) false ∧
      brkfsBitmapFree v startBno nbits bit = (.ok (), v') := by
  have hbs := h.layout.bs_pos
  have hd := Nat.div_add_mod' bit (g.blocksize * 8)
  have hblk : bit / (g.blocksize * 8) < divCeil nbits (g.blocksize * 8) := by
    rw [Nat.div_lt_iff_lt_mul (by omega)]
    exact lt_of_lt_of_le hbit (le_divCeil_mul nbits (by omega))
  have haddr : 8 * ((startBno + bit / (g.blocksize * 8)) * g.blocksize) +
      bit % (g.blocksize * 8) = 8 * (startBno * g.blocksize) + bit := by
    have e : 8 * (bit / (g.blocksize * 8) * g.blocksize) =
        bit / (g.blocksize * 8) * (g.blocksize * 8) := by ring
    rw [add_mul, mul_add, e]
    omega
  have hlt := h.stop_le
  have hu : u32 (startBno + bit / (g.blocksize * 8)) = startBno + bit / (g.blocksize * 8) :=
    u32_of_lt (by omega)
  have hget := (congrArg (brkfsGetBlock v) hu).trans (h.getBlock (by omega))
  refine ⟨_, ?_, brkfsBitmapFree_eq hbit h.bitsPerBlock (by omega) hget⟩
  rw [BlockRef.addr_split, ← haddr]
  exact bitStep_setBits h.layout (Nat.mod_lt _ (by omega)) (bitAt_bitmapClearBit _ _ _)

end BitmapBlocks

/-! ## Data blocks -/

/-- The data-bitmap bit of a data block. -/
def dataBit (g : Geometry) (m : ByteMem) (b : Nat) : Bool :=
  bitAt m (8 * (g.dataBlockBitmap * g.blocksize) + (b - g.firstDataBlock))

/-- Number of clear bits in the data bitmap. -/
def clearCount (g : Geometry) (m : ByteMem) : Nat :=
  ((Finset.range g.dataBlocksCount).filter fun i =>
    dataBit g m (g.firstDataBlock + i) = false).card

/-- `s_free_blocks` is the number of clear data-bitmap bits. -/
def Vol.FreeExact (g : Geometry) (v : Vol) : Prop := v.sb.sFreeBlocks = clearCount g v.bd.data

section DataBlocks

variable {g : Geometry} {v v' : Vol} {b c : Nat}

/-- The byte that holds the bit of a data block lies in a data-bitmap block. -/
theorem isDataBitmap_of_isData (hg : g.LayoutOk) (hb : g.IsData b) : g.IsDataBitmap
      ((8 * (g.dataBlockBitmap * g.blocksize) + (b - g.firstDataBlock)) / 8 / g.blocksize) := by
  have hbs := hg.bs_pos
  have h1 := hb.1
  have h2 := hb.2
  have h3 := hg.afterDataBitmap
  have hcov := le_divCeil_mul g.dataBlocksCount (d := g.blocksize * 8) (by omega)
  refine ⟨?_, ?_⟩
  · rw [Nat.le_div_iff_mul_le hbs]
    omega
  rw [Nat.div_lt_iff_lt_mul hbs]
  have hmul := Nat.mul_le_mul_right g.blocksize h3
  have e2 : divCeil g.dataBlocksCount (g.blocksize * 8) * (g.blocksize * 8) =
      8 * (divCeil g.dataBlocksCount (g.blocksize * 8) * g.blocksize) := by ring
  rw [Nat.add_mul] at hmul
  omega

theorem Frame.dataBit_eq (h : Frame g M v v') (hg : g.LayoutOk) (hM : ∀ b, g.IsDataBitmap b → ¬ M b)
    (hb : g.IsData b) : dataBit g v'.bd.data b = dataBit g v.bd.data b := by
  unfold dataBit bitAt
  rw [h.bytes _ (hM _ (isDataBitmap_of_isData hg hb))]

/-- A frame that spares the data bitmap keeps the free counter exact. -/
theorem Frame.freeExact (h : Frame g M v v') (hg : g.LayoutOk)
    (hM : ∀ b, g.IsDataBitmap b → ¬ M b) (hfree : v'.sb.sFreeBlocks = v.sb.sFreeBlocks)
    (hf : v.FreeExact g) : v'.FreeExact g := by
  refine hfree.trans (hf.trans ?_)
  unfold clearCount
  congr 1
  refine filter_congr fun i hi => ?_
  rw [h.dataBit_eq hg hM ⟨Nat.le_add_right _ _, Nat.add_lt_add_left (mem_range.1 hi) _⟩]

theorem BitStep.dataBit_eq
    (h : BitStep v v' (8 * (g.dataBlockBitmap * g.blocksize) + (b - g.firstDataBlock)) val)
    (hb : g.IsData b) (hc : g.IsData c) :
    dataBit g v'.bd.data c = if c = b then val else dataBit g v.bd.data c := by
  have h1 := hb.1
  have h2 := hc.1
  unfold dataBit
  rw [h.bit]
  by_cases hcb : c = b
  · rw [if_pos hcb, if_pos (by rw [hcb])]
  · rw [if_neg hcb, if_neg (by omega)]

/-- Setting a clear bit lowers the number of clear bits by one. -/
theorem clearCount_set {m m' : ByteMem} (hb : g.IsData b) (hclear : dataBit g m b = false)
    (h : ∀ c, g.IsData c → dataBit g m' c = if c = b then true else dataBit g m c) :
    clearCount g m' + 1 = clearCount g m := by
  have hmem : b - g.firstDataBlock ∈ (range g.dataBlocksCount).filter fun i =>
      dataBit g m (g.firstDataBlock + i) = false := by
    have h1 := hb.1
    have h2 := hb.2
    rw [mem_filter, mem_range, Nat.add_sub_cancel' h1]
    exact ⟨by omega, hclear⟩
  have herase : ((range g.dataBlocksCount).filter fun i =>
      dataBit g m' (g.firstDataBlock + i) = false) =
      ((range g.dataBlocksCount).filter fun i =>
        dataBit g m (g.firstDataBlock + i) = false).erase (b - g.firstDataBlock) := by
    ext i
    simp only [mem_filter, mem_range, mem_erase]
    have h1 := hb.1
    constructor
    · rintro ⟨hi, hbit⟩
      rw [h _ ⟨by omega, by omega⟩] at hbit
      by_cases hib : g.firstDataBlock + i = b
      · simp [hib] at hbit
      · rw [if_neg hib] at hbit
        exact ⟨by omega, hi, hbit⟩
    · rintro ⟨hne, hi, hbit⟩
      refine ⟨hi, ?_⟩
      rw [h _ ⟨by omega, by omega⟩, if_neg (by omega)]
      exact hbit
  unfold clearCount
  rw [herase]
  exact card_erase_add_one hmem

theorem clearCount_le (g : Geometry) (m : ByteMem) : clearCount g m ≤ g.dataBlocksCount := by
  exact (card_filter_le _ _).trans (card_range _).le

theorem Vol.Ok.dataBitmap_reach (h : v.Ok g) :
    v.Reach g (g.dataBlockBitmap + divCeil g.dataBlocksCount (g.blocksize * 8)) := by
  apply h.reach.mono
  have h1 := h.layout.afterDataBitmap
  have h2 := h.layout.afterInodeTable
  have h3 := h.layout.afterData
  have h4 := h.layout.backup
  omega

theorem Vol.Ok.dataBlocksCount_lt (h : v.Ok g) :
    g.firstDataBlock + g.dataBlocksCount < 2147483648 := by
  have h1 := h.layout.afterData
  have h2 := h.layout.backup
  have h3 := h.reach.stop_le
  omega

/-- What a successful data-block allocation does. -/
structure AllocStep (g : Geometry) (v v' : Vol) (b : Nat) : Prop where
  isData : g.IsData b
  clear : dataBit g v.bd.data b = false
  frame : Frame g g.IsDataBitmap v v'
  dataBit : ∀ c, g.IsData c → dataBit g v'.bd.data c = if c = b then true else dataBit g v.bd.data c
  freeExact : v.FreeExact g → v'.FreeExact g

/-- What freeing a data block does. -/
structure FreeStep (g : Geometry) (v v' : Vol) (b : Nat) : Prop where
  frame : Frame g g.IsDataBitmap v v'
  dataBit : ∀ c, g.IsData c →
    dataBit g v'.bd.data c = if c = b then false else dataBit g v.bd.data c
  freeExact : BrkKernel.Brkfs.dataBit g v.bd.data b = true → v.FreeExact g → v'.FreeExact g

/-- `brkfs_data_alloc` hands out a block whose bit was clear, or finds every bit set. -/
theorem brkfsDataAlloc_spec (h : v.Ok g) :
    (∃ b v', AllocStep g v v' b ∧ brkfsDataAlloc v = (.ok b, v')) ∨
    ((∀ b, g.IsData b → dataBit g v.bd.data b = true) ∧
      brkfsDataAlloc v = (.error .enospc, v)) := by
  have hcount := h.dataBlocksCount_lt
  unfold brkfsDataAlloc
  rw [h.dataBlockBitmap, h.dataBlocksCount]
  have hle := h.layout.bs_le
  rcases brkfsBitmapAlloc_spec h.layout.dataPos (by omega) h.dataBitmap_reach with
    ⟨i, v', hi, hclear, hstep, hrun⟩ | ⟨hall, hrun⟩
  · left
    rw [hrun]
    have hsb : v'.sb.sFirstDataBlock = g.firstDataBlock := by rw [hstep.sb, h.firstDataBlock]
    have hu : u32 (v'.sb.sFirstDataBlock + i) = g.firstDataBlock + i := by
      rw [hsb]
      exact u32_of_lt (by omega)
    have hdata : g.IsData (g.firstDataBlock + i) := ⟨by omega, by omega⟩
    have hi' : i = g.firstDataBlock + i - g.firstDataBlock := by omega
    rw [hi'] at hclear hstep
    have hbits : ∀ c, g.IsData c → dataBit g v'.bd.data c =
        if c = g.firstDataBlock + i then true else dataBit g v.bd.data c :=
      fun c hc => hstep.dataBit_eq hdata hc
    refine ⟨g.firstDataBlock + i, v'.setSuper { v'.sb with sFreeBlocks := v'.sb.sFreeBlocks - 1 },
      ⟨hdata, hclear, ?_, hbits, ?_⟩, by simp only [zero_add, hu]⟩
    · refine (hstep.frame.mono fun b hb => ?_).trans (frame_setSuper rfl)
      rw [hb]
      exact isDataBitmap_of_isData h.layout hdata
    intro hfree
    have hcnt := clearCount_set hdata hclear hbits
    have hsf : v'.sb.sFreeBlocks = v.sb.sFreeBlocks := by rw [hstep.sb]
    show v'.sb.sFreeBlocks - 1 = clearCount g v'.bd.data
    unfold Vol.FreeExact at hfree
    omega
  · right
    rw [hrun]
    refine ⟨fun b hb => ?_, rfl⟩
    have h1 := hb.1
    have h2 := hb.2
    exact hall (b - g.firstDataBlock) (by omega)

/-- `brkfs_data_free` clears the bit of the block. -/
theorem brkfsDataFree_spec (h : v.Ok g) (hb : g.IsData b) :
    ∃ v', FreeStep g v v' b ∧ brkfsDataFree v b = (.ok (), v') := by
  have hcount := h.dataBlocksCount_lt
  have h1 := hb.1
  have h2 := hb.2
  have hu : u32 (g.firstDataBlock + g.dataBlocksCount) = g.firstDataBlock + g.dataBlocksCount :=
    u32_of_lt (by omega)
  unfold brkfsDataFree
  rw [h.firstDataBlock, h.dataBlocksCount, h.dataBlockBitmap, hu, if_neg (by omega)]
  obtain ⟨v', hstep, hrun⟩ := brkfsBitmapFree_spec
    (show b - g.firstDataBlock < g.dataBlocksCount by omega) h.dataBitmap_reach
  rw [hrun]
  have hbits : ∀ c, g.IsData c → dataBit g v'.bd.data c =
      if c = b then false else dataBit g v.bd.data c := fun c hc => hstep.dataBit_eq hb hc
  refine ⟨v'.setSuper { v'.sb with sFreeBlocks := u32 (v'.sb.sFreeBlocks + 1) },
    ⟨?_, hbits, ?_⟩, rfl⟩
  · refine (hstep.frame.mono fun c hc => ?_).trans (frame_setSuper rfl)
    rw [hc]
    exact isDataBitmap_of_isData h.layout hb
  intro hset hfree
  -- the old bitmap is the new one with the bit set again
  have hcnt : clearCount g v.bd.data + 1 = clearCount g v'.bd.data := by
    refine clearCount_set hb (by rw [hbits b hb, if_pos rfl]) fun c hc => ?_
    rw [hbits c hc]
    by_cases hcb : c = b
    · rw [if_pos hcb, hcb, hset]
    · rw [if_neg hcb, if_neg hcb]
  have hle := clearCount_le g v'.bd.data
  show u32 (v'.sb.sFreeBlocks + 1) = clearCount g v'.bd.data
  unfold Vol.FreeExact at hfree
  rw [hstep.sb, u32_of_lt (by omega)]
  omega

end DataBlocks

end BrkKernel.Brkfs
