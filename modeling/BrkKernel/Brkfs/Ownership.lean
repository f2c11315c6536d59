import BrkKernel.Brkfs.Inode

/-!
# Block accounting of a volume

A volume with its in-core inodes, and the operations that allocate and free data blocks: creating
lookups, truncation, and eviction of inodes without links. The accounting invariant says that no
data block has two references among the slots of all inodes, that the data bitmap marks exactly the
referenced blocks, and that `s_free_blocks` counts the clear bits. Each operation changes the
references of one inode (`BlocksAccounted.change`) or only metadata (`BlocksAccounted.metadata`), so
the invariant holds along every run (`blocksAccounted_run`).
-/

set_option autoImplicit false

namespace BrkKernel.Brkfs

open Lib Lib.ByteMem Function Finset

/-- A mounted volume and its in-core inodes. -/
structure FsState where
  vol : Vol
  inodes : Nat → FsInode

/-- `brkfs_inode_getblk` with `BRKFS_GETBLK_CREATE` on inode `k`. -/
def FsState.getblk (s : FsState) (k off : Nat) : FsState :=
  match brkfsInodeGetblk s.vol (s.inodes k) off true with
  | (_, nd, v) => ⟨v, update s.inodes k nd⟩

/-- `brkfs_truncate_inode_blocks` on inode `k`. -/
def FsState.truncate (s : FsState) (k : Nat) (newSize : Int) : FsState :=
  match brkfsTruncateInodeBlocks s.vol (s.inodes k) newSize with
  | (_, nd, v) => ⟨v, update s.inodes k nd⟩

/-- Eviction of inode `k` without links. -/
def FsState.evictUnlinked (s : FsState) (k : Nat) : FsState :=
  match brkfsEvictUnlinked s.vol (s.inodes k) with
  | (nd, v) => ⟨v, update s.inodes k nd⟩

/-- One operation on an inode of `S`. -/
inductive FsStep (S : Finset Nat) : FsState → FsState → Prop where
  | getblk {s : FsState} {k : Nat} (off : Nat) (hk : k ∈ S) : FsStep S s (s.getblk k off)
  | truncate {s : FsState} {k : Nat} (newSize : Int) (hk : k ∈ S) :
      FsStep S s (s.truncate k newSize)
  | evict {s : FsState} {k : Nat} (hk : k ∈ S) (hlink : (s.inodes k).nlink = 0) :
      FsStep S s (s.evictUnlinked k)

/-- Number of references to block `b` from all pointer slots of the inodes in `S`. -/
def fsRefs (g : Geometry) (S : Finset Nat) (s : FsState) (b : Nat) : Nat :=
  ∑ k ∈ S, inodeRefs g s.vol.bd.data (s.inodes k) b

/-- Bitmap, counter and references agree, and no block is shared. -/
structure BlocksAccounted (g : Geometry) (S : Finset Nat) (s : FsState) : Prop where
  shared : ∀ b, g.IsData b → fsRefs g S s b ≤ 1
  bitmap : ∀ b, g.IsData b → (dataBit g s.vol.bd.data b = true ↔ fsRefs g S s b = 1)
  counter : s.vol.sb.sFreeBlocks = clearCount g s.vol.bd.data

section Accounting

variable {g : Geometry} {S : Finset Nat} {s : FsState} {v' : Vol} {nd' : FsInode} {k b : Nat}

theorem isData_of_fsRefs (h : 0 < fsRefs g S s b) : g.IsData b := by
  obtain ⟨k, -, hk⟩ := exists_ne_zero_of_sum_ne_zero (Nat.pos_iff_ne_zero.1 h)
  exact isData_of_inodeRefs (pos_of_ne_zero hk)

theorem BlocksAccounted.owned (h : BlocksAccounted g S s) : Owned g s.vol (fsRefs g S s) where
  le_one b := by
    by_contra hb
    have hpos : 0 < fsRefs g S s b := by omega
    exact hb (h.shared b (isData_of_fsRefs hpos))
  isData _ := isData_of_fsRefs
  used b hb := by
    have hd := isData_of_fsRefs hb
    have hle := h.shared b hd
    exact (h.bitmap b hd).2 (by omega)

/-- References of one inode and of the others. -/
theorem fsRefs_split (hk : k ∈ S) (s : FsState) :
    fsRefs g S s = fun b => inodeRefs g s.vol.bd.data (s.inodes k) b +
      ∑ j ∈ S.erase k, inodeRefs g s.vol.bd.data (s.inodes j) b := by
  funext b
  exact (add_sum_erase S _ hk).symm

theorem BlocksAccounted.inodeOwned (h : BlocksAccounted g S s) (hk : k ∈ S) :
    InodeOwned g s.vol (s.inodes k) :=
  h.owned.mono fun b => by
    rw [fsRefs_split hk]
    exact Nat.le_add_right _ _

/-- A change of the references of one inode keeps the accounts. -/
theorem BlocksAccounted.change (hg : g.LayoutOk) (h : BlocksAccounted g S s) (hk : k ∈ S)
    (hc : Change g (fun _ => False) s.vol v' (inodeRefs g s.vol.bd.data (s.inodes k))
      (inodeRefs g v'.bd.data nd')) : BlocksAccounted g S ⟨v', update s.inodes k nd'⟩ := by
  have hown := h.owned
  rw [fsRefs_split hk] at hown
  have hother : ∀ j ∈ S.erase k, ∀ b, inodeRefs g v'.bd.data (s.inodes j) b =
      inodeRefs g s.vol.bd.data (s.inodes j) b := by
    intro j hj b
    refine sum_congr rfl fun t ht => ?_
    have hun : Untouched g (MayWrite g s.vol (inodeRefs g s.vol.bd.data (s.inodes k))
        fun _ => False) s.vol (slotLevel t) ((s.inodes j).iBlock t) := by
      intro y hy
      refine Change.not_mayWrite hown (fun _ _ hc => hc) hg ?_
      have h1 : 0 < treeRefs g s.vol.bd.data (slotLevel t) ((s.inodes j).iBlock t) y :=
        SlotStore.refs_pos_of_inner hy
      have h2 := treeRefs_le_inodeRefs (g := g) s.vol.bd.data (s.inodes j) (mem_range.1 ht) y
      have h3 := single_le_sum (f := fun j => inodeRefs g s.vol.bd.data (s.inodes j) y)
        (fun _ _ => Nat.zero_le _) hj
      exact Nat.lt_of_lt_of_le h1 (h2.trans h3)
    exact hun.refs_eq hc.frame
  have hadd := hc.add (N := fun _ => False) hown fun _ hf => Or.inl hf
  have hnew : fsRefs g S ⟨v', update s.inodes k nd'⟩ = fun b =>
      inodeRefs g v'.bd.data nd' b + ∑ j ∈ S.erase k, inodeRefs g s.vol.bd.data (s.inodes j) b := by
    rw [fsRefs_split hk]
    funext b
    simp only [update_self]
    congr 1
    refine sum_congr rfl fun j hj => ?_
    rw [update_of_ne (ne_of_mem_erase hj), hother j hj b]
  refine ⟨fun b _ => ?_, fun b hb => ?_, hc.free h.counter⟩
  · rw [hnew]
    exact hadd.le_one b
  have hle := hadd.le_one b
  have hold := h.bitmap b hb
  rw [congrFun (fsRefs_split hk s) b] at hold
  rw [congrFun hnew b]
  rcases hadd.bits b hb with ⟨hr, hbit⟩ | ⟨-, hbit⟩
  · rw [hbit]
    exact hold.trans (Eq.congr_left hr.symm)
  · rw [hbit, decide_eq_true_iff]
    exact ⟨fun hpos => by omega, fun hone => by omega⟩

/-- Writes to metadata other than the data bitmap keep the accounts. -/
theorem BlocksAccounted.metadata {M : Nat → Prop} (hg : g.LayoutOk) (h : BlocksAccounted g S s)
    (hf : Frame g M s.vol v') (hfree : v'.sb.sFreeBlocks = s.vol.sb.sFreeBlocks)
    (hbm : ∀ b, g.IsDataBitmap b → ¬ M b) (hdata : ∀ b, g.IsData b → ¬ M b) :
    BlocksAccounted g S { s with vol := v' } := by
  have hrefs : fsRefs g S { s with vol := v' } = fsRefs g S s := by
    funext b
    refine sum_congr rfl fun j _ => sum_congr rfl fun t _ => ?_
    have hun : Untouched g M s.vol (slotLevel t) ((s.inodes j).iBlock t) := fun y hy =>
      hdata y (isData_of_inner hy)
    exact hun.refs_eq hf
  refine ⟨fun b hb => ?_, fun b hb => ?_, ?_⟩
  · rw [hrefs]
    exact h.shared b hb
  · rw [hrefs, hf.dataBit_eq hg hbm hb]
    exact h.bitmap b hb
  · exact hf.freeExact hg hbm hfree h.counter

theorem inodeBitmap_not_dataBitmap (hb : g.IsDataBitmap b) : ¬ g.IsInodeBitmap b :=
  fun ht => not_lt.2 hb.1 ht.2

theorem inodeBitmap_not_data (hg : g.LayoutOk) (hb : g.IsData b) : ¬ g.IsInodeBitmap b := by
  have h1 := hg.afterDataBitmap
  have h2 := hg.afterInodeTable
  have h3 := hb.1
  intro ht
  have h4 := ht.2
  omega

/-! ## The operations -/

/-- The invariant of a run: the accounts of a volume that keeps its geometry. -/
structure Accounted (g : Geometry) (S : Finset Nat) (s : FsState) : Prop where
  ok : s.vol.Ok g
  blocks : BlocksAccounted g S s

theorem Accounted.getblk (h : Accounted g S s) (hk : k ∈ S) (off : Nat) :
    Accounted g S (s.getblk k off) := by
  obtain ⟨res, nd', v', hrun, hgrow, -⟩ :=
    brkfsInodeGetblk_create h.ok (h.blocks.inodeOwned hk) off
  rw [FsState.getblk, hrun]
  exact ⟨hgrow.writes.ok h.ok, h.blocks.change h.ok.layout hk hgrow.change⟩

theorem Accounted.shrink {v : Vol} (h : Accounted g S ⟨v, s.inodes⟩) (hk : k ∈ S) {newN : Nat}
    (hs : InodeShrink g v v' (s.inodes k) nd' newN) : Accounted g S ⟨v', update s.inodes k nd'⟩ :=
  ⟨hs.writes.ok h.ok, BlocksAccounted.change (s := ⟨v, s.inodes⟩) h.ok.layout h.blocks hk hs.change⟩

theorem Accounted.truncate (h : Accounted g S s) (hk : k ∈ S) (newSize : Int) :
    Accounted g S (s.truncate k newSize) := by
  have hsame : ∀ nd : FsInode, nd.iBlock = (s.inodes k).iBlock →
      Accounted g S ⟨s.vol, update s.inodes k nd⟩ := by
    intro nd hnd
    refine ⟨h.ok, h.blocks.change h.ok.layout hk ?_⟩
    have hR : inodeRefs g s.vol.bd.data nd = inodeRefs g s.vol.bd.data (s.inodes k) := by
      funext x
      unfold inodeRefs
      rw [hnd]
    rw [hR]
    exact Change.refl _ (h.blocks.inodeOwned hk)
  by_cases hneg : newSize < 0
  · rw [FsState.truncate, brkfsTruncateInodeBlocks]
    simp only [if_pos hneg]
    exact hsame _ rfl
  by_cases hgrow : newSize > (s.inodes k).size
  · rw [FsState.truncate, brkfsTruncateInodeBlocks]
    simp only [if_neg hneg, if_pos hgrow]
    exact hsame _ rfl
  obtain ⟨n, rfl⟩ := Int.eq_ofNat_of_zero_le (Int.not_lt.1 hneg)
  obtain ⟨nd', v', hrun, hs, -⟩ := brkfsTruncateInodeBlocks_spec h.ok (h.blocks.inodeOwned hk)
    n (by omega)
  rw [FsState.truncate, hrun]
  exact h.shrink hk hs

theorem Accounted.evictUnlinked (h : Accounted g S s) (hk : k ∈ S) :
    Accounted g S (s.evictUnlinked k) := by
  have hg := h.ok.layout
  -- the orphan list is in the inode table
  obtain ⟨hf1, hfree1⟩ := brkfsOrphanRemove_frame h.ok (u32 (s.inodes k).ino)
  have hok1 := hf1.ok h.ok
  have hb1 := h.blocks.metadata hg hf1 hfree1 (fun _ => inodeTable_not_dataBitmap)
    fun _ => inodeTable_not_data
  -- all blocks of the inode are cut off
  obtain ⟨nd1, v2, hrun2, hs2, -⟩ := brkfsTruncateInodeBlocks_spec hok1 (hb1.inodeOwned hk)
    0 (Nat.zero_le _)
  have h2 : Accounted g S
      ⟨v2, update s.inodes k { nd1 with size := 0, nlink := 0, iNextOrphan := 0 }⟩ :=
    Accounted.shrink ⟨hok1, hb1⟩ hk ⟨hs2.change, hs2.writes, hs2.walk, hs2.clean⟩
  -- the inode and its bitmap bit
  obtain ⟨hf3, hsb3⟩ :=
    brkfsInodeWrite_frame h2.ok { nd1 with size := 0, nlink := 0, iNextOrphan := 0 }
  have hb3 := h2.blocks.metadata hg hf3 (congrArg SuperBlock.sFreeBlocks hsb3)
    (fun _ => inodeTable_not_dataBitmap) fun _ => inodeTable_not_data
  obtain ⟨hf4, hfree4⟩ := brkfsInodeFree_frame (hf3.ok h2.ok) (u32 (s.inodes k).ino)
  have hb4 := hb3.metadata hg hf4 hfree4 (fun _ => inodeBitmap_not_dataBitmap)
    fun _ => inodeBitmap_not_data hg
  have hrun : s.evictUnlinked k = ⟨(brkfsInodeFree (brkfsInodeWrite v2
      { nd1 with size := 0, nlink := 0, iNextOrphan := 0 }).2 (u32 (s.inodes k).ino)).2,
      update s.inodes k { nd1 with size := 0, nlink := 0, iNextOrphan := 0 }⟩ := by
    have hrun2' : brkfsTruncateInodeBlocks (brkfsOrphanRemove s.vol (u32 (s.inodes k).ino))
        (s.inodes k) 0 = (.ok (), nd1, v2) := hrun2
    rw [FsState.evictUnlinked, brkfsEvictUnlinked]
    simp only [hrun2']
  rw [hrun]
  exact ⟨hf4.ok (hf3.ok h2.ok), hb4⟩

theorem Accounted.step {s' : FsState} (hstep : FsStep S s s') (h : Accounted g S s) :
    Accounted g S s' := by
  cases hstep with
  | getblk off hk => exact h.getblk hk off
  | truncate newSize hk => exact h.truncate hk newSize
  | evict hk hlink => exact h.evictUnlinked hk

end Accounting

/-- The accounts of a volume without files: all bits clear, all slots empty. -/
theorem BlocksAccounted.fresh {g : Geometry} {S : Finset Nat} {s : FsState} (hg : g.LayoutOk)
    (hslots : ∀ k ∈ S, ∀ t, (s.inodes k).iBlock t = 0)
    (hbits : ∀ b, g.IsData b → dataBit g s.vol.bd.data b = false)
    (hfree : s.vol.sb.sFreeBlocks = g.dataBlocksCount) : BlocksAccounted g S s := by
  have hrefs : ∀ b, fsRefs g S s b = 0 := fun b =>
    sum_eq_zero fun k hk => sum_eq_zero fun t _ => by
      rw [hslots k hk t]
      exact treeRefs_zero hg _ _ _
  refine ⟨fun b _ => ?_, fun b hb => ?_, ?_⟩
  · rw [hrefs b]
    exact Nat.zero_le 1
  · rw [hrefs b, hbits b hb]
    simp
  have hall : ((range g.dataBlocksCount).filter fun i =>
      dataBit g s.vol.bd.data (g.firstDataBlock + i) = false) =
      range g.dataBlocksCount := by
    refine filter_true_of_mem fun i hi => hbits _ ⟨Nat.le_add_right _ _, ?_⟩
    exact Nat.add_lt_add_left (mem_range.1 hi) _
  rw [hfree, clearCount, hall, card_range]

/-- The accounts of a mountable volume of at most `2 ^ 32` bytes hold along every run of block
operations on its inodes. -/
theorem blocksAccounted_run {S : Finset Nat} {s s' : FsState} (hlayout : s.vol.sb.geom.LayoutOk)
    (hsmall : s.vol.sb.sBlocksCount * s.vol.sb.sBlocksize ≤ 2 ^ 32)
    (hfaults : s.vol.faults = []) (hinit : BlocksAccounted s.vol.sb.geom S s)
    (hrun : Run (FsStep S) s s') : BlocksAccounted s.vol.sb.geom S s' := by
  have h0 : Accounted s.vol.sb.geom S s := ⟨⟨rfl, hlayout, hsmall, hfaults⟩, hinit⟩
  exact (Run.invariant (fun _ _ hstep h => Accounted.step hstep h) hrun h0).blocks

/-- The accounts after an indirect block of a new file was created and the file was truncated. -/
theorem blocksAccounted_run_tiny : BlocksAccounted tinySuper.geom {1}
      (((⟨tinyVol, fun k => emptyInode k 0o100644⟩ : FsState).getblk 1 8000).truncate 1 0) :=
  blocksAccounted_run (s := ⟨tinyVol, fun k => emptyInode k 0o100644⟩) tinySuper_layoutOk
    (by decide) rfl
    (BlocksAccounted.fresh tinySuper_layoutOk (fun _ _ _ => rfl)
      (fun b _ => by simp [dataBit, bitAt, tinyVol]) rfl)
    ((Relation.ReflTransGen.single (FsStep.getblk 8000 (by decide))).tail
      (FsStep.truncate 0 (by decide)))

end BrkKernel.Brkfs
