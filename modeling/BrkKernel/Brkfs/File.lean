import BrkKernel.Brkfs.Inode
import BrkKernel.Mm.PageCacheView

/-!
# Regular files

`fs/brkfs/file.c`: reading and writing the pages of a file through its block map, and the operations
of `mm/pagecache.c` on the mapping of a file. `fileByte` are the bytes the device holds for a file;
`brkfs_file_read_page` reads a page of them (`brkfsFileReadPage_spec`) and `brkfs_file_write_page`
replaces a page of them, up to the end of the file (`brkfsFileWritePage_spec`).
-/

set_option autoImplicit false

namespace BrkKernel.Brkfs

open Lib Lib.ByteMem Mm

/-! ## Pages of a file -/

/-- The host of the page cache of a file: its inode and the volume. -/
structure FsHost where
  vol : Vol
  inode : FsInode

/-- The loop of `brkfs_file_read_page` at offset `boff` of the page at file offset `off`, with `k`
blocks left. -/
def fileReadBlocks (bs off : Nat) :
    Nat → Nat → ByteMem → FsHost → Except Errno Unit × ByteMem × FsHost
  | 0, _, data, h => (.ok (), data, h)
  | k + 1, boff, data, h =>
    match brkfsInodeGetblk h.vol h.inode (off + boff) false with
    | (.error e, nd, v) => (.error e, data, ⟨v, nd⟩)
    | (.ok bno, nd, v) =>
      if bno = 0 then fileReadBlocks bs off k (boff + bs) (fill data boff bs 0) ⟨v, nd⟩
      else
        match brkfsBlockRead v bno with
        | (.error e, v1) => (.error e, data, ⟨v1, nd⟩)
        | (.ok buf, v1) => fileReadBlocks bs off k (boff + bs) (blit data boff bs buf) ⟨v1, nd⟩

/-- `brkfs_file_read_page`. -/
def brkfsFileReadPage (h : FsHost) (index : Nat) (data : ByteMem) :
    Except Errno Unit × ByteMem × FsHost :=
  let bs := h.vol.sb.sBlocksize
  if pageSize < bs ∨ pageSize % bs ≠ 0 then (.error .eio, data, h)
  else fileReadBlocks bs (index * pageSize) (pageSize / bs) 0 data h

/-- The page after the part of a block past the end of the file was cleared. -/
def clearTail (bs boff valid : Nat) (data : ByteMem) : ByteMem :=
  if valid < bs then fill data (boff + valid) (bs - valid) 0 else data

/-- The loop of `brkfs_file_write_page` at offset `boff` of the page at file offset `off`, with `k`
blocks left. -/
def fileWriteBlocks (bs off : Nat) :
    Nat → Nat → ByteMem → FsHost → Except Errno Unit × ByteMem × FsHost
  | 0, _, data, h => (.ok (), data, h)
  | k + 1, boff, data, h =>
    if h.inode.size ≤ off + boff then (.ok (), data, h)
    else
      let data1 := clearTail bs boff (min (h.inode.size - (off + boff)) bs) data
      match brkfsInodeGetblk h.vol h.inode (off + boff) true with
      | (.error e, nd, v) => (.error e, data1, ⟨v, nd⟩)
      | (.ok bno, nd, v) =>
        if bno = 0 then (.error .enospc, data1, ⟨v, nd⟩)
        else
          match brkfsBlockWrite v bno (window data1 boff) with
          | (.error e, v1) => (.error e, data1, ⟨v1, nd⟩)
          | (.ok (), v1) => fileWriteBlocks bs off k (boff + bs) data1 ⟨v1, nd⟩

/-- `brkfs_file_write_page`. -/
def brkfsFileWritePage (h : FsHost) (index : Nat) (data : ByteMem) :
    Except Errno Unit × ByteMem × FsHost :=
  let bs := h.vol.sb.sBlocksize
  if pageSize < bs ∨ pageSize % bs ≠ 0 then (.error .eio, data, h)
  else
    match fileWriteBlocks bs (index * pageSize) (pageSize / bs) 0 data h with
    | (.error e, data1, h1) => (.error e, data1, h1)
    | (.ok (), data1, h1) =>
      ((brkfsInodeWrite h1.vol h1.inode).1, data1,
        ⟨(brkfsInodeWrite h1.vol h1.inode).2, h1.inode⟩)

/-- `brkfs_file_pc_ops` and the inode behind them. -/
def brkfsFilePcOps : InodeOps FsHost where
  alloc h := ((kmalloc h.vol).1, { h with vol := (kmalloc h.vol).2 })
  readPage := brkfsFileReadPage
  writePage := brkfsFileWritePage
  isize h := h.inode.size
  setIsize h n := { h with inode := { h.inode with size := n } }
  touchMtime h now := { h with inode := { h.inode with mtime := now } }

/-! ## The bytes of a file on the device -/

/-- The bytes the device holds for a file; holes are zero. -/
def fileByte (g : Geometry) (m : ByteMem) (nd : FsInode) : ByteMem := fun a =>
  match inodeWalk g m nd (a / g.blocksize) with
  | some c => m (c * g.blocksize + a % g.blocksize)
  | none => 0

/-- The regular file with inode number `k` on a volume that serves every request, as the code leaves
it: its block map is its own and clean, and past its end the device holds zeros. -/
structure FileHostOk (g : Geometry) (k : Nat) (h : FsHost) : Prop where
  ok : h.vol.Ok g
  synced : h.vol.Synced
  capacity : g.blocksCount * g.blocksize ≤ 512 * h.vol.bd.phyBcnt
  owned : InodeOwned g h.vol h.inode
  clean : InodeClean g h.vol.bd.data h.inode
  inum : h.inode.ino = k
  ino : 1 ≤ h.inode.ino ∧ h.inode.ino ≤ g.inodesCount ∧ h.inode.ino < 2 ^ 32
  reg : sIsReg h.inode.mode = true
  links : 0 < h.inode.nlink ∧ h.inode.nlink < 2 ^ 32
  size : h.inode.size < 2 ^ 32
  zero : ∀ a, h.inode.size ≤ a → fileByte g h.vol.bd.data h.inode a = 0

section FileBytes

variable {g : Geometry} {v v' v'' : Vol} {nd nd' : FsInode} {n c a : Nat} {M : Nat → Prop}
  {m : ByteMem}

theorem fileByte_of_some (h : inodeWalk g m nd (a / g.blocksize) = some c) :
    fileByte g m nd a = m (c * g.blocksize + a % g.blocksize) := by
  rw [fileByte, h]

theorem fileByte_of_none (h : inodeWalk g m nd (a / g.blocksize) = none) :
    fileByte g m nd a = 0 := by
  rw [fileByte, h]

/-- A byte of the file does not change when its block is not written and stays in its place. -/
theorem fileByte_of_frame (hg : g.LayoutOk) (hf : Frame g M v v')
    (hwalk : inodeWalk g v'.bd.data nd' (a / g.blocksize) =
      inodeWalk g v.bd.data nd (a / g.blocksize))
    (hM : ∀ c, inodeWalk g v.bd.data nd (a / g.blocksize) = some c → ¬ M c) :
    fileByte g v'.bd.data nd' a = fileByte g v.bd.data nd a := by
  cases hw : inodeWalk g v.bd.data nd (a / g.blocksize) with
  | none => rw [fileByte_of_none hw, fileByte_of_none (hwalk.trans hw)]
  | some c =>
    rw [fileByte_of_some hw, fileByte_of_some (hwalk.trans hw)]
    exact hf.block_byte (hM c hw) (Nat.mod_lt _ hg.bs_pos)

/-- Growing the block map does not change the bytes of the file blocks that keep their place. -/
theorem InodeGrow.fileByte_eq (hg : g.LayoutOk) (hgrow : InodeGrow g v v' nd nd')
    (hown : InodeOwned g v nd) (hwalk : inodeWalk g v'.bd.data nd' (a / g.blocksize) =
      inodeWalk g v.bd.data nd (a / g.blocksize)) :
    fileByte g v'.bd.data nd' a = fileByte g v.bd.data nd a :=
  fileByte_of_frame hg hgrow.writes hwalk fun _ hc => hown.not_growWrites hg hc

/-- A block of the file is found or allocated and then written. -/
theorem fileByte_putBlock (h : v.Ok g) (hown : InodeOwned g v nd) (hgrow : InodeGrow g v v' nd nd')
    (hout : GetblkOutcome g v v' nd nd' n (.ok c)) (buf : ByteMem) :
    InodeOwned g (v'.poke (c * g.blocksize) g.blocksize buf) nd' ∧ (InodeClean g v.bd.data nd →
        InodeClean g (v'.poke (c * g.blocksize) g.blocksize buf).bd.data nd') ∧
      ∀ a, fileByte g (v'.poke (c * g.blocksize) g.blocksize buf).bd.data nd' a =
        if a / g.blocksize = n then buf (a % g.blocksize) else fileByte g v.bd.data nd a := by
  have hg := h.layout
  obtain ⟨-, -, hwalk⟩ := hout
  have hown' : InodeOwned g v' nd' := hgrow.owned hown
  have hwc : inodeWalk g v'.bd.data nd' n = some c := by rw [hwalk, if_pos rfl]
  have hf : Frame g (· = c) v' (v'.poke (c * g.blocksize) g.blocksize buf) := frame_poke hg buf
  obtain ⟨hown2, hclean2, hsame⟩ := hown'.write_leaf hg hwc hf
  refine ⟨hown2, fun hc => hclean2 (hgrow.clean hc), fun a => ?_⟩
  by_cases ha : a / g.blocksize = n
  · have hlt := Nat.mod_lt a hg.bs_pos
    rw [if_pos ha, fileByte_of_some ((hsame _).trans (by rw [ha, hwc]))]
    show blit v'.bd.data _ _ _ _ = _
    rw [blit_of_mem (by omega) (by omega), Nat.add_sub_cancel_left]
  · have hkeep : inodeWalk g v'.bd.data nd' (a / g.blocksize) =
        inodeWalk g v.bd.data nd (a / g.blocksize) := by rw [hwalk, if_neg ha]
    rw [if_neg ha, fileByte_of_frame hg hf (hsame _) ?_, hgrow.fileByte_eq hg hown hkeep]
    rintro b hb rfl
    exact ha (hown'.walk_inj hb hwc)

end FileBytes

/-! ## Reading a page -/

section ReadPage

variable {g : Geometry} {h : FsHost} {off : Nat}

theorem Geometry.LayoutOk.bs_dvd_page (hg : g.LayoutOk) :
    pageSize % g.blocksize = 0 ∧ pageSize / g.blocksize * g.blocksize = pageSize ∧
      g.blocksize ≤ pageSize := by
  rcases hg.blocksize with hb | hb | hb <;> rw [hb] <;> decide

/-- File blocks of a page that starts below `2 ^ 32`. -/
theorem page_blkPos (hg : g.LayoutOk) (hoff : off < 2 ^ 32) :
    (blkPos g.slots.fan (off / g.blocksize)).isSome := by
  refine blkPos_of_small hg (le_trans (Nat.div_mul_le_self off g.blocksize) ?_)
  omega

/-- Where the bytes of the block at `p` are. -/
theorem page_block {p x : Nat} (hp : p % g.blocksize = 0) (hx : x < g.blocksize) :
    (p + x) / g.blocksize = p / g.blocksize ∧ (p + x) % g.blocksize = x := by
  obtain ⟨q, rfl⟩ := Nat.dvd_of_mod_eq_zero hp
  rw [mul_comm, block_div hx, Nat.mul_div_cancel _ (by omega), Nat.mul_add_mod',
    Nat.mod_eq_of_lt hx]
  exact ⟨rfl, rfl⟩

theorem page_addr {p a : Nat} (hp : p % g.blocksize = 0)
    (h : a / g.blocksize = p / g.blocksize) : a = p + a % g.blocksize := by
  have ha := Nat.div_add_mod' a g.blocksize
  have hmul := Nat.div_add_mod' p g.blocksize
  rw [h] at ha
  omega

theorem fileReadBlocks_spec (k boff : Nat) (data : ByteMem) (hok : h.vol.Ok g)
    (hc : InodeClean g h.vol.bd.data h.inode) (hoff : off + pageSize ≤ 2 ^ 32)
    (hk : boff + k * g.blocksize = pageSize) (hb : (off + boff) % g.blocksize = 0)
    (hread : ∀ i < boff, data i = fileByte g h.vol.bd.data h.inode (off + i)) :
    ∃ data', fileReadBlocks g.blocksize off k boff data h = (.ok (), data', h) ∧
      ∀ i < pageSize, data' i = fileByte g h.vol.bd.data h.inode (off + i) := by
  induction k generalizing boff data with
  | zero =>
    refine ⟨data, rfl, fun i hi => hread i ?_⟩
    omega
  | succ k ih =>
    have hg := hok.layout
    have hpos := hg.bs_pos
    rw [Nat.succ_mul] at hk
    have hget := brkfsInodeGetblk_read hok hc (off + boff) (page_blkPos hg (by omega))
    -- the bytes of this block are now in the page, whichever way they came
    have hcont (buf : ByteMem) (hbuf : ∀ x < g.blocksize,
        buf x = fileByte g h.vol.bd.data h.inode (off + boff + x)) := by
      refine ih (boff + g.blocksize) (blit data boff g.blocksize buf) (by omega)
        (by rwa [← add_assoc, Nat.add_mod_right]) fun i hi => ?_
      by_cases hlt : i < boff
      · rw [blit_of_lt hlt]
        exact hread i hlt
      · rw [blit_of_mem (by omega) hi, hbuf _ (by omega)]
        congr 1
        omega
    rw [fileReadBlocks, hget]
    cases hw : inodeWalk g h.vol.bd.data h.inode ((off + boff) / g.blocksize) with
    | none =>
      refine hcont _ fun x hx => ?_
      rw [fileByte_of_none ((congrArg _ (page_block hb hx).1).trans hw)]
    | some c =>
      have hd := isData_of_inodeWalk hw
      simp only [Option.getD_some, hg.isData_ne_zero hd, if_false,
        brkfsBlockRead_eq hok (hg.isData_lt hd)]
      refine hcont _ fun x hx => ?_
      obtain ⟨h1, h2⟩ := page_block hb hx
      rw [fileByte_of_some ((congrArg _ h1).trans hw), h2]
      rfl

/-- `brkfs_file_read_page` fills the page with the bytes of the file. -/
theorem brkfsFileReadPage_spec (hok : h.vol.Ok g) (hc : InodeClean g h.vol.bd.data h.inode)
    {i : Nat} (hi : i < 2 ^ 20) (data : ByteMem) :
    ∃ data', brkfsFileReadPage h i data = (.ok (), data', h) ∧
      page data' 0 = page (fileByte g h.vol.bd.data h.inode) i := by
  have hg := hok.layout
  obtain ⟨hdvd, hmul, hle⟩ := hg.bs_dvd_page
  have hoff : i * pageSize + pageSize ≤ 2 ^ 32 := by
    unfold pageSize
    omega
  have halign : i * pageSize % g.blocksize = 0 := by
    rw [Nat.mul_mod, hdvd, mul_zero, Nat.zero_mod]
  obtain ⟨data', hrun, hbytes⟩ := fileReadBlocks_spec (pageSize / g.blocksize) 0 data hok
    hc hoff (by omega) (by rwa [add_zero]) fun j hj => absurd hj (by omega)
  refine ⟨data', ?_, ?_⟩
  · have hsup : ¬ (pageSize < g.blocksize ∨ pageSize % g.blocksize ≠ 0) := by omega
    simp only [brkfsFileReadPage, hok.bs, if_neg hsup, hrun]
  rw [page_eq_iff]
  intro k hk
  rw [zero_mul, zero_add]
  exact hbytes k hk

end ReadPage

/-! ## Writing a page -/

section WritePage

variable {g : Geometry} {k : Nat} {h : FsHost} {v' : Vol} {nd' : FsInode} {M : Nat → Prop}
  {data : ByteMem}

section

variable (hh : FileHostOk g k h)

include hh

/-- Another volume and another inode of the same number. -/
theorem FileHostOk.change (hok : v'.Ok g) (hsync : v'.Synced)
    (hcap : v'.bd.phyBcnt = h.vol.bd.phyBcnt) (hino : nd'.ino = h.inode.ino)
    (hlinks : nd'.nlink = h.inode.nlink) (hreg : sIsReg nd'.mode = sIsReg h.inode.mode)
    (hown : InodeOwned g v' nd') (hclean : InodeClean g v'.bd.data nd') (hsize : nd'.size < 2 ^ 32)
    (hzero : ∀ a, nd'.size ≤ a → fileByte g v'.bd.data nd' a = 0) : FileHostOk g k ⟨v', nd'⟩ := by
  refine ⟨hok, hsync, ?_, hown, hclean, hino.trans hh.inum, ?_, hreg.trans hh.reg, ?_, hsize, hzero⟩
  · rw [hcap]
    exact hh.capacity
  · rw [hino]
    exact hh.ino
  · rw [hlinks]
    exact hh.links

/-- Writes to metadata outside the block map leave the file alone. -/
theorem FileHostOk.of_frame (hf : Frame g M h.vol v')
    (hdata : ∀ b, g.IsData b → ¬ M b) (hbit : ∀ b, g.IsDataBitmap b → ¬ M b) :
    FileHostOk g k ⟨v', h.inode⟩ ∧
      fileByte g v'.bd.data h.inode = fileByte g h.vol.bd.data h.inode := by
  have hg := hh.ok.layout
  have hM : ∀ y, InodeInner g h.vol.bd.data h.inode y → ¬ M y := fun y hy =>
    hdata y (isData_of_inodeInner hy)
  have hbytes : fileByte g v'.bd.data h.inode = fileByte g h.vol.bd.data h.inode := by
    funext a
    exact fileByte_of_frame hg hf (inodeWalk_of_frame hM hf _) fun c hc =>
      hdata c (isData_of_inodeWalk hc)
  refine ⟨hh.change (hf.ok hh.ok) (hf.synced hh.synced) hf.capacity rfl rfl rfl
    (InodeOwned.of_frame hM hf hg hbit hh.owned) (inodeClean_of_frame hM hf hh.clean) hh.size ?_,
    hbytes⟩
  rw [hbytes]
  exact hh.zero

/-- The block map grew; `v''` is the volume after the new block was written, if there is one. -/
theorem FileHostOk.grown {v'' : Vol}
    (hgrow : InodeGrow g h.vol v' h.inode nd') (hf : Frame g M v' v'')
    (hown : InodeOwned g v'' nd') (hclean : InodeClean g v''.bd.data nd')
    (hzero : ∀ a, h.inode.size ≤ a → fileByte g v''.bd.data nd' a = 0) :
    FileHostOk g k ⟨v'', nd'⟩ := by
  have hsize : nd'.size = h.inode.size := by rw [hgrow.attrs]
  refine hh.change (hf.ok (hgrow.writes.ok hh.ok)) (hf.synced (hgrow.writes.synced hh.synced))
    (hf.capacity.trans hgrow.writes.capacity) ?_ ?_ ?_ hown hclean (hsize ▸ hh.size)
    (hsize ▸ hzero) <;>
  · rw [hgrow.attrs]

/-- One block of `brkfs_file_write_page`: it is written, or there is no block for it. -/
theorem fileWriteBlock_spec (off : Nat) (buf : ByteMem)
    (hbuf : ∀ a, a / g.blocksize = off / g.blocksize → h.inode.size ≤ a →
      buf (a % g.blocksize) = 0) :
    ∃ res nd' v', brkfsInodeGetblk h.vol h.inode off true = (res, nd', v') ∧
      nd' = { h.inode with iBlock := nd'.iBlock } ∧
      ((res = .error .enospc ∧ FileHostOk g k ⟨v', nd'⟩ ∧
          fileByte g v'.bd.data nd' = fileByte g h.vol.bd.data h.inode) ∨
        ∃ c v'', res = .ok c ∧ c ≠ 0 ∧ brkfsBlockWrite v' c buf = (.ok (), v'') ∧
          FileHostOk g k ⟨v'', nd'⟩ ∧ ∀ a, fileByte g v''.bd.data nd' a =
            if a / g.blocksize = off / g.blocksize then buf (a % g.blocksize)
            else fileByte g h.vol.bd.data h.inode a) := by
  have hg := hh.ok.layout
  obtain ⟨res, nd', v', hget, hgrow, hout⟩ := brkfsInodeGetblk_create hh.ok hh.owned off
  refine ⟨res, nd', v', hget, hgrow.attrs, ?_⟩
  cases res with
  | error e =>
    obtain ⟨hcause, hwalk⟩ := hout
    have hbytes : fileByte g v'.bd.data nd' = fileByte g h.vol.bd.data h.inode := by
      funext a
      exact hgrow.fileByte_eq hg hh.owned (hwalk _)
    rcases hcause with ⟨rfl, -⟩ | ⟨-, hdirty⟩
    · refine .inl ⟨rfl, ?_, hbytes⟩
      refine hh.grown hgrow (Frame.refl g (fun _ => False) v') (hgrow.owned hh.owned)
        (hgrow.clean hh.clean) fun a ha => ?_
      rw [hbytes]
      exact hh.zero a ha
    · exact absurd hh.clean hdirty
  | ok c =>
    have hc : g.IsData c := hout.1
    have hok' := hgrow.writes.ok hh.ok
    obtain ⟨hown, hclean, hbytes⟩ := fileByte_putBlock hh.ok hh.owned hgrow hout buf
    refine .inr ⟨c, _, rfl, hg.isData_ne_zero hc, brkfsBlockWrite_eq hok' (hg.isData_lt hc) buf,
      ?_, hbytes⟩
    refine hh.grown hgrow (frame_poke hg buf) hown (hclean hh.clean) fun a ha => ?_
    rw [hbytes]
    split
    · rename_i hblock
      exact hbuf a hblock ha
    · exact hh.zero a ha

end

theorem clearTail_eq {bs boff valid : Nat}
    (hz : ∀ i, boff + valid ≤ i → i < boff + bs → data i = 0) :
    clearTail bs boff valid data = data := by
  unfold clearTail
  split
  · funext i
    by_cases hi : boff + valid ≤ i ∧ i < boff + valid + (bs - valid)
    · rw [fill_of_mem hi.1 hi.2, hz i hi.1 (by omega)]
    · rw [fill_of_disjoint (by omega)]
  · rfl

/-- The blocks of a page from offset `boff` on are written, or a block is missing. -/
theorem fileWriteBlocks_spec (left off boff : Nat) (hh : FileHostOk g k h)
    (hk : boff + left * g.blocksize = pageSize) (hb : (off + boff) % g.blocksize = 0)
    (hz : ∀ i < pageSize, h.inode.size ≤ off + i → data i = 0) :
    ∃ res h', fileWriteBlocks g.blocksize off left boff data h = (res, data, h') ∧
      FileHostOk g k h' ∧ h'.inode = { h.inode with iBlock := h'.inode.iBlock } ∧
      (∀ a, (a < off + boff ∨ off + pageSize ≤ a) →
        fileByte g h'.vol.bd.data h'.inode a = fileByte g h.vol.bd.data h.inode a) ∧
      ((res = .ok () ∧ ∀ i, boff ≤ i → i < pageSize →
        fileByte g h'.vol.bd.data h'.inode (off + i) = data i) ∨ res = .error .enospc) := by
  induction left generalizing boff h with
  | zero =>
    refine ⟨.ok (), h, rfl, hh, rfl, fun _ _ => rfl, .inl ⟨rfl, fun i h1 h2 => ?_⟩⟩
    omega
  | succ left ih =>
    rw [Nat.succ_mul] at hk
    by_cases heof : h.inode.size ≤ off + boff
    · -- past the end of the file nothing is written: the page and the device are both zero
      refine ⟨.ok (), h, by rw [fileWriteBlocks, if_pos heof], hh, rfl, fun _ _ => rfl,
        .inl ⟨rfl, fun i h1 h2 => ?_⟩⟩
      rw [hz i h2 (by omega), hh.zero _ (by omega)]
    have htail : clearTail g.blocksize boff (min (h.inode.size - (off + boff)) g.blocksize)
        data = data := clearTail_eq fun i h1 h2 => hz i (by omega) (by omega)
    have hbuf : ∀ a, a / g.blocksize = (off + boff) / g.blocksize → h.inode.size ≤ a →
        window data boff (a % g.blocksize) = 0 := by
      intro a ha hle
      have hmod := Nat.mod_lt a hh.ok.layout.bs_pos
      have haddr := page_addr hb ha
      exact hz _ (by omega) (by omega)
    obtain ⟨res, nd', v', hget, hattrs, hres⟩ :=
      fileWriteBlock_spec hh (off + boff) (window data boff) hbuf
    rcases hres with ⟨rfl, hh', hbytes⟩ | ⟨c, v'', rfl, hc, hwrite, hh', hbytes⟩
    · refine ⟨.error .enospc, ⟨v', nd'⟩, ?_, hh', hattrs, fun a _ => congrFun hbytes a, .inr rfl⟩
      simp only [fileWriteBlocks, if_neg heof, htail, hget]
    have hsize : nd'.size = h.inode.size := by rw [hattrs]
    obtain ⟨res, h', hrun, hh'', hattrs', hout, hres⟩ := ih (boff + g.blocksize) hh' (by omega)
      (by rwa [← add_assoc, Nat.add_mod_right]) (by rwa [hsize])
    have hblock : ∀ i, boff ≤ i → i < boff + g.blocksize →
        fileByte g v''.bd.data nd' (off + i) = data i := by
      intro i h1 h2
      obtain ⟨x, rfl⟩ := Nat.exists_eq_add_of_le h1
      obtain ⟨h3, h4⟩ := page_block hb (Nat.lt_of_add_lt_add_left h2)
      rw [hbytes, ← add_assoc, if_pos h3, h4, window_apply]
    refine ⟨res, h', ?_, hh'', ?_, ?_, ?_⟩
    · simp only [fileWriteBlocks, if_neg heof, htail, hget, if_neg hc, hwrite, hrun]
    · rw [hattrs', hattrs]
    · intro a ha
      rw [hout a (by omega), hbytes, if_neg]
      intro hsame
      have hmod := Nat.mod_lt a hh.ok.layout.bs_pos
      have haddr := page_addr hb hsame
      omega
    · rcases hres with ⟨rfl, hok⟩ | rfl
      · refine .inl ⟨rfl, fun i h1 h2 => ?_⟩
        by_cases hi : i < boff + g.blocksize
        · rw [hout _ (by omega)]
          exact hblock i h1 hi
        · exact hok i (by omega) h2
      · exact .inr rfl

/-- `brkfs_file_write_page` stores the page, or a block allocation fails. -/
theorem brkfsFileWritePage_spec (hh : FileHostOk g k h) (i : Nat) (data : ByteMem)
    (hz : ∀ k < pageSize, h.inode.size ≤ i * pageSize + k → data k = 0) :
    ∃ res h', brkfsFileWritePage h i data = (res, data, h') ∧ FileHostOk g k h' ∧
      h'.inode = { h.inode with iBlock := h'.inode.iBlock } ∧
      (∀ j, j ≠ i → page (fileByte g h'.vol.bd.data h'.inode) j =
        page (fileByte g h.vol.bd.data h.inode) j) ∧
      ((res = .ok () ∧ page (fileByte g h'.vol.bd.data h'.inode) i = page data 0) ∨
        res = .error .enospc) := by
  have hg := hh.ok.layout
  obtain ⟨hdvd, hmul, hle⟩ := hg.bs_dvd_page
  have hsup : ¬ (pageSize < g.blocksize ∨ pageSize % g.blocksize ≠ 0) := by omega
  have halign : i * pageSize % g.blocksize = 0 := by
    rw [Nat.mul_mod, hdvd, Nat.mul_zero, Nat.zero_mod]
  obtain ⟨res, h', hrun, hh', hattrs, hout, hres⟩ := fileWriteBlocks_spec
    (pageSize / g.blocksize) _ 0 hh (by omega) (by rwa [add_zero]) hz
  have hother : ∀ j, j ≠ i → page (fileByte g h'.vol.bd.data h'.inode) j =
      page (fileByte g h.vol.bd.data h.inode) j := by
    intro j hj
    refine page_congr fun a ha => hout a ?_
    unfold pageSize at ha ⊢
    omega
  simp only [brkfsFileWritePage, hh.ok.bs, if_neg hsup, hrun]
  rcases hres with ⟨rfl, hok⟩ | rfl
  · have hino : u32 h'.inode.ino = h'.inode.ino := u32_of_lt hh'.ino.2.2
    have hwrite := brkfsInodeWrite_eq hh'.ok hino hh'.ino.1 hh'.ino.2.1
    obtain ⟨hframe, -⟩ := brkfsInodeWrite_frame hh'.ok h'.inode
    obtain ⟨hh'', hbytes⟩ := hh'.of_frame hframe (fun _ => inodeTable_not_data)
      fun _ => inodeTable_not_dataBitmap
    refine ⟨_, ⟨(brkfsInodeWrite h'.vol h'.inode).2, h'.inode⟩, rfl, hh'', hattrs, ?_,
      .inl ⟨?_, ?_⟩⟩
    · intro j hj
      rw [hbytes]
      exact hother j hj
    · rw [hwrite]
    rw [hbytes, page_eq_iff]
    intro k hk
    rw [Nat.zero_mul, Nat.zero_add]
    exact hok k (Nat.zero_le k) hk
  · exact ⟨.error .enospc, h', rfl, hh', hattrs, hother, .inr rfl⟩

end WritePage

end BrkKernel.Brkfs
