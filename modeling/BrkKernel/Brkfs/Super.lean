import BrkKernel.Brkfs.Block

/-!
# Writing the superblock

The part of `fs/brkfs/super.c` that block mapping uses: feature bits are recorded in the in-core
superblock, which is then written with its checksum to its place and to the backup block
(`brkfsSuperSetFeatures_spec`).
-/

set_option autoImplicit false

namespace BrkKernel.Brkfs

open Lib Lib.ByteMem

/-- `brkfs_feature_with_deps`. -/
def brkfsFeatureWithDeps (features : Nat) : Nat :=
  if features &&& featureTripleIndirect ≠ 0 then features ||| featureDoubleIndirect else features

/-- The page loop of `brkfs_write_bytes`; every round copies at least one byte, so `len` rounds
suffice. -/
def brkfsWriteBytesLoop : Nat → Vol → Nat → ByteMem → Nat → Except Errno Unit × Vol
  | 0, v, _, _, _ => (.ok (), v)
  | fuel + 1, v, off, p, len =>
    if len = 0 then (.ok (), v)
    else
      let chunk := if pageSize - off % pageSize > len then len else pageSize - off % pageSize
      match v.tick with
      | (some e, v') => (.error e, v')
      | (none, v') =>
        brkfsWriteBytesLoop fuel (v'.poke off chunk p) (off + chunk) (window p chunk)
          (len - chunk)

/-- `brkfs_write_bytes`. -/
def brkfsWriteBytes (v : Vol) (off : Nat) (buf : ByteMem) (len : Nat) : Except Errno Unit × Vol :=
  brkfsWriteBytesLoop len v off buf len

/-- `brkfs_super_set_checksum`. -/
def brkfsSuperSetChecksum (sb : SuperBlock) : SuperBlock :=
  { sb with sChecksum := brkfsSuperChecksum sb }

/-- `brkfs_super_write`. -/
def brkfsSuperWrite (v : Vol) : Except Errno Unit × Vol :=
  let buf := (brkfsSuperSetChecksum v.sb).bytes
  match brkfsWriteBytes v superOffset buf superSize with
  | (.error e, v') => (.error e, v')
  | (.ok (), v') =>
    if v.sb.sBackupSuper = 0 then (.error .einval, v')
    else brkfsWriteBytes v' (v.sb.sBackupSuper * v.sb.sBlocksize) buf superSize

/-- `brkfs_super_set_features`. -/
def brkfsSuperSetFeatures (v : Vol) (features : Nat) : Except Errno Unit × Vol :=
  let f := brkfsFeatureWithDeps features
  if v.sb.sFeatures &&& f = f then (.ok (), v)
  else brkfsSuperWrite (v.setSuper { v.sb with sFeatures := v.sb.sFeatures ||| f })

/-- Blocks of the superblock and of its backup. -/
def Geometry.IsSuper (g : Geometry) (b : Nat) : Prop := b < g.inodeBitmap ∨ b = g.backupSuper

section Spec

variable {g : Geometry} {M : Nat → Prop} {v : Vol} {b : Nat}

/-- A chunk is not empty and ends with the bytes or with the page. -/
theorem chunk_spec (off : Nat) {len : Nat} (h : len ≠ 0) : ∃ chunk,
    (if pageSize - off % pageSize > len then len else pageSize - off % pageSize) = chunk ∧
      0 < chunk ∧ chunk ≤ len ∧ chunk ≤ pageSize - off % pageSize := by
  refine ⟨_, rfl, ?_⟩
  unfold pageSize
  split <;> omega

/-- A byte range is copied page by page; nothing outside the blocks it meets changes. -/
theorem brkfsWriteBytesLoop_spec (fuel off len : Nat) (buf : ByteMem) (h : v.Ok g)
    (hlen : len ≤ fuel) (hM : ∀ x, off ≤ x → x < off + len → M (x / g.blocksize)) :
    ∃ v', brkfsWriteBytesLoop fuel v off buf len = (.ok (), v') ∧ Frame g M v v' ∧
      v'.sb = v.sb := by
  induction fuel generalizing v off len buf with
  | zero => exact ⟨v, rfl, Frame.refl g M v, rfl⟩
  | succ fuel ih =>
    rw [brkfsWriteBytesLoop]
    split
    · exact ⟨v, rfl, Frame.refl g M v, rfl⟩
    next h0 =>
    rw [Vol.tick, h.noFault]
    obtain ⟨chunk, hif, hchunk⟩ := chunk_spec off h0
    simp only [hif]
    have hpoke : Frame g M v (v.poke off chunk buf) := by
      refine frame_poke_of (fun x h1 h2 => ?_) fun x h1 h2 => hM x h1 (by omega)
      unfold pageSize at hchunk ⊢
      omega
    obtain ⟨v', hrun, hframe, hsb⟩ := ih (off + chunk) (len - chunk) (window buf chunk)
      (hpoke.ok h) (by omega) fun x h1 h2 => hM x (by omega) (by omega)
    exact ⟨v', hrun, hpoke.trans hframe, hsb⟩

theorem brkfsWriteBytes_spec (off len : Nat) (buf : ByteMem) (h : v.Ok g)
    (hM : ∀ x, off ≤ x → x < off + len → M (x / g.blocksize)) :
    ∃ v', brkfsWriteBytes v off buf len = (.ok (), v') ∧ Frame g M v v' ∧ v'.sb = v.sb :=
  brkfsWriteBytesLoop_spec len off len buf h (Nat.le_refl len) hM

theorem brkfsSuperWrite_spec (h : v.Ok g) :
    ∃ v', brkfsSuperWrite v = (.ok (), v') ∧ Frame g g.IsSuper v v' ∧ v'.sb = v.sb := by
  have hbs := h.layout.bs_ge
  obtain ⟨v1, hrun1, hframe1, hsb1⟩ := brkfsWriteBytes_spec (M := g.IsSuper) superOffset
    superSize (brkfsSuperSetChecksum v.sb).bytes h
    (fun x _ hx => Or.inl (by
      rw [Nat.div_lt_iff_lt_mul h.layout.bs_pos]
      exact Nat.lt_of_lt_of_le hx h.layout.afterSuper))
  have hbackup : v.sb.sBackupSuper = g.backupSuper := congrArg Geometry.backupSuper h.geom
  have hpos : v.sb.sBackupSuper ≠ 0 := by
    have h1 := h.layout.afterData
    have h2 := h.layout.dataPos
    omega
  obtain ⟨v2, hrun2, hframe2, hsb2⟩ := brkfsWriteBytes_spec (M := g.IsSuper)
    (g.backupSuper * g.blocksize) superSize
    (brkfsSuperSetChecksum v.sb).bytes (hframe1.ok h)
    (fun x hx1 hx2 => Or.inr (by
      have hx3 : x - g.backupSuper * g.blocksize < g.blocksize := by
        unfold superSize at hx2
        omega
      have hd := block_div (b := g.backupSuper) hx3
      rwa [Nat.add_sub_cancel' hx1] at hd))
  refine ⟨v2, ?_, hframe1.trans hframe2, hsb2.trans hsb1⟩
  simp only [brkfsSuperWrite, hrun1, if_neg hpos]
  rw [h.bs, hbackup, hrun2]

/-- Recording features touches the superblock blocks only and keeps the free counter. -/
theorem brkfsSuperSetFeatures_spec (h : v.Ok g) (features : Nat) :
    ∃ v', brkfsSuperSetFeatures v features = (.ok (), v') ∧ Frame g g.IsSuper v v' ∧
      v'.sb.sFreeBlocks = v.sb.sFreeBlocks := by
  unfold brkfsSuperSetFeatures
  dsimp only
  split
  · exact ⟨v, rfl, Frame.refl g _ v, rfl⟩
  have hset : Frame g g.IsSuper v
      (v.setSuper { v.sb with sFeatures := v.sb.sFeatures ||| brkfsFeatureWithDeps features }) :=
    frame_setSuper rfl
  obtain ⟨v', hrun, hframe, hsb⟩ := brkfsSuperWrite_spec (hset.ok h)
  exact ⟨v', hrun, hset.trans hframe, by rw [hsb]; rfl⟩

theorem isSuper_not_dataBitmap (h : g.LayoutOk) (hb : g.IsDataBitmap b) : ¬ g.IsSuper b := by
  have h1 := h.afterInodeBitmap
  have h2 := h.afterInodeTable
  have h3 := h.afterData
  have h4 := hb.1
  have h5 := hb.2
  unfold Geometry.IsSuper
  omega

theorem isSuper_not_data (h : g.LayoutOk) (hb : g.IsData b) : ¬ g.IsSuper b := by
  have h1 := h.afterInodeBitmap
  have h2 := h.afterDataBitmap
  have h3 := h.afterInodeTable
  have h4 := h.afterData
  have h5 := hb.1
  have h6 := hb.2
  unfold Geometry.IsSuper
  omega

end Spec

end BrkKernel.Brkfs
