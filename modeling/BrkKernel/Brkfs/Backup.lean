import BrkKernel.Brkfs.Addressing

/-!
# The backup superblock

`brkfs_super_write` puts a copy of the superblock into the last block of the volume;
`brkfs_read_super` looks for a copy in the last block of the device, for each block size
(`fs/brkfs/super.c`, `fs/brkfs/mount.c`). Once the primary superblock is damaged, the one that was
written is found exactly when the damage can be read, the last block of the device holds it (as it
does when the volume fills the device) and no copy for a smaller block size is found before
(`backup_recovers_iff`).
-/

set_option autoImplicit false

namespace BrkKernel.Brkfs

open Lib Lib.ByteMem List

/-! ## Reading a superblock -/

/-- A block device as a mount finds it: its bytes, the pages that cannot be read, its capacity. -/
structure Medium where
  data : ByteMem
  readErr : Nat → Option Errno
  capacity : Nat

/-- The page loop of `brkfs_read_raw`, with `p` the place in the buffer; every round copies at least
one byte, so `len` rounds suffice. -/
def brkfsReadRawLoop (m : Medium) : Nat → Nat → Nat → Nat → ByteMem → Except Errno ByteMem
  | 0, _, _, _, buf => .ok buf
  | fuel + 1, off, p, len, buf =>
    if len = 0 then .ok buf
    else
      let chunk := if pageSize - off % pageSize > len then len else pageSize - off % pageSize
      match m.readErr (off / pageSize) with
      | some e => .error e
      | none =>
        brkfsReadRawLoop m fuel (off + chunk) (p + chunk) (len - chunk)
          (blit buf p chunk (window m.data off))

/-- `brkfs_read_raw`. -/
def brkfsReadRaw (m : Medium) (off : Nat) (buf : ByteMem) (len : Nat) : Except Errno ByteMem :=
  brkfsReadRawLoop m len off 0 len buf

/-- `brkfs_super_quick_ok`. -/
def brkfsSuperQuickOk (sb : SuperBlock) : Bool :=
  if sb.sMagic ≠ brkfsMagic then false
  else if sb.sVersion ≠ formatVersion then false
  else if sb.sChecksum ≠ brkfsSuperChecksum sb then false
  else true

/-- The values of `bs` in the loop of `brkfs_read_super`. -/
def blockSizes : List Nat := [1024, 2048, 4096]

/-- The loop of `brkfs_read_super`; the buffer on the stack holds whatever is there. -/
def searchBackup (m : Medium) (stack : ByteMem) : List Nat → Except Errno SuperBlock
  | [] => .error .einval
  | bs :: rest =>
    if m.capacity < bs then searchBackup m stack rest
    else
      match brkfsReadRaw m (m.capacity - bs) stack superSize with
      | .error _ => searchBackup m stack rest
      | .ok buf =>
        let backup := SuperBlock.ofBytes buf
        if !brkfsSuperQuickOk backup ∨ backup.sBlocksize ≠ bs ∨
            backup.sBackupSuper ≠ u32 (backup.sBlocksCount + 4294967295) then
          searchBackup m stack rest
        else .ok backup

/-- `brkfs_read_super`. -/
def brkfsReadSuper (m : Medium) (stack : ByteMem) : Except Errno SuperBlock :=
  match brkfsReadRaw m superOffset stack superSize with
  | .error e => .error e
  | .ok buf =>
    if brkfsSuperQuickOk (SuperBlock.ofBytes buf) then .ok (SuperBlock.ofBytes buf)
    else searchBackup m stack blockSizes

/-! ## What is read -/

section Read

variable {m : Medium} {stack : ByteMem}

/-- Bytes that lie in readable pages are read. -/
theorem brkfsReadRawLoop_ok (hread : ∀ p, m.readErr p = none) (fuel off p len : Nat) (buf : ByteMem)
    (hlen : len ≤ fuel) :
    brkfsReadRawLoop m fuel off p len buf = .ok (blit buf p len (window m.data off)) := by
  induction fuel generalizing off p len buf with
  | zero =>
    obtain rfl : len = 0 := Nat.le_zero.1 hlen
    rw [brkfsReadRawLoop, blit_zero]
  | succ fuel ih =>
    rw [brkfsReadRawLoop]
    split
    · next h0 => rw [h0, blit_zero]
    next h0 =>
    obtain ⟨chunk, hif, hpos, hle, -⟩ := chunk_spec off h0
    simp only [hread, hif]
    rw [ih _ _ _ _ (by omega), ← window_window, blit_adjacent, Nat.add_sub_cancel' hle]

/-- The superblock at an offset of the device. -/
def Medium.superAt (m : Medium) (off : Nat) : SuperBlock := SuperBlock.ofBytes (window m.data off)

theorem brkfsReadRaw_ok (hread : ∀ p, m.readErr p = none) (off : Nat) :
    ∃ buf, brkfsReadRaw m off stack superSize = .ok buf ∧
      SuperBlock.ofBytes buf = m.superAt off := by
  refine ⟨_, brkfsReadRawLoop_ok hread superSize off 0 superSize stack (Nat.le_refl _), ?_⟩
  refine ofBytes_congr fun i hi => ?_
  rw [blit_of_mem (Nat.zero_le _) (by omega), Nat.sub_zero]

/-- A page that cannot be read is an error at once. -/
theorem brkfsReadSuper_unreadable {e : Errno} (h : m.readErr 0 = some e) :
    brkfsReadSuper m stack = .error e := by
  have hraw : brkfsReadRaw m superOffset stack superSize = .error e := by
    unfold brkfsReadRaw
    rw [show superSize = 1023 + 1 from rfl, brkfsReadRawLoop, if_neg (by decide),
      show superOffset / pageSize = 0 from rfl, h]
  unfold brkfsReadSuper
  rw [hraw]

/-- The loop of `brkfs_read_super` takes the copy for the block size `bs`. -/
structure Medium.Copy (m : Medium) (bs : Nat) : Prop where
  room : bs ≤ m.capacity
  quick : brkfsSuperQuickOk (m.superAt (m.capacity - bs)) = true
  size : (m.superAt (m.capacity - bs)).sBlocksize = bs
  last : (m.superAt (m.capacity - bs)).sBackupSuper =
    u32 ((m.superAt (m.capacity - bs)).sBlocksCount + 4294967295)

section

variable (hread : ∀ p, m.readErr p = none)

include hread

theorem searchBackup_skip {x : Nat} (hno : ¬ m.Copy x)
    (rest : List Nat) : searchBackup m stack (x :: rest) = searchBackup m stack rest := by
  rw [searchBackup]
  split
  · rfl
  next hroom =>
  obtain ⟨buf, hbuf, hsuper⟩ := @brkfsReadRaw_ok m stack hread (m.capacity - x)
  rw [hbuf]
  simp only [hsuper]
  rw [if_pos]
  by_contra hc
  simp only [not_or, Bool.not_eq_true', Bool.not_eq_false, ne_eq, Decidable.not_not] at hc
  exact hno ⟨Nat.le_of_not_lt hroom, hc.1, hc.2.1, hc.2.2⟩

theorem searchBackup_take {x : Nat} (hcopy : m.Copy x)
    (rest : List Nat) : searchBackup m stack (x :: rest) = .ok (m.superAt (m.capacity - x)) := by
  obtain ⟨buf, hbuf, hsuper⟩ := @brkfsReadRaw_ok m stack hread (m.capacity - x)
  rw [searchBackup, if_neg (not_lt.2 hcopy.room), hbuf]
  simp only [hsuper]
  rw [if_neg]
  simp only [not_or, Bool.not_eq_true', Bool.not_eq_false, ne_eq, Decidable.not_not]
  exact ⟨hcopy.quick, hcopy.size, hcopy.last⟩

/-- The loop takes the first copy. -/
theorem searchBackup_eq_ok (sizes : List Nat) (sb : SuperBlock) :
    searchBackup m stack sizes = .ok sb ↔
      ∃ before bs after, sizes = before ++ bs :: after ∧ (∀ x ∈ before, ¬ m.Copy x) ∧ m.Copy bs ∧
        m.superAt (m.capacity - bs) = sb := by
  induction sizes with
  | nil =>
    constructor
    · intro h
      cases h
    · rintro ⟨before, bs, after, h, -⟩
      cases before <;> cases h
  | cons x rest ih =>
    by_cases hx : m.Copy x
    · rw [searchBackup_take hread hx]
      constructor
      · intro h
        cases h
        exact ⟨[], x, rest, rfl, fun y hy => absurd hy not_mem_nil, hx, rfl⟩
      rintro ⟨before, bs, after, h, hno, -, hsb⟩
      cases before with
      | nil =>
        cases h
        rw [hsb]
      | cons y before =>
        cases h
        exact absurd hx (hno x mem_cons_self)
    rw [searchBackup_skip hread hx, ih]
    constructor
    · rintro ⟨before, bs, after, rfl, hno, hcopy, hsb⟩
      refine ⟨x :: before, bs, after, rfl, ?_, hcopy, hsb⟩
      intro y hy
      rcases mem_cons.1 hy with rfl | hy
      · exact hx
      · exact hno y hy
    · rintro ⟨before, bs, after, h, hno, hcopy, hsb⟩
      cases before with
      | nil =>
        cases h
        exact absurd hcopy hx
      | cons y before =>
        cases h
        exact ⟨before, bs, after, rfl, fun z hz => hno z (mem_cons_of_mem _ hz), hcopy, hsb⟩

end

end Read

/-! ## What was written -/

section Written

variable {v v' : Vol} {sb : SuperBlock}

/-- Bytes that were written are there, and no others changed. -/
theorem brkfsWriteBytesLoop_data {fuel off len : Nat} {buf : ByteMem}
    (h : brkfsWriteBytesLoop fuel v off buf len = (.ok (), v')) (hlen : len ≤ fuel) :
    v'.bd.data = blit v.bd.data off len buf := by
  induction fuel generalizing v off len buf with
  | zero =>
    obtain rfl : len = 0 := Nat.le_zero.1 hlen
    cases h
    exact (blit_zero _ _ _).symm
  | succ fuel ih =>
    rw [brkfsWriteBytesLoop] at h
    split at h
    · next h0 =>
      cases h
      rw [h0, blit_zero]
    next h0 =>
    obtain ⟨chunk, hif, hpos, hle, -⟩ := chunk_spec off h0
    simp only [hif] at h
    have htick := v.tick_same.2
    split at h
    · cases h
    next u hu =>
      rw [hu] at htick
      rw [ih h (by omega)]
      show blit (blit u.bd.data off chunk buf) (off + chunk) (len - chunk) (window buf chunk) = _
      rw [htick, blit_adjacent, Nat.add_sub_cancel' hle]

/-- `brkfs_super_write` puts the superblock to its place and to the backup block. -/
theorem brkfsSuperWrite_data (h : brkfsSuperWrite v = (.ok (), v')) :
    v'.bd.data = blit (blit v.bd.data superOffset superSize (brkfsSuperSetChecksum v.sb).bytes)
      (v.sb.sBackupSuper * v.sb.sBlocksize) superSize (brkfsSuperSetChecksum v.sb).bytes := by
  unfold brkfsSuperWrite at h
  simp only at h
  split at h
  · cases h
  next u h1 =>
    split at h
    · cases h
    · rw [brkfsWriteBytesLoop_data h le_rfl, brkfsWriteBytesLoop_data h1 le_rfl]

/-- What `brkfs_validate_super` checks before the geometry. -/
theorem brkfsValidateSuper_quickOk {capacity : Nat} (h : brkfsValidateSuper sb capacity = .ok ()) :
    brkfsSuperQuickOk sb = true ∧ brkfsSuperSetChecksum sb = sb := by
  simp only [brkfsValidateSuper, ite_error_eq_ok, ne_eq, Decidable.not_not] at h
  obtain ⟨hmagic, hversion, -, hcsum, -⟩ := h
  refine ⟨?_, ?_⟩
  · unfold brkfsSuperQuickOk
    rw [if_neg (not_not.2 hmagic), if_neg (not_not.2 hversion), if_neg (not_not.2 hcsum)]
  · unfold brkfsSuperSetChecksum
    rw [← hcsum]

end Written

/-! ## Recovery -/

/-- A device that all data of `v'` has reached and whose primary superblock was then overwritten or
has become unreadable. -/
structure Damaged (v' : Vol) (m : Medium) : Prop where
  data : ∀ a, a < superOffset ∨ superOffset + superSize ≤ a → m.data a = v'.bd.data a
  others : ∀ p, p ≠ 0 → m.readErr p = none
  damage : m.readErr 0 ≠ none ∨ brkfsSuperQuickOk (m.superAt superOffset) = false

section Recovery

variable {v v' : Vol} {sb : SuperBlock} {m : Medium} {stack : ByteMem}

theorem blockSizes_sorted : blockSizes.Pairwise (· < ·) := by decide

/-- The superblock is in the last block of a device that the volume fills. -/
theorem superAt_backup (hlayout : sb.geom.LayoutOk) (hfits : sb.Fits)
    (hset : brkfsSuperSetChecksum sb = sb) (hv : v.sb = sb)
    (hwrite : brkfsSuperWrite v = (.ok (), v')) (hm : Damaged v' m) :
    m.superAt (sb.sBackupSuper * sb.sBlocksize) = sb := by
  have hpast : superOffset + superSize ≤ sb.sBackupSuper * sb.sBlocksize := by
    obtain ⟨-, h2, h3, h4, h5, -⟩ := inOrder_of_layoutOk hlayout
    simp only [Area.stop, SuperBlock.inodeBitmapArea, SuperBlock.dataBitmapArea,
      SuperBlock.inodeTableArea] at h2 h3 h4
    exact hlayout.afterSuper.trans (Nat.mul_le_mul_right _ (show sb.sInodeBitmap ≤ _ by omega))
  have hbytes : ∀ i < superSize, window m.data (sb.sBackupSuper * sb.sBlocksize) i =
      sb.bytes i := by
    intro i hi
    rw [window_apply, hm.data _ (.inr (hpast.trans (Nat.le_add_right _ _))),
      brkfsSuperWrite_data hwrite, hv, hset, blit_of_mem (Nat.le_add_right _ _) (by omega),
      Nat.add_sub_cancel_left]
  exact (ofBytes_congr hbytes).trans (ofBytes_bytes hfits)

/-- An accepted superblock in the right place is a copy that the search takes. -/
theorem copy_of_superAt {capacity : Nat} (h : brkfsValidateSuper sb capacity = .ok ())
    (hfits : sb.Fits) (hroom : sb.sBlocksize ≤ m.capacity)
    (hat : m.superAt (m.capacity - sb.sBlocksize) = sb) : m.Copy sb.sBlocksize := by
  have hcount : sb.sBlocksCount < 4294967296 := hfits.head _ (by simp [SuperBlock.head])
  have hbackup : sb.sBackupSuper + 1 = sb.sBlocksCount := (brkfsValidateSuper_layoutOk h).backup
  refine ⟨hroom, ?_, ?_, ?_⟩
  · rw [hat]
    exact (brkfsValidateSuper_quickOk h).1
  · rw [hat]
  · rw [hat]
    unfold u32
    omega

/-- **When the backup recovers the volume.** Once the primary superblock is overwritten or
unreadable, `brkfs_read_super` yields the superblock that `brkfs_super_write` wrote exactly when
the damaged one can be read, the volume fills the device or the last block of the device holds the
same superblock, and no copy for a smaller block size comes first. -/
theorem backup_recovers_iff (raw : ByteMem) (capacity : Nat)
    (h : brkfsValidateSuper (SuperBlock.ofBytes raw) capacity = .ok ()) (v v' : Vol)
    (hv : v.sb = SuperBlock.ofBytes raw) (hwrite : brkfsSuperWrite v = (.ok (), v')) (m : Medium)
    (hcap : m.capacity = capacity) (hm : Damaged v' m) (stack : ByteMem) :
    brkfsReadSuper m stack = .ok v.sb ↔
      m.readErr 0 = none ∧ (v.sb.sBlocksCount * v.sb.sBlocksize = capacity ∨
        v.sb.sBlocksize ≤ capacity ∧ m.superAt (capacity - v.sb.sBlocksize) = v.sb) ∧
      ∀ bs ∈ blockSizes, bs < v.sb.sBlocksize → ¬ m.Copy bs := by
  have hfits := ofBytes_fits raw
  rw [← hv] at h hfits
  have hlayout := brkfsValidateSuper_layoutOk h
  obtain ⟨-, hset⟩ := brkfsValidateSuper_quickOk h
  cases herr : m.readErr 0 with
  | some e =>
    rw [brkfsReadSuper_unreadable herr]
    simp
  | none =>
    have hread : ∀ p, m.readErr p = none := fun p =>
      if hp : p = 0 then hp ▸ herr else hm.others p hp
    have hquick : brkfsSuperQuickOk (m.superAt superOffset) = false :=
      hm.damage.resolve_left (not_not.2 herr)
    obtain ⟨buf, hbuf, hsuper⟩ := @brkfsReadRaw_ok m stack hread superOffset
    have hsearch : brkfsReadSuper m stack = searchBackup m stack blockSizes := by
      unfold brkfsReadSuper
      rw [hbuf]
      simp only [hsuper, hquick]
      rfl
    have hfull : v.sb.sBlocksCount * v.sb.sBlocksize = capacity →
        v.sb.sBlocksize ≤ capacity ∧ m.superAt (capacity - v.sb.sBlocksize) = v.sb := by
      intro hfill
      have hcount : v.sb.sBackupSuper + 1 = v.sb.sBlocksCount := hlayout.backup
      have hsplit : v.sb.sBackupSuper * v.sb.sBlocksize + v.sb.sBlocksize = capacity := by
        rw [← hfill, ← hcount, Nat.succ_mul]
      refine ⟨by omega, ?_⟩
      rw [show capacity - v.sb.sBlocksize = v.sb.sBackupSuper * v.sb.sBlocksize by omega]
      exact superAt_backup hlayout hfits hset rfl hwrite hm
    rw [hsearch, searchBackup_eq_ok hread]
    constructor
    · rintro ⟨before, bs, after, hsizes, hno, hcopy, hat⟩
      have hsize : bs = v.sb.sBlocksize := by
        rw [← hat]
        exact hcopy.size.symm
      subst hsize
      refine ⟨rfl, .inr ⟨hcap ▸ hcopy.room, hcap ▸ hat⟩, ?_⟩
      intro bs hmem hlt
      have hsorted := blockSizes_sorted
      rw [hsizes] at hmem hsorted
      rw [pairwise_append, pairwise_cons] at hsorted
      rcases mem_append.1 hmem with hbefore | hrest
      · exact hno bs hbefore
      · rcases mem_cons.1 hrest with rfl | hafter
        · exact absurd hlt (lt_irrefl _)
        · exact absurd (hsorted.2.1.1 bs hafter) (Nat.lt_asymm hlt)
    · rintro ⟨-, hlast, hno⟩
      have hlast' : v.sb.sBlocksize ≤ capacity ∧
          m.superAt (capacity - v.sb.sBlocksize) = v.sb := hlast.elim hfull id
      have hmem : v.sb.sBlocksize ∈ blockSizes := by
        have hbs : v.sb.sBlocksize = 1024 ∨ v.sb.sBlocksize = 2048 ∨ v.sb.sBlocksize = 4096 :=
          hlayout.blocksize
        simpa [blockSizes] using hbs
      rw [← hcap] at hlast'
      obtain ⟨before, after, hsizes⟩ := append_of_mem hmem
      refine ⟨before, _, after, hsizes, ?_, copy_of_superAt h hfits hlast'.1 hlast'.2, hlast'.2⟩
      intro bs hbefore
      have hsorted := blockSizes_sorted
      rw [hsizes, pairwise_append] at hsorted
      refine hno bs (hsizes ▸ mem_append_left _ hbefore) ?_
      exact hsorted.2.2 bs hbefore _ mem_cons_self

end Recovery

/-- A device that all data of `v'` has reached, with zeros over the primary superblock. -/
def wiped (v' : Vol) (capacity : Nat) : Medium where
  data a := if superOffset ≤ a ∧ a < superOffset + superSize then 0 else v'.bd.data a
  readErr _ := none
  capacity := capacity

theorem wiped_damaged (v' : Vol) (capacity : Nat) : Damaged v' (wiped v' capacity) := by
  refine ⟨?_, fun p _ => rfl, .inr rfl⟩
  intro a ha
  exact if_neg (by omega)

/-- The tiny volume, mounted from its image. -/
def tinyMounted : Vol := { tinyVol with sb := SuperBlock.ofBytes tinyImage }

theorem tinyMounted_write : ∃ v', brkfsSuperWrite tinyMounted = (.ok (), v') := by
  have hok : tinyMounted.Ok tinySuper.geom := by
    refine ⟨?_, tinySuper_layoutOk, by decide, rfl⟩
    show (SuperBlock.ofBytes tinyImage).geom = tinySuper.geom
    rw [tinyImage_super, geom_setChecksum]
  obtain ⟨v', hrun, -⟩ := brkfsSuperWrite_spec hok
  exact ⟨v', hrun⟩

theorem backup_recovers_tiny : ∃ v', brkfsSuperWrite tinyMounted = (.ok (), v') ∧
    Damaged v' (wiped v' 10240) ∧
    brkfsReadSuper (wiped v' 10240) (fun _ => 0) = .ok tinyMounted.sb := by
  obtain ⟨v', hwrite⟩ := tinyMounted_write
  refine ⟨v', hwrite, wiped_damaged v' 10240, ?_⟩
  refine (backup_recovers_iff tinyImage 10240 (tinyImage_accepted le_rfl) tinyMounted v'
    rfl
    hwrite _ rfl (wiped_damaged v' 10240) _).2 ⟨rfl, .inl ?_, ?_⟩
  · rfl
  intro bs hbs hlt
  have hsize : tinyMounted.sb.sBlocksize = 1024 := by
    rfl
  simp only [blockSizes, mem_cons, not_mem_nil, or_false] at hbs
  omega

/-- The tiny volume of 10240 bytes on a device of 20480 bytes is accepted, but its backup is not
found. -/
theorem backup_missed : brkfsValidateSuper (SuperBlock.ofBytes tinyImage) 20480 = .ok () ∧
      ∃ v', brkfsSuperWrite tinyMounted = (.ok (), v') ∧ Damaged v' (wiped v' 20480) ∧
        brkfsReadSuper (wiped v' 20480) (fun _ => 0) = .error .einval := by
  obtain ⟨v', hwrite⟩ := tinyMounted_write
  refine ⟨tinyImage_accepted (by decide), v', hwrite, wiped_damaged v' 20480, ?_⟩
  have hread : ∀ p, (wiped v' 20480).readErr p = none := fun _ => rfl
  -- Behind the volume there are zeros.
  have hzero : ∀ a, 10240 ≤ a → (wiped v' 20480).data a = 0 := by
    intro a ha
    rw [(wiped_damaged v' 20480).data a (.inr (by unfold superOffset superSize; omega)),
      brkfsSuperWrite_data hwrite]
    have hbackup : tinyMounted.sb.sBackupSuper * tinyMounted.sb.sBlocksize = 9216 := by
      rfl
    rw [hbackup, blit_of_disjoint (by unfold superSize; omega),
      blit_of_disjoint (by unfold superOffset superSize; omega)]
    rfl
  have hno : ∀ x, x ≤ 10240 → ¬ (wiped v' 20480).Copy x := by
    intro x hx hcopy
    have hmagic : ((wiped v' 20480).superAt (20480 - x)).sMagic = 0 := by
      refine (@load_congr _ (fun _ => 0) _ 0 _ fun i _ => ?_).trans (rfl : load 4 _ 0 = 0)
      exact hzero _ (by omega)
    have hquick := hcopy.quick
    unfold brkfsSuperQuickOk at hquick
    rw [show (wiped v' 20480).capacity = 20480 from rfl, if_pos (by rw [hmagic]; decide)] at hquick
    cases hquick
  obtain ⟨buf, hbuf, hsuper⟩ := @brkfsReadRaw_ok _ (fun _ => 0) hread superOffset
  unfold brkfsReadSuper
  rw [hbuf]
  simp only [hsuper]
  rw [blockSizes, searchBackup_skip hread (hno _ (by decide)),
    searchBackup_skip hread (hno _ (by decide)), searchBackup_skip hread (hno _ (by decide))]
  rfl

end BrkKernel.Brkfs
