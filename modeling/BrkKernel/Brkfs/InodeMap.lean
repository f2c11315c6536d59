import BrkKernel.Brkfs.Getblk

/-!
# The block map of an inode

An inode holds ten slots: seven direct blocks and the roots of trees of depth one, two and three.
`blkPos` is the slot and the position in its tree of a file block, `inodeWalk` the device block
mapped there. `brkfsInodeGetblk_create` shows that a creating lookup changes the map at the
looked-up block only and keeps the accounting of blocks, and `brkfsInodeGetblk_read` that a lookup
without `create` reads the map.
-/

set_option autoImplicit false

namespace BrkKernel.Brkfs

open Lib Lib.ByteMem Function Finset SlotStore

variable {m : ByteMem} {i n s' l : Nat}

/-- Depth of the tree below slot `s` of an inode. -/
def slotLevel (s : Nat) : Nat := s + 1 - indirectBlock

/-- Number of references to `x` from the slots of an inode and its indirect blocks. -/
def inodeRefs (g : Geometry) (m : ByteMem) (nd : FsInode) (x : Nat) : Nat :=
  ∑ s ∈ Finset.range nrBlockPtrs, treeRefs g m (slotLevel s) (nd.iBlock s) x

/-- `x` is an indirect block of the inode. -/
def InodeInner (g : Geometry) (m : ByteMem) (nd : FsInode) (x : Nat) : Prop :=
  ∃ s < nrBlockPtrs, TreeInner g m (slotLevel s) (nd.iBlock s) x

/-- All pointers of the inode and its indirect blocks are `0` or data blocks. -/
def InodeClean (g : Geometry) (m : ByteMem) (nd : FsInode) : Prop :=
  ∀ s < nrBlockPtrs, TreeClean g m (slotLevel s) (nd.iBlock s)

/-- Slot and position of file block `n`, with `fan` pointers in a block. -/
def blkPos (fan n : Nat) : Option (Nat × Nat) :=
  if n < directBlocks then some (n, 0)
  else if n - directBlocks < fan then some (indirectBlock, n - directBlocks)
  else if n - directBlocks < fan + fan * fan then
    some (indirectBlock + 1, n - directBlocks - fan)
  else if n - directBlocks < fan + fan * fan + fan * fan * fan then
    some (indirectBlock + 2, n - directBlocks - fan - fan * fan)
  else none

/-- The device block of file block `n`. -/
def inodeWalk (g : Geometry) (m : ByteMem) (nd : FsInode) (n : Nat) : Option Nat :=
  match blkPos g.slots.fan n with
  | some (s, i) => treeWalk g m (slotLevel s) (nd.iBlock s) i
  | none => none

/-- Nothing the inode refers to is shared, and all of it is marked as used. -/
abbrev InodeOwned (g : Geometry) (v : Vol) (nd : FsInode) : Prop :=
  Owned g v (inodeRefs g v.bd.data nd)

theorem blkPos_spec {fan s : Nat} (h : blkPos fan n = some (s, i)) :
    s < nrBlockPtrs ∧ i < fan ^ slotLevel s := by
  have e2 : fan ^ 2 = fan * fan := Nat.pow_two fan
  have e3 : fan ^ 3 = fan * fan * fan := by rw [pow_succ, Nat.pow_two]
  unfold blkPos at h
  split_ifs at h with hd h1 h2 h3 <;> obtain ⟨rfl, rfl⟩ := Prod.mk.inj (Option.some.inj h)
  · rw [show slotLevel n = 0 from Nat.sub_eq_zero_of_le hd, pow_zero]
    unfold nrBlockPtrs
    unfold directBlocks at hd
    omega
  · refine ⟨by decide, ?_⟩
    rw [show slotLevel indirectBlock = 1 from rfl, pow_one]
    exact h1
  · refine ⟨by decide, ?_⟩
    rw [show slotLevel (indirectBlock + 1) = 2 from rfl, e2]
    omega
  · refine ⟨by decide, ?_⟩
    rw [show slotLevel (indirectBlock + 2) = 3 from rfl, e3]
    omega

theorem blkPos_inj {fan n' : Nat} {p : Nat × Nat} (h : blkPos fan n = some p)
    (h' : blkPos fan n' = some p) : n = n' := by
  obtain ⟨s, i⟩ := p
  unfold blkPos directBlocks indirectBlock directBlocks at h h'
  split_ifs at h h' <;> simp only [Option.some.injEq, Prod.mk.injEq] at h h' <;> omega

theorem blkPos_direct (fan : Nat) (hd : n < directBlocks) :
    blkPos fan n = some (n, 0) ∧ n < nrBlockPtrs ∧ slotLevel n = 0 := by
  have hpos : blkPos fan n = some (n, 0) := by rw [blkPos, if_pos hd]
  have hlevel : slotLevel n = 0 := by
    unfold slotLevel indirectBlock
    omega
  exact ⟨hpos, (blkPos_spec hpos).1, hlevel⟩

theorem slotLevel_indirect (l : Nat) : slotLevel (indirectBlock + l) = l + 1 := by
  unfold slotLevel
  omega

/-- Blocks that start in the first `2 ^ 32` bytes of a file have a place in the block map. -/
theorem blkPos_of_small {g : Geometry} (hg : g.LayoutOk) (h : n * g.blocksize ≤ 2 ^ 32) :
    (blkPos g.slots.fan n).isSome := by
  have hfan : g.slots.fan = g.blocksize / 4 := rfl
  rw [hfan]
  unfold blkPos directBlocks
  rcases hg.blocksize with hb | hb | hb
  all_goals
    rw [hb] at h ⊢
    split_ifs
    · rfl
    · rfl
    · rfl
    · rfl
    · omega

section InodeLemmas

variable {g : Geometry} {v v' v'' : Vol} {nd nd' : FsInode} {s b n x : Nat}

theorem isData_of_inodeRefs (h : 0 < inodeRefs g m nd x) : g.IsData x := by
  obtain ⟨s, -, hs⟩ := exists_ne_zero_of_sum_ne_zero (Nat.pos_iff_ne_zero.1 h)
  exact isData_of_treeRefs (pos_of_ne_zero hs)

theorem isData_of_inodeInner (h : InodeInner g m nd x) : g.IsData x := by
  obtain ⟨s, -, hs⟩ := h
  exact isData_of_inner hs

theorem treeRefs_le_inodeRefs (m : ByteMem) (nd : FsInode) (hs : s < nrBlockPtrs) (x : Nat) :
    treeRefs g m (slotLevel s) (nd.iBlock s) x ≤ inodeRefs g m nd x :=
  single_le_sum (f := fun s => treeRefs g m (slotLevel s) (nd.iBlock s) x)
    (fun _ _ => Nat.zero_le _) (mem_range.2 hs)

theorem InodeOwned.slot (h : InodeOwned g v nd) (hs : s < nrBlockPtrs) :
    TreeOwned g v (slotLevel s) (nd.iBlock s) := h.mono (treeRefs_le_inodeRefs _ nd hs)

theorem InodeOwned.sum (h : InodeOwned g v nd) : Owned g v fun x => 0 +
    ∑ s ∈ range nrBlockPtrs, treeRefs g v.bd.data (slotLevel s) (nd.iBlock s) x :=
  h.mono fun x => by rw [zero_add]; exact le_rfl

theorem setBlock_self (nd : FsInode) (s b : Nat) : (nd.setBlock s b).iBlock s = b := update_self ..

theorem setBlock_of_ne (nd : FsInode) (b : Nat) (h : s' ≠ s) :
    (nd.setBlock s b).iBlock s' = nd.iBlock s' := update_of_ne h ..

section

variable (hg : g.LayoutOk) (hown : InodeOwned g v nd) (hs : s < nrBlockPtrs)

include hg hown hs

/-- Slots other than `s` are not written by an operation on the tree of slot `s`. -/
theorem slot_untouched (hs' : s' < nrBlockPtrs) (hne : s' ≠ s) :
    Untouched g (MayWrite g v (treeRefs g v.bd.data (slotLevel s) (nd.iBlock s)) fun _ => False) v
      (slotLevel s') (nd.iBlock s') :=
  untouched_of_owned (range nrBlockPtrs) slotLevel nd.iBlock (k := s)
    (E := fun _ => 0) hg hown.sum (fun _ hc => False.elim hc) (mem_range.2 hs)
    (mem_range.2 hs') hne

/-- A change of the tree of one slot is a change of the inode. -/
theorem Change.inode
    (h : Change g (fun _ => False) v v' (treeRefs g v.bd.data (slotLevel s) (nd.iBlock s))
      (treeRefs g v'.bd.data (slotLevel s) b)) :
    Change g (fun _ => False) v v' (inodeRefs g v.bd.data nd)
      (inodeRefs g v'.bd.data (nd.setBlock s b)) := by
  have hR : ∀ m (nd : FsInode), inodeRefs g m nd = fun x => 0 +
      ∑ s ∈ range nrBlockPtrs, treeRefs g m (slotLevel s) (nd.iBlock s) x := fun m nd => by
    funext x
    rw [zero_add]
    rfl
  rw [hR, hR]
  refine Change.forest (range nrBlockPtrs) slotLevel nd.iBlock
    (nd.setBlock s b).iBlock (k := s) (E := fun _ => 0) hg ?_ hown.sum
    (fun _ hc => False.elim hc) (fun _ hc => False.elim hc) (mem_range.2 hs)
    fun i _ hi => setBlock_of_ne nd b hi
  rw [setBlock_self]
  exact h

section

variable (hf : Frame g
  (MayWrite g v (treeRefs g v.bd.data (slotLevel s) (nd.iBlock s)) fun _ => False) v v')

include hf

/-- The block map after an operation on the tree of slot `s`: file blocks of another slot are
mapped as before. -/
theorem inodeWalk_setBlock {y : Option Nat}
    (hin : ∀ i, blkPos g.slots.fan n = some (s, i) → treeWalk g v'.bd.data (slotLevel s) b i = y)
    (hout : (∀ i, blkPos g.slots.fan n ≠ some (s, i)) → inodeWalk g v.bd.data nd n = y) :
    inodeWalk g v'.bd.data (nd.setBlock s b) n = y := by
  unfold inodeWalk at hout ⊢
  cases hpos : blkPos g.slots.fan n with
  | none =>
    rw [hpos] at hout
    exact hout fun _ => (Option.some_ne_none _).symm
  | some p =>
    obtain ⟨s', i⟩ := p
    rw [hpos] at hin hout
    by_cases hss : s' = s
    · subst hss
      simp only [setBlock_self]
      exact hin i rfl
    · obtain ⟨hs', hi⟩ := blkPos_spec hpos
      simp only [setBlock_of_ne nd b hss, (slot_untouched hg hown hs hs' hss).walk_eq hf hi]
      exact hout fun j hj => hss (Prod.mk.inj (Option.some.inj hj)).1

theorem clean_setBlock (hc : InodeClean g v.bd.data nd)
    (hb : TreeClean g v'.bd.data (slotLevel s) b) : InodeClean g v'.bd.data (nd.setBlock s b) := by
  intro s' hs'
  by_cases hss : s' = s
  · subst hss
    rw [setBlock_self]
    exact hb
  · rw [setBlock_of_ne nd b hss]
    exact ((slot_untouched hg hown hs hs' hss).clean_iff hf).2 (hc s' hs')

end

end

/-! ## Creating lookups -/

/-- Blocks written while the block map of an inode grows. -/
def InodeGrowWrites (g : Geometry) (v : Vol) (nd : FsInode) (c : Nat) : Prop :=
  g.IsDataBitmap c ∨ g.IsSuper c ∨ InodeInner g v.bd.data nd c ∨
    (g.IsData c ∧ dataBit g v.bd.data c = false)

/-- Blocks are added to the block map of an inode. -/
structure InodeGrow (g : Geometry) (v v' : Vol) (nd nd' : FsInode) : Prop where
  change : Change g (fun _ => False) v v' (inodeRefs g v.bd.data nd) (inodeRefs g v'.bd.data nd')
  writes : Frame g (InodeGrowWrites g v nd) v v'
  grows : ∀ c, g.IsData c → dataBit g v.bd.data c = true → dataBit g v'.bd.data c = true
  clean : InodeClean g v.bd.data nd → InodeClean g v'.bd.data nd'
  attrs : nd' = { nd with iBlock := nd'.iBlock }

/-- What a creating lookup of file block `n` returns, with the block map before and after. -/
def GetblkOutcome (g : Geometry) (v v' : Vol) (nd nd' : FsInode) (n : Nat) :
    Except Errno Nat → Prop
  | .ok c => g.IsData c ∧
      (inodeWalk g v.bd.data nd n = some c ∨
        (inodeWalk g v.bd.data nd n = none ∧ dataBit g v.bd.data c = false)) ∧
      ∀ j, inodeWalk g v'.bd.data nd' j = if j = n then some c else inodeWalk g v.bd.data nd j
  | .error e => ((e = .enospc ∧ (Full g v' ∨ blkPos g.slots.fan n = none)) ∨
        (e = .eio ∧ ¬ InodeClean g v.bd.data nd)) ∧
      ∀ j, inodeWalk g v'.bd.data nd' j = inodeWalk g v.bd.data nd j

theorem InodeGrow.refl (h : InodeOwned g v nd) : InodeGrow g v v nd nd :=
  ⟨Change.refl _ h, Frame.refl g _ v, fun _ _ => id, id, rfl⟩

theorem InodeGrow.of_slot (hg : g.LayoutOk) (hown : InodeOwned g v nd) (hs : s < nrBlockPtrs)
    (h : Grow g (fun _ => False) (slotLevel s) v v' (nd.iBlock s) b) :
    InodeGrow g v v' nd (nd.setBlock s b) where
  change := h.change.inode hg hown hs
  writes := h.writes.mono fun c hc => by
    rcases hc with hc | hc | hc | hc | hc
    · exact .inl hc
    · exact .inr (.inl hc)
    · exact .inr (.inr (.inl ⟨s, hs, hc⟩))
    · exact .inr (.inr (.inr hc))
    · exact hc.elim
  grows := h.grows
  clean hc := clean_setBlock hg hown hs h.change.frame hc (h.clean (hc s hs))
  attrs := rfl

/-- The outcome of a lookup in one slot is the outcome for the file block. -/
theorem GetblkOutcome.of_slot {res : Except Errno Nat} (hg : g.LayoutOk) (hown : InodeOwned g v nd)
    (h : Grow g (fun _ => False) (slotLevel s) v v' (nd.iBlock s) b)
    (hpos : blkPos g.slots.fan n = some (s, i))
    (ho : LookupOutcome g (slotLevel s) v v' (nd.iBlock s) b i res) :
    GetblkOutcome g v v' nd (nd.setBlock s b) n res := by
  obtain ⟨hs, hi⟩ := blkPos_spec hpos
  have hwalk := fun {j y} => inodeWalk_setBlock (b := b) (n := j) (y := y) hg hown hs h.change.frame
  have hn : inodeWalk g v.bd.data nd n = treeWalk g v.bd.data (slotLevel s) (nd.iBlock s) i := by
    rw [inodeWalk, hpos]
  -- other file blocks of the same slot have other positions
  have hother : ∀ j i', blkPos g.slots.fan j = some (s, i') → (i' = i ↔ j = n) := by
    intro j i' hj
    constructor
    · rintro rfl
      exact blkPos_inj hj hpos
    · rintro rfl
      rw [hj] at hpos
      exact (Prod.mk.inj (Option.some.inj hpos)).2
  cases res with
  | ok c =>
    obtain ⟨hd, hc, hall⟩ := ho
    rw [← hn] at hc
    refine ⟨hd, hc, fun j => hwalk (fun i' hj => ?_) fun hj => ?_⟩
    · rw [hall i' (blkPos_spec hj).2, inodeWalk, hj]
      simp only [hother j i' hj]
    · rw [if_neg]
      rintro rfl
      exact hj i hpos
  | error e =>
    obtain ⟨he, hall⟩ := ho
    refine ⟨?_, fun j => hwalk (fun i' hj => ?_) fun _ => rfl⟩
    · rcases he with ⟨rfl, he⟩ | ⟨rfl, he⟩
      · exact .inl ⟨rfl, .inl he⟩
      · exact .inr ⟨rfl, fun hc => he (hc s hs)⟩
    · rw [hall i' (blkPos_spec hj).2, inodeWalk, hj]

/-- A creating lookup in one of the indirect trees. -/
theorem brkfsGetblkIndirect_create (h : v.Ok g) (hown : InodeOwned g v nd)
    (hpos : blkPos g.slots.fan n = some (indirectBlock + l, i)) :
    ∃ res nd' v', brkfsGetblkIndirect v nd l i true = (res, nd', v') ∧ InodeGrow g v v' nd nd' ∧
      GetblkOutcome g v v' nd nd' n res := by
  have hg := h.layout
  have hlevel := slotLevel_indirect l
  obtain ⟨hs, hi⟩ := blkPos_spec hpos
  have hown' := hown.slot hs
  rw [hlevel] at hi hown'
  -- recording features leaves the tree alone
  obtain ⟨v1, hpre, hgrow1, hwalk1⟩ : ∃ v1,
      brkfsGetblkSetFeatures v nd.mode l true = (.ok (), v1) ∧
      Grow g (fun _ => False) (l + 1) v v1 (nd.iBlock (indirectBlock + l))
        (nd.iBlock (indirectBlock + l)) ∧
      ∀ j < g.slots.fan ^ (l + 1),
        treeWalk g v1.bd.data (l + 1) (nd.iBlock (indirectBlock + l)) j =
          treeWalk g v.bd.data (l + 1) (nd.iBlock (indirectBlock + l)) j := by
    unfold brkfsGetblkSetFeatures
    split
    · obtain ⟨v1, hrun, hframe, hfree⟩ := brkfsSuperSetFeatures_spec h (getblkFeatures nd.mode l)
      exact ⟨v1, hrun, Grow.of_super hg hframe hfree hown',
        fun j hj => treeWalk_of_super hg hframe hj⟩
    · exact ⟨v, rfl, Grow.refl _ hown', fun _ _ => rfl⟩
  obtain ⟨res, b', v2, hlook, hgrow2, hout⟩ :=
    brkfsIndirectLookup_create (hgrow1.writes.ok h) (hgrow1.owned hown') hi
  have hgrow := hgrow1.trans hgrow2
  have hafter := LookupOutcome.after hgrow1 hwalk1 hi hout
  rw [← hlevel] at hgrow hafter
  refine ⟨res, nd.setBlock (indirectBlock + l) b', v2, ?_, .of_slot hg hown hs hgrow,
    .of_slot hg hown hgrow hpos hafter⟩
  simp only [brkfsGetblkIndirect, hpre, hlook]

/-- A freshly allocated block in an empty direct slot. -/
theorem InodeGrow.of_alloc {c : Nat} (hg : g.LayoutOk) (hown : InodeOwned g v nd)
    (hstep : AllocStep g v v' c) (hd : n < directBlocks) (hz : nd.iBlock n = 0) :
    InodeGrow g v v' nd (nd.setBlock n c) ∧
      GetblkOutcome g v v' nd (nd.setBlock n c) n (.ok c) := by
  obtain ⟨hpos, hs, hlevel⟩ := blkPos_direct g.slots.fan hd
  have hcok := slots_ok_iff.2 hstep.isData
  have hgrow : Grow g (fun _ => False) (slotLevel n) v v' (nd.iBlock n) c := by
    rw [hlevel, hz]
    exact Grow.of_alloc hg hstep (Frame.refl g _ v') rfl
      (congrFun (treeRefs_leaf hstep.isData)) (fun x hx => hx.elim) (.inr hcok)
  refine ⟨InodeGrow.of_slot hg hown hs hgrow,
    GetblkOutcome.of_slot hg hown hgrow hpos ⟨hstep.isData, .inr ⟨?_, hstep.clear⟩, ?_⟩⟩
  · rw [hz]
    exact treeWalk_zero hg _ _ _
  intro j hj
  rw [hlevel, pow_zero] at hj
  rw [if_pos (by omega), hlevel]
  simp [treeWalk, walk, hcok]

/-- Behind the direct blocks `brkfs_inode_getblk` looks in the tree that has the block. -/
theorem brkfsInodeGetblk_indirect (h : v.Ok g) (nd : FsInode) {off : Nat} (create : Bool)
    (hd : ¬ off / g.blocksize < directBlocks) :
    blkPos g.slots.fan (off / g.blocksize) = none ∧
      brkfsInodeGetblk v nd off create = (.error .enospc, nd, v) ∨
    ∃ l i, blkPos g.slots.fan (off / g.blocksize) = some (indirectBlock + l, i) ∧
      brkfsInodeGetblk v nd off create = brkfsGetblkIndirect v nd l i create := by
  have hptrs : g.blocksize / 4 = g.slots.fan := rfl
  unfold brkfsInodeGetblk
  simp only [h.bs, hptrs, blkPos, if_neg hd]
  generalize off / g.blocksize - directBlocks = adj
  split
  · rw [if_neg (by omega)]
    exact .inr ⟨0, _, rfl, rfl⟩
  split
  · rw [if_neg (by omega)]
    exact .inr ⟨1, _, rfl, rfl⟩
  split
  · rw [if_neg (by omega)]
    exact .inr ⟨2, _, rfl, rfl⟩
  · rw [if_pos (by omega)]
    exact .inl ⟨rfl, rfl⟩

/-- `brkfs_inode_getblk` with `BRKFS_GETBLK_CREATE`. -/
theorem brkfsInodeGetblk_create (h : v.Ok g) (hown : InodeOwned g v nd) (off : Nat) :
    ∃ res nd' v', brkfsInodeGetblk v nd off true = (res, nd', v') ∧ InodeGrow g v v' nd nd' ∧
      GetblkOutcome g v v' nd nd' (off / g.blocksize) res := by
  have hg := h.layout
  by_cases hd : off / g.blocksize < directBlocks
  · unfold brkfsInodeGetblk
    simp only [h.bs]
    generalize off / g.blocksize = n at hd ⊢
    obtain ⟨hpos, hs, hlevel⟩ := blkPos_direct g.slots.fan hd
    have hwalk : inodeWalk g v.bd.data nd n =
        if g.slots.ok (nd.iBlock n) then some (nd.iBlock n) else none := by
      simp only [inodeWalk, hpos, hlevel, treeWalk, walk]
    rw [if_pos hd]
    split
    · next hz =>
      rcases brkfsDataAlloc_spec h with ⟨c, v1, hstep, hrun⟩ | ⟨hfull, hrun⟩
      · obtain ⟨hgrow, hout⟩ := InodeGrow.of_alloc hg hown hstep hd hz
        rw [hrun]
        exact ⟨_, _, _, rfl, hgrow, hout⟩
      · rw [hrun]
        exact ⟨_, _, _, rfl, .refl hown, .inl ⟨rfl, .inl hfull⟩, fun _ => rfl⟩
    next hz =>
    by_cases hb : g.IsData (nd.iBlock n)
    · simp only [(brkfsValidDataBno_iff h).2 hb, Bool.not_true, Bool.false_eq_true, if_false]
      rw [if_pos (slots_ok_iff.2 hb)] at hwalk
      refine ⟨_, _, _, rfl, .refl hown, hb, .inl hwalk, fun j => ?_⟩
      split
      · next hj => rw [hj, hwalk]
      · rfl
    · have hv := brkfsValidDataBno_eq_false h hb
      simp only [hv, Bool.not_false, if_true]
      refine ⟨_, _, _, rfl, .refl hown, .inr ⟨rfl, fun hc => ?_⟩, fun _ => rfl⟩
      exact hb (slots_ok_iff.1 ((hc n hs).root.resolve_left hz))
  · rcases brkfsInodeGetblk_indirect h nd true hd with ⟨hpos, hrun⟩ | ⟨l, i, hpos, hrun⟩
    · rw [hrun]
      exact ⟨_, _, _, rfl, .refl hown, .inl ⟨rfl, .inr hpos⟩, fun _ => rfl⟩
    · rw [hrun]
      exact brkfsGetblkIndirect_create h hown hpos

/-! ## Reading lookups -/

theorem brkfsGetblkIndirect_read (h : v.Ok g) (hc : InodeClean g v.bd.data nd)
    (hpos : blkPos g.slots.fan n = some (indirectBlock + l, i)) :
    brkfsGetblkIndirect v nd l i false = (.ok ((inodeWalk g v.bd.data nd n).getD 0), nd, v) := by
  have hlevel := slotLevel_indirect l
  obtain ⟨hs, hi⟩ := blkPos_spec hpos
  have hclean := hc _ hs
  rw [hlevel] at hi hclean
  have hsame : nd.setBlock (indirectBlock + l) (nd.iBlock (indirectBlock + l)) = nd := by
    rw [FsInode.setBlock, update_eq_self]
  simp only [brkfsGetblkIndirect, brkfsGetblkSetFeatures, Bool.false_eq_true, false_and, if_false,
    brkfsIndirectLookup_read l h hclean hi, hsame, inodeWalk, hpos, hlevel]

/-- `brkfs_inode_getblk` without `BRKFS_GETBLK_CREATE` reads the block map; holes are `0`. -/
theorem brkfsInodeGetblk_read (h : v.Ok g) (hc : InodeClean g v.bd.data nd) (off : Nat)
    (hcap : (blkPos g.slots.fan (off / g.blocksize)).isSome) :
    brkfsInodeGetblk v nd off false =
      (.ok ((inodeWalk g v.bd.data nd (off / g.blocksize)).getD 0), nd, v) := by
  by_cases hd : off / g.blocksize < directBlocks
  · unfold brkfsInodeGetblk
    simp only [h.bs]
    generalize off / g.blocksize = n at hd ⊢
    obtain ⟨hpos, hs, hlevel⟩ := blkPos_direct g.slots.fan hd
    simp only [if_pos hd, inodeWalk, hpos, hlevel, treeWalk, walk]
    rcases (hc n hs).root with hz | hz
    · have hz' : nd.iBlock n = 0 := hz
      have hno : ¬ g.slots.ok 0 := slots_nil_not_ok h.layout
      simp [hz', hno]
    · have hz' : nd.iBlock n ≠ 0 := h.layout.isData_ne_zero (slots_ok_iff.1 hz)
      simp [hz', hz, (brkfsValidDataBno_iff h).2 (slots_ok_iff.1 hz)]
  · rcases brkfsInodeGetblk_indirect h nd false hd with ⟨hpos, -⟩ | ⟨l, i, hpos, hrun⟩
    · rw [hpos] at hcap
      cases hcap
    · rw [hrun]
      exact brkfsGetblkIndirect_read h hc hpos

/-! ## The blocks of a file and its indirect blocks -/

/-- Without sharing a block is referenced from one slot. -/
theorem InodeOwned.slot_unique (hown : InodeOwned g v nd) (hs : s < nrBlockPtrs)
    (hs' : s' < nrBlockPtrs) (h : 0 < treeRefs g v.bd.data (slotLevel s) (nd.iBlock s) x)
    (h' : 0 < treeRefs g v.bd.data (slotLevel s') (nd.iBlock s') x) : s = s' := by
  by_contra hne
  have hone : inodeRefs g v.bd.data nd x ≤ 1 := hown.le_one x
  have hmem : s' ∈ (range nrBlockPtrs).erase s :=
    mem_erase.2 ⟨Ne.symm hne, mem_range.2 hs'⟩
  have hle := single_le_sum
    (f := fun s => treeRefs g v.bd.data (slotLevel s) (nd.iBlock s) x)
    (fun _ _ => Nat.zero_le _) hmem
  rw [inodeRefs, ← add_sum_erase _ _ (mem_range.2 hs)] at hone
  omega

section

variable (h : inodeWalk g m nd n = some x)

include h

/-- The position of a mapped file block. -/
theorem inodeWalk_pos :
    ∃ s i, blkPos g.slots.fan n = some (s, i) ∧ s < nrBlockPtrs ∧
      i < g.slots.fan ^ slotLevel s ∧ treeWalk g m (slotLevel s) (nd.iBlock s) i = some x := by
  unfold inodeWalk at h
  split at h
  · next s i hpos => exact ⟨s, i, hpos, (blkPos_spec hpos).1, (blkPos_spec hpos).2, h⟩
  · cases h

theorem inodeRefs_pos_of_walk : 0 < inodeRefs g m nd x := by
  obtain ⟨s, i, -, hs, hi, hw⟩ := inodeWalk_pos h
  exact lt_of_lt_of_le (refs_pos_of_walk hi hw) (treeRefs_le_inodeRefs m nd hs x)

theorem isData_of_inodeWalk : g.IsData x :=
  isData_of_inodeRefs (inodeRefs_pos_of_walk h)

end

/-- File blocks are not indirect blocks. -/
theorem InodeOwned.not_inner (hown : InodeOwned g v nd)
    (h : inodeWalk g v.bd.data nd n = some x) : ¬ InodeInner g v.bd.data nd x := by
  obtain ⟨s, i, -, hs, hi, hw⟩ := inodeWalk_pos h
  rintro ⟨s', hs', hin⟩
  obtain rfl := hown.slot_unique hs hs' (refs_pos_of_walk hi hw) (refs_pos_of_inner hin)
  exact not_inner_of_walk ((hown.slot hs).le_one x) hi hw hin

/-- Different file blocks are different device blocks. -/
theorem InodeOwned.walk_inj (hown : InodeOwned g v nd) {n' : Nat}
    (h : inodeWalk g v.bd.data nd n = some x) (h' : inodeWalk g v.bd.data nd n' = some x) :
    n = n' := by
  obtain ⟨s, i, hpos, hs, hi, hw⟩ := inodeWalk_pos h
  obtain ⟨s', i', hpos', hs', hi', hw'⟩ := inodeWalk_pos h'
  obtain rfl := hown.slot_unique hs hs' (SlotStore.refs_pos_of_walk hi hw)
    (SlotStore.refs_pos_of_walk hi' hw')
  have hii : i = i' := SlotStore.walk_inj ((hown.slot hs).le_one x) hi hi' hw hw'
  subst hii
  exact blkPos_inj hpos hpos'

section Frame

variable {M : Nat → Prop} (hM : ∀ y, InodeInner g v.bd.data nd y → ¬ M y) (hf : Frame g M v v')
include hM

omit hf in
theorem untouched_slot (hs : s < nrBlockPtrs) : Untouched g M v (slotLevel s) (nd.iBlock s) :=
  fun y hy => hM y ⟨s, hs, hy⟩

include hf

/-- The block map depends only on the indirect blocks. -/
theorem inodeWalk_of_frame (n : Nat) :
    inodeWalk g v'.bd.data nd n = inodeWalk g v.bd.data nd n := by
  unfold inodeWalk
  cases hpos : blkPos g.slots.fan n with
  | none => rfl
  | some p =>
    obtain ⟨s, i⟩ := p
    obtain ⟨hs, hi⟩ := blkPos_spec hpos
    exact (untouched_slot hM hs).walk_eq hf hi

theorem inodeRefs_of_frame : inodeRefs g v'.bd.data nd = inodeRefs g v.bd.data nd := by
  funext x
  exact sum_congr rfl fun s hs => (untouched_slot hM (mem_range.1 hs)).refs_eq hf

theorem inodeClean_of_frame (hc : InodeClean g v.bd.data nd) : InodeClean g v'.bd.data nd := by
  intro s hs
  exact ((untouched_slot hM hs).clean_iff hf).2 (hc s hs)

theorem InodeOwned.of_frame (hg : g.LayoutOk) (hbit : ∀ b, g.IsDataBitmap b → ¬ M b)
    (hown : InodeOwned g v nd) : InodeOwned g v' nd := by
  rw [InodeOwned, inodeRefs_of_frame hM hf]
  refine ⟨hown.le_one, hown.isData, fun c hc => ?_⟩
  rw [hf.dataBit_eq hg hbit (hown.isData c hc)]
  exact hown.used c hc

end Frame

section Slots

variable (h : ∀ s < nrBlockPtrs, nd'.iBlock s = nd.iBlock s)
include h

/-- The block map is determined by the slots of the inode. -/
theorem inodeWalk_slots (m : ByteMem) (n : Nat) : inodeWalk g m nd' n = inodeWalk g m nd n := by
  unfold inodeWalk
  cases hpos : blkPos g.slots.fan n with
  | none => rfl
  | some p => simp only [h p.1 (blkPos_spec hpos).1]

theorem inodeRefs_slots (m : ByteMem) : inodeRefs g m nd' = inodeRefs g m nd := by
  funext x
  refine sum_congr rfl fun s hs => ?_
  rw [h s (mem_range.1 hs)]

theorem inodeClean_slots (hc : InodeClean g m nd) : InodeClean g m nd' := by
  intro s hs
  rw [h s hs]
  exact hc s hs

end Slots

/-- An inode without blocks. -/
theorem inode_fresh (hg : g.LayoutOk) (hfresh : ∀ s < nrBlockPtrs, nd.iBlock s = 0) :
    InodeOwned g v nd ∧ InodeClean g v.bd.data nd ∧ ∀ n, inodeWalk g v.bd.data nd n = none := by
  have hrefs : ∀ x, inodeRefs g v.bd.data nd x = 0 := by
    intro x
    refine sum_eq_zero fun s hs => ?_
    rw [hfresh s (mem_range.1 hs), treeRefs_zero hg]
  have hpos : ∀ {x}, ¬ 0 < inodeRefs g v.bd.data nd x := by
    intro x hx
    rw [hrefs] at hx
    exact Nat.lt_irrefl 0 hx
  refine ⟨⟨fun c => ?_, fun c hc => absurd hc hpos, fun c hc => absurd hc hpos⟩, fun s hs => ?_,
    fun n => ?_⟩
  · rw [hrefs]
    exact Nat.zero_le 1
  · rw [hfresh s hs]
    exact clean_nil g.slots _ _
  · cases hw : inodeWalk g v.bd.data nd n with
    | none => rfl
    | some c => exact absurd (inodeRefs_pos_of_walk hw) hpos

/-- Writing a file block leaves the block map alone. -/
theorem InodeOwned.write_leaf (hg : g.LayoutOk) (hown : InodeOwned g v nd)
    (hw : inodeWalk g v.bd.data nd n = some x) (hf : Frame g (· = x) v v') :
    InodeOwned g v' nd ∧ (InodeClean g v.bd.data nd → InodeClean g v'.bd.data nd) ∧
      ∀ j, inodeWalk g v'.bd.data nd j = inodeWalk g v.bd.data nd j := by
  have hM : ∀ y, InodeInner g v.bd.data nd y → ¬ y = x := by
    rintro y hy rfl
    exact hown.not_inner hw hy
  refine ⟨InodeOwned.of_frame hM hf hg ?_ hown, inodeClean_of_frame hM hf, inodeWalk_of_frame hM hf⟩
  rintro c hc rfl
  exact hg.isData_not_bitmap (isData_of_inodeWalk hw) hc

/-- File blocks are not written while the block map grows. -/
theorem InodeOwned.not_growWrites (hg : g.LayoutOk) (hown : InodeOwned g v nd)
    (hw : inodeWalk g v.bd.data nd n = some x) : ¬ InodeGrowWrites g v nd x := by
  have hd : g.IsData x := isData_of_inodeWalk hw
  rintro (hc | hc | hc | ⟨-, hc⟩)
  · exact hg.isData_not_bitmap hd hc
  · exact isSuper_not_data hg hd hc
  · exact hown.not_inner hw hc
  · rw [hown.used x (inodeRefs_pos_of_walk hw)] at hc
    cases hc

theorem InodeGrow.owned (h : InodeGrow g v v' nd nd') (hown : InodeOwned g v nd) :
    InodeOwned g v' nd' :=
  h.change.owned hown fun _ => isData_of_inodeRefs

end InodeLemmas

end BrkKernel.Brkfs
