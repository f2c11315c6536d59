import BrkKernel.Brkfs.Tree

/-!
# Mapping file blocks to device blocks

`brkfs_inode_getblk` and the indirect-block lookup below it (`fs/brkfs/inode.c`). With `create` a
lookup may allocate one block for every level of the tree. `Grow` collects what such an allocation
does to the tree it works in; `brkfsIndirectLookup_create` and `brkfsInodeGetblk_create` give the
result of a lookup together with the mapping before and after, and
`brkfsInodeGetblk_read` reads a mapping back.
-/

set_option autoImplicit false

namespace BrkKernel.Brkfs

open Lib Lib.ByteMem SlotStore Finset

/-- `brkfs_alloc_zeroed_block`. -/
def brkfsAllocZeroedBlock (v : Vol) : Except Errno Nat × Vol :=
  match brkfsDataAlloc v with
  | (.error e, v1) => (.error e, v1)
  | (.ok bno, v1) =>
    match kmalloc v1 with
    | (false, v2) => (.error .enomem, (brkfsDataFree v2 bno).2)
    | (true, v2) =>
      match brkfsBlockWrite v2 bno fun _ => 0 with
      | (.error e, v3) => (.error e, (brkfsDataFree v3 bno).2)
      | (.ok (), v3) => (.ok bno, v3)

/-- `brkfs_read_ptr`. -/
def brkfsReadPtr (v : Vol) (bno index : Nat) : Except Errno Nat × Vol :=
  match kmalloc v with
  | (false, v1) => (.error .enomem, v1)
  | (true, v1) =>
    match brkfsBlockRead v1 bno with
    | (.error e, v2) => (.error e, v2)
    | (.ok buf, v2) => (.ok (load 4 buf (4 * index)), v2)

/-- `brkfs_set_ptr_if_zero`. -/
def brkfsSetPtrIfZero (v : Vol) (bno index newBno : Nat) : Except Errno Nat × Vol :=
  match kmalloc v with
  | (false, v1) => (.error .enomem, v1)
  | (true, v1) =>
    match brkfsBlockRead v1 bno with
    | (.error e, v2) => (.error e, v2)
    | (.ok buf, v2) =>
      if load 4 buf (4 * index) = 0 then
        match brkfsBlockWrite v2 bno (store 4 buf (4 * index) newBno) with
        | (.error e, v3) => (.error e, v3)
        | (.ok (), v3) => (.ok newBno, v3)
      else (.ok (load 4 buf (4 * index)), (brkfsDataFree v2 newBno).2)

/-- `brkfs_get_leaf`. -/
def brkfsGetLeaf (v : Vol) (parent index : Nat) (create : Bool) : Except Errno Nat × Vol :=
  match brkfsReadPtr v parent index with
  | (.error e, v1) => (.error e, v1)
  | (.ok bno, v1) =>
    if bno ≠ 0 then
      if !brkfsValidDataBno v1 bno then (.error .eio, v1) else (.ok bno, v1)
    else if !create then (.ok 0, v1)
    else
      match brkfsDataAlloc v1 with
      | (.error e, v2) => (.error e, v2)
      | (.ok newBno, v2) =>
        match brkfsSetPtrIfZero v2 parent index newBno with
        | (.error e, v3) => (.error e, v3)
        | (.ok bno, v3) =>
          if !brkfsValidDataBno v3 bno then (.error .eio, v3) else (.ok bno, v3)

/-- The root block of an indirect lookup, allocated when the slot is empty. -/
def brkfsIndirectRoot (v : Vol) (root : Nat) : Except Errno Nat × Vol :=
  if root = 0 then brkfsAllocZeroedBlock v else (.ok root, v)

/-- The child block of an indirect lookup, allocated and linked when the slot is empty. -/
def brkfsIndirectChild (v : Vol) (root top child : Nat) : Except Errno Nat × Vol :=
  if child = 0 then
    match brkfsAllocZeroedBlock v with
    | (.error e, v1) => (.error e, v1)
    | (.ok newBno, v1) => brkfsSetPtrIfZero v1 root top newBno
  else (.ok child, v)

/-- `brkfs_indirect_lookup` at level `l + 1`. Returns the block, the value of `*root` and the
volume. -/
def brkfsIndirectLookup : Nat → Vol → Nat → Nat → Bool → Except Errno Nat × Nat × Vol
  | l, v, root, idx, create =>
    let ptrs := v.sb.sBlocksize / 4
    if root = 0 ∧ create = false then (.ok 0, root, v)
    else
      match brkfsIndirectRoot v root with
      | (.error e, v1) => (.error e, root, v1)
      | (.ok r, v1) =>
        if !brkfsValidDataBno v1 r then (.error .eio, r, v1)
        else
          match l with
          | 0 =>
            match brkfsGetLeaf v1 r (u32 idx) create with
            | (res, v2) => (res, r, v2)
          | l' + 1 =>
            let shift := ptrs ^ (l' + 1)
            let top := u32 (idx / shift)
            if ptrs ≤ top then (.error .enospc, r, v1)
            else
              match brkfsReadPtr v1 r top with
              | (.error e, v2) => (.error e, r, v2)
              | (.ok child, v2) =>
                if child = 0 ∧ create = false then (.ok 0, r, v2)
                else
                  match brkfsIndirectChild v2 r top child with
                  | (.error e, v3) => (.error e, r, v3)
                  | (.ok c, v3) =>
                    if !brkfsValidDataBno v3 c then (.error .eio, r, v3)
                    else
                      match brkfsIndirectLookup l' v3 c (idx % shift) create with
                      | (res, _, v4) => (res, r, v4)

/-- The inode with block pointer `i` set. -/
def FsInode.setBlock (nd : FsInode) (i b : Nat) : FsInode :=
  { nd with iBlock := Function.update nd.iBlock i b }

/-- The features `brkfs_inode_getblk` records before it uses a slot of level `l + 1`. -/
def getblkFeatures (mode l : Nat) : Nat :=
  (if sIsDir mode then featureDirIndirect else 0) |||
    (if 1 ≤ l then featureDoubleIndirect else 0) ||| if l = 2 then featureTripleIndirect else 0

/-- The superblock update of `brkfs_inode_getblk` before a creating lookup at level `l + 1`. -/
def brkfsGetblkSetFeatures (v : Vol) (mode l : Nat) (create : Bool) : Except Errno Unit × Vol :=
  if create = true ∧ getblkFeatures mode l ≠ 0 then
    brkfsSuperSetFeatures v (getblkFeatures mode l)
  else (.ok (), v)

/-- The lookup of `brkfs_inode_getblk` in the tree of level `l + 1`. -/
def brkfsGetblkIndirect (v : Vol) (nd : FsInode) (l idx : Nat) (create : Bool) :
    Except Errno Nat × FsInode × Vol :=
  match brkfsGetblkSetFeatures v nd.mode l create with
  | (.error e, v1) => (.error e, nd, v1)
  | (.ok (), v1) =>
    match brkfsIndirectLookup l v1 (nd.iBlock (indirectBlock + l)) idx create with
    | (res, root, v2) => (res, nd.setBlock (indirectBlock + l) root, v2)

/-- `brkfs_inode_getblk`. -/
def brkfsInodeGetblk (v : Vol) (nd : FsInode) (off : Nat) (create : Bool) :
    Except Errno Nat × FsInode × Vol :=
  let bs := v.sb.sBlocksize
  let ptrs := bs / 4
  let blkIdx := off / bs
  if blkIdx < directBlocks then
    if nd.iBlock blkIdx = 0 then
      if !create then (.ok 0, nd, v)
      else
        match brkfsDataAlloc v with
        | (.error e, v1) => (.error e, nd, v1)
        | (.ok newBno, v1) => (.ok newBno, nd.setBlock blkIdx newBno, v1)
    else if !brkfsValidDataBno v (nd.iBlock blkIdx) then (.error .eio, nd, v)
    else (.ok (nd.iBlock blkIdx), nd, v)
  else
    let adj := blkIdx - directBlocks
    let span1 := ptrs
    let span2 := ptrs * ptrs
    let span3 := span2 * ptrs
    if span1 + span2 + span3 ≤ adj then (.error .enospc, nd, v)
    else if adj < span1 then brkfsGetblkIndirect v nd 0 adj create
    else if adj < span1 + span2 then brkfsGetblkIndirect v nd 1 (adj - span1) create
    else brkfsGetblkIndirect v nd 2 (adj - span1 - span2) create

/-! ## Setting a pointer -/

/-- The volume after pointer `i` of block `b` was set to `p`. -/
def setPtr (g : Geometry) (v : Vol) (b i p : Nat) : Vol :=
  v.poke (b * g.blocksize) g.blocksize
    (store 4 (window v.bd.data (b * g.blocksize)) (4 * i) p)

section Pointers

variable {g : Geometry} {v v' : Vol} {b c i j p : Nat}

theorem frame_setPtr (hg : g.LayoutOk) : Frame g (· = b) v (setPtr g v b i p) := frame_poke hg _

theorem ptrAt_poke {buf : ByteMem} (hi : i < g.slots.fan) :
    ptrAt g (v.poke (b * g.blocksize) g.blocksize buf).bd.data b i = load 4 buf (4 * i) := by
  have hend := slot_end_le hi
  unfold ptrAt Vol.poke
  rw [load_blit_of_inside (by omega) (by omega)]
  congr 1
  omega

theorem ptrAt_setPtr_self (hi : i < g.slots.fan) (hp : p < 4294967296) :
    ptrAt g (setPtr g v b i p).bd.data b i = p := by
  rw [setPtr, ptrAt_poke hi, load_store_of_lt hp]

theorem ptrAt_setPtr_of_ne (hj : j < g.slots.fan) (hij : j ≠ i) :
    ptrAt g (setPtr g v b i p).bd.data b j = ptrAt g v.bd.data b j := by
  rw [setPtr, ptrAt_poke hj, load_store_of_disjoint (by omega), load_window]
  rfl

theorem brkfsReadPtr_eq (h : v.Ok g) (hb : g.IsData b) (i : Nat) :
    brkfsReadPtr v b i = (.ok (ptrAt g v.bd.data b i), v) := by
  rw [brkfsReadPtr, kmalloc_eq h]
  simp only
  rw [brkfsBlockRead_eq h (h.layout.isData_lt hb)]
  rfl

theorem brkfsSetPtrIfZero_eq (h : v.Ok g) (hb : g.IsData b) (hz : ptrAt g v.bd.data b i = 0) :
    brkfsSetPtrIfZero v b i p = (.ok p, setPtr g v b i p) := by
  have hz' : load 4 (window v.bd.data (b * g.blocksize)) (4 * i) = 0 := by
    exact hz
  rw [brkfsSetPtrIfZero, kmalloc_eq h]
  simp only
  rw [brkfsBlockRead_eq h (h.layout.isData_lt hb)]
  simp only [hz', if_true]
  rw [brkfsBlockWrite_eq h (h.layout.isData_lt hb)]
  rfl

theorem Vol.Ok.isData_lt_word (h : v.Ok g) (hb : g.IsData b) : b < 4294967296 := by
  have h1 := h.layout.isData_lt hb
  have h2 := h.reach.stop_le
  omega

end Pointers

/-! ## Growing a tree -/

/-- Every data block is in use. -/
def Full (g : Geometry) (v : Vol) : Prop := ∀ c, g.IsData c → dataBit g v.bd.data c = true

/-- Blocks written while the tree of depth `l` below `b` grows. -/
def GrowWrites (g : Geometry) (v : Vol) (M : Nat → Prop) (l b c : Nat) : Prop :=
  g.IsDataBitmap c ∨ g.IsSuper c ∨ TreeInner g v.bd.data l b c ∨
    (g.IsData c ∧ dataBit g v.bd.data c = false) ∨ M c

/-- Blocks are added to the tree of depth `l` below `b`, whose root slot becomes `b'`. -/
structure Grow (g : Geometry) (M : Nat → Prop) (l : Nat) (v v' : Vol) (b b' : Nat) : Prop where
  change : Change g M v v' (treeRefs g v.bd.data l b) (treeRefs g v'.bd.data l b')
  writes : Frame g (GrowWrites g v M l b) v v'
  grows : ∀ c, g.IsData c → dataBit g v.bd.data c = true → dataBit g v'.bd.data c = true
  inner : ∀ x, TreeInner g v'.bd.data l b' x →
    TreeInner g v.bd.data l b x ∨ dataBit g v.bd.data x = false
  clean : TreeClean g v.bd.data l b → TreeClean g v'.bd.data l b'

/-- The trees owned by a collection that holds only the tree below `b`. -/
abbrev TreeOwned (g : Geometry) (v : Vol) (l b : Nat) : Prop :=
  Owned g v (treeRefs g v.bd.data l b)

section GrowLemmas

variable {g : Geometry} {M N : Nat → Prop} {l : Nat} {v v' v'' : Vol} {b b' b'' c i j p top : Nat}

theorem Grow.refl (M : Nat → Prop) (h : TreeOwned g v l b) : Grow g M l v v b b where
  change := Change.refl M h
  writes := Frame.refl g _ v
  grows _ _ := id
  inner _ := .inl
  clean := id

section

variable (h : Grow g M l v v' b b')

include h

theorem Grow.mono (hMN : ∀ c, M c → N c) : Grow g N l v v' b b' :=
  { h with
    change := h.change.mono hMN
    writes := h.writes.mono fun c =>
      .imp_right (.imp_right (.imp_right (.imp_right (hMN c)))) }

theorem Grow.clear_mono (hc : g.IsData c)
    (hb : dataBit g v'.bd.data c = false) : dataBit g v.bd.data c = false := by
  by_contra hne
  rw [Bool.not_eq_false] at hne
  rw [h.grows c hc hne] at hb
  cases hb

theorem Grow.owned (hown : TreeOwned g v l b) :
    TreeOwned g v' l b' := h.change.owned hown fun _ => isData_of_treeRefs

theorem Grow.trans (h' : Grow g M l v' v'' b' b'') : Grow g M l v v'' b b'' where
  change := h.change.trans h'.change
  writes := by
    refine h.writes.trans (h'.writes.mono fun c hc => ?_)
    rcases hc with hc | hc | hc | ⟨hd, hc⟩ | hc
    · exact .inl hc
    · exact .inr (.inl hc)
    · rcases h.inner c hc with hc' | hc'
      · exact .inr (.inr (.inl hc'))
      · exact .inr (.inr (.inr (.inl ⟨isData_of_inner hc, hc'⟩)))
    · exact .inr (.inr (.inr (.inl ⟨hd, h.clear_mono hd hc⟩)))
    · exact .inr (.inr (.inr (.inr hc)))
  grows c hd hc := h'.grows c hd (h.grows c hd hc)
  inner x hx := by
    rcases h'.inner x hx with hx' | hx'
    · exact h.inner x hx'
    · exact .inr (h.clear_mono (isData_of_inner hx) hx')
  clean := h'.clean ∘ h.clean

end

section

variable (hg : g.LayoutOk)

include hg

theorem untouched_super : Untouched g g.IsSuper v l b :=
  fun _ hy => isSuper_not_data hg (isData_of_inner hy)

/-- A frame that spares bitmap and data blocks leaves every tree as it is. -/
theorem Grow.of_super (h : Frame g g.IsSuper v v')
    (hfree : v'.sb.sFreeBlocks = v.sb.sFreeBlocks) (hown : TreeOwned g v l b) :
    Grow g M l v v' b b := by
  have hun := untouched_super hg (v := v) (l := l) (b := b)
  have hrefs : treeRefs g v'.bd.data l b = treeRefs g v.bd.data l b :=
    funext fun x => hun.refs_eq h
  refine ⟨?_, h.mono fun c hc => .inr (.inl hc), fun c hc hb => ?_,
    fun x hx => .inl ((hun.inner_iff h).1 hx), (hun.clean_iff h).2⟩
  · rw [hrefs]
    exact (Change.refl M hown).write hg h (fun _ hb => isSuper_not_dataBitmap hg hb) hfree
      fun c hc => .inr (.inl hc)
  · rw [h.dataBit_eq hg (fun _ hb => isSuper_not_dataBitmap hg hb) hc]
    exact hb

theorem treeWalk_of_super (h : Frame g g.IsSuper v v')
    (hj : j < g.slots.fan ^ l) : treeWalk g v'.bd.data l b j = treeWalk g v.bd.data l b j :=
  (untouched_super hg).walk_eq h hj

/-- A freshly allocated block as the only node of a tree. -/
theorem Grow.of_alloc (h : AllocStep g v v' b) (h' : Frame g (· = b) v' v'')
    (hfree : v''.sb.sFreeBlocks = v'.sb.sFreeBlocks)
    (hrefs : ∀ x, treeRefs g v''.bd.data l b x = if b = x then 1 else 0)
    (hinner : ∀ x, TreeInner g v''.bd.data l b x → x = b)
    (hclean : TreeClean g v''.bd.data l b) : Grow g M l v v'' 0 b := by
  have hnb := hg.bitmap_ne h.isData
  have hbit : ∀ c, g.IsData c → dataBit g v''.bd.data c =
      if c = b then true else dataBit g v.bd.data c := fun c hc => by
    rw [h'.dataBit_eq hg hnb hc, h.dataBit c hc]
  have hframe : Frame g (fun c => g.IsDataBitmap c ∨ c = b) v v'' :=
    (h.frame.mono fun c hc => .inl hc).trans (h'.mono fun c hc => .inr hc)
  refine ⟨⟨?_, fun c hc => ?_, fun c => ?_, fun hf => ?_⟩, ?_, fun c hc hb => ?_, fun x hx => ?_,
    fun _ => hclean⟩
  · refine hframe.mono fun c hc => ?_
    rcases hc with hc | rfl
    · exact .inl hc
    · exact .inr (.inr (.inl ⟨h.isData, .inr h.clear⟩))
  · rw [hbit c hc, hrefs c, treeRefs_zero hg]
    by_cases hcb : c = b
    · right
      subst hcb
      rw [if_pos rfl, if_pos rfl]
      exact ⟨h.clear, rfl⟩
    · left
      rw [if_neg hcb, if_neg (Ne.symm hcb)]
      exact ⟨rfl, rfl⟩
  · rw [hrefs c]
    split <;> omega
  · exact h'.freeExact hg hnb hfree (h.freeExact hf)
  · refine hframe.mono fun c hc => ?_
    rcases hc with hc | rfl
    · exact .inl hc
    · exact .inr (.inr (.inr (.inl ⟨h.isData, h.clear⟩)))
  · rw [hbit c hc, hb, ite_self]
  · rw [hinner x hx]
    exact .inr h.clear

/-- Growth followed by a write to a block outside the tree. -/
theorem Grow.write (h : Grow g M l v v' b b') (h' : Frame g (· = p) v' v'')
    (hfree : v''.sb.sFreeBlocks = v'.sb.sFreeBlocks) (hp : g.IsData p)
    (hun : ¬ TreeInner g v'.bd.data l b' p) : Grow g (fun c => M c ∨ c = p) l v v'' b b' := by
  have hunt : Untouched g (· = p) v' l b' := by
    rintro y hy rfl
    exact hun hy
  have hrefs : treeRefs g v''.bd.data l b' = treeRefs g v'.bd.data l b' :=
    funext fun x => hunt.refs_eq h'
  have hm := h.mono (N := fun c => M c ∨ c = p) fun c hc => .inl hc
  refine ⟨?_, hm.writes.trans (h'.mono fun c hc => ?_), fun c hc hb => ?_, fun x hx => ?_,
    fun hc => (hunt.clean_iff h').2 (h.clean hc)⟩
  · rw [hrefs]
    exact hm.change.write hg h' (hg.bitmap_ne hp) hfree fun c hc => .inr (.inr (.inr (.inr hc)))
  · exact .inr (.inr (.inr (.inr (.inr hc))))
  · rw [h'.dataBit_eq hg (hg.bitmap_ne hp) hc]
    exact h.grows c hc hb
  · exact h.inner x ((hunt.inner_iff h').1 hx)

/-- A block in use outside the tree is not written while the tree grows. -/
theorem Grow.ptrAt_eq (h : Grow g (fun _ => False) l v v' b b')
    (hc : g.IsData c) (hused : dataBit g v.bd.data c = true)
    (hnot : ¬ TreeInner g v.bd.data l b c) (hi : i < g.slots.fan) :
    ptrAt g v'.bd.data c i = ptrAt g v.bd.data c i := by
  refine h.writes.ptrAt_eq ?_ hi
  rintro (hw | hw | hw | ⟨-, hw⟩ | hw)
  · exact hg.isData_not_bitmap hc hw
  · exact isSuper_not_data hg hc hw
  · exact hnot hw
  · rw [hused] at hw
    cases hw
  · exact hw

end

/-! ### From a subtree to the tree -/

section

variable (hg : g.LayoutOk) (hb : g.IsData b) (hown : TreeOwned g v (l + 1) b)
  (htop : top < g.slots.fan)

include hg hb hown htop

/-- The trees below the slots of `b` other than `top` are not written when the tree below `top`
grows. -/
theorem Grow.sibling_untouched (hi : i < g.slots.fan) (hit : i ≠ top) :
    Untouched g (MayWrite g v (treeRefs g v.bd.data l (ptrAt g v.bd.data b top)) (· = b)) v l
      (ptrAt g v.bd.data b i) := by
  have hok := slots_ok_iff.2 hb
  have hown' : Owned g v fun x => (if b = x then 1 else 0) +
      ∑ i ∈ range g.slots.fan, treeRefs g v.bd.data l (ptrAt g v.bd.data b i) x :=
    hown.mono fun c => (refs_succ hok).ge
  refine untouched_of_owned (range g.slots.fan) (fun _ => l)
    (ptrAt g v.bd.data b) (k := top) hg hown' (fun c hc => ?_) (mem_range.2 htop)
    (mem_range.2 hi) hit
  left
  rw [if_pos hc.symm]
  exact Nat.one_pos

section

variable (h : Grow g (· = b) l v v' (ptrAt g v.bd.data b top) (ptrAt g v'.bd.data b top))

include h

section

variable (hrest : ∀ i < g.slots.fan, i ≠ top → ptrAt g v'.bd.data b i = ptrAt g v.bd.data b i)

include hrest

/-- Growth below slot `top` of `b` is growth of the tree below `b`. -/
theorem Grow.node : Grow g (fun _ => False) (l + 1) v v' b b := by
  have hok := slots_ok_iff.2 hb
  have hun := fun i hi hit => Grow.sibling_untouched (i := i) hg hb hown htop hi hit
  have hchange : Change g (fun _ => False) v v' (treeRefs g v.bd.data (l + 1) b)
      (treeRefs g v'.bd.data (l + 1) b) := by
    have hR : ∀ m : ByteMem, treeRefs g m (l + 1) b = fun x => (if b = x then 1 else 0) +
        ∑ i ∈ range g.slots.fan, treeRefs g m l (ptrAt g m b i) x := fun m => by
      funext x
      exact refs_succ hok
    rw [hR, hR]
    rw [TreeOwned, hR] at hown
    refine Change.forest (range g.slots.fan) (fun _ => l)
      (ptrAt g v.bd.data b) (ptrAt g v'.bd.data b) (k := top) hg h.change hown
      (fun c hc => .inl ?_) (fun c hc => .inr ?_) (mem_range.2 htop)
      fun i hi hit => hrest i (mem_range.1 hi) hit
    · rw [if_pos hc.symm]
      exact Nat.one_pos
    · rw [if_pos hc.symm]
      exact Nat.one_pos
  refine ⟨hchange, h.writes.mono fun c hc => ?_, h.grows, fun x hx => ?_, fun hc => ?_⟩
  · rcases hc with hc | hc | hc | hc | hc
    · exact .inl hc
    · exact .inr (.inl hc)
    · exact .inr (.inr (.inl ⟨hok, .inr ⟨top, htop, hc⟩⟩))
    · exact .inr (.inr (.inr (.inl hc)))
    · exact .inr (.inr (.inl ⟨hok, .inl hc.symm⟩))
  · obtain ⟨-, hx | ⟨i, hi, hx⟩⟩ := hx
    · exact .inl ⟨hok, .inl hx⟩
    by_cases hit : i = top
    · rw [hit] at hx
      exact (h.inner x hx).imp (fun hin => ⟨hok, .inr ⟨top, htop, hin⟩⟩) id
    · rw [hrest i hi hit] at hx
      exact .inl ⟨hok, .inr ⟨i, hi, ((hun i hi hit).inner_iff h.change.frame).1 hx⟩⟩
  · refine .inr ⟨hok, fun i hi => ?_⟩
    have hci := hc.slot (hg.isData_ne_zero hb) hi
    by_cases hit : i = top
    · subst hit
      exact h.clean hci
    · rw [hrest i hi hit]
      exact ((hun i hi hit).clean_iff h.change.frame).2 hci

/-- Where the tree below `b` leads after growth below slot `top`. -/
theorem Grow.walk_node (hj : j < g.slots.fan ^ (l + 1)) :
    treeWalk g v'.bd.data (l + 1) b j =
      if j / g.slots.fan ^ l = top then
        treeWalk g v'.bd.data l (ptrAt g v'.bd.data b top) (j % g.slots.fan ^ l)
      else treeWalk g v.bd.data (l + 1) b j := by
  have hok := slots_ok_iff.2 hb
  rw [treeWalk, walk_succ hok]
  split
  · next hjt => rw [hjt]
  next hjt =>
  have hlt := digit_lt hj
  rw [treeWalk, walk_succ hok, hrest _ hlt hjt]
  exact (Grow.sibling_untouched hg hb hown htop hlt hjt).walk_eq h.change.frame (rest_lt hj)

end

end

/-- The slots of `b` when only the tree below `top` was written. -/
theorem Grow.slots_eq (h : Grow g (fun _ => False) l v v' (ptrAt g v.bd.data b top) b')
    (hi : i < g.slots.fan) : ptrAt g v'.bd.data b i = ptrAt g v.bd.data b i := by
  have hok := slots_ok_iff.2 hb
  exact h.ptrAt_eq hg hb (hown.used b (root_refs_pos hok))
    (root_not_inner_child hok (hown.le_one b) htop) hi

end

end GrowLemmas

/-! ## Lookups -/

/-- What a creating lookup at position `idx` returns, with the positions of the tree before and
after. A block that was not mapped before was free before. -/
def LookupOutcome (g : Geometry) (l : Nat) (v v' : Vol) (b b' idx : Nat) :
    Except Errno Nat → Prop
  | .ok c => g.IsData c ∧
      (treeWalk g v.bd.data l b idx = some c ∨
        (treeWalk g v.bd.data l b idx = none ∧ dataBit g v.bd.data c = false)) ∧
      ∀ j < g.slots.fan ^ l, treeWalk g v'.bd.data l b' j =
        if j = idx then some c else treeWalk g v.bd.data l b j
  | .error e => ((e = .enospc ∧ Full g v') ∨ (e = .eio ∧ ¬ TreeClean g v.bd.data l b)) ∧
      ∀ j < g.slots.fan ^ l, treeWalk g v'.bd.data l b' j = treeWalk g v.bd.data l b j

section Lookup

variable {g : Geometry} {l : Nat} {v v' v'' : Vol} {b b' b'' c i idx top : Nat}
  {res : Except Errno Nat}

/-- Growth that moves no position, before a lookup. -/
theorem LookupOutcome.after {M : Nat → Prop} (h : Grow g M l v v' b b')
    (hw : ∀ j < g.slots.fan ^ l, treeWalk g v'.bd.data l b' j = treeWalk g v.bd.data l b j)
    (hidx : idx < g.slots.fan ^ l) (h' : LookupOutcome g l v' v'' b' b'' idx res) :
    LookupOutcome g l v v'' b b'' idx res := by
  cases res with
  | ok c =>
    obtain ⟨hd, hc, hall⟩ := h'
    rw [hw idx hidx] at hc
    refine ⟨hd, hc.imp id fun hc => ⟨hc.1, h.clear_mono hd hc.2⟩, fun j hj => ?_⟩
    rw [hall j hj, hw j hj]
  | error e =>
    obtain ⟨he, hall⟩ := h'
    refine ⟨he.imp id fun he => ⟨he.1, fun hc => he.2 (h.clean hc)⟩, fun j hj => ?_⟩
    rw [hall j hj, hw j hj]

section

variable (hg : g.LayoutOk) (hb : g.IsData b) (hown : TreeOwned g v (l + 1) b)
  (htop : top < g.slots.fan) (hidx : idx < g.slots.fan ^ (l + 1))
  (hit : idx / g.slots.fan ^ l = top)

include hg hb hown htop hidx hit

/-- A lookup below slot `top` of `b` is a lookup below `b`. -/
theorem LookupOutcome.node
    (h : Grow g (· = b) l v v' (ptrAt g v.bd.data b top) (ptrAt g v'.bd.data b top))
    (hrest : ∀ i < g.slots.fan, i ≠ top → ptrAt g v'.bd.data b i = ptrAt g v.bd.data b i)
    (ho : LookupOutcome g l v v' (ptrAt g v.bd.data b top) (ptrAt g v'.bd.data b top)
      (idx % g.slots.fan ^ l) res) : LookupOutcome g (l + 1) v v' b b idx res := by
  have hok := slots_ok_iff.2 hb
  have hwalk := fun j hj => Grow.walk_node (j := j) hg hb hown htop h hrest hj
  -- positions below `top` are those whose first digit is the one of `idx`
  have hbelow : ∀ j, j / g.slots.fan ^ l = top →
      treeWalk g v.bd.data (l + 1) b j =
        treeWalk g v.bd.data l (ptrAt g v.bd.data b top) (j % g.slots.fan ^ l) := fun j hj => by
    rw [treeWalk, walk_succ hok, hj]
  have hsame : ∀ j, j / g.slots.fan ^ l = top →
      (j % g.slots.fan ^ l = idx % g.slots.fan ^ l ↔ j = idx) := fun j hj => by
    constructor
    · intro hm
      rw [← Nat.div_add_mod j (g.slots.fan ^ l), hj, hm, ← hit, Nat.div_add_mod]
    · rintro rfl
      rfl
  cases res with
  | ok c =>
    obtain ⟨hd, hc, hall⟩ := ho
    rw [← hbelow idx hit] at hc
    refine ⟨hd, hc, fun j hj => ?_⟩
    rw [hwalk j hj]
    split
    · next hjt =>
      rw [hall _ (rest_lt hj), hbelow j hjt]
      simp only [hsame j hjt]
    · next hjt =>
      rw [if_neg]
      rintro rfl
      exact hjt hit
  | error e =>
    obtain ⟨he, hall⟩ := ho
    refine ⟨he.imp id fun he => ⟨he.1, fun hc =>
      he.2 (hc.slot (hg.isData_ne_zero hb) htop)⟩, fun j hj => ?_⟩
    rw [hwalk j hj]
    split
    · next hjt => rw [hall _ (rest_lt hj), hbelow j hjt]
    · rfl

/-- A lookup below a slot that the lookup does not change. -/
theorem lookup_node
    (h : Grow g (fun _ => False) l v v' (ptrAt g v.bd.data b top) (ptrAt g v.bd.data b top))
    (ho : LookupOutcome g l v v' (ptrAt g v.bd.data b top) (ptrAt g v.bd.data b top)
      (idx % g.slots.fan ^ l) res) :
    Grow g (fun _ => False) (l + 1) v v' b b ∧ LookupOutcome g (l + 1) v v' b b idx res := by
  have hslots := fun i hi => Grow.slots_eq (i := i) hg hb hown htop h hi
  have h' : Grow g (· = b) l v v' (ptrAt g v.bd.data b top) (ptrAt g v'.bd.data b top) := by
    rw [hslots top htop]
    exact h.mono fun _ hc => hc.elim
  have ho' : LookupOutcome g l v v' (ptrAt g v.bd.data b top) (ptrAt g v'.bd.data b top)
      (idx % g.slots.fan ^ l) res := by
    rw [hslots top htop]
    exact ho
  exact ⟨Grow.node hg hb hown htop h' fun i hi _ => hslots i hi,
    LookupOutcome.node hg hb hown htop hidx hit h' (fun i hi _ => hslots i hi) ho'⟩

end

/-- An allocated block has its slots cleared. -/
theorem brkfsAllocZeroedBlock_spec (h : v.Ok g) :
    (∃ b v', brkfsAllocZeroedBlock v = (.ok b, v') ∧ g.IsData b ∧
      (∀ i < g.slots.fan, ptrAt g v'.bd.data b i = 0) ∧ ∀ M l, Grow g M l v v' 0 b) ∨
    (Full g v ∧ brkfsAllocZeroedBlock v = (.error .enospc, v)) := by
  have hnil := slots_nil_not_ok h.layout
  unfold brkfsAllocZeroedBlock
  rcases brkfsDataAlloc_spec h with ⟨b, v1, hstep, hrun⟩ | ⟨hfull, hrun⟩
  · left
    have h1 : v1.Ok g := hstep.frame.ok h
    rw [hrun]
    simp only
    rw [kmalloc_eq h1]
    simp only
    rw [brkfsBlockWrite_eq h1 (h.layout.isData_lt hstep.isData)]
    have hok := slots_ok_iff.2 hstep.isData
    have hslots : ∀ i < g.slots.fan, ptrAt g (v1.poke (b * g.blocksize) g.blocksize
        fun _ => 0).bd.data b i = 0 := fun i hi => by
      have hend := slot_end_le hi
      exact load_fill_zero (by omega) (by omega)
    refine ⟨b, _, rfl, hstep.isData, hslots, fun M l => ?_⟩
    exact Grow.of_alloc h.layout hstep (frame_poke h.layout _) rfl
      (fun x => refs_of_slots_nil hnil hok hslots)
      (fun x hx => inner_of_slots_nil hnil hslots hx)
      (clean_of_slots_nil hok hslots)
  · right
    rw [hrun]
    exact ⟨hfull, rfl⟩

/-- An empty slot of a used block is filled with the root `c` of a grown tree. -/
theorem Grow.link (h : v'.Ok g) (hb : g.IsData b) (hown : TreeOwned g v (l + 1) b)
    (htop : top < g.slots.fan) (hz : ptrAt g v.bd.data b top = 0) (hc : g.IsData c)
    (hgrow : Grow g (fun _ => False) l v v' 0 c) :
    ∃ v'', brkfsSetPtrIfZero v' b top c = (.ok c, v'') ∧ Frame g (· = b) v' v'' ∧
      ptrAt g v''.bd.data b top = c ∧ Untouched g (· = b) v' l c ∧
      Grow g (· = b) l v v'' (ptrAt g v.bd.data b top) (ptrAt g v''.bd.data b top) ∧
      ∀ i < g.slots.fan, i ≠ top → ptrAt g v''.bd.data b i = ptrAt g v.bd.data b i := by
  have hg := h.layout
  have hused : dataBit g v.bd.data b = true := hown.used b (root_refs_pos (slots_ok_iff.2 hb))
  have hsame : ∀ i < g.slots.fan, ptrAt g v'.bd.data b i = ptrAt g v.bd.data b i :=
    fun i hi => hgrow.ptrAt_eq hg hb hused (not_treeInner_zero hg) hi
  -- a block of the new tree was free, and `b` is in use
  have hne : ¬ TreeInner g v'.bd.data l c b := by
    intro hin
    rcases hgrow.inner b hin with hin' | hfree
    · exact not_treeInner_zero hg hin'
    · rw [hused] at hfree
      cases hfree
  have hptr := ptrAt_setPtr_self (v := v') (b := b) htop (h.isData_lt_word hc)
  refine ⟨_, brkfsSetPtrIfZero_eq h hb ((hsame top htop).trans hz), frame_setPtr hg, hptr, ?_, ?_,
    fun i hi hit => ?_⟩
  · rintro y hy rfl
    exact hne hy
  · rw [hz, hptr]
    exact (hgrow.write hg (frame_setPtr hg) rfl hb hne).mono fun x hx => hx.resolve_left id
  · rw [ptrAt_setPtr_of_ne hi hit]
    exact hsame i hi

theorem brkfsIndirectChild_spec (h : v.Ok g) (hb : g.IsData b) (hown : TreeOwned g v (l + 2) b)
    (htop : top < g.slots.fan) (hz : ptrAt g v.bd.data b top = 0) :
    (∃ c v', brkfsIndirectChild v b top 0 = (.ok c, v') ∧ g.IsData c ∧
      ptrAt g v'.bd.data b top = c ∧ Grow g (fun _ => False) (l + 2) v v' b b ∧
      ∀ j < g.slots.fan ^ (l + 2),
        treeWalk g v'.bd.data (l + 2) b j = treeWalk g v.bd.data (l + 2) b j) ∨
    (Full g v ∧ brkfsIndirectChild v b top 0 = (.error .enospc, v)) := by
  have hg := h.layout
  have hok := slots_ok_iff.2 hb
  rw [brkfsIndirectChild, if_pos rfl]
  rcases brkfsAllocZeroedBlock_spec h with ⟨c, v1, hrun, hc, hslots, hgrow⟩ | ⟨hfull, hrun⟩
  · left
    have hgrow1 := hgrow (fun _ => False) (l + 1)
    obtain ⟨v2, hset, hframe, hptr, hun, hlink, hrest⟩ :=
      hgrow1.link (hgrow1.writes.ok h) hb hown htop hz hc
    rw [hrun]
    simp only
    rw [hset]
    refine ⟨c, v2, rfl, hc, hptr, Grow.node hg hb hown htop hlink hrest, fun j hj => ?_⟩
    rw [Grow.walk_node hg hb hown htop hlink hrest hj]
    split
    · next hjt =>
      rw [hptr, hun.walk_eq hframe (rest_lt hj), treeWalk,
        walk_of_slots_nil (slots_nil_not_ok hg) hslots (rest_lt hj), treeWalk,
        walk_succ hok, hjt, hz]
      exact (treeWalk_zero hg _ _ _).symm
    · rfl
  · right
    rw [hrun]
    exact ⟨hfull, rfl⟩

theorem brkfsGetLeaf_create (h : v.Ok g) (hb : g.IsData b) (hown : TreeOwned g v 1 b)
    (hi : i < g.slots.fan) :
    ∃ res v', brkfsGetLeaf v b i true = (res, v') ∧ Grow g (fun _ => False) 1 v v' b b ∧
      LookupOutcome g 1 v v' b b i res := by
  have hg := h.layout
  have hok := slots_ok_iff.2 hb
  have hwalk : ∀ j, treeWalk g v.bd.data 1 b j =
      if g.slots.ok (ptrAt g v.bd.data b j) then some (ptrAt g v.bd.data b j) else none :=
    fun j => by
      rw [treeWalk, walk_succ hok, pow_zero, Nat.div_one]
      rfl
  rw [brkfsGetLeaf, brkfsReadPtr_eq h hb]
  simp only
  by_cases hz : ptrAt g v.bd.data b i = 0
  · rw [if_neg (not_not.2 hz)]
    rcases brkfsDataAlloc_spec h with ⟨c, v1, hstep, hrun⟩ | ⟨hfull, hrun⟩
    · have h1 : v1.Ok g := hstep.frame.ok h
      have hcok := slots_ok_iff.2 hstep.isData
      have hgrow : Grow g (fun _ => False) 0 v v1 0 c :=
        Grow.of_alloc hg hstep (Frame.refl g _ v1) rfl
          (congrFun (treeRefs_leaf hstep.isData)) (fun x hx => hx.elim) (.inr hcok)
      obtain ⟨v2, hset, hframe, hptr, -, hlink, hrest⟩ :=
        hgrow.link h1 hb hown hi hz hstep.isData
      have hnode := Grow.node hg hb hown hi hlink hrest
      rw [hrun]
      simp only
      rw [hset]
      simp only [(brkfsValidDataBno_iff (hframe.ok h1)).2 hstep.isData, Bool.not_true,
        Bool.false_eq_true, if_false]
      refine ⟨_, _, rfl, hnode, LookupOutcome.node hg hb hown hi
        (by rwa [zero_add, pow_one]) (by rw [pow_zero, Nat.div_one]) hlink hrest
        ⟨hstep.isData, .inr ⟨?_, hstep.clear⟩, fun j hj => ?_⟩⟩
      · rw [hz]
        exact treeWalk_zero hg _ _ _
      have hj0 : j = i % g.slots.fan ^ 0 := by
        rw [pow_zero] at hj ⊢
        omega
      rw [if_pos hj0, hptr]
      simp [treeWalk, walk, hcok]
    · rw [hrun]
      exact ⟨_, _, rfl, .refl _ hown, .inl ⟨rfl, hfull⟩, fun _ _ => rfl⟩
  · rw [if_pos hz]
    by_cases hd : g.IsData (ptrAt g v.bd.data b i)
    · simp only [(brkfsValidDataBno_iff h).2 hd, Bool.not_true, Bool.false_eq_true, if_false]
      have hw : treeWalk g v.bd.data 1 b i = some (ptrAt g v.bd.data b i) := by
        rw [hwalk, if_pos (slots_ok_iff.2 hd)]
      refine ⟨_, _, rfl, .refl _ hown, hd, .inl hw, fun j _ => ?_⟩
      split
      · next hji => rw [hji, hw]
      · rfl
    · have hv := brkfsValidDataBno_eq_false h hd
      simp only [hv, Bool.not_false, if_true]
      refine ⟨_, _, rfl, .refl _ hown, .inr ⟨rfl, fun hc => ?_⟩, fun _ _ => rfl⟩
      have hslot := hc.slot (hg.isData_ne_zero hb) hi
      exact hd (slots_ok_iff.1 (hslot.root.resolve_left hz))

theorem TreeOwned.child (hb : g.IsData b) (hown : TreeOwned g v (l + 1) b)
    (hi : i < g.slots.fan) : TreeOwned g v l (ptrAt g v.bd.data b i) :=
  hown.mono fun x => by
    have hle := child_refs_le (ptrAt g v.bd.data) l x (slots_ok_iff.2 hb) hi
    exact (Nat.le_add_right _ _).trans hle

theorem Vol.Ok.ptrs (h : v.Ok g) : v.sb.sBlocksize / 4 = g.slots.fan := by
  rw [h.bs]
  rfl

theorem Vol.Ok.u32_slot (h : v.Ok g) (hi : i < g.slots.fan) : u32 i = i := by
  have h1 := h.layout.bs_le
  have hi' : i < g.blocksize / 4 := hi
  exact u32_of_lt (by omega)

/-- A creating lookup below an allocated root, by induction on the level. -/
theorem brkfsIndirectLookup_valid (l : Nat) (h : v.Ok g) (hb : g.IsData b)
    (hown : TreeOwned g v (l + 1) b) (hidx : idx < g.slots.fan ^ (l + 1)) :
    ∃ res v', brkfsIndirectLookup l v b idx true = (res, b, v') ∧
      Grow g (fun _ => False) (l + 1) v v' b b ∧ LookupOutcome g (l + 1) v v' b b idx res := by
  induction l generalizing v b idx with
  | zero =>
    have hb0 := h.layout.isData_ne_zero hb
    rw [zero_add, pow_one] at hidx
    have hu := h.u32_slot hidx
    obtain ⟨res, v', hrun, hgrow, hout⟩ := brkfsGetLeaf_create h hb hown hidx
    refine ⟨res, v', ?_, hgrow, hout⟩
    simp [brkfsIndirectLookup, brkfsIndirectRoot, hb0, (brkfsValidDataBno_iff h).2 hb, hu, hrun]
  | succ l ih =>
    have hg := h.layout
    have hb0 := hg.isData_ne_zero hb
    have htop := digit_lt hidx
    have hstart : brkfsIndirectLookup (l + 1) v b idx true =
        match brkfsIndirectChild v b (idx / g.slots.fan ^ (l + 1))
            (ptrAt g v.bd.data b (idx / g.slots.fan ^ (l + 1))) with
        | (.error e, v3) => (.error e, b, v3)
        | (.ok c, v3) =>
          if !brkfsValidDataBno v3 c then (.error .eio, b, v3)
          else
            match brkfsIndirectLookup l v3 c (idx % g.slots.fan ^ (l + 1)) true with
            | (res, _, v4) => (res, b, v4) := by
      rw [brkfsIndirectLookup, brkfsIndirectRoot, if_neg hb0]
      simp only [hb0, if_false, (brkfsValidDataBno_iff h).2 hb, Bool.not_true, Bool.false_eq_true,
        h.ptrs, h.u32_slot htop, not_le.2 htop, brkfsReadPtr_eq h hb, Bool.true_eq_false, and_false]
    rw [hstart]
    generalize htopdef : idx / g.slots.fan ^ (l + 1) = top at htop ⊢
    by_cases hz : ptrAt g v.bd.data b top = 0
    · rw [hz]
      rcases brkfsIndirectChild_spec h hb hown htop hz with
        ⟨c, v3, hrun, hc, hptr, hgrow, hwalk⟩ | ⟨hfull, hrun⟩
      · have h3 := hgrow.writes.ok h
        have hown3 := hgrow.owned hown
        have hownc := TreeOwned.child hb hown3 htop
        rw [hptr] at hownc
        obtain ⟨res, v4, hrun4, hgrow4, hout4⟩ := ih h3 hc hownc (rest_lt hidx)
        rw [hrun]
        simp only [(brkfsValidDataBno_iff h3).2 hc, Bool.not_true, Bool.false_eq_true, if_false,
          hrun4]
        rw [← hptr] at hgrow4 hout4
        obtain ⟨hnode, hnout⟩ := lookup_node hg hb hown3 htop hidx htopdef hgrow4 hout4
        exact ⟨res, v4, rfl, hgrow.trans hnode, LookupOutcome.after hgrow hwalk hidx hnout⟩
      · rw [hrun]
        exact ⟨_, _, rfl, .refl _ hown, .inl ⟨rfl, hfull⟩, fun _ _ => rfl⟩
    · rw [brkfsIndirectChild, if_neg hz]
      by_cases hd : g.IsData (ptrAt g v.bd.data b top)
      · obtain ⟨res, v4, hrun4, hgrow4, hout4⟩ :=
          ih h hd (TreeOwned.child hb hown htop) (rest_lt hidx)
        simp only [(brkfsValidDataBno_iff h).2 hd, Bool.not_true, Bool.false_eq_true, if_false,
          hrun4]
        obtain ⟨hnode, hnout⟩ := lookup_node hg hb hown htop hidx htopdef hgrow4 hout4
        exact ⟨res, v4, rfl, hnode, hnout⟩
      · have hv := brkfsValidDataBno_eq_false h hd
        simp only [hv, Bool.not_false, if_true]
        refine ⟨_, _, rfl, .refl _ hown, .inr ⟨rfl, fun hc => ?_⟩, fun _ _ => rfl⟩
        exact hd (slots_ok_iff.1 ((hc.slot hb0 htop).root.resolve_left hz))

/-- Allocating the root of an empty tree and looking up below it. -/
theorem brkfsIndirectLookup_alloc {v1 : Vol} (h : v.Ok g) (h1 : v1.Ok g) (hb : g.IsData b)
    (hrun : brkfsAllocZeroedBlock v = (.ok b, v1)) :
    brkfsIndirectLookup l v 0 idx true = brkfsIndirectLookup l v1 b idx true := by
  have hb0 := h.layout.isData_ne_zero hb
  have hbs : v.sb.sBlocksize = v1.sb.sBlocksize := by rw [h.bs, h1.bs]
  conv_lhs => rw [brkfsIndirectLookup]
  conv_rhs => rw [brkfsIndirectLookup]
  simp only [brkfsIndirectRoot, hrun, hb0, hbs, if_true, if_false, Bool.true_eq_false, and_false]

/-- `brkfs_indirect_lookup` with `create`. -/
theorem brkfsIndirectLookup_create (h : v.Ok g) (hown : TreeOwned g v (l + 1) b)
    (hidx : idx < g.slots.fan ^ (l + 1)) :
    ∃ res b' v', brkfsIndirectLookup l v b idx true = (res, b', v') ∧
      Grow g (fun _ => False) (l + 1) v v' b b' ∧ LookupOutcome g (l + 1) v v' b b' idx res := by
  have hg := h.layout
  by_cases hz : b = 0
  · subst hz
    rcases brkfsAllocZeroedBlock_spec h with ⟨c, v1, hrun, hc, hslots, hgrow⟩ | ⟨hfull, hrun⟩
    · have hg1 := hgrow (fun _ => False) (l + 1)
      have h1 := hg1.writes.ok h
      obtain ⟨res, v', hlook, hgrow', hout⟩ :=
        brkfsIndirectLookup_valid l h1 hc (hg1.owned hown) hidx
      refine ⟨res, c, v', ?_, hg1.trans hgrow', LookupOutcome.after hg1 (fun j hj => ?_) hidx hout⟩
      · rw [brkfsIndirectLookup_alloc h h1 hc hrun, hlook]
      · rw [treeWalk_zero hg, treeWalk, walk_of_slots_nil (slots_nil_not_ok hg) hslots hj]
    · refine ⟨.error .enospc, 0, v, ?_, .refl _ hown, .inl ⟨rfl, hfull⟩, fun _ _ => rfl⟩
      rw [brkfsIndirectLookup]
      simp [brkfsIndirectRoot, hrun]
  · by_cases hb : g.IsData b
    · obtain ⟨res, v', hlook, hgrow, hout⟩ := brkfsIndirectLookup_valid l h hb hown hidx
      exact ⟨res, b, v', hlook, hgrow, hout⟩
    have hv := brkfsValidDataBno_eq_false h hb
    refine ⟨.error .eio, b, v, ?_, .refl _ hown, .inr ⟨rfl, fun hc => ?_⟩, fun _ _ => rfl⟩
    · rw [brkfsIndirectLookup]
      simp [brkfsIndirectRoot, hz, hv]
    · exact hb (slots_ok_iff.1 (hc.root.resolve_left hz))

/-- `brkfs_indirect_lookup` without `create` reads the position; holes are `0`. -/
theorem brkfsIndirectLookup_read (l : Nat) {b idx : Nat} (h : v.Ok g)
    (hclean : TreeClean g v.bd.data (l + 1) b) (hidx : idx < g.slots.fan ^ (l + 1)) :
    brkfsIndirectLookup l v b idx false =
      (.ok ((treeWalk g v.bd.data (l + 1) b idx).getD 0), b, v) := by
  have hg := h.layout
  by_cases hz : b = 0
  · rw [hz, treeWalk_zero hg, brkfsIndirectLookup]
    simp
  have hok := hclean.root.resolve_left hz
  have hb : g.IsData b := slots_ok_iff.1 hok
  have hsub : ∀ i < g.slots.fan, TreeClean g v.bd.data l (ptrAt g v.bd.data b i) :=
    fun i hi => hclean.slot hz hi
  have hvalid : ∀ {c}, g.slots.ok c → brkfsValidDataBno v c = true := fun hc =>
    (brkfsValidDataBno_iff h).2 (slots_ok_iff.1 hc)
  have htop := digit_lt hidx
  rw [treeWalk, walk_succ hok, brkfsIndirectLookup, brkfsIndirectRoot, if_neg hz]
  simp only [hz, false_and, if_false, hvalid hok, Bool.not_true, Bool.false_eq_true]
  cases l with
  | zero =>
    rw [pow_zero, Nat.div_one] at htop ⊢
    simp only [h.u32_slot htop, brkfsGetLeaf, brkfsReadPtr_eq h hb]
    by_cases hc : ptrAt g v.bd.data b idx = 0
    · rw [hc, ← treeWalk, treeWalk_zero hg]
      simp
    · have hcok := (hsub idx htop).root.resolve_left hc
      simp [hc, hvalid hcok, walk, hcok]
  | succ l =>
    simp only [h.ptrs, h.u32_slot htop, not_le.2 htop, if_false, brkfsReadPtr_eq h hb]
    by_cases hc : ptrAt g v.bd.data b (idx / g.slots.fan ^ (l + 1)) = 0
    · rw [hc, ← treeWalk, treeWalk_zero hg]
      simp
    · have hcok := (hsub _ htop).root.resolve_left hc
      have ih := brkfsIndirectLookup_read l h (hsub _ htop) (rest_lt hidx)
      simp only [hc, false_and, if_false, brkfsIndirectChild, hvalid hcok, Bool.not_true,
        Bool.false_eq_true, ih]

end Lookup

end BrkKernel.Brkfs
