import BrkKernel.Brkfs.InodeMap
import BrkKernel.Lib.Actors

/-!
# Freeing file blocks

`brkfs_truncate_inode_blocks` and the recursive freeing of indirect trees below it
(`fs/brkfs/inode.c`). `Shrink` says what cutting a tree at a position does: positions before the cut
stay, the others become holes, and the bitmap follows. A loop over the slots of a block or of an
inode cuts one tree after the other (`ForestShrink.step`), which gives `brkfsFreeIndirectRange_spec`
by induction on the level and `brkfsTruncateInodeBlocks_spec` for an inode.
-/

set_option autoImplicit false

namespace BrkKernel.Brkfs

open Lib Lib.ByteMem Function Finset SlotStore

variable {nd' : FsInode} {s m : Nat} {v' : Vol} {cut : Vol → Nat → Nat → Nat → Nat × Bool × Vol}
  {buf : ByteMem}

/-- `brkfs_indirect_span`. -/
def brkfsIndirectSpan (ptrs level : Nat) : Nat := ptrs ^ level

/-- `brkfs_free_tree`. -/
def brkfsFreeTree : Nat → Vol → Nat → Vol
  | level, v, bno =>
    if bno = 0 ∨ brkfsValidDataBno v bno = false then v
    else
      let v1 :=
        match level with
        | 0 => v
        | level' + 1 =>
          match kmalloc v with
          | (false, v1) => v1
          | (true, v1) =>
            match brkfsBlockRead v1 bno with
            | (.error _, v2) => v2
            | (.ok buf, v2) =>
              (List.range (v.sb.sBlocksize / 4)).foldl
                (fun w i =>
                  if load 4 buf (4 * i) ≠ 0 then
                    brkfsFreeTree level' w (load 4 buf (4 * i))
                  else w) v2
      (brkfsDataFree v1 bno).2

/-- Loop state of `brkfs_free_indirect_range`: the volume, the buffered block, `any_keep` and
`changed`. -/
structure FreeRange where
  vol : Vol
  buf : ByteMem
  anyKeep : Bool
  changed : Bool

/-- The loop body of `brkfs_free_indirect_range` at level `l + 1` for child `i`; `cut` is the
recursive call. -/
def freeRangeChild (l base freeFrom ptrs : Nat) (cut : Vol → Nat → Nat → Nat → Nat × Bool × Vol)
    (st : FreeRange) (i : Nat) : FreeRange :=
  let child := load 4 st.buf (4 * i)
  let childBase := base + i * brkfsIndirectSpan ptrs l
  let childEnd := childBase + brkfsIndirectSpan ptrs l
  if child = 0 then st
  else if freeFrom ≤ childBase then
    { st with
      vol := brkfsFreeTree l st.vol child
      buf := store 4 st.buf (4 * i) 0
      changed := true }
  else if childEnd ≤ freeFrom then { st with anyKeep := true }
  else
    match cut st.vol child childBase childEnd with
    | (child', childKeep, v') =>
      { vol := v'
        buf := store 4 st.buf (4 * i) child'
        anyKeep := st.anyKeep || childKeep
        changed := true }

/-- `brkfs_free_indirect_range` at level `l + 1` over a given recursive call. Returns `*root`,
`*keep` and the volume. -/
def freeIndirectRangeWith (l freeFrom : Nat) (cut : Vol → Nat → Nat → Nat → Nat × Bool × Vol)
    (v : Vol) (root base stop : Nat) : Nat × Bool × Vol :=
  let ptrs := v.sb.sBlocksize / 4
  if root = 0 then (root, false, v)
  else if !brkfsValidDataBno v root then (0, false, v)
  else if freeFrom ≤ base then (0, false, brkfsFreeTree (l + 1) v root)
  else if stop ≤ freeFrom then (root, true, v)
  else
    match kmalloc v with
    | (false, v1) => (root, true, v1)
    | (true, v1) =>
      match brkfsBlockRead v1 root with
      | (.error _, v2) => (root, true, v2)
      | (.ok buf, v2) =>
        let st := (List.range ptrs).foldl (freeRangeChild l base freeFrom ptrs cut)
          ⟨v2, buf, false, false⟩
        let v3 := if st.changed then (brkfsBlockWrite st.vol root st.buf).2 else st.vol
        if !st.anyKeep then (0, false, (brkfsDataFree v3 root).2) else (root, true, v3)

/-- `brkfs_free_indirect_range` at level `l + 1`. A data block is never cut in two, so level one
makes no recursive call. -/
def brkfsFreeIndirectRange (freeFrom : Nat) : Nat → Vol → Nat → Nat → Nat → Nat × Bool × Vol
  | 0 => freeIndirectRangeWith 0 freeFrom fun v child _ _ => (child, true, v)
  | l + 1 => freeIndirectRangeWith (l + 1) freeFrom (brkfsFreeIndirectRange freeFrom l)

/-- The direct-block loop of `brkfs_truncate_inode_blocks` for block `bi`. -/
def truncateDirect (newN : Nat) (st : FsInode × Vol) (bi : Nat) : FsInode × Vol :=
  if bi < newN then st
  else
    let bno := st.1.iBlock bi
    if bno ≠ 0 then
      (st.1.setBlock bi 0, if brkfsValidDataBno st.2 bno then (brkfsDataFree st.2 bno).2 else st.2)
    else st

/-- The level loop of `brkfs_truncate_inode_blocks` for level `l + 1`; the last component is
`base`. -/
def truncateLevel (ptrs freeFrom : Nat) (st : FsInode × Vol × Nat) (l : Nat) :
    FsInode × Vol × Nat :=
  let root := st.1.iBlock (indirectBlock + l)
  let stop := st.2.2 + brkfsIndirectSpan ptrs (l + 1)
  if root ≠ 0 then
    match brkfsFreeIndirectRange freeFrom l st.2.1 root st.2.2 stop with
    | (root', _, v') => (st.1.setBlock (indirectBlock + l) root', v', stop)
  else (st.1, st.2.1, stop)

/-- `brkfs_truncate_inode_blocks`. -/
def brkfsTruncateInodeBlocks (v : Vol) (nd : FsInode) (newSize : Int) :
    Except Errno Unit × FsInode × Vol :=
  let bs := v.sb.sBlocksize
  if newSize < 0 then (.error .einval, nd, v)
  else if newSize > nd.size then (.ok (), { nd with size := newSize.toNat }, v)
  else
    let newN := (newSize.toNat + bs - 1) / bs
    let freeFrom := if newN > directBlocks then newN - directBlocks else 0
    let st := (List.range directBlocks).foldl (truncateDirect newN) (nd, v)
    let st' := (List.range 3).foldl (truncateLevel (bs / 4) freeFrom) (st.1, st.2, 0)
    (.ok (), { st'.1 with size := newSize.toNat }, st'.2.1)

/-! ## Cutting a tree -/

/-- The tree of depth `l` below `b` is cut at position `k`; its root slot becomes `b'`. -/
structure Shrink (g : Geometry) (l : Nat) (v v' : Vol) (b b' k : Nat) : Prop where
  change : Change g (fun _ => False) v v' (treeRefs g v.bd.data l b) (treeRefs g v'.bd.data l b')
  writes : Frame g (fun c => g.IsDataBitmap c ∨ TreeInner g v.bd.data l b c) v v'
  walk : ∀ j < g.slots.fan ^ l, treeWalk g v'.bd.data l b' j =
    if j < k then treeWalk g v.bd.data l b j else none
  clean : TreeClean g v.bd.data l b → TreeClean g v'.bd.data l b'

section ShrinkLemmas

variable {g : Geometry} {l : Nat} {v v' v'' : Vol} {b b' k : Nat}

theorem Shrink.refl (hown : TreeOwned g v l b) (hk : g.slots.fan ^ l ≤ k) :
    Shrink g l v v b b k where
  change := Change.refl _ hown
  writes := Frame.refl g _ v
  walk j hj := by rw [if_pos (by omega)]
  clean := id

/-- A slot that does not hold a data block is emptied. -/
theorem Shrink.of_not_data (hg : g.LayoutOk) (hb : ¬ g.IsData b) (k : Nat) :
    Shrink g l v v b 0 k := by
  have hok : ¬ g.slots.ok b := fun h => hb (slots_ok_iff.1 h)
  have h0 : treeRefs g v.bd.data l b = treeRefs g v.bd.data l 0 := by
    funext x
    rw [treeRefs_zero hg]
    exact refs_of_not_ok hok
  refine ⟨?_, Frame.refl g _ v, fun j _ => ?_, fun _ => clean_nil _ _ _⟩
  · rw [h0]
    refine Change.refl _ ⟨fun c => ?_, fun c hc => ?_, fun c hc => ?_⟩ <;>
      rw [treeRefs_zero hg] at *
    · exact Nat.zero_le 1
    · exact absurd hc (Nat.lt_irrefl 0)
    · exact absurd hc (Nat.lt_irrefl 0)
  · have hw : treeWalk g v.bd.data l b j = none := walk_of_not_ok hok
    rw [treeWalk_zero hg, hw, ite_self]

end ShrinkLemmas

/-! ## Freeing a whole tree -/

/-- The bits of the blocks counted by `R` are cleared; nothing but the bitmap is written. -/
structure Cleared (g : Geometry) (v v' : Vol) (R : Nat → Nat) : Prop where
  frame : Frame g g.IsDataBitmap v v'
  bits : ∀ c, g.IsData c → dataBit g v'.bd.data c = (decide (R c = 0) && dataBit g v.bd.data c)
  free : v.FreeExact g → v'.FreeExact g

section FreeTree

variable {g : Geometry} {l : Nat} {v v' v'' : Vol} {b b' x : Nat} {R Q : Nat → Nat}

theorem Cleared.refl (v : Vol) : Cleared g v v fun _ => 0 :=
  ⟨Frame.refl g _ v, fun c _ => by simp, id⟩

theorem Cleared.trans (h : Cleared g v v' R) (h' : Cleared g v' v'' Q) :
    Cleared g v v'' fun c => R c + Q c where
  frame := h.frame.trans h'.frame
  bits c hc := by
    have e : decide (R c + Q c = 0) = (decide (Q c = 0) && decide (R c = 0)) := by
      by_cases h1 : R c = 0 <;> by_cases h2 : Q c = 0 <;> simp [h1, h2]
    rw [h'.bits c hc, h.bits c hc, e, Bool.and_assoc]
  free := h'.free ∘ h.free

theorem bitmap_untouched (hg : g.LayoutOk) : Untouched g g.IsDataBitmap v l b := fun _ hy =>
  hg.isData_not_bitmap (isData_of_inner hy)

theorem Cleared.refs_eq (hg : g.LayoutOk) (h : Cleared g v v' R) :
    treeRefs g v'.bd.data l b x = treeRefs g v.bd.data l b x :=
  (bitmap_untouched hg).refs_eq h.frame

/-- Ownership of what was not freed. -/
theorem Cleared.owned (hg : g.LayoutOk) (h : Cleared g v v' R)
    (hown : Owned g v fun c => R c + treeRefs g v.bd.data l b c) : TreeOwned g v' l b where
  le_one c := by
    have hle := hown.le_one c
    rw [h.refs_eq hg]
    omega
  isData _ hc := isData_of_treeRefs hc
  used c hc := by
    have hd := isData_of_treeRefs hc
    rw [h.refs_eq hg] at hc
    have hle := hown.le_one c
    have h0 : R c = 0 := by omega
    rw [h.bits c hd, hown.used c (by omega), decide_eq_true h0]
    rfl

theorem brkfsDataFree_cleared (h : v.Ok g) (hb : g.IsData b) (hbit : dataBit g v.bd.data b = true) :
    Cleared g v (brkfsDataFree v b).2 fun x => if b = x then 1 else 0 := by
  obtain ⟨v', hstep, hrun⟩ := brkfsDataFree_spec h hb
  rw [hrun]
  refine ⟨hstep.frame, fun c hc => ?_, hstep.freeExact hbit⟩
  rw [hstep.dataBit c hc]
  by_cases hcb : c = b
  · simp [hcb]
  · simp [hcb, Ne.symm hcb]

theorem not_skip (h : v.Ok g) (hb : g.IsData b) : ¬ (b = 0 ∨ brkfsValidDataBno v b = false) := by
  simp [(brkfsValidDataBno_iff h).2 hb, h.layout.isData_ne_zero hb]

/-- The loop of `brkfs_free_tree` over the slots of a block; `free` frees the tree of a slot. -/
theorem freeSlots_cleared {free : Vol → Nat → Vol} {rt : Nat → Nat} {n : Nat} (h : v.Ok g)
    (hfree : ∀ {w : Vol} {b : Nat}, w.Ok g → TreeOwned g w l b →
      Cleared g w (free w b) (treeRefs g w.bd.data l b))
    (hown : Owned g v fun x => ∑ i ∈ range n, treeRefs g v.bd.data l (rt i) x) :
    Cleared g v ((List.range n).foldl (fun w i => if rt i ≠ 0 then free w (rt i) else w) v)
      fun x => ∑ i ∈ range n, treeRefs g v.bd.data l (rt i) x := by
  have hg := h.layout
  induction n with
  | zero => exact Cleared.refl v
  | succ n ih =>
    simp only [sum_range_succ] at hown ⊢
    have hcl := ih (hown.mono fun c => Nat.le_add_right _ _)
    rw [List.range_succ, List.foldl_append, List.foldl_cons, List.foldl_nil]
    generalize (List.range n).foldl _ v = w at hcl ⊢
    have hsame : treeRefs g v.bd.data l (rt n) = treeRefs g w.bd.data l (rt n) := by
      funext x
      rw [hcl.refs_eq hg]
    refine hcl.trans (R := fun x => ∑ i ∈ range n, treeRefs g v.bd.data l (rt i) x) ?_
    rw [hsame]
    by_cases hz : rt n = 0
    · have h0 : treeRefs g w.bd.data l 0 = fun _ => 0 := by
        funext x
        exact treeRefs_zero hg _ _ _
      rw [if_neg (not_not.2 hz), hz, h0]
      exact Cleared.refl w
    · rw [if_pos hz]
      exact hfree (hcl.frame.ok h) (hcl.owned hg hown)

/-- A pointer that is not a data block is skipped. -/
theorem brkfsFreeTree_skip (h : v.Ok g) (hb : ¬ g.IsData b) :
    Cleared g v (brkfsFreeTree l v b) (treeRefs g v.bd.data l b) := by
  have hskip : b = 0 ∨ brkfsValidDataBno v b = false :=
    .inr (brkfsValidDataBno_eq_false h hb)
  have h0 : treeRefs g v.bd.data l b = fun _ => 0 := by
    funext x
    exact refs_of_not_ok fun hc => hb (slots_ok_iff.1 hc)
  have hrun : brkfsFreeTree l v b = v := by
    cases l with
    | zero | succ l => rw [brkfsFreeTree, if_pos hskip]
  rw [hrun, h0]
  exact Cleared.refl v

/-- `brkfs_free_tree` clears the bits of all blocks of the tree. -/
theorem brkfsFreeTree_cleared (l : Nat) (h : v.Ok g) (hown : TreeOwned g v l b) :
    Cleared g v (brkfsFreeTree l v b) (treeRefs g v.bd.data l b) := by
  have hg := h.layout
  induction l generalizing v b with
  | zero =>
    by_cases hb : g.IsData b
    · rw [brkfsFreeTree, if_neg (not_skip h hb), treeRefs_leaf hb]
      exact brkfsDataFree_cleared h hb (hown.used b (root_refs_pos (slots_ok_iff.2 hb)))
    · exact brkfsFreeTree_skip h hb
  | succ l ih =>
    by_cases hb : g.IsData b
    · have hok := slots_ok_iff.2 hb
      have hR : treeRefs g v.bd.data (l + 1) b = fun x =>
          (∑ i ∈ range g.slots.fan, treeRefs g v.bd.data l (ptrAt g v.bd.data b i) x) +
            if b = x then 1 else 0 := by
        funext x
        exact (refs_succ hok).trans (add_comm _ _)
      have hcl := freeSlots_cleared h ih (hown.mono fun c => by rw [hR]; exact Nat.le_add_right _ _)
      have hrun : brkfsFreeTree (l + 1) v b = (brkfsDataFree
          ((List.range g.slots.fan).foldl (fun w i =>
            if ptrAt g v.bd.data b i ≠ 0 then brkfsFreeTree l w (ptrAt g v.bd.data b i)
            else w) v) b).2 := by
        have hload : ∀ i, load 4 (window v.bd.data (b * g.blocksize)) (4 * i) =
            ptrAt g v.bd.data b i := fun i => load_window ..
        rw [brkfsFreeTree, if_neg (not_skip h hb)]
        simp only [kmalloc_eq h, brkfsBlockRead_eq h (hg.isData_lt hb), h.ptrs, hload]
      rw [hrun]
      generalize (List.range g.slots.fan).foldl _ v = w at hcl ⊢
      have hsum : ∑ i ∈ range g.slots.fan,
          treeRefs g v.bd.data l (ptrAt g v.bd.data b i) b = 0 := by
        have hle := hown.le_one b
        rw [hR] at hle
        simp only [if_true] at hle
        omega
      have husedw : dataBit g w.bd.data b = true := by
        rw [hcl.bits b hb, hown.used b (root_refs_pos hok), decide_eq_true hsum]
        rfl
      rw [hR]
      exact hcl.trans (brkfsDataFree_cleared (hcl.frame.ok h) hb husedw)
    · exact brkfsFreeTree_skip h hb

/-- Clearing the bits of a tree and emptying its root slot. -/
theorem Shrink.of_cleared (hg : g.LayoutOk) (hown : TreeOwned g v l b)
    (h : Cleared g v v' (treeRefs g v.bd.data l b)) : Shrink g l v v' b 0 0 where
  change := by
    refine ⟨h.frame.mono fun c hc => .inl hc, fun c hc => ?_, fun c => ?_, h.free⟩
    · rw [treeRefs_zero hg, h.bits c hc]
      by_cases h0 : treeRefs g v.bd.data l b c = 0
      · left
        simp [h0]
      · right
        have hpos : 0 < treeRefs g v.bd.data l b c := Nat.pos_of_ne_zero h0
        simp [h0, hpos, hown.used c hpos]
    · rw [treeRefs_zero hg]
      exact Nat.zero_le 1
  writes := h.frame.mono fun c hc => .inl hc
  walk j _ := by rw [treeWalk_zero hg, if_neg (Nat.not_lt_zero j)]
  clean _ := clean_nil _ _ _

theorem Shrink.freeTree (h : v.Ok g) (hown : TreeOwned g v l b) :
    Shrink g l v (brkfsFreeTree l v b) b 0 0 :=
  .of_cleared h.layout hown (brkfsFreeTree_cleared l h hown)

end FreeTree

/-! ## Cutting one tree after the other -/

/-- References of the trees below the slots `rt`, with `E` for references from elsewhere. -/
def forestRefs (g : Geometry) (m : ByteMem) (E : Nat → Nat) (n : Nat) (lv rt : Nat → Nat)
    (x : Nat) : Nat :=
  E x + ∑ i ∈ Finset.range n, treeRefs g m (lv i) (rt i) x

/-- The trees of the slots in `D` are cut at the positions `K`; the others are as before. -/
structure ForestShrink (g : Geometry) (E : Nat → Nat) (n : Nat) (lv K : Nat → Nat)
    (D : Finset Nat) (v v' : Vol) (rt rt' : Nat → Nat) : Prop where
  change : Change g (fun _ => False) v v' (forestRefs g v.bd.data E n lv rt)
    (forestRefs g v'.bd.data E n lv rt')
  writes : Frame g
    (fun c => g.IsDataBitmap c ∨ ∃ i < n, TreeInner g v.bd.data (lv i) (rt i) c) v v'
  pending : ∀ i < n, i ∉ D → rt' i = rt i ∧ ∀ y, TreeInner g v.bd.data (lv i) (rt i) y →
    ∀ t < g.slots.fan, ptrAt g v'.bd.data y t = ptrAt g v.bd.data y t
  walk : ∀ i < n, i ∈ D → ∀ j < g.slots.fan ^ lv i,
    treeWalk g v'.bd.data (lv i) (rt' i) j =
      if j < K i then treeWalk g v.bd.data (lv i) (rt i) j else none
  clean : ∀ i < n, i ∈ D → TreeClean g v.bd.data (lv i) (rt i) →
    TreeClean g v'.bd.data (lv i) (rt' i)

section Forest

variable {g : Geometry} {E : Nat → Nat} {n : Nat} {lv K : Nat → Nat} {D : Finset Nat}
  {v v' v'' : Vol} {rt rt' : Nat → Nat} {i b : Nat}

theorem ForestShrink.refl (h : Owned g v (forestRefs g v.bd.data E n lv rt)) :
    ForestShrink g E n lv K ∅ v v rt rt :=
  ⟨Change.refl _ h, Frame.refl g _ v, fun _ _ _ => ⟨rfl, fun _ _ _ _ => rfl⟩,
    fun _ _ hi => absurd hi (notMem_empty _),
    fun _ _ hi => absurd hi (notMem_empty _)⟩

theorem isData_of_forestRefs {m : ByteMem} {x : Nat} (hE : 0 < E x → g.IsData x)
    (h : 0 < forestRefs g m E n lv rt x) : g.IsData x := by
  by_cases h0 : 0 < E x
  · exact hE h0
  have hsum : ∑ i ∈ range n, treeRefs g m (lv i) (rt i) x ≠ 0 := by
    unfold forestRefs at h
    omega
  obtain ⟨i, -, hi⟩ := exists_ne_zero_of_sum_ne_zero hsum
  exact isData_of_treeRefs (pos_of_ne_zero hi)

theorem treeRefs_le_forestRefs (m : ByteMem) (hi : i < n) (x : Nat) :
    treeRefs g m (lv i) (rt i) x ≤ forestRefs g m E n lv rt x :=
  (single_le_sum (f := fun i => treeRefs g m (lv i) (rt i) x) (fun _ _ => Nat.zero_le _)
    (mem_range.2 hi)).trans (Nat.le_add_left _ _)

/-- The next tree is cut. -/
theorem ForestShrink.step (hg : g.LayoutOk) (hE : ∀ x, 0 < E x → g.IsData x)
    (hown : Owned g v (forestRefs g v.bd.data E n lv rt))
    (h : ForestShrink g E n lv K D v v' rt rt') (hi : i < n) (hiD : i ∉ D)
    (hcut : Shrink g (lv i) v' v'' (rt' i) b (K i)) :
    ForestShrink g E n lv K (insert i D) v v'' rt (update rt' i b) := by
  have hown' : Owned g v' (forestRefs g v'.bd.data E n lv rt') :=
    h.change.owned hown fun c hc => isData_of_forestRefs (hE c) hc
  have hbi : update rt' i b i = b := update_self ..
  have hbo : ∀ k, k ≠ i → update rt' i b k = rt' k := fun k hk =>
    update_of_ne hk ..
  have hun : ∀ k < n, k ≠ i → Untouched g
      (MayWrite g v' (treeRefs g v'.bd.data (lv i) (rt' i)) fun _ => False) v' (lv k) (rt' k) :=
    fun k hk hki => untouched_of_owned (range n) lv rt' (E := E) hg hown'
      (fun _ hc => False.elim hc) (mem_range.2 hi) (mem_range.2 hk) hki
  have hsame : ∀ k < n, k ∉ D → ∀ y, (TreeInner g v'.bd.data (lv k) (rt' k) y ↔
      TreeInner g v.bd.data (lv k) (rt k) y) := fun k hk hkD y => by
    obtain ⟨hrt, hptr⟩ := h.pending k hk hkD
    rw [hrt]
    exact inner_congr hptr
  refine ⟨?_, ?_, fun k hk hkD => ?_, fun k hk hkD j hj => ?_, fun k hk hkD hc => ?_⟩
  · refine h.change.trans (Change.forest (range n) lv rt'
      (update rt' i b) (k := i) (E := E) hg ?_ hown' (fun _ hc => False.elim hc)
      (fun _ hc => False.elim hc) (mem_range.2 hi) fun k _ hk => hbo k hk)
    rw [hbi]
    exact hcut.change
  · refine h.writes.trans (hcut.writes.mono fun c hc => ?_)
    rcases hc with hc | hc
    · exact .inl hc
    · exact .inr ⟨i, hi, (hsame i hi hiD c).1 hc⟩
  · have hki : k ≠ i := fun hki => hkD (hki ▸ mem_insert_self i D)
    have hkD' : k ∉ D := fun hk' => hkD (mem_insert_of_mem hk')
    obtain ⟨hrt, hptr⟩ := h.pending k hk hkD'
    refine ⟨by rw [hbo k hki, hrt], fun y hy t ht => ?_⟩
    rw [hcut.change.frame.ptrAt_eq (hun k hk hki y ((hsame k hk hkD' y).2 hy)) ht]
    exact hptr y hy t ht
  · by_cases hki : k = i
    · subst hki
      obtain ⟨hrt, hptr⟩ := h.pending k hk hiD
      rw [hbi, hcut.walk j hj, hrt]
      have hw : treeWalk g v'.bd.data (lv k) (rt k) j = treeWalk g v.bd.data (lv k) (rt k) j :=
        walk_congr hptr hj
      rw [hw]
    · have hkD' : k ∈ D := (mem_insert.1 hkD).resolve_left hki
      rw [hbo k hki, (hun k hk hki).walk_eq hcut.change.frame hj]
      exact h.walk k hk hkD' j hj
  · by_cases hki : k = i
    · subst hki
      obtain ⟨hrt, hptr⟩ := h.pending k hk hiD
      rw [hbi]
      refine hcut.clean ?_
      rw [hrt]
      exact (clean_congr hptr).2 hc
    · have hkD' : k ∈ D := (mem_insert.1 hkD).resolve_left hki
      rw [hbo k hki]
      exact ((hun k hk hki).clean_iff hcut.change.frame).2 (h.clean k hk hkD' hc)

/-- A tree that was not cut yet is still owned. -/
theorem ForestShrink.pending_owned (hE : ∀ x, 0 < E x → g.IsData x)
    (hown : Owned g v (forestRefs g v.bd.data E n lv rt))
    (h : ForestShrink g E n lv K D v v' rt rt') (hi : i < n) : TreeOwned g v' (lv i) (rt' i) :=
  (h.change.owned hown fun c hc => isData_of_forestRefs (hE c) hc).mono
    (treeRefs_le_forestRefs _ hi)

end Forest

/-! ## Cutting an indirect tree -/

section FreeIndirect

variable {g : Geometry} {l : Nat} {v v' : Vol} {b base freeFrom : Nat} {st : FreeRange}

/-- What `brkfs_free_indirect_range` does to a tree of depth `l`: cut it, and report whether
anything is left. -/
def CutSpec (g : Geometry) (l freeFrom : Nat) (cut : Vol → Nat → Nat → Nat → Nat × Bool × Vol) :
    Prop :=
  ∀ (v : Vol) (b base : Nat), v.Ok g → TreeOwned g v l b →
    Shrink g l v (cut v b base (base + g.slots.fan ^ l)).2.2 b
        (cut v b base (base + g.slots.fan ^ l)).1 (freeFrom - base) ∧
      ((cut v b base (base + g.slots.fan ^ l)).2.1 = false →
        (cut v b base (base + g.slots.fan ^ l)).1 = 0) ∧
      (cut v b base (base + g.slots.fan ^ l)).1 < 4294967296

/-- The slots of a buffered block. -/
def bufSlot (buf : ByteMem) (i : Nat) : Nat := load 4 buf (4 * i)

theorem bufSlot_store {i p : Nat} (hp : p < 4294967296) :
    bufSlot (store 4 buf (4 * i) p) = update (bufSlot buf) i p := by
  rw [eq_update_iff]
  exact ⟨load_store_of_lt hp, fun j hj => load_store_of_disjoint (by omega)⟩

/-- Loop invariant of `brkfs_free_indirect_range` after the first `n` children of `b`. -/
structure FreeRangeInv (g : Geometry) (l base freeFrom : Nat) (v : Vol) (b n : Nat)
    (st : FreeRange) : Prop where
  forest : ForestShrink g (fun x => if b = x then 1 else 0) g.slots.fan (fun _ => l)
    (fun i => freeFrom - (base + i * g.slots.fan ^ l)) (Finset.range n) v st.vol
    (ptrAt g v.bd.data b) (bufSlot st.buf)
  dropped : st.anyKeep = false → ∀ i < n, bufSlot st.buf i = 0
  unchanged : st.changed = false → bufSlot st.buf = ptrAt g v.bd.data b

theorem node_forestRefs (hb : g.IsData b) (m : ByteMem) : treeRefs g m (l + 1) b =
      forestRefs g m (fun x => if b = x then 1 else 0) g.slots.fan (fun _ => l) (ptrAt g m b) := by
  funext x
  exact refs_succ (slots_ok_iff.2 hb)

section

variable (h : v.Ok g) (hb : g.IsData b) (hown : TreeOwned g v (l + 1) b)

include h hb hown

/-- One child of the loop. -/
theorem FreeRangeInv.step {n : Nat} (hn : n < g.slots.fan)
    (hcut : 0 < l → CutSpec g l freeFrom cut) (hst : FreeRangeInv g l base freeFrom v b n st) :
    FreeRangeInv g l base freeFrom v b (n + 1)
      (freeRangeChild l base freeFrom g.slots.fan cut st n) := by
  have hg := h.layout
  have hE : ∀ x, 0 < (if b = x then 1 else 0) → g.IsData x := fun x hx => by
    split at hx
    · next hbx => rwa [← hbx]
    · exact absurd hx (lt_irrefl 0)
  have hown' : Owned g v (forestRefs g v.bd.data (fun x => if b = x then 1 else 0) g.slots.fan
      (fun _ => l) (ptrAt g v.bd.data b)) := by
    rw [← node_forestRefs hb]
    exact hown
  have hvol : st.vol.Ok g := hst.forest.writes.ok h
  have hnD : n ∉ range n := notMem_range_self
  have hchild := hst.forest.pending_owned hE hown' hn
  have hins : range (n + 1) = insert n (range n) := range_add_one
  -- the new state from the cut of child `n` to `c`
  have hnext : ∀ (w : Vol) (buf : ByteMem) (c : Nat) (keep changed : Bool),
      Shrink g l st.vol w (bufSlot st.buf n) c (freeFrom - (base + n * g.slots.fan ^ l)) →
      bufSlot buf = update (bufSlot st.buf) n c →
      (keep = false → st.anyKeep = false ∧ c = 0) →
      (changed = false → st.changed = false ∧ c = bufSlot st.buf n) →
      FreeRangeInv g l base freeFrom v b (n + 1) ⟨w, buf, keep, changed⟩ := by
    intro w buf c keep changed hsh hbuf hkeep hchanged
    refine ⟨?_, fun hk i hi => ?_, fun hc => ?_⟩
    · rw [hins]
      rw [hbuf]
      exact hst.forest.step hg hE hown' hn hnD hsh
    · obtain ⟨hk', rfl⟩ := hkeep hk
      rw [hbuf]
      by_cases hin : i = n
      · rw [hin, update_self]
      · rw [update_of_ne hin]
        exact hst.dropped hk' i (by omega)
    · obtain ⟨hc', rfl⟩ := hchanged hc
      rw [hbuf, update_eq_self]
      exact hst.unchanged hc'
  unfold freeRangeChild brkfsIndirectSpan
  show FreeRangeInv g l base freeFrom v b (n + 1) (if bufSlot st.buf n = 0 then st else _)
  split
  · next hz =>
    refine hnext st.vol st.buf 0 st.anyKeep st.changed ?_ ?_ (fun hk => ⟨hk, rfl⟩)
      fun hc => ⟨hc, hz.symm⟩
    · rw [hz]
      exact .of_not_data hg hg.not_isData_zero _
    · rw [← hz, update_eq_self]
  split
  · refine hnext _ _ 0 st.anyKeep true ?_ (bufSlot_store (by omega)) (fun hk => ⟨hk, rfl⟩)
      fun hc => Bool.noConfusion hc
    rw [show freeFrom - (base + n * g.slots.fan ^ l) = 0 by omega]
    exact .freeTree hvol hchild
  next h1 =>
  split
  · refine hnext st.vol st.buf (bufSlot st.buf n) true st.changed
      (.refl hchild (by omega)) ?_ (fun hk => Bool.noConfusion hk) fun hc => ⟨hc, rfl⟩
    rw [update_eq_self]
  next h2 =>
  have hl : 0 < l := by
    rcases Nat.eq_zero_or_pos l with rfl | hl
    · rw [pow_zero] at h1 h2
      omega
    · exact hl
  obtain ⟨hsh, hkeep, hlt⟩ := hcut hl st.vol (bufSlot st.buf n) (base + n * g.slots.fan ^ l) hvol
    hchild
  refine hnext _ _ _ _ true hsh (bufSlot_store hlt) (fun hk => ?_) fun hc => Bool.noConfusion hc
  rw [Bool.or_eq_false_iff] at hk
  exact ⟨hk.1, hkeep hk.2⟩

/-- The whole loop. -/
theorem FreeRangeInv.run (base : Nat) (hcut : 0 < l → CutSpec g l freeFrom cut)
    (hbuf : bufSlot buf = ptrAt g v.bd.data b) :
    FreeRangeInv g l base freeFrom v b g.slots.fan
      ((List.range g.slots.fan).foldl (freeRangeChild l base freeFrom g.slots.fan cut)
        ⟨v, buf, false, false⟩) := by
  refine foldl_range ?_ fun n st hn hst => hst.step h hb hown hn hcut
  refine ⟨?_, fun _ _ hi => absurd hi (Nat.not_lt_zero _), fun _ => hbuf⟩
  rw [hbuf]
  refine ForestShrink.refl ?_
  rw [← node_forestRefs hb]
  exact hown

/-- Writing the cut slots back to the block `b` cuts the tree below `b`. -/
theorem FreeRangeInv.finish {w : Vol}
    (hst : FreeRangeInv g l base freeFrom v b g.slots.fan st) (hw : Frame g (· = b) st.vol w)
    (hfree : w.sb.sFreeBlocks = st.vol.sb.sFreeBlocks)
    (hslots : ∀ i < g.slots.fan, ptrAt g w.bd.data b i = bufSlot st.buf i) :
    Shrink g (l + 1) v w b b (freeFrom - base) := by
  have hg := h.layout
  have hok := slots_ok_iff.2 hb
  -- `b` is not a block of one of its subtrees
  have hun : ∀ i < g.slots.fan, Untouched g (· = b) st.vol l (bufSlot st.buf i) := by
    rintro i hi y hy rfl
    have hpos : 0 < treeRefs g st.vol.bd.data l (bufSlot st.buf i) y :=
      refs_pos_of_inner hy
    have hle := hst.forest.change.le_one y
    have hsum : treeRefs g st.vol.bd.data l (bufSlot st.buf i) y ≤
        ∑ i ∈ range g.slots.fan, treeRefs g st.vol.bd.data l (bufSlot st.buf i) y :=
      single_le_sum (f := fun i => treeRefs g st.vol.bd.data l (bufSlot st.buf i) y)
        (fun _ _ => Nat.zero_le _) (mem_range.2 hi)
    simp only [forestRefs, if_true] at hle
    omega
  have hrefs : treeRefs g w.bd.data (l + 1) b = forestRefs g st.vol.bd.data
      (fun x => if b = x then 1 else 0) g.slots.fan (fun _ => l) (bufSlot st.buf) := by
    rw [node_forestRefs hb]
    funext x
    unfold forestRefs
    congr 1
    refine sum_congr rfl fun i hi => ?_
    have hi' := mem_range.1 hi
    rw [hslots i hi', (hun i hi').refs_eq hw]
  have hchange := hst.forest.change
  rw [← node_forestRefs hb, ← hrefs] at hchange
  have hpos : 0 < treeRefs g v.bd.data (l + 1) b b := root_refs_pos hok
  refine ⟨hchange.write hg hw (hg.bitmap_ne hb) hfree ?_, ?_, fun j hj => ?_, fun hc => ?_⟩
  · rintro c rfl
    exact .inr (.inr (.inl ⟨hb, .inl hpos⟩))
  · refine (hst.forest.writes.mono fun c hc => ?_).trans (hw.mono ?_)
    · rcases hc with hc | ⟨i, hi, hc⟩
      · exact .inl hc
      · exact .inr ⟨hok, .inr ⟨i, hi, hc⟩⟩
    · rintro c rfl
      exact .inr ⟨hok, .inl rfl⟩
  · have hi := digit_lt hj
    have hwalk := hst.forest.walk (j / g.slots.fan ^ l) hi (mem_range.2 hi)
      (j % g.slots.fan ^ l) (rest_lt hj)
    have hpos : j % g.slots.fan ^ l < freeFrom - (base + j / g.slots.fan ^ l * g.slots.fan ^ l) ↔
        j < freeFrom - base := by
      have hd := Nat.div_add_mod' j (g.slots.fan ^ l)
      generalize j % g.slots.fan ^ l = r at hd ⊢
      omega
    rw [treeWalk, walk_succ hok, hslots _ hi, treeWalk, walk_succ hok]
    have hw' := (hun _ hi).walk_eq hw (rest_lt hj)
    simp only [hpos] at hwalk
    exact hw'.trans hwalk
  · refine .inr ⟨hok, fun i hi => ?_⟩
    rw [hslots i hi]
    exact ((hun i hi).clean_iff hw).2
      (hst.forest.clean i hi (mem_range.2 hi) (hc.slot (hg.isData_ne_zero hb) hi))

/-- A cut that leaves only empty slots, after which the block itself is freed. -/
theorem Shrink.free_root {w w' : Vol} {k : Nat} (hcut : Shrink g (l + 1) v w b b k)
    (hslots : ∀ i < g.slots.fan, ptrAt g w.bd.data b i = 0) (hw : w' = (brkfsDataFree w b).2) :
    Shrink g (l + 1) v w' b 0 k := by
  have hg := h.layout
  have hok := slots_ok_iff.2 hb
  have hnil := slots_nil_not_ok hg
  have hownw : TreeOwned g w (l + 1) b := hcut.change.owned hown fun _ => isData_of_treeRefs
  have hrefs : treeRefs g w.bd.data (l + 1) b = fun x => if b = x then 1 else 0 := by
    funext x
    exact refs_of_slots_nil hnil hok hslots
  have hcl : Cleared g w w' (treeRefs g w.bd.data (l + 1) b) := by
    rw [hrefs, hw]
    exact brkfsDataFree_cleared (hcut.writes.ok h) hb (hownw.used b (root_refs_pos hok))
  have hzero := Shrink.of_cleared hg hownw hcl
  refine ⟨hcut.change.trans hzero.change, hcut.writes.trans (hcl.frame.mono fun c hc => .inl hc),
    fun j hj => ?_, fun _ => clean_nil _ _ _⟩
  rw [treeWalk_zero hg, ← hcut.walk j hj, treeWalk, walk_of_slots_nil hnil hslots hj]

end

/-- One level of `brkfs_free_indirect_range`. -/
theorem freeIndirectRangeWith_spec (hcut : 0 < l → CutSpec g l freeFrom cut) :
    CutSpec g (l + 1) freeFrom (freeIndirectRangeWith l freeFrom cut) := by
  intro v b base h hown
  have hg := h.layout
  unfold freeIndirectRangeWith
  simp only [h.ptrs]
  split
  · next hz =>
    subst hz
    exact ⟨.of_not_data hg hg.not_isData_zero _, fun _ => rfl, by omega⟩
  by_cases hb : g.IsData b
  swap
  · have hv := brkfsValidDataBno_eq_false h hb
    simp only [hv, Bool.not_false, if_true]
    exact ⟨.of_not_data hg hb _, fun _ => trivial, by omega⟩
  have hb32 := h.isData_lt_word hb
  simp only [(brkfsValidDataBno_iff h).2 hb, Bool.not_true, Bool.false_eq_true, if_false]
  split
  · rw [show freeFrom - base = 0 by omega]
    exact ⟨.freeTree h hown, fun _ => rfl, by omega⟩
  split
  · exact ⟨.refl hown (by omega), fun hk => Bool.noConfusion hk, hb32⟩
  simp only [kmalloc_eq h, brkfsBlockRead_eq h (hg.isData_lt hb)]
  have hbuf : bufSlot (window v.bd.data (b * g.blocksize)) = ptrAt g v.bd.data b := by
    funext i
    exact load_window ..
  have hinv := FreeRangeInv.run h hb hown base hcut hbuf
  generalize (List.range g.slots.fan).foldl _ _ = st at hinv ⊢
  have hvol : st.vol.Ok g := hinv.forest.writes.ok h
  -- the block as it is after the write-back
  obtain ⟨w, hwdef, hw, hfree, hslots⟩ : ∃ w,
      (if st.changed = true then (brkfsBlockWrite st.vol b st.buf).2 else st.vol) = w ∧
      Frame g (· = b) st.vol w ∧ w.sb.sFreeBlocks = st.vol.sb.sFreeBlocks ∧
      ∀ i < g.slots.fan, ptrAt g w.bd.data b i = bufSlot st.buf i := by
    split
    · rw [brkfsBlockWrite_eq hvol (hg.isData_lt hb)]
      exact ⟨_, rfl, frame_poke hg _, rfl, fun i hi => ptrAt_poke hi⟩
    next hc =>
    refine ⟨_, rfl, Frame.refl g _ _, rfl, fun i hi => ?_⟩
    rw [hinv.unchanged (Bool.eq_false_iff.2 hc)]
    refine hinv.forest.writes.ptrAt_eq ?_ hi
    rintro (hc | ⟨t, ht, hc⟩)
    · exact hg.isData_not_bitmap hb hc
    · exact root_not_inner_child (slots_ok_iff.2 hb) (hown.le_one b) ht hc
  rw [hwdef]
  have hsh := hinv.finish h hb hown hw hfree hslots
  by_cases hk : st.anyKeep = true
  · simp only [hk, Bool.not_true, Bool.false_eq_true, if_false]
    exact ⟨hsh, fun hc => Bool.noConfusion hc, hb32⟩
  have hk' := Bool.eq_false_iff.2 hk
  simp only [hk', Bool.not_false, if_true]
  refine ⟨.free_root h hb hown hsh (fun i hi => ?_) rfl, fun _ => trivial, by omega⟩
  rw [hslots i hi, hinv.dropped hk' i hi]

/-- `brkfs_free_indirect_range` cuts a tree, by induction on its level. -/
theorem brkfsFreeIndirectRange_spec (freeFrom : Nat) :
    ∀ l : Nat, CutSpec g (l + 1) freeFrom (brkfsFreeIndirectRange freeFrom l)
  | 0 => freeIndirectRangeWith_spec fun h => absurd h (lt_irrefl 0)
  | l + 1 => freeIndirectRangeWith_spec fun _ => brkfsFreeIndirectRange_spec freeFrom l

end FreeIndirect

/-! ## Truncating an inode -/

/-- First file block of slot `s`. -/
def slotStart (fan s : Nat) : Nat :=
  if s ≤ indirectBlock then s
  else if s = indirectBlock + 1 then directBlocks + fan
  else directBlocks + fan + fan * fan

theorem blkPos_eq {fan n i : Nat} (h : blkPos fan n = some (s, i)) : n = slotStart fan s + i := by
  unfold blkPos directBlocks indirectBlock directBlocks at h
  unfold slotStart indirectBlock directBlocks
  split_ifs at h <;> simp only [Option.some.injEq, Prod.mk.injEq] at h <;>
    obtain ⟨rfl, rfl⟩ := h
  · rw [if_pos (by omega)]
    omega
  · rw [if_pos (by omega)]
    omega
  · rw [if_neg (by omega), if_pos rfl]
    omega
  · rw [if_neg (by omega), if_neg (by omega)]
    omega

/-- The block map of an inode is cut at file block `newN`. -/
structure InodeShrink (g : Geometry) (v v' : Vol) (nd nd' : FsInode) (newN : Nat) : Prop where
  change : Change g (fun _ => False) v v' (inodeRefs g v.bd.data nd) (inodeRefs g v'.bd.data nd')
  writes : Frame g (fun c => g.IsDataBitmap c ∨ InodeInner g v.bd.data nd c) v v'
  walk : ∀ n, inodeWalk g v'.bd.data nd' n =
    if n < newN then inodeWalk g v.bd.data nd n else none
  clean : InodeClean g v.bd.data nd → InodeClean g v'.bd.data nd'

section TruncateInode

variable {g : Geometry} {v : Vol} {nd : FsInode} {newN : Nat}

/-- The slots of an inode in `D` are cut at file block `newN`. -/
abbrev SlotsShrink (g : Geometry) (newN : Nat) (D : Finset Nat) (v v' : Vol)
    (nd nd' : FsInode) : Prop :=
  ForestShrink g (fun _ => 0) nrBlockPtrs slotLevel (fun s => newN - slotStart g.slots.fan s) D v v'
      nd.iBlock nd'.iBlock ∧ nd' = { nd with iBlock := nd'.iBlock }

theorem inode_forestRefs (m : ByteMem) (nd : FsInode) :
    inodeRefs g m nd = forestRefs g m (fun _ => 0) nrBlockPtrs slotLevel nd.iBlock := by
  funext x
  exact (zero_add _).symm

theorem InodeOwned.forest (hown : InodeOwned g v nd) :
    Owned g v (forestRefs g v.bd.data (fun _ => 0) nrBlockPtrs slotLevel nd.iBlock) := by
  rw [← inode_forestRefs]
  exact hown

theorem SlotsShrink.owned {D : Finset Nat} (hown : InodeOwned g v nd) (hs : s < nrBlockPtrs)
    (hst : SlotsShrink g newN D v v' nd nd') : TreeOwned g v' (slotLevel s) (nd'.iBlock s) :=
  hst.1.pending_owned (fun _ hx => absurd hx (lt_irrefl 0)) hown.forest hs

section

variable (h : v.Ok g) (hown : InodeOwned g v nd)

include h hown

theorem SlotsShrink.step {v'' : Vol} {b : Nat} (hs : s < nrBlockPtrs)
    (hst : SlotsShrink g newN (range s) v v' nd nd')
    (hcut : Shrink g (slotLevel s) v' v'' (nd'.iBlock s) b (newN - slotStart g.slots.fan s)) :
    SlotsShrink g newN (range (s + 1)) v v'' nd (nd'.setBlock s b) := by
  refine ⟨?_, ?_⟩
  · rw [range_add_one]
    exact hst.1.step h.layout (fun _ hx => absurd hx (lt_irrefl 0)) hown.forest hs
      notMem_range_self hcut
  · rw [FsInode.setBlock, hst.2]

/-- A slot that is kept as it is. -/
theorem SlotsShrink.keep (hs : s < nrBlockPtrs) (hst : SlotsShrink g newN (range s) v v' nd nd')
    (hcut : Shrink g (slotLevel s) v' v' (nd'.iBlock s) (nd'.iBlock s)
      (newN - slotStart g.slots.fan s)) : SlotsShrink g newN (range (s + 1)) v v' nd nd' := by
  have hstep := hst.step h hown hs hcut
  rwa [FsInode.setBlock, update_eq_self] at hstep

/-- A direct block. -/
theorem truncateDirect_step {st : FsInode × Vol}
    (hm : m < directBlocks) (ih : SlotsShrink g newN (range m) v st.2 nd st.1) :
    SlotsShrink g newN (range (m + 1)) v (truncateDirect newN st m).2 nd
      (truncateDirect newN st m).1 := by
  obtain ⟨nd', v'⟩ := st
  have hg := h.layout
  obtain ⟨-, hm10, hlevel⟩ := blkPos_direct g.slots.fan hm
  have hstart : slotStart g.slots.fan m = m := by
    rw [slotStart, if_pos (by unfold indirectBlock; omega)]
  have h' : v'.Ok g := ih.1.writes.ok h
  have hownm := ih.owned hown hm10
  unfold truncateDirect
  split
  · refine ih.keep h hown hm10 (.refl hownm ?_)
    rw [hlevel, hstart, pow_zero]
    omega
  have hk0 : newN - slotStart g.slots.fan m = 0 := by omega
  dsimp only
  split
  swap
  · next hz =>
    refine ih.keep h hown hm10 ?_
    rw [not_not.1 hz]
    exact .of_not_data hg hg.not_isData_zero _
  refine ih.step h hown hm10 ?_
  by_cases hb : g.IsData (nd'.iBlock m)
  · simp only [(brkfsValidDataBno_iff h').2 hb, if_true, hk0]
    refine .of_cleared hg hownm ?_
    have hused := hownm.used _ (root_refs_pos (slots_ok_iff.2 hb))
    rw [hlevel, treeRefs_leaf hb]
    exact brkfsDataFree_cleared h' hb hused
  · have hv := brkfsValidDataBno_eq_false h' hb
    simp only [hv, Bool.false_eq_true, if_false]
    exact .of_not_data hg hb _

/-- The slots before the tree of level `m + 1` are cut, and the level starts where the loop says. -/
def LevelsShrink (g : Geometry) (newN : Nat) (v : Vol) (nd : FsInode) (m : Nat)
    (st : FsInode × Vol × Nat) : Prop :=
  SlotsShrink g newN (range (indirectBlock + m)) v st.2.1 nd st.1 ∧
    (m < 3 → directBlocks + st.2.2 = slotStart g.slots.fan (indirectBlock + m))

/-- An indirect tree. -/
theorem truncateLevel_step {st : FsInode × Vol × Nat} (hm : m < 3)
    (hst : LevelsShrink g newN v nd m st) :
    LevelsShrink g newN v nd (m + 1) (truncateLevel g.slots.fan (newN - directBlocks) st m) := by
  obtain ⟨nd', v', base⟩ := st
  obtain ⟨ih, hbase⟩ := hst
  have hbase' := hbase hm
  have hg := h.layout
  have hm10 : indirectBlock + m < nrBlockPtrs := by
    unfold indirectBlock directBlocks nrBlockPtrs
    omega
  have hlevel := slotLevel_indirect m
  have hnext : m + 1 < 3 → directBlocks + (base + g.slots.fan ^ (m + 1)) =
      slotStart g.slots.fan (indirectBlock + (m + 1)) := by
    intro hm3
    rw [← add_assoc, hbase']
    obtain rfl | rfl : m = 0 ∨ m = 1 := by omega
    · rw [zero_add, pow_one]
      rfl
    · rw [Nat.pow_two]
      rfl
  have hownm := ih.owned hown hm10
  unfold truncateLevel brkfsIndirectSpan
  dsimp only
  split
  swap
  · next hz =>
    refine ⟨SlotsShrink.keep (s := indirectBlock + m) h hown hm10 ih ?_, hnext⟩
    rw [not_not.1 hz]
    exact .of_not_data hg hg.not_isData_zero _
  rw [hlevel] at hownm
  obtain ⟨hsh, -, -⟩ := brkfsFreeIndirectRange_spec (newN - directBlocks) m v'
    (nd'.iBlock (indirectBlock + m)) base (ih.1.writes.ok h) hownm
  refine ⟨SlotsShrink.step (s := indirectBlock + m) h hown hm10 ih ?_, hnext⟩
  rw [hlevel, ← hbase', Nat.sub_add_eq]
  exact hsh

end

theorem truncateSlots_spec (h : SlotsShrink g newN (range nrBlockPtrs) v v' nd nd') :
    InodeShrink g v v' nd nd' newN where
  change := by
    rw [inode_forestRefs, inode_forestRefs]
    exact h.1.change
  writes := h.1.writes
  walk n := by
    unfold inodeWalk
    cases hpos : blkPos g.slots.fan n with
    | none => simp
    | some p =>
      obtain ⟨s, i⟩ := p
      obtain ⟨hs, hi⟩ := blkPos_spec hpos
      have hn := blkPos_eq hpos
      have hiff : i < newN - slotStart g.slots.fan s ↔ n < newN := by omega
      simp only
      rw [h.1.walk s hs (mem_range.2 hs) i hi]
      simp only [hiff]
  clean hc s hs := h.1.clean s hs (mem_range.2 hs) (hc s hs)

/-- Shrinking a file: the block map is cut after the last block that holds data. -/
theorem brkfsTruncateInodeBlocks_spec (h : v.Ok g) (hown : InodeOwned g v nd) (newSize : Nat)
    (hle : newSize ≤ nd.size) :
    ∃ nd' v', brkfsTruncateInodeBlocks v nd newSize = (.ok (), nd', v') ∧
      InodeShrink g v v' nd nd' ((newSize + g.blocksize - 1) / g.blocksize) ∧
      nd' = { nd with iBlock := nd'.iBlock, size := newSize } := by
  generalize hN : (newSize + g.blocksize - 1) / g.blocksize = newN
  have hfrom : (if newN > directBlocks then newN - directBlocks else 0) = newN - directBlocks := by
    split <;> omega
  have h1 := foldl_range (P := fun m st => SlotsShrink g newN (range m) v st.2 nd st.1)
    (s := (nd, v)) ⟨.refl hown.forest, rfl⟩
    fun m st (hm : m < directBlocks) => truncateDirect_step h hown hm
  have h2 := foldl_range (P := LevelsShrink g newN v nd) (s := (_, _, 0)) ⟨h1, fun _ => rfl⟩
    fun m st (hm : m < 3) => truncateLevel_step h hown hm
  have hneg : ¬ (newSize : Int) < 0 := by omega
  have hgrow : ¬ (newSize : Int) > nd.size := by omega
  have hptrs : g.blocksize / 4 = g.slots.fan := rfl
  unfold brkfsTruncateInodeBlocks
  simp only [hneg, hgrow, if_false, h.bs, hptrs, Int.toNat_natCast, hN, hfrom]
  have hs := truncateSlots_spec h2.1
  exact ⟨_, _, rfl, ⟨hs.change, hs.writes, hs.walk, hs.clean⟩, by rw [h2.1.2]⟩

end TruncateInode

end BrkKernel.Brkfs
