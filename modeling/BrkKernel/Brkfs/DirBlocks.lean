import BrkKernel.Brkfs.DirChain
import Mathlib.Order.Interval.Finset.Nat

/-!
# The blocks of a directory

`DirOk` describes a directory by its blocks and their entries; `dirPairs` are its names. The loops
of `fs/brkfs/dir.c` over the blocks read the names (`brkfsDirLookup_eq`), delete one
(`brkfsDirRemove_spec`) or insert one, in a block with room or in a new block
(`brkfsDirAdd_spec`).
-/

set_option autoImplicit false

namespace BrkKernel.Brkfs

open Lib Lib.ByteMem List

/-- The contents of a block. -/
def Vol.block (g : Geometry) (v : Vol) (b : Nat) : ByteMem := window v.bd.data (b * g.blocksize)

/-- Bytes of a directory block that hold entries. -/
def Geometry.usable (g : Geometry) : Nat := g.blocksize - dirCsumSize

section Blocks

variable {g : Geometry} {v v' : Vol} {nd nd' : FsInode} {b c i : Nat} {buf : ByteMem}

theorem Geometry.LayoutOk.usable_add (h : g.LayoutOk) : g.usable + dirCsumSize = g.blocksize := by
  have := h.bs_ge
  unfold Geometry.usable dirCsumSize
  omega

theorem Geometry.LayoutOk.usable_bounds (h : g.LayoutOk) : 1020 ≤ g.usable ∧ g.usable ≤ 4092 := by
  have h1 := h.bs_ge
  have h2 := h.bs_le
  have h3 := h.usable_add
  have h4 : dirCsumSize = 4 := rfl
  omega

theorem brkfsDirChecksumOk_congr {m m' : ByteMem} (hg : g.LayoutOk)
    (h : ∀ x < g.blocksize, m x = m' x) :
    brkfsDirChecksumOk m g.blocksize = brkfsDirChecksumOk m' g.blocksize := by
  have hbs := hg.bs_ge
  unfold brkfsDirChecksumOk dirCsumSize
  rw [brkfsCrc32c_congr fun x hx => h x (by omega)]
  congr 1
  exact load_congr fun x hx => h _ (by omega)

/-- A block that was just written passes its check. -/
theorem brkfsDirChecksumOk_set (g : Geometry) (buf : ByteMem) :
    brkfsDirChecksumOk (brkfsDirSetChecksum buf g.blocksize) g.blocksize = true := by
  have hcrc : brkfsCrc32c 0 (brkfsDirSetChecksum buf g.blocksize) (g.blocksize - dirCsumSize) =
      brkfsCrc32c 0 buf (g.blocksize - dirCsumSize) :=
    brkfsCrc32c_congr fun x hx => blit_of_lt hx
  unfold brkfsDirChecksumOk
  rw [hcrc, beq_iff_eq, brkfsDirSetChecksum, load_store_of_lt]
  exact UInt32.toNat_lt _

theorem brkfsDirReadBlock_eq (h : v.Ok g) (hb : b < g.blocksCount)
    (hc : brkfsDirChecksumOk (v.block g b) g.blocksize = true) :
    brkfsDirReadBlock v b = (.ok (v.block g b), v) := by
  have hc' : brkfsDirChecksumOk (window v.bd.data (b * g.blocksize)) g.blocksize = true := hc
  rw [brkfsDirReadBlock, brkfsBlockRead_eq h hb, h.bs]
  simp only [hc', if_true]
  rfl

/-- The volume after `brkfs_dir_write_block`. -/
def Vol.putDirBlock (g : Geometry) (v : Vol) (b : Nat) (buf : ByteMem) : Vol :=
  v.poke (b * g.blocksize) g.blocksize (brkfsDirSetChecksum buf g.blocksize)

theorem brkfsDirWriteBlock_eq (h : v.Ok g) (hb : b < g.blocksCount) (buf : ByteMem) :
    brkfsDirWriteBlock v b buf = (.ok (), v.putDirBlock g b buf) := by
  rw [brkfsDirWriteBlock, brkfsBlockWrite_eq h hb, h.bs, Vol.putDirBlock]

theorem frame_putDirBlock (hg : g.LayoutOk) (v : Vol) (b : Nat) (buf : ByteMem) :
    Frame g (· = b) v (v.putDirBlock g b buf) := frame_poke hg _

theorem block_putDirBlock (g : Geometry) (v : Vol) (b : Nat) (buf : ByteMem) :
    (v.putDirBlock g b buf).block g b =
      blit (v.block g b) 0 g.blocksize (brkfsDirSetChecksum buf g.blocksize) := by
  funext x
  show blit v.bd.data _ _ _ (b * g.blocksize + x) = _
  by_cases hx : x < g.blocksize
  · rw [blit_of_mem (by omega) (by omega), blit_of_mem (by omega) (by omega), Nat.sub_zero,
      Nat.add_sub_cancel_left]
  · rw [blit_of_ge (by omega), blit_of_ge (by omega)]
    rfl

theorem block_putDirBlock_usable (hg : g.LayoutOk) (v : Vol) (buf : ByteMem) {x : Nat}
    (hx : x < g.usable) : (v.putDirBlock g b buf).block g b x = buf x := by
  have h1 := hg.usable_add
  rw [block_putDirBlock, blit_of_mem (by omega) (by omega), Nat.sub_zero]
  exact blit_of_lt hx

theorem checksumOk_putDirBlock (hg : g.LayoutOk) (v : Vol) (b : Nat) (buf : ByteMem) :
    brkfsDirChecksumOk ((v.putDirBlock g b buf).block g b) g.blocksize = true := by
  rw [← brkfsDirChecksumOk_set g buf]
  refine brkfsDirChecksumOk_congr hg fun x hx => ?_
  rw [block_putDirBlock, blit_of_mem (by omega) (by omega), Nat.sub_zero]

/-- `brkfs_dir_get_block` for a mapped block. -/
theorem brkfsDirGetBlock_eq (h : v.Ok g) (hc : InodeClean g v.bd.data nd)
    (hw : inodeWalk g v.bd.data nd i = some b) :
    brkfsDirGetBlock v nd i false = (.ok b, nd, v) := by
  have hdiv : i * g.blocksize / g.blocksize = i := Nat.mul_div_cancel _ h.layout.bs_pos
  obtain ⟨s, k, hpos, -⟩ := inodeWalk_pos hw
  rw [brkfsDirGetBlock, h.bs, brkfsInodeGetblk_read h hc _ (by rw [hdiv, hpos]; rfl), hdiv, hw]
  rfl

end Blocks

/-! ## Directories with well-formed blocks -/

/-- Block `i` of a directory is the block `p.1` with the entries `p.2`. -/
structure DirBlockOk (g : Geometry) (v : Vol) (nd : FsInode) (i : Nat)
    (p : Nat × List DirEntry) : Prop where
  walk : inodeWalk g v.bd.data nd i = some p.1
  csum : brkfsDirChecksumOk (v.block g p.1) g.blocksize = true
  tail : DirTail g.usable (v.block g p.1) 0 p.2

/-- A directory that consists of the given blocks. -/
structure DirOk (g : Geometry) (v : Vol) (nd : FsInode) (blocks : List (Nat × List DirEntry)) :
    Prop where
  ok : v.Ok g
  owned : InodeOwned g v nd
  clean : InodeClean g v.bd.data nd
  isDir : sIsDir nd.mode = true
  size : nd.size = blocks.length * g.blocksize
  blockOk : ∀ i p, blocks[i]? = some p → DirBlockOk g v nd i p

/-- The names of a directory with inode numbers and file types. -/
def dirPairs (blocks : List (Nat × List DirEntry)) : List (List UInt8 × Nat × Nat) :=
  blocks.flatMap fun p => dirLive p.2

/-- The entries of a directory with their offsets. -/
def dirLocated (blocks : List (Nat × List DirEntry)) : List (Nat × DirEntry) :=
  blocks.flatMap fun p => dirFormat.located 0 p.2

/-- What a lookup that found `r` returns. -/
def lookupResult (r : Option (Nat × Nat)) : Except Errno (Nat × Nat) :=
  match r with
  | some r => .ok r
  | none => .error .enoent

section Directory

variable {g : Geometry} {v v' : Vol} {nd nd' : FsInode} {b c i ino ftype : Nat} {buf : ByteMem}
  {name : List UInt8} {es es' : List DirEntry} {blocks pre post : List (Nat × List DirEntry)}

theorem dirPairs_cons (p : Nat × List DirEntry) (suf : List (Nat × List DirEntry)) :
    dirPairs (p :: suf) = dirLive p.2 ++ dirPairs suf := flatMap_cons

theorem dirPairs_middle (pre post : List (Nat × List DirEntry)) (p : Nat × List DirEntry) :
    dirPairs (pre ++ p :: post) = dirPairs pre ++ (dirLive p.2 ++ dirPairs post) := by
  simp [dirPairs]

/-- Replacing the entries of a block by a permutation with one more name. -/
theorem dirPairs_insert {x : List UInt8 × Nat × Nat} (pre post : List (Nat × List DirEntry))
    (b : Nat) (h : (dirLive es').Perm (x :: dirLive es)) :
    (dirPairs (pre ++ (b, es') :: post)).Perm (x :: dirPairs (pre ++ (b, es) :: post)) := by
  rw [dirPairs_middle, dirPairs_middle]
  have h1 : (dirLive es' ++ dirPairs post).Perm (x :: (dirLive es ++ dirPairs post)) :=
    h.append_right _
  exact (h1.append_left _).trans perm_middle

theorem getElem?_middle {α : Type} {pre post : List α} (x y : α) {k : Nat}
    (h : k ≠ pre.length) : (pre ++ x :: post)[k]? = (pre ++ y :: post)[k]? := by
  rcases Nat.lt_or_gt_of_ne h with h | h
  · rw [getElem?_append_left h, getElem?_append_left h]
  · rw [getElem?_append_right (by omega), getElem?_append_right (by omega)]
    obtain ⟨j, hj⟩ : ∃ j, k - pre.length = j + 1 := ⟨k - pre.length - 1, by omega⟩
    rw [hj, getElem?_cons_succ, getElem?_cons_succ]

/-- A block of a directory that is not written keeps its entries. -/
theorem DirBlockOk.of_frame {M : Nat → Prop} (hg : g.LayoutOk) (h : DirBlockOk g v nd i (b, es))
    (hf : Frame g M v v') (hb : ¬ M b)
    (hw : inodeWalk g v'.bd.data nd' i = inodeWalk g v.bd.data nd i) :
    DirBlockOk g v' nd' i (b, es) := by
  have hbyte : ∀ x < g.blocksize, v'.block g b x = v.block g b x := fun x hx => hf.block_byte hb hx
  have husable := hg.usable_add
  refine ⟨hw.trans h.walk, ?_, h.tail.congr fun x _ hx => hbyte x (by omega)⟩
  rw [← h.csum]
  exact brkfsDirChecksumOk_congr hg hbyte

/-- Writing a block of an inode leaves its block map alone. -/
theorem putDirBlock_inode (h : v.Ok g) (hown : InodeOwned g v nd)
    (hw : inodeWalk g v.bd.data nd i = some b) (buf : ByteMem) :
    (v.putDirBlock g b buf).Ok g ∧ InodeOwned g (v.putDirBlock g b buf) nd ∧
      (InodeClean g v.bd.data nd → InodeClean g (v.putDirBlock g b buf).bd.data nd) ∧
      ∀ j, inodeWalk g (v.putDirBlock g b buf).bd.data nd j = inodeWalk g v.bd.data nd j := by
  have hf := frame_putDirBlock h.layout v b buf
  exact ⟨hf.ok h, hown.write_leaf h.layout hw hf⟩

/-- Writing a new version of one block. -/
theorem DirOk.replace (h : DirOk g v nd (pre ++ (b, es) :: post))
    (htail : DirTail g.usable buf 0 es') :
    DirOk g (v.putDirBlock g b buf) nd (pre ++ (b, es') :: post) := by
  have hg := h.ok.layout
  have hb : DirBlockOk g v nd pre.length (b, es) := h.blockOk _ _ (by simp)
  obtain ⟨hok, hown, hclean, hwalk⟩ := putDirBlock_inode h.ok h.owned hb.walk buf
  refine ⟨hok, hown, hclean h.clean, h.isDir, ?_, fun i p hp => ?_⟩
  · rw [h.size]
    simp
  by_cases hi : i = pre.length
  · subst hi
    obtain rfl : (b, es') = p := by simpa using hp
    exact ⟨(hwalk _).trans hb.walk, checksumOk_putDirBlock hg v b buf,
      htail.congr fun x _ hx => block_putDirBlock_usable hg v buf hx⟩
  obtain ⟨c, ces⟩ := p
  have hc : DirBlockOk g v nd i (c, ces) := h.blockOk i _ (by
    rw [← hp]
    exact getElem?_middle _ _ hi)
  refine hc.of_frame hg (frame_putDirBlock hg v b buf) ?_ (hwalk i)
  rintro rfl
  exact hi (h.owned.walk_inj hc.walk hb.walk)

/-! ### The block loops -/

theorem dirBlock_step (h : v.Ok g) (hc : InodeClean g v.bd.data nd)
    (hw : inodeWalk g v.bd.data nd i = some b)
    (hcsum : brkfsDirChecksumOk (v.block g b) g.blocksize = true) :
    brkfsDirGetBlock v nd i false = (.ok b, nd, v) ∧ b ≠ 0 ∧ b < g.blocksCount ∧
      brkfsDirReadBlock v b = (.ok (v.block g b), v) ∧
      v.sb.sBlocksize - dirCsumSize = g.usable ∧ g.usable < 2 ^ 16 := by
  have hd : g.IsData b := isData_of_inodeWalk hw
  have hlt := h.layout.isData_lt hd
  have hub := h.layout.usable_bounds
  exact ⟨brkfsDirGetBlock_eq h hc hw, h.layout.isData_ne_zero hd, hlt,
    brkfsDirReadBlock_eq h hlt hcsum, by rw [h.bs]; rfl, by omega⟩

theorem blockOk_cons {p : Nat × List DirEntry} {suf : List (Nat × List DirEntry)}
    (h : ∀ k q, (p :: suf)[k]? = some q → DirBlockOk g v nd (i + k) q) :
    DirBlockOk g v nd i p ∧ ∀ k q, suf[k]? = some q → DirBlockOk g v nd (i + 1 + k) q := by
  refine ⟨h 0 p rfl, fun k q hq => ?_⟩
  have hk := h (k + 1) q hq
  rwa [add_assoc, add_comm 1 k]

theorem dirLocated_cons (p : Nat × List DirEntry) (suf : List (Nat × List DirEntry)) :
    dirLocated (p :: suf) = dirFormat.located 0 p.2 ++ dirLocated suf := by
  simp [dirLocated]

section

variable {suf : List (Nat × List DirEntry)} (h : v.Ok g) (hc : InodeClean g v.bd.data nd)
  (hall : ∀ k q, suf[k]? = some q → DirBlockOk g v nd (i + k) q)

include h hc hall

/-- The lookup loop searches the names of all blocks. -/
theorem dirLookupBlocks_eq (name : List UInt8) : dirLookupBlocks name suf.length i nd v =
      lookupResult (((dirPairs suf).find? fun p => p.1 = name).map Prod.snd) := by
  induction suf generalizing i with
  | nil => rfl
  | cons p suf ih =>
    obtain ⟨hp, hrest⟩ := blockOk_cons hall
    obtain ⟨hget, hne, -, hread, hu, -⟩ := dirBlock_step h hc hp.walk hp.csum
    have hlook := dirLookupInBlock_eq name hp.tail (Nat.sub_zero g.usable).le
    rw [Nat.sub_zero] at hlook
    rw [length_cons, dirLookupBlocks, hget]
    simp only [if_neg hne, hread, hu, hlook]
    rw [dirPairs_cons, find?_append]
    cases hf : (dirLive p.2).find? fun q => q.1 = name with
    | some r => rfl
    | none => exact ih hrest

/-- The remove loop takes the name out of the block that has it. When none has it, the `-ENOENT` of
a block is dropped: what the loop returns is `0`, unless there is no block. -/
theorem dirRemoveBlocks_cases (name : List UInt8) (err : Except Errno Unit) :
    (name ∉ (dirPairs suf).map Prod.fst ∧ dirRemoveBlocks name suf.length i err nd v =
      some (if suf = [] then err else .ok (), nd, v)) ∨
    ∃ pre b es post es' x buf, suf = pre ++ (b, es) :: post ∧
      dirRemoveBlocks name suf.length i err nd v = some (.ok (), nd, v.putDirBlock g b buf) ∧
      DirTail g.usable buf 0 es' ∧ (dirLive es).Perm ((name, x) :: dirLive es') := by
  induction suf generalizing i err with
  | nil => exact .inl ⟨not_mem_nil, rfl⟩
  | cons p suf ih =>
    obtain ⟨hp, hrest⟩ := blockOk_cons hall
    obtain ⟨hget, hne, hlt, hread, hu, hub⟩ := dirBlock_step h hc hp.walk hp.csum
    have hspec := brkfsDirRemoveInBlock_spec hub name hp.tail
    rw [dirPairs_cons, map_append, mem_append, not_or, length_cons,
      dirRemoveBlocks, hget]
    simp only [if_neg hne, hread, hu]
    generalize brkfsDirRemoveInBlock (v.block g p.1) g.usable name = res at hspec ⊢
    match res, hspec with
    | some (.ok buf), ⟨es', x, htail, hperm, _⟩ =>
      refine .inr ⟨[], p.1, p.2, suf, es', x, buf, rfl, ?_, htail, hperm⟩
      simp only [brkfsDirWriteBlock_eq h hlt]
    | some (.error err'), ⟨_, hnot⟩ =>
      rcases ih hrest (.ok ()) with ⟨habs, hrun⟩ |
        ⟨pre, b, es, post, es', x, buf, rfl, hrun, htail, hperm⟩
      · exact .inl ⟨⟨hnot, habs⟩, by simp [hrun]⟩
      · exact .inr ⟨p :: pre, b, es, post, es', x, buf, rfl, hrun, htail, hperm⟩

/-- The add loop puts the name into the first entry with room. -/
theorem dirAddBlocks_spec (hargs : DirArgs name ino) (hft : ftype < 2 ^ 8)
    (hkept : FirstKept g.usable name (dirLocated suf)) :
    dirAddBlocks ino name ftype suf.length i nd v = some (none, nd, v) ∨
    ∃ pre b es post es' buf, suf = pre ++ (b, es) :: post ∧
      dirAddBlocks ino name ftype suf.length i nd v =
        some (some (.ok ()), nd, v.putDirBlock g b buf) ∧
      DirTail g.usable buf 0 es' ∧ (dirLive es').Perm ((name, ino, ftype) :: dirLive es) := by
  induction suf generalizing i with
  | nil => exact .inl rfl
  | cons p suf ih =>
    obtain ⟨hp, hrest⟩ := blockOk_cons hall
    obtain ⟨hget, hne, hlt, hread, hu, hub⟩ := dirBlock_step h hc hp.walk hp.csum
    rw [dirLocated_cons] at hkept
    have hspec : DirAdded g.usable (v.block g p.1) 0 p.2 name ino ftype
        (brkfsDirAddInBlock (v.block g p.1) g.usable ino name ftype) := by
      rw [brkfsDirAddInBlock, u16_of_lt (by omega)]
      refine dirAddInBlock_spec hargs hft (by omega) hp.tail (by omega) fun o e hf => ?_
      refine hkept o e ?_
      rw [find?_append, hf]
      rfl
    rw [length_cons, dirAddBlocks, hget]
    simp only [if_neg hne, hread, hu]
    generalize brkfsDirAddInBlock (v.block g p.1) g.usable ino name ftype = res at hspec ⊢
    match res, hspec with
    | some (.ok buf), ⟨es', htail, hperm, _⟩ =>
      refine .inr ⟨[], p.1, p.2, suf, es', buf, rfl, ?_, htail, hperm⟩
      simp only [brkfsDirWriteBlock_eq h hlt]
    | some (.error err), ⟨_, hnot⟩ =>
      have hnone : (dirFormat.located 0 p.2).find?
          (fun q => dirFits (brkfsDirentReclen name.length) q.2) = none := by
        rw [find?_eq_none]
        intro q hq
        rw [hnot q.2 (RecordFormat.mem_of_mem_located hq)]
        exact Bool.false_ne_true
      rw [FirstKept, find?_append, hnone, Option.none_or] at hkept
      rcases ih hrest hkept with hrun | ⟨pre, b, es, post, es', buf, rfl, hrun, htail, hperm⟩
      · exact .inl hrun
      · exact .inr ⟨p :: pre, b, es, post, es', buf, rfl, hrun, htail, hperm⟩

end

/-! ### Growing by a block -/

/-- A directory has no more blocks than the volume has data blocks, so the next one has a place in
the block map. -/
theorem DirOk.blkPos_isSome (h : DirOk g v nd blocks) :
    (blkPos g.slots.fan blocks.length).isSome := by
  have hg := h.ok.layout
  have hmapped : ∀ i < blocks.length, ∃ b, inodeWalk g v.bd.data nd i = some b := fun i hi =>
    ⟨_, (h.blockOk i _ (getElem?_eq_getElem hi)).walk⟩
  have hcard : blocks.length ≤ g.dataBlocksCount := by
    have hle := Finset.card_le_card_of_injOn (s := Finset.range blocks.length)
      (t := Finset.Ico g.firstDataBlock (g.firstDataBlock + g.dataBlocksCount))
      (fun i => (inodeWalk g v.bd.data nd i).getD 0) ?_ ?_
    · simpa using hle
    · intro i hi
      obtain ⟨b, hb⟩ := hmapped i (Finset.mem_range.1 hi)
      simp only [hb, Option.getD_some, Finset.coe_Ico, Set.mem_Ico]
      exact isData_of_inodeWalk hb
    · intro i hi j hj hij
      obtain ⟨b, hb⟩ := hmapped i (Finset.mem_range.1 hi)
      obtain ⟨c, hc⟩ := hmapped j (Finset.mem_range.1 hj)
      simp only [hb, hc, Option.getD_some] at hij
      subst hij
      exact h.owned.walk_inj hb hc
  refine blkPos_of_small hg (Nat.le_trans (Nat.mul_le_mul_right _ ?_) h.ok.small)
  have h1 := hg.afterData
  have h2 := hg.backup
  omega

/-- A new block behind the others. -/
theorem DirOk.append (h : DirOk g v nd blocks) (hgrow : InodeGrow g v v' nd nd')
    (hout : GetblkOutcome g v v' nd nd' blocks.length (.ok c)) (htail : DirTail g.usable buf 0 es) :
    DirOk g (v'.putDirBlock g c buf) { nd' with size := (blocks.length + 1) * g.blocksize }
      (blocks ++ [(c, es)]) := by
  have hg := h.ok.layout
  obtain ⟨hc, -, hwalk⟩ := hout
  have hown' : InodeOwned g v' nd' := hgrow.owned h.owned
  have hwc : inodeWalk g v'.bd.data nd' blocks.length = some c := by rw [hwalk, if_pos rfl]
  obtain ⟨hok, hown, hclean, hsame⟩ :=
    putDirBlock_inode (hgrow.writes.ok h.ok) hown' hwc buf
  have hmode : nd'.mode = nd.mode := by rw [hgrow.attrs]
  refine ⟨hok, hown, hclean (hgrow.clean h.clean), ?_, ?_, fun i p hp => ?_⟩
  · rw [hmode]
    exact h.isDir
  · simp
  by_cases hi : i < blocks.length
  · rw [getElem?_append_left hi] at hp
    obtain ⟨b, bes⟩ := p
    have hb := h.blockOk i _ hp
    have hwi : inodeWalk g v'.bd.data nd' i = inodeWalk g v.bd.data nd i := by
      rw [hwalk, if_neg (by omega)]
    have hb' : DirBlockOk g v' nd' i (b, bes) :=
      hb.of_frame hg hgrow.writes (h.owned.not_growWrites hg hb.walk) hwi
    refine hb'.of_frame hg (frame_putDirBlock hg v' c buf) ?_ (hsame i)
    rintro rfl
    have := hown'.walk_inj hb'.walk hwc
    omega
  · have hi0 : i = blocks.length := by
      by_contra hne
      rw [getElem?_eq_none (by simp; omega)] at hp
      cases hp
    subst hi0
    obtain rfl : (c, es) = p := by simpa using hp
    exact ⟨(hsame _).trans hwc, checksumOk_putDirBlock hg v' c buf,
      htail.congr fun x _ hx => block_putDirBlock_usable hg v' buf hx⟩

theorem emptyDirBlock_tail (hg : g.LayoutOk) :
    DirTail g.usable (emptyDirBlock g.usable) 0 [⟨0, g.usable, 0, 0, []⟩] := by
  have hu := hg.usable_bounds
  have hmin : dirEntryMinLen = 12 := rfl
  rw [emptyDirBlock, u16_of_lt (by omega)]
  exact dirTail_hole _ (by omega) (zero_add _) (by omega)

/-- A fresh block takes any name. -/
theorem brkfsDirAddInBlock_empty (hg : g.LayoutOk) (hargs : DirArgs name ino)
    (hft : ftype < 2 ^ 8) :
    ∃ buf es, brkfsDirAddInBlock (emptyDirBlock g.usable) g.usable ino name ftype =
      some (.ok buf) ∧ DirTail g.usable buf 0 es ∧ (dirLive es).Perm [(name, ino, ftype)] := by
  have hu := hg.usable_bounds
  have hrec := brkfsDirentReclen_lt name.length
  have hlen := hargs.le
  have hmin : dirEntryMinLen = 12 := rfl
  have hspec : DirAdded g.usable (emptyDirBlock g.usable) 0 [⟨0, g.usable, 0, 0, []⟩] name ino ftype
      (brkfsDirAddInBlock (emptyDirBlock g.usable) g.usable ino name ftype) := by
    rw [brkfsDirAddInBlock, u16_of_lt (by omega)]
    refine dirAddInBlock_spec hargs hft (by omega) (emptyDirBlock_tail hg) (by omega) ?_
    intro o e hf _
    obtain ⟨-, rfl⟩ : o = 0 ∧ e = ⟨0, g.usable, 0, 0, []⟩ := by
      have hmem := mem_of_find?_eq_some hf
      simpa [RecordFormat.located] using hmem
    refine .inr (.inl ?_)
    show brkfsDirentReclen name.length + dirEntryMinLen ≤ g.usable
    omega
  generalize brkfsDirAddInBlock (emptyDirBlock g.usable) g.usable ino name ftype = res at hspec ⊢
  match res, hspec with
  | some (.ok buf), ⟨es, htail, hperm, _⟩ => exact ⟨buf, es, rfl, htail, hperm⟩
  | some (.error err), ⟨_, hnot⟩ =>
    have hfit := hnot _ mem_cons_self
    rw [dirFits, if_pos rfl, decide_eq_false_iff_not] at hfit
    exact absurd (show brkfsDirentReclen name.length ≤ g.usable by omega) hfit

/-! ### The operations -/

section

variable (h : DirOk g v nd blocks)

include h

theorem DirOk.nblocks : nd.size / v.sb.sBlocksize = blocks.length := by
  rw [h.ok.bs, h.size, Nat.mul_div_cancel _ h.ok.layout.bs_pos]

theorem DirOk.size_eq_zero : nd.size = 0 ↔ blocks = [] := by
  rw [h.size, Nat.mul_eq_zero, length_eq_zero_iff, or_iff_left h.ok.layout.bs_pos.ne']

theorem DirOk.nblocks_ceil : divCeil nd.size v.sb.sBlocksize = blocks.length := by
  have hbs := h.ok.layout.bs_pos
  rw [h.ok.bs, h.size, divCeil, Nat.add_sub_assoc hbs, mul_comm, Nat.mul_add_div hbs,
    Nat.div_eq_of_lt (by omega), add_zero]

theorem DirOk.blockOk_zero :
    ∀ k q, blocks[k]? = some q → DirBlockOk g v nd (0 + k) q := fun k q hq => by
  rw [zero_add]
  exact h.blockOk k q hq

/-- `brkfs_dir_lookup` searches the names of the directory. -/
theorem brkfsDirLookup_eq (name : List UInt8) : brkfsDirLookup v nd name =
      lookupResult (((dirPairs blocks).find? fun p => p.1 = name).map Prod.snd) := by
  have hdir : (!sIsDir nd.mode) = false := by rw [h.isDir]; rfl
  simp only [brkfsDirLookup, hdir, Bool.false_eq_true, if_false, kmalloc_eq h.ok, h.nblocks_ceil]
  exact dirLookupBlocks_eq h.ok h.clean h.blockOk_zero name

/-- `brkfs_dir_remove` deletes a name of the directory. -/
theorem brkfsDirRemove_spec (hmem : name ∈ (dirPairs blocks).map Prod.fst) :
    ∃ v' blocks' x, brkfsDirRemove v nd name = some (.ok (), nd, v') ∧ DirOk g v' nd blocks' ∧
      blocks'.length = blocks.length ∧ (dirPairs blocks).Perm ((name, x) :: dirPairs blocks') := by
  rcases dirRemoveBlocks_cases h.ok h.clean h.blockOk_zero name (.error .enoent) with
    ⟨habs, -⟩ | ⟨pre, b, es, post, es', x, buf, rfl, hrun, htail, hperm⟩
  · exact absurd hmem habs
  refine ⟨_, pre ++ (b, es') :: post, x, ?_, h.replace htail, by simp,
    dirPairs_insert pre post b hperm⟩
  rw [← hrun, ← h.nblocks_ceil, brkfsDirRemove, kmalloc_eq h.ok]

/-- `brkfs_dir_remove` of a name that the directory does not have. -/
theorem brkfsDirRemove_absent (habs : name ∉ (dirPairs blocks).map Prod.fst) :
    brkfsDirRemove v nd name = some (if blocks = [] then .error .enoent else .ok (), nd, v) := by
  simp only [brkfsDirRemove, kmalloc_eq h.ok, h.nblocks_ceil]
  rcases dirRemoveBlocks_cases h.ok h.clean h.blockOk_zero name (.error .enoent) with
    ⟨-, hrun⟩ | ⟨pre, b, es, post, es', x, buf, rfl, -, -, hperm⟩
  · exact hrun
  · have hkeys := (dirPairs_insert pre post b hperm).map Prod.fst
    exact absurd (hkeys.mem_iff.2 mem_cons_self) habs

/-- The end of `brkfs_dir_add`. -/
theorem dirAddNewBlock_spec (hargs : DirArgs name ino) (hft : ftype < 2 ^ 8) :
    (∃ nd' v' c es, dirAddNewBlock v nd blocks.length ino name ftype = some (.ok (), nd', v') ∧
      DirOk g v' nd' (blocks ++ [(c, es)]) ∧ (dirLive es).Perm [(name, ino, ftype)]) ∨
    ∃ nd' v', dirAddNewBlock v nd blocks.length ino name ftype = some (.error .enospc, nd', v') ∧
      Full g v' := by
  have hg := h.ok.layout
  have hmod : nd.size % g.blocksize = 0 := by rw [h.size, Nat.mul_mod_left]
  have hdiv : blocks.length * g.blocksize / g.blocksize = blocks.length :=
    Nat.mul_div_cancel _ hg.bs_pos
  obtain ⟨res, nd1, v1, hrun, hgrow, hout⟩ :=
    brkfsInodeGetblk_create h.ok h.owned (blocks.length * g.blocksize)
  rw [hdiv] at hout
  have hu : g.blocksize - dirCsumSize = g.usable := rfl
  simp only [dirAddNewBlock, brkfsDirGetBlock, h.ok.bs, hmod, ne_eq, not_true_eq_false, if_false,
    hrun, hu]
  cases res with
  | error e =>
    right
    obtain ⟨⟨rfl, hfull | hpos⟩ | ⟨-, hclean⟩, -⟩ := hout
    · exact ⟨nd1, v1, rfl, hfull⟩
    · have hsome := h.blkPos_isSome
      rw [hpos] at hsome
      cases hsome
    · exact absurd h.clean hclean
  | ok c =>
    left
    obtain ⟨buf, es, hadd, htail, hperm⟩ := brkfsDirAddInBlock_empty hg hargs hft
    have hok1 := hgrow.writes.ok h.ok
    simp only [hadd, brkfsDirWriteBlock_eq hok1 (hg.isData_lt hout.1)]
    exact ⟨_, _, c, es, rfl, h.append hgrow hout htail, hperm⟩

/-- `brkfs_dir_add` inserts the name, unless all data blocks are in use. -/
theorem brkfsDirAdd_spec (hpos : 0 < blocks.length) (hargs : DirArgs name ino) {mode : Nat}
    (hmode : brkfsModeToDt mode ≠ dtUnknown) (hkept : FirstKept g.usable name (dirLocated blocks)) :
    (∃ nd' v' blocks', brkfsDirAdd v nd ino name mode = some (.ok (), nd', v') ∧
      DirOk g v' nd' blocks' ∧ 0 < blocks'.length ∧
      (dirPairs blocks').Perm ((name, ino, brkfsModeToDt mode) :: dirPairs blocks)) ∨
    ∃ nd' v', brkfsDirAdd v nd ino name mode = some (.error .enospc, nd', v') ∧ Full g v' := by
  have hft : brkfsModeToDt mode < 2 ^ 8 := by
    unfold brkfsModeToDt dtUnknown
    split_ifs <;> decide
  have hsize : 0 < nd.size := by
    rw [h.size]
    exact mul_pos hpos h.ok.layout.bs_pos
  have hens : brkfsDirEnsureFirstBlock v nd = (.ok (), nd, v) := by
    rw [brkfsDirEnsureFirstBlock, if_pos hsize]
  simp only [brkfsDirAdd, if_neg hmode, hens, kmalloc_eq h.ok, h.nblocks]
  rcases dirAddBlocks_spec h.ok h.clean h.blockOk_zero hargs hft hkept with hrun |
    ⟨pre, b, es, post, es', buf, rfl, hrun, htail, hperm⟩
  · simp only [hrun]
    rcases dirAddNewBlock_spec h hargs hft with ⟨nd', v', c, es, hnew, hok, hperm⟩ |
      ⟨nd', v', hnew, hfull⟩
    · refine .inl ⟨nd', v', _, hnew, hok, by simp, ?_⟩
      have hpairs : dirPairs (blocks ++ [(c, es)]) = dirPairs blocks ++ dirLive es := by
        simp [dirPairs]
      rw [hpairs]
      exact (hperm.append_left _).trans perm_append_comm
    · exact .inr ⟨nd', v', hnew, hfull⟩
  · simp only [hrun]
    exact .inl ⟨nd, _, _, rfl, h.replace htail, by simp, dirPairs_insert pre post b hperm⟩

end

end Directory

end BrkKernel.Brkfs
