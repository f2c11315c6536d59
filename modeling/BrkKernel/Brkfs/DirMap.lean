import BrkKernel.Brkfs.DirBlocks
import BrkKernel.Lib.Actors

/-!
# Directories as finite maps

A directory that was just created stands for a finite map from names to inode numbers and file
types, and additions and removals act on it as on the map (`dirMap_run`), as long as no addition
cuts an unused entry short. Where one does, the entries behind it are lost:
`dirMap_hole_reuse` is a run of three additions and one removal after which the lookup of a name
that is in the directory fails with `-EIO`. A name is stored as it is exactly if it has at most 255
bytes (`dirAdd_name_iff`).
-/

set_option autoImplicit false

namespace BrkKernel.Brkfs

open Lib Lib.ByteMem Function

/-! ## Runs -/

/-- A directory on its volume. -/
structure DirState where
  vol : Vol
  dir : FsInode

/-- Names with inode number and file type. -/
abbrev NameMap := List UInt8 → Option (Nat × Nat)

/-- The entries that a walk of the block from offset `o` on can see, with their offsets. -/
def dirEntries (u : Nat) (buf : ByteMem) : Nat → Nat → List (Nat × DirEntry)
  | 0, _ => []
  | fuel + 1, o =>
    if u < o + dirEntryMinLen then []
    else if (dirEntry buf o).entryLen < dirEntryMinLen ∨ u < o + (dirEntry buf o).entryLen then []
    else (o, dirEntry buf o) :: dirEntries u buf fuel (o + (dirEntry buf o).entryLen)

/-- The entries in the next `left` blocks of a directory from block `i` on. -/
def DirState.entriesFrom (g : Geometry) (s : DirState) : Nat → Nat → List (Nat × DirEntry)
  | 0, _ => []
  | left + 1, i =>
    (match inodeWalk g s.vol.bd.data s.dir i with
      | some b => dirEntries g.usable (s.vol.block g b) g.usable 0
      | none => []) ++ s.entriesFrom g left (i + 1)

/-- The entries of a directory, block by block. -/
def DirState.entries (g : Geometry) (s : DirState) : List (Nat × DirEntry) :=
  s.entriesFrom g (s.dir.size / g.blocksize) 0

/-- The first entry with room for the name is in use, or adding the name there leaves nothing, an
unused entry, or the end of the block behind it. -/
def DirState.AddKept (g : Geometry) (s : DirState) (name : List UInt8) : Prop :=
  ∀ o e, (s.entries g).find? (fun q => dirFits (brkfsDirentReclen name.length) q.2) = some (o, e) →
    DirKept g.usable (brkfsDirentReclen name.length) o e

/-- The state after a call; `none` when the call does not return. -/
def DirState.after (r : Option (Except Errno Unit × FsInode × Vol)) : Option DirState :=
  r.map fun p => ⟨p.2.2, p.2.1⟩

/-- A directory that `brkfs_new_dir_body` or `brkfs_dir_ensure_first_block` made from a fresh inode,
with the map it stands for. -/
inductive DirInit (g : Geometry) : DirState → NameMap → Prop
  | body {v v' : Vol} {nd nd' : FsInode} {parentIno : Nat} (hok : v.Ok g)
      (hfresh : ∀ s < nrBlockPtrs, nd.iBlock s = 0) (hsize : nd.size = 0)
      (hino : nd.ino ≠ 0 ∧ nd.ino < 2 ^ 32) (hparent : parentIno ≠ 0 ∧ parentIno < 2 ^ 32)
      (hrun : brkfsNewDirBody v nd parentIno = (.ok (), nd', v')) :
      DirInit g ⟨v', nd'⟩
        (update (update (fun _ => none) [0x2e, 0x2e] (some (parentIno, 4)))
          [0x2e] (some (nd.ino, 4)))
  | first {v v' : Vol} {nd nd' : FsInode} (hok : v.Ok g)
      (hfresh : ∀ s < nrBlockPtrs, nd.iBlock s = 0) (hsize : nd.size = 0)
      (hdir : sIsDir nd.mode = true)
      (hrun : brkfsDirEnsureFirstBlock v nd = (.ok (), nd', v')) :
      DirInit g ⟨v', nd'⟩ fun _ => none

/-- One call of `brkfs_dir_add` with a name that is not in the directory, or of `brkfs_dir_remove`
with one that is. `C` restricts the additions. No call runs into a full volume. -/
inductive DirStep (g : Geometry) (C : DirState → List UInt8 → Prop) :
    Option DirState × NameMap → Option DirState × NameMap → Prop
  | add {s : DirState} {m : NameMap} {name : List UInt8} {ino mode : Nat}
      (hargs : DirArgs name ino) (hnew : m name = none) (hC : C s name)
      (hspace : ∀ nd v, brkfsDirAdd s.vol s.dir ino name mode = some (.error .enospc, nd, v) →
        ¬ Full g v) :
      DirStep g C (some s, m)
        (DirState.after (brkfsDirAdd s.vol s.dir ino name mode),
          if brkfsModeToDt mode = dtUnknown then m
          else update m name (some (ino, brkfsModeToDt mode)))
  | remove {s : DirState} {m : NameMap} {name : List UInt8} (hold : m name ≠ none) :
      DirStep g C (some s, m)
        (DirState.after (brkfsDirRemove s.vol s.dir name), update m name none)

/-! ## The invariant -/

/-- The directory has well-formed blocks whose names are the map. -/
def DirInv (g : Geometry) (v : Vol) (nd : FsInode) (m : NameMap) : Prop :=
  ∃ blocks, DirOk g v nd blocks ∧ 0 < blocks.length ∧ Represents (dirPairs blocks) m

section Invariant

variable {g : Geometry} {v v' : Vol} {nd nd' : FsInode} {m : NameMap} {b ino : Nat}
  {name : List UInt8} {blocks : List (Nat × List DirEntry)} {buf : ByteMem} {es : List DirEntry}
  {s : DirState}

theorem dirEntries_eq {u o fuel : Nat} (h : DirTail u buf o es) (hfuel : u - o ≤ fuel) :
    dirEntries u buf fuel o = dirFormat.located o es := by
  induction es generalizing o fuel with
  | nil =>
    obtain ⟨h1, h2⟩ := dirTail_nil.1 h
    cases fuel with
    | zero => rfl
    | succ fuel =>
      rw [dirEntries, if_pos h2]
      rfl
  | cons e es ih =>
    obtain ⟨hread, hok, hrest, hle, hpos, hmin⟩ := h.head
    obtain ⟨fuel, rfl⟩ : ∃ f, fuel = f + 1 := ⟨fuel - 1, by omega⟩
    rw [dirEntries, hread, if_neg (by omega), if_neg (by omega), ih hrest (by omega)]
    rfl

theorem entriesFrom_eq {suf : List (Nat × List DirEntry)} {i : Nat}
    (hall : ∀ k q, suf[k]? = some q → DirBlockOk g s.vol s.dir (i + k) q) :
    s.entriesFrom g suf.length i = dirLocated suf := by
  induction suf generalizing i with
  | nil => rfl
  | cons p suf ih =>
    obtain ⟨hp, hrest⟩ := blockOk_cons hall
    rw [List.length_cons, DirState.entriesFrom, hp.walk, ih hrest, dirLocated_cons]
    simp only [dirEntries_eq hp.tail (Nat.sub_zero g.usable).le]

theorem DirOk.entries_eq (h : DirOk g s.vol s.dir blocks) : s.entries g = dirLocated blocks := by
  have hn := h.nblocks
  rw [h.ok.bs] at hn
  rw [DirState.entries, hn]
  exact entriesFrom_eq h.blockOk_zero

/-- A fresh inode is a directory without blocks. -/
theorem DirOk.fresh (h : v.Ok g) (hfresh : ∀ s < nrBlockPtrs, nd.iBlock s = 0)
    (hsize : nd.size = 0) (hdir : sIsDir nd.mode = true) : DirOk g v nd [] := by
  obtain ⟨hown, hclean, -⟩ := inode_fresh h.layout hfresh
  refine ⟨h, hown, hclean, hdir, ?_, ?_⟩
  · rw [hsize, List.length_nil, zero_mul]
  · intro i p hp
    cases hp

/-- The first block of a directory. -/
theorem DirOk.first (h : DirOk g v nd []) (hz : nd.iBlock 0 = 0) (hstep : AllocStep g v v' b)
    (htail : DirTail g.usable buf 0 es) :
    DirOk g (v'.putDirBlock g b buf) { nd.setBlock 0 b with size := g.blocksize } [(b, es)] := by
  obtain ⟨hgrow, hout⟩ :=
    InodeGrow.of_alloc h.ok.layout h.owned hstep (by decide : 0 < directBlocks) hz
  have happ := h.append hgrow hout htail
  rwa [List.length_nil, zero_add, one_mul] at happ

theorem dot_reclens : dirEntryMinLen = 12 ∧ brkfsDirentReclen 1 = 12 ∧ brkfsDirentReclen 2 = 12 :=
  ⟨rfl, rfl, rfl⟩

theorem newDirBlock_tail {self parent : Nat} (hg : g.LayoutOk) (hself : self ≠ 0 ∧ self < 2 ^ 32)
    (hparent : parent ≠ 0 ∧ parent < 2 ^ 32) :
    DirTail g.usable (newDirBlock self parent g.usable) 0
      [⟨self, 12, 1, 4, [0x2e]⟩, ⟨parent, 12, 2, 4, [0x2e, 0x2e]⟩,
        ⟨0, g.usable - 24, 0, 0, []⟩] := by
  have hu := hg.usable_bounds
  obtain ⟨hmin, hr1, hr2⟩ := dot_reclens
  unfold newDirBlock
  have h1 := dirEntry_set (fun _ => 0) 0 12 hself.2 (by decide)
    (by decide : [(0x2e : UInt8)].length < 2 ^ 8) (by decide : 4 < 2 ^ 8)
  have h2 := dirEntry_set (setDirName (setDirEntry (fun _ => 0) 0 self 12 1 4) 0 [0x2e]) 12 12
    hparent.2 (by decide) (by decide : [(0x2e : UInt8), 0x2e].length < 2 ^ 8)
    (by decide : 4 < 2 ^ 8)
  refine DirTail.cons_congr h1 ⟨Nat.le_refl 12, hr1.le, fun _ => Nat.one_pos⟩ ?_
    (DirTail.cons_congr h2 ⟨Nat.le_refl 12, hr2.le, fun _ => Nat.two_pos⟩ ?_
      (dirTail_hole _ (by omega) ?_ (by omega)))
  · intro i hi
    have hi' : i < 12 := hi
    rw [setDirEntry_of_disjoint (by omega), setDirName_of_disjoint (by omega),
      setDirEntry_of_disjoint (by omega)]
    rfl
  · intro i hi
    have hi' : i < 24 := hi
    rw [setDirEntry_of_disjoint (by omega)]
    rfl
  · omega

/-- `brkfs_dir_ensure_first_block` on a fresh directory. -/
theorem brkfsDirEnsureFirstBlock_spec (h : DirOk g v nd []) (hz : nd.iBlock 0 = 0) :
    (∃ b v', brkfsDirEnsureFirstBlock v nd =
        (.ok (), { nd.setBlock 0 b with size := g.blocksize }, v') ∧
      DirOk g v' { nd.setBlock 0 b with size := g.blocksize } [(b, [⟨0, g.usable, 0, 0, []⟩])]) ∨
    Full g v ∧ brkfsDirEnsureFirstBlock v nd = (.error .enospc, nd, v) := by
  have hg := h.ok.layout
  have hsize : ¬ 0 < nd.size := by
    rw [h.size, List.length_nil, zero_mul]
    exact lt_irrefl 0
  simp only [brkfsDirEnsureFirstBlock, if_neg hsize, kmalloc_eq h.ok]
  rcases brkfsDataAlloc_spec h.ok with ⟨b, v1, hstep, hrun⟩ | ⟨hfull, hrun⟩
  · left
    have hok1 := hstep.frame.ok h.ok
    have hu : g.blocksize - dirCsumSize = g.usable := rfl
    simp only [hrun, hok1.bs, hu, brkfsDirWriteBlock_eq hok1 (hg.isData_lt hstep.isData)]
    exact ⟨b, _, rfl, h.first hz hstep (emptyDirBlock_tail hg)⟩
  · right
    simp only [hrun]
    exact ⟨hfull, trivial⟩

/-- `brkfs_new_dir_body` on a fresh directory. -/
theorem brkfsNewDirBody_spec {parent : Nat} (h : DirOk g v nd []) (hz : nd.iBlock 0 = 0)
    (hino : nd.ino ≠ 0 ∧ nd.ino < 2 ^ 32) (hparent : parent ≠ 0 ∧ parent < 2 ^ 32) :
    (∃ b v', brkfsNewDirBody v nd parent =
        (.ok (), { nd.setBlock 0 b with size := g.blocksize }, v') ∧
      DirOk g v' { nd.setBlock 0 b with size := g.blocksize }
        [(b, [⟨nd.ino, 12, 1, 4, [0x2e]⟩, ⟨parent, 12, 2, 4, [0x2e, 0x2e]⟩,
          ⟨0, g.usable - 24, 0, 0, []⟩])]) ∨
    Full g v ∧ brkfsNewDirBody v nd parent = (.error .enospc, nd, v) := by
  have hg := h.ok.layout
  have hu := hg.usable_bounds
  obtain ⟨hmin, hr1, hr2⟩ := dot_reclens
  have hdir : (!sIsDir nd.mode) = false := by rw [h.isDir]; rfl
  have hsize : ¬ nd.size ≠ 0 := by
    rw [h.size, List.length_nil, zero_mul]
    exact fun hc => hc rfl
  have hus : g.blocksize - dirCsumSize = g.usable := rfl
  have hroom : ¬ g.usable < brkfsDirentReclen 1 + brkfsDirentReclen 2 + dirEntryMinLen := by omega
  simp only [brkfsNewDirBody, hdir, Bool.false_eq_true, if_false, if_neg hsize, kmalloc_eq h.ok,
    h.ok.bs, hus, if_neg hroom, u32_of_lt hino.2]
  rcases brkfsDataAlloc_spec h.ok with ⟨b, v1, hstep, hrun⟩ | ⟨hfull, hrun⟩
  · left
    have hok1 := hstep.frame.ok h.ok
    simp only [hrun, brkfsDirWriteBlock_eq hok1 (hg.isData_lt hstep.isData)]
    exact ⟨b, _, rfl, h.first hz hstep (newDirBlock_tail hg hino hparent)⟩
  · right
    simp only [hrun]
    exact ⟨hfull, trivial⟩

/-- A new directory stands for its initial map. -/
theorem DirInit.inv (h : DirInit g s m) : DirInv g s.vol s.dir m := by
  have hz : ∀ nd : FsInode, (∀ s < nrBlockPtrs, nd.iBlock s = 0) → nd.iBlock 0 = 0 := fun nd hf =>
    hf 0 (by decide)
  cases h with
  | @body v v' nd nd' parent hok hfresh hsize hino hparent hrun =>
    have hdir : sIsDir nd.mode = true := by
      by_contra hc
      rw [Bool.not_eq_true] at hc
      simp [brkfsNewDirBody, hc] at hrun
    rcases brkfsNewDirBody_spec (DirOk.fresh hok hfresh hsize hdir) (hz nd hfresh) hino
        hparent with
      ⟨b, v1, hrun', hd⟩ | ⟨-, hrun'⟩
    · rw [hrun'] at hrun
      obtain ⟨rfl, rfl⟩ := hrun
      refine ⟨_, hd, Nat.one_pos, ?_⟩
      have hpairs : dirPairs [(b, [⟨nd.ino, 12, 1, 4, [0x2e]⟩, ⟨parent, 12, 2, 4, [0x2e, 0x2e]⟩,
          ⟨0, g.usable - 24, 0, 0, []⟩])] = [([0x2e], nd.ino, 4), ([0x2e, 0x2e], parent, 4)] := by
        simp [dirPairs, dirLive, hino.1, hparent.1]
      rw [hpairs]
      refine (Represents.nil.insert rfl).insert ?_
      rw [update_of_ne (by decide)]
    · rw [hrun'] at hrun
      cases hrun
  | @first v v' nd nd' hok hfresh hsize hdir hrun =>
    rcases brkfsDirEnsureFirstBlock_spec (DirOk.fresh hok hfresh hsize hdir) (hz nd hfresh) with
      ⟨b, v1, hrun', hd⟩ | ⟨-, hrun'⟩
    · rw [hrun'] at hrun
      obtain ⟨rfl, rfl⟩ := hrun
      exact ⟨_, hd, Nat.one_pos, Represents.nil⟩
    · rw [hrun'] at hrun
      cases hrun

/-- Additions and removals act on the directory as on the map. -/
theorem DirInv.step {st : Option DirState} {m' : NameMap}
    (h : DirInv g s.vol s.dir m) (hstep : DirStep g (DirState.AddKept g) (some s, m) (st, m')) :
    ∃ s', st = some s' ∧ DirInv g s'.vol s'.dir m' := by
  obtain ⟨blocks, hok, hpos, hrep⟩ := h
  cases hstep with
  | @add _ _ name ino mode hargs hnew hC hspace =>
    by_cases hmode : brkfsModeToDt mode = dtUnknown
    · rw [if_pos hmode]
      refine ⟨s, ?_, blocks, hok, hpos, hrep⟩
      simp only [brkfsDirAdd, hmode, if_true]
      rfl
    rw [if_neg hmode]
    have hkept : FirstKept g.usable name (dirLocated blocks) := by
      rw [← hok.entries_eq]
      exact hC
    rcases brkfsDirAdd_spec hok hpos hargs hmode hkept with
      ⟨nd', v', blocks', hrun, hok', hpos', hperm⟩ | ⟨nd', v', hrun, hfull⟩
    · rw [hrun]
      exact ⟨⟨v', nd'⟩, rfl, blocks', hok', hpos', (hrep.insert hnew).perm hperm⟩
    · exact absurd hfull (hspace nd' v' hrun)
  | @remove _ _ name hold =>
    obtain ⟨v', blocks', x, hrun, hok', hlen, hperm⟩ :=
      brkfsDirRemove_spec hok (hrep.key_mem_iff.2 hold)
    rw [hrun]
    exact ⟨⟨v', s.dir⟩, rfl, blocks', hok', by omega, (hrep.perm hperm.symm).erase⟩

/-- An addition that succeeds, as a step of a run. -/
theorem DirStep.of_add {C : DirState → List UInt8 → Prop} {mode : Nat} (hargs : DirArgs name ino)
    (hnew : m name = none) (hC : C ⟨v, nd⟩ name)
    (hadd : brkfsDirAdd v nd ino name mode = some (.ok (), nd', v')) :
    DirStep g C (some ⟨v, nd⟩, m)
      (some ⟨v', nd'⟩, update m name (some (ino, brkfsModeToDt mode))) := by
  have hmode : brkfsModeToDt mode ≠ dtUnknown := by
    intro hmode
    simp [brkfsDirAdd, hmode] at hadd
  have hspace : ∀ nd₁ v₁, brkfsDirAdd v nd ino name mode = some (.error .enospc, nd₁, v₁) →
      ¬ Full g v₁ := by
    intro nd₁ v₁ herr
    rw [hadd] at herr
    cases herr
  have hstep := DirStep.add (C := C) (s := ⟨v, nd⟩) hargs hnew hC hspace
  rw [if_neg hmode, hadd] at hstep
  exact hstep

theorem DirInv.add {mode : Nat} (h : DirInv g v nd m) (hargs : DirArgs name ino)
    (hnew : m name = none) (hkept : DirState.AddKept g ⟨v, nd⟩ name)
    (hadd : brkfsDirAdd v nd ino name mode = some (.ok (), nd', v')) :
    DirInv g v' nd' (update m name (some (ino, brkfsModeToDt mode))) := by
  obtain ⟨s', hs', hinv⟩ := DirInv.step h (.of_add hargs hnew hkept hadd)
  obtain rfl := Option.some.inj hs'
  exact hinv

end Invariant

/-! ## Directories of one block -/

/-- A directory with one block, whatever its entries. -/
structure DirSingle (g : Geometry) (v : Vol) (nd : FsInode) (b : Nat) : Prop where
  ok : v.Ok g
  owned : InodeOwned g v nd
  clean : InodeClean g v.bd.data nd
  isDir : sIsDir nd.mode = true
  size : nd.size = g.blocksize
  walk : inodeWalk g v.bd.data nd 0 = some b
  csum : brkfsDirChecksumOk (v.block g b) g.blocksize = true

section Single

variable {g : Geometry} {v : Vol} {nd : FsInode} {b ino mode : Nat} {name : List UInt8}
  {buf : ByteMem} {C : DirState → List UInt8 → Prop} {m : NameMap}

theorem DirOk.single {es : List DirEntry} (h : DirOk g v nd [(b, es)]) : DirSingle g v nd b :=
  ⟨h.ok, h.owned, h.clean, h.isDir, by rw [h.size]; exact one_mul _,
    (h.blockOk 0 _ rfl).walk, (h.blockOk 0 _ rfl).csum⟩

namespace DirSingle

section

variable (h : DirSingle g v nd b)

include h

theorem put (buf : ByteMem) : DirSingle g (v.putDirBlock g b buf) nd b := by
  obtain ⟨hok, hown, hclean, hwalk⟩ := putDirBlock_inode h.ok h.owned h.walk buf
  exact ⟨hok, hown, hclean h.clean, h.isDir, h.size, (hwalk 0).trans h.walk,
    checksumOk_putDirBlock h.ok.layout v b buf⟩

theorem nblocks : nd.size / v.sb.sBlocksize = 1 ∧ divCeil nd.size v.sb.sBlocksize = 1 := by
  have hbs := h.ok.layout.bs_pos
  rw [h.ok.bs, h.size, divCeil]
  refine ⟨Nat.div_self hbs, ?_⟩
  rw [Nat.div_eq_of_lt_le] <;> omega

/-- `brkfs_dir_add` when the block has room. -/
theorem add (hmode : brkfsModeToDt mode ≠ dtUnknown)
    (hadd : brkfsDirAddInBlock (v.block g b) g.usable ino name (brkfsModeToDt mode) =
      some (.ok buf)) :
    brkfsDirAdd v nd ino name mode = some (.ok (), nd, v.putDirBlock g b buf) := by
  obtain ⟨hget, hne, hlt, hread, hu, -⟩ := dirBlock_step h.ok h.clean h.walk h.csum
  have hsize : 0 < nd.size := by rw [h.size]; exact h.ok.layout.bs_pos
  simp only [brkfsDirAdd, if_neg hmode, brkfsDirEnsureFirstBlock, if_pos hsize, kmalloc_eq h.ok,
    h.nblocks.1, dirAddBlocks, hget, if_neg hne, hread, hu, hadd, brkfsDirWriteBlock_eq h.ok hlt]

/-- `brkfs_dir_remove` when the block has the name. -/
theorem remove (hrem : brkfsDirRemoveInBlock (v.block g b) g.usable name = some (.ok buf)) :
    brkfsDirRemove v nd name = some (.ok (), nd, v.putDirBlock g b buf) := by
  obtain ⟨hget, hne, hlt, hread, hu, -⟩ := dirBlock_step h.ok h.clean h.walk h.csum
  simp only [brkfsDirRemove, kmalloc_eq h.ok, h.nblocks.2, dirRemoveBlocks, hget, if_neg hne, hread,
    hu, hrem, brkfsDirWriteBlock_eq h.ok hlt]

/-- A removal from the block as a step of a run. -/
theorem remove_step (hold : m name ≠ none)
    (hrem : brkfsDirRemoveInBlock (v.block g b) g.usable name = some (.ok buf)) :
    DirStep g C (some ⟨v, nd⟩, m) (some ⟨v.putDirBlock g b buf, nd⟩, update m name none) := by
  have hstep := DirStep.remove (g := g) (C := C) (s := ⟨v, nd⟩) hold
  rw [h.remove hrem] at hstep
  exact hstep

/-- `brkfs_dir_lookup` walks the one block. -/
theorem lookup_eq {r : Except Errno (Option (Nat × Nat))}
    (hlook : dirLookupInBlock (v.block g b) name g.usable g.usable 0 = r) :
    brkfsDirLookup v nd name = r.bind lookupResult := by
  obtain ⟨hget, hne, -, hread, hu, -⟩ := dirBlock_step h.ok h.clean h.walk h.csum
  have hdir : (!sIsDir nd.mode) = false := by rw [h.isDir]; rfl
  simp only [brkfsDirLookup, hdir, Bool.false_eq_true, if_false, kmalloc_eq h.ok, h.nblocks.2,
    dirLookupBlocks, hget, if_neg hne, hread, hu, hlook]
  rcases r with e | _ | r <;> rfl

end

end DirSingle

end Single

/-- The directory on the tiny volume after its first block was made. -/
theorem tinyDir_first : ∃ b v nd, DirInit tinySuper.geom ⟨v, nd⟩ (fun _ => none) ∧
    DirOk tinySuper.geom v nd [(b, [⟨0, 1020, 0, 0, []⟩])] := by
  have hfresh : DirOk tinySuper.geom tinyVol (emptyInode 1 0o040755) [] :=
    DirOk.fresh tinyVol_ok (fun _ _ => rfl) rfl rfl
  rcases brkfsDirEnsureFirstBlock_spec hfresh rfl with ⟨b, v, hrun, hok⟩ | ⟨hfull, -⟩
  · exact ⟨b, v, _, DirInit.first tinyVol_ok (fun _ _ => rfl) rfl rfl hrun, hok⟩
  · have hbit := hfull 5 (by decide)
    simp [dataBit, bitAt, tinyVol] at hbit

/-- The name `aaaaaaaaa`. -/
def nameA : List UInt8 := List.replicate 9 0x61

/-- `X` with a first entry for `aaaaaaaaa` and an unused one behind it. -/
def withA (X : ByteMem) : ByteMem :=
  setDirEntry (setDirName (setDirEntry X 0 1 20 9 8) 0 nameA) 20 0 1000 0 0

theorem add_nameA {X : ByteMem} (hread : dirEntry X 0 = ⟨0, 1020, 0, 0, []⟩) :
    brkfsDirAddInBlock X 1020 1 nameA 8 = some (.ok (withA X)) := by
  show dirAddInBlock X 1 _ 8 1021 1020 0 = _
  rw [dirAddInBlock, hread]
  rfl

theorem addKept_nameA {v : Vol} {nd : FsInode} {b : Nat}
    (hok : DirOk tinySuper.geom v nd [(b, [⟨0, 1020, 0, 0, []⟩])]) :
    DirState.AddKept tinySuper.geom ⟨v, nd⟩ nameA := by
  intro o e hf
  rw [DirOk.entries_eq (s := ⟨v, nd⟩) hok] at hf
  obtain ⟨-, rfl⟩ := Prod.mk.inj (Option.some.inj hf)
  exact fun _ => Or.inr (Or.inl (by decide))

/-- `X` with its first entry unused. -/
def withoutA (X : ByteMem) : ByteMem := store 4 X 0 0

theorem remove_nameA {X : ByteMem} (hread : dirEntry X 0 = ⟨1, 20, 9, 8, nameA⟩)
    (hname : slice X (0 + 8) 9 = nameA) :
    brkfsDirRemoveInBlock X 1020 nameA = some (.ok (withoutA X)) := by
  show dirRemoveInBlock X nameA 1021 1020 0 none = _
  rw [dirRemoveInBlock, hread, if_neg (by decide), if_pos ⟨by decide, rfl, hname⟩]
  rfl

/-! ## The run theorem -/

/-- A directory is a finite map: from its creation on, after any additions and removals that do not
cut an unused entry short, every call returned and a lookup yields what was last added under the
name, or `-ENOENT` if it was removed or never there. -/
theorem dirMap_run {g : Geometry} {s₀ : DirState} {m₀ m : NameMap} {st : Option DirState}
    (hinit : DirInit g s₀ m₀) (hrun : Run (DirStep g (DirState.AddKept g)) (some s₀, m₀) (st, m)) :
    ∃ s, st = some s ∧ ∀ name, brkfsDirLookup s.vol s.dir name = lookupResult (m name) := by
  have hinv : ∃ s, st = some s ∧ DirInv g s.vol s.dir m := by
    refine Run.invariant (P := fun q : Option DirState × NameMap =>
      ∃ s, q.1 = some s ∧ DirInv g s.vol s.dir q.2) ?_ hrun ⟨s₀, rfl, hinit.inv⟩
    rintro ⟨st, m⟩ ⟨st', m'⟩ hstep ⟨s, rfl, hinv⟩
    exact hinv.step hstep
  obtain ⟨s, rfl, blocks, hok, -, hrep⟩ := hinv
  refine ⟨s, rfl, fun name => ?_⟩
  rw [brkfsDirLookup_eq hok name, hrep.find name]

/-- A file is created in a new directory and found there, and not found once it is removed. -/
theorem dirMap_run_tiny : ∃ s₀ s s' m m', DirInit tinySuper.geom s₀ (fun _ => none) ∧
    Run (DirStep tinySuper.geom (DirState.AddKept tinySuper.geom)) (some s₀, fun _ => none)
      (some s, m) ∧ brkfsDirLookup s.vol s.dir nameA = .ok (1, 8) ∧
    Run (DirStep tinySuper.geom (DirState.AddKept tinySuper.geom)) (some s₀, fun _ => none)
      (some s', m') ∧ brkfsDirLookup s'.vol s'.dir nameA = .error .enoent := by
  obtain ⟨b, v0, nd, hinit, hok⟩ := tinyDir_first
  have hread : dirEntry (v0.block tinySuper.geom b) 0 = ⟨0, 1020, 0, 0, []⟩ :=
    (dirTail_cons.1 (hok.blockOk 0 _ rfl).tail).1
  have h0 := hok.single
  have s1 := DirStep.of_add (g := tinySuper.geom) (m := fun _ => none)
    (by constructor <;> decide) rfl (addKept_nameA hok)
    (h0.add (by decide : brkfsModeToDt 0o100644 ≠ dtUnknown) (add_nameA hread))
  have hY := block_putDirBlock tinySuper.geom v0 b (withA (v0.block tinySuper.geom b))
  have s2 := (h0.put _).remove_step (C := DirState.AddKept tinySuper.geom)
    (m := update (fun _ => none) nameA (some (1, 8))) (by decide)
    (remove_nameA (by rw [hY]; rfl) (by rw [hY]; rfl))
  have hrun := Relation.ReflTransGen.single s1
  obtain ⟨s, hs, hlook⟩ := dirMap_run hinit hrun
  obtain ⟨s', hs', hlook'⟩ := dirMap_run hinit (hrun.tail s2)
  cases hs
  cases hs'
  exact ⟨_, _, _, _, _, hinit, hrun, hlook nameA, hrun.tail s2, hlook' nameA⟩

/-! ## A run that cuts an unused entry short -/

/-- The name `ccccc`. -/
def nameC : List UInt8 := List.replicate 5 0x63

/-- A block that held `X` and was overwritten with `buf`. -/
def rewritten (X buf : ByteMem) : ByteMem := blit X 0 1024 (brkfsDirSetChecksum buf 1024)

/-- `X` with an entry for `b` behind the first one. -/
def withB (X : ByteMem) : ByteMem :=
  setDirEntry (setDirName (setDirEntry X 20 2 12 1 8) 20 [0x62]) 32 0 988 0 0

/-- `X` with an entry for `ccccc` in the place of the first one. -/
def withC (X : ByteMem) : ByteMem := setDirName (setDirEntry X 0 3 16 5 8) 0 nameC

section HoleReuse

variable {X Y : ByteMem}

section

variable (hY : Y = rewritten X (withA X))

include hY

theorem add_nameB : brkfsDirAddInBlock Y 1020 2 [0x62] 8 = some (.ok (withB Y)) := by
  have h0 : dirEntry Y 0 = ⟨1, 20, 9, 8, nameA⟩ := by rw [hY]; rfl
  have h20 : dirEntry Y (0 + 20) = ⟨0, 1000, 0, 0, []⟩ := by rw [hY]; rfl
  show dirAddInBlock Y 2 _ 8 1021 1020 0 = _
  rw [dirAddInBlock, h0, if_neg (by decide), if_neg (by decide), if_neg (by decide),
    if_neg (by decide), dirAddInBlock, h20]
  rfl

/-- Where the record of `ccccc` ends the walk finds the inode number of `b` in place of a length. -/
theorem lookup_nameB {Z W : ByteMem}
    (hZ : Z = rewritten Y (withB Y)) (hW : W = rewritten Z (withoutA Z)) :
    brkfsDirAddInBlock W 1020 3 nameC 8 = some (.ok (withC W)) ∧
    dirLookupInBlock (rewritten W (withC W)) [0x62] 1020 1020 0 = .error .eio := by
  have h0 : dirEntry W 0 = ⟨0, 20, 9, 8, nameA⟩ := by rw [hW, hZ, hY]; rfl
  have h0' : dirEntry (rewritten W (withC W)) 0 = ⟨3, 16, 5, 8, nameC⟩ := rfl
  have h16 : (dirEntry (rewritten W (withC W)) (0 + 16)).entryLen = 2 := by rw [hW, hZ, hY]; rfl
  constructor
  · show dirAddInBlock W 3 _ 8 1021 1020 0 = _
    rw [dirAddInBlock, h0]
    rfl
  · rw [dirLookupInBlock, h0', if_neg (by decide), if_neg (by decide),
      if_neg fun hc => absurd hc.2.1 (by decide), dirLookupInBlock]
    rw [if_neg (by decide), if_pos (Or.inl (by rw [h16]; decide))]

end

end HoleReuse

/-- The names `aaaaaaaaa` and `b` are added, `aaaaaaaaa` is removed and `ccccc` is added. The record
of `ccccc` is four bytes shorter than the unused entry it takes over, and `b` is lost. -/
theorem dirMap_hole_reuse : ∃ s₀ s m, DirInit tinySuper.geom s₀ (fun _ => none) ∧
    Run (DirStep tinySuper.geom fun _ _ => True) (some s₀, fun _ => none) (some s, m) ∧
    m [0x62] = some (2, 8) ∧ brkfsDirLookup s.vol s.dir [0x62] = .error .eio := by
  obtain ⟨b, v0, nd, hinit, hok⟩ := tinyDir_first
  have hmode : brkfsModeToDt 0o100644 ≠ dtUnknown := by decide
  have hread : dirEntry (v0.block tinySuper.geom b) 0 = ⟨0, 1020, 0, 0, []⟩ :=
    (dirTail_cons.1 (hok.blockOk 0 _ rfl).tail).1
  have h0 := hok.single
  -- each call, the directory after it and the contents of its block
  have s1 := DirStep.of_add (g := tinySuper.geom) (C := fun _ _ => True) (m := fun _ => none)
    (by constructor <;> decide) rfl trivial (h0.add hmode (add_nameA hread))
  have h1 := h0.put (withA (v0.block tinySuper.geom b))
  have hY := block_putDirBlock tinySuper.geom v0 b (withA (v0.block tinySuper.geom b))
  generalize v0.putDirBlock tinySuper.geom b (withA (v0.block tinySuper.geom b)) = v1 at s1 h1 hY
  have s2 := DirStep.of_add (g := tinySuper.geom) (C := fun _ _ => True)
    (m := update (fun _ => none) nameA (some (1, 8))) (by constructor <;> decide) rfl trivial
    (h1.add hmode (add_nameB hY))
  have h2 := h1.put (withB (v1.block tinySuper.geom b))
  have hZ := block_putDirBlock tinySuper.geom v1 b (withB (v1.block tinySuper.geom b))
  generalize v1.putDirBlock tinySuper.geom b (withB (v1.block tinySuper.geom b)) = v2 at s2 h2 hZ
  have s3 := h2.remove_step (C := fun _ _ => True) (m := update (update
    (fun _ => none) nameA (some (1, 8))) [0x62] (some (2, 8))) (by decide)
    (remove_nameA (by rw [hZ, hY]; rfl) (by rw [hZ, hY]; rfl))
  have h3 := h2.put (withoutA (v2.block tinySuper.geom b))
  have hW := block_putDirBlock tinySuper.geom v2 b (withoutA (v2.block tinySuper.geom b))
  generalize v2.putDirBlock tinySuper.geom b (withoutA (v2.block tinySuper.geom b)) = v3 at s3 h3 hW
  obtain ⟨hadd, hlook⟩ := lookup_nameB hY hZ hW
  have s4 := DirStep.of_add (g := tinySuper.geom) (C := fun _ _ => True) (m := update (update
    (update (fun _ => none) nameA (some (1, 8))) [0x62] (some (2, 8))) nameA none)
    (by constructor <;> decide) rfl trivial (h3.add hmode hadd)
  refine ⟨_, _, _, hinit, (((Relation.ReflTransGen.single s1).tail s2).tail s3).tail s4, rfl, ?_⟩
  refine (h3.put (withC (v3.block tinySuper.geom b))).lookup_eq (r := .error .eio) ?_
  rw [block_putDirBlock]
  exact hlook

/-! ## Names of more than 255 bytes -/

section LongNames

variable {name : List UInt8}

section

variable (hlong : 255 < name.length)

include hlong

/-- The length of a name is one byte of its entry. -/
theorem dirLookupInBlock_long (buf : ByteMem) (fuel left o : Nat)
    (r : Nat × Nat) : dirLookupInBlock buf name fuel left o ≠ .ok (some r) := by
  fun_induction dirLookupInBlock buf name fuel left o with
  | case1 => simp
  | case2 => simp
  | case3 => simp
  | case4 _ _ o _ _ _ hfound =>
    have hbyte := load_lt buf 1 (o + 6)
    have hlen : load 1 buf (o + 6) = name.length := hfound.2.1
    omega
  | case5 _ _ _ _ _ _ _ ih => exact ih

theorem dirLookupBlocks_long (left bi : Nat) (nd : FsInode) (v : Vol)
    (r : Nat × Nat) : dirLookupBlocks name left bi nd v ≠ .ok r := by
  fun_induction dirLookupBlocks name left bi nd v with
  | case1 | case2 | case4 | case5 => exact nofun
  | case3 _ _ _ _ _ _ _ ih => exact ih
  | case6 =>
    rename_i hfound
    exact absurd hfound (dirLookupInBlock_long hlong _ _ _ _ _)
  | case7 =>
    rename_i ih
    exact ih

theorem brkfsDirLookup_long (v : Vol) (nd : FsInode) (r : Nat × Nat) :
    brkfsDirLookup v nd name ≠ .ok r := by
  rw [brkfsDirLookup]
  split
  · simp
  · split
    · simp
    · exact dirLookupBlocks_long hlong _ _ _ _ r

end

/-- A file is created under a name that a directory does not have. Unless the new record cuts an
unused entry short, every lookup then finds what it should exactly if the name has at most 255
bytes. -/
theorem dirAdd_name_iff {g : Geometry} {s : DirState} {m : NameMap} {ino mode : Nat}
    {nd' : FsInode} {v' : Vol} (h : DirInv g s.vol s.dir m) (hpos : 0 < name.length)
    (hino : ino ≠ 0 ∧ ino < 2 ^ 32) (hnew : m name = none) (hkept : s.AddKept g name)
    (hadd : brkfsDirAdd s.vol s.dir ino name mode = some (.ok (), nd', v')) :
    (∀ other, brkfsDirLookup v' nd' other =
      lookupResult (update m name (some (ino, brkfsModeToDt mode)) other)) ↔ name.length ≤ 255 := by
  constructor
  · intro hall
    by_contra hlong
    have hname := hall name
    rw [update_self] at hname
    exact brkfsDirLookup_long (Nat.lt_of_not_le hlong) v' nd' _ hname
  · intro hle other
    obtain ⟨blocks, hok, -, hrep⟩ := h.add ⟨hpos, hle, hino.1, hino.2⟩ hnew hkept hadd
    rw [brkfsDirLookup_eq hok other, hrep.find other]

end LongNames

theorem dirAdd_name_iff_tiny : ∃ v nd nd' v',
    brkfsDirAdd v nd 1 nameA 0o100644 = some (.ok (), nd', v') ∧
    ∀ other, brkfsDirLookup v' nd' other =
      lookupResult (update (fun _ => none) nameA (some (1, 8)) other) := by
  obtain ⟨b, v, nd, hinit, hok⟩ := tinyDir_first
  have hread := (dirTail_cons.1 (hok.blockOk 0 _ rfl).tail).1
  have hadd := hok.single.add (by decide : brkfsModeToDt 0o100644 ≠ dtUnknown) (add_nameA hread)
  exact ⟨v, nd, nd, _, hadd, (dirAdd_name_iff (s := ⟨v, nd⟩) hinit.inv (by decide) (by decide) rfl
    (addKept_nameA hok) hadd).2 (by decide)⟩

/-- A name of 257 bytes. -/
def nameLong : List UInt8 := List.replicate 257 0x61

/-- `X` with a first entry for the long name and an unused one behind it. -/
def withLong (X : ByteMem) : ByteMem :=
  setDirEntry (setDirName (setDirEntry X 0 1 268 257 8) 0 nameLong) 268 0 752 0 0

/-- A file is created under a name of 257 bytes. It is not found, and the name `a` is. -/
theorem dirAdd_long_name : ∃ v nd v', DirInv tinySuper.geom v nd (fun _ => none) ∧
    brkfsDirAdd v nd 1 nameLong 0o100644 = some (.ok (), nd, v') ∧
    (∀ r, brkfsDirLookup v' nd nameLong ≠ .ok r) ∧ brkfsDirLookup v' nd [0x61] = .ok (1, 8) := by
  obtain ⟨b, v, nd, hinit, hok⟩ := tinyDir_first
  have hread := (dirTail_cons.1 (hok.blockOk 0 _ rfl).tail).1
  have hlen : nameLong.length = 257 := List.length_replicate
  have hlong : brkfsDirAddInBlock (v.block tinySuper.geom b) 1020 1 nameLong 8 =
      some (.ok (withLong (v.block tinySuper.geom b))) := by
    show dirAddInBlock _ 1 _ 8 1021 1020 0 = _
    rw [dirAddInBlock, hread, hlen]
    rfl
  have hadd := hok.single.add (by decide : brkfsModeToDt 0o100644 ≠ dtUnknown) hlong
  refine ⟨v, nd, _, hinit.inv, hadd, brkfsDirLookup_long (by omega) _ nd, ?_⟩
  refine (hok.single.put _).lookup_eq (r := .ok (some (1, 8))) ?_
  rw [block_putDirBlock, withLong, setDirName, hlen]
  rfl

end BrkKernel.Brkfs
