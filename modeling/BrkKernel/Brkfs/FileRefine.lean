import BrkKernel.Brkfs.File

/-!
# Files refine byte arrays

A regular file in memory is its inode, its page cache and the volume. `FileStep` lets a file and
an abstract byte array take the same step: a read, a write, `brkfs_setattr`, a flush, a reclaim of
cached pages by `page_cache_shrink`, a flush of the block device, or an eviction of the inode that
is followed by a reload. `FileInv` relates the two; it holds along every run, so every read
returns the bytes of the array and the size of the inode is its length (`file_run`).
-/

set_option autoImplicit false

namespace BrkKernel.Brkfs

open Lib Lib.ByteMem Mm ByteFile

/-! ## Operations on a file -/

/-- A file in memory. It is `attached` unless `inode->mapping` is `NULL`. -/
structure FileState where
  cache : PageCache FsHost
  attached : Bool

/-- `brkfs_file_read`. -/
def brkfsFileRead (s : FileState) (size pos : Nat) : Except Errno (List UInt8) × FileState :=
  if s.attached then
    ((genericFileRead brkfsFilePcOps s.cache size pos).1,
      { s with cache := (genericFileRead brkfsFilePcOps s.cache size pos).2 })
  else (.error .eio, s)

/-- `brkfs_file_write` at time `now`. -/
def brkfsFileWrite (now : Int) (s : FileState) (buf : List UInt8) (pos : Nat) :
    Except Errno Nat × FileState :=
  if s.attached then
    ((genericFileWrite brkfsFilePcOps now s.cache buf pos).1,
      { s with cache := (genericFileWrite brkfsFilePcOps now s.cache buf pos).2 })
  else (.error .eio, s)

/-- `page_cache_flush` on the mapping of the inode. -/
def FileState.flush (s : FileState) : Except Errno Unit × FileState :=
  if s.attached then
    ((pageCacheFlush brkfsFilePcOps.toPageCacheOps s.cache).1,
      { s with cache := (pageCacheFlush brkfsFilePcOps.toPageCacheOps s.cache).2 })
  else (.ok (), s)

/-- The file with another inode or volume below its mapping. -/
def FileState.setHost (s : FileState) (h : FsHost) : FileState :=
  { s with cache := { s.cache with host := h } }

/-- The file with another state of its volume. -/
def FileState.setVol (s : FileState) (v : Vol) : FileState := s.setHost ⟨v, s.cache.host.inode⟩

/-- `struct fs_iattr`; a field is given when its bit in `valid` is set. -/
structure FsIattr where
  mode : Option Nat
  uid : Option Nat
  gid : Option Nat
  size : Option Int
  atime : Option Int
  mtime : Option Int
  ctime : Option Int

/-- `brkfs_setattr` before the size: mode, owner and times. -/
def setattrMeta (now : Int) (nd : FsInode) (attr : FsIattr) : FsInode :=
  let nd1 := match attr.mode with
    | some m => { nd with mode := nd.mode &&& 0o170000 ||| m &&& 0o7777, ctime := now }
    | none => nd
  let nd2 := if attr.uid.isSome || attr.gid.isSome then
      { nd1 with
        uid := attr.uid.getD nd1.uid
        gid := attr.gid.getD nd1.gid
        mode := nd1.mode &&& (0xffffffff - 0o6000)
        ctime := now }
    else nd1
  if attr.atime.isSome || attr.mtime.isSome || attr.ctime.isSome then
    { nd2 with
      atime := attr.atime.getD nd2.atime
      mtime := attr.mtime.getD nd2.mtime
      ctime := now }
  else nd2

/-- `truncate_inode_pages` and `page_cache_flush` in `brkfs_setattr`. -/
def setattrPages (s : FileState) (size : Int) : Except Errno Unit × FileState :=
  if s.attached then
    match truncateInodePages brkfsFilePcOps.toPageCacheOps s.cache size with
    | (.error e, c) => (.error e, { s with cache := c })
    | (.ok (), c) => FileState.flush { s with cache := c }
  else (.ok (), s)

/-- `brkfs_inode_write` for the inode of the file. -/
def FileState.writeInode (s : FileState) : Except Errno Unit × FileState :=
  ((brkfsInodeWrite s.cache.host.vol s.cache.host.inode).1,
    s.setVol (brkfsInodeWrite s.cache.host.vol s.cache.host.inode).2)

/-- The part of `brkfs_setattr` for `ATTR_SIZE`. -/
def setattrSize (now : Int) (s : FileState) (size : Int) : Except Errno Unit × FileState :=
  match setattrPages s size with
  | (.error e, s1) => (.error e, s1)
  | (.ok (), s1) =>
    match brkfsTruncateInodeBlocks s1.cache.host.vol s1.cache.host.inode size with
    | (.error e, nd, v) => (.error e, s1.setHost ⟨v, nd⟩)
    | (.ok (), nd, v) => (.ok (), s1.setHost ⟨v, { nd with mtime := now, ctime := now }⟩)

/-- `brkfs_setattr` at time `now`. -/
def brkfsSetattr (now : Int) (s : FileState) (attr : FsIattr) : Except Errno Unit × FileState :=
  let h := s.cache.host
  let s1 := s.setHost { h with inode := setattrMeta now h.inode attr }
  match attr.size with
  | none => s1.writeInode
  | some size =>
    match setattrSize now s1 size with
    | (.error e, s2) => (.error e, s2)
    | (.ok (), s2) => s2.writeInode

/-- `brkfs_evict_inode`: the volume afterwards. The result of the flush is not used. -/
def brkfsEvictInode (s : FileState) : Vol :=
  if 0 < s.cache.host.inode.nlink then s.flush.2.writeInode.2.cache.host.vol
  else (brkfsEvictUnlinked s.cache.host.vol s.cache.host.inode).2

/-- `brkfs_init_loaded_inode` for inode `ino`. -/
def brkfsInitLoadedInode (v : Vol) (ino : Nat) : Except Errno FileState × Vol :=
  match brkfsInodeRead v ino with
  | (.error e, v1) => (.error e, v1)
  | (.ok nd, v1) =>
    if sIsReg nd.mode || sIsLnk nd.mode then
      match kmalloc v1 with
      | (false, v2) => (.error .enomem, v2)
      | (true, v2) => (.ok ⟨pageCacheCreate ⟨v2, nd⟩, true⟩, v2)
    else (.ok ⟨pageCacheCreate ⟨v1, nd⟩, false⟩, v1)

/-- Eviction of the inode, `page_cache_destroy` and a reload. An inode that cannot be loaded has no
mapping. -/
def FileState.reload (s : FileState) : FileState :=
  match brkfsInitLoadedInode (brkfsEvictInode s) s.cache.host.inode.ino with
  | (.ok s', _) => s'
  | (.error _, v) => ⟨pageCacheCreate ⟨v, s.cache.host.inode⟩, false⟩

/-! ### The block device cache and reclaim -/

/-- The device after cached page `p` of the block device was dropped: it is read again when it is
needed, with zeros past the last sector. -/
def Vol.dropPage (v : Vol) (p : Nat) : Vol :=
  { v with bd := { v.bd with
      data := fun a => if a / pageSize = p then (if a < 512 * v.bd.phyBcnt then v.bd.disk a else 0)
        else v.bd.data a } }

/-- `page_cache_flush` on the mapping of the block device. -/
def Vol.flushPages (v : Vol) : Vol :=
  { v with bd := { v.bd with
      disk := fun a => if v.bd.dirty (a / pageSize) ∧ a < 512 * v.bd.phyBcnt then v.bd.data a
        else v.bd.disk a
      dirty := fun _ => false } }

/-- The mapping a page on the LRU list belongs to. -/
inductive LruOwner where
  | file (index : Nat)
  | bdev (index : Nat)
  | other

/-- A page on `pagecache_lru`. It is `pinned` when somebody holds a reference or, for a page of
another mapping, when it is dirty; a `dying` page has no reference left. -/
structure LruPage where
  owner : LruOwner
  pinned : Bool
  dying : Bool

/-- The state of the loop of `page_cache_shrink`. -/
structure Shrinker where
  freed : Nat
  scanned : Nat
  nrpages : Nat
  lru : List LruPage
  file : FileState

/-- The page was scanned and goes back to the end of the list. -/
def Shrinker.keep (st : Shrinker) (p : LruPage) (rest : List LruPage) : Shrinker :=
  { st with scanned := st.scanned + 1, lru := rest ++ [p] }

/-- The page was scanned and freed. -/
def Shrinker.free (st : Shrinker) (rest : List LruPage) (file : FileState) : Shrinker :=
  { freed := st.freed + 1, scanned := st.scanned + 1, nrpages := st.nrpages - 1, lru := rest,
    file := file }

/-- One round of `page_cache_shrink`, for the page `p` in front of the LRU list. -/
def shrinkStep (st : Shrinker) (p : LruPage) (rest : List LruPage) : Shrinker :=
  if p.dying then { st with lru := rest }
  else
    match p.owner with
    | .file index =>
      match st.file.cache.pages index with
      | none => { st with scanned := st.scanned + 1, lru := rest }
      | some cp =>
        if p.pinned || cp.dirty then st.keep p rest
        else st.free rest { st.file with cache := { st.file.cache with
          pages := Function.update st.file.cache.pages index none } }
    | .bdev index =>
      if p.pinned || st.file.cache.host.vol.bd.dirty index then st.keep p rest
      else st.free rest (st.file.setVol (st.file.cache.host.vol.dropPage index))
    | .other => if p.pinned then st.keep p rest else st.free rest st.file

/-- The loop of `page_cache_shrink`. Every round takes a page off the list or scans one. -/
def shrinkLoop (nrToReclaim : Nat) : Nat → Shrinker → Shrinker
  | 0, st => st
  | fuel + 1, st =>
    if st.freed < nrToReclaim ∧ st.scanned < st.nrpages then
      match st.lru with
      | [] => st
      | p :: rest => shrinkLoop nrToReclaim fuel (shrinkStep st p rest)
    else st

/-- `page_cache_shrink` with the LRU list `lru` and `nrpages` cached pages in all mappings. -/
def pageCacheShrink (nrToReclaim nrpages : Nat) (lru : List LruPage) (s : FileState) :
    Nat × FileState :=
  if nrToReclaim = 0 ∨ nrpages = 0 then (0, s)
  else
    let st := shrinkLoop nrToReclaim (lru.length + nrpages) ⟨0, 0, nrpages, lru, s⟩
    (st.freed, st.file)

/-! ## The refinement relation -/

/-- The bytes the device holds for the file of a host. -/
def hostBytes (g : Geometry) (h : FsHost) : ByteMem := fileByte g h.vol.bd.data h.inode

/-- The file `s` shows the byte array `f`. -/
structure FileInv (g : Geometry) (k : Nat) (s : FileState) (f : ByteFile) : Prop where
  attached : s.attached = true
  shows : ShowsFile brkfsFilePcOps (FileHostOk g k) (hostBytes g) s.cache f

/-- A file just loaded, with nothing cached; the device holds the bytes `f`. -/
structure FileLoaded (g : Geometry) (k : Nat) (s : FileState) (f : ByteFile) : Prop where
  attached : s.attached = true
  fresh : s.cache = pageCacheCreate s.cache.host
  host : FileHostOk g k s.cache.host
  bytes : hostBytes g s.cache.host = ofList f
  size : s.cache.host.inode.size = f.length

/-- The byte array after a change of attributes. -/
def FsIattr.resized (attr : FsIattr) (f : ByteFile) : ByteFile :=
  match attr.size with
  | some n => f.resize n.toNat
  | none => f

/-- A step of the file and of the byte array it shows. Positions and sizes are below `2 ^ 32`, and
block allocation does not fail in `brkfs_setattr` and in the flush that precedes an eviction. -/
inductive FileStep : FileState × ByteFile → FileState × ByteFile → Prop where
  | read {s : FileState} {f : ByteFile} (size pos : Nat) (h : pos + size < 2 ^ 32) :
      FileStep (s, f) ((brkfsFileRead s size pos).2, f)
  | write {s : FileState} {f : ByteFile} (now : Int) (buf : List UInt8) (pos : Nat)
      (h : pos + buf.length < 2 ^ 32) :
      FileStep (s, f) ((brkfsFileWrite now s buf pos).2, f.write pos buf)
  | setattr {s : FileState} {f : ByteFile} (now : Int) (attr : FsIattr)
      (hsize : ∀ n, attr.size = some n → 0 ≤ n ∧ n < 2 ^ 32)
      (hspace : (brkfsSetattr now s attr).1 ≠ .error .enospc) :
      FileStep (s, f) ((brkfsSetattr now s attr).2, attr.resized f)
  | flush {s : FileState} {f : ByteFile} : FileStep (s, f) (s.flush.2, f)
  | flushBdev {s : FileState} {f : ByteFile} :
      FileStep (s, f) (s.setVol s.cache.host.vol.flushPages, f)
  | shrink {s : FileState} {f : ByteFile} (nrToReclaim nrpages : Nat) (lru : List LruPage) :
      FileStep (s, f) ((pageCacheShrink nrToReclaim nrpages lru s).2, f)
  | reload {s : FileState} {f : ByteFile} (hspace : s.flush.1 ≠ .error .enospc) :
      FileStep (s, f) (s.reload, f)

section Refinement

variable {g : Geometry} {k n p : Nat} {s : FileState} {f : ByteFile} {h : FsHost} {nd' : FsInode}
  (now : Int) (nd : FsInode)

/-- Two inodes of the same file: they differ in attributes that do not matter for its contents. -/
structure SameFile (nd nd' : FsInode) : Prop where
  slots : ∀ s < nrBlockPtrs, nd'.iBlock s = nd.iBlock s
  ino : nd'.ino = nd.ino
  nlink : nd'.nlink = nd.nlink
  size : nd'.size = nd.size
  reg : sIsReg nd'.mode = sIsReg nd.mode

theorem SameFile.refl : SameFile nd nd := ⟨fun _ _ => rfl, rfl, rfl, rfl, rfl⟩

theorem SameFile.trans {nd nd' nd'' : FsInode} (h : SameFile nd nd') (h' : SameFile nd' nd'') :
    SameFile nd nd'' :=
  ⟨fun s hs => (h'.slots s hs).trans (h.slots s hs), h'.ino.trans h.ino, h'.nlink.trans h.nlink,
    h'.size.trans h.size, h'.reg.trans h.reg⟩

theorem SameFile.fileByte_eq {nd nd' : FsInode} (hs : SameFile nd nd') (m : ByteMem) :
    fileByte g m nd' = fileByte g m nd := by
  funext a
  rw [fileByte, fileByte, inodeWalk_slots hs.slots]

theorem FileHostOk.sameFile (hh : FileHostOk g k h) (hs : SameFile h.inode nd') :
    FileHostOk g k ⟨h.vol, nd'⟩ := by
  refine hh.change hh.ok hh.synced rfl hs.ino hs.nlink hs.reg ?_
    (inodeClean_slots hs.slots hh.clean) (hs.size ▸ hh.size) ?_
  · rw [InodeOwned, inodeRefs_slots hs.slots]
    exact hh.owned
  · rw [hs.size, hs.fileByte_eq]
    exact hh.zero

theorem FileHostOk.setSize (hh : FileHostOk g k h) (hle : h.inode.size ≤ n)
    (hn : n < 2 ^ 32) : FileHostOk g k ⟨h.vol, { h.inode with size := n }⟩ :=
  hh.change hh.ok hh.synced rfl rfl rfl rfl hh.owned hh.clean hn fun a ha =>
    hh.zero a (le_trans hle ha)

/-- The pages of a file meet the assumptions of the page cache. -/
theorem brkfsFile_hostSpec (g : Geometry) (k : Nat) :
    HostSpec brkfsFilePcOps (2 ^ 20) (FileHostOk g k) (hostBytes g) (· = .enospc) where
  alloc h hh := by
    simp only [brkfsFilePcOps, kmalloc_eq hh.ok]
  readPage h i data hh hi := brkfsFileReadPage_spec hh.ok hh.clean hi data
  writePage h i data hh hz := by
    obtain ⟨res, h', hrun, hh', hattrs, hother, hres⟩ := brkfsFileWritePage_spec hh i data hz
    refine ⟨res, data, h', hrun, hh', ?_, rfl, hother, ?_⟩
    · show h'.inode.size = h.inode.size
      rw [hattrs]
    · rcases hres with hok | herr
      · exact .inl hok
      · exact .inr ⟨.enospc, herr, rfl⟩
  isize_lt h hh := hh.size
  zero h a hh ha := hh.zero a ha
  setIsize h n hh hle hn := ⟨hh.setSize hle hn, rfl, rfl⟩
  touchMtime h now hh := ⟨hh.sameFile ⟨fun _ _ => rfl, rfl, rfl, rfl, rfl⟩, rfl, rfl⟩

theorem FileLoaded.inv (h : FileLoaded g k s f) : FileInv g k s f := by
  have hshow := shows_create (hostBytes g) s.cache.host
  have hlist := dirtyList_create s.cache.host
  rw [← h.fresh] at hshow hlist
  rw [h.bytes] at hshow
  exact ⟨h.attached, h.host, hshow, hlist, h.size⟩

section

variable (hinv : FileInv g k s f)

include hinv

/-- The file reads as the byte array. -/
theorem FileInv.read (size pos : Nat) : (brkfsFileRead s size pos).1 = .ok (f.read pos size) ∧
      FileInv g k (brkfsFileRead s size pos).2 f := by
  obtain ⟨c, hrun, hshow⟩ := genericFileRead_spec (brkfsFile_hostSpec g k) hinv.shows size pos
  rw [brkfsFileRead, if_pos hinv.attached, hrun]
  exact ⟨rfl, hinv.attached, hshow⟩

theorem FileInv.write (buf : List UInt8) (pos : Nat) (hlim : pos + buf.length < 2 ^ 32) :
    FileInv g k (brkfsFileWrite now s buf pos).2 (f.write pos buf) := by
  obtain ⟨c, hrun, hshow⟩ :=
    genericFileWrite_spec (brkfsFile_hostSpec g k) hinv.shows now buf pos hlim
  rw [brkfsFileWrite, if_pos hinv.attached, hrun]
  exact ⟨hinv.attached, hshow⟩

/-- Past the end of the array the view is zero. -/
theorem FileInv.zero (a : Nat) (ha : brkfsFilePcOps.isize s.cache.host ≤ a) : ofList f a = 0 := by
  rw [hinv.shows.size] at ha
  exact ofList_of_le ha

/-- A flush keeps the file. If it succeeds, the device has all of it. -/
theorem FileInv.flush : FileInv g k s.flush.2 f ∧
      ((s.flush.1 = .ok () ∧ hostBytes g s.flush.2.cache.host = ofList f) ∨
        s.flush.1 = .error .enospc) := by
  obtain ⟨res, c, hrun, hI, hsize, hshow, hlist, -, hres⟩ :=
    pageCacheFlush_spec (brkfsFile_hostSpec g k) hinv.shows.host hinv.shows.shows hinv.zero
      hinv.shows.dirtyList
  rw [FileState.flush, if_pos hinv.attached, hrun]
  refine ⟨⟨hinv.attached, hI, hshow, hlist, hsize.trans hinv.shows.size⟩, ?_⟩
  rcases hres with ⟨rfl, hnil⟩ | ⟨e, rfl, rfl⟩
  · exact .inl ⟨rfl, hshow.back_eq hlist hnil⟩
  · exact .inr rfl

/-- The host changes, but not the bytes it has for the file. -/
theorem FileInv.setHost (hh : FileHostOk g k h) (hbytes : hostBytes g h = hostBytes g s.cache.host)
    (hsize : h.inode.size = s.cache.host.inode.size) : FileInv g k (s.setHost h) f :=
  ⟨hinv.attached, hh, hinv.shows.shows.setHost hbytes, hinv.shows.dirtyList.setHost h,
    hsize.trans hinv.shows.size⟩

theorem FileInv.writeInode : s.writeInode.1 = .ok () ∧ FileInv g k s.writeInode.2 f ∧
      hostBytes g s.writeInode.2.cache.host = hostBytes g s.cache.host := by
  have hh := hinv.shows.host
  have hino : u32 s.cache.host.inode.ino = s.cache.host.inode.ino := u32_of_lt hh.ino.2.2
  have hwrite := brkfsInodeWrite_eq hh.ok hino hh.ino.1 hh.ino.2.1
  obtain ⟨hframe, -⟩ := brkfsInodeWrite_frame hh.ok s.cache.host.inode
  obtain ⟨hh', hbytes⟩ := hh.of_frame hframe (fun _ => inodeTable_not_data)
    fun _ => inodeTable_not_dataBitmap
  refine ⟨?_, hinv.setHost hh' hbytes rfl, hbytes⟩
  show (brkfsInodeWrite _ _).1 = _
  rw [hwrite]

end

/-! ### Reclaim and the block device -/

theorem frame_flushPages (g : Geometry) (v : Vol) : Frame g (fun _ => False) v v.flushPages where
  ok hv := ⟨hv.geom, hv.layout, hv.small, hv.noFault⟩
  synced hv a ha _ := by
    show v.bd.data a = if v.bd.dirty (a / pageSize) ∧ a < 512 * v.bd.phyBcnt then v.bd.data a
      else v.bd.disk a
    cases hd : v.bd.dirty (a / pageSize) with
    | true => rw [if_pos ⟨rfl, ha⟩]
    | false =>
      exact hv a ha hd
  capacity := rfl
  bytes _ _ := rfl

/-- Dropping a clean page of the block device changes nothing below the end of the volume. -/
theorem frame_dropPage {v : Vol} (hg : g.LayoutOk) (hsync : v.Synced)
    (hcap : g.blocksCount * g.blocksize ≤ 512 * v.bd.phyBcnt) (hclean : v.bd.dirty p = false) :
    Frame g (g.blocksCount ≤ ·) v (v.dropPage p) where
  ok hv := ⟨hv.geom, hv.layout, hv.small, hv.noFault⟩
  synced hv a ha hd := by
    show (if a / pageSize = p then (if a < 512 * v.bd.phyBcnt then v.bd.disk a else 0)
      else v.bd.data a) = v.bd.disk a
    have ha' : a < 512 * v.bd.phyBcnt := ha
    split
    · rfl
    · exact hv a ha hd
  capacity := rfl
  bytes a ha := by
    have hlt : a < g.blocksCount * g.blocksize :=
      (Nat.div_lt_iff_lt_mul hg.bs_pos).1 (Nat.lt_of_not_le ha)
    show (if a / pageSize = p then (if a < 512 * v.bd.phyBcnt then v.bd.disk a else 0)
      else v.bd.data a) = v.bd.data a
    have hin : a < 512 * v.bd.phyBcnt := lt_of_lt_of_le hlt hcap
    split
    · rename_i hp
      exact (hsync a hin (by rw [hp]; exact hclean)).symm
    · rfl

theorem isDataBitmap_lt {b : Nat} (hg : g.LayoutOk) (hb : g.IsDataBitmap b) :
    b < g.blocksCount := by
  have h1 := hb.2
  have h2 := hg.afterInodeTable
  have h3 := hg.afterData
  have h4 := hg.backup
  omega

section

variable (hinv : FileInv g k s f)

include hinv

theorem FileInv.flushBdev : FileInv g k (s.setVol s.cache.host.vol.flushPages) f := by
  obtain ⟨hh, hbytes⟩ := hinv.shows.host.of_frame (frame_flushPages g _) (fun _ _ => id)
    fun _ _ => id
  exact hinv.setHost hh hbytes rfl

theorem FileInv.dropBdev (hclean : s.cache.host.vol.bd.dirty p = false) :
    FileInv g k (s.setVol (s.cache.host.vol.dropPage p)) f := by
  have hh := hinv.shows.host
  have hg := hh.ok.layout
  obtain ⟨hh', hbytes⟩ := hh.of_frame (frame_dropPage hg hh.synced hh.capacity hclean)
    (fun _ hb => not_le.2 (hg.isData_lt hb)) fun _ hb => not_le.2 (isDataBitmap_lt hg hb)
  exact hinv.setHost hh' hbytes rfl

theorem FileInv.dropPage {i : Nat} {cp : CachedPage}
    (hp : s.cache.pages i = some cp) (hclean : cp.dirty = false) :
    FileInv g k { s with cache := { s.cache with
      pages := Function.update s.cache.pages i none } } f := by
  have hd : ¬ s.cache.IsDirty i := by
    rw [isDirty_iff_of_some hp, hclean]
    exact Bool.false_ne_true
  obtain ⟨hshow, hlist⟩ := hinv.shows.shows.drop hinv.shows.dirtyList hd
  exact ⟨hinv.attached, hinv.shows.host, hshow, hlist, hinv.shows.size⟩

end

theorem FileInv.shrinkStep {st : Shrinker} (hinv : FileInv g k st.file f) (p : LruPage)
    (rest : List LruPage) : FileInv g k (shrinkStep st p rest).file f := by
  unfold Brkfs.shrinkStep
  split
  · exact hinv
  split
  · split
    · exact hinv
    rename_i cp hp
    split
    · exact hinv
    · rename_i hclean
      rw [Bool.or_eq_true, not_or, Bool.not_eq_true, Bool.not_eq_true] at hclean
      exact hinv.dropPage hp hclean.2
  · split
    · exact hinv
    · rename_i hclean
      rw [Bool.or_eq_true, not_or, Bool.not_eq_true, Bool.not_eq_true] at hclean
      exact hinv.dropBdev hclean.2
  · split
    · exact hinv
    · exact hinv

theorem FileInv.shrinkLoop (nr fuel : Nat) {st : Shrinker} (hinv : FileInv g k st.file f) :
    FileInv g k (shrinkLoop nr fuel st).file f := by
  fun_induction Brkfs.shrinkLoop nr fuel st with
  | case1 => exact hinv
  | case2 => exact hinv
  | case3 _ _ _ _ _ _ ih => exact ih (hinv.shrinkStep _ _)
  | case4 => exact hinv

theorem FileInv.shrink (hinv : FileInv g k s f) (nr nrpages : Nat) (lru : List LruPage) :
    FileInv g k (pageCacheShrink nr nrpages lru s).2 f := by
  unfold pageCacheShrink
  split
  · exact hinv
  · exact FileInv.shrinkLoop nr _ hinv

/-! ### Attributes and reload -/

theorem FileInv.sameFile (hinv : FileInv g k s f)
    (hs : SameFile s.cache.host.inode nd') : FileInv g k (s.setHost ⟨s.cache.host.vol, nd'⟩) f :=
  hinv.setHost (hinv.shows.host.sameFile hs) (hs.fileByte_eq _) hs.size

theorem sIsReg_congr {m m' : Nat} (h : m' &&& 0o170000 = m &&& 0o170000) :
    sIsReg m' = sIsReg m := by
  rw [sIsReg, sIsReg, h]

theorem setattrMeta_sameFile (attr : FsIattr) : SameFile nd (setattrMeta now nd attr) := by
  have hchmod : ∀ m x : Nat, sIsReg (m &&& 0o170000 ||| x &&& 0o7777) = sIsReg m := by
    intro m x
    refine sIsReg_congr ?_
    rw [Nat.and_or_distrib_right, Nat.and_assoc, Nat.and_assoc,
      show (0o7777 &&& 0o170000 : Nat) = 0 by decide, Nat.and_zero, Nat.or_zero, Nat.and_self]
  have hchown : ∀ m : Nat, sIsReg (m &&& (0xffffffff - 0o6000)) = sIsReg m := by
    intro m
    refine sIsReg_congr ?_
    rw [Nat.and_assoc, show ((0xffffffff - 0o6000) &&& 0o170000 : Nat) = 0o170000 by decide]
  have h1 : SameFile nd (match attr.mode with
      | some m => { nd with mode := nd.mode &&& 0o170000 ||| m &&& 0o7777, ctime := now }
      | none => nd) := by
    cases attr.mode with
    | none => exact SameFile.refl nd
    | some m => exact ⟨fun _ _ => rfl, rfl, rfl, rfl, hchmod _ _⟩
  unfold setattrMeta
  refine h1.trans ?_
  generalize (match attr.mode with
      | some m => { nd with mode := nd.mode &&& 0o170000 ||| m &&& 0o7777, ctime := now }
      | none => nd) = nd1
  dsimp only
  split_ifs
  · exact ⟨fun _ _ => rfl, rfl, rfl, rfl, hchown _⟩
  · exact ⟨fun _ _ => rfl, rfl, rfl, rfl, rfl⟩
  · exact ⟨fun _ _ => rfl, rfl, rfl, rfl, hchown _⟩
  · exact SameFile.refl nd1

/-- What a regular file's inode reads back as after it was written. -/
theorem FileHostOk.stored_sameFile (hh : FileHostOk g k h) : SameFile h.inode h.inode.stored where
  slots s hs := by
    have hroot := (hh.clean s hs).root
    have hlt : h.inode.iBlock s < 4294967296 := by
      rcases hroot with hz | hz
      · have hz' : h.inode.iBlock s = 0 := hz
        omega
      · exact hh.ok.isData_lt_word (slots_ok_iff.1 hz)
    show (if s < nrBlockPtrs then u32 (h.inode.iBlock s) else 0) = _
    rw [if_pos hs, u32_of_lt hlt]
  ino := rfl
  nlink := u32_of_lt hh.links.2
  size := u32_of_lt hh.size
  reg := by
    refine sIsReg_congr ?_
    show h.inode.mode % 2 ^ 32 &&& 0o170000 = _
    rw [← Nat.and_two_pow_sub_one_eq_mod, Nat.and_assoc]
    rfl

/-- `brkfs_evict_inode` writes the file and its inode to the device. -/
theorem brkfsEvictInode_eq (hinv : FileInv g k s f) : brkfsEvictInode s =
      (brkfsInodeWrite s.flush.2.cache.host.vol s.flush.2.cache.host.inode).2 := by
  rw [brkfsEvictInode, if_pos hinv.shows.host.links.1]
  rfl

/-- `brkfs_init_loaded_inode` finds a regular file that was written. -/
theorem brkfsInitLoadedInode_eq (hh : FileHostOk g k h) :
    brkfsInitLoadedInode (brkfsInodeWrite h.vol h.inode).2 k =
      (.ok ⟨pageCacheCreate ⟨(brkfsInodeWrite h.vol h.inode).2, h.inode.stored⟩, true⟩,
        (brkfsInodeWrite h.vol h.inode).2) := by
  have hread := brkfsInodeRead_write hh.ok hh.ino.1 hh.ino.2.1 hh.ino.2.2
  rw [hh.inum] at hread
  have hreg : sIsReg h.inode.stored.mode = true := hh.stored_sameFile.reg.trans hh.reg
  have hok := (brkfsInodeWrite_frame hh.ok h.inode).1.ok hh.ok
  simp only [brkfsInitLoadedInode, hread, hreg, Bool.true_or, if_true, kmalloc_eq hok]

/-- Eviction writes the whole file and its inode to the device, and a reload finds them there. -/
theorem FileInv.reload (hinv : FileInv g k s f) (hspace : s.flush.1 ≠ .error .enospc) :
    FileInv g k s.reload f := by
  obtain ⟨hinv1, hflush⟩ := hinv.flush
  obtain ⟨-, hbytes⟩ := hflush.resolve_right hspace
  obtain ⟨-, hinv2, hsaved⟩ := hinv1.writeInode
  have hh := hinv2.shows.host
  have hsame := hinv1.shows.host.stored_sameFile
  have hreload : s.reload = ⟨pageCacheCreate
      ⟨s.flush.2.writeInode.2.cache.host.vol, s.flush.2.cache.host.inode.stored⟩, true⟩ := by
    rw [FileState.reload, brkfsEvictInode_eq hinv, hinv.shows.host.inum,
      brkfsInitLoadedInode_eq hinv1.shows.host]
    rfl
  rw [hreload]
  refine FileLoaded.inv ⟨rfl, rfl, hh.sameFile hsame, ?_, hsame.size.trans hinv1.shows.size⟩
  rw [← hbytes, ← hsaved]
  exact hsame.fileByte_eq _

/-! ### Changing the size -/

/-- Cutting the block map of a file whose bytes past the new end are zero up to the next page. -/
theorem brkfsTruncateInodeBlocks_file (hh : FileHostOk g k h) (hn : n < 2 ^ 32)
    (hle : n ≤ h.inode.size)
    (hzero : ∀ a, n ≤ a → a / pageSize < (n + pageSize - 1) / pageSize → hostBytes g h a = 0) :
    ∃ nd v, brkfsTruncateInodeBlocks h.vol h.inode n = (.ok (), nd, v) ∧
      FileHostOk g k ⟨v, nd⟩ ∧ nd.size = n ∧
      hostBytes g ⟨v, nd⟩ = fun a => if a < n then hostBytes g h a else 0 := by
  have hg := hh.ok.layout
  obtain ⟨nd, v, hrun, hshrink, hattrs⟩ := brkfsTruncateInodeBlocks_spec hh.ok hh.owned n hle
  have hsize : nd.size = n := by rw [hattrs]
  have hbytes : hostBytes g ⟨v, nd⟩ = fun a => if a < n then hostBytes g h a else 0 := by
    funext a
    by_cases hcut : a / g.blocksize < (n + g.blocksize - 1) / g.blocksize
    · have hkeep : hostBytes g ⟨v, nd⟩ a = hostBytes g h a := by
        refine fileByte_of_frame hg hshrink.writes (by rw [hshrink.walk, if_pos hcut]) ?_
        rintro c hc (hbit | hin)
        · exact hg.isData_not_bitmap (isData_of_inodeWalk hc) hbit
        · exact hh.owned.not_inner hc hin
      rw [hkeep]
      split
      · rfl
      · refine hzero a (by omega) ?_
        rcases hg.blocksize with hb | hb | hb <;> rw [hb] at hcut <;> unfold pageSize <;> omega
    · have hge : ¬ a < n := by
        rcases hg.blocksize with hb | hb | hb <;> rw [hb] at hcut <;> omega
      rw [if_neg hge]
      exact fileByte_of_none (by rw [hshrink.walk, if_neg hcut])
  refine ⟨nd, v, hrun, hh.change (hshrink.writes.ok hh.ok) (hshrink.writes.synced hh.synced)
    hshrink.writes.capacity ?_ ?_ ?_ (hshrink.change.owned hh.owned fun _ => isData_of_inodeRefs)
    (hshrink.clean hh.clean) (hsize ▸ hn) fun a ha => ?_, hsize, hbytes⟩
  · rw [hattrs]
  · rw [hattrs]
  · rw [hattrs]
  rw [hsize] at ha
  exact (congrFun hbytes a).trans (if_neg (not_lt.2 ha))

/-- Extending a file only changes its size. -/
theorem brkfsTruncateInodeBlocks_extend (hh : FileHostOk g k h) (hn : n < 2 ^ 32)
    (hlt : h.inode.size < n) :
    brkfsTruncateInodeBlocks h.vol h.inode n = (.ok (), { h.inode with size := n }, h.vol) ∧
      FileHostOk g k ⟨h.vol, { h.inode with size := n }⟩ := by
  refine ⟨?_, hh.setSize (le_of_lt hlt) hn⟩
  have hneg : ¬ (n : Int) < 0 := by omega
  have hgrow : (n : Int) > h.inode.size := by omega
  simp only [brkfsTruncateInodeBlocks, if_neg hneg, if_pos hgrow, Int.toNat_natCast]

/-- The view between the truncation of the pages and the truncation of the blocks. -/
theorem cutView_ofList {back : ByteMem} {n a : Nat} (hback : ∀ a, f.length ≤ a → back a = 0)
    (ha : f.length ≤ a) : cutView (ofList f) back n a = 0 := by
  unfold cutView
  split
  · exact ofList_of_le ha
  · split
    · rfl
    · exact hback a ha

/-- The pages are cut and written, then the blocks are cut. -/
theorem FileInv.setattrSize (hinv : FileInv g k s f) (now : Int) (hn : n < 2 ^ 32)
    (hspace : (setattrSize now s n).1 ≠ .error .enospc) :
    (setattrSize now s n).1 = .ok () ∧ FileInv g k (setattrSize now s n).2 (f.resize n) := by
  have hsize : s.cache.host.inode.size = f.length := hinv.shows.size
  obtain ⟨c, hcut, hhost, hshow, hlist, hnone⟩ :=
    truncateInodePages_spec (brkfsFile_hostSpec g k) hinv.shows.host hinv.shows.shows
      hinv.shows.dirtyList n hn
  have hback : ∀ a, f.length ≤ a → hostBytes g s.cache.host a = 0 := fun a ha =>
    hinv.shows.host.zero a (by rwa [hsize])
  have hz : ∀ a, brkfsFilePcOps.isize c.host ≤ a →
      cutView (ofList f) (hostBytes g s.cache.host) n a = 0 := by
    intro a ha
    rw [hhost, hinv.shows.size] at ha
    exact cutView_ofList hback ha
  obtain ⟨res, c1, hflush, hI, hsize1, hshow1, hlist1, hnone1, hres⟩ :=
    pageCacheFlush_spec (brkfsFile_hostSpec g k) (by rw [hhost]; exact hinv.shows.host) hshow hz
      hlist
  have hpages : setattrPages s n = (res, { s with cache := c1 }) := by
    rw [setattrPages, if_pos hinv.attached, hcut]
    show FileState.flush { s with cache := c } = _
    rw [FileState.flush, if_pos hinv.attached, hflush]
  have hlen : c1.host.inode.size = f.length := by
    have h1 : c1.host.inode.size = c.host.inode.size := hsize1
    rw [h1, hhost, hsize]
  rcases hres with ⟨rfl, hnil⟩ | ⟨e, rfl, rfl⟩
  · have hbytes := hshow1.back_eq hlist1 hnil
    rw [Brkfs.setattrSize, hpages]
    obtain ⟨nd, v, hrun, hh, hnd, hshow2⟩ : ∃ nd v,
        brkfsTruncateInodeBlocks c1.host.vol c1.host.inode n = (.ok (), nd, v) ∧
          FileHostOk g k ⟨v, nd⟩ ∧ nd.size = n ∧
          Shows (hostBytes g) { c1 with host := ⟨v, nd⟩ } (ofList (f.resize n)) := by
      by_cases hle : n ≤ f.length
      · obtain ⟨nd, v, hrun, hh, hnd, hnew⟩ := brkfsTruncateInodeBlocks_file hI hn (hlen ▸ hle) (by
          intro a h1 h2
          rw [hbytes, cutView, if_neg (not_lt.2 h1), if_pos h2])
        have hfinal : hostBytes g ⟨v, nd⟩ = ofList (f.resize n) := by
          rw [hnew, ofList_resize]
          funext a
          split
          · rename_i ha
            rw [hbytes, cutView, if_pos ha]
          · rfl
        refine ⟨nd, v, hrun, hh, hnd, ?_⟩
        rw [← hfinal]
        refine hshow1.rebase ⟨v, nd⟩ hlist1 hnil fun i hi => ?_
        -- a page that is still cached is below the new end, where the view is the array
        have hlt : i < (n + pageSize - 1) / pageSize := by
          by_contra hc
          exact hi (hnone1 i (hnone i (by omega)))
        refine page_congr fun a ha => ?_
        rw [hnew, cutView, hbytes]
        show (if a < n then cutView _ _ _ _ else 0) = _
        split
        · rename_i h1
          rw [cutView, if_pos h1]
        · rw [if_pos (by rw [ha]; exact hlt)]
      · obtain ⟨hrun, hh⟩ := brkfsTruncateInodeBlocks_extend hI hn (by omega)
        have hfinal : ofList (f.resize n) = cutView (ofList f) (hostBytes g s.cache.host) n := by
          rw [ofList_resize_of_le (by omega)]
          funext a
          by_cases ha : a < n
          · rw [cutView, if_pos ha]
          · rw [cutView_ofList hback (by omega), ofList_of_le (by omega)]
        refine ⟨_, _, hrun, hh, rfl, ?_⟩
        rw [hfinal]
        exact hshow1.setHost rfl
    simp only [hrun]
    refine ⟨trivial, hinv.attached, hh.sameFile ⟨fun _ _ => rfl, rfl, rfl, rfl, rfl⟩,
      hshow2.setHost rfl, hlist1.setHost _, ?_⟩
    show nd.size = _
    rw [hnd, length_resize]
  · refine absurd ?_ hspace
    rw [Brkfs.setattrSize, hpages]

/-- The byte array after `brkfs_setattr`. -/
theorem FileInv.setattr (hinv : FileInv g k s f) (now : Int) (attr : FsIattr)
    (hsize : ∀ n, attr.size = some n → 0 ≤ n ∧ n < 2 ^ 32)
    (hspace : (brkfsSetattr now s attr).1 ≠ .error .enospc) :
    FileInv g k (brkfsSetattr now s attr).2 (attr.resized f) := by
  have hinv1 := hinv.sameFile (setattrMeta_sameFile now s.cache.host.inode attr)
  unfold brkfsSetattr at hspace ⊢
  unfold FsIattr.resized
  cases hattr : attr.size with
  | none => exact hinv1.writeInode.2.1
  | some z =>
    obtain ⟨h0, hlt⟩ := hsize z hattr
    obtain ⟨n, rfl⟩ := Int.eq_ofNat_of_zero_le h0
    rw [hattr] at hspace
    dsimp only at hspace ⊢
    generalize hs1 : s.setHost _ = s1 at hspace hinv1 ⊢
    have hsize1 := hinv1.setattrSize (n := n) now (by omega)
    cases hr : Brkfs.setattrSize now s1 n with
    | mk r s2 =>
      rw [hr] at hspace hsize1
      obtain ⟨rfl, hinv2⟩ := hsize1 (by rintro rfl; exact hspace rfl)
      exact hinv2.writeInode.2.1

/-! ## Runs -/

/-- A new file is an empty array. -/
theorem FileLoaded.new (v : Vol) (nd : FsInode) (hok : v.Ok g) (hsync : v.Synced)
    (hcap : g.blocksCount * g.blocksize ≤ 512 * v.bd.phyBcnt)
    (hfresh : ∀ s < nrBlockPtrs, nd.iBlock s = 0) (hsize : nd.size = 0)
    (hino : 1 ≤ nd.ino ∧ nd.ino ≤ g.inodesCount ∧ nd.ino < 2 ^ 32) (hreg : sIsReg nd.mode = true)
    (hlinks : 0 < nd.nlink ∧ nd.nlink < 2 ^ 32) :
    FileLoaded g nd.ino ⟨pageCacheCreate ⟨v, nd⟩, true⟩ [] := by
  obtain ⟨hown, hclean, hwalk⟩ := inode_fresh hok.layout hfresh
  have hbytes : ∀ a, fileByte g v.bd.data nd a = 0 := fun a => fileByte_of_none (hwalk _)
  refine ⟨rfl, rfl,
    ⟨hok, hsync, hcap, hown, hclean, rfl, hino, hreg, hlinks, ?_, fun a _ => hbytes a⟩,
    ?_, hsize⟩
  · show nd.size < 2 ^ 32
    rw [hsize]
    decide
  · funext a
    exact (hbytes a).trans (ofList_of_le (Nat.zero_le a)).symm

theorem FileInv.step {s' : FileState} {f' : ByteFile} (hinv : FileInv g k s f)
    (hstep : FileStep (s, f) (s', f')) : FileInv g k s' f' := by
  cases hstep with
  | read size pos h => exact (hinv.read size pos).2
  | write now buf pos h => exact hinv.write now buf pos h
  | setattr now attr hsize hspace => exact hinv.setattr now attr hsize hspace
  | flush => exact hinv.flush.1
  | flushBdev => exact hinv.flushBdev
  | shrink nrToReclaim nrpages lru => exact hinv.shrink nrToReclaim nrpages lru
  | reload hspace => exact hinv.reload hspace

/-- A regular file refines a byte array: along every run, every read returns the bytes of the array
up to its end, and the size of the inode is its length. -/
theorem file_run {s s' : FileState} {f f' : ByteFile} (hinit : FileLoaded g k s f)
    (hrun : Run FileStep (s, f) (s', f')) :
    s'.cache.host.inode.size = f'.length ∧ ∀ size pos, pos + size < 2 ^ 32 →
        (brkfsFileRead s' size pos).1 = .ok (f'.read pos size) := by
  have hinv : FileInv g k s' f' :=
    Run.invariant (P := fun p : FileState × ByteFile => FileInv g k p.1 p.2)
      (fun _ _ hstep h => h.step hstep) hrun
      hinit.inv
  exact ⟨hinv.shows.size, fun size pos _ => (hinv.read size pos).1⟩

end Refinement

/-- Three bytes written behind a hole, after a new file was evicted and reloaded. -/
theorem file_run_tiny : let s := (brkfsFileWrite 7 (FileState.reload
      ⟨pageCacheCreate ⟨tinyVol, emptyInode 2 0o100644⟩, true⟩) [1, 2, 3] 2).2
    s.cache.host.inode.size = 5 ∧ (brkfsFileRead s 8 1).1 = .ok [0, 1, 2, 3] := by
  obtain ⟨hsize, hread⟩ := file_run
    (FileLoaded.new tinyVol (emptyInode 2 0o100644) tinyVol_ok (fun _ _ _ => rfl) (by decide)
      (fun _ _ => rfl) rfl (by decide) (by decide) (by decide))
    ((Relation.ReflTransGen.single (FileStep.reload (by rintro ⟨⟩))).tail
      (FileStep.write 7 [1, 2, 3] 2 (by decide)))
  exact ⟨hsize, hread 8 1 (by decide)⟩

end BrkKernel.Brkfs
