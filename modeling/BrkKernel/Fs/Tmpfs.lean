import BrkKernel.Brkfs.FileRefine

/-!
# tmpfs: inodes and the data of regular files

`fs/tmpfs.c`. The data of an inode is a singly linked chain of pages. A write walks the chain to its
first page with `tmpfs_inode_data_page`, which appends zeroed pages, and appends the pages after
that one without zeroing them. A read copies every page it visits to the start of the buffer. A
change of the size frees the pages behind a smaller end and adds none for a larger one.

The functions are translated with their failure paths; `PageSource` gives the pages the allocator
returns.
-/

set_option autoImplicit false

namespace BrkKernel.Tmpfs

open Lib Lib.ByteMem
open Brkfs (FsIattr sIsDir sIsReg u32OfInt nsPerSec)

/-! ## Pages -/

/-- The page allocator: call number `n` of `page_alloc(0)` returns `page n`, with the bytes its last
owner left in it, or fails. -/
structure PageSource where
  page : Nat → Option ByteMem
  next : Nat

/-- `page_alloc(0)`. -/
def pageAlloc (ps : PageSource) : Option ByteMem × PageSource :=
  (ps.page ps.next, { ps with next := ps.next + 1 })

/-- `page_zalloc(0)`. -/
def pageZalloc (ps : PageSource) : Option ByteMem × PageSource :=
  ((ps.page ps.next).map fun pg => fill pg 0 pageSize 0, { ps with next := ps.next + 1 })

/-! ## Inodes -/

/-- `struct tmpfs_inode`. `iPage` is the chain that starts at `i_page`. -/
structure TmpfsInode where
  iPage : List ByteMem
  iSize : Nat
  iNo : Nat
  iMode : Nat
  iNlink : Nat
  iRdev : Nat
  iAtime : Nat
  iAtimeNsec : Nat
  iMtime : Nat
  iMtimeNsec : Nat
  iCtime : Nat
  iCtimeNsec : Nat
  iUid : Nat
  iGid : Nat

/-- The fields of `struct fs_inode` that tmpfs files use. -/
structure VfsInode where
  mode : Nat
  size : Int
  uid : Nat
  gid : Nat
  atime : Int
  mtime : Int
  ctime : Int

/-- `(u32)ktime_to_sec(t)`. -/
def secOf (t : Int) : Nat := u32OfInt (t.tdiv nsPerSec)

/-- `(u32)ktime_to_nsec(t)`. -/
def nsecOf (t : Int) : Nat := u32OfInt (t.tmod nsPerSec)

/-- `tmpfs_stamp_times` at time `now`. -/
def tmpfsStampTimes (now : Int) (ip : TmpfsInode) : TmpfsInode :=
  { ip with
    iAtime := secOf now, iAtimeNsec := nsecOf now
    iMtime := secOf now, iMtimeNsec := nsecOf now
    iCtime := secOf now, iCtimeNsec := nsecOf now }

/-- `tmpfs_inode_times_to_vfs`. -/
def tmpfsInodeTimesToVfs (t : TmpfsInode) (inode : VfsInode) : VfsInode :=
  { inode with
    atime := t.iAtime * nsPerSec + t.iAtimeNsec
    mtime := t.iMtime * nsPerSec + t.iMtimeNsec
    ctime := t.iCtime * nsPerSec + t.iCtimeNsec }

/-- `tmpfs_vfs_times_to_inode`. -/
def tmpfsVfsTimesToInode (inode : VfsInode) (t : TmpfsInode) : TmpfsInode :=
  { t with
    iAtime := secOf inode.atime, iAtimeNsec := nsecOf inode.atime
    iMtime := secOf inode.mtime, iMtimeNsec := nsecOf inode.mtime
    iCtime := secOf inode.ctime, iCtimeNsec := nsecOf inode.ctime }

/-- The inode `tmpfs_inode_alloc` makes of the free slot number `ino` at time `now`. -/
def newInode (now : Int) (ino mode rdev uid gid : Nat) : TmpfsInode :=
  tmpfsStampTimes now
    { iPage := [], iSize := 0, iNo := ino, iMode := mode, iNlink := 1, iRdev := rdev
      iAtime := 0, iAtimeNsec := 0, iMtime := 0, iMtimeNsec := 0, iCtime := 0, iCtimeNsec := 0
      iUid := uid, iGid := gid }

/-- `tmpfs_inode_read`: the inode of the VFS for `t`. -/
def tmpfsInodeRead (t : TmpfsInode) : VfsInode :=
  tmpfsInodeTimesToVfs t
    { mode := t.iMode, size := t.iSize, uid := t.iUid, gid := t.iGid, atime := 0, mtime := 0,
      ctime := 0 }

/-- A regular file: the inode of the VFS, the tmpfs inode behind it and the page allocator. -/
structure File where
  inode : VfsInode
  tInode : TmpfsInode
  pages : PageSource

/-- The file of a new inode. -/
def newFile (now : Int) (ino mode rdev uid gid : Nat) (pages : PageSource) : File where
  inode := tmpfsInodeRead (newInode now ino mode rdev uid gid)
  tInode := newInode now ino mode rdev uid gid
  pages := pages

/-! ## The chain of pages -/

/-- The loop of `tmpfs_inode_data_page`, with `k` rounds left and page `i` of the chain in `pg`. The
pages it appended stay in the chain when it fails. -/
def dataPageLoop : Nat → PageSource → List ByteMem → Nat →
    Option Nat × List ByteMem × PageSource
  | 0, ps, chain, i => (some i, chain, ps)
  | k + 1, ps, chain, i =>
    if i + 1 < chain.length then dataPageLoop k ps chain (i + 1)
    else
      match pageZalloc ps with
      | (none, ps1) => (none, chain, ps1)
      | (some pg, ps1) => dataPageLoop k ps1 (chain ++ [pg]) (i + 1)

/-- `tmpfs_inode_data_page`: the number of the page in the chain, and the chain. -/
def tmpfsInodeDataPage (ps : PageSource) (chain : List ByteMem) (pos : Nat) :
    Option Nat × List ByteMem × PageSource :=
  if chain.length = 0 then
    match pageZalloc ps with
    | (none, ps1) => (none, chain, ps1)
    | (some pg, ps1) => dataPageLoop (pos / pageSize) ps1 [pg] 0
  else dataPageLoop (pos / pageSize) ps chain 0

/-- `tmpfs_inode_data_page_ro`: the chain from the page on; `NULL` is the empty list. -/
def tmpfsInodeDataPageRo (chain : List ByteMem) (pos : Nat) : List ByteMem :=
  chain.drop (pos / pageSize)

/-! ## Reads and writes -/

/-- The loop of `tmpfs_read_file_at`: the pages from `pg` on, the buffer, the bytes left and the
position. The destination of every copy is `b`, the start of the buffer. -/
def readLoop (iSize : Nat) : List ByteMem → ByteMem → Nat → Nat → ByteMem × Nat × Nat
  | [], buf, n, off => (buf, n, off)
  | data :: next, buf, n, off =>
    let start := off % pageSize
    let size := min (min (iSize - off) (pageSize - start)) n
    let buf1 := blit buf 0 size (window data start)
    if n - size = 0 then (buf1, n - size, off + size)
    else readLoop iSize next buf1 (n - size) (off + size)

/-- `tmpfs_read_file_at`: the buffer, the number of bytes read and the position afterwards. -/
def tmpfsReadFileAt (inode : TmpfsInode) (buf : ByteMem) (n pos : Nat) :
    Except Errno (ByteMem × Nat × Nat) :=
  if inode.iSize ≤ pos then .ok (buf, 0, pos)
  else
    match tmpfsInodeDataPageRo inode.iPage pos with
    | [] => .error .eio
    | pg :: next =>
      match readLoop inode.iSize (pg :: next) buf n pos with
      | (buf', left, off) => .ok (buf', n - left, off)

/-- How the loop of `tmpfs_write_file_at` ends: its result, the chain, the bytes left and the
position. -/
structure WriteEnd where
  ret : Option Errno
  chain : List ByteMem
  ps : PageSource
  left : Nat
  off : Nat

/-- The loop of `tmpfs_write_file_at` with page `i` of the chain in `pg`: `buf` is left to copy. The
fuel bounds the number of pages. -/
def writeLoop : Nat → PageSource → List ByteMem → Nat → List UInt8 → Nat → WriteEnd
  | 0, ps, chain, _, buf, off => ⟨none, chain, ps, buf.length, off⟩
  | fuel + 1, ps, chain, i, buf, off =>
    if buf.length = 0 then ⟨none, chain, ps, 0, off⟩
    else
      let start := off % pageSize
      let size := min (pageSize - start) buf.length
      let chain1 := chain.modify i fun data => blit data start size (ofList buf)
      let rest := buf.drop size
      if rest.length = 0 then ⟨none, chain1, ps, 0, off + size⟩
      else if i + 1 < chain1.length then writeLoop fuel ps chain1 (i + 1) rest (off + size)
      else
        match pageAlloc ps with
        | (none, ps1) => ⟨some .enomem, chain1, ps1, rest.length, off + size⟩
        | (some pg, ps1) => writeLoop fuel ps1 (chain1 ++ [pg]) (i + 1) rest (off + size)

/-- `tmpfs_write_file_at`. -/
def tmpfsWriteFileAt (ps : PageSource) (chain : List ByteMem) (buf : List UInt8) (pos : Nat) :
    WriteEnd :=
  match tmpfsInodeDataPage ps chain pos with
  | (none, chain1, ps1) => ⟨some .enomem, chain1, ps1, buf.length, pos⟩
  | (some i, chain1, ps1) => writeLoop buf.length ps1 chain1 i buf pos

/-- `tmpfs_file_read`: the result, and the buffer and the position afterwards. -/
def tmpfsFileRead (s : File) (buf : ByteMem) (size pos : Nat) :
    Except Errno Nat × ByteMem × Nat :=
  match tmpfsReadFileAt s.tInode buf size pos with
  | .error e => (.error e, buf, pos)
  | .ok (buf', rcnt, off) => (.ok rcnt, buf', off)

/-- `tmpfs_file_write` at time `now`: the result and the position and the file afterwards. -/
def tmpfsFileWrite (now : Int) (s : File) (buf : List UInt8) (pos : Nat) :
    Except Errno Nat × Nat × File :=
  let w := tmpfsWriteFileAt s.pages s.tInode.iPage buf pos
  let t := { s.tInode with iPage := w.chain }
  match w.ret with
  | some e => (.error e, w.off, { s with tInode := t, pages := w.ps })
  | none =>
    let wcnt := buf.length - w.left
    let size := if (pos + wcnt : Int) > s.inode.size then (pos + wcnt : Int) else s.inode.size
    let inode := { s.inode with size := size, mtime := now }
    (.ok wcnt, w.off,
      { inode := inode
        tInode := tmpfsVfsTimesToInode inode { t with iSize := u32OfInt size }
        pages := w.ps })

/-! ## Attributes -/

/-- The chain after `tmpfs_setattr` cut it to `size` bytes. -/
def cutChain (chain : List ByteMem) (size : Nat) : List ByteMem :=
  let firstFree := u32 ((size + pageSize - 1) / pageSize)
  let kept := chain.take firstFree
  if size % pageSize ≠ 0 then
    kept.modify (size / pageSize) fun last => fill last (size % pageSize)
      (pageSize - size % pageSize) 0
  else kept

/-- The part of `tmpfs_setattr` for `ATTR_SIZE`. -/
def setattrSize (now : Int) (s : File) (size : Int) : Except Errno Unit × File :=
  if size < 0 then (.error .einval, s)
  else if !sIsReg s.inode.mode then
    (.error (if sIsDir s.inode.mode then .eisdir else .einval), s)
  else
    let chain := if size < s.tInode.iSize then cutChain s.tInode.iPage size.toNat
      else s.tInode.iPage
    let t := tmpfsStampTimes now { s.tInode with iPage := chain, iSize := u32OfInt size }
    (.ok (), { s with tInode := t, inode := tmpfsInodeTimesToVfs t { s.inode with size := size } })

/-- The part of `tmpfs_setattr` for `ATTR_MODE`. -/
def setattrMode (now : Int) (s : File) (mode : Nat) : File :=
  let m := s.inode.mode &&& 0o170000 ||| mode &&& 0o7777
  { s with
    inode := { s.inode with mode := m, ctime := now }
    tInode := { s.tInode with iMode := m } }

/-- The part of `tmpfs_setattr` for `ATTR_UID` and `ATTR_GID`. -/
def setattrOwner (now : Int) (s : File) (uid gid : Option Nat) : File :=
  let u := uid.getD s.inode.uid
  let g := gid.getD s.inode.gid
  let m := s.inode.mode &&& (0xffffffff - 0o6000)
  { s with
    inode := { s.inode with uid := u, gid := g, mode := m, ctime := now }
    tInode := { s.tInode with iUid := u, iGid := g, iMode := m } }

/-- The part of `tmpfs_setattr` for `ATTR_ATIME`, `ATTR_MTIME` and `ATTR_CTIME`. -/
def setattrTimes (now : Int) (s : File) (atime mtime : Option Int) : File :=
  let inode := { s.inode with
    atime := atime.getD s.inode.atime, mtime := mtime.getD s.inode.mtime, ctime := now }
  { s with inode := inode, tInode := tmpfsVfsTimesToInode inode s.tInode }

/-- `tmpfs_setattr` after the size: mode, owner and times. -/
def setattrRest (now : Int) (s : File) (attr : FsIattr) : File :=
  let s1 := match attr.mode with
    | some m => setattrMode now s m
    | none => s
  let s2 := if attr.uid.isSome || attr.gid.isSome then setattrOwner now s1 attr.uid attr.gid
    else s1
  if attr.atime.isSome || attr.mtime.isSome || attr.ctime.isSome then
    setattrTimes now s2 attr.atime attr.mtime
  else s2

/-- `tmpfs_setattr` at time `now`. -/
def tmpfsSetattr (now : Int) (s : File) (attr : FsIattr) : Except Errno Unit × File :=
  match attr.size with
  | none => (.ok (), setattrRest now s attr)
  | some size =>
    match setattrSize now s size with
    | (.error e, s1) => (.error e, s1)
    | (.ok (), s1) => (.ok (), setattrRest now s1 attr)

end BrkKernel.Tmpfs
