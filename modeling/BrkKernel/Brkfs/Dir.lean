import BrkKernel.Brkfs.InodeMap

/-!
# Directories

`fs/brkfs/dir.c`. A directory block is a chain of variable-length entries followed by a CRC. Adding
a name takes over the first unused entry that is long enough or the slack behind a used one, or a
new block; removing a name gives its entry to the entry before it, or marks it unused when it is
the first of its block.

The walks of `__brkfs_dir_add_in_block` and `__brkfs_dir_remove_in_block` trust `entry_len`. They
return `none` where the walk has no outcome that the block decides: at an entry of length `0`, where
the loop does not end, and at one longer than the rest of the block, where it leaves the buffer.
-/

set_option autoImplicit false

namespace BrkKernel.Brkfs

open Lib Lib.ByteMem

/-! ## Entries -/

/-- `struct brkfs_dir_entry`, with the bytes of the name that count. -/
structure DirEntry where
  inode : Nat
  entryLen : Nat
  nameLen : Nat
  fileType : Nat
  name : List UInt8
deriving DecidableEq

/-- The entry at offset `o` of a directory block. -/
def dirEntry (buf : ByteMem) (o : Nat) : DirEntry where
  inode := load 4 buf o
  entryLen := load 2 buf (o + 4)
  nameLen := load 1 buf (o + 6)
  fileType := load 1 buf (o + 7)
  name := slice buf (o + 8) (load 1 buf (o + 6))

/-- The fixed fields of the entry at offset `o`. -/
def setDirEntry (buf : ByteMem) (o ino entryLen nameLen fileType : Nat) : ByteMem :=
  store 1 (store 1 (store 2 (store 4 buf o ino) (o + 4) entryLen) (o + 6) nameLen) (o + 7) fileType

/-- The name of the entry at offset `o`. -/
def setDirName (buf : ByteMem) (o : Nat) (name : List UInt8) : ByteMem :=
  blit buf (o + 8) name.length (ofList name)

/-- The file types of `uapi/dirent.h`. -/
def dtUnknown : Nat := 0

/-- `S_IFMT`. -/
def sIfmt (mode : Nat) : Nat := mode &&& 0o170000

/-- `brkfs_mode_to_dt`. -/
def brkfsModeToDt (mode : Nat) : Nat :=
  if sIfmt mode = 0o120000 then 10
  else if sIfmt mode = 0o100000 then 8
  else if sIfmt mode = 0o040000 then 4
  else if sIfmt mode = 0o020000 then 2
  else if sIfmt mode = 0o060000 then 6
  else if sIfmt mode = 0o010000 then 1
  else if sIfmt mode = 0o140000 then 12
  else dtUnknown

/-- `brkfs_dirent_reclen`. -/
def brkfsDirentReclen (nameLen : Nat) : Nat := roundUp (8 + nameLen) 4

/-! ## Blocks -/

/-- `brkfs_dir_set_checksum`. -/
def brkfsDirSetChecksum (buf : ByteMem) (blockSize : Nat) : ByteMem :=
  store 4 buf (blockSize - dirCsumSize) (brkfsCrc32c 0 buf (blockSize - dirCsumSize)).toNat

/-- `brkfs_dir_checksum_ok`. -/
def brkfsDirChecksumOk (buf : ByteMem) (blockSize : Nat) : Bool :=
  load 4 buf (blockSize - dirCsumSize) == (brkfsCrc32c 0 buf (blockSize - dirCsumSize)).toNat

/-- `brkfs_dir_get_block`. -/
def brkfsDirGetBlock (v : Vol) (dir : FsInode) (blkIdx : Nat) (create : Bool) :
    Except Errno Nat × FsInode × Vol :=
  brkfsInodeGetblk v dir (blkIdx * v.sb.sBlocksize) create

/-- `brkfs_dir_read_block`. -/
def brkfsDirReadBlock (v : Vol) (bno : Nat) : Except Errno ByteMem × Vol :=
  match brkfsBlockRead v bno with
  | (.error e, v') => (.error e, v')
  | (.ok buf, v') =>
    if brkfsDirChecksumOk buf v.sb.sBlocksize then (.ok buf, v') else (.error .eio, v')

/-- `brkfs_dir_write_block`. -/
def brkfsDirWriteBlock (v : Vol) (bno : Nat) (buf : ByteMem) : Except Errno Unit × Vol :=
  brkfsBlockWrite v bno (brkfsDirSetChecksum buf v.sb.sBlocksize)

/-- A cleared block with one unused entry of length `usable`. -/
def emptyDirBlock (usable : Nat) : ByteMem := setDirEntry (fun _ => 0) 0 0 (u16 usable) 0 0

/-! ## Walks inside a block -/

/-- The loop of `__brkfs_dir_add_in_block` at offset `o` with `n` bytes left. -/
def dirAddInBlock (buf : ByteMem) (ino : Nat) (name : List UInt8) (ftype : Nat) :
    Nat → Nat → Nat → Option (Except Errno ByteMem)
  | 0, _, _ => none
  | fuel + 1, n, o =>
    let newMin := u16 (brkfsDirentReclen name.length)
    let ent := dirEntry buf o
    let entMin := u16 (brkfsDirentReclen ent.nameLen)
    if n < dirEntryMinLen then some (.error .enospc)
    else if ent.inode = 0 ∧ newMin ≤ ent.entryLen then
      let rest := ent.entryLen - newMin
      let buf' := setDirName (setDirEntry buf o ino newMin name.length ftype) o name
      some (.ok
        (if dirEntryMinLen ≤ rest then setDirEntry buf' (o + newMin) 0 rest 0 0 else buf'))
    else if ent.inode ≠ 0 ∧ newMin + entMin ≤ ent.entryLen then
      let buf' :=
        setDirEntry (store 2 buf (o + 4) entMin) (o + entMin) ino (ent.entryLen - entMin)
          name.length ftype
      some (.ok (setDirName buf' (o + entMin) name))
    else if ent.entryLen = 0 ∨ n < ent.entryLen then none
    else dirAddInBlock buf ino name ftype fuel (n - ent.entryLen) (o + ent.entryLen)

/-- `__brkfs_dir_add_in_block`: the block with the entry, or `-ENOSPC`. -/
def brkfsDirAddInBlock (buf : ByteMem) (bs ino : Nat) (name : List UInt8) (ftype : Nat) :
    Option (Except Errno ByteMem) :=
  dirAddInBlock buf ino name ftype (u16 bs + 1) (u16 bs) 0

/-- The loop of `__brkfs_dir_remove_in_block`; `prev` is the offset of the entry before. -/
def dirRemoveInBlock (buf : ByteMem) (name : List UInt8) :
    Nat → Nat → Nat → Option Nat → Option (Except Errno ByteMem)
  | 0, _, _, _ => none
  | fuel + 1, n, o, prev =>
    let curr := dirEntry buf o
    let l := min name.length curr.nameLen
    if n < dirEntryMinLen then some (.error .enoent)
    else if curr.inode ≠ 0 ∧ curr.nameLen = name.length ∧ slice buf (o + 8) l = name.take l then
      match prev with
      | some p => some (.ok (store 2 buf (p + 4) (u16 (load 2 buf (p + 4) + curr.entryLen))))
      | none => some (.ok (store 4 buf o 0))
    else if curr.entryLen = 0 ∨ n < curr.entryLen then none
    else dirRemoveInBlock buf name fuel (n - curr.entryLen) (o + curr.entryLen) (some o)

/-- `__brkfs_dir_remove_in_block`: the block without the entry, or `-ENOENT`. -/
def brkfsDirRemoveInBlock (buf : ByteMem) (bs : Nat) (name : List UInt8) :
    Option (Except Errno ByteMem) :=
  dirRemoveInBlock buf name (u16 bs + 1) (u16 bs) 0 none

/-- The entry loop of `brkfs_dir_lookup` at offset `o` with `left` bytes left: inode number and file
type, or nothing when the block does not have the name. -/
def dirLookupInBlock (buf : ByteMem) (name : List UInt8) :
    Nat → Nat → Nat → Except Errno (Option (Nat × Nat))
  | 0, _, _ => .ok none
  | fuel + 1, left, o =>
    let ent := dirEntry buf o
    if left < dirEntryMinLen then .ok none
    else if ent.entryLen < dirEntryMinLen ∨ left < ent.entryLen then .error .eio
    else if ent.inode ≠ 0 ∧ ent.nameLen = name.length ∧ slice buf (o + 8) name.length = name then
      .ok (some (ent.inode, ent.fileType))
    else dirLookupInBlock buf name fuel (left - ent.entryLen) (o + ent.entryLen)

/-! ## Operations on a directory -/

/-- `brkfs_dir_ensure_first_block`. -/
def brkfsDirEnsureFirstBlock (v : Vol) (dir : FsInode) : Except Errno Unit × FsInode × Vol :=
  if 0 < dir.size then (.ok (), dir, v)
  else
    match kmalloc v with
    | (false, v) => (.error .enomem, dir, v)
    | (true, v) =>
      match brkfsDataAlloc v with
      | (.error e, v) => (.error e, dir, v)
      | (.ok bno, v) =>
        let bs := v.sb.sBlocksize
        let dir := { dir.setBlock 0 bno with size := bs }
        match brkfsDirWriteBlock v bno (emptyDirBlock (bs - dirCsumSize)) with
        | (r, v) => (r, dir, v)

/-- The block loop of `brkfs_dir_add` from block `bi` on, with the number of blocks left; `none` for
a result means that no block had room. -/
def dirAddBlocks (ino : Nat) (name : List UInt8) (ftype : Nat) : Nat → Nat → FsInode → Vol →
    Option (Option (Except Errno Unit) × FsInode × Vol)
  | 0, _, dir, v => some (none, dir, v)
  | left + 1, bi, dir, v =>
    match brkfsDirGetBlock v dir bi false with
    | (.error e, dir, v) => some (some (.error e), dir, v)
    | (.ok bno, dir, v) =>
      if bno = 0 then dirAddBlocks ino name ftype left (bi + 1) dir v
      else
        match brkfsDirReadBlock v bno with
        | (.error e, v) => some (some (.error e), dir, v)
        | (.ok buf, v) =>
          match brkfsDirAddInBlock buf (v.sb.sBlocksize - dirCsumSize) ino name ftype with
          | none => none
          | some (.ok buf) =>
            match brkfsDirWriteBlock v bno buf with
            | (r, v) => some (some r, dir, v)
          | some (.error _) => dirAddBlocks ino name ftype left (bi + 1) dir v

/-- The end of `brkfs_dir_add`: a new block at index `nblocks` takes the entry. -/
def dirAddNewBlock (v : Vol) (dir : FsInode) (nblocks ino : Nat) (name : List UInt8) (ftype : Nat) :
    Option (Except Errno Unit × FsInode × Vol) :=
  let bs := v.sb.sBlocksize
  let usable := bs - dirCsumSize
  if dir.size % bs ≠ 0 then some (.error .eio, dir, v)
  else
    match brkfsDirGetBlock v dir nblocks true with
    | (.error e, dir, v) => some (.error e, dir, v)
    | (.ok bno, dir, v) =>
      let dir := { dir with size := (nblocks + 1) * bs }
      match brkfsDirAddInBlock (emptyDirBlock usable) usable ino name ftype with
      | none => none
      | some (.ok buf) =>
        match brkfsDirWriteBlock v bno buf with
        | (r, v) => some (r, dir, v)
      | some (.error _) => some (.error .enomem, dir, v)

/-- `brkfs_dir_add`. -/
def brkfsDirAdd (v : Vol) (dir : FsInode) (childIno : Nat) (name : List UInt8) (childMode : Nat) :
    Option (Except Errno Unit × FsInode × Vol) :=
  let ftype := brkfsModeToDt childMode
  if ftype = dtUnknown then some (.error .einval, dir, v)
  else
    match brkfsDirEnsureFirstBlock v dir with
    | (.error e, dir, v) => some (.error e, dir, v)
    | (.ok (), dir, v) =>
      match kmalloc v with
      | (false, v) => some (.error .enomem, dir, v)
      | (true, v) =>
        let nblocks := dir.size / v.sb.sBlocksize
        match dirAddBlocks childIno name ftype nblocks 0 dir v with
        | none => none
        | some (some r, dir, v) => some (r, dir, v)
        | some (none, dir, v) => dirAddNewBlock v dir nblocks childIno name ftype

/-- The block loop of `brkfs_dir_remove`; `err` is the result so far. -/
def dirRemoveBlocks (name : List UInt8) : Nat → Nat → Except Errno Unit → FsInode → Vol →
    Option (Except Errno Unit × FsInode × Vol)
  | 0, _, err, dir, v => some (err, dir, v)
  | left + 1, bi, _, dir, v =>
    match brkfsDirGetBlock v dir bi false with
    | (.error e, dir, v) => some (.error e, dir, v)
    | (.ok bno, dir, v) =>
      if bno = 0 then dirRemoveBlocks name left (bi + 1) (.ok ()) dir v
      else
        match brkfsDirReadBlock v bno with
        | (.error e, v) => some (.error e, dir, v)
        | (.ok buf, v) =>
          match brkfsDirRemoveInBlock buf (v.sb.sBlocksize - dirCsumSize) name with
          | none => none
          | some (.ok buf) =>
            match brkfsDirWriteBlock v bno buf with
            | (r, v) => some (r, dir, v)
          | some (.error _) => dirRemoveBlocks name left (bi + 1) (.ok ()) dir v

/-- `brkfs_dir_remove`. After a block was read the result of a name that is not found is `0`. -/
def brkfsDirRemove (v : Vol) (dir : FsInode) (name : List UInt8) :
    Option (Except Errno Unit × FsInode × Vol) :=
  match kmalloc v with
  | (false, v) => some (.error .enomem, dir, v)
  | (true, v) =>
    dirRemoveBlocks name (divCeil dir.size v.sb.sBlocksize) 0 (.error .enoent) dir v

/-- The block loop of `brkfs_dir_lookup`. -/
def dirLookupBlocks (name : List UInt8) : Nat → Nat → FsInode → Vol → Except Errno (Nat × Nat)
  | 0, _, _, _ => .error .enoent
  | left + 1, bi, dir, v =>
    match brkfsDirGetBlock v dir bi false with
    | (.error e, _, _) => .error e
    | (.ok bno, dir, v) =>
      if bno = 0 then dirLookupBlocks name left (bi + 1) dir v
      else
        match brkfsDirReadBlock v bno with
        | (.error e, _) => .error e
        | (.ok buf, v) =>
          match dirLookupInBlock buf name (v.sb.sBlocksize - dirCsumSize)
              (v.sb.sBlocksize - dirCsumSize) 0 with
          | .error e => .error e
          | .ok (some r) => .ok r
          | .ok none => dirLookupBlocks name left (bi + 1) dir v

/-- `brkfs_dir_lookup`: inode number and file type of a name. -/
def brkfsDirLookup (v : Vol) (dir : FsInode) (name : List UInt8) : Except Errno (Nat × Nat) :=
  if !sIsDir dir.mode then .error .enotdir
  else
    match kmalloc v with
    | (false, _) => .error .enomem
    | (true, v) => dirLookupBlocks name (divCeil dir.size v.sb.sBlocksize) 0 dir v

/-- The block of a new directory, with the entries `.` and `..`. -/
def newDirBlock (selfIno parentIno usable : Nat) : ByteMem :=
  let r1 := brkfsDirentReclen 1
  let r2 := brkfsDirentReclen 2
  let buf := setDirName (setDirEntry (fun _ => 0) 0 selfIno r1 1 4) 0 [0x2e]
  let buf := setDirName (setDirEntry buf r1 parentIno r2 2 4) r1 [0x2e, 0x2e]
  setDirEntry buf (r1 + r2) 0 (usable - r1 - r2) 0 0

/-- `brkfs_new_dir_body`. -/
def brkfsNewDirBody (v : Vol) (inode : FsInode) (parentIno : Nat) :
    Except Errno Unit × FsInode × Vol :=
  if !sIsDir inode.mode then (.error .einval, inode, v)
  else if inode.size ≠ 0 then (.ok (), inode, v)
  else
    match kmalloc v with
    | (false, v) => (.error .enomem, inode, v)
    | (true, v) =>
      let bs := v.sb.sBlocksize
      if bs - dirCsumSize < brkfsDirentReclen 1 + brkfsDirentReclen 2 + dirEntryMinLen then
        (.error .eio, inode, v)
      else
        match brkfsDataAlloc v with
        | (.error e, v) => (.error e, inode, v)
        | (.ok bno, v) =>
          let inode' := { inode.setBlock 0 bno with size := bs }
          match brkfsDirWriteBlock v bno
              (newDirBlock (u32 inode.ino) parentIno (bs - dirCsumSize)) with
          | (r, v) => (r, inode', v)

end BrkKernel.Brkfs
