import BrkKernel.Fs.Permission

/-!
# Names

The calls of `fs/namei.c` that add or remove names, down to the operations of brkfs and tmpfs. A
directory is the list of its entries, without `.` and `..`; the contents of files are left out.

What a path walk finds is an input: the dentry with its name, its inode and the inode of the
directory above it. So is the error with which an operation of the file system fails for want of
memory, space or a working disk.
-/

set_option autoImplicit false

namespace BrkKernel.Fs

open Kern

/-! ## Directories -/

/-- A component of a path. -/
abbrev Name : Type := List UInt8

/-- The file systems. -/
inductive FsKind where
  | brkfs
  | tmpfs
deriving DecidableEq

/-- The inodes by their numbers, the entries of each directory, and what each super block is. -/
structure Vfs where
  inodes : List Inode
  entries : Nat → List (Name × Nat)
  kind : Nat → FsKind

/-- A dentry with what the callers look at: `DCACHE_NEGATIVE`, the directory that
`fs_path_dot_dot` finds, whether a file system is mounted on it, and the inodes of the dentries
above it, for `rename_dentry_is_ancestor`. -/
structure Dentry where
  name : Name
  negative : Bool
  inode : Option Nat
  parent : Nat
  mounted : Bool
  above : List Nat

namespace Vfs

variable (s : Vfs)

def inode (n : Nat) : Option Inode := s.inodes[n]?

def isDir (n : Nat) : Bool := (s.inode n).any Inode.isDir

def kindOf (n : Nat) : FsKind := s.kind ((s.inode n).elim 0 Inode.sb)

/-- `brkfs_dir_lookup`, `tmpfs_dir_lookup`. -/
def lookup (dir : Nat) (name : Name) : Option Nat :=
  ((s.entries dir).find? fun e => e.1 == name).map Prod.snd

/-- `brkfs_dir_add`, `tmpfs_dir_add_entry`. -/
def dirAdd (dir : Nat) (name : Name) (ino : Nat) : Vfs :=
  { s with entries := Function.update s.entries dir (s.entries dir ++ [(name, ino)]) }

/-- `brkfs_dir_remove`, `tmpfs_dir_del_entry`. -/
def dirRemove (dir : Nat) (name : Name) : Vfs :=
  { s with entries := Function.update s.entries dir ((s.entries dir).filter fun e => e.1 != name) }

/-- A new inode of the caller in the file system of the directory. -/
def newInode (c : Cred) (dir : Nat) (mode : BitVec 32) : Inode :=
  ⟨mode, c.fsuid, c.fsgid, (s.inode dir).elim 0 Inode.sb⟩

/-- The common part of the operations that make a node: an entry that is there already is refused,
and everything that is made is taken back if a later part fails. -/
def newNode (c : Cred) (dir : Nat) (d : Dentry) (mode : BitVec 32) (io : Option Errno) :
    Except Errno (Vfs × Nat) :=
  if d.inode.isSome then .error .eexist
  else if (s.lookup dir d.name).isSome then .error .eexist
  else
    match io with
    | some e => .error e
    | none =>
      .ok ({ s with inodes := s.inodes ++ [s.newInode c dir mode] }.dirAdd dir d.name
        s.inodes.length, s.inodes.length)

/-- `brkfs_create`, `tmpfs_create`. -/
def create (c : Cred) (dir : Nat) (d : Dentry) (mode : BitVec 32) (io : Option Errno) :
    Except Errno (Vfs × Nat) := s.newNode c dir d (sIfreg ||| mode) io

/-- `brkfs_mkdir`, `tmpfs_mkdir`. -/
def mkdir (c : Cred) (dir : Nat) (d : Dentry) (mode : BitVec 32) (io : Option Errno) :
    Except Errno (Vfs × Nat) := s.newNode c dir d (sIfdir ||| mode) io

/-- `brkfs_mknod`, `tmpfs_mknod`. -/
def mknod (c : Cred) (dir : Nat) (d : Dentry) (mode : BitVec 32) (io : Option Errno) :
    Except Errno (Vfs × Nat) := s.newNode c dir d mode io

/-- `brkfs_symlink`, `tmpfs_symlink`. -/
def symlink (c : Cred) (dir : Nat) (d : Dentry) (io : Option Errno) : Except Errno (Vfs × Nat) :=
  s.newNode c dir d (sIflnk ||| 0o777) io

/-- `brkfs_link`, `tmpfs_link`. -/
def link (old : Nat) (dir : Nat) (d : Dentry) (io : Option Errno) : Except Errno Vfs :=
  if s.isDir old then .error .eperm
  else if d.inode.isSome then .error .eexist
  else if (s.lookup dir d.name).isSome then .error .eexist
  else
    match io with
    | some e => .error e
    | none => .ok (s.dirAdd dir d.name old)

/-- The removal of an entry, in `unlink` and `rmdir`. Only tmpfs minds if it is not there. -/
def removeNode (dir : Nat) (d : Dentry) (io : Option Errno) : Except Errno Vfs :=
  if s.kindOf dir = .tmpfs ∧ (s.lookup dir d.name).isNone then .error .enoent
  else
    match io with
    | some e => .error e
    | none => .ok (s.dirRemove dir d.name)

/-- `brkfs_unlink`, `tmpfs_unlink`. -/
def unlink (dir : Nat) (d : Dentry) (io : Option Errno) : Except Errno Vfs :=
  if d.inode.any s.isDir then .error .eisdir else s.removeNode dir d io

/-- `brkfs_rmdir`, `tmpfs_rmdir`. -/
def rmdir (dir : Nat) (d : Dentry) (io : Option Errno) : Except Errno Vfs :=
  if !d.inode.any s.isDir then .error .enotdir
  else if d.inode.any fun n => !(s.entries n).isEmpty then .error .enotempty
  else s.removeNode dir d io

/-- What `brkfs_rename` does to the entries. -/
def moved (oldDir newDir ino : Nat) (od nd : Dentry) : Vfs :=
  let s' := if nd.inode.isSome then s.dirRemove newDir nd.name else s
  (s'.dirAdd newDir nd.name ino).dirRemove oldDir od.name

/-- `brkfs_rename`, after its checks of the inodes, which `do_renameat` has made: the two
directories still have what the dentries say. -/
def brkfsRename (oldDir newDir ino : Nat) (od nd : Dentry) (io : Option Errno) :
    Except Errno Vfs :=
  if s.lookup oldDir od.name ≠ some ino then .error .enoent
  else if (s.lookup newDir nd.name).isSome ∧ s.lookup newDir nd.name ≠ nd.inode then
    .error .eexist
  else if (s.lookup newDir nd.name).isNone ∧ nd.inode.isSome then .error .enoent
  else if nd.inode.any fun n => s.isDir n && !(s.entries n).isEmpty then .error .enotempty
  else
    match io with
    | some e => .error e
    | none => .ok (s.moved oldDir newDir ino od nd)

/-- `rename` of the file system of the directory. -/
def rename (oldDir newDir ino : Nat) (od nd : Dentry) (io : Option Errno) : Except Errno Vfs :=
  match s.kindOf oldDir with
  | .brkfs => s.brkfsRename oldDir newDir ino od nd io
  | .tmpfs => .error .eopnotsupp

end Vfs

/-! ## The calls -/

section Calls

variable (c : Cred)

/-- The common part of the calls that make a node. -/
def makeNode (look : Except Errno Dentry) (s : Vfs)
    (op : Nat → Dentry → Except Errno (Vfs × Nat)) : Except Errno Vfs :=
  match look with
  | .error e => .error e
  | .ok d =>
    if !d.negative then .error .eexist
    else
      match mayCreateIn c (s.inode d.parent) with
      | some e => .error e
      | none => (op d.parent d).map Prod.fst

/-- `do_mkdirat`. -/
def doMkdirat (mode : BitVec 32) (look : Except Errno Dentry) (io : Option Errno) (s : Vfs) :
    Except Errno Vfs :=
  makeNode c look s fun dir d => s.mkdir c dir d (applyUmask c mode ||| sIfdir) io

/-- `do_mknodat`. -/
def doMknodat (mode : BitVec 32) (look : Except Errno Dentry) (io : Option Errno) (s : Vfs) :
    Except Errno Vfs :=
  if !c.capable capMknod then .error .eperm
  else
    makeNode c look s fun dir d =>
      s.mknod c dir d (applyUmask c (mode &&& 0o7777) ||| (mode &&& sIfmt)) io

/-- `do_symlinkat`. -/
def doSymlinkat (look : Except Errno Dentry) (io : Option Errno) (s : Vfs) : Except Errno Vfs :=
  makeNode c look s fun dir d => s.symlink c dir d io

/-- `do_creat`: no check of the directory, and the mode as it is. -/
def doCreat (mode : BitVec 32) (look : Except Errno Dentry) (io : Option Errno) (s : Vfs) :
    Except Errno Vfs :=
  match look with
  | .error e => .error e
  | .ok d =>
    if !d.negative then .error .eexist
    else (s.create c d.parent d mode io).map Prod.fst

/-- `do_linkat`. -/
def doLinkat (oldLook newLook : Except Errno Dentry) (io : Option Errno) (s : Vfs) :
    Except Errno Vfs :=
  match oldLook with
  | .error e => .error e
  | .ok od =>
    if od.negative then .error .enoent
    else
      match newLook with
      | .error e => .error e
      | .ok nd =>
        if !nd.negative then .error .eexist
        else
          match od.inode with
          | none => .error .enoent
          | some old =>
            if s.isDir old ∨ old = nd.parent then .error .eperm
            else
              match mayCreateIn c (s.inode nd.parent) with
              | some e => .error e
              | none =>
                if !(s.inode old).any (inodeOwnerOrCapable c) then .error .eperm
                else s.link old nd.parent nd io

/-- The common part of the calls that remove a name. -/
def dropNode (look : Except Errno Dentry) (s : Vfs)
    (op : Nat → Dentry → Except Errno Vfs) : Except Errno Vfs :=
  match look with
  | .error e => .error e
  | .ok d =>
    if d.negative then .error .enoent
    else
      match mayDelete c (s.inode d.parent) (d.inode.bind s.inode) with
      | some e => .error e
      | none => op d.parent d

/-- `do_unlinkat`. -/
def doUnlinkat (look : Except Errno Dentry) (io : Option Errno) (s : Vfs) : Except Errno Vfs :=
  dropNode c look s fun dir d => s.unlink dir d io

/-- `do_rmdir`. -/
def doRmdir (look : Except Errno Dentry) (io : Option Errno) (s : Vfs) : Except Errno Vfs :=
  dropNode c look s fun dir d => s.rmdir dir d io

/-- `RENAME_NOREPLACE`. -/
def renameNoreplace : BitVec 32 := 1

/-- The checks of `do_renameat` on the inodes it has found, in their order. Nothing is done for two
names of one inode. -/
inductive RenameCheck where
  | fail (e : Errno)
  | nothing
  | go

def renameCheck (flags : BitVec 32) (od nd : Dentry) (s : Vfs) : RenameCheck :=
  let oldInode := od.inode.bind s.inode
  let newInode := nd.inode.bind s.inode
  if oldInode.isNone ∨ !s.isDir od.parent ∨ !s.isDir nd.parent then .fail .enotdir
  else if oldInode.map Inode.sb ≠ (s.inode nd.parent).map Inode.sb then .fail .exdev
  else if od.mounted ∨ nd.mounted then .fail .ebusy
  else if od.inode = nd.inode then .nothing
  else if oldInode.any Inode.isDir ∧ nd.above.any (some · == od.inode) then .fail .einval
  else if oldInode.any Inode.isDir ∧ od.parent ≠ nd.parent then .fail .exdev
  else if nd.inode.isSome ∧ flags &&& renameNoreplace ≠ 0 then .fail .eexist
  else if nd.inode.isSome ∧ oldInode.any Inode.isDir ∧ !newInode.any Inode.isDir then
    .fail .enotdir
  else if nd.inode.isSome ∧ !oldInode.any Inode.isDir ∧ newInode.any Inode.isDir then
    .fail .eisdir
  else .go

/-- The check of the new directory in `do_renameat`. -/
def mayReplace (nd : Dentry) (s : Vfs) : Option Errno :=
  if nd.inode.isSome then mayDelete c (s.inode nd.parent) (nd.inode.bind s.inode)
  else inodePermission c (s.inode nd.parent) (mayWrite ||| mayExec)

/-- `do_renameat`. -/
def doRenameat (flags : BitVec 32) (oldLook newLook : Except Errno Dentry) (io : Option Errno)
    (s : Vfs) : Except Errno Vfs :=
  if flags &&& ~~~renameNoreplace ≠ 0 then .error .einval
  else
    match oldLook with
    | .error e => .error e
    | .ok od =>
      if od.negative then .error .enoent
      else
        match newLook with
        | .error e => .error e
        | .ok nd =>
          match renameCheck flags od nd s with
          | .fail e => .error e
          | .nothing => .ok s
          | .go =>
            match mayDelete c (s.inode od.parent) (od.inode.bind s.inode) with
            | some e => .error e
            | none =>
              match mayReplace c nd s with
              | some e => .error e
              | none => s.rename od.parent nd.parent (od.inode.getD 0) od nd io

/-! ### `do_openat` -/

def oWronly : BitVec 32 := 1

def oRdwr : BitVec 32 := 2

/-- `O_ACCMODE`. -/
def oAccmode : BitVec 32 := 3

def oCreat : BitVec 32 := 0o100

def oExcl : BitVec 32 := 0o200

def oTrunc : BitVec 32 := 0o1000

def oAppend : BitVec 32 := 0o2000

def oNofollow : BitVec 32 := 0o400000

/-- A flag is set. -/
def hasFlag (flags flag : BitVec 32) : Bool := flags &&& flag != 0

/-- The modes of a `struct fs_file`: `FMODE_READ`, `FMODE_WRITE` and `FMODE_DIR`. -/
structure FMode where
  read : Bool
  write : Bool
  dir : Bool
deriving DecidableEq

/-- `struct fs_file`. -/
structure OpenFile where
  ino : Nat
  fmode : FMode
deriving DecidableEq

/-- What `do_openat` meets on its way: what the two path walks find, and the errors of the two
creations, of `fs_file_alloc`, of the truncation and of the seek to the end. -/
structure OpenEnv where
  look : Except Errno Dentry
  lookAgain : Except Errno Dentry
  io : Option Errno
  ioAgain : Option Errno
  alloc : Option Errno
  trunc : Option Errno
  seek : Option Errno

/-- One pass from `retry` to the inode of the file. -/
inductive Attempt where
  | fail (e : Errno)
  | retry
  | found (s : Vfs) (ino : Option Nat)

/-- The creation of the file. A name that has come up since the lookup is looked up again, once. -/
def openCreate (flags mode : BitVec 32) (d : Dentry) (io : Option Errno) (retried : Bool)
    (s : Vfs) : Attempt :=
  match mayCreateIn c (s.inode d.parent) with
  | some e => .fail e
  | none =>
    match s.create c d.parent d (applyUmask c mode) io with
    | .ok (s', ino) => .found s' (some ino)
    | .error e => if e = .eexist ∧ !hasFlag flags oExcl ∧ !retried then .retry else .fail e

/-- `O_NOFOLLOW` refuses a symbolic link, unless the file is to be made. -/
def openFollows (flags : BitVec 32) (d : Dentry) (s : Vfs) : Bool :=
  !(hasFlag flags oNofollow && !(hasFlag flags oCreat && hasFlag flags oExcl) &&
    (d.inode.bind s.inode).any fun i => i.hasType sIflnk)

def openAttempt (flags mode : BitVec 32) (look : Except Errno Dentry) (io : Option Errno)
    (retried : Bool) (s : Vfs) : Attempt :=
  match look with
  | .error e => .fail e
  | .ok d =>
    if !openFollows flags d s then .fail .eloop
    else if d.negative then
      if !hasFlag flags oCreat then .fail .enoent else openCreate c flags mode d io retried s
    else if hasFlag flags oExcl then .fail .eexist
    else .found s d.inode

/-- The mode of the file, from the flags. -/
def openFmode (flags : BitVec 32) (isDir : Bool) : FMode :=
  if hasFlag flags oRdwr then ⟨true, true, isDir⟩
  else if hasFlag flags oWronly then ⟨false, true, isDir⟩
  else ⟨decide (flags = 0), false, isDir⟩

/-- `perm_mask`. -/
def openPermMask (flags : BitVec 32) : BitVec 32 :=
  (if flags &&& oAccmode = oWronly then 0 else mayRead) |||
    (if flags &&& oAccmode = 0 then 0 else mayWrite) |||
    (if hasFlag flags oTrunc then mayWrite else 0)

/-- The inode without its set-id bits. -/
def Vfs.removePrivs (s : Vfs) (ino : Nat) : Vfs :=
  { s with inodes := s.inodes.modify ino fun i => i.removePrivs c }

/-- The end of `do_openat`, with the inode of the file. -/
def openFinish (flags : BitVec 32) (env : OpenEnv) (s : Vfs) (ino : Nat) :
    Except Errno (Vfs × OpenFile) :=
  match inodePermission c (s.inode ino) (openPermMask flags) with
  | some e => .error e
  | none =>
    match env.alloc with
    | some e => .error e
    | none =>
      match (if hasFlag flags oTrunc then env.trunc else none) with
      | some e => .error e
      | none =>
        match (if hasFlag flags oAppend then env.seek else none) with
        | some e => .error e
        | none =>
          .ok (if openPermMask flags &&& mayWrite ≠ 0 then s.removePrivs c ino else s,
            ⟨ino, openFmode flags (s.isDir ino)⟩)

/-- What follows the passes. -/
def openRest (flags : BitVec 32) (env : OpenEnv) : Attempt → Except Errno (Vfs × OpenFile)
  | .fail e => .error e
  | .retry => .error .eexist
  | .found _ none => .error .enoent
  | .found s (some ino) => openFinish c flags env s ino

/-- `do_openat`. -/
def doOpenat (flags mode : BitVec 32) (env : OpenEnv) (s : Vfs) : Except Errno (Vfs × OpenFile) :=
  if hasFlag flags oRdwr && hasFlag flags oWronly then .error .einval
  else
    match openAttempt c flags mode env.look env.io false s with
    | .retry =>
      openRest c flags env (openAttempt c flags mode env.lookAgain env.ioAgain true s)
    | a => openRest c flags env a

end Calls

end BrkKernel.Fs
