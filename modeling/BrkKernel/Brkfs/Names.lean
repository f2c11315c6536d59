import BrkKernel.Kern.Base
import Mathlib.Data.Finmap

/-!
# The names of a brkfs volume

The operations of `fs/brkfs/inode.c` on names and on inodes: the eight calls that change a
directory, the list of orphans, the eviction of an inode and the clean-up at the next mount. A
directory is a map from names to inode numbers, without `.` and `..`; `NamesDir` says for which
blocks it stands, on a volume of at most `2 ^ 32` bytes. An inode has a slot in the inode table of
its volume and, while something refers to it, a copy in memory, and the two agree only where the
source writes the one from the other.

Every call of a function that can fail for want of memory, space or a working disk has a `Site`; an
`Env` says at which of them the call fails, and which blocks a directory or a file grows by. The
volumes are numbered, because `rmdir` can be handed a directory of one volume and a dentry of
another.
-/

set_option autoImplicit false

namespace BrkKernel.Names

open Function

/-! ## The state -/

/-- A component of a path. -/
abbrev Name : Type := List UInt8

/-- The entries of a directory. -/
abbrev Dir : Type := Finmap fun _ : Name => Nat

/-- An inode: its super block and its number. -/
structure Node where
  sb : Nat
  ino : Nat
deriving DecidableEq, Repr

/-- `mode & S_IFMT`, as `brkfs_mode_to_dt` tells the types apart. -/
inductive Kind where
  | reg | dir | lnk | chr | blk | fifo | sock | unknown
deriving DecidableEq, Repr

/-- What a slot of the inode table holds, and likewise a `struct fs_inode` with its
`brkfs_inode_info`. The data and pointer blocks are listed without their tree. -/
structure Inode where
  kind : Kind
  nlink : Nat
  nextOrphan : Nat
  blocks : List Nat
deriving DecidableEq, Repr

/-- The volumes and the inodes in memory. `orphaned` records the calls of `brkfs_orphan_add`, the
last one first; nothing reads it. -/
structure Sys where
  dir : Node → Dir
  table : Node → Option Inode
  core : Node → Option Inode
  used : Node → Bool
  busy : Nat → Nat → Bool
  orphan : Nat → Nat
  inodesCount : Nat → Nat
  orphaned : List Node

/-- The calls that can fail. -/
inductive Site where
  | lookup | lookupNew | alloc | init | getLocked | load | fill | isEmpty | remove | add
  | removeOld | undoRemove | undoAdd | writeTarget | writeInode | writeDir | writeNewDir
deriving DecidableEq, Repr

/-- What a call meets: the failures, and the blocks that the directory and the new inode get. -/
structure Env where
  fault : Site → Option Errno
  grow : List Nat
  data : List Nat

/-- A `struct fs_dentry`: its name and its inode, `none` for a negative one. -/
structure Dentry where
  name : Name
  inode : Option Node
deriving DecidableEq, Repr

/-- The result of a call: its error or `0`, and the state it leaves. -/
abbrev Res : Type := Except Errno Unit × Sys

/-- `if (err) goto out;`. -/
def Res.next (r : Res) (k : Sys → Res) : Res :=
  match r.1 with
  | .error e => (.error e, r.2)
  | .ok _ => k r.2

namespace Sys

variable (s : Sys)

def setCore (n : Node) (i : Option Inode) : Sys := { s with core := update s.core n i }

def setTable (n : Node) (i : Option Inode) : Sys := { s with table := update s.table n i }

/-- The inode number that a directory has for a name. -/
def entry (d : Node) (name : Name) : Option Nat := (s.dir d).lookup name

def insertEntry (d : Node) (name : Name) (ino : Nat) : Sys :=
  { s with dir := update s.dir d ((s.dir d).insert name ino) }

def eraseEntry (d : Node) (name : Name) : Sys :=
  { s with dir := update s.dir d ((s.dir d).erase name) }

/-- A change to an inode in memory. -/
def modify (n : Node) (f : Inode → Inode) : Sys := s.setCore n ((s.core n).map f)

/-- `inode->mode & S_IFMT` of an inode in memory. -/
def kindOf (n : Node) : Kind := ((s.core n).map Inode.kind).getD .unknown

/-- `S_ISDIR` of an inode in memory. -/
def isDir (n : Node) : Bool := s.kindOf n = .dir

/-- The inode has further blocks. -/
def addBlocks (n : Node) (bs : List Nat) : Sys :=
  { s.modify n fun i => { i with blocks := i.blocks ++ bs } with
    busy := update s.busy n.sb fun b => b ∈ bs ∨ s.busy n.sb b }

/-- `inode->nlink++` and `inode->nlink--` on an `unsigned int`. -/
def incNlink (n : Node) : Sys := s.modify n fun i => { i with nlink := u32 (i.nlink + 1) }

def decNlink (n : Node) : Sys := s.modify n fun i => { i with nlink := u32 (i.nlink + 4294967295) }

def setNlink (n : Node) (k : Nat) : Sys := s.modify n fun i => { i with nlink := k }

/-- `inode->nlink == 0`. -/
def unlinked (n : Node) : Bool := (s.core n).any fun i => i.nlink = 0

/-! ## Inodes -/

/-- The numbers that `brkfs_inode_read` and `brkfs_inode_write` accept. -/
def validIno (sb ino : Nat) : Prop := 1 ≤ ino ∧ ino ≤ s.inodesCount sb

instance (sb ino : Nat) : Decidable (s.validIno sb ino) := inferInstanceAs (Decidable (_ ∧ _))

/-- `brkfs_inode_read`; a slot with a wrong `i_ino` or checksum is `none`. -/
def brkfsInodeRead (sb ino : Nat) : Except Errno Inode :=
  if ¬ s.validIno sb ino then .error .einval
  else
    match s.table ⟨sb, ino⟩ with
    | none => .error .eio
    | some i => .ok i

/-- `brkfs_inode_write`: the slot of the volume `sb` gets what the inode is in memory. -/
def brkfsInodeWrite (sb : Nat) (n : Node) (fault : Option Errno) : Res :=
  if ¬ s.validIno sb n.ino then (.error .einval, s)
  else
    match fault with
    | some e => (.error e, s)
    | none => (.ok (), s.setTable ⟨sb, n.ino⟩ (s.core n))

/-- `brkfs_bitmap_alloc` of the inode bitmap: the first bit that is clear. -/
def freeBit (sb : Nat) : Option Nat :=
  (List.range (s.inodesCount sb)).find? fun bit => !s.used ⟨sb, bit + 1⟩

/-- `brkfs_inode_alloc`. -/
def brkfsInodeAlloc (sb : Nat) (fault : Option Errno) : Except Errno Nat × Sys :=
  match fault with
  | some e => (.error e, s)
  | none =>
    match s.freeBit sb with
    | none => (.error .enospc, s)
    | some bit =>
      (.ok (bit + 1), { s with used := update s.used ⟨sb, bit + 1⟩ true })

/-- `brkfs_inode_free`. -/
def brkfsInodeFree (sb ino : Nat) : Sys :=
  if s.validIno sb ino then { s with used := update s.used ⟨sb, ino⟩ false } else s

/-- `brkfs_disk_inode_init`: the slot is written from a stub that is never hashed. -/
def brkfsDiskInodeInit (sb ino : Nat) (kind : Kind) (nlink : Nat) (fault : Option Errno) : Res :=
  if ¬ s.validIno sb ino then (.error .einval, s)
  else
    match fault with
    | some e => (.error e, s)
    | none => (.ok (), s.setTable ⟨sb, ino⟩ (some ⟨kind, nlink, 0, []⟩))

/-- `brkfs_init_loaded_inode`. -/
def brkfsInitLoadedInode (n : Node) (fault : Option Errno) : Res :=
  match s.brkfsInodeRead n.sb n.ino with
  | .error e => (.error e, s)
  | .ok i =>
    match fault with
    | some e => (.error e, s)
    | none => (.ok (), s.setCore n (some i))

/-- `brkfs_truncate_inode_blocks` to size `0`, of the inode with the blocks `bs`. Without its
blocks a directory has no entries. -/
def freeBlocks (n : Node) (bs : List Nat) : Sys :=
  { s with
    busy := update s.busy n.sb fun b => b ∉ bs ∧ s.busy n.sb b
    dir := update s.dir n ∅ }

/-! ## The list of orphans -/

/-- `brkfs_orphan_add`. -/
def brkfsOrphanAdd (sb : Nat) (n : Node) : Sys :=
  { s.modify n fun i => { i with nextOrphan := s.orphan sb } with
    orphan := update s.orphan sb n.ino
    orphaned := n :: s.orphaned }

/-- A slot on the list gets a new successor, on the disk only. -/
def setNextOnDisk (sb prev next : Nat) : Sys :=
  match s.brkfsInodeRead sb prev with
  | .error _ => s
  | .ok i => s.setTable ⟨sb, prev⟩ (some { i with nextOrphan := next })

/-- The loop of `brkfs_orphan_remove`, with the guard as its first argument. -/
def orphanRemoveLoop (sb ino : Nat) : Nat → Nat → Nat → Sys
  | 0, _, _ => s
  | guard + 1, prev, cur =>
    if cur = 0 then s
    else
      match s.brkfsInodeRead sb cur with
      | .error _ => s
      | .ok i =>
        if cur = ino then
          if prev = 0 then { s with orphan := update s.orphan sb i.nextOrphan }
          else s.setNextOnDisk sb prev i.nextOrphan
        else orphanRemoveLoop sb ino guard cur i.nextOrphan

/-- `brkfs_orphan_remove`. -/
def brkfsOrphanRemove (sb ino : Nat) : Sys :=
  s.orphanRemoveLoop sb ino (s.inodesCount sb) 0 (s.orphan sb)

/-- `brkfs_evict_inode` and the end of `fs_inode_put`, which takes the inode out of memory. -/
def brkfsEvictInode (n : Node) : Sys :=
  match s.core n with
  | none => s
  | some i =>
    if 0 < i.nlink then (s.brkfsInodeWrite n.sb n none).2.setCore n none
    else
      let s₁ := (s.brkfsOrphanRemove n.sb n.ino).freeBlocks n i.blocks
      let s₂ := s₁.setCore n (some { i with nlink := 0, nextOrphan := 0, blocks := [] })
      ((s₂.brkfsInodeWrite n.sb n none).2.brkfsInodeFree n.sb n.ino).setCore n none

/-- `brkfs_discard_new_inode`, of an inode with no other holder. -/
def brkfsDiscardNewInode (n : Node) : Sys := (s.setNlink n 0).brkfsEvictInode n

/-- The loop of `brkfs_orphan_cleanup`, with the guard as its first argument. -/
def orphanCleanupLoop (sb : Nat) : Nat → Sys → Nat → Sys
  | 0, s, ino => { s with orphan := update s.orphan sb ino }
  | guard + 1, s, ino =>
    if ino = 0 then { s with orphan := update s.orphan sb 0 }
    else
      match s.brkfsInodeRead sb ino with
      | .error _ => { s with orphan := update s.orphan sb ino }
      | .ok i =>
        let s₁ := s.freeBlocks ⟨sb, ino⟩ i.blocks
        let s₂ := s₁.setTable ⟨sb, ino⟩ (some { i with nlink := 0, nextOrphan := 0, blocks := [] })
        orphanCleanupLoop sb guard (s₂.brkfsInodeFree sb ino) i.nextOrphan

/-- `brkfs_orphan_cleanup`. -/
def brkfsOrphanCleanup (sb : Nat) : Sys :=
  orphanCleanupLoop sb (s.inodesCount sb) s (s.orphan sb)

/-! ## Directories -/

/-- `brkfs_dir_lookup`. -/
def brkfsDirLookup (d : Node) (name : Name) (fault : Option Errno) : Except Errno Nat :=
  if !s.isDir d then .error .enotdir
  else
    match fault with
    | some e => .error e
    | none =>
      match s.entry d name with
      | none => .error .enoent
      | some ino => .ok ino

/-- The record of the new name is written. If it cuts an unused entry short, the directory becomes
what the old bytes behind the record make of it, `cut`. -/
def addEntry (d : Node) (name : Name) (ino : Nat) (cut : Option Dir) : Sys :=
  cut.elim (s.insertEntry d name ino) fun m => { s with dir := update s.dir d m }

/-- `brkfs_dir_add`. -/
def brkfsDirAdd (d : Node) (ino : Nat) (name : Name) (kind : Kind) (grow : List Nat)
    (fault : Option Errno) (cut : Option Dir := none) : Res :=
  if kind = .unknown then (.error .einval, s)
  else
    match fault with
    | some e => (.error e, s)
    | none => (.ok (), (s.addBlocks d grow).addEntry d name ino cut)

/-- `brkfs_dir_remove`: a name that no block has is no error, unless there is no block at all. -/
def brkfsDirRemove (d : Node) (name : Name) (fault : Option Errno) : Res :=
  match fault with
  | some e => (.error e, s)
  | none =>
    if (s.entry d name).isNone ∧ (s.core d).all fun i => i.blocks.isEmpty then (.error .enoent, s)
    else (.ok (), s.eraseEntry d name)

/-- `brkfs_dir_is_empty`. -/
def brkfsDirIsEmpty (n : Node) (fault : Option Errno) : Except Errno Bool :=
  if !s.isDir n then .error .enotdir
  else
    match fault with
    | some e => .error e
    | none => .ok ((s.dir n).keys = ∅)

/-- `brkfs_new_dir_body`: a block with `.` and `..` alone. -/
def brkfsNewDirBody (n : Node) (data : List Nat) (fault : Option Errno) : Res :=
  match fault with
  | some e => (.error e, s)
  | none => (.ok (), { s.addBlocks n data with dir := update s.dir n ∅ })

/-- `brkfs_file_write_at`: the file grows by some blocks. -/
def brkfsFileWriteAt (n : Node) (data : List Nat) (fault : Option Errno) : Res :=
  match fault with
  | some e => (.error e, s)
  | none => (.ok (), s.addBlocks n data)

/-- A write to an open file, which ends in `brkfs_inode_write`. -/
def brkfsFileWrite (n : Node) (data : List Nat) (fault : Option Errno) : Res :=
  (s.addBlocks n data).brkfsInodeWrite n.sb n fault

/-! ## The operations -/

/-- `brkfs_lookup`, as far as the inode goes: one that is not in memory is loaded. -/
def brkfsLookup (e : Env) (d : Node) (name : Name) : Res :=
  match s.brkfsDirLookup d name (e.fault .lookup) with
  | .error x => if x = .enoent then (.ok (), s) else (.error x, s)
  | .ok ino =>
    match e.fault .getLocked with
    | some x => (.error x, s)
    | none =>
      if (s.core ⟨d.sb, ino⟩).isSome then (.ok (), s)
      else s.brkfsInitLoadedInode ⟨d.sb, ino⟩ (e.fault .load)

/-- The common beginning of the operations that make an inode: the name is free, and the inode is
allocated, its slot set up and then loaded. An inode that cannot be loaded stays allocated. -/
def newInode (e : Env) (d : Node) (dentry : Dentry) (kind : Kind) (nlink : Nat) :
    Except Errno Node × Sys :=
  if dentry.inode.isSome then (.error .eexist, s)
  else
    match s.brkfsDirLookup d dentry.name (e.fault .lookup) with
    | .ok _ => (.error .eexist, s)
    | .error x =>
      if x ≠ .enoent then (.error x, s)
      else
        match s.brkfsInodeAlloc d.sb (e.fault .alloc) with
        | (.error x, s₁) => (.error x, s₁)
        | (.ok ino, s₁) =>
          match s₁.brkfsDiskInodeInit d.sb ino kind nlink (e.fault .init) with
          | (.error x, s₂) => (.error x, s₂.brkfsInodeFree d.sb ino)
          | (.ok _, s₂) =>
            match e.fault .getLocked with
            | some x => (.error x, s₂.brkfsInodeFree d.sb ino)
            | none =>
              match s₂.brkfsInitLoadedInode ⟨d.sb, ino⟩ (e.fault .load) with
              | (.error x, s₃) => (.error x, s₃)
              | (.ok _, s₃) => (.ok ⟨d.sb, ino⟩, s₃)

/-- The rest of an operation, with the new inode. -/
def withInode (r : Except Errno Node × Sys) (k : Node → Sys → Res) : Res :=
  match r with
  | (.error x, s₁) => (.error x, s₁)
  | (.ok n, s₁) => k n s₁

/-- A step after which the new inode is thrown away again if it fails. -/
def orDiscard (n : Node) (r : Res) (k : Sys → Res) : Res :=
  match r.1 with
  | .error x => (.error x, r.2.brkfsDiscardNewInode n)
  | .ok _ => k r.2

/-- `brkfs_create` and `brkfs_mknod`, which differ in the mode. -/
def createNode (e : Env) (d : Node) (dentry : Dentry) (kind : Kind) : Res :=
  withInode (s.newInode e d dentry kind 1) fun n s₁ =>
    orDiscard n (s₁.brkfsDirAdd d n.ino dentry.name kind e.grow (e.fault .add)) fun s₂ =>
      (s₂.brkfsInodeWrite d.sb d (e.fault .writeDir)).next fun s₃ =>
        s₃.brkfsInodeWrite d.sb n (e.fault .writeInode)

/-- `brkfs_create`. -/
def brkfsCreate (e : Env) (d : Node) (dentry : Dentry) : Res := s.createNode e d dentry .reg

/-- `brkfs_mknod`. -/
def brkfsMknod (e : Env) (d : Node) (dentry : Dentry) (kind : Kind) : Res :=
  s.createNode e d dentry kind

/-- `brkfs_link`. -/
def brkfsLink (e : Env) (old : Node) (d : Node) (dentry : Dentry) : Res :=
  if s.isDir old then (.error .eperm, s)
  else if dentry.inode.isSome then (.error .eexist, s)
  else
    match s.brkfsDirLookup d dentry.name (e.fault .lookup) with
    | .ok _ => (.error .eexist, s)
    | .error x =>
      if x ≠ .enoent then (.error x, s)
      else
        (s.brkfsDirAdd d old.ino dentry.name (s.kindOf old) e.grow (e.fault .add)).next fun s₁ =>
            match (s₁.incNlink old).brkfsInodeWrite d.sb old (e.fault .writeInode) with
            | (.error x, s₂) =>
              (.error x, (s₂.brkfsDirRemove d dentry.name (e.fault .undoRemove)).2.decNlink old)
            | (.ok _, s₂) => s₂.brkfsInodeWrite d.sb d (e.fault .writeDir)

/-- `brkfs_unlink`. -/
def brkfsUnlink (e : Env) (d : Node) (n : Node) (name : Name) : Res :=
  if s.isDir n then (.error .eisdir, s)
  else
    (s.brkfsDirRemove d name (e.fault .remove)).next fun s₁ =>
      let s₂ := s₁.decNlink n
      let s₃ := if s₂.unlinked n then s₂.brkfsOrphanAdd d.sb n else s₂
      (s₃.brkfsInodeWrite d.sb d (e.fault .writeDir)).next fun s₄ =>
        s₄.brkfsInodeWrite d.sb n (e.fault .writeInode)

/-- `brkfs_symlink`. -/
def brkfsSymlink (e : Env) (d : Node) (dentry : Dentry) : Res :=
  withInode (s.newInode e d dentry .lnk 1) fun n s₁ =>
    orDiscard n (s₁.brkfsFileWriteAt n e.data (e.fault .fill)) fun s₂ =>
      orDiscard n (s₂.brkfsDirAdd d n.ino dentry.name .lnk e.grow (e.fault .add)) fun s₃ =>
        (s₃.brkfsInodeWrite d.sb n (e.fault .writeInode)).next fun s₄ =>
          s₄.brkfsInodeWrite d.sb d (e.fault .writeDir)

/-- `brkfs_mkdir`. -/
def brkfsMkdir (e : Env) (d : Node) (dentry : Dentry) : Res :=
  withInode (s.newInode e d dentry .dir 2) fun n s₁ =>
    orDiscard n (s₁.brkfsNewDirBody n e.data (e.fault .fill)) fun s₂ =>
      orDiscard n (s₂.brkfsInodeWrite d.sb n (e.fault .writeInode)) fun s₃ =>
        orDiscard n (s₃.brkfsDirAdd d n.ino dentry.name .dir e.grow (e.fault .add)) fun s₄ =>
          match (s₄.incNlink d).brkfsInodeWrite d.sb d (e.fault .writeDir) with
          | (.error x, s₅) =>
            (.error x, ((s₅.decNlink d).brkfsDirRemove d dentry.name
              (e.fault .undoRemove)).2.brkfsDiscardNewInode n)
          | (.ok _, s₅) => (.ok (), s₅)

/-- `brkfs_rmdir`. The caller holds the lock of the directory, and a task that takes a lock it
holds stops the kernel: `none`. -/
def brkfsRmdir (e : Env) (d : Node) (n : Node) (name : Name) : Option Res :=
  if !s.isDir n then some (.error .enotdir, s)
  else if n = d then none
  else
    match s.brkfsDirIsEmpty n (e.fault .isEmpty) with
    | .error x => some (.error x, s)
    | .ok false => some (.error .enotempty, s)
    | .ok true =>
      some <| (s.brkfsDirRemove d name (e.fault .remove)).next fun s₁ =>
        ((s₁.decNlink d).brkfsInodeWrite d.sb d (e.fault .writeDir)).next fun s₂ =>
          ((s₂.setNlink n 0).brkfsOrphanAdd d.sb n).brkfsInodeWrite d.sb n (e.fault .writeInode)

/-- The second look of `brkfs_rename` at the directories: what the new name is there. -/
def renameTargetError (e : Env) (newDir : Node) (nd : Dentry) : Option Errno :=
  match s.brkfsDirLookup newDir nd.name (e.fault .lookupNew) with
  | .ok tino => if nd.inode.map Node.ino = some tino then none else some .eexist
  | .error x =>
    if x ≠ .enoent then some x else if nd.inode.isSome then some .enoent else none

/-- `rollback_target` of `brkfs_rename`; an error here is only logged. -/
def renameUndo (e : Env) (newDir : Node) (nd : Dentry)
    (cut : Site → Option Dir := fun _ => none) : Sys :=
  match nd.inode with
  | none => s
  | some t =>
    (s.brkfsDirAdd newDir t.ino nd.name (s.kindOf t) [] (e.fault .undoAdd) (cut .undoAdd)).2

/-- The new name is added and the old one removed, each with what undoes it. -/
def renameMove (e : Env) (n oldDir : Node) (oldName : Name) (newDir : Node) (nd : Dentry)
    (cut : Site → Option Dir := fun _ => none) : Res :=
  match s.brkfsDirAdd newDir n.ino nd.name (s.kindOf n) e.grow (e.fault .add) (cut .add) with
  | (.error x, s₁) => (.error x, s₁.renameUndo e newDir nd cut)
  | (.ok _, s₁) =>
    match s₁.brkfsDirRemove oldDir oldName (e.fault .removeOld) with
    | (.error x, s₂) =>
      (.error x,
        (s₂.brkfsDirRemove newDir nd.name (e.fault .undoRemove)).2.renameUndo e newDir nd cut)
    | (.ok _, s₂) => (.ok (), s₂)

/-- The edits of the directories in `brkfs_rename`: the replaced entry goes first. -/
def renameEdit (e : Env) (n oldDir : Node) (oldName : Name) (newDir : Node) (nd : Dentry)
    (cut : Site → Option Dir := fun _ => none) : Res :=
  let r : Res := if nd.inode.isSome then s.brkfsDirRemove newDir nd.name (e.fault .remove)
    else (.ok (), s)
  r.next fun s₁ => s₁.renameMove e n oldDir oldName newDir nd cut

/-- The link count of the replaced inode in `brkfs_rename`, and that of its directory. -/
def renameReplaced (e : Env) (sb : Nat) (newDir t : Node) : Res :=
  if s.isDir t then
    (((s.setNlink t 0).brkfsOrphanAdd sb t).brkfsInodeWrite sb t (e.fault .writeTarget)).next
      fun s₁ => (.ok (), s₁.decNlink newDir)
  else
    let s₁ := s.decNlink t
    let s₂ := if s₁.unlinked t then s₁.brkfsOrphanAdd sb t else s₁
    s₂.brkfsInodeWrite sb t (e.fault .writeTarget)

/-- The inodes that `brkfs_rename` writes once the directories are done. -/
def renameWrite (e : Env) (n oldDir newDir : Node) (nd : Dentry) : Res :=
  let r : Res := match nd.inode with
    | none => (.ok (), s)
    | some t => s.renameReplaced e oldDir.sb newDir t
  r.next fun s₁ =>
    (s₁.brkfsInodeWrite oldDir.sb n (e.fault .writeInode)).next fun s₂ =>
      (s₂.brkfsInodeWrite oldDir.sb oldDir (e.fault .writeDir)).next fun s₃ =>
        if newDir = oldDir then (.ok (), s₃)
        else s₃.brkfsInodeWrite oldDir.sb newDir (e.fault .writeNewDir)

/-- A replaced directory must be empty. -/
def renameBusy (e : Env) (nd : Dentry) : Option Errno :=
  match nd.inode with
  | none => none
  | some t =>
    if !s.isDir t then none
    else
      match s.brkfsDirIsEmpty t (e.fault .isEmpty) with
      | .error x => some x
      | .ok false => some .enotempty
      | .ok true => none

/-- The locks that `brkfs_rename` takes are neither one lock nor those of the directories, which
its caller holds. -/
def renameLocks (n oldDir newDir : Node) (nd : Dentry) : Prop :=
  n ≠ oldDir ∧ n ≠ newDir ∧ nd.inode ≠ some n ∧ nd.inode ≠ some oldDir ∧ nd.inode ≠ some newDir

instance (n oldDir newDir : Node) (nd : Dentry) : Decidable (renameLocks n oldDir newDir nd) :=
  inferInstanceAs (Decidable (_ ∧ _))

/-- `brkfs_rename`; `cut` says which of its additions cut an unused entry short. -/
def brkfsRename (e : Env) (oldDir : Node) (od : Dentry) (newDir : Node) (nd : Dentry)
    (noreplace : Bool) (cut : Site → Option Dir := fun _ => none) : Option Res :=
  match od.inode with
  | none => some (.error .enotdir, s)
  | some n =>
    if !s.isDir oldDir ∨ !s.isDir newDir then some (.error .enotdir, s)
    else if nd.inode.isSome ∧ noreplace then some (.error .eexist, s)
    else if s.isDir n ∧ oldDir ≠ newDir then some (.error .exdev, s)
    else
      match s.brkfsDirLookup oldDir od.name (e.fault .lookup) with
      | .error x => some (.error x, s)
      | .ok ino =>
        if ino ≠ n.ino then some (.error .enoent, s)
        else
          match s.renameTargetError e newDir nd with
          | some x => some (.error x, s)
          | none =>
            if ¬ renameLocks n oldDir newDir nd then none
            else
              match s.renameBusy e nd with
              | some x => some (.error x, s)
              | none =>
                some <| (s.renameEdit e n oldDir od.name newDir nd cut).next fun s₁ =>
                  s₁.renameWrite e n oldDir newDir nd

end Sys

end BrkKernel.Names
