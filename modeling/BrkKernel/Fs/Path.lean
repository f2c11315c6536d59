import BrkKernel.Kern.Base
import BrkKernel.Lib.CString

/-!
# Path resolution

`path_walk` of `fs/path.c` takes a path component by component. A symbolic link is read into
`target`, what is left of the path is moved to `restbuf`, the two are put together in `combined`,
and the walk goes on there. The cursor points into the caller's string or into `combined`, which
is written while the cursor still points into it.

Dentries and mounts are any two types. What the file systems hold, what a lookup finds and what a
link reads as is the environment, `Vfs`. The references that the walk takes and gives back are
counted. A write outside a buffer, a read that no zero byte ends and a loop that does not stop are
the outcomes in `Halt`.
-/

set_option autoImplicit false

namespace BrkKernel.Lookup

open Lib

/-- `PATH_MAX`. -/
def pathMax : Nat := 512

/-- `MAXSYMLINKS`. -/
def maxSymlinks : Nat := 40

/-- A component of a path. -/
abbrev Name : Type := List UInt8

/-- The flags that `path_walk` looks at. -/
structure Flags where
  parent : Bool
  follow : Bool
  noSymlinks : Bool
  mountpoint : Bool

/-- The types of inodes that make a difference to a walk. -/
inductive Kind where
  | dir
  | lnk
  | other
deriving DecidableEq

/-- What the walk looks at in an inode: its type, what `inode_permission(inode, MAY_EXEC)` says, and
whether it has a `readlink` operation. -/
structure Inode where
  kind : Kind
  denied : Option Errno
  hasReadlink : Bool
deriving DecidableEq

/-- `struct fs_path`. -/
structure Path (δ μ : Type) where
  mnt : μ
  dentry : δ
deriving DecidableEq

/-! ## The environment -/

/-- The dentries, the mounts and the paths of the task. Mounts are numbered as they are made, so
that the mount above one comes before it; the root of a mount that is above itself has no parent.
-/
structure Tree (δ μ : Type) where
  negative : δ → Bool
  inode : δ → Option Inode
  parent : δ → δ
  isMounted : δ → Bool
  root : μ → δ
  above : μ → μ
  mountPoint : μ → δ
  mountStateLookup : μ → δ → Option μ
  lookup : δ → Name → Except Errno δ
  fsRoot : Path δ μ
  cwd : Path δ μ
  mounts : Nat
  rank : μ → Nat
  rank_lt : ∀ m, rank m < mounts
  rank_above : ∀ m, above m ≠ m → rank (above m) < rank m
  rank_lookup : ∀ m d c, mountStateLookup m d = some c → rank m < rank c
  parent_root : ∀ m, above m = m → parent (root m) = root m

/-- A tree with its symbolic links: `readlink` of a buffer of some size gives the bytes that it
writes to the buffer, no more than there is room for, and the length that it returns. -/
structure Vfs (δ μ : Type) extends Tree δ μ where
  readlink : δ → Nat → Except Errno (List UInt8 × Nat)
  readlink_le : ∀ d n bs len, readlink d n = .ok (bs, len) → bs.length ≤ n

/-- What a walk must not do: write outside a buffer, read on where no zero byte comes, or go round
and round. -/
inductive Halt where
  | overflow
  | unterminated
  | endless
deriving DecidableEq

/-! ## References -/

/-- The references on dentries and mounts. -/
abbrev Refs (δ μ : Type) : Type := δ ⊕ μ → Int

section References

variable {δ μ : Type} [DecidableEq δ] [DecidableEq μ]

/-- One reference more, or with `-1` one less. -/
def Refs.add (refs : Refs δ μ) (x : δ ⊕ μ) (n : Int) : Refs δ μ :=
  Function.update refs x (refs x + n)

/-- `fs_dentry_get` and `fs_mount_state_get`. -/
def Refs.get (refs : Refs δ μ) (x : δ ⊕ μ) : Refs δ μ := refs.add x 1

/-- `fs_path_get`. -/
def Refs.getPath (refs : Refs δ μ) (path : Path δ μ) : Refs δ μ :=
  (refs.add (.inl path.dentry) 1).add (.inr path.mnt) 1

/-- `fs_path_put`. -/
def Refs.putPath (refs : Refs δ μ) (path : Path δ μ) : Refs δ μ :=
  (refs.add (.inl path.dentry) (-1)).add (.inr path.mnt) (-1)

end References

/-! ## Mounts, `.` and `..` -/

section Steps

variable {δ μ : Type} [DecidableEq δ] [DecidableEq μ] (v : Tree δ μ)

/-- The loop of `follow_mount`. -/
def followLoop : Nat → Path δ μ → Refs δ μ → Except Halt (Path δ μ × Refs δ μ)
  | 0, _, _ => .error .endless
  | fuel + 1, path, refs =>
    match v.mountStateLookup path.mnt path.dentry with
    | none => .ok (path, refs)
    | some c =>
      let refs := (((refs.get (.inr c)).putPath path).get (.inl (v.root c)))
      let path : Path δ μ := ⟨c, v.root c⟩
      if !v.isMounted path.dentry then .ok (path, refs) else followLoop fuel path refs

/-- `follow_mount`. -/
def followMount (path : Path δ μ) (refs : Refs δ μ) : Except Halt (Path δ μ × Refs δ μ) :=
  if !v.isMounted path.dentry then .ok (path, refs) else followLoop v v.mounts path refs

/-- The loop of `fs_path_dot_dot`. -/
def dotDotLoop : Nat → Path δ μ → Refs δ μ → Except Halt (Path δ μ × Refs δ μ)
  | 0, _, _ => .error .endless
  | fuel + 1, cur, refs =>
    if cur.dentry ≠ v.root cur.mnt then
      let dotdot : Path δ μ := ⟨cur.mnt, v.parent cur.dentry⟩
      .ok (dotdot, (((refs.get (.inl dotdot.dentry)).get (.inr dotdot.mnt)).putPath cur))
    else if cur.mnt ≠ v.above cur.mnt then
      let up : Path δ μ := ⟨v.above cur.mnt, v.mountPoint cur.mnt⟩
      dotDotLoop fuel up (((refs.get (.inr up.mnt)).get (.inl up.dentry)).putPath cur)
    else if cur.dentry = v.parent cur.dentry then .ok (cur, refs)
    else dotDotLoop fuel cur refs

/-- `fs_path_dot_dot`. -/
def fsPathDotDot (path : Path δ μ) (refs : Refs δ μ) : Except Halt (Path δ μ × Refs δ μ) :=
  dotDotLoop v (v.mounts + 1) path (refs.getPath path)

/-- `fs_path_dot`. -/
def fsPathDot (path : Path δ μ) (refs : Refs δ μ) : Path δ μ × Refs δ μ :=
  (path, refs.getPath path)

/-- `dir_lookup_entry`; the dentry comes with a reference. -/
def dirLookupEntry (dir : Path δ μ) (name : Name) (refs : Refs δ μ) :
    Except Errno (Path δ μ) × Refs δ μ :=
  match v.lookup dir.dentry name with
  | .error e => (.error e, refs)
  | .ok d => (.ok ⟨dir.mnt, d⟩, (refs.get (.inl d)).get (.inr dir.mnt))

/-- The component as `path_walk` looks it up: `.`, `..` or an entry of the directory. -/
def component (path : Path δ μ) (name : Name) (refs : Refs δ μ) :
    Except Halt (Except Errno (Path δ μ) × Refs δ μ) :=
  if name = [46] then
    let r := fsPathDot path refs
    .ok (.ok r.1, r.2)
  else if name = [46, 46] then (fsPathDotDot v path refs).map fun r => (.ok r.1, r.2)
  else .ok (dirLookupEntry v path name refs)

/-- Where a descriptor argument starts a walk: `AT_FDCWD`, or what `fdtable_get_file` has. -/
inductive DirFd (δ μ : Type) where
  | atFdcwd
  | file (f : Except Errno (Path δ μ))

/-- `path_init`: where the walk starts, and how many bytes of the path it takes. -/
def pathInit (fd : DirFd δ μ) (pathname : List UInt8) (refs : Refs δ μ) :
    Except Errno (Path δ μ × Nat) × Refs δ μ :=
  if pathname.head? = some slash then (.ok (v.fsRoot, 1), refs.getPath v.fsRoot)
  else
    match fd with
    | .atFdcwd => (.ok (v.cwd, 0), refs.getPath v.cwd)
    | .file (.error e) => (.error e, refs)
    | .file (.ok path) => (.ok (path, 0), refs.getPath path)

end Steps

/-! ## The walk -/

/-- A buffer of `PATH_MAX` bytes. -/
structure Buffer where
  bytes : List UInt8
  size : bytes.length = pathMax

/-- A write to a buffer. -/
def Buffer.write (b : Buffer) (off : Nat) (bs : List UInt8) : Except Halt Buffer :=
  match h : writeAt b.bytes off bs with
  | none => .error .overflow
  | some bytes => .ok ⟨bytes, (length_of_writeAt h).trans b.size⟩

/-- The cursor points into the string of the caller or into `combined`. -/
inductive Cursor where
  | name (off : Nat)
  | combined (off : Nat)

def Cursor.advance (n : Nat) : Cursor → Cursor
  | .name off => .name (off + n)
  | .combined off => .combined (off + n)

/-- The variables of `path_walk`, with the references and, for the proofs, the links that have been
followed and the text with which the walk went on after each. -/
structure Walk (δ μ : Type) where
  path : Path δ μ
  componentName : Name
  depth : Nat
  p : Cursor
  target : Buffer
  restbuf : Buffer
  combined : Buffer
  refs : Refs δ μ
  followed : List (δ × List UInt8)

/-- How one turn of the loop of `path_walk` ends. -/
inductive Turn (δ μ : Type) where
  | stop (result : Except Errno (Path δ μ × Name)) (w : Walk δ μ)
  | go (w : Walk δ μ)

section Loop

variable {δ μ : Type} [DecidableEq δ] [DecidableEq μ] (v : Vfs δ μ) (flags : Flags)
  (name : List UInt8)

/-- The memory that the cursor points into, and where. -/
def Walk.source (w : Walk δ μ) : List UInt8 × Nat :=
  match w.p with
  | .name off => (name ++ [0], off)
  | .combined off => (w.combined.bytes, off)

/-- The string at the cursor. -/
def Walk.text (w : Walk δ μ) : Except Halt (List UInt8) :=
  match cstr (w.source name).1 (w.source name).2 with
  | none => .error .unterminated
  | some s => .ok s

/-- `lookup_error`. -/
def lookupError (w : Walk δ μ) (e : Errno) : Turn δ μ :=
  .stop (.error e) { w with refs := w.refs.putPath w.path }

/-- `fs_path_put(&component_path)` and `lookup_error`. -/
def dropComponent (w : Walk δ μ) (x : Path δ μ) (e : Errno) : Turn δ μ :=
  lookupError { w with refs := w.refs.putPath x } e

/-- The text of a link with what is left of the path. -/
def joinText (t rest : List UInt8) : List UInt8 := if rest = [] then t else t ++ slash :: rest

/-- The buffers once a link has been read: `target`, then `restbuf`, then `combined`. -/
def joinBuffers (w : Walk δ μ) (t rest : List UInt8) (target : Buffer) :
    Except Halt (Walk δ μ) :=
  (w.restbuf.write 0 (rest ++ [0])).bind fun restbuf =>
  (w.combined.write 0 t).bind fun combined =>
  (if rest = [] then .ok combined else combined.write t.length [slash]).bind fun combined =>
  let off := if rest = [] then t.length else t.length + 1
  (combined.write off (restbuf.bytes.take (rest.length + 1))).bind fun combined =>
  .ok { w with target, restbuf, combined }

/-- Where the walk goes on after a link: at the root for an absolute target, and else in the
directory of the link. -/
def restart (w : Walk δ μ) (t : List UInt8) : Turn δ μ :=
  if t.head? = some slash then
    match pathInit v.toTree .atFdcwd w.combined.bytes (w.refs.putPath w.path) with
    | (.error e, refs) => .stop (.error e) { w with refs }
    | (.ok (path, skip), refs) => .go { w with path, p := .combined skip, refs }
  else .go { w with p := .combined 0 }

/-- A link is followed: `x` is the link and `rest` what is left of the path. -/
def followLink (w : Walk δ μ) (x : Path δ μ) (inode : Inode) (rest : List UInt8) :
    Except Halt (Turn δ μ) :=
  let depth := w.depth
  let w := { w with depth := depth + 1 }
  if maxSymlinks ≤ depth then .ok (dropComponent w x .eloop)
  else if !inode.hasReadlink then .ok (dropComponent w x .einval)
  else
    match v.readlink x.dentry (pathMax - 1) with
    | .error e => .ok (dropComponent w x e)
    | .ok (bs, len) =>
      (w.target.write 0 bs).bind fun target =>
      if pathMax - 1 ≤ len then .ok (dropComponent { w with target } x .enametoolong)
      else
        (target.write len [0]).bind fun target =>
        match cstr target.bytes 0 with
        | none => .error .unterminated
        | some t =>
          if t = [] then .ok (dropComponent { w with target } x .enoent)
          else if pathMax < t.length + (if rest = [] then 0 else 1) + rest.length + 1 then
            .ok (dropComponent { w with target } x .enametoolong)
          else
            (joinBuffers w t rest target).bind fun w =>
            .ok (restart v { w with
              refs := w.refs.putPath x
              followed := (x.dentry, joinText t rest) :: w.followed } t)

/-- The walk steps to the component, and across what is mounted there. -/
def settle (w : Walk δ μ) (x : Path δ μ) (rest : List UInt8) : Except Halt (Turn δ μ) :=
  let refs := w.refs.putPath w.path
  if !flags.mountpoint ∨ rest ≠ [] then
    (followMount v.toTree x refs).map fun r => .go { w with path := r.1, refs := r.2 }
  else .ok (.go { w with path := x, refs })

/-- The component has been found. -/
def reach (w : Walk δ μ) (x : Path δ μ) (rest : List UInt8) : Except Halt (Turn δ μ) :=
  match v.inode x.dentry with
  | none => settle v flags w x rest
  | some inode =>
    if inode.kind ≠ .lnk then settle v flags w x rest
    else if flags.noSymlinks then .ok (dropComponent w x .eloop)
    else if rest ≠ [] ∨ flags.follow then followLink v w x inode rest
    else settle v flags w x rest

/-- A component is taken: the cursor is behind it, and `rest` is what is left of the path. -/
def visit (w : Walk δ μ) (rest : List UInt8) : Except Halt (Turn δ μ) :=
  match v.inode w.path.dentry with
  | none => .ok (lookupError w .enoent)
  | some dir =>
    if v.negative w.path.dentry then .ok (lookupError w .enoent)
    else if dir.kind ≠ .dir then .ok (lookupError w .enotdir)
    else
      (followMount v.toTree w.path w.refs).bind fun r =>
      let w := { w with path := r.1, refs := r.2 }
      match dir.denied with
      | some e => .ok (lookupError w e)
      | none =>
        if flags.parent ∧ rest = [] then .ok (.stop (.ok (w.path, w.componentName)) w)
        else
          (component v.toTree w.path w.componentName w.refs).bind fun r =>
          let w := { w with refs := r.2 }
          match r.1 with
          | .error e => .ok (lookupError w e)
          | .ok x => reach v flags w x rest

/-- `QSTR_MAKE` of a component: its length is taken as 32 bits. -/
def qstrMake (c : List UInt8) : Name := c.take (c.length % 2 ^ 32)

/-- One turn of the loop of `path_walk`, and what is behind the loop. -/
def turn (w : Walk δ μ) : Except Halt (Turn δ μ) :=
  (w.text name).bind fun s =>
  match skipComponent s with
  | none =>
    .ok (if flags.parent then lookupError w .enoent else .stop (.ok (w.path, w.componentName)) w)
  | some (c, rest) =>
    let w := { w with p := w.p.advance (s.length - rest.length), componentName := qstrMake c }
    (w.text name).bind fun rest => visit v flags w rest

/-- `path_walk`, with the number of turns that it may take. -/
def pathWalk : Nat → Walk δ μ → Except Halt (Except Errno (Path δ μ × Name) × Walk δ μ)
  | 0, _ => .error .endless
  | fuel + 1, w =>
    (turn v flags name w).bind fun t =>
    match t with
    | .stop r w => .ok (r, w)
    | .go w => pathWalk fuel w

/-- The variables of `path_walk` at its start, with what happens to be in the buffers. -/
def Walk.start (path : Path δ μ) (refs : Refs δ μ) (target restbuf combined : Buffer) :
    Walk δ μ where
  path
  componentName := []
  depth := 0
  p := .name 0
  target
  restbuf
  combined
  refs
  followed := []

end Loop

end BrkKernel.Lookup
