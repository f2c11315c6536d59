import BrkKernel.Fs.Namei
import BrkKernel.Fs.Pipe
import BrkKernel.Kern.SignalFrame

/-!
# Reading and writing through a user buffer

`sys_read`, `sys_write`, `sys_readv` and `sys_writev` with the operations of brkfs, tmpfs, pipes
and block devices below them: which addresses of the caller's buffer they load from or store to,
and what they return. The bytes themselves are left out here. The state of the file and the errors
that a call meets are inputs (`FileState`); `Fs.UioData` finds the errors with which a call returns
what the operation on the bytes returns.
-/

set_option autoImplicit false

namespace BrkKernel.Fs

open Kern Signal

/-! ## The operations of files -/

/-- The ranges of the buffer that are touched, and the value that is returned, if the call
returns. -/
structure IoResult where
  touched : List Store
  ret : Option (Except Errno Nat)

/-- `user_range_ok`. -/
def userRangeOk (addr : BitVec 64) (len : Nat) : Bool :=
  decide (addr.toNat ≤ userSpaceSizeMax ∧ len ≤ userSpaceSizeMax - addr.toNat)

/-- How far a loop over pages has come. -/
structure LoopEnd where
  touched : List Store
  total : Nat
  err : Option Errno

def LoopEnd.cons (t : Store) (r : LoopEnd) : LoopEnd := { r with touched := t :: r.touched }

/-- `PAGE_SIZE - off`, at most `size`. -/
def chunkLen (pos size : Nat) : Nat := min (pageSize - pos % pageSize) size

section Ops

variable (pageErr : Nat → Option Errno)

/-- The loop of `generic_file_read` and `generic_file_write`. A turn takes away at least one byte.
-/
def pageLoop : Nat → Nat → Nat → BitVec 64 → Nat → LoopEnd
  | 0, _, _, _, total => ⟨[], total, none⟩
  | fuel + 1, pos, size, buf, total =>
    if size = 0 then ⟨[], total, none⟩
    else
      match pageErr (pos / pageSize) with
      | some e => ⟨[], total, some e⟩
      | none =>
        let nr := chunkLen pos size
        (pageLoop fuel (pos + nr) (size - nr) (buf + BitVec.ofNat 64 nr) (total + nr)).cons
          ⟨buf, nr⟩

/-- `total > 0 ? total : err`. -/
def LoopEnd.result (r : LoopEnd) : IoResult :=
  ⟨r.touched, some (if 0 < r.total then .ok r.total else r.err.elim (.ok 0) .error)⟩

/-- `generic_file_read`. The sum that is compared with the size of the file is signed. -/
def genericFileRead (mapped : Bool) (isize pos : Nat) (buf : BitVec 64) (size : Nat) : IoResult :=
  if !mapped then ⟨[], some (.error .eio)⟩
  else if isize ≤ pos then ⟨[], some (.ok 0)⟩
  else
    let size := if (isize : Int) < (BitVec.ofNat 64 (pos + size)).toInt then isize - pos else size
    (pageLoop pageErr size pos size buf 0).result

/-- `generic_file_write`. -/
def genericFileWrite (mapped : Bool) (pos : Nat) (buf : BitVec 64) (size : Nat) : IoResult :=
  if !mapped then ⟨[], some (.error .eio)⟩
  else (pageLoop pageErr size pos size buf 0).result

/-- The loop of `tmpfs_read_file_at`, over the pages from the one of `off` on. The pointer into the
buffer stays where it is. The result is what is left of `n`. -/
def tmpfsReadLoop (isize : Nat) (buf : BitVec 64) : Nat → Nat → Nat → List Store × Nat
  | 0, _, n => ([], n)
  | pages + 1, off, n =>
    let size := min (min (isize - off) (pageSize - off % pageSize)) n
    if n - size = 0 ∨ pages = 0 then ([⟨buf, size⟩], n - size)
    else
      let r := tmpfsReadLoop isize buf pages (off + size) (n - size)
      (⟨buf, size⟩ :: r.1, r.2)

/-- `tmpfs_read_file_at`, for a file with that many pages. -/
def tmpfsFileRead (isize pages pos : Nat) (buf : BitVec 64) (size : Nat) : IoResult :=
  if isize ≤ pos then ⟨[], some (.ok 0)⟩
  else if pages ≤ pos / pageSize then ⟨[], some (.error .eio)⟩
  else
    let r := tmpfsReadLoop isize buf (pages - pos / pageSize) pos size
    ⟨r.1, some (.ok (size - r.2))⟩

/-- `tmpfs_write_file_at`: the first page is looked for in any case, and an error is returned even
when something has been written. -/
def tmpfsFileWrite (pos : Nat) (buf : BitVec 64) (size : Nat) : IoResult :=
  match pageErr (pos / pageSize) with
  | some e => ⟨[], some (.error e)⟩
  | none =>
    let r := pageLoop pageErr size pos size buf 0
    ⟨r.touched, some (r.err.elim (.ok r.total) .error)⟩

/-- The two copies from or to a ring with `first` bytes up to its end. -/
def ringRanges (buf : BitVec 64) (first n : Nat) : List Store :=
  if first < n then [⟨buf, first⟩, ⟨buf + BitVec.ofNat 64 first, n - first⟩] else [⟨buf, n⟩]

/-- The loop of `pipe_read` and `pipe_write`. The pipe and whether the task is killed are given for
each time the lock is taken; when these have run out, the call has not returned. A section that
copies moves what there is of `room`, from a place with `first` bytes up to the end of the ring. -/
def pipeLoop (sec : AnonPipe → Nat → Nat → Bool → SectionEnd) (room first : AnonPipe → Nat) :
    List (AnonPipe × Bool) → Nat → Nat → BitVec 64 → IoResult
  | secs, size, total, buf =>
    if size = 0 then ⟨[], some (.ok total)⟩
    else
      match secs with
      | [] => ⟨[], none⟩
      | (p, killed) :: rest =>
        match sec p size total killed with
        | .ret r => ⟨[], some r⟩
        | .sleep => pipeLoop sec room first rest size total buf
        | .copied _ =>
          let n := min (room p) size
          let r := pipeLoop sec room first rest (size - n) (total + n) (buf + BitVec.ofNat 64 n)
          ⟨ringRanges buf (first p) n ++ r.touched, r.ret⟩

/-- `pipe_read`. -/
def pipeReadLoop : List (AnonPipe × Bool) → Nat → Nat → BitVec 64 → IoResult :=
  pipeLoop (fun p size total killed => (pipeReadSection p size total killed).1) (·.count)
    fun p => pipeRingCap - p.head

/-- `pipe_write`. -/
def pipeWriteLoop : List (AnonPipe × Bool) → Nat → Nat → BitVec 64 → IoResult :=
  pipeLoop (fun p _ total killed => (pipeWriteSection p [] total killed).1)
    (fun p => pipeRingCap - p.count) fun p => pipeRingCap - (p.head + p.count) % pipeRingCap

/-- The loop of `blkdev_file_read` and `blkdev_file_write`, which copy with `copy_to_user` and
`copy_from_user`. -/
def blkLoop (buf : BitVec 64) : Nat → Nat → Nat → Nat → IoResult
  | 0, _, _, total => ⟨[], some (.ok total)⟩
  | fuel + 1, pos, size, total =>
    if size = 0 then ⟨[], some (.ok total)⟩
    else
      match pageErr (pos / pageSize) with
      | some e => ⟨[], some (totalOr total e)⟩
      | none =>
        let n := chunkLen pos size
        if !userRangeOk (buf + BitVec.ofNat 64 total) n then ⟨[], some (totalOr total .efault)⟩
        else
          let r := blkLoop buf fuel (pos + n) (size - n) (total + n)
          ⟨⟨buf + BitVec.ofNat 64 total, n⟩ :: r.touched, r.ret⟩

/-- `blkdev_file_read` and `blkdev_file_write`, with the mode that they need and what they return at
the end of the device. -/
def blkdevFile (dead allowed : Bool) (capacity pos : Nat) (atEnd : Except Errno Nat)
    (buf : BitVec 64) (size : Nat) : IoResult :=
  if dead then ⟨[], some (.error .enodev)⟩
  else if !allowed then ⟨[], some (.error .ebadf)⟩
  else if capacity ≤ pos then ⟨[], some atEnd⟩
  else blkLoop pageErr buf (min size (capacity - pos)) pos (min size (capacity - pos)) 0

end Ops

/-- An open file when it is read or written, with the errors of the pages that are needed. -/
inductive FileState where
  | brkfs (mapped : Bool) (isize pos : Nat) (pageErr : Nat → Option Errno)
  | tmpfs (isize pages pos : Nat) (pageErr : Nat → Option Errno)
  | pipe (secs : List (AnonPipe × Bool))
  | blkdev (dead : Bool) (capacity pos : Nat) (pageErr : Nat → Option Errno)
  | dir

inductive FileKind where
  | brkfs | tmpfs | pipe | blkdev | dir
deriving DecidableEq

def FileState.kind : FileState → FileKind
  | .brkfs .. => .brkfs
  | .tmpfs .. => .tmpfs
  | .pipe _ => .pipe
  | .blkdev .. => .blkdev
  | .dir => .dir

/-- `fs_file_read`. -/
def fsFileRead (fmode : FMode) (buf : BitVec 64) (size : Nat) : FileState → IoResult
  | .brkfs mapped isize pos pageErr => genericFileRead pageErr mapped isize pos buf size
  | .tmpfs isize pages pos _ => tmpfsFileRead isize pages pos buf size
  | .pipe secs => pipeReadLoop secs size 0 buf
  | .blkdev dead capacity pos pageErr =>
    blkdevFile pageErr dead fmode.read capacity pos (.ok 0) buf size
  | .dir => ⟨[], some (.error .eisdir)⟩

/-- `fs_file_write`. -/
def fsFileWrite (fmode : FMode) (buf : BitVec 64) (size : Nat) : FileState → IoResult
  | .brkfs mapped _ pos pageErr => genericFileWrite pageErr mapped pos buf size
  | .tmpfs _ _ pos pageErr => tmpfsFileWrite pageErr pos buf size
  | .pipe secs => pipeWriteLoop secs size 0 buf
  | .blkdev dead capacity pos pageErr =>
    blkdevFile pageErr dead fmode.write capacity pos (.error .enospc) buf size
  | .dir => ⟨[], some (.error .eisdir)⟩

/-! ## The system calls -/

/-- `sys_read`, for a descriptor that is open. -/
def sysRead (fmode : FMode) (st : FileState) (buf n : BitVec 64) : IoResult :=
  fsFileRead fmode buf n.toNat st

/-- `sys_write`. -/
def sysWrite (fmode : FMode) (st : FileState) (buf n : BitVec 64) : IoResult :=
  if fmode.dir then ⟨[], some (.error .eisdir)⟩ else fsFileWrite fmode buf n.toNat st

/-- `struct iovec`. -/
structure IoVec where
  base : BitVec 64
  len : BitVec 64
deriving DecidableEq

section

variable {σ : Type} (op : BitVec 64 → Nat → σ → IoResult)

/-- The loop of `readv_writev`. The file is given for each of the calls. -/
def iovLoop : List (IoVec × σ) → Nat → IoResult
  | [], total => ⟨[], some (.ok total)⟩
  | (v, st) :: rest, total =>
    if v.len = 0 then iovLoop rest total
    else if !userRangeOk v.base v.len.toNat then ⟨[], some (totalOr total .efault)⟩
    else
      match (op v.base v.len.toNat st).ret with
      | none => ⟨(op v.base v.len.toNat st).touched, none⟩
      | some (.error e) => ⟨(op v.base v.len.toNat st).touched, some (totalOr total e)⟩
      | some (.ok n) =>
        if n ≠ v.len.toNat then ⟨(op v.base v.len.toNat st).touched, some (.ok (total + n))⟩
        else
          ⟨(op v.base v.len.toNat st).touched ++ (iovLoop rest (total + n)).touched,
            (iovLoop rest (total + n)).ret⟩

/-- `IOV_MAX`. -/
def iovMax : Nat := 1024

/-- `readv_writev` with the operation of the file, where `isDir` says that a directory is to be
written and `nomem` that there is no memory for the vector. The vector is loaded from the user. -/
def readvWritevOp (isDir nomem : Bool) (uiov : BitVec 64) (iov : List (IoVec × σ)) : IoResult :=
  if iovMax < iov.length then ⟨[], some (.error .einval)⟩
  else if iov.length = 0 then ⟨[], some (.ok 0)⟩
  else if uiov = 0 then ⟨[], some (.error .efault)⟩
  else if nomem then ⟨[], some (.error .enomem)⟩
  else if !userRangeOk uiov (16 * iov.length) then ⟨[], some (.error .efault)⟩
  else if isDir then ⟨[⟨uiov, 16 * iov.length⟩], some (.error .eisdir)⟩
  else
    let r := iovLoop op iov 0
    ⟨⟨uiov, 16 * iov.length⟩ :: r.touched, r.ret⟩

end

/-- `sys_readv` and `sys_writev`. -/
def readvWritev (isWrite nomem : Bool) (fmode : FMode) (uiov : BitVec 64)
    (iov : List (IoVec × FileState)) : IoResult :=
  readvWritevOp (if isWrite then fsFileWrite fmode else fsFileRead fmode) (isWrite && fmode.dir)
    nomem uiov iov

end BrkKernel.Fs
