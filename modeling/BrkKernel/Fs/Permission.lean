import BrkKernel.Kern.Cred

/-!
# Inodes and permissions

The modes of `uapi/stat.h`, the fields of an inode that decide who may use it, and the checks of
`fs/permission.c`. A check returns the error, or nothing when the access is granted.
-/

set_option autoImplicit false

namespace BrkKernel.Fs

open Kern

/-- `S_IFMT`. -/
def sIfmt : BitVec 32 := 0o170000

def sIflnk : BitVec 32 := 0o120000

def sIfreg : BitVec 32 := 0o100000

def sIfblk : BitVec 32 := 0o060000

def sIfdir : BitVec 32 := 0o040000

def sIfchr : BitVec 32 := 0o020000

/-- `S_ISVTX`. -/
def sIsvtx : BitVec 32 := 0o1000

/-- `S_ISUID | S_ISGID`. -/
def sPrivs : BitVec 32 := 0o6000

/-- The read, write and execute bits. -/
def permBits : BitVec 32 := 0o777

/-- `CAP_FSETID`. -/
def capFsetid : Nat := 4

/-- `MAY_EXEC`. -/
def mayExec : BitVec 32 := 1

/-- `MAY_WRITE`. -/
def mayWrite : BitVec 32 := 2

/-- `MAY_READ`. -/
def mayRead : BitVec 32 := 4

/-- The fields of `struct fs_inode` that names and permissions use. -/
structure Inode where
  mode : BitVec 32
  uid : BitVec 32
  gid : BitVec 32
  sb : Nat
deriving DecidableEq

/-- `S_ISLNK` and its kind: the type in the mode is this one. -/
def Inode.hasType (i : Inode) (t : BitVec 32) : Bool := i.mode &&& sIfmt == t

def Inode.isDir (i : Inode) : Bool := i.hasType sIfdir

/-- The three bits of the mode that are for this task, with `task_in_group`. -/
def Inode.perm (i : Inode) (c : Cred) : BitVec 32 :=
  if i.uid = c.fsuid then i.mode >>> 6 &&& 7
  else if i.gid = c.fsgid ∨ i.gid ∈ c.groups then i.mode >>> 3 &&& 7
  else i.mode &&& 7

/-- `inode_permission`. -/
def inodePermission (c : Cred) (inode : Option Inode) (mask : BitVec 32) : Option Errno :=
  match inode with
  | none => some .enoent
  | some i =>
    if mask = 0 then none
    else if c.capable capDacOverride then
      if mask = mayExec ∧ i.hasType sIfreg = true ∧ i.mode &&& 0o111 = 0 then some .eacces else none
    else if i.perm c &&& mask = mask then none
    else some .eacces

/-- `inode_owner_or_capable`. -/
def inodeOwnerOrCapable (c : Cred) (i : Inode) : Bool := c.capable capFowner || i.uid == c.fsuid

/-- `apply_umask`. -/
def applyUmask (c : Cred) (mode : BitVec 32) : BitVec 32 := mode &&& ~~~c.umask

/-- `may_create_in`. -/
def mayCreateIn (c : Cred) (dir : Option Inode) : Option Errno :=
  inodePermission c dir (mayWrite ||| mayExec)

/-- The sticky bit of a directory, in `may_delete`. -/
def stickyRefuses (c : Cred) (dir victim : Option Inode) : Bool :=
  dir.any fun d => d.mode &&& sIsvtx != 0 && !c.capable capFowner && c.fsuid != d.uid &&
    victim.all fun v => c.fsuid != v.uid

/-- `may_delete`. -/
def mayDelete (c : Cred) (dir victim : Option Inode) : Option Errno :=
  match inodePermission c dir (mayWrite ||| mayExec) with
  | some e => some e
  | none => if stickyRefuses c dir victim then some .eperm else none

/-- `fs_remove_inode_privs`. -/
def Inode.removePrivs (i : Inode) (c : Cred) : Inode :=
  if c.capable capFsetid ∨ i.mode &&& sPrivs = 0 then i
  else { i with mode := (i.mode &&& sIfmt) ||| (i.mode &&& ~~~sPrivs &&& 0o7777) }

section Lemmas

variable {c : Cred} {i : Inode} {dir victim : Option Inode} {mask m : BitVec 32}

/-- What is granted together is granted alone; the execute bit is special to a privileged task. -/
theorem inodePermission_sub (h : inodePermission c (some i) mask = none) (hm : m &&& mask = m)
    (hexec : m ≠ mayExec) : inodePermission c (some i) m = none := by
  unfold inodePermission at h ⊢
  dsimp only at h ⊢
  split
  · rfl
  next h0 =>
  have hmask : mask ≠ 0 := by
    rintro rfl
    exact h0 (by rw [← hm]; exact BitVec.and_zero)
  rw [if_neg hmask] at h
  split
  · rw [if_neg fun hx => hexec hx.1]
  next hcap =>
  rw [if_neg hcap] at h
  split at h
  · next hperm =>
    rw [if_pos]
    rw [← hm, BitVec.and_comm m mask, ← BitVec.and_assoc, hperm]
  · cases h

theorem inodePermission_of_mayDelete (h : mayDelete c dir victim = none) :
    inodePermission c dir (mayWrite ||| mayExec) = none := by
  unfold mayDelete at h
  split at h
  · cases h
  · next hp => exact hp

/-- A type does not add permission bits. -/
theorem type_disjoint_iff {t u : BitVec 32} (ht : t &&& permBits = 0) :
    (t ||| m) &&& u &&& permBits = 0 ↔ m &&& u &&& permBits = 0 := by
  have heq : (t ||| m) &&& u &&& permBits = m &&& u &&& permBits := by
    apply BitVec.eq_of_getLsbD_eq
    intro j hj
    have hbit : (t &&& permBits).getLsbD j = (0#32).getLsbD j := congrArg (BitVec.getLsbD · j) ht
    rw [BitVec.getLsbD_and, BitVec.getLsbD_zero] at hbit
    simp only [BitVec.getLsbD_and, BitVec.getLsbD_or]
    cases hp : permBits.getLsbD j with
    | false => simp only [Bool.and_false]
    | true =>
      rw [hp, Bool.and_true] at hbit
      rw [hbit, Bool.false_or]
  rw [heq]

/-- Nothing of the mask is left. -/
theorem applyUmask_disjoint (c : Cred) (mode : BitVec 32) :
    applyUmask c mode &&& c.umask &&& permBits = 0 := by
  have hmask : applyUmask c mode &&& c.umask = 0#32 := by
    unfold applyUmask
    rw [BitVec.and_assoc, BitVec.and_comm (~~~c.umask), BitVec.and_not_self]
    exact BitVec.and_zero
  rw [hmask]
  exact BitVec.zero_and

end Lemmas

end BrkKernel.Fs
