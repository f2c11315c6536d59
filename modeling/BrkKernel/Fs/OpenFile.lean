import BrkKernel.Fs.NameiAuth
import BrkKernel.Fs.Uio

/-!
# What an open file grants

`do_openat` reads the access mode from the flags twice, once for the permission of the inode and
once for the mode of the file, and the operations of the file decide whether to look at the mode
of the file. A character device is a driver of which nothing is known, and so is the write function
of an entry of procfs.

`open_grants`: the file grants what the access mode says, exactly when the access mode is `O_RDWR`,
or the flags are `O_RDONLY` alone and the operations guard writing, or the access mode is `O_WRONLY`
and they guard reading.
-/

set_option autoImplicit false

namespace BrkKernel.Fs

open Kern Signal

/-! ## Using the file -/

/-- The operations that an open file has. -/
inductive OpenKind where
  | file (kind : FileKind)
  | chrdev
  /-- An entry of procfs, and whether it has a write function. -/
  | procfs (writable : Bool)
deriving DecidableEq

/-- `brkfs_file_open`, `tmpfs_inode_attach_fops` and `tmpfs_file_open`, and `procfs_iget` for the
inodes of procfs: pipes and sockets cannot be opened. -/
def openKind (proc : Option Bool) (fs : FsKind) (i : Inode) : Option OpenKind :=
  match proc with
  | some writable => some (if i.isDir then .file .dir else .procfs writable)
  | none =>
    if i.hasType sIfchr then some .chrdev
    else if i.hasType sIfblk then some (.file .blkdev)
    else if i.isDir then some (.file .dir)
    else if i.hasType sIfreg || i.hasType sIflnk then
      some (.file (match fs with | .brkfs => .brkfs | .tmpfs => .tmpfs))
    else none

/-- The kind of the file that has been opened. `proc` knows the inodes of procfs. -/
def OpenFile.kind (f : OpenFile) (proc : Nat → Option Bool) (s : Vfs) : Option OpenKind :=
  (s.inode f.ino).bind (openKind (proc f.ino) (s.kindOf f.ino))

/-- `procfs_file_read`, for a text of that length. -/
def procfsFileRead (len pos : Nat) (buf : BitVec 64) (size : Nat) : IoResult :=
  if len ≤ pos then ⟨[], some (.ok 0)⟩
  else ⟨[⟨buf, min size (len - pos)⟩], some (.ok (min size (len - pos)))⟩

/-- `procfs_file_write`. -/
def procfsFileWrite (writable : Bool) (result : IoResult) : IoResult :=
  if writable then result else ⟨[], some (.error .erofs)⟩

/-- What a later call finds: the state of the file, and what the driver or the write function
does. -/
inductive UseState where
  | file (st : FileState)
  | chrdev (result : IoResult)
  | procfs (writable : Bool) (len pos : Nat) (result : IoResult)

def UseState.kind : UseState → OpenKind
  | .file st => .file st.kind
  | .chrdev _ => .chrdev
  | .procfs writable .. => .procfs writable

/-- `fs_file_read` or `fs_file_write` on the file. -/
def useFile (isWrite : Bool) (fmode : FMode) (buf : BitVec 64) (size : Nat) : UseState → IoResult
  | .file st => (if isWrite then fsFileWrite else fsFileRead) fmode buf size st
  | .chrdev result => result
  | .procfs writable len pos result =>
    if isWrite then procfsFileWrite writable result else procfsFileRead len pos buf size

/-- A call on the file and what it finds: `sys_read` or `sys_write`, or `sys_readv` or
`sys_writev`. -/
inductive FileCall where
  | one (buf n : BitVec 64) (u : UseState)
  | vec (nomem : Bool) (uiov : BitVec 64) (iov : List (IoVec × UseState))

def FileCall.Finds (kind : OpenKind) : FileCall → Prop
  | .one _ _ u => u.kind = kind
  | .vec _ _ iov => ∀ x ∈ iov, x.2.kind = kind

/-- The ranges through which a call moves bytes of the file. A vectored call touches the vector
before them. -/
def FileCall.moved (isWrite : Bool) (fmode : FMode) : FileCall → List Store
  | .one buf n u =>
    if isWrite && fmode.dir then [] else (useFile isWrite fmode buf n.toNat u).touched
  | .vec nomem uiov iov =>
    (readvWritevOp (useFile isWrite fmode) (isWrite && fmode.dir) nomem uiov iov).touched.tail

/-- Bytes have been moved. -/
def Moves (l : List Store) : Prop := ∃ t ∈ l, 0 < t.len

/-- The access mode is `O_RDONLY` or `O_RDWR`. -/
def readsFile (flags : BitVec 32) : Prop := flags &&& oAccmode = 0 ∨ flags &&& oAccmode = oRdwr

/-- The access mode is `O_WRONLY` or `O_RDWR`. -/
def writesFile (flags : BitVec 32) : Prop :=
  flags &&& oAccmode = oWronly ∨ flags &&& oAccmode = oRdwr

/-- What is promised of an open file, whatever later calls find. -/
structure Grants (c : Cred) (s : Vfs) (flags : BitVec 32) (f : OpenFile) (kind : OpenKind) :
    Prop where
  read : ∀ call : FileCall, call.Finds kind → Moves (call.moved false f.fmode) →
    readsFile flags ∧ inodePermission c (s.inode f.ino) mayRead = none
  write : ∀ call : FileCall, call.Finds kind → Moves (call.moved true f.fmode) → writesFile flags
  fmode : readsFile flags → f.fmode.read = true

/-- The operations look at the mode of the file before they read or write, or move nothing. -/
def OpenKind.guards (isWrite : Bool) : OpenKind → Bool
  | .file .blkdev | .file .dir => true
  | .procfs writable => isWrite && !writable
  | _ => false

/-- The condition. -/
def GrantFits (flags : BitVec 32) (kind : OpenKind) : Prop :=
  flags &&& oAccmode = oRdwr ∨ flags = 0 ∧ kind.guards true = true ∨
    flags &&& oAccmode = oWronly ∧ kind.guards false = true

/-! ## The flags -/

section Flags

variable {flags : BitVec 32}

/-- The access mode is in the two lowest bits. -/
theorem accmode_eq (flags : BitVec 32) : flags &&& oAccmode =
    (if flags.getLsbD 1 then oRdwr else 0) ||| (if flags.getLsbD 0 then oWronly else 0) := by
  have hbits : ∀ j : Fin 32, oAccmode.getLsbD j.val = decide (j.val = 0 ∨ j.val = 1) ∧
      oRdwr.getLsbD j.val = decide (j.val = 1) ∧ oWronly.getLsbD j.val = decide (j.val = 0) := by
    decide
  apply BitVec.eq_of_getLsbD_eq
  intro j hj
  obtain ⟨hacc, hrw, hw⟩ := hbits ⟨j, hj⟩
  have hite : ∀ (b : Bool) (x : BitVec 32),
      (if b then x else 0).getLsbD j = (b && x.getLsbD j) := by
    intro b x
    cases b with
    | true => rfl
    | false => exact BitVec.getLsbD_zero
  rw [BitVec.getLsbD_and, BitVec.getLsbD_or, hite, hite, hacc, hrw, hw]
  by_cases h0 : j = 0
  · subst h0
    simp
  by_cases h1 : j = 1
  · subst h1
    simp
  · simp [h0, h1]

theorem hasFlag_eq {k : Nat} {flag : BitVec 32} (hflag : flag = BitVec.twoPow 32 k) (hk : k < 32) :
    hasFlag flags flag = flags.getLsbD k := by
  subst hflag
  unfold hasFlag
  rw [BitVec.and_twoPow]
  cases flags.getLsbD k with
  | false => rfl
  | true =>
    have hne : BitVec.twoPow 32 k ≠ 0#32 := by
      intro h
      have hbit := congrArg (BitVec.getLsbD · k) h
      rw [BitVec.getLsbD_twoPow, BitVec.getLsbD_zero, decide_eq_true hk] at hbit
      simp at hbit
    rw [if_pos rfl, bne_iff_ne]
    exact hne

theorem hasFlag_rdwr : hasFlag flags oRdwr = flags.getLsbD 1 := hasFlag_eq rfl (by decide)

theorem hasFlag_wronly : hasFlag flags oWronly = flags.getLsbD 0 := hasFlag_eq rfl (by decide)

/-- `do_openat` refuses a fourth access mode. -/
theorem accmode_cases (h : ¬ (hasFlag flags oRdwr = true ∧ hasFlag flags oWronly = true)) :
    (flags &&& oAccmode = 0 ∧ hasFlag flags oRdwr = false ∧ hasFlag flags oWronly = false) ∨
    (flags &&& oAccmode = oWronly ∧ hasFlag flags oRdwr = false ∧ hasFlag flags oWronly = true) ∨
    (flags &&& oAccmode = oRdwr ∧ hasFlag flags oRdwr = true) := by
  rw [hasFlag_rdwr, hasFlag_wronly] at h ⊢
  rw [accmode_eq]
  cases h1 : flags.getLsbD 1 with
  | false =>
    cases h0 : flags.getLsbD 0 with
    | false => exact .inl ⟨by decide, rfl, rfl⟩
    | true => exact .inr (.inl ⟨by decide, rfl, rfl⟩)
  | true =>
    cases h0 : flags.getLsbD 0 with
    | false => exact .inr (.inr ⟨by decide, rfl⟩)
    | true => exact absurd ⟨h1, h0⟩ h

/-- Reading is asked for with every access mode that reads. -/
theorem mayRead_openPermMask (h : readsFile flags) : mayRead &&& openPermMask flags = mayRead := by
  have hne : flags &&& oAccmode ≠ oWronly := by
    rcases h with h | h
    · rw [h]
      decide
    · rw [h]
      decide
  unfold openPermMask
  rw [if_neg hne]
  split
  · split
    · decide
    · decide
  · split
    · decide
    · decide

end Flags

/-! ## Set-id bits and permissions -/

section Privs

variable {c : Cred} {i : Inode}

theorem removePrivs_bit (i : Inode) (c : Cred) {j : Nat} (hj : j < 10) :
    (i.removePrivs c).mode.getLsbD j = i.mode.getLsbD j := by
  have hbits : ∀ j : Fin 10, sIfmt.getLsbD j.val = false ∧
      (~~~sPrivs).getLsbD j.val = true ∧ (0o7777 : BitVec 32).getLsbD j.val = true := by decide
  obtain ⟨h1, h2, h3⟩ := hbits ⟨j, hj⟩
  unfold Inode.removePrivs
  split
  · rfl
  · rw [BitVec.getLsbD_or, BitVec.getLsbD_and, BitVec.getLsbD_and, BitVec.getLsbD_and, h1, h2, h3,
      Bool.and_false, Bool.and_true, Bool.and_true, Bool.false_or]

theorem shift_and_seven {x y : BitVec 32} {k : Nat} (hk : k ≤ 6)
    (h : ∀ j < 10, x.getLsbD j = y.getLsbD j) : x >>> k &&& 7 = y >>> k &&& 7 := by
  have hseven : ∀ j : Fin 32, (7 : BitVec 32).getLsbD j.val = decide (j.val < 3) := by decide
  apply BitVec.eq_of_getLsbD_eq
  intro j hj
  rw [BitVec.getLsbD_and, BitVec.getLsbD_and, hseven ⟨j, hj⟩, BitVec.getLsbD_ushiftRight,
    BitVec.getLsbD_ushiftRight]
  by_cases h3 : j < 3
  · rw [h (k + j) (by omega)]
  · rw [decide_eq_false h3, Bool.and_false, Bool.and_false]

theorem removePrivs_perm : (i.removePrivs c).perm c = i.perm c := by
  have hids : (i.removePrivs c).uid = i.uid ∧ (i.removePrivs c).gid = i.gid := by
    unfold Inode.removePrivs
    split
    · exact ⟨rfl, rfl⟩
    · exact ⟨rfl, rfl⟩
  have hbits := fun j (hj : j < 10) => removePrivs_bit i c hj
  have hother := shift_and_seven (Nat.zero_le 6) hbits
  rw [BitVec.ushiftRight_zero, BitVec.ushiftRight_zero] at hother
  unfold Inode.perm
  rw [hids.1, hids.2, shift_and_seven (Nat.le_refl 6) hbits, shift_and_seven (by decide) hbits,
    hother]

theorem inodePermission_removePrivs (h : inodePermission c (some i) mayRead = none) :
    inodePermission c (some (i.removePrivs c)) mayRead = none := by
  have hread : mayRead ≠ 0 ∧ mayRead ≠ mayExec := by decide
  unfold inodePermission at h ⊢
  dsimp only at h ⊢
  rw [if_neg hread.1] at h ⊢
  split at h
  · rw [if_pos (by assumption), if_neg fun hx => hread.2 hx.1]
  · rename_i hcap
    rw [if_neg hcap, removePrivs_perm]
    exact h

theorem removePrivs_hasType (t : BitVec 32) : (i.removePrivs c).hasType t = i.hasType t := by
  unfold Inode.removePrivs Inode.hasType
  split
  · rfl
  have htype : (i.mode &&& sIfmt ||| i.mode &&& ~~~sPrivs &&& 0o7777) &&& sIfmt =
      i.mode &&& sIfmt := by
    have hbits : ∀ j : Fin 32, ((0o7777 : BitVec 32).getLsbD j.val && sIfmt.getLsbD j.val) =
        false := by decide
    apply BitVec.eq_of_getLsbD_eq
    intro j hj
    have hj' := hbits ⟨j, hj⟩
    simp only [BitVec.getLsbD_and, BitVec.getLsbD_or]
    cases hs : sIfmt.getLsbD j with
    | false => simp only [Bool.and_false]
    | true =>
      rw [hs, Bool.and_true] at hj'
      rw [hj', Bool.and_true, Bool.and_false, Bool.or_false, Bool.and_true]
  rw [htype]

end Privs

/-! ## Opening -/

section Open

variable {c : Cred} {s s' : Vfs} {flags mode : BitVec 32} {env : OpenEnv} {f : OpenFile}
  {kind : OpenKind}

/-- What is known of a file that has been opened. -/
theorem doOpenat_file (h : doOpenat c flags mode env s = .ok (s', f)) :
    ¬ (hasFlag flags oRdwr = true ∧ hasFlag flags oWronly = true) ∧ ∃ i, s'.inode f.ino = some i ∧
      f.fmode = openFmode flags i.isDir ∧
      (readsFile flags → inodePermission c (some i) mayRead = none) := by
  obtain ⟨hacc, look, io, retried, t, ino, -, hf⟩ := doOpenat_ok h
  obtain ⟨hperm, rfl, rfl⟩ := openFinish_ok hf
  refine ⟨hacc, ?_⟩
  cases hi : t.inode ino with
  | none =>
    rw [hi] at hperm
    cases hperm
  | some i =>
    rw [hi] at hperm
    have hread : readsFile flags → inodePermission c (some i) mayRead = none := fun hr =>
      inodePermission_sub hperm (mayRead_openPermMask hr) (by decide)
    have hdir : t.isDir ino = i.isDir := by
      unfold Vfs.isDir
      rw [hi]
      rfl
    rw [hdir]
    split
    · refine ⟨i.removePrivs c, ?_, ?_, fun hr => inodePermission_removePrivs (hread hr)⟩
      · show (t.inodes.modify ino fun i => i.removePrivs c)[ino]? = some (i.removePrivs c)
        rw [List.getElem?_modify_eq]
        exact congrArg (Option.map fun i : Inode => i.removePrivs c) hi
      · unfold Inode.isDir
        rw [removePrivs_hasType]
    · exact ⟨i, hi, rfl, hread⟩

/-- A file of which one byte can be read and written. -/
def oneByte (isWrite : Bool) : OpenKind → UseState
  | .chrdev => .chrdev ⟨[⟨0, 1⟩], some (.ok 1)⟩
  | .procfs writable => .procfs writable 1 0 ⟨[⟨0, 1⟩], some (.ok 1)⟩
  | .file .brkfs => .file (.brkfs true 1 0 fun _ => none)
  | .file .tmpfs => .file (.tmpfs 1 1 0 fun _ => none)
  | .file .pipe =>
    .file (.pipe [(⟨0, if isWrite then 0 else 1, 1, 1, false, fun _ => 0⟩, false)])
  | .file .blkdev => .file (.blkdev true 0 0 fun _ => none)
  | .file .dir => .file .dir

/-- Files without a guard are read and written whatever their mode is. -/
theorem unguarded_moves {isWrite : Bool} (hkind : kind.guards isWrite = false) (fmode : FMode)
    (hdir : isWrite = true → fmode.dir = false) :
    ∃ call : FileCall, call.Finds kind ∧ Moves (call.moved isWrite fmode) := by
  have hfinds : (oneByte isWrite kind).kind = kind := by
    cases kind with
    | chrdev | procfs => rfl
    | file k => cases k <;> rfl
  have hone : (useFile isWrite fmode 0 1 (oneByte isWrite kind)).touched = [⟨0, 1⟩] := by
    cases kind with
    | chrdev => cases isWrite <;> rfl
    | procfs writable =>
      cases isWrite with
      | false => rfl
      | true =>
        cases writable with
        | true => rfl
        | false => cases hkind
    | file k =>
      cases k with
      | brkfs | tmpfs | pipe => cases isWrite <;> rfl
      | blkdev | dir => cases isWrite <;> cases hkind
  refine ⟨.one 0 1 (oneByte isWrite kind), hfinds, ⟨0, 1⟩, ?_, Nat.one_pos⟩
  have hopen : ¬ (isWrite && fmode.dir) = true := by
    cases isWrite with
    | false => simp
    | true => simp [hdir rfl]
  simp only [FileCall.moved, if_neg hopen]
  exact hone ▸ List.mem_singleton_self _

/-- What the mode of the file allows. -/
def FMode.allows (fmode : FMode) (isWrite : Bool) : Bool :=
  if isWrite then fmode.write else fmode.read

/-- A guarded operation moves nothing that the mode of the file does not allow. -/
theorem guarded_useFile {u : UseState} {isWrite : Bool} (hkind : u.kind.guards isWrite = true)
    {fmode : FMode} {buf : BitVec 64} {size : Nat}
    (hm : Moves (useFile isWrite fmode buf size u).touched) : fmode.allows isWrite = true := by
  have hblk : ∀ {dead allowed : Bool} {capacity pos : Nat} {atEnd : Except Errno Nat}
      {pageErr : Nat → Option Errno},
      Moves (blkdevFile pageErr dead allowed capacity pos atEnd buf size).touched →
        allowed = true := by
    intro dead allowed capacity pos atEnd pageErr hm
    cases allowed with
    | true => rfl
    | false =>
      unfold blkdevFile at hm
      split at hm <;> obtain ⟨t, ht, -⟩ := hm <;> cases ht
  cases u with
  | chrdev result => cases hkind
  | procfs writable len pos result =>
    -- only writing is guarded, and only without a write function
    cases isWrite with
    | false => cases hkind
    | true =>
      cases writable with
      | true => cases hkind
      | false =>
        obtain ⟨t, ht, -⟩ := hm
        cases ht
  | file st =>
    cases st with
    | brkfs | tmpfs | pipe => cases hkind
    | dir => cases isWrite <;> obtain ⟨t, ht, -⟩ := hm <;> cases ht
    | blkdev dead capacity pos pageErr =>
      cases isWrite with
      | true => exact hblk hm
      | false => exact hblk hm

/-- A vector moves bytes only if one of its ranges does. -/
theorem iovLoop_moves {σ : Type} {op : BitVec 64 → Nat → σ → IoResult} {l : List (IoVec × σ)} :
    ∀ {total : Nat}, Moves (iovLoop op l total).touched →
      ∃ x ∈ l, Moves (op x.1.base x.1.len.toNat x.2).touched := by
  induction l with
  | nil =>
    rintro total ⟨t, ht, -⟩
    cases ht
  | cons x l ih =>
    intro total hm
    have hrest : ∀ {total : Nat}, Moves (iovLoop op l total).touched →
        ∃ y ∈ x :: l, Moves (op y.1.base y.1.len.toNat y.2).touched := by
      intro total hm
      obtain ⟨y, hy, hmove⟩ := ih hm
      exact ⟨y, List.mem_cons_of_mem x hy, hmove⟩
    unfold iovLoop at hm
    split at hm
    · exact hrest hm
    split at hm
    · obtain ⟨t, ht, -⟩ := hm
      cases ht
    split at hm
    · exact ⟨x, List.mem_cons_self, hm⟩
    · exact ⟨x, List.mem_cons_self, hm⟩
    · split at hm
      · exact ⟨x, List.mem_cons_self, hm⟩
      · obtain ⟨t, ht, hpos⟩ := hm
        rcases List.mem_append.1 ht with ht | ht
        · exact ⟨x, List.mem_cons_self, t, ht, hpos⟩
        · exact hrest ⟨t, ht, hpos⟩

/-- A guarded file moves nothing that its mode does not allow. -/
theorem guarded_moves {isWrite : Bool} (hkind : kind.guards isWrite = true) {call : FileCall}
    (hcall : call.Finds kind) {fmode : FMode} (hm : Moves (call.moved isWrite fmode)) :
    fmode.allows isWrite = true := by
  have hnil : ¬ Moves [] := by
    rintro ⟨t, ht, -⟩
    cases ht
  cases call with
  | one buf n u =>
    unfold FileCall.moved at hm
    dsimp only at hm
    split at hm
    · exact absurd hm hnil
    · exact guarded_useFile (hcall ▸ hkind) hm
  | vec nomem uiov iov =>
    unfold FileCall.moved readvWritevOp at hm
    dsimp only at hm
    -- the vector itself is all that a call touches which fails before the loop
    repeat' split at hm
    all_goals try exact absurd hm hnil
    obtain ⟨x, hx, hmove⟩ := iovLoop_moves hm
    exact guarded_useFile (hcall x hx ▸ hkind) hmove

/-- What does not guard writing is no directory. -/
theorem isDir_of_unguarded {proc : Nat → Option Bool} {i : Inode} (hi : s.inode f.ino = some i)
    (hk : f.kind proc s = some kind) (hkind : kind.guards true = false) : i.isDir = false := by
  unfold OpenFile.kind at hk
  rw [hi] at hk
  have hk' : openKind (proc f.ino) (s.kindOf f.ino) i = some kind := hk
  cases hdir : i.isDir with
  | false => rfl
  | true =>
    have htype : ∀ t, t ≠ sIfdir → i.hasType t = false := by
      intro t ht
      have hmode : i.mode &&& sIfmt = sIfdir := eq_of_beq hdir
      unfold Inode.hasType
      rw [hmode]
      exact beq_false_of_ne (Ne.symm ht)
    unfold openKind at hk'
    rw [htype sIfchr (by decide), htype sIfblk (by decide), hdir] at hk'
    split at hk' <;> cases hk' <;> cases hkind

end Open

/-- A file that has been opened grants what the access mode says to every later call, exactly when
the condition holds. -/
theorem open_grants {c : Cred} {s s' : Vfs} {flags mode : BitVec 32} {env : OpenEnv}
    {f : OpenFile} (proc : Nat → Option Bool) {kind : OpenKind}
    (h : doOpenat c flags mode env s = .ok (s', f)) (hk : f.kind proc s' = some kind) :
    Grants c s' flags f kind ↔ GrantFits flags kind := by
  obtain ⟨hboth, i, hi, hfmode, hperm⟩ := doOpenat_file h
  have hdisj : ¬ oRdwr = 0 ∧ ¬ oWronly = 0 ∧ ¬ oWronly = oRdwr ∧ ¬ (0 : BitVec 32) = oRdwr ∧
      ¬ (0 : BitVec 32) = oWronly ∧ ¬ (0 : BitVec 32) &&& oAccmode = oWronly := by decide
  have hdir : f.fmode.dir = i.isDir := by
    rw [hfmode]
    unfold openFmode
    split
    · rfl
    · split <;> rfl
  rcases accmode_cases hboth with ⟨hacc, hr, hw⟩ | ⟨hacc, hr, hw⟩ | ⟨hacc, hr⟩
  · -- `O_RDONLY`: reading is granted, writing is not
    have hreads : readsFile flags := .inl hacc
    have hnot : ¬ writesFile flags := by
      unfold writesFile
      rw [hacc, not_or]
      exact ⟨hdisj.2.2.2.2.1, hdisj.2.2.2.1⟩
    have hf : f.fmode = ⟨decide (flags = 0), false, i.isDir⟩ := by
      rw [hfmode]
      unfold openFmode
      rw [hr, hw]
      rfl
    constructor
    · intro hg
      have hread := hg.fmode hreads
      rw [hf] at hread
      refine .inr (.inl ⟨of_decide_eq_true hread, ?_⟩)
      by_contra hkind
      have hkind := Bool.eq_false_iff.2 hkind
      obtain ⟨call, hcall, hm⟩ := unguarded_moves hkind f.fmode fun _ =>
        hdir.trans (isDir_of_unguarded hi hk hkind)
      exact hnot (hg.write call hcall hm)
    · intro hfits
      unfold GrantFits at hfits
      rw [hacc] at hfits
      obtain ⟨h0, hkind⟩ := (hfits.resolve_left hdisj.2.2.2.1).resolve_right
        fun h => hdisj.2.2.2.2.1 h.1
      refine ⟨fun call _ _ => ⟨hreads, hi ▸ hperm hreads⟩, fun call hcall hm => ?_, fun _ => ?_⟩
      · have hwrite := guarded_moves hkind hcall hm
        rw [hf] at hwrite
        cases hwrite
      · rw [hf]
        exact decide_eq_true h0
  · -- `O_WRONLY`: the other way round
    have hnot : ¬ readsFile flags := by
      unfold readsFile
      rw [hacc, not_or]
      exact ⟨hdisj.2.1, hdisj.2.2.1⟩
    have hf : f.fmode = ⟨false, true, i.isDir⟩ := by
      rw [hfmode]
      unfold openFmode
      rw [hr, hw]
      rfl
    constructor
    · intro hg
      refine .inr (.inr ⟨hacc, ?_⟩)
      by_contra hkind
      obtain ⟨call, hcall, hm⟩ := unguarded_moves (Bool.eq_false_iff.2 hkind) f.fmode nofun
      exact hnot (hg.read call hcall hm).1
    · intro hfits
      unfold GrantFits at hfits
      rw [hacc] at hfits
      obtain ⟨-, hkind⟩ := (hfits.resolve_left hdisj.2.2.1).resolve_left fun h =>
        hdisj.2.2.2.2.2 (h.1 ▸ hacc)
      refine ⟨fun call hcall hm => ?_, fun _ _ _ => .inl hacc, fun hx => absurd hx hnot⟩
      have hread := guarded_moves hkind hcall hm
      rw [hf] at hread
      cases hread
  · have hreads : readsFile flags := .inr hacc
    refine ⟨fun _ => .inl hacc, fun _ => ⟨fun call _ _ => ⟨hreads, hi ▸ hperm hreads⟩,
      fun _ _ _ => .inr hacc, fun _ => ?_⟩⟩
    rw [hfmode]
    unfold openFmode
    rw [hr]
    rfl

/-- A file `0` of the user with the mode `0644` in a brkfs. -/
def ownFile : Vfs := ⟨[⟨sIfreg ||| 0o644, 1000, 1000, 0⟩], fun _ => [], fun _ => .brkfs⟩

/-- The path walk finds the file, and nothing fails. -/
def findsFile : OpenEnv :=
  ⟨.ok ⟨[102], false, some 0, 0, false, []⟩, .error .enoent, none, none, none, none, none⟩

/-- The file opened with `O_RDWR`, and opened with `O_RDONLY` as an entry of procfs without a write
function. -/
theorem open_grants_rdwr :
    Grants userCred ownFile oRdwr ⟨0, ⟨true, true, false⟩⟩ (.file .brkfs) ∧
      Grants userCred ownFile 0 ⟨0, ⟨true, false, false⟩⟩ (.procfs false) := by
  have hopen : doOpenat userCred oRdwr 0 findsFile ownFile =
      .ok (ownFile, ⟨0, ⟨true, true, false⟩⟩) := rfl
  have hopen' : doOpenat userCred 0 0 findsFile ownFile =
      .ok (ownFile, ⟨0, ⟨true, false, false⟩⟩) := rfl
  exact ⟨(open_grants (fun _ => none) hopen rfl).2 (.inl (by decide)),
    (open_grants (fun _ => some false) hopen' rfl).2 (.inr (.inl ⟨rfl, rfl⟩))⟩

/-- A file opened with `O_RDONLY` can be written by `write` and `writev`, one opened with `O_WRONLY`
can be read by `read` and `readv`, and one opened with `O_RDONLY | O_NOFOLLOW` does not have
`FMODE_READ`. -/
theorem open_not_granted : (∃ s f, doOpenat userCred 0 0 findsFile ownFile = .ok (s, f) ∧
      sysWrite f.fmode (.brkfs true 1 0 fun _ => none) 0 1 = ⟨[⟨0, 1⟩], some (.ok 1)⟩ ∧
      readvWritev true false f.fmode 16 [(⟨1, 1⟩, .brkfs true 1 0 fun _ => none)] =
        ⟨[⟨16, 16⟩, ⟨1, 1⟩], some (.ok 1)⟩) ∧
    (∃ s f, doOpenat userCred oWronly 0 findsFile ownFile = .ok (s, f) ∧
      sysRead f.fmode (.brkfs true 1 0 fun _ => none) 0 1 = ⟨[⟨0, 1⟩], some (.ok 1)⟩ ∧
      readvWritev false false f.fmode 16 [(⟨1, 1⟩, .brkfs true 1 0 fun _ => none)] =
        ⟨[⟨16, 16⟩, ⟨1, 1⟩], some (.ok 1)⟩) ∧
    (∃ s f, doOpenat userCred oNofollow 0 findsFile ownFile = .ok (s, f) ∧
      readsFile oNofollow ∧ f.fmode.read = false) := by
  refine ⟨⟨_, _, rfl, rfl, rfl⟩, ⟨_, _, rfl, rfl, rfl⟩, ⟨_, _, rfl, .inl ?_, rfl⟩⟩
  decide

end BrkKernel.Fs
