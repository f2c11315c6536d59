import BrkKernel.Fs.Namei

/-!
# Who may change a directory

`namespace_change_authorised`: a call that succeeds has changed only directories that the caller
may write and search, and what it has made has no bit of the caller's mask, except that `do_creat`
checks neither.
-/

set_option autoImplicit false

namespace BrkKernel.Fs

open Kern Function Vfs

variable {flags : BitVec 32} {symlink retried : Bool} {nd od : Dentry}
  {look oldLook newLook : Except Errno Dentry} {ino n newDir oldDir : Nat} {env : OpenEnv}
  {f : OpenFile} {name : Name}

/-- An entry of the directory has come or gone. -/
def EntryChanged (s s' : Vfs) (d : Nat) : Prop := ∃ e, ¬ (e ∈ s.entries d ↔ e ∈ s'.entries d)

/-- The caller may change the directories that have changed, and its mask holds for what is new. -/
structure Authorised (c : Cred) (s s' : Vfs) (symlink : Bool) : Prop where
  dirs : ∀ d, EntryChanged s s' d → inodePermission c (s.inode d) (mayWrite ||| mayExec) = none
  modes : symlink = false → ∀ n i, s.inodes.length ≤ n → s'.inode n = some i →
    i.mode &&& c.umask &&& permBits = 0

/-- The calls, with what they meet. -/
inductive NsCall where
  | openat (flags mode : BitVec 32) (env : OpenEnv)
  | creat (mode : BitVec 32) (look : Except Errno Dentry) (io : Option Errno)
  | mkdir (mode : BitVec 32) (look : Except Errno Dentry) (io : Option Errno)
  | mknod (mode : BitVec 32) (look : Except Errno Dentry) (io : Option Errno)
  | link (oldLook newLook : Except Errno Dentry) (io : Option Errno)
  | symlink (look : Except Errno Dentry) (io : Option Errno)
  | unlink (look : Except Errno Dentry) (io : Option Errno)
  | rmdir (look : Except Errno Dentry) (io : Option Errno)
  | rename (flags : BitVec 32) (oldLook newLook : Except Errno Dentry) (io : Option Errno)

def NsCall.run (c : Cred) (s : Vfs) : NsCall → Except Errno Vfs
  | .openat flags mode env => (doOpenat c flags mode env s).map Prod.fst
  | .creat mode look io => doCreat c mode look io s
  | .mkdir mode look io => doMkdirat c mode look io s
  | .mknod mode look io => doMknodat c mode look io s
  | .link oldLook newLook io => doLinkat c oldLook newLook io s
  | .symlink look io => doSymlinkat c look io s
  | .unlink look io => doUnlinkat c look io s
  | .rmdir look io => doRmdir c look io s
  | .rename flags oldLook newLook io => doRenameat c flags oldLook newLook io s

def NsCall.isSymlink : NsCall → Bool
  | .symlink _ _ => true
  | _ => false

/-- The condition: a call of `creat` that will make a file is made by a task that may do so, with a
mode that its mask allows. -/
def NsCall.Fits (c : Cred) (s : Vfs) : NsCall → Prop
  | .creat mode look io => ∀ d, look = .ok d → d.negative = true → d.inode = none →
      s.lookup d.parent d.name = none → io = none →
      inodePermission c (s.inode d.parent) (mayWrite ||| mayExec) = none ∧
        mode &&& c.umask &&& permBits = 0
  | _ => True

section Proofs

variable {c : Cred} {s s' : Vfs} {dir : Nat} {d : Dentry} {mode : BitVec 32} {io : Option Errno}

theorem not_entryChanged_self : ¬ EntryChanged s s n := fun ⟨_, h⟩ => h Iff.rfl

/-- Only the directory that is written to changes. -/
theorem entryChanged_update {l : List (Name × Nat)} {t : Vfs}
    (hentries : t.entries = update s.entries dir l) (h : EntryChanged s t n) : n = dir := by
  obtain ⟨e, he⟩ := h
  by_contra hne
  exact he (by rw [hentries, update_of_ne hne])

theorem newNode_ok (h : s.newNode c dir d mode io = .ok (s', n)) :
    d.inode = none ∧ s.lookup dir d.name = none ∧ io = none ∧ n = s.inodes.length ∧
      s' = { s with inodes := s.inodes ++ [s.newInode c dir mode] }.dirAdd dir d.name
        s.inodes.length := by
  unfold newNode at h
  rw [ite_error_eq_ok, ite_error_eq_ok] at h
  obtain ⟨hd, hl, h⟩ := h
  cases io with
  | some e => cases h
  | none =>
    cases h
    exact ⟨Option.not_isSome_iff_eq_none.1 hd, Option.not_isSome_iff_eq_none.1 hl, rfl, rfl, rfl⟩

/-- What a node that has been made changes. -/
theorem authorised_newNode (h : s.newNode c dir d mode io = .ok (s', n))
    (hperm : inodePermission c (s.inode dir) (mayWrite ||| mayExec) = none)
    (hmode : symlink = false → mode &&& c.umask &&& permBits = 0) : Authorised c s s' symlink := by
  obtain ⟨-, -, -, -, rfl⟩ := newNode_ok h
  refine ⟨fun m hm => ?_, fun hs m i hlen hi => ?_⟩
  · rw [entryChanged_update rfl hm]
    exact hperm
  have hlast : (s.inodes ++ [s.newInode c dir mode])[m]? = some i := hi
  rw [List.getElem?_append_right hlen, List.getElem?_singleton] at hlast
  split at hlast
  · cases hlast
    exact hmode hs
  · cases hlast

/-- A call that makes no inode is judged by the directories. -/
theorem authorised_of_inodes (hlen : s'.inodes.length = s.inodes.length)
    (hdirs : ∀ n, EntryChanged s s' n →
      inodePermission c (s.inode n) (mayWrite ||| mayExec) = none) : Authorised c s s' symlink := by
  refine ⟨hdirs, fun _ n i hn hi => ?_⟩
  have hlt : n < s'.inodes.length := (List.getElem?_eq_some_iff.1 hi).1
  omega

theorem exists_of_map_fst {α : Type} {x : Except Errno (Vfs × α)} (h : x.map Prod.fst = .ok s') :
    ∃ y, x = .ok (s', y) := by
  cases x with
  | error e => cases h
  | ok r =>
    cases h
    exact ⟨r.2, rfl⟩

theorem makeNode_ok {op : Nat → Dentry → Except Errno (Vfs × Nat)}
    (h : makeNode c look s op = .ok s') : ∃ d n, op d.parent d = .ok (s', n) ∧
      inodePermission c (s.inode d.parent) (mayWrite ||| mayExec) = none := by
  unfold makeNode at h
  split at h
  · cases h
  next d =>
    split at h
    · cases h
    split at h
    · cases h
    next hp =>
      obtain ⟨n, hop⟩ := exists_of_map_fst h
      exact ⟨d, n, hop, hp⟩

theorem removeNode_ok (h : s.removeNode dir d io = .ok s') : s' = s.dirRemove dir d.name := by
  unfold removeNode at h
  rw [ite_error_eq_ok] at h
  cases io with
  | some e => cases h.2
  | none =>
    cases h.2
    rfl

theorem dropNode_ok {op : Nat → Dentry → Except Errno Vfs} (h : dropNode c look s op = .ok s') :
    ∃ d, op d.parent d = .ok s' ∧
      inodePermission c (s.inode d.parent) (mayWrite ||| mayExec) = none := by
  unfold dropNode at h
  split at h
  · cases h
  next d =>
    split at h
    · cases h
    split at h
    · cases h
    next hp => exact ⟨d, h, inodePermission_of_mayDelete hp⟩

/-- What a removed entry changes. -/
theorem authorised_dirRemove
    (hperm : inodePermission c (s.inode dir) (mayWrite ||| mayExec) = none) :
    Authorised c s (s.dirRemove dir name) symlink :=
  authorised_of_inodes rfl fun n hn => by
    rw [entryChanged_update rfl hn]
    exact hperm

theorem authorised_doMkdirat (h : doMkdirat c mode look io s = .ok s') (symlink : Bool) :
    Authorised c s s' symlink := by
  obtain ⟨d, n, hop, hperm⟩ := makeNode_ok h
  refine authorised_newNode hop hperm fun _ => ?_
  rw [type_disjoint_iff (by decide), BitVec.or_comm, type_disjoint_iff (by decide)]
  exact applyUmask_disjoint c mode

theorem authorised_doMknodat (h : doMknodat c mode look io s = .ok s') (symlink : Bool) :
    Authorised c s s' symlink := by
  obtain ⟨d, n, hop, hperm⟩ := makeNode_ok (ite_error_eq_ok.1 h).2
  refine authorised_newNode hop hperm fun _ => ?_
  have htype : mode &&& sIfmt &&& permBits = 0 := by
    rw [BitVec.and_assoc]
    exact BitVec.and_zero
  rw [BitVec.or_comm, type_disjoint_iff htype]
  exact applyUmask_disjoint c (mode &&& 0o7777)

theorem authorised_doSymlinkat (h : doSymlinkat c look io s = .ok s') : Authorised c s s' true := by
  obtain ⟨d, n, hop, hperm⟩ := makeNode_ok h
  exact authorised_newNode hop hperm nofun

theorem authorised_doUnlinkat (h : doUnlinkat c look io s = .ok s') (symlink : Bool) :
    Authorised c s s' symlink := by
  obtain ⟨d, hop, hperm⟩ := dropNode_ok h
  rw [removeNode_ok (ite_error_eq_ok.1 hop).2]
  exact authorised_dirRemove hperm

theorem authorised_doRmdir (h : doRmdir c look io s = .ok s') (symlink : Bool) :
    Authorised c s s' symlink := by
  obtain ⟨d, hop, hperm⟩ := dropNode_ok h
  unfold rmdir at hop
  rw [ite_error_eq_ok, ite_error_eq_ok] at hop
  rw [removeNode_ok hop.2.2]
  exact authorised_dirRemove hperm

theorem Authorised.refl (c : Cred) (s : Vfs) (symlink : Bool) : Authorised c s s symlink :=
  authorised_of_inodes rfl fun _ hn => absurd hn not_entryChanged_self

/-- The set-id bits are no permission bits. -/
theorem removePrivs_sub (i : Inode) (c : Cred) (j : Nat) :
    (i.removePrivs c).mode.getLsbD j = true → i.mode.getLsbD j = true := by
  unfold Inode.removePrivs
  split
  · exact id
  simp only [BitVec.getLsbD_or, BitVec.getLsbD_and, Bool.or_eq_true, Bool.and_eq_true]
  rintro (h | h)
  · exact h.1
  · exact h.1.1

theorem removePrivs_disjoint {i : Inode} (h : i.mode &&& c.umask &&& permBits = 0) :
    (i.removePrivs c).mode &&& c.umask &&& permBits = 0 := by
  apply BitVec.eq_of_getLsbD_eq
  intro j hj
  have hbit : (i.mode &&& c.umask &&& permBits).getLsbD j = (0#32).getLsbD j :=
    congrArg (BitVec.getLsbD · j) h
  show _ = (0#32).getLsbD j
  rw [BitVec.getLsbD_and, BitVec.getLsbD_and, BitVec.getLsbD_zero] at hbit ⊢
  cases hp : (i.removePrivs c).mode.getLsbD j with
  | false => rfl
  | true =>
    rw [removePrivs_sub i c j hp] at hbit
    exact hbit

theorem Authorised.removePrivs (h : Authorised c s s' symlink) (ino : Nat) :
    Authorised c s (s'.removePrivs c ino) symlink := by
  refine ⟨h.dirs, fun hs n i hn hi => ?_⟩
  have hmod : (s'.inodes.modify ino fun i => i.removePrivs c)[n]? = some i := hi
  rw [List.getElem?_modify] at hmod
  obtain ⟨i', hi', rfl⟩ := Option.map_eq_some_iff.1 hmod
  have hold := h.modes hs n i' hn hi'
  split
  · exact removePrivs_disjoint hold
  · exact hold

theorem authorised_openCreate {mode : BitVec 32} {ino : Option Nat}
    (h : openCreate c flags mode d io retried s = .found s' ino) : Authorised c s s' false := by
  unfold openCreate at h
  split at h
  · cases h
  next hp =>
    split at h
    · next hc =>
        cases h
        exact authorised_newNode hc hp fun _ =>
          (type_disjoint_iff (by decide)).2 (applyUmask_disjoint c mode)
    · split at h
      · cases h
      · cases h

theorem authorised_openAttempt {mode : BitVec 32} {ino : Option Nat}
    (h : openAttempt c flags mode look io retried s = .found s' ino) : Authorised c s s' false := by
  unfold openAttempt at h
  split at h
  · cases h
  split at h
  · cases h
  split at h
  · split at h
    · cases h
    · exact authorised_openCreate h
  split at h
  · cases h
  · cases h
    exact .refl c s false

theorem openFinish_ok (h : openFinish c flags env s ino = .ok (s', f)) :
    inodePermission c (s.inode ino) (openPermMask flags) = none ∧
      f = ⟨ino, openFmode flags (s.isDir ino)⟩ ∧
      s' = if openPermMask flags &&& mayWrite ≠ 0 then s.removePrivs c ino else s := by
  unfold openFinish at h
  split at h
  · cases h
  next hp =>
    split at h
    · cases h
    split at h
    · cases h
    split at h
    · cases h
    · cases h
      exact ⟨hp, rfl, rfl⟩

/-- How a file is opened: a pass has found it, and the rest went well. -/
theorem doOpenat_ok {mode : BitVec 32} (h : doOpenat c flags mode env s = .ok (s', f)) :
    ¬ (hasFlag flags oRdwr = true ∧ hasFlag flags oWronly = true) ∧
      ∃ look io retried t ino, openAttempt c flags mode look io retried s = .found t (some ino) ∧
        openFinish c flags env t ino = .ok (s', f) := by
  have hrest : ∀ {look io retried},
      openRest c flags env (openAttempt c flags mode look io retried s) = .ok (s', f) →
      ∃ look io retried t ino, openAttempt c flags mode look io retried s = .found t (some ino) ∧
        openFinish c flags env t ino = .ok (s', f) := by
    intro look io retried h
    unfold openRest at h
    split at h
    · cases h
    · cases h
    · cases h
    · next t ino ha => exact ⟨look, io, retried, t, ino, ha, h⟩
  unfold doOpenat at h
  rw [ite_error_eq_ok] at h
  obtain ⟨hflags, h⟩ := h
  refine ⟨fun hx => hflags (by rw [hx.1, hx.2]; rfl), ?_⟩
  split at h
  · exact hrest h
  · exact hrest h

theorem authorised_doOpenat {mode : BitVec 32} (h : doOpenat c flags mode env s = .ok (s', f)) :
    Authorised c s s' false := by
  obtain ⟨-, look, io, retried, t, ino, ha, hf⟩ := doOpenat_ok h
  obtain ⟨-, -, rfl⟩ := openFinish_ok hf
  have hauth := authorised_openAttempt ha
  split
  · exact hauth.removePrivs ino
  · exact hauth

theorem link_ok {old : Nat} (h : s.link old dir d io = .ok s') : s' = s.dirAdd dir d.name old := by
  unfold link at h
  rw [ite_error_eq_ok, ite_error_eq_ok, ite_error_eq_ok] at h
  obtain ⟨-, -, -, h⟩ := h
  cases io with
  | some e => cases h
  | none =>
    cases h
    rfl

theorem authorised_doLinkat (h : doLinkat c oldLook newLook io s = .ok s') (symlink : Bool) :
    Authorised c s s' symlink := by
  unfold doLinkat at h
  split at h
  · cases h
  split at h
  · cases h
  split at h
  · cases h
  split at h
  · cases h
  split at h
  · cases h
  split at h
  · cases h
  split at h
  · cases h
  next hp =>
    rw [link_ok (ite_error_eq_ok.1 h).2]
    refine authorised_of_inodes rfl fun n hn => ?_
    rw [entryChanged_update rfl hn]
    exact hp

theorem entryChanged_moved (h : EntryChanged s (s.moved oldDir newDir ino od nd) n) :
    n = oldDir ∨ n = newDir := by
  by_contra hne
  rw [not_or] at hne
  obtain ⟨e, he⟩ := h
  apply he
  unfold moved dirRemove dirAdd
  dsimp only
  rw [update_of_ne hne.1, update_of_ne hne.2]
  split
  · dsimp only
    rw [update_of_ne hne.2]
  · exact Iff.rfl

theorem moved_inodes : (s.moved oldDir newDir ino od nd).inodes = s.inodes := by
  unfold moved dirRemove dirAdd
  split
  · rfl
  · rfl

theorem rename_ok (h : s.rename oldDir newDir ino od nd io = .ok s') :
    s' = s.moved oldDir newDir ino od nd := by
  unfold rename at h
  split at h
  · unfold brkfsRename at h
    rw [ite_error_eq_ok, ite_error_eq_ok, ite_error_eq_ok, ite_error_eq_ok] at h
    obtain ⟨-, -, -, -, h⟩ := h
    cases io with
    | some e => cases h
    | none =>
      cases h
      rfl
  · cases h

theorem inodePermission_of_mayReplace (h : mayReplace c nd s = none) :
    inodePermission c (s.inode nd.parent) (mayWrite ||| mayExec) = none := by
  unfold mayReplace at h
  split at h
  · exact inodePermission_of_mayDelete h
  · exact h

theorem authorised_doRenameat
    (h : doRenameat c flags oldLook newLook io s = .ok s') (symlink : Bool) :
    Authorised c s s' symlink := by
  unfold doRenameat at h
  split at h
  · cases h
  split at h
  · cases h
  split at h
  · cases h
  split at h
  · cases h
  split at h
  · cases h
  · cases h
    exact .refl c s symlink
  split at h
  · cases h
  next hd =>
    split at h
    · cases h
    next hn =>
      rw [rename_ok h]
      refine authorised_of_inodes (by rw [moved_inodes]) fun n hch => ?_
      rcases entryChanged_moved hch with rfl | rfl
      · exact inodePermission_of_mayDelete hd
      · exact inodePermission_of_mayReplace hn

theorem doCreat_ok (h : doCreat c mode look io s = .ok s') :
    ∃ d n, look = .ok d ∧ d.negative = true ∧ s.create c d.parent d mode io = .ok (s', n) := by
  unfold doCreat at h
  split at h
  · cases h
  next d =>
    split at h
    · cases h
    next hneg =>
      obtain ⟨n, hc⟩ := exists_of_map_fst h
      exact ⟨d, n, rfl, by simpa using hneg, hc⟩

/-- A new entry is a change. -/
theorem entryChanged_dirAdd (h : s.lookup dir name = none) :
    EntryChanged s (s.dirAdd dir name ino) dir := by
  refine ⟨(name, ino), fun hiff => ?_⟩
  have hnew : (name, ino) ∈ (s.dirAdd dir name ino).entries dir := by
    unfold dirAdd
    dsimp only
    rw [update_self]
    exact List.mem_append_right _ (List.mem_singleton.2 rfl)
  have hold := hiff.2 hnew
  unfold lookup at h
  rw [Option.map_eq_none_iff, List.find?_eq_none] at h
  exact h _ hold (beq_self_eq_true name)

theorem doCreat_authorised_iff :
    (∀ s', doCreat c mode look io s = .ok s' → Authorised c s s' false) ↔
      NsCall.Fits c s (.creat mode look io) := by
  constructor
  · rintro h d rfl hneg hino hlook rfl
    have hrun : doCreat c mode (.ok d) none s =
        .ok (dirAdd { s with inodes := s.inodes ++ [s.newInode c d.parent (sIfreg ||| mode)] }
          d.parent d.name s.inodes.length) := by
      unfold doCreat create newNode
      dsimp only
      rw [hneg, hino, hlook]
      rfl
    have hauth := h _ hrun
    refine ⟨hauth.dirs d.parent (entryChanged_dirAdd (s := { s with inodes := _ }) hlook), ?_⟩
    refine (type_disjoint_iff (t := sIfreg) (by decide)).1 (hauth.modes rfl s.inodes.length
      (s.newInode c d.parent (sIfreg ||| mode)) (Nat.le_refl _) ?_)
    show (s.inodes ++ [s.newInode c d.parent (sIfreg ||| mode)])[s.inodes.length]? = _
    rw [List.getElem?_append_right (Nat.le_refl _), Nat.sub_self]
    rfl
  · intro h s' hrun
    obtain ⟨d, n, rfl, hneg, hc⟩ := doCreat_ok hrun
    obtain ⟨hino, hlook, hio, -⟩ := newNode_ok hc
    obtain ⟨hperm, hmode⟩ := h d rfl hneg hino hlook hio
    exact authorised_newNode hc hperm fun _ => (type_disjoint_iff (by decide)).2 hmode

end Proofs

/-- A call that succeeds has changed only directories that the caller may write and search, and the
mask of the caller holds for what it has made, exactly when it is no call of `creat` that makes a
file without being allowed to. -/
theorem namespace_change_authorised (c : Cred) (s : Vfs) (call : NsCall) :
    (∀ s', call.run c s = .ok s' → Authorised c s s' call.isSymlink) ↔ call.Fits c s := by
  cases call with
  | creat mode look io => exact doCreat_authorised_iff
  | openat flags mode env =>
    refine ⟨fun _ => trivial, fun _ s' h => ?_⟩
    obtain ⟨f, ho⟩ := exists_of_map_fst h
    exact authorised_doOpenat ho
  | mkdir mode look io => exact ⟨fun _ => trivial, fun _ s' h => authorised_doMkdirat h false⟩
  | mknod mode look io => exact ⟨fun _ => trivial, fun _ s' h => authorised_doMknodat h false⟩
  | link oldLook newLook io => exact ⟨fun _ => trivial, fun _ s' h => authorised_doLinkat h false⟩
  | symlink look io => exact ⟨fun _ => trivial, fun _ s' h => authorised_doSymlinkat h⟩
  | unlink look io => exact ⟨fun _ => trivial, fun _ s' h => authorised_doUnlinkat h false⟩
  | rmdir look io => exact ⟨fun _ => trivial, fun _ s' h => authorised_doRmdir h false⟩
  | rename flags oldLook newLook io =>
    exact ⟨fun _ => trivial, fun _ s' h => authorised_doRenameat h false⟩

/-- A task without privileges and with the mask `022`. -/
def userCred : Cred :=
  { uid := 1000, euid := 1000, suid := 1000, fsuid := 1000, fsgid := 1000, groups := []
    umask := 0o22
    capEffective := 0, capPermitted := 0 }

/-- An empty directory `0` of the super-user with the mode `0755`. -/
def rootDir : Vfs := ⟨[⟨sIfdir ||| 0o755, 0, 0, 0⟩], fun _ => [], fun _ => .brkfs⟩

/-- A name in that directory that is not taken. -/
def freeName : Dentry := ⟨[102], true, none, 0, false, [0]⟩

/-- A task that may not write the directory makes a file in it with `creat`, and its mask is not
applied. -/
theorem creat_unchecked : ∃ s', doCreat userCred 0o666 (.ok freeName) none rootDir = .ok s' ∧
    s'.entries 0 = [([102], 1)] ∧
    inodePermission userCred (rootDir.inode 0) (mayWrite ||| mayExec) = some .eacces ∧
    s'.inode 1 = some ⟨sIfreg ||| 0o666, 1000, 1000, 0⟩ ∧
    (sIfreg ||| 0o666) &&& userCred.umask &&& permBits ≠ 0 := by
  refine ⟨_, rfl, ?_, ?_, ?_, ?_⟩
  · decide
  · decide
  · decide
  · decide

end BrkKernel.Fs
