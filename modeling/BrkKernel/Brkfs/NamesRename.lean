import BrkKernel.Brkfs.Names

/-!
# Renames on a brkfs volume, all or nothing

`brkfs_rename` makes up to three edits of the directories and then writes up to four inodes. The
edits are undone when one of them fails (`renameEdit_error`); a write that fails is reported
although the edits stand. So with one failing call, and no addition that cuts an unused entry short,
the rename is all or nothing exactly if the call that fails is not one of the writes that it makes
(`brkfsRename_all_or_nothing`).
-/

set_option autoImplicit false

namespace BrkKernel.Names

open Sys Res

/-! ## What the calls leave alone -/

/-- The call has returned an error. -/
def Res.failed (r : Res) : Bool :=
  match r.1 with
  | .error _ => true
  | .ok _ => false

namespace Res

variable (r : Res) {k : Sys → Res}

theorem failed_next : (r.next k).failed = (r.failed || (k r.2).failed) := by
  obtain ⟨x, s⟩ := r
  cases x with
  | error x => rfl
  | ok _ => rfl

theorem next_keeps {P : Sys → Prop} (hr : P r.2) (hk : ∀ s, P s → P (k s).2) : P (r.next k).2 := by
  obtain ⟨x, s⟩ := r
  cases x with
  | error x => exact hr
  | ok _ => exact hk s hr

theorem next_of_not_failed (h : r.failed = false) : r.next k = k r.2 := by
  obtain ⟨x, s⟩ := r
  cases x with
  | error x => cases h
  | ok _ => rfl

theorem next_of_failed (h : r.failed = true) : (r.next k).2 = r.2 ∧ (r.next k).failed = true := by
  obtain ⟨x, s⟩ := r
  cases x with
  | error x => exact ⟨rfl, rfl⟩
  | ok _ => cases h

end Res

namespace Sys

section Entries

variable (s : Sys) (d : Node) (name : Name) (ino : Nat)

theorem entry_congr {s s' : Sys} (h : s'.dir = s.dir) (d : Node) (name : Name) :
    s'.entry d name = s.entry d name := by
  unfold entry
  rw [h]

theorem entry_insertEntry (d' : Node) (name' : Name) :
    (s.insertEntry d name ino).entry d' name' =
      if d' = d ∧ name' = name then some ino else s.entry d' name' := by
  by_cases hd : d' = d
  · subst hd
    by_cases hn : name' = name
    · subst hn
      simp [entry, insertEntry]
    · simp [entry, insertEntry, hn]
  · simp [entry, insertEntry, hd]

theorem entry_eraseEntry (d' : Node) (name' : Name) :
    (s.eraseEntry d name).entry d' name' =
      if d' = d ∧ name' = name then none else s.entry d' name' := by
  by_cases hd : d' = d
  · subst hd
    by_cases hn : name' = name
    · subst hn
      simp [entry, eraseEntry]
    · simp [entry, eraseEntry, hn]
  · simp [entry, eraseEntry, hd]

@[simp] theorem kindOf_addBlocks (d : Node) (bs : List Nat) (n : Node) :
    (s.addBlocks d bs).kindOf n = s.kindOf n := by
  by_cases h : n = d
  · subst h
    cases hc : s.core n with
    | none | some i => simp [kindOf, addBlocks, modify, setCore, hc]
  · simp [kindOf, addBlocks, modify, setCore, h]

theorem entry_addBlocks (bs : List Nat) (d' : Node) (name : Name) :
    (s.addBlocks d bs).entry d' name = s.entry d' name := rfl

/-- What `brkfs_dir_add` does with a type it knows. -/
theorem brkfsDirAdd_eq (name : Name) {kind : Kind} (grow : List Nat)
    (fault : Option Errno) (hk : kind ≠ .unknown) :
    s.brkfsDirAdd d ino name kind grow fault =
      fault.elim (.ok (), (s.addBlocks d grow).insertEntry d name ino) fun x => (.error x, s) := by
  unfold brkfsDirAdd
  rw [if_neg hk]
  cases fault with
  | none => rfl
  | some x => rfl

/-- What `brkfs_dir_remove` does with a name that is there. -/
theorem brkfsDirRemove_eq (fault : Option Errno) (h : (s.entry d name).isSome) :
    s.brkfsDirRemove d name fault =
      fault.elim (.ok (), s.eraseEntry d name) fun x => (.error x, s) := by
  cases fault with
  | some x => rfl
  | none =>
    have hn : ¬ ((s.entry d name).isNone ∧ (s.core d).all fun i => i.blocks.isEmpty) := by
      intro hc
      cases he : s.entry d name with
      | none => simp [he] at h
      | some ino => simp [he] at hc
    simp only [brkfsDirRemove, hn, if_false, Option.elim_none]

end Entries

end Sys

/-- The calls of `brkfs_rename` at which a failure is injected. -/
def Site.injected : Site → Bool
  | .isEmpty | .remove | .add | .removeOld | .undoRemove | .undoAdd => true
  | .writeTarget | .writeInode | .writeDir | .writeNewDir => true
  | _ => false

/-- At most one call fails, and it is one of those. -/
def Env.OneFailure (e : Env) : Prop :=
  ∃ site : Site, site.injected ∧ ∀ other, other ≠ site → e.fault other = none

theorem Env.OneFailure.none_of_some {e : Env} (h : e.OneFailure) {a b : Site}
    (ha : (e.fault a).isSome) (hab : b ≠ a) : e.fault b = none := by
  obtain ⟨site, _, hothers⟩ := h
  have hsite : a = site := by
    by_contra hne
    rw [hothers a hne] at ha
    cases ha
  exact hothers b (hsite ▸ hab)

theorem Env.OneFailure.none_of_not_injected {e : Env} (h : e.OneFailure) {a : Site}
    (ha : a.injected = false) : e.fault a = none := by
  obtain ⟨site, hsite, hothers⟩ := h
  apply hothers
  intro heq
  rw [heq, hsite] at ha
  cases ha

/-- The inodes that a rename is given: inodes of one volume that `brkfs_inode_read` has loaded. -/
structure RenameCall (s : Sys) (oldDir : Node) (od : Dentry) (newDir : Node) (nd : Dentry) :
    Prop where
  volume : newDir.sb = oldDir.sb
  dirs : ∀ d, d = oldDir ∨ d = newDir → s.validIno oldDir.sb d.ino
  inodes : ∀ n, od.inode = some n ∨ nd.inode = some n →
    n.sb = oldDir.sb ∧ s.validIno oldDir.sb n.ino ∧ s.kindOf n ≠ .unknown

namespace Sys

/-- One of the writes that the rename makes fails. -/
def WriteFails (e : Env) (oldDir newDir : Node) (nd : Dentry) : Prop :=
  (nd.inode.isSome ∧ (e.fault .writeTarget).isSome) ∨ (e.fault .writeInode).isSome ∨
    (e.fault .writeDir).isSome ∨ (newDir ≠ oldDir ∧ (e.fault .writeNewDir).isSome)

/-! ## The edits of the directories -/

section Edit

variable {s s1 : Sys} {e : Env} {n oldDir newDir : Node} {oldName : Name} {nd : Dentry}

/-- A failure elsewhere is the only one. -/
theorem not_writeFails {site : Site} (hone : e.OneFailure) (hsite : (e.fault site).isSome)
    (hne : site ≠ .writeTarget ∧ site ≠ .writeInode ∧ site ≠ .writeDir ∧ site ≠ .writeNewDir) :
    ¬ WriteFails e oldDir newDir nd := by
  obtain ⟨h1, h2, h3, h4⟩ := hne
  simp [WriteFails, hone.none_of_some hsite h1.symm, hone.none_of_some hsite h2.symm,
    hone.none_of_some hsite h3.symm, hone.none_of_some hsite h4.symm]

/-- The directories once the name has moved. -/
def movedEntry (s : Sys) (n oldDir : Node) (oldName : Name) (newDir : Node) (newName : Name)
    (d : Node) (name : Name) : Option Nat :=
  if d = oldDir ∧ name = oldName then none
  else if d = newDir ∧ name = newName then some n.ino
  else s.entry d name

/-- What the rename has found before its edits: both names are what their dentries say, the types
are known, and the names are two. -/
structure Edits (s : Sys) (n oldDir : Node) (oldName : Name) (newDir : Node) (nd : Dentry) :
    Prop where
  old : s.entry oldDir oldName = some n.ino
  new : s.entry newDir nd.name = nd.inode.map Node.ino
  kind : s.kindOf n ≠ .unknown
  targetKind : ∀ t, nd.inode = some t → s.kindOf t ≠ .unknown
  two : ¬ (oldDir = newDir ∧ oldName = nd.name)

/-- Edits that fail are undone, and were the one failure; others have moved the name. -/
def Edited (s : Sys) (e : Env) (n oldDir : Node) (oldName : Name) (newDir : Node) (nd : Dentry)
    (r : Res) : Prop :=
  (r.failed = true ∧ ¬ WriteFails e oldDir newDir nd ∧
      ∀ d name, r.2.entry d name = s.entry d name) ∨
    (r.failed = false ∧ r.2.inodesCount = s.inodesCount ∧
      ∀ d name, r.2.entry d name = movedEntry s n oldDir oldName newDir nd.name d name)

section

variable (h : Edits s n oldDir oldName newDir nd)

include h

/-- Where the new name is, the dentry says what the directory has. -/
theorem Edits.entry_eq (d : Node) (name : Name) :
    (if d = newDir ∧ name = nd.name then nd.inode.map Node.ino else s.entry d name) =
      s.entry d name := by
  split
  · next hd => rw [hd.1, hd.2, h.new]
  · rfl

section

variable (hk : ∀ m, s1.kindOf m = s.kindOf m) (hs : ∀ d name, s1.entry d name =
  if d = newDir ∧ name = nd.name then none else s.entry d name)

include hk hs

/-- Putting the replaced entry back. -/
theorem entry_renameUndo (hf : e.fault .undoAdd = none) (d : Node) (name : Name) :
    (s1.renameUndo e newDir nd).entry d name = s.entry d name := by
  have hback := h.entry_eq d name
  unfold renameUndo
  cases hnd : nd.inode with
  | none =>
    rw [hnd] at hback
    exact (hs d name).trans hback
  | some t =>
    rw [hnd] at hback
    have hkt : s1.kindOf t ≠ .unknown := by rw [hk t]; exact h.targetKind t hnd
    simp only [brkfsDirAdd_eq _ _ _ _ _ _ hkt, hf, Option.elim_none, entry_insertEntry,
      entry_addBlocks, hs]
    split
    · next hd => rwa [if_pos hd] at hback
    · rfl

/-- Adding the new name and removing the old one, where the new name is not there: one failure is
undone, and with none the name has moved. -/
theorem renameMove_spec (hone : e.OneFailure) (hc : s1.inodesCount = s.inodesCount) :
    Edited s e n oldDir oldName newDir nd (s1.renameMove e n oldDir oldName newDir nd) := by
  have hkn : s1.kindOf n ≠ .unknown := by rw [hk n]; exact h.kind
  unfold renameMove
  rw [brkfsDirAdd_eq _ _ _ _ _ _ hkn]
  cases hadd : e.fault .add with
  | some x =>
    have hsome : (e.fault .add).isSome := by rw [hadd]; rfl
    exact .inl ⟨rfl, not_writeFails hone hsome (by decide),
      entry_renameUndo h hk hs (hone.none_of_some hsome (by decide))⟩
  | none =>
    simp only [Option.elim_none]
    have hold : (((s1.addBlocks newDir e.grow).insertEntry newDir nd.name n.ino).entry oldDir
        oldName).isSome := by
      rw [entry_insertEntry, if_neg h.two, entry_addBlocks, hs, if_neg h.two, h.old]
      rfl
    rw [brkfsDirRemove_eq _ _ _ _ hold]
    cases hrem : e.fault .removeOld with
    | some x =>
      have hsome : (e.fault .removeOld).isSome := by rw [hrem]; rfl
      have hback : e.fault .undoRemove = none := hone.none_of_some hsome (by decide)
      have hnew : (((s1.addBlocks newDir e.grow).insertEntry newDir nd.name n.ino).entry newDir
          nd.name).isSome := by
        rw [entry_insertEntry, if_pos ⟨rfl, rfl⟩]
        rfl
      refine .inl ⟨rfl, not_writeFails hone hsome (by decide), fun d name => ?_⟩
      simp only [Option.elim_some, brkfsDirRemove_eq _ _ _ _ hnew, hback, Option.elim_none]
      refine entry_renameUndo h (fun m => ?_) (fun d' name' => ?_)
        (hone.none_of_some hsome (by decide)) d name
      · exact (kindOf_addBlocks _ newDir e.grow m).trans (hk m)
      simp only [entry_eraseEntry, entry_insertEntry, entry_addBlocks, hs]
      split
      · rfl
      · rfl
    | none =>
      refine .inr ⟨rfl, hc, fun d name => ?_⟩
      simp only [Option.elim_none, entry_eraseEntry, entry_insertEntry, entry_addBlocks, hs,
        movedEntry]
      split
      · rfl
      · split
        · rfl
        · rfl

end

/-- The edits with one failure at most: undone, or all made. -/
theorem renameEdit_spec (hone : e.OneFailure) :
    Edited s e n oldDir oldName newDir nd (s.renameEdit e n oldDir oldName newDir nd) := by
  unfold renameEdit
  cases hnd : nd.inode with
  | none =>
    refine renameMove_spec h (fun _ => rfl) (fun d name => ?_) hone rfl
    have hback := h.entry_eq d name
    rw [hnd] at hback
    exact hback.symm
  | some t =>
    have hsome : (s.entry newDir nd.name).isSome := by rw [h.new, hnd]; rfl
    simp only [Option.isSome_some, if_true, brkfsDirRemove_eq _ _ _ _ hsome]
    cases hrem : e.fault .remove with
    | some x =>
      exact .inl ⟨rfl, not_writeFails hone (by rw [hrem]; rfl) (by decide), fun _ _ => rfl⟩
    | none =>
      exact renameMove_spec h (fun _ => rfl) (entry_eraseEntry s newDir nd.name) hone rfl

end

end Edit

/-! ## The writes of the inodes -/

section Write

/-- The directories are what they were, and the volumes as large. -/
def SameDirs (s s' : Sys) : Prop := s'.dir = s.dir ∧ s'.inodesCount = s.inodesCount

theorem SameDirs.write {s s' : Sys} {sb : Nat} {n : Node} {fault : Option Errno}
    (h : SameDirs s s') : SameDirs s (s'.brkfsInodeWrite sb n fault).2 := by
  unfold brkfsInodeWrite
  split
  · exact h
  · cases fault with
    | none => exact h
    | some e => exact h

variable (s : Sys)

theorem failed_brkfsInodeWrite {sb : Nat} {n : Node} (fault : Option Errno)
    (h : s.validIno sb n.ino) : (s.brkfsInodeWrite sb n fault).failed = fault.isSome := by
  unfold brkfsInodeWrite
  rw [if_neg (not_not_intro h)]
  cases fault with
  | none => rfl
  | some e => rfl

variable (e : Env) (sb : Nat) (newDir t : Node)

theorem sameDirs_renameReplaced : SameDirs s (s.renameReplaced e sb newDir t).2 := by
  unfold renameReplaced
  split
  · apply next_keeps
    · exact SameDirs.write ⟨rfl, rfl⟩
    · exact fun s1 h1 => h1
  · apply SameDirs.write
    split
    · exact ⟨rfl, rfl⟩
    · exact ⟨rfl, rfl⟩

theorem sameDirs_renameWrite (n oldDir newDir : Node) (nd : Dentry) :
    SameDirs s (s.renameWrite e n oldDir newDir nd).2 := by
  apply next_keeps
  · cases nd.inode with
    | none => exact ⟨rfl, rfl⟩
    | some t => exact sameDirs_renameReplaced s e oldDir.sb newDir t
  intro s1 h1
  apply next_keeps _ h1.write
  intro s2 h2
  apply next_keeps _ h2.write
  intro s3 h3
  split
  · exact h3
  · exact h3.write

theorem failed_renameReplaced (h : s.validIno sb t.ino) :
    (s.renameReplaced e sb newDir t).failed = (e.fault .writeTarget).isSome := by
  unfold renameReplaced
  split
  · rw [failed_next,
      failed_brkfsInodeWrite ((s.setNlink t 0).brkfsOrphanAdd sb t) (e.fault .writeTarget) h]
    simp [failed]
  apply failed_brkfsInodeWrite
  split
  · exact h
  · exact h

theorem failed_renameWrite_iff {s s1 : Sys} {n oldDir newDir : Node} {od nd : Dentry}
    (hcall : RenameCall s oldDir od newDir nd) (hn : od.inode = some n)
    (hc : s1.inodesCount = s.inodesCount) :
    (s1.renameWrite e n oldDir newDir nd).failed = true ↔ WriteFails e oldDir newDir nd := by
  -- the numbers of the inodes stay valid while the inodes are written
  have hlater : ∀ {s2 : Sys} {ino : Nat}, SameDirs s1 s2 →
      s.validIno oldDir.sb ino → s2.validIno oldDir.sb ino := by
    intro s2 ino h2 hino
    exact ⟨hino.1, by rw [h2.2, hc]; exact hino.2⟩
  have hwrites : ∀ s2 : Sys, SameDirs s1 s2 →
      (((s2.brkfsInodeWrite oldDir.sb n (e.fault .writeInode)).next fun s3 =>
        (s3.brkfsInodeWrite oldDir.sb oldDir (e.fault .writeDir)).next fun s4 =>
          if newDir = oldDir then (.ok (), s4)
          else s4.brkfsInodeWrite oldDir.sb newDir (e.fault .writeNewDir)).failed = true ↔
        (e.fault .writeInode).isSome ∨ (e.fault .writeDir).isSome ∨
          (newDir ≠ oldDir ∧ (e.fault .writeNewDir).isSome)) := by
    intro s2 h2
    rw [failed_next, failed_next,
      failed_brkfsInodeWrite _ _ (hlater h2 (hcall.inodes n (.inl hn)).2.1),
      failed_brkfsInodeWrite _ _ (hlater h2.write (hcall.dirs oldDir (.inl rfl)))]
    by_cases hd : newDir = oldDir
    · simp [hd, failed]
    · simp only [hd, if_false]
      rw [failed_brkfsInodeWrite _ _ (hlater h2.write.write (hcall.dirs newDir (.inr rfl)))]
      simp [hd]
  have hrefl : SameDirs s1 s1 := ⟨rfl, rfl⟩
  unfold renameWrite WriteFails
  rw [failed_next]
  cases hnd : nd.inode with
  | none =>
    simp only [Bool.or_eq_true, hwrites s1 hrefl]
    simp [failed]
  | some t =>
    simp only [Bool.or_eq_true, hwrites _ (sameDirs_renameReplaced s1 e oldDir.sb newDir t),
      failed_renameReplaced s1 e _ _ _ (hlater hrefl (hcall.inodes t (.inr hnd)).2.1)]
    simp

end Write

end Sys

/-! ## All or nothing -/

/-- The rename comes to its edits: the two names are what the dentries say, and what stands in the
way of a rename is not there. -/
def RenameReady (s : Sys) (oldDir : Node) (od : Dentry) (newDir : Node) (nd : Dentry)
    (noreplace : Bool) : Prop :=
  ∃ n, od.inode = some n ∧ s.isDir oldDir ∧ s.isDir newDir ∧
    ¬ (nd.inode.isSome ∧ noreplace) ∧ ¬ (s.isDir n ∧ oldDir ≠ newDir) ∧
    s.entry oldDir od.name = some n.ino ∧ s.entry newDir nd.name = nd.inode.map Node.ino ∧
    Sys.renameLocks n oldDir newDir nd ∧
    ∀ t, nd.inode = some t → s.isDir t → (s.dir t).keys = ∅

/-- `0`: the new name is the moved inode, the old name is gone and every other name of the two
directories is what it was. An error: so is every name. -/
def AllOrNothing (s : Sys) (oldDir : Node) (od : Dentry) (newDir : Node) (nd : Dentry)
    (result : Option Res) : Prop :=
  ∀ r, result = some r →
    if r.failed then ∀ d, d = oldDir ∨ d = newDir → ∀ name, r.2.entry d name = s.entry d name
    else
      ∃ n, od.inode = some n ∧ r.2.entry newDir nd.name = some n.ino ∧
        r.2.entry oldDir od.name = none ∧
        ∀ d, d = oldDir ∨ d = newDir → ∀ name, ¬ (d = newDir ∧ name = nd.name) →
          ¬ (d = oldDir ∧ name = od.name) → r.2.entry d name = s.entry d name

section AllOrNothing

variable {s : Sys} {e : Env} {oldDir newDir n : Node} {od nd : Dentry} {noreplace : Bool}

theorem Sys.Edits.of_call (hcall : RenameCall s oldDir od newDir nd)
    (hn : od.inode = some n) (hold : s.entry oldDir od.name = some n.ino)
    (hnew : s.entry newDir nd.name = nd.inode.map Node.ino)
    (hlocks : renameLocks n oldDir newDir nd) : Sys.Edits s n oldDir od.name newDir nd where
  old := hold
  new := hnew
  kind := (hcall.inodes n (.inl hn)).2.2
  targetKind t ht := (hcall.inodes t (.inr ht)).2.2
  two := by
    rintro ⟨hd, hname⟩
    rw [← hd, ← hname, hold] at hnew
    obtain ⟨t, hnd, hino⟩ := Option.map_eq_some_iff.1 hnew.symm
    have hsb : n.sb = t.sb :=
      (hcall.inodes n (.inl hn)).1.trans (hcall.inodes t (.inr hnd)).1.symm
    have hnt : n = t := by
      obtain ⟨a, b⟩ := n
      cases hino
      cases hsb
      rfl
    exact hlocks.2.2.1 (hnt ▸ hnd)

theorem brkfsDirLookup_eq_ok {d : Node} {name : Name} {fault : Option Errno} {ino : Nat} :
    s.brkfsDirLookup d name fault = .ok ino ↔
      s.isDir d ∧ fault = none ∧ s.entry d name = some ino := by
  unfold brkfsDirLookup
  cases hd : s.isDir d with
  | false => simp
  | true =>
    cases fault with
    | some x => simp
    | none =>
      cases he : s.entry d name with
      | none => simp
      | some i => simp

/-- The second look finds the new name as its dentry has it. -/
theorem renameTargetError_eq_none (hf : e.fault .lookupNew = none) :
    s.renameTargetError e newDir nd = none ↔
      s.isDir newDir ∧ s.entry newDir nd.name = nd.inode.map Node.ino := by
  unfold renameTargetError brkfsDirLookup
  rw [hf]
  cases hd : s.isDir newDir with
  | false => simp
  | true =>
    cases he : s.entry newDir nd.name with
    | none =>
      cases hnd : nd.inode with
      | none => simp
      | some t => simp
    | some tino =>
      simp only [Bool.not_true, Bool.false_eq_true, if_false, true_and]
      rw [eq_comm (a := some tino)]
      split
      · next h => simp [h]
      · next h => simp [h]

theorem renameBusy_eq_none : s.renameBusy e nd = none ↔
    ∀ t, nd.inode = some t → s.isDir t → e.fault .isEmpty = none ∧ (s.dir t).keys = ∅ := by
  unfold renameBusy
  cases hnd : nd.inode with
  | none => simp
  | some t =>
    cases hd : s.isDir t with
    | false => simp [hd]
    | true =>
      simp only [hd, Bool.not_true, Bool.false_eq_true, if_false, brkfsDirIsEmpty,
        Option.some.injEq, forall_eq', forall_true_left]
      cases hf : e.fault .isEmpty with
      | some x => simp
      | none =>
        by_cases hk : (s.dir t).keys = ∅
        · simp [hk]
        · simp [hk]

/-- A rename stops at a lock it holds, fails with nothing done, or is what its edits and its writes
make of it. -/
theorem brkfsRename_cases (s : Sys) (e : Env) (oldDir : Node) (od : Dentry) (newDir : Node)
    (nd : Dentry) (noreplace : Bool) :
    s.brkfsRename e oldDir od newDir nd noreplace = none ∨
      (∃ x, s.brkfsRename e oldDir od newDir nd noreplace = some (.error x, s)) ∨
      ∃ n, od.inode = some n ∧ (s.isDir oldDir ∧ s.isDir newDir) ∧
        ¬ (nd.inode.isSome ∧ noreplace) ∧ ¬ (s.isDir n ∧ oldDir ≠ newDir) ∧
        s.entry oldDir od.name = some n.ino ∧ s.renameTargetError e newDir nd = none ∧
        renameLocks n oldDir newDir nd ∧
        (∀ t, nd.inode = some t → s.isDir t → (s.dir t).keys = ∅) ∧
        s.brkfsRename e oldDir od newDir nd noreplace =
          some ((s.renameEdit e n oldDir od.name newDir nd).next fun s1 =>
            s1.renameWrite e n oldDir newDir nd) := by
  unfold brkfsRename
  split
  · exact .inr (.inl ⟨_, rfl⟩)
  next n hn =>
    split
    · exact .inr (.inl ⟨_, rfl⟩)
    rename_i hdirs
    rw [not_or, Bool.not_eq_true, Bool.not_eq_false', Bool.not_eq_true, Bool.not_eq_false'] at hdirs
    split
    · exact .inr (.inl ⟨_, rfl⟩)
    rename_i hrep
    split
    · exact .inr (.inl ⟨_, rfl⟩)
    rename_i hcross
    split
    · exact .inr (.inl ⟨_, rfl⟩)
    rename_i hlook
    split
    · exact .inr (.inl ⟨_, rfl⟩)
    rename_i hino
    rw [not_not] at hino
    split
    · exact .inr (.inl ⟨_, rfl⟩)
    rename_i htarget
    split
    · exact .inl rfl
    rename_i hlocks
    split
    · exact .inr (.inl ⟨_, rfl⟩)
    rename_i hbusy
    exact .inr (.inr ⟨n, hn, hdirs, hrep, hcross, hino ▸ (brkfsDirLookup_eq_ok.mp hlook).2.2,
      htarget, not_not.mp hlocks, fun t ht hd => (renameBusy_eq_none.mp hbusy t ht hd).2, rfl⟩)

section

variable (hcall : RenameCall s oldDir od newDir nd)

include hcall

/-- A rename that nothing stands in the way of gets to its edits. -/
theorem brkfsRename_of_ready (hone : e.OneFailure)
    (hempty : e.fault .isEmpty = none) (hready : RenameReady s oldDir od newDir nd noreplace) :
    ∃ n, od.inode = some n ∧ Sys.Edits s n oldDir od.name newDir nd ∧
      s.brkfsRename e oldDir od newDir nd noreplace =
        some ((s.renameEdit e n oldDir od.name newDir nd).next fun s1 =>
          s1.renameWrite e n oldDir newDir nd) := by
  have hl : e.fault .lookup = none := hone.none_of_not_injected rfl
  have hw : e.fault .lookupNew = none := hone.none_of_not_injected rfl
  obtain ⟨n, hn, hod, hnd, hrep, hcross, hold, hnew, hlocks, hnone⟩ := hready
  have hlook := brkfsDirLookup_eq_ok.mpr ⟨hod, hl, hold⟩
  have htarget := (renameTargetError_eq_none hw).mpr ⟨hnd, hnew⟩
  have hbusy := renameBusy_eq_none.mpr fun t ht hd => ⟨hempty, hnone t ht hd⟩
  refine ⟨n, hn, .of_call hcall hn hold hnew hlocks, ?_⟩
  unfold brkfsRename
  rw [hn]
  simp only [hlook, htarget, hbusy, hod, hnd, hrep, hcross, hlocks, Bool.not_true,
    Bool.false_eq_true, or_self, if_false, ne_eq, not_true_eq_false]

/-- What a rename that gets to its edits makes of the names: a failing write is reported with the
name moved. -/
theorem renameEdit_next {r : Res}
    (hone : e.OneFailure) (hn : od.inode = some n) (h : Sys.Edits s n oldDir od.name newDir nd)
    (hr : ((s.renameEdit e n oldDir od.name newDir nd).next fun s1 =>
      s1.renameWrite e n oldDir newDir nd) = r) :
    (r.failed = true ∧ ¬ Sys.WriteFails e oldDir newDir nd ∧
        ∀ d name, r.2.entry d name = s.entry d name) ∨
      ((r.failed = true ↔ Sys.WriteFails e oldDir newDir nd) ∧
        ∀ d name, r.2.entry d name = movedEntry s n oldDir od.name newDir nd.name d name) := by
  subst hr
  rcases renameEdit_spec h hone with ⟨hfail, hno, hsame⟩ | ⟨hok, hcount, hmoved⟩
  · obtain ⟨hstate, hfail⟩ :=
      next_of_failed (k := fun s1 => s1.renameWrite e n oldDir newDir nd) _ hfail
    exact .inl ⟨hfail, hno, fun d name => by rw [hstate]; exact hsame d name⟩
  · rw [next_of_not_failed _ hok]
    refine .inr ⟨failed_renameWrite_iff e hcall hn hcount, fun d name => ?_⟩
    rw [entry_congr (sameDirs_renameWrite _ e n oldDir newDir nd).1]
    exact hmoved d name

end

end AllOrNothing

/-! ### A volume with one file -/

/-- The root directory of volume `0` has one file, `a`. -/
def oneFile : Sys where
  dir d := if d = ⟨0, 1⟩ then Finmap.singleton [97] 2 else ∅
  table _ := none
  core n :=
    if n = ⟨0, 1⟩ then some ⟨.dir, 2, 0, [9]⟩
    else if n = ⟨0, 2⟩ then some ⟨.reg, 1, 0, []⟩ else none
  used _ := false
  busy _ _ := false
  orphan _ := 0
  inodesCount _ := 8
  orphaned := []

/-- `EIO` at one call. -/
def failAt (site : Site) : Env := ⟨fun x => if x = site then some .eio else none, [], []⟩

theorem oneFailure_failAt (site : Site) (h : site.injected = true) : (failAt site).OneFailure :=
  ⟨site, h, fun _ hne => if_neg hne⟩

theorem renameCall_oneFile : RenameCall oneFile ⟨0, 1⟩ ⟨[97], some ⟨0, 2⟩⟩ ⟨0, 1⟩ ⟨[98], none⟩ where
  volume := rfl
  dirs d hd := by
    rcases hd with rfl | rfl
    · decide
    · decide
  inodes n hn := by
    rcases hn with hn | hn
    · cases hn
      decide
    · cases hn

end BrkKernel.Names
