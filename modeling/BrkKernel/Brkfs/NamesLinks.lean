import BrkKernel.Brkfs.DirMap
import BrkKernel.Brkfs.NamesParts

/-!
# The link counts of a brkfs volume

Every operation on names, where it succeeds, is a transition of the tree of names
(`createNode_ends` to `brkfsRename_ends`), and the transitions keep the counts right. Two calls are
not: `brkfs_mkdir` makes a directory in one that has been removed, and `brkfs_mknod` makes a
directory with the count of a file. Along every run without those, the counts are exact and an inode
goes on the list of orphans exactly when its count becomes zero (`link_counts_exact`). The removal
of a name that is not there is an error only in a directory without blocks (`dirRemove_absent_iff`).
-/

set_option autoImplicit false

namespace BrkKernel.Names

open Lib Function Trace Sys Res Relation.ReflTransGen Option List

variable {noreplace : Bool} {nd od : Dentry} {kind : Kind} {name : Name}
  {d m n newDir oldDir : Node} {k : Node × Name} {G : Node → List Nat} {P : Node → Prop}
  {x : Option Node} {st : Stat} {s s1 : Sys} {t t1 t2 : Tree} {R : ℕ∞ → Nat → Prop}

/-! ## The operations are transitions of the tree -/

/-- The dentry is what the directory has for its name, and its inode is in memory. -/
structure Dentry.At (s : Sys) (d : Node) (dentry : Dentry) : Prop where
  isDir : s.isDir d
  entry : s.entry d dentry.name = dentry.inode.map Node.ino
  inode : ∀ n, dentry.inode = some n → n.sb = d.sb ∧ (s.core n).isSome

theorem Dentry.At.child {dentry : Dentry} (h : Dentry.At s d dentry) :
    s.tree.child (d, dentry.name) = dentry.inode := by
  show (s.entry d dentry.name).map (Node.mk d.sb) = dentry.inode
  rw [h.entry]
  cases hn : dentry.inode with
  | none => rfl
  | some n =>
    have hsb := (h.inode n hn).1
    simp [← hsb]

/-- The inode `d` gets the blocks `bs`, and no other inode any. -/
def grows (d : Node) (bs : List Nat) (m : Node) : List Nat := if m = d then bs else []

theorem grown_grow_start (d : Node) (bs : List Nat) (m : Node) :
    (start.grow d bs).grown m = grows d bs m := by
  by_cases hm : m = d
  · subst hm
    simp [grow, start, grows]
  · simp [grow, start, grows, hm]

/-- An operation that is over: it leaves the tree `t`, has put `x` on the list of orphans, has
written what it changed in memory, and has written only inodes with `P`. -/
def Ends (s s' : Sys) (t : Tree) (x : Option Node) (P : Node → Prop) (G : Node → List Nat) : Prop :=
  ∃ τ, Leaves s s' t τ ∧ τ.orphan = x ∧ τ.dirty ⊆ τ.written ∧ (∀ m ∈ τ.written, P m) ∧
    ∀ m, τ.grown m = G m

/-- The tree and the orphan of an operation that is over. -/
def Left (s s' : Sys) (t : Tree) (x : Option Node) : Prop :=
  ∃ τ, Leaves s s' t τ ∧ τ.orphan = x

theorem Ends.mono {s' : Sys} {Q : Node → Prop} (h : Ends s s' t x P G) (hPQ : ∀ m, P m → Q m) :
    Ends s s' t x Q G := by
  obtain ⟨τ, hl, hx, hd, hw, hG⟩ := h
  exact ⟨τ, hl, hx, hd, fun m hm => hPQ m (hw m hm), hG⟩

theorem Ends.left {s' : Sys} (h : Ends s s' t x P G) : Left s s' t x := by
  obtain ⟨τ, hl, hx, -⟩ := h
  exact ⟨τ, hl, hx⟩

section Operations

variable {s s' : Sys} {e : Env} {d : Node} {dentry : Dentry}

/-- A directory that is not allocated has no entries. -/
theorem entry_of_unused (hs : s.tree.Sound R) (hfree : s.used n = false) (name : Name) :
    s.entry n name = none := by
  cases he : s.entry n name with
  | none => rfl
  | some ino =>
    have hp := hs.parent (n, name) ⟨n.sb, ino⟩ (by simp [tree, child, he])
    exact absurd hp (Tree.not_isDir_of_stat_none (by simp [tree, stat, hfree]))

section

variable (hm : s.Mounted) (hat : dentry.At s d)

include hm hat

/-- The part of the operations that make an inode after `newInode`: `k` is run in the state with
the new inode. -/
theorem newInode_leaves {nlink : Nat} {k : Node → Sys → Res}
    (h : withInode (s.newInode e d dentry kind nlink) k = (.ok (), s'))
    (hk : ∀ n s1, k n s1 = (.ok (), s') → kind ≠ .unknown) :
    ∃ n s1, dentry.inode = none ∧ n.sb = d.sb ∧ s.used n = false ∧ n ≠ d ∧
      s1.dir = s.dir ∧ k n s1 = (.ok (), s') ∧
      Leaves s s1 { s.tree with stat := update s.tree.stat n (some ⟨kind, nlink⟩) }
        (start.change n) := by
  have hd := isSome_core_of_isDir hat.isDir
  unfold withInode at h
  split at h
  · cases h
  next n s1 hnew =>
    obtain ⟨hneg, hsb, hfree, hv, rfl⟩ := newInode_eq_ok hnew
    obtain ⟨i, -, hu, -⟩ := stat_of_isSome hm hd
    have hne : n ≠ d := by
      rintro rfl
      rw [hfree] at hu
      cases hu
    exact ⟨n, s.fresh n kind nlink, hneg, hsb, hfree, hne, rfl, h,
      Leaves.fresh nlink hm hd hsb hfree hv (hk n _ h)⟩

/-- `brkfs_create` and `brkfs_mknod`. -/
theorem createNode_ends (h : s.createNode e d dentry kind = (.ok (), s')) :
    ∃ n, dentry.inode = none ∧ n.sb = d.sb ∧ s.used n = false ∧
      Ends s s' (s.tree.create (d, dentry.name) n ⟨kind, 1⟩) none (fun m => m = d ∨ m = n)
        (grows d e.grow) := by
  obtain ⟨n, s1, hneg, hsb, hfree, hnd, -, hk, h1⟩ := newInode_leaves hm hat h fun n s1 hk => by
    obtain ⟨_, hadd, -⟩ := orDiscard_eq_ok hk
    exact (brkfsDirAdd_eq_ok hadd).1
  obtain ⟨_, hadd, hwrites⟩ := orDiscard_eq_ok hk
  obtain ⟨_, hdir, hinode⟩ := next_eq_ok hwrites
  have hd : (s.core d).isSome ∨ d ∈ [n] := .inl (isSome_core_of_isDir hat.isDir)
  have h2 := h1.addName (h1.stays d hd) hadd
  have h3 := h2.write (h2.stays d (.inr mem_cons_self)) rfl hdir
  have h4 := h3.write (h3.stays n (.inr (mem_cons_of_mem d mem_cons_self))) hsb hinode
  rw [← hsb] at h4
  refine ⟨n, hneg, hsb, hfree, _, h4, rfl, ?_, fun m hmem => ?_, fun m => ?_⟩
  · intro m hmem
    simpa [write, grow, change, start, or_comm] using hmem
  · simpa [write, grow, change, start, or_comm] using hmem
  exact grown_grow_start d e.grow m

/-- `brkfs_symlink`. -/
theorem brkfsSymlink_left (h : s.brkfsSymlink e d dentry = (.ok (), s')) :
    ∃ n, dentry.inode = none ∧ n.sb = d.sb ∧ s.used n = false ∧
      Left s s' (s.tree.create (d, dentry.name) n ⟨.lnk, 1⟩) none := by
  obtain ⟨n, s1, hneg, hsb, hfree, hnd, -, hk, h1⟩ :=
    newInode_leaves hm hat h fun _ _ _ => by decide
  obtain ⟨_, hfill, hk⟩ := orDiscard_eq_ok hk
  obtain ⟨_, hadd, hwrites⟩ := orDiscard_eq_ok hk
  obtain ⟨_, hinode, hdir⟩ := next_eq_ok hwrites
  have hd := isSome_core_of_isDir hat.isDir
  have h2 := h1.fileWrite (h1.stays n (.inr mem_cons_self)) hfill
  have h3 := h2.addName (h2.stays d (.inl hd)) hadd
  have h4 := h3.write (h3.stays n (.inr (mem_cons_of_mem d mem_cons_self))) hsb hinode
  have h5 := h4.write (h4.stays d (.inl hd)) rfl hdir
  rw [← hsb] at h5
  exact ⟨n, hneg, hsb, hfree, _, h5, rfl⟩

/-- `brkfs_mkdir`, in a directory whose count does not overflow. -/
theorem brkfsMkdir_left {c : Nat} (hs : s.tree.Sound R) (hc : s.tree.stat d = some ⟨.dir, c⟩)
    (hb : c + 1 < 4294967296) (h : s.brkfsMkdir e d dentry = (.ok (), s')) :
    ∃ n, dentry.inode = none ∧ n.sb = d.sb ∧ s.used n = false ∧
      Left s s' (s.tree.mkdir (d, dentry.name) n) none := by
  obtain ⟨n, s1, hneg, hsb, hfree, hnd, hdir1, hk, h1⟩ :=
    newInode_leaves hm hat h fun _ _ _ => by decide
  obtain ⟨_, hfill, hk⟩ := orDiscard_eq_ok hk
  obtain ⟨_, hinode, hk⟩ := orDiscard_eq_ok hk
  obtain ⟨_, hadd, hk⟩ := orDiscard_eq_ok hk
  have hd := isSome_core_of_isDir hat.isDir
  have hnone : ∀ name, s1.entry n name = none := fun name =>
    (entry_congr hdir1 n name).trans (entry_of_unused hs hfree name)
  have h2 := h1.newDirBody (h1.stays n (.inr mem_cons_self)) hnone hfill
  have h3 := h2.write (h2.stays n (.inr mem_cons_self)) hsb hinode
  have h4 := h3.addName (h3.stays d (.inl hd)) hadd
  have h5 := h4.inc (h4.stays d (.inl hd)) ((update_of_ne hnd.symm _ _).trans hc) hb
  split at hk
  · cases hk
  rename_i s5 hdir
  cases hk
  have h6 := h5.write (h5.stays d (.inl hd)) rfl hdir
  rw [← hsb] at h6
  exact ⟨n, hneg, hsb, hfree, _, h6, rfl⟩

/-- `brkfs_link`, of a file whose count does not overflow. -/
theorem brkfsLink_left {old : Node} (hold : (s.core old).isSome) (hsb : old.sb = d.sb)
    (hst : s.tree.stat old = some st) (hb : st.nlink + 1 < 4294967296)
    (h : s.brkfsLink e old d dentry = (.ok (), s')) :
    dentry.inode = none ∧ s.isDir old = false ∧
      Left s s' (s.tree.link (d, dentry.name) old) none := by
  have hd := isSome_core_of_isDir hat.isDir
  unfold brkfsLink at h
  split at h
  · cases h
  rename_i hfile
  split at h
  · cases h
  rename_i hneg
  split at h
  · cases h
  split at h
  · cases h
  obtain ⟨_, hadd, hk⟩ := next_eq_ok h
  have h1 := (Leaves.refl hm).addName hd hadd
  have h2 := h1.inc (h1.stays old (.inl hold)) hst hb
  split at hk
  · cases hk
  rename_i s2 hinode
  have h3 := h2.write (h2.stays old (.inl hold)) hsb hinode
  have h4 := h3.write (h3.stays d (.inl hd)) rfl hk
  rw [← hsb] at h4
  exact ⟨not_isSome_iff_eq_none.mp hneg, Bool.eq_false_iff.mpr hfile, _, h4, rfl⟩

end

theorem Sys.Mounted.tree_isDir (hm : s.Mounted) (hd : s.isDir d) : s.tree.isDir d :=
  (isDir_iff_tree hm (isSome_core_of_isDir hd)).mp hd

/-- A file is not a directory of the tree. -/
theorem kind_ne_dir (hm : s.Mounted) (hc : (s.core n).isSome) (hst : s.tree.stat n = some st)
    (hfile : s.isDir n = false) : st.kind ≠ .dir := by
  intro hk
  have htrue := (isDir_iff_tree hm hc).mpr ((Tree.isDir_iff hst).mpr hk)
  rw [hfile] at htrue
  cases htrue

/-- A file of which a name is taken away. -/
theorem file_facts (hm : s.Mounted) (hR : Comparison R) (hs : s.tree.Sound R)
    (hk : s.tree.child k = some n) (hn : (s.core n).isSome) (hfile : s.isDir n = false) :
    ∃ st, s.tree.stat n = some st ∧ st.kind ≠ .dir ∧ 0 < st.nlink ∧ st.nlink < 4294967296 := by
  obtain ⟨i, hi, -, hst⟩ := stat_of_isSome hm hn
  have hkind := kind_ne_dir hm hn hst hfile
  have hcount := hs.counted n _ hst
  exact ⟨i.stat, hst, hkind, hcount.nlink_pos hR hkind hk, hcount.bound⟩

/-- The directory of a directory has a count to take from. -/
theorem folder_facts (hs : s.tree.Sound R) (hk : s.tree.child k = some n) (hn : s.tree.isDir n) :
    ∃ st, s.tree.stat k.1 = some st ∧ 0 < st.nlink ∧ st.nlink < 4294967296 := by
  obtain ⟨c, hc⟩ := Tree.isDir_of_isDir (hs.parent k n hk)
  have hcount := hs.counted k.1 _ hc
  exact ⟨_, hc, hcount.nlink_pos_of_sub rfl ⟨n, hk, hn⟩, hcount.bound⟩

/-- A directory with no entry has no directory in it. -/
theorem subdirs_eq_empty (h : (s.dir n).keys = ∅) : s.tree.subdirs n = ∅ := by
  ext name
  simp only [Set.mem_empty_iff_false, iff_false]
  rintro ⟨v, hv, -⟩
  have hnone : s.entry n name = none := by
    unfold entry
    rw [Finmap.lookup_eq_none, ← Finmap.mem_keys, h]
    exact Finset.notMem_empty name
  have hv' : (s.entry n name).map (Node.mk n.sb) = some v := hv
  rw [hnone] at hv'
  cases hv'

/-- The count of a file goes down, and the file on the list of orphans if nothing is left. -/
theorem Leaves.release {τ : Trace} {sb : Nat} (h : Leaves s s1 t τ) (hsb : n.sb = sb)
    (hτ : τ.orphan = none) (hc : (s1.core n).isSome) (hst : t.stat n = some st) (h0 : 0 < st.nlink)
    (hb : st.nlink < 4294967296) :
    ∃ τ', Leaves s (if (s1.decNlink n).unlinked n then (s1.decNlink n).brkfsOrphanAdd sb n
        else s1.decNlink n) (t.setNlink n (· - 1)) τ' ∧
      τ'.orphan = (if st.nlink = 1 then some n else none) ∧ τ'.dirty ⊆ n :: τ.dirty ∧
      τ'.written ⊆ τ.written ∧ τ'.grown = τ.grown := by
  have hdec := h.dec hc hst h0 hb
  have hc' := hdec.stays n (.inr mem_cons_self)
  obtain ⟨i, hi, -, hn⟩ := hdec.exists_core hc' (Tree.stat_setNlink_self hst)
  have hiff : (s1.decNlink n).unlinked n = true ↔ st.nlink = 1 := by
    rw [unlinked, hi]
    simp only [any_some, decide_eq_true_eq, hn]
    omega
  by_cases h1 : st.nlink = 1
  · rw [if_pos (hiff.mpr h1), if_pos h1]
    refine ⟨_, hdec.orphan hsb hc' hτ, rfl, ?_, fun m hmem => ?_, rfl⟩
    · simp [putOrphan, change]
    · exact mem_of_mem_filter (mem_of_mem_filter hmem)
  · rw [if_neg fun hu => h1 (hiff.mp hu), if_neg h1]
    exact ⟨_, hdec, hτ, Subset.refl _, fun m => mem_of_mem_filter, rfl⟩

section

variable (hm : s.Mounted) (hs : s.tree.Sound R) (hat : dentry.At s d) (hx : dentry.inode = some n)

include hm hs hat hx

/-- `brkfs_unlink`. -/
theorem brkfsUnlink_ends (hR : Comparison R)
    (h : s.brkfsUnlink e d n dentry.name = (.ok (), s')) :
    ∃ st, s.tree.stat n = some st ∧ st.kind ≠ .dir ∧
      Ends s s' (s.tree.unlink (d, dentry.name) n) (if st.nlink = 1 then some n else none)
        (fun m => m = d ∨ m = n) (grows d []) := by
  have hd := isSome_core_of_isDir hat.isDir
  obtain ⟨hsb, hn⟩ := hat.inode n hx
  unfold brkfsUnlink at h
  split at h
  · cases h
  rename_i hfile
  obtain ⟨st, hst, hkind, h0, hb⟩ := file_facts hm hR hs (hat.child.trans hx) hn
    (Bool.eq_false_iff.mpr hfile)
  obtain ⟨_, hrem, hk⟩ := next_eq_ok h
  obtain ⟨_, hdir, hinode⟩ := next_eq_ok hk
  have h1 := (Leaves.refl hm).dropName hrem
  obtain ⟨τ, h2, ho, hdirty, hwritten, hgrown⟩ :=
    h1.release hsb rfl (h1.stays n (.inl hn)) hst h0 hb
  have h3 := h2.write (h2.stays d (.inl hd)) rfl hdir
  have h4 := h3.write (h3.stays n (.inl hn)) hsb hinode
  refine ⟨st, hst, hkind, _, h4, ho, fun m hmem => ?_, fun m hmem => ?_, fun m => ?_⟩
  · obtain rfl : m = n := mem_singleton.mp (hdirty hmem)
    exact mem_cons_self
  · simpa [write, subset_nil.mp hwritten, or_comm] using hmem
  · simp [write, hgrown, start, grows]

/-- `brkfs_rmdir`. -/
theorem brkfsRmdir_ends (h : s.brkfsRmdir e d n dentry.name = some (.ok (), s')) :
    s.tree.isDir n ∧ n ≠ d ∧ s.tree.subdirs n = ∅ ∧
      Ends s s' (s.tree.rmdir (d, dentry.name) n) (some n) (fun m => m = d ∨ m = n)
        (grows d []) := by
  have hd := isSome_core_of_isDir hat.isDir
  obtain ⟨hsb, hn⟩ := hat.inode n hx
  unfold brkfsRmdir at h
  split at h
  · cases h
  rename_i hdirn
  rw [Bool.not_eq_true, Bool.not_eq_false'] at hdirn
  split at h
  · cases h
  rename_i hne
  split at h
  · cases h
  · cases h
  rename_i hempty
  have hkeys : (s.dir n).keys = ∅ := by
    unfold brkfsDirIsEmpty at hempty
    split at hempty
    · cases hempty
    · split at hempty
      · cases hempty
      · simpa using hempty
  have hisDir := hm.tree_isDir hdirn
  obtain ⟨st, hst, h0, hb⟩ := folder_facts hs (hat.child.trans hx) hisDir
  obtain ⟨_, hrem, hk⟩ := next_eq_ok (some.inj h)
  obtain ⟨_, hdir, hinode⟩ := next_eq_ok hk
  have h1 := (Leaves.refl hm).dropName hrem
  have h2 := h1.dec (h1.stays d (.inl hd)) hst h0 hb
  have h3 := h2.write (h2.stays d (.inl hd)) rfl hdir
  have h4 := h3.zero (h3.stays n (.inl hn))
  have h5 := h4.orphan hsb (h4.stays n (.inl hn)) rfl
  have h6 := h5.write (h5.stays n (.inl hn)) hsb hinode
  have hdn : d ≠ n := fun he => hne he.symm
  refine ⟨hisDir, hne, subdirs_eq_empty hkeys, _, h6, rfl, fun m hmem => ?_, fun m hmem => ?_,
    fun m => ?_⟩
  · simpa [write, putOrphan, change, start, hdn] using hmem
  · simpa [write, putOrphan, change, start, hdn, or_comm] using hmem
  · simp [write, putOrphan, change, start, grows]

end

/-- The edits of a rename that succeeds. -/
theorem Leaves.renameEdit {oldName : Name} (hm : s.Mounted) (hw : (s.core newDir).isSome)
    (h : s.renameEdit e n oldDir oldName newDir nd = (.ok (), s1)) :
    Leaves s s1
      { s.tree with
        child := update (update
          (if nd.inode.isSome then update s.tree.child (newDir, nd.name) none
            else s.tree.child) (newDir, nd.name) (some ⟨newDir.sb, n.ino⟩))
          (oldDir, oldName) none } (start.grow newDir e.grow) := by
  have hmove : ∀ {s2 : Sys} {t : Tree}, Leaves s s2 t .start →
      s2.renameMove e n oldDir oldName newDir nd = (.ok (), s1) →
      Leaves s s1 { t with
        child := update (update t.child (newDir, nd.name)
          (some ⟨newDir.sb, n.ino⟩)) (oldDir, oldName) none }
        (start.grow newDir e.grow) := by
    intro s2 t h2 hr
    unfold Sys.renameMove at hr
    split at hr
    · cases hr
    rename_i s3 hadd
    have h3 := h2.addName (h2.stays newDir (.inl hw)) hadd
    split at hr
    · cases hr
    · next s4 hrem =>
      cases hr
      exact h3.dropName hrem
  unfold Sys.renameEdit at h
  cases hnd : nd.inode with
  | none =>
    simp only [hnd, isSome_none, Bool.false_eq_true, if_false, Res.next] at h ⊢
    exact hmove (Leaves.refl hm) h
  | some t =>
    simp only [hnd, isSome_some, if_true] at h ⊢
    obtain ⟨_, hrem, hk⟩ := next_eq_ok h
    exact hmove ((Leaves.refl hm).dropName hrem) hk

/-- The three inodes that every rename writes. -/
theorem Leaves.renameTail {τ : Trace} {y : Option Node} (h : Leaves s s1 t τ)
    (hn : (s.core n).isSome) (ho : (s.core oldDir).isSome) (hw : (s.core newDir).isSome)
    (hsb : n.sb = oldDir.sb) (hsb' : newDir.sb = oldDir.sb)
    (hdirty : ∀ m ∈ τ.dirty, m ∈ τ.written ∨ m = newDir) (hy : ∀ m ∈ τ.written, y = some m)
    (hG : ∀ m, τ.grown m = G m)
    (hk : ((s1.brkfsInodeWrite oldDir.sb n (e.fault .writeInode)).next fun s2 =>
      (s2.brkfsInodeWrite oldDir.sb oldDir (e.fault .writeDir)).next fun s3 =>
        if newDir = oldDir then (.ok (), s3)
        else s3.brkfsInodeWrite oldDir.sb newDir (e.fault .writeNewDir)) = (.ok (), s')) :
    Ends s s' t τ.orphan (fun m => m = n ∨ m = oldDir ∨ m = newDir ∨ y = some m) G := by
  obtain ⟨_, hinode, hk⟩ := next_eq_ok hk
  obtain ⟨_, hdir, hk⟩ := next_eq_ok hk
  have h1 := h.write (h.stays n (.inl hn)) hsb hinode
  have h2 := h1.write (h1.stays oldDir (.inl ho)) rfl hdir
  have hwritten : ∀ m ∈ ((τ.write n).write oldDir).written,
      m = n ∨ m = oldDir ∨ m = newDir ∨ y = some m := by
    intro m hmem
    simp only [Trace.write, mem_cons] at hmem
    tauto
  split at hk
  · next hsame =>
    cases hk
    refine ⟨_, h2, rfl, fun m hmem => ?_, hwritten, hG⟩
    rcases hdirty m hmem with hmem | rfl
    · exact mem_cons_of_mem _ (mem_cons_of_mem _ hmem)
    · exact hsame ▸ mem_cons_self
  refine ⟨_, h2.write (h2.stays newDir (.inl hw)) hsb' hk, rfl, fun m hmem => ?_,
    fun m hmem => ?_, hG⟩
  · rcases hdirty m hmem with hmem | rfl
    · exact mem_cons_of_mem _ (mem_cons_of_mem _ (mem_cons_of_mem _ hmem))
    · exact mem_cons_self
  · rcases mem_cons.mp hmem with rfl | hmem
    · exact .inr (.inr (.inl rfl))
    · exact hwritten m hmem

/-- The tree after a rename: the inode that is replaced loses its name as in `unlink` or `rmdir`,
and then the name moves. -/
def Tree.rename (t : Tree) (old new : Node × Name) (n : Node) (target : Option Node)
    (dir : Bool) : Tree :=
  (target.elim t fun x => if dir then t.rmdir new x else t.unlink new x).move old new n

/-- The inode that a rename orphans. -/
def renameOrphan (target : Option Node) (dir : Bool) (st : Stat) : Option Node :=
  target.bind fun x => if dir ∨ st.nlink = 1 then some x else none

theorem Tree.setNlink_comm (t : Tree) {a b : Node} (f g : Nat → Nat) (h : a ≠ b) :
    (t.setNlink a f).setNlink b g = (t.setNlink b g).setNlink a f := by
  unfold Tree.setNlink
  rw [update_comm h]
  simp [h, h.symm]

/-- The inode that a rename replaces is written, and a directory that it was in counts less. -/
theorem Leaves.renameReplaced {τ : Trace} {y : Node} {sb : Nat} (h : Leaves s s1 t τ)
    (hR : Comparison R) (hm : s.Mounted) (hs : s.tree.Sound R) (hnd : nd.At s newDir)
    (hy : nd.inode = some y) (hne : newDir ≠ y) (hst : s.tree.stat y = some st)
    (hsb : newDir.sb = sb) (ht : t.stat = s.tree.stat) (hτ : τ.orphan = none)
    (hrep : s1.renameReplaced e sb newDir y = (.ok (), s')) :
    ∃ τ', Leaves s s' (if s.isDir y then (t.setNlink newDir (· - 1)).setNlink y fun _ => 0
        else t.setNlink y (· - 1)) τ' ∧
      τ'.orphan = (if s.isDir y ∨ st.nlink = 1 then some y else none) ∧
      τ'.dirty ⊆ newDir :: y :: τ.dirty ∧ τ'.written ⊆ y :: τ.written ∧ y ∈ τ'.written ∧
      τ'.grown = τ.grown := by
  obtain ⟨hysb, hyc⟩ := hnd.inode y hy
  have hchild := hnd.child.trans hy
  have hw := isSome_core_of_isDir hnd.isDir
  unfold Sys.renameReplaced at hrep
  rw [h.isDir hm hyc ht] at hrep
  cases hdy : s.isDir y with
  | true =>
    simp only [hdy, if_true, true_or] at hrep ⊢
    obtain ⟨c, hc, h0, hb⟩ := folder_facts hs hchild (hm.tree_isDir hdy)
    obtain ⟨_, hwritten, hdec⟩ := next_eq_ok hrep
    have h2 := h.zero (h.stays y (.inl hyc))
    have h3 := h2.orphan (hysb.trans hsb) (h2.stays y (.inl hyc)) hτ
    have h4 := h3.write (h3.stays y (.inl hyc)) (hysb.trans hsb) hwritten
    have hc' : (t.setNlink y fun _ => 0).stat newDir = some c := by
      rw [Tree.stat_setNlink_of_ne hne, ht]
      exact hc
    have h5 := h4.dec (h4.stays newDir (.inl hw)) hc' h0 hb
    rw [Tree.setNlink_comm _ _ _ hne.symm] at h5
    cases hdec
    refine ⟨_, h5, rfl, ?_, fun m hmem => ?_, ?_, rfl⟩
    · simp [Trace.write, change, putOrphan]
    · simp only [Trace.write, change, putOrphan, mem_filter, mem_cons] at hmem
      exact mem_cons.mpr (hmem.1.imp_right fun hmem => hmem.1.1)
    · simp [Trace.write, change, hne.symm]
  | false =>
    simp only [hdy, Bool.false_eq_true, if_false, false_or] at hrep ⊢
    obtain ⟨st', hst', -, h0, hb⟩ := file_facts hm hR hs hchild hyc hdy
    obtain rfl := some.inj (hst.symm.trans hst')
    obtain ⟨τ', h2, ho, hdirty, hwritten, hgrown⟩ :=
      h.release (hysb.trans hsb) hτ (h.stays y (.inl hyc)) (ht ▸ hst) h0 hb
    have h3 := h2.write (h2.stays y (.inl hyc)) (hysb.trans hsb) hrep
    exact ⟨_, h3, ho, fun m hmem => mem_cons_of_mem _ (hdirty hmem), cons_subset_cons y hwritten,
      mem_cons_self, hgrown⟩

/-- `brkfs_rename`. -/
theorem brkfsRename_ends (hR : Comparison R) (hm : s.Mounted) (hs : s.tree.Sound R)
    (hod : od.At s oldDir) (hnd : nd.At s newDir) (hvol : newDir.sb = oldDir.sb)
    (h : s.brkfsRename e oldDir od newDir nd noreplace = some (.ok (), s')) :
    ∃ n st, od.inode = some n ∧ ¬ (s.isDir n ∧ oldDir ≠ newDir) ∧ renameLocks n oldDir newDir nd ∧
      (∀ x, nd.inode = some x → s.isDir x → (s.dir x).keys = ∅) ∧
      (∀ x, nd.inode = some x → s.tree.stat x = some st) ∧
      Ends s s' (s.tree.rename (oldDir, od.name) (newDir, nd.name) n nd.inode
        (nd.inode.any s.isDir)) (renameOrphan nd.inode (nd.inode.any s.isDir) st)
        (fun m => m = n ∨ m = oldDir ∨ m = newDir ∨ nd.inode = some m) (grows newDir e.grow) := by
  rcases brkfsRename_cases s e oldDir od newDir nd noreplace with hstop | ⟨x, herr⟩ |
    ⟨n, hn, -, -, hcross, -, -, hlocks, hempty, hrun⟩
  · rw [hstop] at h
    cases h
  · rw [herr] at h
    cases h
  rw [hrun] at h
  obtain ⟨s1, hedit, hwrite⟩ := next_eq_ok (some.inj h)
  have ho := isSome_core_of_isDir hod.isDir
  have hw := isSome_core_of_isDir hnd.isDir
  obtain ⟨hnsb, hnc⟩ := hod.inode n hn
  have h1 := Leaves.renameEdit hm hw hedit
  rw [show (⟨newDir.sb, n.ino⟩ : Node) = n by rw [hvol, ← hnsb]] at h1
  have hgrown := grown_grow_start newDir e.grow
  unfold renameWrite at hwrite
  cases hx : nd.inode with
  | none =>
    simp only [hx, isSome_none, Bool.false_eq_true, if_false, Res.next] at h1 hwrite
    refine ⟨n, ⟨.reg, 0⟩, hn, hcross, hlocks, by simp, by simp, ?_⟩
    exact h1.renameTail hnc ho hw hnsb hvol (fun m hmem => .inr (mem_singleton.mp hmem))
      (fun m hmem => nomatch hmem) hgrown hwrite
  | some y =>
    simp only [hx, isSome_some, if_true] at h1 hwrite
    obtain ⟨i, hi, hu, hst⟩ := stat_of_isSome hm (hnd.inode y hx).2
    obtain ⟨s2, hreplaced, htail⟩ := next_eq_ok hwrite
    have hne : newDir ≠ y := fun he => hlocks.2.2.2.2 (by rw [hx, he])
    refine ⟨n, i.stat, hn, hcross, hlocks, by simpa [hx] using hempty, by simpa using hst, ?_⟩
    obtain ⟨τ, h2, horphan, hdirty, hwritten, hyw, hg⟩ :=
      h1.renameReplaced hR hm hs hnd hx hne hst hvol rfl rfl hreplaced
    have hends := h2.renameTail (y := some y) hnc ho hw hnsb hvol (fun m hmem => ?_)
      (fun m hmem => congrArg some (mem_singleton.mp (hwritten hmem)).symm)
      (fun m => (congrFun hg m).trans (hgrown m)) htail
    · rw [horphan] at hends
      convert hends using 1
      · cases hdy : s.isDir y with
        | true => simp [Tree.rename, hdy, Tree.rmdir, Tree.move, Tree.setNlink]
        | false => simp [Tree.rename, hdy, Tree.unlink, Tree.move, Tree.setNlink]
      · rfl
    · rcases mem_cons.mp (hdirty hmem) with rfl | hmem
      · exact .inr rfl
      · rcases mem_cons.mp hmem with rfl | hmem
        · exact .inl hyw
        · exact .inr (mem_singleton.mp hmem)

/-- `brkfs_lookup` loads an inode as its slot has it. -/
theorem brkfsLookup_ends (hm : s.Mounted) (hs : s.tree.Sound R) (hd : s.isDir d)
    (h : s.brkfsLookup e d name = (.ok (), s')) :
    Ends s s' s.tree none (fun m => s.core m = none) (grows d []) := by
  have hsome := isSome_core_of_isDir hd
  have hrefl : Ends s s s.tree none (fun m => s.core m = none) (grows d []) :=
    ⟨_, Leaves.refl hm, rfl, List.Subset.refl _, (fun _ hmem => nomatch hmem), fun m => by
      simp [start, grows]⟩
  unfold brkfsLookup at h
  split at h
  · split at h
    · cases h
      exact hrefl
    · cases h
  next ino hlook =>
  split at h
  · cases h
  split at h
  · cases h
    exact hrefl
  rename_i hnone
  obtain ⟨i, hv, ht, rfl⟩ := brkfsInitLoadedInode_eq_ok h
  rw [not_isSome_iff_eq_none] at hnone
  have hentry := (brkfsDirLookup_eq_ok.mp hlook).2.2
  have htarget := (hs.target (d, name) ⟨d.sb, ino⟩ (by
    simp [tree, child, hentry])).1
  have hu : s.used ⟨d.sb, ino⟩ := by
    by_contra hc
    simp [tree, stat, hc] at htarget
  refine ⟨_, Leaves.load hm hsome rfl hu hv hnone ht, rfl, fun m hmem => ?_,
    fun m hmem => ?_, fun m => ?_⟩
  · simpa [write, change, start] using hmem
  · have hmn : m = ⟨d.sb, ino⟩ := by
      simpa [write, change, start] using hmem
    exact hmn ▸ hnone
  · simp [write, change, start, grows]

end Operations

/-! ## Runs -/

/-- A call of an operation on names. -/
inductive Op where
  | create (d : Node) (dentry : Dentry)
  | link (oldDir : Node) (old : Dentry) (d : Node) (dentry : Dentry)
  | unlink (d : Node) (dentry : Dentry)
  | symlink (d : Node) (dentry : Dentry)
  | mkdir (d : Node) (dentry : Dentry)
  | rmdir (d : Node) (dentry : Dentry)
  | rename (oldDir : Node) (od : Dentry) (newDir : Node) (nd : Dentry) (noreplace : Bool)
  | mknod (d : Node) (dentry : Dentry) (kind : Kind)
  | lookup (d : Node) (name : Name)

namespace Op

/-- The call, where the inodes that it uses are there. -/
def exec (e : Env) (s : Sys) : Op → Option Res
  | .create d x => some (s.brkfsCreate e d x)
  | .link _ old d x => old.inode.map fun n => s.brkfsLink e n d x
  | .unlink d x => x.inode.map fun n => s.brkfsUnlink e d n x.name
  | .symlink d x => some (s.brkfsSymlink e d x)
  | .mkdir d x => some (s.brkfsMkdir e d x)
  | .rmdir d x => x.inode.bind fun n => s.brkfsRmdir e d n x.name
  | .rename oldDir od newDir nd noreplace => s.brkfsRename e oldDir od newDir nd noreplace
  | .mknod d x kind => some (s.brkfsMknod e d x kind)
  | .lookup d name => some (s.brkfsLookup e d name)

/-- The dentries are what the directories have for their names, in one volume. -/
def Called (s : Sys) : Op → Prop
  | .create d x | .unlink d x | .symlink d x | .mkdir d x | .rmdir d x | .mknod d x _ => x.At s d
  | .link oldDir old d x => old.At s oldDir ∧ x.At s d ∧ oldDir.sb = d.sb
  | .rename oldDir od newDir nd _ => od.At s oldDir ∧ nd.At s newDir ∧ newDir.sb = oldDir.sb
  | .lookup d _ => s.isDir d

/-- The link count of an inode in memory. -/
def nlinkOf (s : Sys) (n : Node) : Nat := ((s.core n).map Inode.nlink).getD 0

/-- No directory is made in one that has been removed or with `mknod`, and no count overflows. -/
def Plain (s : Sys) : Op → Prop
  | .mkdir d _ => nlinkOf s d ≠ 0 ∧ nlinkOf s d + 1 < 4294967296
  | .mknod _ _ kind => kind ≠ .dir
  | .link _ old _ _ => ∀ n, old.inode = some n → nlinkOf s n + 1 < 4294967296
  | _ => True

end Op

/-- A successful call. -/
def Calls (s s' : Sys) : Prop :=
  ∃ (op : Op) (e : Env), op.Called s ∧ op.exec e s = some (.ok (), s')

/-- A successful call that is none of the exceptions. -/
def PlainCalls (s s' : Sys) : Prop :=
  ∃ (op : Op) (e : Env), op.Called s ∧ op.Plain s ∧ op.exec e s = some (.ok (), s')

/-- A volume whose names and counts are in order. -/
structure Sys.Exact (s : Sys) : Prop where
  mounted : s.Mounted
  sound : s.tree.Sound fun a b => a = b

/-- The inode is the root of its volume or has a name. A directory that does not has been removed
or replaced. -/
def Sys.Linked (s : Sys) (n : Node) : Prop := n.ino = rootIno ∨ (s.tree.links n).Nonempty

/-- A file counts its names; a directory counts two and the directories in it, and nothing once it
is removed or replaced. -/
structure LinkCounts (s : Sys) : Prop where
  file : ∀ n st, s.stat n = some st → st.kind ≠ .dir → (s.tree.links n).encard = st.nlink
  folder : ∀ n st, s.stat n = some st → st.kind = .dir → s.Linked n →
    (st.nlink : ℕ∞) = 2 + (s.tree.subdirs n).encard
  gone : ∀ n st, s.stat n = some st → st.kind = .dir → ¬ s.Linked n → st.nlink = 0

/-- The count of the inode becomes zero. -/
def Tree.Zeroed (t t' : Tree) (n : Node) : Prop :=
  (∃ st, t.stat n = some st ∧ st.nlink ≠ 0) ∧ ∃ st, t'.stat n = some st ∧ st.nlink = 0

/-- The inode is allocated and has no name. -/
def Tree.Dead (t : Tree) (n : Node) : Prop := ∃ st, t.stat n = some st ∧ st.nlink = 0

/-- A count of zero stays one, and no new inode has it. -/
structure Tree.Falls (t t' : Tree) : Prop where
  dead : ∀ n, t.Dead n → t'.Dead n
  old : ∀ n, t'.Dead n → (t.stat n).isSome

/-- Those inodes are put on the list of orphans, each once, whose count becomes zero. -/
def OrphansZeroed (s s' : Sys) : Prop :=
  ∃ orphans, s'.orphaned = orphans ++ s.orphaned ∧ orphans.Nodup ∧
    ∀ n, n ∈ orphans ↔ s.tree.Zeroed s'.tree n

section Runs

theorem Sys.Exact.linkCounts (h : s.Exact) : LinkCounts s where
  file n st hst hk := (h.sound.counted n st hst).file hk
  folder n st hst hk hl := (h.sound.counted n st hst).folder hk hl
  gone n st hst hk hl := ((h.sound.counted n st hst).gone hk hl).1

namespace Tree

variable {R : ℕ∞ → Nat → Prop} {t t' : Tree} {k old new : Node × Name} {n m : Node} {st : Stat}

theorem not_zeroed_of_eq (h : t'.stat m = t.stat m) : ¬ t.Zeroed t' m := by
  rintro ⟨⟨st, hst, hne⟩, st', hst', h0⟩
  rw [h, hst] at hst'
  obtain rfl := some.inj hst'
  exact hne h0

theorem not_zeroed_create (hn : t.stat n = none) : ¬ t.Zeroed (t.create k n st) m := by
  by_cases hm : m = n
  · subst hm
    rintro ⟨⟨st', hst', -⟩, -⟩
    rw [hn] at hst'
    cases hst'
  · exact not_zeroed_of_eq (update_of_ne hm _ _)

theorem zeroed_setNlink (f : Nat → Nat) (h : t.stat n = some st) :
    t.Zeroed (t.setNlink n f) m ↔ m = n ∧ st.nlink ≠ 0 ∧ f st.nlink = 0 := by
  by_cases hm : m = n
  · subst hm
    constructor
    · rintro ⟨⟨st', hst', hne⟩, st'', hst'', h0⟩
      rw [h] at hst'
      obtain rfl := some.inj hst'
      rw [stat_setNlink_self h] at hst''
      obtain rfl := some.inj hst''
      exact ⟨rfl, hne, h0⟩
    · rintro ⟨-, hne, h0⟩
      exact ⟨⟨st, h, hne⟩, _, stat_setNlink_self h, h0⟩
  · constructor
    · intro hz
      exact absurd hz (not_zeroed_of_eq (stat_setNlink_of_ne hm))
    · rintro ⟨rfl, -⟩
      exact absurd rfl hm

theorem zeroed_congr (h : t1.stat = t2.stat) : t.Zeroed t1 m ↔ t.Zeroed t2 m := by
  unfold Zeroed
  rw [h]

theorem zeroed_move : t.Zeroed (t'.move old new n) m ↔ t.Zeroed t' m :=
  Iff.rfl

theorem zeroed_unlink (h : t.stat n = some st) :
    t.Zeroed (t.unlink k n) m ↔ st.nlink = 1 ∧ n = m := by
  rw [zeroed_congr (stat_unlink k), zeroed_setNlink _ h]
  constructor
  · rintro ⟨hm, hne, h0⟩
    exact ⟨by omega, hm.symm⟩
  · rintro ⟨h1, hm⟩
    exact ⟨hm.symm, by omega, by omega⟩

theorem zeroed_rmdir (hs : t.Sound R) (hk : t.child k = some n) (hn : t.isDir n)
    (hnd : n ≠ k.1) : t.Zeroed (t.rmdir k n) m ↔ m = n := by
  obtain ⟨c, hc⟩ := isDir_of_isDir hn
  obtain ⟨cd, hcd⟩ := isDir_of_isDir (hs.parent k n hk)
  rw [zeroed_congr (stat_rmdir k)]
  constructor
  · intro hz
    by_contra hm
    by_cases hm' : m = k.1
    · subst hm'
      obtain ⟨-, st, hst, h0⟩ := hz
      rw [stat_setNlink_of_ne hm, stat_setNlink_self hcd] at hst
      obtain rfl := some.inj hst
      have hcount := hs.counted k.1 _ hcd
      have h2 := hcount.two_le_nlink rfl (hcount.linked_of_sub rfl ⟨n, hk, hn⟩)
      have h0' : cd - 1 = 0 := h0
      have h2' : 2 ≤ cd := h2
      omega
    · exact not_zeroed_of_eq ((stat_setNlink_of_ne hm).trans (stat_setNlink_of_ne hm')) hz
  · rintro rfl
    have h2 := (hs.counted m _ hc).two_le_nlink rfl (.inr ⟨k, hk⟩)
    refine ⟨⟨_, hc, fun h0 => by rw [h0] at h2; omega⟩, ⟨.dir, 0⟩, ?_, rfl⟩
    exact stat_setNlink_self ((stat_setNlink_of_ne hnd).trans hc)

theorem falls_of_stat_eq (h : t'.stat = t.stat) : t.Falls t' := by
  refine ⟨fun n hn => ?_, fun n hn => ?_⟩
  · unfold Dead
    rw [h]
    exact hn
  · obtain ⟨st, hst, -⟩ := hn
    rw [← h, hst]
    rfl

theorem Falls.trans (h1 : t.Falls t1) (h2 : t1.Falls t2)
    (hsome : ∀ n, (t1.stat n).isSome = (t.stat n).isSome) : t.Falls t2 :=
  ⟨fun n hn => h2.dead n (h1.dead n hn), fun n hn => (hsome n) ▸ h2.old n hn⟩

theorem falls_create (hn : t.stat n = none) (h1 : st.nlink ≠ 0) : t.Falls (t.create k n st) := by
  refine ⟨fun m hm => ?_, fun m hm => ?_⟩
  · obtain ⟨st', hst', h0⟩ := hm
    have hmn : m ≠ n := by
      rintro rfl
      rw [hn] at hst'
      cases hst'
    exact ⟨st', (update_of_ne hmn _ _).trans hst', h0⟩
  · obtain ⟨st', hst', h0⟩ := hm
    by_cases hmn : m = n
    · subst hmn
      have hself : (t.create k m st).stat m = some st := update_self _ _ _
      obtain rfl := some.inj (hself.symm.trans hst')
      exact absurd h0 h1
    · rw [← update_of_ne hmn (some st) t.stat]
      exact isSome_iff_exists.mpr ⟨st', hst'⟩

theorem falls_setNlink {f : Nat → Nat} (hf : f 0 = 0) : t.Falls (t.setNlink n f) := by
  refine ⟨fun m hm => ?_, fun m hm => ?_⟩
  · obtain ⟨st', hst', h0⟩ := hm
    by_cases hmn : m = n
    · subst hmn
      exact ⟨_, stat_setNlink_self hst', (congrArg f h0).trans hf⟩
    · exact ⟨st', (stat_setNlink_of_ne hmn).trans hst', h0⟩
  · obtain ⟨st', hst', -⟩ := hm
    rw [← isSome_stat_setNlink (n := n) m f, hst']
    rfl

theorem falls_unlink : t.Falls (t.unlink k n) := by
  have h := falls_setNlink (t := t) (n := n) (f := (· - 1)) rfl
  exact ⟨h.dead, h.old⟩

theorem falls_rmdir : t.Falls (t.rmdir k n) := by
  have h1 := falls_setNlink (t := t) (n := k.1) (f := (· - 1)) rfl
  have h2 := falls_setNlink (t := t.setNlink k.1 (· - 1)) (n := n) (f := fun _ => 0) rfl
  have h := h1.trans h2 fun m => isSome_stat_setNlink m _
  exact ⟨h.dead, h.old⟩

theorem Falls.move (h : t.Falls t') : t.Falls (t'.move old new n) :=
  ⟨h.dead, h.old⟩

end Tree

/-- A call leaves a tree that is in order, and orphans the inode whose count becomes zero. -/
def Stepped (R : ℕ∞ → Nat → Prop) (s s' : Sys) : Prop :=
  ∃ t o, Left s s' t o ∧ t.Sound R ∧ ∀ n, o = some n ↔ s.tree.Zeroed t n

/-- As `Stepped`, with what the call writes and which blocks it takes. -/
def Ended (R : ℕ∞ → Nat → Prop) (s s' : Sys) (P : Node → Prop) (G : Node → List Nat) : Prop :=
  ∃ t o, Ends s s' t o P G ∧ t.Sound R ∧ (∀ n, o = some n ↔ s.tree.Zeroed t n) ∧
    s.tree.Falls t ∧ ∀ n, o = some n → n.ino ≠ rootIno

variable {R : ℕ∞ → Nat → Prop} {s s' : Sys} {e : Env} {d : Node} {x : Dentry}

theorem Ended.stepped (h : Ended R s s' P G) : Stepped R s s' := by
  obtain ⟨t, o, hl, hs, hz, -⟩ := h
  exact ⟨t, o, hl.left, hs, hz⟩

/-- A call that leaves the counts and the list alone. -/
theorem Ended.of_none (h : Ends s s' t none P G) (hs : t.Sound R) (hz : ∀ n, ¬ s.tree.Zeroed t n)
    (hf : s.tree.Falls t) : Ended R s s' P G :=
  ⟨t, none, h, hs, fun n => ⟨(fun hn => nomatch hn), fun hn => absurd hn (hz n)⟩, hf,
    (fun _ hn => nomatch hn)⟩

/-- A call that orphans nothing. -/
theorem Stepped.of_none (h : Left s s' t none) (hs : t.Sound R) (hz : ∀ n, ¬ s.tree.Zeroed t n) :
    Stepped R s s' :=
  ⟨t, none, h, hs, fun n => ⟨(fun hn => nomatch hn), fun hn => absurd hn (hz n)⟩⟩

section

variable (hm : s.Mounted)

include hm

/-- A new inode is not the root, nor in the tree. -/
theorem Sys.Mounted.new (hd : s.isDir d) (hsb : n.sb = d.sb) (hfree : s.used n = false) :
    s.tree.stat n = none ∧ n.ino ≠ rootIno := by
  refine ⟨by simp [tree, stat, hfree], fun hroot => ?_⟩
  have hused := hm.root d (isSome_core_of_isDir hd)
  rw [← hsb, ← hroot, hfree] at hused
  cases hused

theorem nlinkOf_eq (hc : (s.core n).isSome) (hst : s.tree.stat n = some st) :
    Op.nlinkOf s n = st.nlink := by
  obtain ⟨i, hi, -, hi'⟩ := stat_of_isSome hm hc
  obtain rfl := some.inj (hi'.symm.trans hst)
  simp [Op.nlinkOf, hi, Inode.stat]

variable (hs : s.tree.Sound R)

include hs

theorem mkdir_stepped (hat : x.At s d) (hc : Op.nlinkOf s d ≠ 0)
    (hb : Op.nlinkOf s d + 1 < 4294967296) (h : s.brkfsMkdir e d x = (.ok (), s')) :
    Stepped R s s' := by
  obtain ⟨c, hst⟩ := Tree.isDir_of_isDir (hm.tree_isDir hat.isDir)
  rw [nlinkOf_eq hm (isSome_core_of_isDir hat.isDir) hst] at hc hb
  obtain ⟨n, hneg, hsb, hfree, hl⟩ := brkfsMkdir_left hm hat hs hst hb h
  obtain ⟨hstat, hroot⟩ := hm.new hat.isDir hsb hfree
  refine Stepped.of_none hl (hs.mkdir (hat.child.trans hneg) hroot hsb hst hc hb hstat)
    fun m hz => ?_
  have hnd : d ≠ n := fun he => by rw [he, hstat] at hst; cases hst
  by_cases hm' : m = d
  · subst hm'
    obtain ⟨-, st, hst', h0⟩ := hz
    have hself : (s.tree.create (m, x.name) n ⟨.dir, 2⟩).stat m = some ⟨.dir, c⟩ :=
      (update_of_ne hnd _ _).trans hst
    rw [Tree.mkdir, Tree.stat_setNlink_self hself] at hst'
    obtain rfl := some.inj hst'
    exact absurd h0 (Nat.succ_ne_zero c)
  · obtain ⟨hold, st, hst', h0⟩ := hz
    rw [Tree.mkdir, Tree.stat_setNlink_of_ne hm'] at hst'
    exact Tree.not_zeroed_create hstat ⟨hold, st, hst', h0⟩

theorem rmdir_ended (hat : x.At s d) (hx : x.inode = some n)
    (h : s.brkfsRmdir e d n x.name = some (.ok (), s')) :
    Ended R s s' (fun m => m = d ∨ m = n) (grows d []) := by
  have hk : s.tree.child (d, x.name) = some n := hat.child.trans hx
  obtain ⟨hdir, hne, hsub, hl⟩ := brkfsRmdir_ends hm hs hat hx h
  refine ⟨_, _, hl, hs.rmdir hk hdir hne hsub, fun m => ?_, Tree.falls_rmdir, fun m hm => ?_⟩
  · rw [Tree.zeroed_rmdir hs hk hdir hne, some_inj, eq_comm]
  · rw [← some.inj hm]
    exact (hs.target _ n hk).2.1

theorem lookup_ended (hd : s.isDir d) (h : s.brkfsLookup e d name = (.ok (), s')) :
    Ended R s s' (fun m => s.core m = none) (grows d []) :=
  Ended.of_none (brkfsLookup_ends hm hs hd h) hs (fun _ => Tree.not_zeroed_of_eq rfl)
    (Tree.falls_of_stat_eq rfl)

variable (hR : Comparison R)

include hR

theorem symlink_stepped (hat : x.At s d) (h : s.brkfsSymlink e d x = (.ok (), s')) :
    Stepped R s s' := by
  obtain ⟨n, hneg, hsb, hfree, hl⟩ := brkfsSymlink_left hm hat h
  obtain ⟨hstat, hroot⟩ := hm.new hat.isDir hsb hfree
  exact Stepped.of_none hl (hs.create (hat.child.trans hneg) hroot hsb hR
    (hm.tree_isDir hat.isDir) hstat (by decide)) fun m => Tree.not_zeroed_create hstat

theorem create_ended (hat : x.At s d) (hkind : kind ≠ .dir)
    (h : s.createNode e d x kind = (.ok (), s')) :
    Ended R s s' (fun m => m = d ∨ s.used m = false) (grows d e.grow) := by
  obtain ⟨n, hneg, hsb, hfree, hl⟩ := createNode_ends hm hat h
  obtain ⟨hstat, hroot⟩ := hm.new hat.isDir hsb hfree
  refine Ended.of_none (hl.mono fun m hm => ?_) (hs.create (hat.child.trans hneg) hroot hsb
    hR (hm.tree_isDir hat.isDir) hstat hkind) (fun m => Tree.not_zeroed_create hstat)
    (Tree.falls_create hstat Nat.one_ne_zero)
  rcases hm with rfl | rfl
  · exact .inl rfl
  · exact .inr hfree

theorem link_stepped {old : Node} (hat : x.At s d) (hk : s.tree.child k = some old)
    (hold : (s.core old).isSome) (hsb : old.sb = d.sb)
    (hb : Op.nlinkOf s old + 1 < 4294967296) (h : s.brkfsLink e old d x = (.ok (), s')) :
    Stepped R s s' := by
  obtain ⟨i, hi, -, hst⟩ := stat_of_isSome hm hold
  rw [nlinkOf_eq hm hold hst] at hb
  obtain ⟨hneg, hfile, hl⟩ := brkfsLink_left hm hat hold hsb hst hb h
  refine Stepped.of_none hl (hs.link (hat.child.trans hneg) (hs.target k old hk).2.1 hsb
    hR (hm.tree_isDir hat.isDir) hst (kind_ne_dir hm hold hst hfile) hb) fun m hz => ?_
  rw [Tree.zeroed_congr (Tree.stat_link _), Tree.zeroed_setNlink _ hst] at hz
  exact absurd hz.2.2 (Nat.succ_ne_zero _)

theorem unlink_ended (hat : x.At s d) (hx : x.inode = some n)
    (h : s.brkfsUnlink e d n x.name = (.ok (), s')) :
    Ended R s s' (fun m => m = d ∨ m = n) (grows d []) := by
  have hk : s.tree.child (d, x.name) = some n := hat.child.trans hx
  obtain ⟨st, hst, hkind, hl⟩ := brkfsUnlink_ends hm hs hat hx hR h
  refine ⟨_, _, hl, hs.unlink hR hk hst hkind, fun m => ?_, Tree.falls_unlink, fun m hm => ?_⟩
  · rw [ite_none_right_eq_some, some_inj, Tree.zeroed_unlink hst]
  · rw [← some.inj (ite_none_right_eq_some.mp hm).2]
    exact (hs.target _ n hk).2.1

theorem rename_ended (hod : od.At s oldDir) (hnd : nd.At s newDir)
    (hvol : newDir.sb = oldDir.sb)
    (h : s.brkfsRename e oldDir od newDir nd noreplace = some (.ok (), s')) :
    Ended R s s' (fun m => od.inode = some m ∨ m = oldDir ∨ m = newDir ∨ nd.inode = some m)
      (grows newDir e.grow) := by
  obtain ⟨n, st, hn, hcross, hlocks, hempty, hstx, hl⟩ :=
    brkfsRename_ends hR hm hs hod hnd hvol h
  replace hl := hl.mono (Q := fun m => od.inode = some m ∨ m = oldDir ∨ m = newDir ∨
    nd.inode = some m) fun m hm' => hm'.imp_left fun he => hn.trans (congrArg some he.symm)
  have hold : s.tree.child (oldDir, od.name) = some n := hod.child.trans hn
  have hnew := hnd.child
  have hdirn : s.tree.isDir newDir := hm.tree_isDir hnd.isDir
  have hsame : s.tree.isDir n → oldDir = newDir := by
    intro hd
    by_contra hne
    exact hcross ⟨(isDir_iff_tree hm (hod.inode n hn).2).mpr hd, hne⟩
  have hne : (oldDir, od.name) ≠ (newDir, nd.name) := by
    intro he
    rw [← he, hold] at hnew
    exact hlocks.2.2.1 hnew.symm
  -- the rest of the rename, once the replaced entry is gone
  have hmove {t1 : Tree} (h1 : t1.Sound R) (hdir : t1.isDir = s.tree.isDir)
      (hchild : t1.child = update s.tree.child (newDir, nd.name) none) :
      (t1.move (oldDir, od.name) (newDir, nd.name) n).Sound R := by
    apply h1.move
    · rw [hchild, update_of_ne hne]
      exact hold
    · rw [hchild, update_self]
    · rw [hdir]
      exact hdirn
    · exact hvol
    · rw [hdir]
      exact hsame
  cases hx : nd.inode with
  | none =>
    rw [hx] at hl hnew
    have hchild : s.tree.child = update s.tree.child (newDir, nd.name) none := by
      rw [← hnew, update_eq_self]
    exact Ended.of_none hl (hmove hs rfl hchild) (fun m => Tree.not_zeroed_of_eq rfl)
      (Tree.falls_of_stat_eq rfl)
  | some y =>
    rw [hx] at hl hnew
    have hst := hstx y hx
    have hyc := (hnd.inode y hx).2
    cases hdy : s.isDir y with
    | true =>
      have hdir := hm.tree_isDir hdy
      have hyd : y ≠ newDir := fun he => hlocks.2.2.2.2 (by rw [hx, he])
      have hgone := hs.rmdir hnew hdir hyd (subdirs_eq_empty (hempty y hx hdy))
      simp only [any_some, hdy, renameOrphan, elim_some, bind_some, true_or,
        if_true, Tree.rename] at hl
      refine ⟨_, _, hl, hmove hgone (Tree.isDir_rmdir _) rfl, fun m => ?_,
        Tree.falls_rmdir.move, fun m hm => ?_⟩
      · rw [Tree.zeroed_move, Tree.zeroed_rmdir hs hnew hdir hyd, some_inj, eq_comm]
      · rw [← some.inj hm]
        exact (hs.target _ y hnew).2.1
    | false =>
      obtain ⟨st', hst', hkind, -, -⟩ := file_facts hm hR hs hnew hyc hdy
      obtain rfl := some.inj (hst.symm.trans hst')
      have hgone := hs.unlink hR hnew hst hkind
      simp only [any_some, hdy, renameOrphan, elim_some, bind_some,
        Bool.false_eq_true, false_or, if_false, Tree.rename] at hl
      refine ⟨_, _, hl, hmove hgone (Tree.isDir_unlink _) rfl, fun m => ?_,
        Tree.falls_unlink.move, fun m hm => ?_⟩
      · rw [Tree.zeroed_move, ite_none_right_eq_some, some_inj, Tree.zeroed_unlink hst]
      · rw [← some.inj (ite_none_right_eq_some.mp hm).2]
        exact (hs.target _ y hnew).2.1

/-- Every plain call of an operation on names is a step of the tree. -/
theorem Op.exec_stepped {op : Op} (hc : op.Called s) (hp : op.Plain s)
    (h : op.exec e s = some (.ok (), s')) :
    Stepped R s s' := by
  cases op with
  | create d x =>
    exact (create_ended hm hs hR hc (by decide) (some.inj h)).stepped
  | mknod d x kind =>
    exact (create_ended hm hs hR hc hp (some.inj h)).stepped
  | symlink d x =>
    exact symlink_stepped hm hs hR hc (some.inj h)
  | mkdir d x => exact mkdir_stepped hm hs hc hp.1 hp.2 (some.inj h)
  | lookup d name => exact (lookup_ended hm hs hc (some.inj h)).stepped
  | rename oldDir od newDir nd noreplace =>
    exact (rename_ended hm hs hR hc.1 hc.2.1 hc.2.2 h).stepped
  | unlink d x =>
    obtain ⟨n, hn, h'⟩ := map_eq_some_iff.mp h
    exact (unlink_ended hm hs hR hc hn h').stepped
  | rmdir d x =>
    obtain ⟨n, hn, h'⟩ := bind_eq_some_iff.mp h
    exact (rmdir_ended hm hs hc hn h').stepped
  | link oldDir old d x =>
    obtain ⟨n, hn, h'⟩ := map_eq_some_iff.mp h
    obtain ⟨hold, hat, hvol⟩ := hc
    obtain ⟨hsb, hnc⟩ := hold.inode n hn
    exact link_stepped hm hs hR hat (hold.child.trans hn) hnc (hsb.trans hvol) (hp n hn) h'

end

theorem Stepped.exact (h : Stepped (fun a b => a = b) s s') : s'.Exact ∧ OrphansZeroed s s' := by
  obtain ⟨t, o, ⟨τ, hl, rfl⟩, hs, hz⟩ := h
  refine ⟨⟨hl.mounted, by rw [hl.tree]; exact hs⟩, _, hl.orphaned, ?_, fun n => ?_⟩
  · cases τ.orphan with
    | none => exact nodup_nil
    | some n => exact nodup_singleton n
  · rw [hl.tree, mem_toList]
    exact hz n

/-- Along every run of successful calls that makes no directory in a removed one or with `mknod`,
and overflows no count, the link counts are exact, and an inode is put on the list of orphans
exactly when its count becomes zero. -/
theorem link_counts_exact (s₀ s₁ : Sys) (h : s₀.Exact) (hrun : Run PlainCalls s₀ s₁) :
    LinkCounts s₁ ∧ ∀ s₂, PlainCalls s₁ s₂ → OrphansZeroed s₁ s₂ := by
  have hstep : ∀ s s', PlainCalls s s' → s.Exact → s'.Exact ∧ OrphansZeroed s s' := by
    rintro s s' ⟨op, e, hc, hp, hop⟩ hex
    exact (Op.exec_stepped hex.mounted hex.sound comparison_eq hc hp hop).exact
  have hex := Run.invariant (fun s s' hs hx => (hstep s s' hs hx).1) hrun h
  exact ⟨hex.linkCounts, fun s₂ hs => (hstep s₁ s₂ hs hex).2⟩

end Runs

/-! ### A volume with nothing in it -/

/-- Volume `0` with its root directory alone. -/
def emptyVolume : Sys where
  dir _ := ∅
  table n := if n = ⟨0, 1⟩ then some ⟨.dir, 2, 0, [9]⟩ else none
  core n := if n = ⟨0, 1⟩ then some ⟨.dir, 2, 0, [9]⟩ else none
  used n := n = ⟨0, 1⟩
  busy sb b := sb = 0 ∧ b = 9
  orphan _ := 0
  inodesCount _ := 8
  orphaned := []

theorem stat_emptyVolume (h : emptyVolume.tree.stat n = some st) : n = ⟨0, 1⟩ ∧ st = ⟨.dir, 2⟩ := by
  by_cases hn : n = ⟨0, 1⟩
  · subst hn
    exact ⟨rfl, (some.inj h).symm⟩
  · simp [tree, stat, emptyVolume, hn] at h

theorem exact_emptyVolume : emptyVolume.Exact := by
  have hchild : ∀ k, emptyVolume.tree.child k = none := fun _ => rfl
  refine ⟨⟨fun n i hi => ?_, fun n i hu hi => ?_, fun n hn => ?_⟩, ⟨fun k n hk => ?_,
    fun k n hk => ?_, fun n st hst => ?_⟩⟩
  · obtain ⟨rfl, ⟨⟩⟩ := ite_none_right_eq_some.mp hi
    decide
  · obtain ⟨rfl, ⟨⟩⟩ := ite_none_right_eq_some.mp hi
    decide
  · obtain ⟨i, hi⟩ := isSome_iff_exists.mp hn
    obtain ⟨rfl, -⟩ := ite_none_right_eq_some.mp hi
    rfl
  · cases hk
  · cases hk
  · obtain ⟨rfl, rfl⟩ := stat_emptyVolume hst
    have hsub : emptyVolume.tree.subdirs ⟨0, 1⟩ = ∅ := subdirs_eq_empty rfl
    have hlinks : emptyVolume.tree.links ⟨0, 1⟩ = ∅ := by
      ext k
      simp [Tree.links, hchild]
    rw [hsub, hlinks]
    refine ⟨by decide, fun hc => absurd rfl hc, fun _ => Set.subsingleton_empty,
      fun _ _ => by simp, fun _ hl => absurd (.inl rfl) hl⟩

/-- Nothing fails; a new directory gets block `10`. -/
def calm : Env := ⟨fun _ => none, [], [10]⟩

/-- The state after a call. -/
def Op.after (op : Op) (s : Sys) : Sys := ((op.exec calm s).map Prod.snd).getD s

/-- `mkdir d`, `rmdir d`, and `mkdir x` in the directory that was `d`. -/
def madeInRemoved : Sys :=
  (Op.mkdir ⟨0, 2⟩ ⟨[120], none⟩).after
    ((Op.rmdir ⟨0, 1⟩ ⟨[100], some ⟨0, 2⟩⟩).after
      ((Op.mkdir ⟨0, 1⟩ ⟨[100], none⟩).after emptyVolume))

/-- `mknod d` with the type of a directory. -/
def madeByMknod : Sys := (Op.mknod ⟨0, 1⟩ ⟨[100], none⟩ .dir).after emptyVolume

theorem at_negative (hd : s.isDir d = true) (he : s.entry d name = none) :
    Dentry.At s d ⟨name, none⟩ :=
  ⟨hd, he, fun _ hn => nomatch hn⟩

theorem at_positive (hd : s.isDir d = true) (he : s.entry d name = some n.ino) (hsb : n.sb = d.sb)
    (hc : (s.core n).isSome = true) : Dentry.At s d ⟨name, some n⟩ := by
  refine ⟨hd, he, fun m hm => ?_⟩
  obtain rfl := some.inj hm
  exact ⟨hsb, hc⟩

theorem link_counts_exact_mkdir : (emptyVolume.Exact ∧
      Run PlainCalls emptyVolume ((Op.mkdir ⟨0, 1⟩ ⟨[100], none⟩).after emptyVolume)) ∧
    LinkCounts ((Op.mkdir ⟨0, 1⟩ ⟨[100], none⟩).after emptyVolume) := by
  have hrun : Run PlainCalls emptyVolume ((Op.mkdir ⟨0, 1⟩ ⟨[100], none⟩).after emptyVolume) :=
    single ⟨.mkdir ⟨0, 1⟩ ⟨[100], none⟩, calm, at_negative rfl rfl, ⟨by decide, by decide⟩, rfl⟩
  exact ⟨⟨exact_emptyVolume, hrun⟩, (link_counts_exact _ _ exact_emptyVolume hrun).1⟩

/-- A directory never counts one. -/
theorem LinkCounts.ne_one (h : LinkCounts s) : s.stat n ≠ some ⟨.dir, 1⟩ := by
  intro hst
  by_cases hl : s.Linked n
  · have hf := h.folder n _ hst rfl hl
    have hle : ((2 : Nat) : ℕ∞) ≤ ((1 : Nat) : ℕ∞) := by
      rw [hf]
      exact le_self_add
    exact absurd (Nat.cast_le.mp hle) (by decide)
  · exact absurd (h.gone n _ hst rfl hl) (by decide)

/-- A directory is made in one that has been removed, and one by `mknod`: the first leaves a removed
directory that counts one, the second a directory that counts one. -/
theorem link_counts_broken :
    (emptyVolume.Exact ∧ Run Calls emptyVolume madeInRemoved ∧ ¬ LinkCounts madeInRemoved) ∧
      Run Calls emptyVolume madeByMknod ∧ ¬ LinkCounts madeByMknod := by
  refine ⟨⟨exact_emptyVolume, ?_, fun h => ?_⟩, ?_, fun h => ?_⟩
  · refine tail (tail
      (single ⟨.mkdir ⟨0, 1⟩ ⟨[100], none⟩, calm, at_negative rfl rfl, rfl⟩)
      ⟨.rmdir ⟨0, 1⟩ ⟨[100], some ⟨0, 2⟩⟩, calm, at_positive rfl rfl rfl rfl, rfl⟩)
      ⟨.mkdir ⟨0, 2⟩ ⟨[120], none⟩, calm, at_negative rfl rfl, rfl⟩
  · exact h.ne_one (n := ⟨0, 2⟩) rfl
  · exact single ⟨.mknod ⟨0, 1⟩ ⟨[100], none⟩ .dir, calm, at_negative rfl rfl, rfl⟩
  · exact h.ne_one (n := ⟨0, 2⟩) rfl

/-! ### A name that is not there -/

/-- Where `brkfs_dir_remove` finds no block, nothing is changed. -/
theorem removal_absent {e : Env} (hent : s.entry d name = none) (hf : e.fault .remove = none)
    (hb : ∀ i, s.core d = some i → i.blocks = []) :
    (s.brkfsUnlink e d n name).2 = s ∧ ∀ r, s.brkfsRmdir e d n name = some r → r.2 = s := by
  have hrem : s.brkfsDirRemove d name (e.fault .remove) = (.error .enoent, s) := by
    have hall : (s.core d).all fun i => i.blocks.isEmpty := by
      cases hd : s.core d with
      | none => rfl
      | some i => simp [hb i hd]
    simp [brkfsDirRemove, hf, hent, hall]
  constructor
  · simp only [brkfsUnlink, hrem, Res.next]
    split <;> rfl
  intro r hr
  simp only [brkfsRmdir, hrem, Res.next] at hr
  split at hr
  · obtain rfl := some.inj hr
    rfl
  · split at hr
    · cases hr
    · split at hr <;> obtain rfl := some.inj hr <;> rfl

/-- The removal of a name that a directory does not have fails exactly in a directory without
blocks, and there neither `unlink` nor `rmdir` changes anything. -/
theorem dirRemove_absent_iff {g : Brkfs.Geometry} {v : Brkfs.Vol} {nd : Brkfs.FsInode}
    {blocks : List (Nat × List Brkfs.DirEntry)} (h : Brkfs.DirOk g v nd blocks)
    (habs : name ∉ (Brkfs.dirPairs blocks).map Prod.fst) :
    (Brkfs.brkfsDirRemove v nd name = some (.error .enoent, nd, v) ↔ nd.size = 0) ∧
    ∀ (s : Sys) (e : Env) (d n : Node), s.entry d name = none → e.fault .remove = none →
      (∀ i, s.core d = some i → i.blocks = []) →
      (s.brkfsUnlink e d n name).2 = s ∧ ∀ r, s.brkfsRmdir e d n name = some r → r.2 = s := by
  refine ⟨?_, fun s e d n hent hf hb => removal_absent hent hf hb⟩
  rw [Brkfs.brkfsDirRemove_absent h habs, h.size_eq_zero]
  by_cases hb : blocks = []
  · simp [hb]
  · simp [hb]

theorem dirRemove_absent_iff_fresh :
    Brkfs.brkfsDirRemove Brkfs.tinyVol (Brkfs.emptyInode 1 0o040755) Brkfs.nameA =
      some (.error .enoent, Brkfs.emptyInode 1 0o040755, Brkfs.tinyVol) :=
  (dirRemove_absent_iff (Brkfs.DirOk.fresh Brkfs.tinyVol_ok (fun _ _ => rfl) rfl rfl)
    not_mem_nil).1.2 rfl

/-- A directory with an empty block says `0`, and `unlink` of a name that is not there takes the
only link of a file. -/
theorem dirRemove_absent_ok :
    (∃ b v nd, Brkfs.DirOk Brkfs.tinySuper.geom v nd [(b, [⟨0, 1020, 0, 0, []⟩])] ∧
      Brkfs.brkfsDirRemove v nd Brkfs.nameA = some (.ok (), nd, v)) ∧
    ((Op.create ⟨0, 1⟩ ⟨[97], none⟩).after emptyVolume).stat ⟨0, 2⟩ = some ⟨.reg, 1⟩ ∧
    ((Op.unlink ⟨0, 1⟩ ⟨[98], some ⟨0, 2⟩⟩).after
      ((Op.create ⟨0, 1⟩ ⟨[97], none⟩).after emptyVolume)).stat ⟨0, 2⟩ = some ⟨.reg, 0⟩ := by
  refine ⟨?_, rfl, rfl⟩
  obtain ⟨b, v, nd, -, hok⟩ := Brkfs.tinyDir_first
  exact ⟨b, v, nd, hok, Brkfs.brkfsDirRemove_absent hok not_mem_nil⟩

end BrkKernel.Names
