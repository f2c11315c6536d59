import BrkKernel.Brkfs.NamesRename
import BrkKernel.Brkfs.NamesTree

/-!
# The parts of the operations on names

The tree of names that a volume holds, and what the parts of the operations do to it and to the
inodes: `Leaves s s' t τ` says that the parts up to now have made `s'` of `s`, that the tree is `t`,
and what else they did, in `τ`: the inodes changed in memory, those written to their slots since,
the one put on the list of orphans and the blocks that were added. There is one lemma for each part,
and an operation is the sequence of its parts.
-/

set_option autoImplicit false

namespace BrkKernel.Names

open Lib Function Sys List

variable {i i' : Inode} {f : Inode → Inode} {kind : Kind} {bs : List Nat} {ino sb : Nat}
  {d n m : Node} {fault : Option Errno} {r : Res} {s' : Sys} {g : Nat → Nat} {k : Sys → Res}
  {W : List Node}

/-! ## The tree of a volume -/

/-- What the tree keeps of an inode. -/
def Inode.stat (i : Inode) : Stat := ⟨i.kind, i.nlink⟩

namespace Sys

/-- An inode as the next reader sees it: its copy in memory, or else its slot. -/
def inode (s : Sys) (n : Node) : Option Inode := (s.core n).or (s.table n)

/-- The type and the count of an allocated inode. -/
def stat (s : Sys) (n : Node) : Option Stat :=
  if s.used n then (s.inode n).map Inode.stat else none

/-- The inode that a directory has for a name. -/
def child (s : Sys) (k : Node × Name) : Option Node :=
  (s.entry k.1 k.2).map (Node.mk k.1.sb)

def tree (s : Sys) : Tree := ⟨s.child, s.stat⟩

/-- The blocks of an allocated inode. -/
def blocksOf (s : Sys) (n : Node) : List Nat :=
  if s.used n then (s.inode n).elim [] Inode.blocks else []

/-- What is in memory has been read from its slot: it is allocated, its number and its type are
good ones, and the root of its volume is allocated. So are the types in the slots. -/
structure Mounted (s : Sys) : Prop where
  loaded : ∀ n i, s.core n = some i → s.used n ∧ s.validIno n.sb n.ino ∧ i.kind ≠ .unknown
  slot : ∀ n i, s.used n → s.table n = some i → i.kind ≠ .unknown
  root : ∀ n, (s.core n).isSome → s.used ⟨n.sb, rootIno⟩

/-- The inodes in memory are the same ones, of the same types, and slots are written from them. -/
structure Touch (s s' : Sys) : Prop where
  used : s'.used = s.used
  inodesCount : s'.inodesCount = s.inodesCount
  kind : ∀ n, (s'.core n).map Inode.kind = (s.core n).map Inode.kind
  slot : ∀ n i, s'.table n = some i → s.table n = some i ∨ ∃ j, s.core n = some j ∧ j.kind = i.kind

namespace Touch

variable {s s' s'' : Sys}

theorem isSome_core (h : Touch s s') (n : Node) : (s'.core n).isSome = (s.core n).isSome := by
  have hk := congrArg Option.isSome (h.kind n)
  simpa using hk

theorem mounted (h : Touch s s') (hm : Mounted s) : Mounted s' where
  loaded n i hi := by
    have hk := h.kind n
    rw [hi] at hk
    obtain ⟨j, hj, hij⟩ := Option.map_eq_some_iff.mp hk.symm
    obtain ⟨hu, hv, hkind⟩ := hm.loaded n j hj
    refine ⟨by rw [h.used]; exact hu, ⟨hv.1, by rw [h.inodesCount]; exact hv.2⟩, ?_⟩
    rw [← hij]
    exact hkind
  slot n i hu hi := by
    rcases h.slot n i hi with hold | ⟨j, hj, hij⟩
    · exact hm.slot n i (by rw [h.used] at hu; exact hu) hold
    · rw [← hij]
      exact (hm.loaded n j hj).2.2
  root n hn := by
    rw [h.used]
    exact hm.root n (by rwa [h.isSome_core] at hn)

end Touch

section Primitives

variable (s : Sys)

theorem touch_modify (n : Node) (hf : ∀ i, (f i).kind = i.kind) : Touch s (s.modify n f) := by
  refine ⟨rfl, rfl, fun m => ?_, fun _ _ hi => .inl hi⟩
  by_cases hm : m = n
  · subst hm
    cases hc : s.core m with
    | none => simp [modify, setCore, hc]
    | some i => simp [modify, setCore, hc, hf]
  · simp [modify, setCore, hm]

theorem touch_addBlocks (n : Node) (bs : List Nat) : Touch s (s.addBlocks n bs) := by
  have h := s.touch_modify n (f := fun i => { i with blocks := i.blocks ++ bs }) fun _ => rfl
  exact ⟨h.used, h.inodesCount, h.kind, h.slot⟩

theorem touch_brkfsOrphanAdd (sb : Nat) (n : Node) : Touch s (s.brkfsOrphanAdd sb n) := by
  have h := s.touch_modify n (f := fun i => { i with nextOrphan := s.orphan sb }) fun _ => rfl
  exact ⟨h.used, h.inodesCount, h.kind, h.slot⟩

theorem touch_insertEntry (d : Node) (name : Name) (ino : Nat) :
    Touch s (s.insertEntry d name ino) := ⟨rfl, rfl, fun _ => rfl, fun _ _ hi => .inl hi⟩

theorem touch_eraseEntry (d : Node) (name : Name) : Touch s (s.eraseEntry d name) :=
  ⟨rfl, rfl, fun _ => rfl, fun _ _ hi => .inl hi⟩

theorem touch_setTable (n : Node) : Touch s (s.setTable n (s.core n)) := by
  refine ⟨rfl, rfl, fun _ => rfl, fun m i hi => ?_⟩
  by_cases hm : m = n
  · subst hm
    exact .inr ⟨i, by simpa [setTable] using hi, rfl⟩
  · exact .inl (by simpa [setTable, hm] using hi)

/-! ### What the parts of an operation do to the tree -/

theorem child_congr {s : Sys} (h : s'.dir = s.dir) : s'.child = s.child := by
  funext k
  unfold child
  rw [entry_congr h]

theorem stat_of_core {s : Sys} (hu : s.used n) (hi : s.core n = some i) :
    s.stat n = some i.stat := by
  simp [stat, inode, hu, hi]

theorem blocksOf_of_core {s : Sys} (hu : s.used n) (hi : s.core n = some i) :
    s.blocksOf n = i.blocks := by
  simp [blocksOf, inode, hu, hi]

theorem stat_modify_of_ne (h : m ≠ n) : (s.modify n f).stat m = s.stat m := by
  simp [stat, inode, modify, setCore, h]

/-- A change of the link count in memory is one of the tree. -/
theorem tree_modify {s : Sys} (hu : s.used n) (hi : s.core n = some i)
    (hk : (f i).kind = i.kind) (hg : (f i).nlink = g i.nlink) :
    (s.modify n f).tree = s.tree.setNlink n g := by
  have hst : (s.modify n f).stat = (s.tree.setNlink n g).stat := by
    funext m
    by_cases hm : m = n
    · subst hm
      have hc : (s.modify m f).core m = some (f i) := by simp [modify, setCore, hi]
      rw [stat_of_core (s := s.modify m f) hu hc,
        Tree.stat_setNlink_self (t := s.tree) (stat_of_core hu hi)]
      simp [Inode.stat, hk, hg]
    · rw [stat_modify_of_ne s hm, Tree.stat_setNlink_of_ne hm]
      rfl
  unfold tree
  rw [hst]
  rfl

theorem tree_of_eq {s : Sys} (hd : s'.dir = s.dir) (hs : s'.stat = s.stat) : s'.tree = s.tree := by
  unfold tree
  rw [child_congr hd, hs]

theorem stat_modify_eq (n : Node) (hf : ∀ i, (f i).stat = i.stat) :
    (s.modify n f).stat = s.stat := by
  funext m
  by_cases hm : m = n
  · subst hm
    cases hc : s.core m with
    | none => simp [stat, inode, modify, setCore, hc]
    | some i => simp [stat, inode, modify, setCore, hc, hf]
  · exact stat_modify_of_ne s hm

@[simp] theorem tree_addBlocks (n : Node) (bs : List Nat) : (s.addBlocks n bs).tree = s.tree :=
  tree_of_eq rfl
    (s.stat_modify_eq n (f := fun i => { i with blocks := i.blocks ++ bs }) fun _ => rfl)

@[simp] theorem tree_brkfsOrphanAdd (sb : Nat) (n : Node) :
    (s.brkfsOrphanAdd sb n).tree = s.tree :=
  tree_of_eq rfl
    (s.stat_modify_eq n (f := fun i => { i with nextOrphan := s.orphan sb }) fun _ => rfl)

/-- One entry of a directory changes. -/
theorem tree_of_entry {s : Sys} {name : Name} {o : Option Nat}
    (h : ∀ d' name', s'.entry d' name' = if d' = d ∧ name' = name then o else s.entry d' name')
    (hs : s'.stat = s.stat) :
    s'.tree = { s.tree with child := update s.tree.child (d, name) (o.map (Node.mk d.sb)) } := by
  have hchild : s'.child = update s.child (d, name) (o.map (Node.mk d.sb)) := by
    funext k
    obtain ⟨d', name'⟩ := k
    unfold child
    rw [h]
    by_cases hk : d' = d ∧ name' = name
    · obtain ⟨rfl, rfl⟩ := hk
      simp
    · have hne : (d', name') ≠ (d, name) := fun he => hk (Prod.mk.inj he)
      simp [hk, hne, update_of_ne]
  unfold tree
  rw [hchild, hs]

/-- Writing an inode that is in memory to its own slot. -/
theorem tree_setTable {s : Sys} (h : (s.core n).isSome) (i : Option Inode) :
    (s.setTable n i).tree = s.tree := by
  refine tree_of_eq rfl ?_
  funext m
  by_cases hm : m = n
  · subst hm
    obtain ⟨j, hj⟩ := Option.isSome_iff_exists.mp h
    simp [stat, inode, setTable, hj]
  · simp [stat, inode, setTable, hm]

theorem u32_pred {c : Nat} (h0 : 0 < c) (hb : c < 4294967296) : u32 (c + 4294967295) = c - 1 := by
  unfold u32
  omega

end Primitives

/-! ### Calls that succeed -/

section Success

variable {s s' : Sys} {name : Name}

theorem brkfsInodeWrite_eq_ok (h : s.brkfsInodeWrite sb n fault = (.ok (), s')) :
    s' = s.setTable ⟨sb, n.ino⟩ (s.core n) := by
  unfold brkfsInodeWrite at h
  split at h
  · cases h
  cases fault with
  | some x => cases h
  | none =>
    cases h
    rfl

theorem brkfsDirAdd_eq_ok {grow : List Nat}
    (h : s.brkfsDirAdd d ino name kind grow fault = (.ok (), s')) :
    kind ≠ .unknown ∧ s' = (s.addBlocks d grow).insertEntry d name ino := by
  unfold brkfsDirAdd at h
  split at h
  · cases h
  rename_i hk
  cases fault with
  | some x => cases h
  | none =>
    cases h
    exact ⟨hk, rfl⟩

theorem brkfsDirRemove_eq_ok (h : s.brkfsDirRemove d name fault = (.ok (), s')) :
    s' = s.eraseEntry d name := by
  cases fault with
  | some x => cases h
  | none =>
    unfold brkfsDirRemove at h
    simp only at h
    split at h
    · cases h
    · cases h
      rfl

theorem brkfsInodeRead_eq_ok :
    s.brkfsInodeRead sb ino = .ok i ↔ s.validIno sb ino ∧ s.table ⟨sb, ino⟩ = some i := by
  unfold brkfsInodeRead
  by_cases hv : s.validIno sb ino
  · cases ht : s.table ⟨sb, ino⟩ with
    | none => simp [hv]
    | some j => simp [hv]
  · simp [hv]

theorem brkfsInitLoadedInode_eq_ok (h : s.brkfsInitLoadedInode n fault = (.ok (), s')) :
    ∃ i, s.validIno n.sb n.ino ∧ s.table n = some i ∧ s' = s.setCore n (some i) := by
  unfold brkfsInitLoadedInode at h
  split at h
  · cases h
  rename_i i hread
  obtain ⟨hv, ht⟩ := brkfsInodeRead_eq_ok.mp hread
  split at h
  · cases h
  · cases h
    exact ⟨i, hv, ht, rfl⟩

theorem freeBit_eq_some {bit : Nat} (h : s.freeBit sb = some bit) :
    s.used ⟨sb, bit + 1⟩ = false ∧ s.validIno sb (bit + 1) := by
  have hfree := find?_some h
  have hmem := mem_range.mp (mem_of_find?_eq_some h)
  refine ⟨by simpa using hfree, by omega, hmem⟩

/-- The state once a new inode has been set up and loaded. -/
def fresh (s : Sys) (n : Node) (kind : Kind) (nlink : Nat) : Sys :=
  { s with
    used := update s.used n true
    table := update s.table n (some ⟨kind, nlink, 0, []⟩)
    core := update s.core n (some ⟨kind, nlink, 0, []⟩) }

/-- What `newInode` has found and done when it succeeds. -/
theorem newInode_eq_ok {e : Env} {dentry : Dentry} {nlink : Nat}
    (h : s.newInode e d dentry kind nlink = (.ok n, s')) :
    dentry.inode = none ∧ n.sb = d.sb ∧ s.used n = false ∧ s.validIno n.sb n.ino ∧
      s' = s.fresh n kind nlink := by
  unfold newInode at h
  split at h
  · cases h
  rename_i hneg
  rw [Option.not_isSome_iff_eq_none] at hneg
  split at h
  · cases h
  split at h
  · cases h
  split at h
  · cases h
  rename_i ino s₁ halloc
  -- the first clear bit is that of a number in the range of the table
  obtain ⟨bit, hbit, rfl, rfl⟩ : ∃ bit, s.freeBit d.sb = some bit ∧ ino = bit + 1 ∧
      s₁ = { s with used := update s.used ⟨d.sb, bit + 1⟩ true } := by
    unfold brkfsInodeAlloc at halloc
    split at halloc
    · cases halloc
    split at halloc
    · cases halloc
    · next bit hbit =>
      cases halloc
      exact ⟨bit, hbit, rfl, rfl⟩
  obtain ⟨hfree, hvalid⟩ := freeBit_eq_some hbit
  split at h
  · cases h
  rename_i s₂ hinit
  obtain rfl : s₂ = setTable _ ⟨d.sb, bit + 1⟩ (some ⟨kind, nlink, 0, []⟩) := by
    unfold brkfsDiskInodeInit at hinit
    split at hinit
    · cases hinit
    split at hinit
    · cases hinit
    · cases hinit
      rfl
  split at h
  · cases h
  split at h
  · cases h
  rename_i s3 hload
  cases h
  refine ⟨hneg, rfl, hfree, hvalid, ?_⟩
  obtain ⟨i, -, hi, rfl⟩ := brkfsInitLoadedInode_eq_ok hload
  obtain rfl : ⟨kind, nlink, 0, []⟩ = i := by simpa [setTable] using hi
  rfl

/-- The state once an inode is in memory as its slot has it. -/
def enter (s : Sys) (n : Node) (i : Inode) : Sys :=
  { s with
    used := update s.used n true
    table := update s.table n (some i)
    core := update s.core n (some i) }

theorem tree_enter : (s.enter n i).tree =
    { s.tree with stat := update s.tree.stat n (some i.stat) } := by
  have hst : (s.enter n i).stat = update s.stat n (some i.stat) := by
    refine eq_update_iff.2 ⟨?_, fun m hm => ?_⟩
    · simp [stat, inode, enter]
    · simp [stat, inode, enter, hm]
  unfold tree
  rw [hst]
  rfl

theorem mounted_enter (hm : Mounted s) (hd : (s.core d).isSome) (hsb : n.sb = d.sb)
    (hv : s.validIno n.sb n.ino) (hk : i.kind ≠ .unknown) : Mounted (s.enter n i) := by
  have hused : ∀ m, s.used m → (s.enter n i).used m := by
    intro m h
    by_cases hm' : m = n
    · subst hm'
      simp [enter]
    · simpa [enter, hm'] using h
  refine ⟨fun m j hj => ?_, fun m j hu hj => ?_, fun m hmem => ?_⟩
  · by_cases hm' : m = n
    · subst hm'
      obtain rfl : i = j := by simpa [enter] using hj
      exact ⟨by simp [enter], hv, hk⟩
    · obtain ⟨hu, hval, hkind⟩ := hm.loaded m j (by simpa [enter, hm'] using hj)
      exact ⟨hused m hu, hval, hkind⟩
  · by_cases hm' : m = n
    · subst hm'
      obtain rfl : i = j := by simpa [enter] using hj
      exact hk
    · exact hm.slot m j (by simpa [enter, hm'] using hu) (by simpa [enter, hm'] using hj)
  · apply hused
    by_cases hm' : m = n
    · subst hm'
      rw [hsb]
      exact hm.root d hd
    · exact hm.root m (by simpa [enter, hm'] using hmem)

theorem orDiscard_eq_ok (h : orDiscard n r k = (.ok (), s')) :
    ∃ s₁, r = (.ok (), s₁) ∧ k s₁ = (.ok (), s') := by
  obtain ⟨x, s₁⟩ := r
  cases x with
  | error x => cases h
  | ok u => exact ⟨s₁, rfl, h⟩

end Success

end Sys

theorem Res.next_eq_ok (h : r.next k = (.ok (), s')) :
    ∃ s₁, r = (.ok (), s₁) ∧ k s₁ = (.ok (), s') := by
  obtain ⟨x, s₁⟩ := r
  cases x with
  | error x => cases h
  | ok u => exact ⟨s₁, rfl, h⟩

/-! ## The parts in sequence -/

/-- What the parts of an operation have done. -/
structure Trace where
  dirty : List Node
  written : List Node
  orphan : Option Node
  grown : Node → List Nat

open Trace

namespace Trace

/-- Nothing. -/
def start : Trace := ⟨[], [], none, fun _ => []⟩

/-- An inode changes in memory. -/
def change (τ : Trace) (n : Node) : Trace :=
  { τ with dirty := n :: τ.dirty, written := τ.written.filter (· ≠ n) }

/-- An inode is written to its slot. -/
def write (τ : Trace) (n : Node) : Trace := { τ with written := n :: τ.written }

/-- An inode is put on the list of orphans. -/
def putOrphan (τ : Trace) (n : Node) : Trace := { τ.change n with orphan := some n }

/-- An inode gets blocks. -/
def grow (τ : Trace) (n : Node) (bs : List Nat) : Trace :=
  { τ.change n with grown := update τ.grown n (τ.grown n ++ bs) }

end Trace

/-- What the parts of an operation leave of the inodes. -/
structure Mid (s s' : Sys) (τ : Trace) : Prop where
  core : ∀ m, m ∉ τ.dirty → s'.core m = s.core m
  written : ∀ m ∈ τ.written, s'.table m = s'.core m
  kept : ∀ m, m ∉ τ.dirty → m ∉ τ.written → s'.table m = s.table m
  next : ∀ m i i', some m ≠ τ.orphan → s.core m = some i → s'.core m = some i' →
    i'.nextOrphan = i.nextOrphan
  orphan : s'.orphan = τ.orphan.elim s.orphan fun n => update s.orphan n.sb n.ino
  newNext : ∀ n i', τ.orphan = some n → s'.core n = some i' → i'.nextOrphan = s.orphan n.sb
  blocks : ∀ m i', s'.core m = some i' → i'.blocks = s.blocksOf m ++ τ.grown m
  busy : ∀ sb b, s'.busy sb b = true ↔ s.busy sb b = true ∨ ∃ m, m.sb = sb ∧ b ∈ τ.grown m
  used : ∀ m, m ∉ τ.dirty → s'.used m = s.used m
  listed : ∀ n, τ.orphan = some n → n ∈ τ.dirty

/-- What the parts of an operation leave: the tree `t`, and the rest as in `τ`. -/
structure Leaves (s s' : Sys) (t : Tree) (τ : Trace) : Prop where
  tree : s'.tree = t
  mounted : s'.Mounted
  orphaned : s'.orphaned = τ.orphan.toList ++ s.orphaned
  stays : ∀ n, (s.core n).isSome ∨ n ∈ τ.dirty → (s'.core n).isSome
  mid : Mid s s' τ

section Facts

variable {s : Sys} {d : Node} {dentry : Dentry}

theorem Sys.isSome_core_of_isDir (h : s.isDir d) : (s.core d).isSome := by
  cases hc : s.core d with
  | none => simp [isDir, kindOf, hc] at h
  | some i => rfl

theorem Sys.stat_of_isSome (hm : s.Mounted) (h : (s.core n).isSome) :
    ∃ i, s.core n = some i ∧ s.used n ∧ s.tree.stat n = some i.stat := by
  obtain ⟨i, hi⟩ := Option.isSome_iff_exists.mp h
  exact ⟨i, hi, (hm.loaded n i hi).1, stat_of_core (hm.loaded n i hi).1 hi⟩

theorem Sys.Mounted.core_eq_none (hm : s.Mounted) (hfree : s.used n = false) : s.core n = none := by
  by_contra hne
  obtain ⟨i, hi⟩ := Option.ne_none_iff_exists'.mp hne
  exact Bool.false_ne_true (hfree.symm.trans (hm.loaded n i hi).1)

/-- A node whose copy in memory has the type of a directory is one in the tree. -/
theorem Sys.isDir_iff_tree (hm : s.Mounted) (h : (s.core n).isSome) :
    s.isDir n ↔ s.tree.isDir n := by
  obtain ⟨i, hi, hu, hst⟩ := stat_of_isSome hm h
  rw [Tree.isDir_iff hst]
  simp [isDir, kindOf, hi, Inode.stat]

end Facts

namespace Mid

variable {s s₁ s₂ : Sys} {τ : Trace} {n : Node}

theorem refl (hm : s.Mounted) : Mid s s .start where
  core _ _ := rfl
  written _ hm := nomatch hm
  kept _ _ _ := rfl
  next m i i' _ h h' := by
    rw [h] at h'
    rw [Option.some.inj h']
  orphan := rfl
  newNext _ _ h := nomatch h
  blocks m i' h := by
    rw [blocksOf_of_core (hm.loaded m i' h).1 h]
    exact (append_nil _).symm
  busy sb b := by simp [start]
  used _ _ := rfl
  listed _ h := nomatch h

/-- Only the directories change. -/
theorem of_eq (h : Mid s s₁ τ) (hc : s₂.core = s₁.core) (ht : s₂.table = s₁.table)
    (ho : s₂.orphan = s₁.orphan) (hb : s₂.busy = s₁.busy) (hu : s₂.used = s₁.used) :
    Mid s s₂ τ where
  core m hm := by rw [hc]; exact h.core m hm
  written m hm := by rw [ht, hc]; exact h.written m hm
  kept m hm hw := by rw [ht]; exact h.kept m hm hw
  next m i i' hx hi hi' := h.next m i i' hx hi (by rwa [hc] at hi')
  orphan := ho.trans h.orphan
  newNext m i' hx hi' := h.newNext m i' hx (by rwa [hc] at hi')
  blocks m i' hi' := h.blocks m i' (by rwa [hc] at hi')
  busy sb b := by rw [hb]; exact h.busy sb b
  used m hm := by rw [hu]; exact h.used m hm
  listed := h.listed

theorem core_modify_of_ne (hm : m ≠ n) : (s₁.modify n f).core m = s₁.core m := by
  simp [Sys.modify, Sys.setCore, hm]

theorem exists_of_core_modify (h : (s₁.modify n f).core n = some i') :
    ∃ i, s₁.core n = some i ∧ f i = i' := by
  have hmap : (s₁.core n).map f = some i' := by simpa [Sys.modify, Sys.setCore] using h
  exact Option.map_eq_some_iff.mp hmap

/-- What the change keeps of an inode is as it was. -/
theorem kept_of_core_modify {α : Type} {p : Inode → α}
    (h : (s₁.modify n f).core m = some i') (hp : ∀ i, p (f i) = p i) :
    ∃ i, s₁.core m = some i ∧ p i' = p i := by
  by_cases hm : m = n
  · subst hm
    obtain ⟨j, hj, rfl⟩ := exists_of_core_modify h
    exact ⟨j, hj, hp j⟩
  · exact ⟨i', (core_modify_of_ne hm).symm.trans h, rfl⟩

section

variable (h : Mid s s₁ τ)

include h

/-- The slots after a change in memory. -/
theorem written_change (m : Node) (hm : m ∈ (τ.change n).written) :
    s₁.table m = (s₁.modify n f).core m := by
  simp only [change, mem_filter, decide_eq_true_eq] at hm
  rw [core_modify_of_ne hm.2]
  exact h.written m hm.1

theorem kept_change (m : Node) (hm : m ∉ (τ.change n).dirty) (hw : m ∉ (τ.change n).written) :
    s₁.table m = s.table m := by
  simp only [change, mem_cons, not_or] at hm
  apply h.kept m hm.2
  intro hmem
  exact hw (mem_filter.mpr ⟨hmem, decide_eq_true hm.1⟩)

theorem core_change (m : Node) (hm : m ∉ (τ.change n).dirty) :
    (s₁.modify n f).core m = s.core m := by
  simp only [change, mem_cons, not_or] at hm
  rw [core_modify_of_ne hm.1]
  exact h.core m hm.2

theorem used_change (m : Node) (hm : m ∉ (τ.change n).dirty) : s₁.used m = s.used m :=
  h.used m fun hmem => hm (mem_cons_of_mem n hmem)

theorem listed_change (m : Node) (hm : τ.orphan = some m) : m ∈ (τ.change n).dirty :=
  mem_cons_of_mem n (h.listed m hm)

/-- An inode changes in memory, but for its blocks and its successor on the list. -/
theorem change (hf : ∀ i, (f i).nextOrphan = i.nextOrphan) (hb : ∀ i, (f i).blocks = i.blocks) :
    Mid s (s₁.modify n f) (τ.change n) := by
  refine ⟨h.core_change, h.written_change, h.kept_change, fun m i i' hx hi hi' => ?_, h.orphan,
    fun m i' hx hi' => ?_, fun m i' hi' => ?_, h.busy, h.used_change, h.listed_change⟩
  · obtain ⟨j, hj, hij⟩ := kept_of_core_modify hi' hf
    exact hij.trans (h.next m i j hx hi hj)
  · obtain ⟨j, hj, hij⟩ := kept_of_core_modify hi' hf
    exact hij.trans (h.newNext m j hx hj)
  · obtain ⟨j, hj, hij⟩ := kept_of_core_modify hi' hb
    exact hij.trans (h.blocks m j hj)

/-- An inode gets blocks. -/
theorem grow (bs : List Nat) : Mid s (s₁.addBlocks n bs) (τ.grow n bs) := by
  refine ⟨h.core_change, h.written_change, h.kept_change, fun m i i' hx hi hi' => ?_, h.orphan,
    fun m i' hx hi' => ?_, fun m i' hi' => ?_, fun sb b => ?_, h.used_change, h.listed_change⟩
  · obtain ⟨j, hj, hij⟩ := kept_of_core_modify (p := Inode.nextOrphan) hi' fun _ => rfl
    exact hij.trans (h.next m i j hx hi hj)
  · obtain ⟨j, hj, hij⟩ := kept_of_core_modify (p := Inode.nextOrphan) hi' fun _ => rfl
    exact hij.trans (h.newNext m j hx hj)
  · by_cases hm : m = n
    · subst hm
      obtain ⟨j, hj, rfl⟩ := exists_of_core_modify hi'
      rw [h.blocks m j hj, append_assoc]
      simp [Trace.grow]
    · rw [h.blocks m i' ((core_modify_of_ne hm).symm.trans hi')]
      simp [Trace.grow, hm]
  · have hb : (s₁.addBlocks n bs).busy sb b = true ↔
        s₁.busy sb b = true ∨ (sb = n.sb ∧ b ∈ bs) := by
      by_cases hsb : sb = n.sb
      · subst hsb
        simp [addBlocks, or_comm]
      · simp [addBlocks, hsb]
    rw [hb, h.busy sb b, or_assoc]
    apply or_congr_right
    constructor
    · rintro (⟨m, hm, hmem⟩ | ⟨rfl, hmem⟩)
      · refine ⟨m, hm, ?_⟩
        by_cases hmn : m = n
        · subst hmn
          simp [Trace.grow, hmem]
        · simpa [Trace.grow, hmn] using hmem
      · exact ⟨n, rfl, by simp [Trace.grow, hmem]⟩
    · rintro ⟨m, hm, hmem⟩
      by_cases hmn : m = n
      · subst hmn
        simp only [Trace.grow, update_self, mem_append] at hmem
        rcases hmem with hmem | hmem
        · exact .inl ⟨m, hm, hmem⟩
        · exact .inr ⟨hm.symm, hmem⟩
      · exact .inl ⟨m, hm, by simpa [Trace.grow, hmn] using hmem⟩

/-- An inode is put on the list, the first of the operation. -/
theorem putOrphan (hτ : τ.orphan = none) : Mid s (s₁.brkfsOrphanAdd n.sb n) (τ.putOrphan n) := by
  have horphan : s₁.orphan = s.orphan := by
    rw [h.orphan, hτ]
    rfl
  refine ⟨h.core_change, h.written_change, h.kept_change, fun m i i' hx hi hi' => ?_, ?_,
    fun m i' hx hi' => ?_, fun m i' hi' => ?_, h.busy, h.used_change, fun m hx => ?_⟩
  · have hm : m ≠ n := fun he => hx (by rw [he]; rfl)
    exact h.next m i i' (by rw [hτ]; exact Option.some_ne_none m) hi
      ((core_modify_of_ne hm).symm.trans hi')
  · show update s₁.orphan n.sb n.ino = _
    rw [horphan]
    rfl
  · obtain rfl : n = m := Option.some.inj hx
    obtain ⟨j, hj, rfl⟩ := exists_of_core_modify hi'
    rw [horphan]
  · obtain ⟨j, hj, hij⟩ := kept_of_core_modify (p := Inode.blocks) hi' fun _ => rfl
    exact hij.trans (h.blocks m j hj)
  · obtain rfl : n = m := Option.some.inj hx
    exact mem_cons_self

/-- An inode is written to its slot. -/
theorem write : Mid s (s₁.setTable n (s₁.core n)) (τ.write n) := by
  refine ⟨h.core, fun m hm => ?_, fun m hm hw => ?_, h.next, h.orphan, h.newNext, h.blocks,
    h.busy, h.used, h.listed⟩
  · by_cases hmn : m = n
    · subst hmn
      simp [setTable]
    · have hm' : m ∈ τ.written := by simpa [Trace.write, hmn] using hm
      simpa [setTable, hmn] using h.written m hm'
  · simp only [Trace.write, mem_cons, not_or] at hw
    simpa [setTable, hw.1] using h.kept m hm hw.2

end

/-- An inode comes into memory. -/
theorem enter (hm : s.Mounted) (hn : s.core n = none) (hb : i.blocks = s.blocksOf n)
    (hW : ∀ m ∈ W, m = n) : Mid s (s.enter n i) ⟨[n], W, none, fun _ => []⟩ := by
  have hother : ∀ m, m ≠ n → (s.enter n i).core m = s.core m := by
    intro m hmn
    simp [Sys.enter, hmn]
  refine ⟨fun m hmem => ?_, fun m hmem => ?_, fun m hmem _ => ?_, fun m j j' _ hj hj' => ?_, rfl,
    (fun _ _ h => nomatch h), fun m j' hj' => ?_, fun sb b => by simp [Sys.enter],
    fun m hmem => ?_, (fun _ h => nomatch h)⟩
  · exact hother m (by simpa using hmem)
  · obtain rfl := hW m hmem
    simp [Sys.enter]
  · have hmn : m ≠ n := by simpa using hmem
    simp [Sys.enter, hmn]
  · have hmn : m ≠ n := by
      rintro rfl
      rw [hn] at hj
      cases hj
    rw [hother m hmn, hj] at hj'
    rw [Option.some.inj hj']
  · rw [append_nil]
    by_cases hmn : m = n
    · subst hmn
      obtain rfl : i = j' := by simpa [Sys.enter] using hj'
      exact hb
    · rw [hother m hmn] at hj'
      exact (blocksOf_of_core (hm.loaded m j' hj').1 hj').symm
  · have hmn : m ≠ n := by simpa using hmem
    simp [Sys.enter, hmn]

end Mid

namespace Leaves

variable {s s₁ s₂ : Sys} {t : Tree} {τ : Trace} {d n : Node} {name : Name}

theorem refl (hm : s.Mounted) : Leaves s s s.tree .start :=
  ⟨rfl, hm, rfl, (fun _ h => h.elim id fun h => nomatch h), Mid.refl hm⟩

/-- A part that changes an inode in memory and leaves the others alone. -/
theorem of_touch (h : Leaves s s₁ t τ) {t' : Tree} {τ' : Trace} (ht : s₁.Touch s₂)
    (htree : s₂.tree = t') (ho : s₂.orphaned = τ'.orphan.toList ++ s.orphaned)
    (hd : ∀ m ∈ τ'.dirty, m ∈ τ.dirty ∨ (s₁.core m).isSome) (hmid : Mid s s₂ τ') :
    Leaves s s₂ t' τ' := by
  refine ⟨htree, ht.mounted h.mounted, ho, fun m hm => ?_, hmid⟩
  rw [ht.isSome_core m]
  rcases hm with hm | hm
  · exact h.stays m (.inl hm)
  · rcases hd m hm with hm | hm
    · exact h.stays m (.inr hm)
    · exact hm

/-- The dirty inodes after another change. -/
theorem dirty_change (hc : (s₁.core n).isSome) :
    ∀ m ∈ (τ.change n).dirty, m ∈ τ.dirty ∨ (s₁.core m).isSome := by
  intro m hm
  rcases mem_cons.mp hm with rfl | hm
  · exact .inr hc
  · exact .inl hm

theorem enter (hm : s.Mounted) (hd : (s.core d).isSome) (hsb : n.sb = d.sb)
    (hv : s.validIno n.sb n.ino) (hn : s.core n = none) (hk : i.kind ≠ .unknown)
    (hb : i.blocks = s.blocksOf n) (hW : ∀ m ∈ W, m = n) :
    Leaves s (s.enter n i) { s.tree with stat := update s.tree.stat n (some i.stat) }
      ⟨[n], W, none, fun _ => []⟩ := by
  refine ⟨tree_enter, mounted_enter hm hd hsb hv hk, rfl, fun m hmem => ?_, Mid.enter hm hn hb hW⟩
  by_cases hmn : m = n
  · subst hmn
    simp [Sys.enter]
  · simpa [Sys.enter, hmn] using hmem

/-- A new inode is set up. -/
theorem fresh (nlink : Nat) (hm : s.Mounted) (hd : (s.core d).isSome) (hsb : n.sb = d.sb)
    (hfree : s.used n = false) (hv : s.validIno n.sb n.ino) (hk : kind ≠ .unknown) :
    Leaves s (s.fresh n kind nlink)
      { s.tree with stat := update s.tree.stat n (some ⟨kind, nlink⟩) } (start.change n) := by
  exact enter hm hd hsb hv (hm.core_eq_none hfree) hk (by simp [blocksOf, hfree]) nofun

/-- An inode that is not in memory is loaded. -/
theorem load (hm : s.Mounted) (hd : (s.core d).isSome) (hsb : n.sb = d.sb) (hu : s.used n)
    (hv : s.validIno n.sb n.ino) (hnone : s.core n = none) (ht : s.table n = some i) :
    Leaves s (s.setCore n (some i)) s.tree ((start.change n).write n) := by
  have hstate : s.enter n i = s.setCore n (some i) := by
    unfold Sys.enter setCore
    rw [← hu, ← ht, update_eq_self, update_eq_self]
  have hst : update s.tree.stat n (some i.stat) = s.tree.stat :=
    update_eq_self_iff.2 (by simp [Sys.tree, stat, inode, hu, hnone, ht])
  have h := enter (W := [n]) hm hd hsb hv hnone (hm.slot n i hu ht)
    (by simp [blocksOf, inode, hu, hnone, ht]) fun m => mem_singleton.mp
  rw [hstate, hst] at h
  exact h

section

variable (h : Leaves s s₁ t τ)

include h

theorem write (hc : (s₁.core n).isSome) (hsb : n.sb = sb)
    (hw : s₁.brkfsInodeWrite sb n fault = (.ok (), s₂)) : Leaves s s₂ t (τ.write n) := by
  subst hsb
  obtain rfl := brkfsInodeWrite_eq_ok hw
  exact h.of_touch (touch_setTable _ _) ((tree_setTable hc _).trans h.tree) h.orphaned
    (fun m hm => .inl hm) h.mid.write

theorem grow (bs : List Nat) (hc : (s₁.core n).isSome) :
    Leaves s (s₁.addBlocks n bs) t (τ.grow n bs) :=
  h.of_touch (touch_addBlocks _ _ _) ((tree_addBlocks _ _ _).trans h.tree) h.orphaned
    (dirty_change hc) (h.mid.grow bs)

theorem fileWrite (hc : (s₁.core n).isSome)
    (hf : s₁.brkfsFileWriteAt n bs fault = (.ok (), s₂)) : Leaves s s₂ t (τ.grow n bs) := by
  cases fault with
  | some x => cases hf
  | none =>
    cases hf
    exact h.grow bs hc

/-- The body of a new directory, which had no entries. -/
theorem newDirBody (hc : (s₁.core n).isSome)
    (hnone : ∀ name, s₁.entry n name = none) (hf : s₁.brkfsNewDirBody n bs fault = (.ok (), s₂)) :
    Leaves s s₂ t (τ.grow n bs) := by
  cases fault with
  | some x => cases hf
  | none =>
    cases hf
    have hdir : update s₁.dir n ∅ = s₁.dir := update_eq_self_iff.2 <| Finmap.ext_lookup fun name =>
      (Finmap.lookup_empty name).trans (hnone name).symm
    rw [hdir]
    exact h.grow bs hc

theorem addName (hc : (s₁.core d).isSome)
    (ha : s₁.brkfsDirAdd d ino name kind bs fault = (.ok (), s₂)) :
    Leaves s s₂ { t with child := update t.child (d, name) (some ⟨d.sb, ino⟩) } (τ.grow d bs) := by
  obtain ⟨-, rfl⟩ := brkfsDirAdd_eq_ok ha
  have hgrow := h.grow (n := d) bs hc
  refine hgrow.of_touch (touch_insertEntry _ _ _ _) ?_ h.orphaned (fun m hm => .inl hm)
    (hgrow.mid.of_eq rfl rfl rfl rfl rfl)
  rw [tree_of_entry (entry_insertEntry _ d name ino) rfl, tree_addBlocks, h.tree]
  rfl

theorem dropName (hr : s₁.brkfsDirRemove d name fault = (.ok (), s₂)) :
    Leaves s s₂ { t with child := update t.child (d, name) none } τ := by
  obtain rfl := brkfsDirRemove_eq_ok hr
  refine h.of_touch (touch_eraseEntry _ _ _) ?_ h.orphaned (fun m hm => .inl hm)
    (h.mid.of_eq rfl rfl rfl rfl rfl)
  rw [tree_of_entry (entry_eraseEntry _ d name) rfl, h.tree]
  rfl

theorem orphan (hsb : n.sb = sb) (hc : (s₁.core n).isSome)
    (hτ : τ.orphan = none) : Leaves s (s₁.brkfsOrphanAdd sb n) t (τ.putOrphan n) := by
  subst hsb
  refine h.of_touch (touch_brkfsOrphanAdd _ _ _)
    ((tree_brkfsOrphanAdd _ _ _).trans h.tree) ?_ (dirty_change hc) (h.mid.putOrphan hτ)
  have ho := h.orphaned
  rw [hτ] at ho
  exact congrArg (n :: ·) ho

/-- A part of a call that keeps the types and counts keeps the directories. -/
theorem isDir (hm : s.Mounted) (hc : (s.core n).isSome)
    (hst : t.stat = s.tree.stat) : s₁.isDir n = s.isDir n := by
  apply Bool.eq_iff_iff.mpr
  rw [isDir_iff_tree h.mounted (h.stays n (.inl hc)), h.tree, isDir_iff_tree hm hc,
    Tree.isDir_congr hst]

section Count

variable {st : Stat}

/-- The copy in memory of a node with a known count. -/
theorem exists_core (hc : (s₁.core n).isSome) (hst : t.stat n = some st) :
    ∃ i, s₁.core n = some i ∧ s₁.used n ∧ i.nlink = st.nlink := by
  obtain ⟨i, hi, hu, hi'⟩ := stat_of_isSome h.mounted hc
  rw [h.tree, hst] at hi'
  exact ⟨i, hi, hu, (congrArg Stat.nlink (Option.some.inj hi')).symm⟩

/-- The count of an inode changes in memory. -/
theorem count (hu : s₁.used n) (hi : s₁.core n = some i)
    (hf : ∀ i, f i = { i with nlink := (f i).nlink }) (hg : (f i).nlink = g i.nlink) :
    Leaves s (s₁.modify n f) (t.setNlink n g) (τ.change n) := by
  have hk : ∀ i, (f i).kind = i.kind := fun i => by rw [hf]
  refine h.of_touch (touch_modify _ n hk) ?_ h.orphaned (dirty_change (by rw [hi]; rfl))
    (h.mid.change (fun i => by rw [hf]) fun i => by rw [hf])
  rw [tree_modify hu hi (hk i) hg, h.tree]

section

variable (hc : (s₁.core n).isSome)

include hc

theorem dec (hst : t.stat n = some st) (h0 : 0 < st.nlink) (hb : st.nlink < 4294967296) :
    Leaves s (s₁.decNlink n) (t.setNlink n (· - 1)) (τ.change n) := by
  obtain ⟨i, hi, hu, hn⟩ := h.exists_core hc hst
  rw [← hn] at h0 hb
  exact h.count hu hi (fun _ => rfl) (u32_pred h0 hb)

theorem inc (hst : t.stat n = some st) (hb : st.nlink + 1 < 4294967296) :
    Leaves s (s₁.incNlink n) (t.setNlink n (· + 1)) (τ.change n) := by
  obtain ⟨i, hi, hu, hn⟩ := h.exists_core hc hst
  rw [← hn] at hb
  exact h.count hu hi (fun _ => rfl) (u32_of_lt hb)

theorem zero : Leaves s (s₁.setNlink n 0) (t.setNlink n fun _ => 0) (τ.change n) := by
  obtain ⟨i, hi, hu, -⟩ := stat_of_isSome h.mounted hc
  exact h.count hu hi (fun _ => rfl) rfl

end

end Count

end

end Leaves

end BrkKernel.Names
