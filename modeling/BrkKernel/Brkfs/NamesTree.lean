import BrkKernel.Brkfs.Names
import BrkKernel.Lib.Links

/-!
# Link counts of a tree of names

The part of a volume that its link counts are about: what each directory has for each name, and the
type and the link count of each allocated inode. `Tree.Sound` says that the counts are right. For a
file the number of its names and its count stand in a relation, which is equality as long as no
directory with names in it goes away, and `≤` after that.

The operations on names are transitions of the tree: a new inode, another name for a file, a name
less for a file, a directory that goes, and a name that moves. Each keeps the counts right.
-/

set_option autoImplicit false

namespace BrkKernel.Names

open Lib Function Set Option

/-- `BRKFS_ROOT_INO`. -/
def rootIno : Nat := 1

/-- The type and the link count of an inode. -/
structure Stat where
  kind : Kind
  nlink : Nat

variable {st : Stat} {R : ℕ∞ → Nat → Prop} {v : Option Node}

/-- The names of the volumes. -/
structure Tree where
  child : Node × Name → Option Node
  stat : Node → Option Stat

/-! ## Counts of one inode -/

/-- How the number of the names of a file and its link count are compared. -/
structure Comparison (R : ℕ∞ → Nat → Prop) : Prop where
  zero : R 0 0
  succ : ∀ a b, R (a + 1) (b + 1) ↔ R a b
  pos : ∀ a, ¬ R (a + 1) 0

theorem comparison_eq : Comparison fun a b => a = b where
  zero := rfl
  succ a b := by
    rw [Nat.cast_add, Nat.cast_one]
    exact (ENat.add_left_injective_of_ne_top ENat.one_ne_top).eq_iff
  pos a h := by simp at h

theorem comparison_le : Comparison fun a b => a ≤ b where
  zero := le_refl _
  succ a b := by
    rw [Nat.cast_add, Nat.cast_one]
    exact ENat.add_le_add_iff_right ENat.one_ne_top
  pos a h := by simp at h

/-- The count of an inode with the names `L` and, if it is a directory, the directories `S` in it.
A directory that has been removed or replaced has no name and counts nothing. -/
structure Counted (R : ℕ∞ → Nat → Prop) (root : Prop) (st : Stat) (L : Set (Node × Name))
    (S : Set Name) : Prop where
  bound : st.nlink < 4294967296
  file : st.kind ≠ .dir → R L.encard st.nlink
  single : st.kind = .dir → L.Subsingleton
  folder : st.kind = .dir → root ∨ L.Nonempty → (st.nlink : ℕ∞) = 2 + S.encard
  gone : st.kind = .dir → ¬ (root ∨ L.Nonempty) → st.nlink = 0 ∧ S = ∅

namespace Counted

variable {R : ℕ∞ → Nat → Prop} {root : Prop} {st : Stat} {L : Set (Node × Name)} {S : Set Name}
  {k k' : Node × Name} {name : Name}

section

variable (h : Counted R root st L S) (hR : Comparison R) (hk : st.kind ≠ .dir)

include h hR hk

/-- A file has one more name. -/
theorem addName (hnew : k ∉ L) (hb : st.nlink + 1 < 4294967296) :
    Counted R root ⟨st.kind, st.nlink + 1⟩ (insert k L) S where
  bound := hb
  file _ := by
    rw [encard_insert_of_notMem hnew]
    exact (hR.succ _ _).mpr (h.file hk)
  single hd := absurd hd hk
  folder hd := absurd hd hk
  gone hd := absurd hd hk

/-- A file with a name counts at least one. -/
theorem nlink_pos (hmem : k ∈ L) : 0 < st.nlink := by
  have hf := h.file hk
  rw [← encard_sdiff_singleton_add_one hmem] at hf
  apply pos_of_ne_zero
  intro h0
  rw [h0] at hf
  exact hR.pos _ hf

/-- A file has one name less. -/
theorem dropName (hmem : k ∈ L) : Counted R root ⟨st.kind, st.nlink - 1⟩ (L \ {k}) S where
  bound := lt_of_le_of_lt (Nat.sub_le _ _) h.bound
  file _ := by
    have hpos := h.nlink_pos hR hk hmem
    have hf := h.file hk
    rw [← encard_sdiff_singleton_add_one hmem, ← Nat.sub_add_cancel hpos] at hf
    exact (hR.succ _ _).mp hf
  single hd := absurd hd hk
  folder hd := absurd hd hk
  gone hd := absurd hd hk

end

section

variable (h : Counted R root st L S) (hd : st.kind = .dir)

include h hd

/-- A directory other than the root, with no directory in it, loses its one name. -/
theorem removed (hroot : ¬ root) (hmem : k ∈ L) (hS : S = ∅) :
    Counted R root ⟨st.kind, 0⟩ (L \ {k}) S where
  bound := Nat.zero_lt_succ _
  file hk := absurd hd hk
  single _ := (h.single hd).anti sdiff_subset
  folder _ hl := by
    rcases hl with hl | ⟨x, hx, hne⟩
    · exact absurd hl hroot
    · exact absurd (h.single hd hx hmem) hne
  gone _ _ := ⟨rfl, hS⟩

/-- A directory that counts something is the root or has a name. -/
theorem linked_of_ne_zero (h0 : st.nlink ≠ 0) : root ∨ L.Nonempty := by
  by_contra hl
  exact h0 (h.gone hd hl).1

/-- A directory that is the root or has a name counts two at least. -/
theorem two_le_nlink (hl : root ∨ L.Nonempty) : 2 ≤ st.nlink := by
  have hf := h.folder hd hl
  have hle : ((2 : Nat) : ℕ∞) ≤ st.nlink := by
    rw [hf]
    exact le_self_add
  exact Nat.cast_le.mp hle

/-- A directory gets a directory. -/
theorem addSub (hl : root ∨ L.Nonempty) (hnew : name ∉ S) (hb : st.nlink + 1 < 4294967296) :
    Counted R root ⟨st.kind, st.nlink + 1⟩ L (insert name S) where
  bound := hb
  file hk := absurd hd hk
  single := h.single
  folder _ _ := by
    rw [encard_insert_of_notMem hnew, Nat.cast_add, Nat.cast_one, h.folder hd hl, add_assoc]
  gone _ hn := absurd hl hn

/-- A directory with a directory in it is the root or has a name. -/
theorem linked_of_sub (hmem : name ∈ S) : root ∨ L.Nonempty := by
  by_contra hl
  rw [(h.gone hd hl).2] at hmem
  exact hmem

theorem nlink_pos_of_sub (hmem : name ∈ S) : 0 < st.nlink := by
  have h2 := h.two_le_nlink hd (h.linked_of_sub hd hmem)
  omega

/-- A directory loses a directory. -/
theorem dropSub (hmem : name ∈ S) : Counted R root ⟨st.kind, st.nlink - 1⟩ L (S \ {name}) where
  bound := lt_of_le_of_lt (Nat.sub_le _ _) h.bound
  file hk := absurd hd hk
  single := h.single
  folder _ hl := by
    have hf := h.folder hd hl
    have hpos := h.nlink_pos_of_sub hd hmem
    rw [← encard_sdiff_singleton_add_one hmem, ← Nat.sub_add_cancel hpos, Nat.cast_add,
      Nat.cast_one, ← add_assoc] at hf
    exact ENat.add_left_injective_of_ne_top ENat.one_ne_top hf
  gone _ hl := absurd (h.linked_of_sub hd hmem) hl

end

/-- A name is exchanged for another. -/
theorem move (h : Counted R root st L S) (hmem : k ∈ L) (hnew : k' ∉ L) :
    Counted R root st (insert k' L \ {k}) S where
  bound := h.bound
  file hk := by
    rw [encard_exchange' hnew hmem]
    exact h.file hk
  single hd := by
    rintro x ⟨hx | hx, hxk⟩ y ⟨hy | hy, hyk⟩
    · rw [hx, hy]
    · exact absurd (h.single hd hy hmem) hyk
    · exact absurd (h.single hd hx hmem) hxk
    · exact h.single hd hx hy
  folder hd _ := h.folder hd (.inr ⟨k, hmem⟩)
  gone hd hl := by
    refine absurd (.inr ⟨k', ?_⟩) hl
    exact ⟨mem_insert k' L, fun he => hnew (mem_singleton_iff.mp he ▸ hmem)⟩

/-- A directory in it gets another name. -/
theorem moveSub {name' : Name} (h : Counted R root st L S) (hd : st.kind = .dir)
    (hmem : name ∈ S) (hnew : name' ∉ S) : Counted R root st L (insert name' S \ {name}) where
  bound := h.bound
  file hk := absurd hd hk
  single := h.single
  folder _ hl := by
    rw [encard_exchange' hnew hmem]
    exact h.folder hd hl
  gone _ hl := absurd (h.linked_of_sub hd hmem) hl

end Counted

/-! ## Counts of a tree -/

namespace Tree

/-- The inode is a directory. -/
def isDir (t : Tree) (n : Node) : Prop := (t.stat n).map Stat.kind = some .dir

/-- The names of an inode, in all directories. -/
def links (t : Tree) (n : Node) : Set (Node × Name) := refs t.child n

/-- The names in a directory that are directories. -/
def subdirs (t : Tree) (d : Node) : Set Name := below t.child t.isDir d

/-- The counts are right, and what the names stand for are inodes. -/
structure Sound (R : ℕ∞ → Nat → Prop) (t : Tree) : Prop where
  target : ∀ k n, t.child k = some n → (t.stat n).isSome ∧ n.ino ≠ rootIno ∧ n.sb = k.1.sb
  parent : ∀ k n, t.child k = some n → t.isDir k.1
  counted : ∀ n st, t.stat n = some st →
    Counted R (n.ino = rootIno) st (t.links n) (t.subdirs n)

theorem Sound.mono {R' : ℕ∞ → Nat → Prop} {t : Tree} (h : Sound R t) (hR : ∀ a b, R a b → R' a b) :
    Sound R' t where
  target := h.target
  parent := h.parent
  counted n st hst :=
    have hc := h.counted n st hst
    ⟨hc.bound, fun hk => hR _ _ (hc.file hk), hc.single, hc.folder, hc.gone⟩

/-- A change of a link count. -/
def setNlink (t : Tree) (n : Node) (f : Nat → Nat) : Tree :=
  { t with stat := update t.stat n ((t.stat n).map fun st => ⟨st.kind, f st.nlink⟩) }

/-- A new inode with a name. -/
def create (t : Tree) (k : Node × Name) (n : Node) (st : Stat) : Tree :=
  ⟨update t.child k (some n), update t.stat n (some st)⟩

/-- A new directory. -/
def mkdir (t : Tree) (k : Node × Name) (n : Node) : Tree :=
  (t.create k n ⟨.dir, 2⟩).setNlink k.1 (· + 1)

/-- Another name for a file. -/
def link (t : Tree) (k : Node × Name) (n : Node) : Tree :=
  { t.setNlink n (· + 1) with child := update t.child k (some n) }

/-- A name less for a file. -/
def unlink (t : Tree) (k : Node × Name) (n : Node) : Tree :=
  { t.setNlink n (· - 1) with child := update t.child k none }

/-- A directory goes. -/
def rmdir (t : Tree) (k : Node × Name) (n : Node) : Tree :=
  { (t.setNlink k.1 (· - 1)).setNlink n (fun _ => 0) with
    child := update t.child k none }

/-- An inode is freed, with the names it has. -/
def drop (t : Tree) (n : Node) : Tree :=
  ⟨fun k => if k.1 = n then none else t.child k, update t.stat n none⟩

/-- A name moves. -/
def move (t : Tree) (old new : Node × Name) (n : Node) : Tree :=
  { t with child := update (update t.child new (some n)) old none }

section Facts

variable {t t' : Tree} {n m : Node} {f : Nat → Nat} {st : Stat} (k : Node × Name)

theorem isDir_iff (h : t.stat n = some st) : t.isDir n ↔ st.kind = .dir := by
  simp [isDir, h]

theorem isDir_of_isDir (h : t.isDir n) : ∃ c, t.stat n = some ⟨.dir, c⟩ := by
  obtain ⟨st, hst, hk⟩ := map_eq_some_iff.mp h
  exact ⟨st.nlink, by rw [hst, ← hk]⟩

theorem stat_setNlink_self (h : t.stat n = some st) :
    (t.setNlink n f).stat n = some ⟨st.kind, f st.nlink⟩ := by
  simp [setNlink, h]

theorem stat_setNlink_of_ne (h : m ≠ n) : (t.setNlink n f).stat m = t.stat m := by
  simp [setNlink, h]

@[simp] theorem isDir_setNlink : (t.setNlink n f).isDir = t.isDir := by
  funext m
  by_cases hm : m = n
  · subst hm
    cases hst : t.stat m with
    | none | some st => simp [isDir, setNlink, hst]
  · simp [isDir, stat_setNlink_of_ne hm]

theorem isDir_congr (h : t'.stat = t.stat) : t'.isDir = t.isDir := by
  funext m
  rw [isDir, isDir, h]

theorem stat_link : (t.link k n).stat = (t.setNlink n (· + 1)).stat := rfl

theorem stat_unlink : (t.unlink k n).stat = (t.setNlink n (· - 1)).stat := rfl

theorem stat_rmdir :
    (t.rmdir k n).stat = ((t.setNlink k.1 (· - 1)).setNlink n fun _ => 0).stat := rfl

theorem isDir_unlink : (t.unlink k n).isDir = t.isDir :=
  (isDir_congr (stat_unlink k)).trans isDir_setNlink

theorem isDir_rmdir : (t.rmdir k n).isDir = t.isDir :=
  (isDir_congr (stat_rmdir k)).trans (isDir_setNlink.trans isDir_setNlink)

/-- A node that a change does not touch. -/
theorem Sound.carry (h : Sound R t) (hst : t'.stat m = t.stat m)
    (hl : t'.links m = t.links m) (hs : t'.subdirs m = t.subdirs m) (hm : t'.stat m = some st) :
    Counted R (m.ino = rootIno) st (t'.links m) (t'.subdirs m) := by
  rw [hl, hs]
  exact h.counted m st (hst.symm.trans hm)

/-- No name stands for an inode that is not allocated. -/
theorem Sound.ne_of_stat_none (h : Sound R t) (hn : t.stat n = none) (k : Node × Name) :
    t.child k ≠ some n := by
  intro hk
  have hsome := (h.target k n hk).1
  rw [hn] at hsome
  cases hsome

theorem Sound.links_eq_empty (h : Sound R t) (hn : t.stat n = none) : t.links n = ∅ := by
  ext k
  simp only [links, mem_refs, mem_empty_iff_false, iff_false]
  exact h.ne_of_stat_none hn k

theorem not_isDir_of_stat_none (hn : t.stat n = none) : ¬ t.isDir n := by
  simp [isDir, hn]

end Facts

/-! ## Transitions -/

section Transitions

variable {R : ℕ∞ → Nat → Prop} {t t' : Tree} {k : Node × Name} {n : Node}

/-- A place is filled or emptied: what is left to show are the counts. -/
theorem Sound.place (h : Sound R t) (hchild : t'.child = update t.child k v)
    (hstat : ∀ m, (t.stat m).isSome → (t'.stat m).isSome) (hdir : ∀ m, t.isDir m → t'.isDir m)
    (hv : ∀ n, v = some n →
      t.isDir k.1 ∧ (t'.stat n).isSome ∧ n.ino ≠ rootIno ∧ n.sb = k.1.sb)
    (hcount : ∀ m st, t'.stat m = some st →
      Counted R (m.ino = rootIno) st (t'.links m) (t'.subdirs m)) : Sound R t' := by
  refine ⟨fun k' m hm => ?_, fun k' m hm => ?_, hcount⟩
  · rw [hchild] at hm
    by_cases hk' : k' = k
    · subst hk'
      exact (hv m (by simpa using hm)).2
    · rw [update_of_ne hk'] at hm
      exact ⟨hstat m (h.target k' m hm).1, (h.target k' m hm).2⟩
  · rw [hchild] at hm
    by_cases hk' : k' = k
    · subst hk'
      exact hdir _ (hv m (by simpa using hm)).1
    · rw [update_of_ne hk'] at hm
      exact hdir _ (h.parent k' m hm)

theorem isSome_stat_setNlink (m : Node) (f : Nat → Nat) :
    ((t.setNlink n f).stat m).isSome = (t.stat m).isSome := by
  by_cases hm : m = n
  · subst hm
    simp [setNlink]
  · rw [stat_setNlink_of_ne hm]

/-- A place is filled with a file or emptied of it: what is left to show is the file's count. -/
theorem Sound.file (h : Sound R t)
    (hplace : t.child k = none ∧ v = some n ∨ t.child k = some n ∧ v = none)
    (hchild : t'.child = update t.child k v) (hfile : ¬ t.isDir n) (hn : t'.stat n = some st)
    (hkind : st.kind ≠ .dir) (hother : ∀ m, m ≠ n → t'.stat m = t.stat m)
    (hv : v = some n → t.isDir k.1 ∧ n.ino ≠ rootIno ∧ n.sb = k.1.sb)
    (hcount : Counted R (n.ino = rootIno) st (t'.links n) (t.subdirs n)) : Sound R t' := by
  have hdir : t'.isDir = t.isDir := by
    funext m
    by_cases hm : m = n
    · subst hm
      exact propext ⟨fun hc => absurd ((isDir_iff hn).mp hc) hkind, fun hc => absurd hc hfile⟩
    · rw [isDir, isDir, hother m hm]
  have hsub : ∀ m, t'.subdirs m = t.subdirs m := by
    intro m
    unfold subdirs
    rw [hdir, hchild]
    rcases hplace with ⟨hk, rfl⟩ | ⟨hk, rfl⟩
    · exact below_fill_of_not hk hfile
    · exact below_empty_of_not hk hfile
  have hlinks : ∀ m, m ≠ n → t'.links m = t.links m := by
    intro m hm
    unfold links
    rw [hchild]
    rcases hplace with ⟨hk, rfl⟩ | ⟨hk, rfl⟩
    · exact refs_fill_of_ne hk hm
    · exact refs_empty_of_ne hk hm
  refine h.place hchild (fun m hm => ?_) (fun m hm => hdir ▸ hm) (fun x hx => ?_) fun m st hst => ?_
  · by_cases hmn : m = n
    · rw [hmn, hn]
      rfl
    · rwa [hother m hmn]
  · rcases hplace with ⟨-, rfl⟩ | ⟨-, rfl⟩
    · cases hx
      exact ⟨(hv rfl).1, by rw [hn]; rfl, (hv rfl).2⟩
    · cases hx
  · by_cases hmn : m = n
    · subst hmn
      obtain rfl := some.inj (hn.symm.trans hst)
      rw [hsub]
      exact hcount
    · exact h.carry (hother m hmn) (hlinks m hmn) (hsub m) hst

section

variable (h : Sound R t) (hk : t.child k = none) (hroot : n.ino ≠ rootIno) (hsb : n.sb = k.1.sb)

include h hk hroot hsb

theorem Sound.create (hR : Comparison R) {kind : Kind} (hd : t.isDir k.1) (hn : t.stat n = none)
    (hkind : kind ≠ .dir) : Sound R (t.create k n ⟨kind, 1⟩) := by
  have hlinks : (t.create k n ⟨kind, 1⟩).links n = insert k ∅ := by
    rw [← h.links_eq_empty hn]
    exact refs_fill
  apply h.file (.inl ⟨hk, rfl⟩) rfl (not_isDir_of_stat_none hn) (update_self _ _ _) hkind
    (fun m hm => update_of_ne hm _ _) fun _ => ⟨hd, hroot, hsb⟩
  rw [hlinks]
  refine ⟨Nat.lt_of_sub_eq_succ rfl, fun _ => ?_, fun hc => absurd hc hkind,
    fun hc => absurd hc hkind, fun hc => absurd hc hkind⟩
  rw [encard_insert_of_notMem (notMem_empty k), encard_empty]
  exact (hR.succ 0 0).mpr hR.zero

/-- A directory is made in a directory that counts something. -/
theorem Sound.mkdir {c : Nat} (hd : t.stat k.1 = some ⟨.dir, c⟩) (hc : c ≠ 0)
    (hb : c + 1 < 4294967296) (hn : t.stat n = none) : Sound R (t.mkdir k n) := by
  have hnd : k.1 ≠ n := fun he => by simp [he, hn] at hd
  have hdirk : t.isDir k.1 := (isDir_iff hd).mpr rfl
  have hself : (t.mkdir k n).stat n = some ⟨.dir, 2⟩ := by
    rw [Tree.mkdir, stat_setNlink_of_ne hnd.symm]
    exact update_self _ _ _
  have hparent : (t.mkdir k n).stat k.1 = some ⟨.dir, c + 1⟩ := by
    have hcreate : (t.create k n ⟨.dir, 2⟩).stat k.1 = some ⟨.dir, c⟩ :=
      (update_of_ne hnd _ _).trans hd
    exact stat_setNlink_self hcreate
  have hother : ∀ m, m ≠ n → m ≠ k.1 → (t.mkdir k n).stat m = t.stat m := by
    intro m hm hm'
    rw [Tree.mkdir, stat_setNlink_of_ne hm']
    exact update_of_ne hm _ _
  have hdir : ∀ m, m ≠ n → ((t.mkdir k n).isDir m ↔ t.isDir m) := by
    intro m hm
    rw [Tree.mkdir, isDir_setNlink]
    simp [isDir, Tree.create, hm]
  have hbelow : ∀ m, below t.child (t.mkdir k n).isDir m = t.subdirs m := by
    intro m
    apply below_congr
    intro x v hv
    exact hdir v fun he => h.ne_of_stat_none hn (m, x) (he ▸ hv)
  have hlinks : ∀ m, m ≠ n → (t.mkdir k n).links m = t.links m :=
    fun m hm => refs_fill_of_ne hk hm
  have hsub : ∀ m, m ≠ k.1 → (t.mkdir k n).subdirs m = t.subdirs m :=
    fun m hm => (below_update_of_ne _ hm).trans (hbelow m)
  apply h.place rfl ?_ ?_ (by rintro _ ⟨rfl⟩; exact ⟨hdirk, by rw [hself]; rfl, hroot, hsb⟩)
  · intro m st hst
    by_cases hm : m = n
    · subst hm
      obtain rfl : st = ⟨.dir, 2⟩ := some.inj (hst.symm.trans hself)
      have hl : (t.mkdir k m).links m = {k} := by
        rw [← insert_empty_eq, ← h.links_eq_empty hn]
        exact refs_fill
      have hs : (t.mkdir k m).subdirs m = ∅ := by
        rw [hsub m hnd.symm]
        ext x
        simp only [mem_empty_iff_false, iff_false]
        rintro ⟨v, hv, -⟩
        exact not_isDir_of_stat_none hn (h.parent (m, x) v hv)
      rw [hl, hs]
      refine ⟨Nat.lt_of_sub_eq_succ rfl, fun hc => absurd rfl hc,
        fun _ => subsingleton_singleton, fun _ _ => by simp, fun _ hl' => ?_⟩
      exact absurd (.inr (singleton_nonempty k)) hl'
    · by_cases hm' : m = k.1
      · subst hm'
        obtain rfl : st = ⟨.dir, c + 1⟩ := some.inj (hst.symm.trans hparent)
        have hcount := h.counted k.1 _ hd
        have hs : (t.mkdir k n).subdirs k.1 = insert k.2 (t.subdirs k.1) := by
          rw [← hbelow k.1]
          exact below_fill ((isDir_iff hself).mpr rfl)
        rw [hlinks k.1 hm, hs]
        apply hcount.addSub rfl (hcount.linked_of_ne_zero rfl hc) ?_ hb
        rintro ⟨v, hv, -⟩
        rw [hk] at hv
        cases hv
      · exact h.carry (hother m hm hm') (hlinks m hm) (hsub m hm') hst
  · intro m hm
    have hmn : m ≠ n := fun he => by simp [he, hn] at hm
    rw [Tree.mkdir, isSome_stat_setNlink]
    simpa [Tree.create, hmn] using hm
  · intro m hm
    exact (hdir m fun he => not_isDir_of_stat_none hn (he ▸ hm)).mpr hm

theorem Sound.link (hR : Comparison R) (hd : t.isDir k.1) (hn : t.stat n = some st)
    (hkind : st.kind ≠ .dir) (hb : st.nlink + 1 < 4294967296) : Sound R (t.link k n) := by
  have hl : (t.link k n).links n = insert k (t.links n) := refs_fill
  have hself : (t.link k n).stat n = some ⟨st.kind, st.nlink + 1⟩ := stat_setNlink_self hn
  apply h.file (.inl ⟨hk, rfl⟩) rfl (fun hc => hkind ((isDir_iff hn).mp hc)) hself hkind
    (fun m hm => stat_setNlink_of_ne hm) fun _ => ⟨hd, hroot, hsb⟩
  rw [hl]
  apply (h.counted n st hn).addName hR hkind ?_ hb
  intro hc
  rw [links, mem_refs, hk] at hc
  cases hc

end

theorem Sound.unlink (hR : Comparison R) (h : Sound R t) (hk : t.child k = some n)
    (hn : t.stat n = some st) (hkind : st.kind ≠ .dir) : Sound R (t.unlink k n) := by
  have hl : (t.unlink k n).links n = t.links n \ {k} := refs_empty
  have hself : (t.unlink k n).stat n = some ⟨st.kind, st.nlink - 1⟩ :=
    stat_setNlink_self (f := (· - 1)) hn
  apply h.file (.inr ⟨hk, rfl⟩) rfl (fun hc => hkind ((isDir_iff hn).mp hc)) hself hkind
    (fun m hm => stat_setNlink_of_ne (f := (· - 1)) hm) nofun
  rw [hl]
  exact (h.counted n st hn).dropName hR hkind hk

/-- A directory with no directory in it goes. -/
theorem Sound.rmdir (h : Sound R t) (hk : t.child k = some n) (hn : t.isDir n)
    (hnd : n ≠ k.1) (hempty : t.subdirs n = ∅) : Sound R (t.rmdir k n) := by
  obtain ⟨c, hc⟩ := isDir_of_isDir hn
  obtain ⟨cd, hcd⟩ := isDir_of_isDir (h.parent k n hk)
  have hdir : (t.rmdir k n).isDir = t.isDir := isDir_rmdir k
  have hself : (t.rmdir k n).stat n = some ⟨.dir, 0⟩ := by
    rw [stat_rmdir]
    exact stat_setNlink_self ((stat_setNlink_of_ne hnd).trans hc)
  have hparent : (t.rmdir k n).stat k.1 = some ⟨.dir, cd - 1⟩ := by
    rw [stat_rmdir, stat_setNlink_of_ne hnd.symm]
    exact stat_setNlink_self hcd
  have hsub : ∀ m, m ≠ k.1 → (t.rmdir k n).subdirs m = t.subdirs m := by
    intro m hm
    unfold subdirs
    rw [hdir]
    exact below_update_of_ne _ hm
  apply h.place (v := none) rfl (fun m hm => ?_) (fun m hm => hdir ▸ hm) nofun
  · intro m st hst
    by_cases hm : m = n
    · subst hm
      obtain rfl : st = ⟨.dir, 0⟩ := some.inj (hst.symm.trans hself)
      have hl : (t.rmdir k m).links m = t.links m \ {k} := refs_empty
      rw [hl, hsub m hnd]
      exact (h.counted m _ hc).removed rfl (h.target k m hk).2.1 hk hempty
    by_cases hm' : m = k.1
    · subst hm'
      obtain rfl : st = ⟨.dir, cd - 1⟩ := some.inj (hst.symm.trans hparent)
      have hl : (t.rmdir k n).links k.1 = t.links k.1 := refs_empty_of_ne hk hm
      have hs : (t.rmdir k n).subdirs k.1 = t.subdirs k.1 \ {k.2} := by
        unfold subdirs
        rw [hdir]
        exact below_empty
      rw [hl, hs]
      exact (h.counted k.1 _ hcd).dropSub rfl ⟨n, hk, hn⟩
    · have hst' : (t.rmdir k n).stat m = t.stat m := by
        rw [stat_rmdir, stat_setNlink_of_ne hm, stat_setNlink_of_ne hm']
      exact h.carry hst' (refs_empty_of_ne hk hm) (hsub m hm') hst
  · rw [stat_rmdir, isSome_stat_setNlink, isSome_stat_setNlink]
    exact hm

/-- A name moves; that of a directory stays in its directory. -/
theorem Sound.move (h : Sound R t) {new : Node × Name} (hk : t.child k = some n)
    (hnew : t.child new = none) (hd : t.isDir new.1) (hsb : new.1.sb = k.1.sb)
    (hsame : t.isDir n → k.1 = new.1) : Sound R (t.move k new n) := by
  have hne : k ≠ new := fun he => by rw [he, hnew] at hk; cases hk
  have hk' : update t.child new (some n) k = some n := by
    rw [update_of_ne hne, hk]
  have htarget := h.target k n hk
  have hlinks : ∀ m, m ≠ n → (t.move k new n).links m = t.links m :=
    fun m hm => (refs_empty_of_ne hk' hm).trans (refs_fill_of_ne hnew hm)
  have hself : (t.move k new n).links n = insert new (t.links n) \ {k} := by
    refine refs_empty.trans ?_
    rw [refs_fill]
    rfl
  have hnotin : new ∉ t.links n := fun hc => by rw [links, mem_refs, hnew] at hc; cases hc
  -- only a directory that is renamed in its directory moves in `subdirs`
  have hsub : ∀ m, (t.move k new n).subdirs m = t.subdirs m ∨
      (m = k.1 ∧ t.isDir n ∧ (t.move k new n).subdirs m = insert new.2 (t.subdirs m) \ {k.2}) := by
    intro m
    by_cases hn : t.isDir n
    · have hkd := hsame hn
      by_cases hm : m = k.1
      · subst hm
        refine .inr ⟨rfl, hn, ?_⟩
        refine (below_empty (x := k.2)).trans ?_
        rw [hkd]
        congr 1
        exact below_fill (d := new.1) hn
      · have hm' : m ≠ new.1 := hkd ▸ hm
        exact .inl ((below_update_of_ne _ hm).trans (below_update_of_ne _ hm'))
    · left
      exact (below_empty_of_not hk' hn).trans (below_fill_of_not hnew hn)
  refine ⟨fun k' m hm => ?_, fun k' m hm => ?_, fun m st hst => ?_⟩
  · by_cases h1 : k' = k
    · subst h1
      simp [Tree.move] at hm
    by_cases h2 : k' = new
    · subst h2
      obtain rfl : n = m := by simpa [Tree.move, h1] using hm
      exact ⟨htarget.1, htarget.2.1, htarget.2.2.trans hsb.symm⟩
    · exact h.target k' m (by simpa [Tree.move, h1, h2] using hm)
  · by_cases h1 : k' = k
    · subst h1
      simp [Tree.move] at hm
    by_cases h2 : k' = new
    · subst h2
      exact hd
    · exact h.parent k' m (by simpa [Tree.move, h1, h2] using hm)
  · have hold := h.counted m st hst
    have hl : Counted R (m.ino = rootIno) st ((t.move k new n).links m) (t.subdirs m) := by
      by_cases hm : m = n
      · subst hm
        rw [hself]
        exact hold.move hk hnotin
      · rw [hlinks m hm]
        exact hold
    rcases hsub m with hs | ⟨rfl, hn, hs⟩
    · rw [hs]
      exact hl
    rw [hs]
    have hkd := hsame hn
    refine hl.moveSub ((isDir_iff hst).mp (h.parent k n hk)) ⟨n, hk, hn⟩ ?_
    rintro ⟨v, hv, -⟩
    rw [hkd] at hv
    rw [hnew] at hv
    cases hv

/-- An inode that counts nothing has no name. -/
theorem Sound.links_eq_empty_of_zero (hR : Comparison R) (h : Sound R t) (hn : t.stat n = some st)
    (h0 : st.nlink = 0) : t.links n = ∅ := by
  have hcount := h.counted n st hn
  rw [← not_nonempty_iff_eq_empty]
  rintro ⟨k, hk⟩
  by_cases hd : st.kind = .dir
  · have h2 := hcount.two_le_nlink hd (.inr ⟨k, hk⟩)
    omega
  · have hpos := hcount.nlink_pos hR hd hk
    omega

/-- An inode that counts nothing is freed. The names that it has, if it is a directory, are names of
files, which now count more than they have. -/
theorem Sound.drop {t : Tree} (h : Sound (fun a b => a ≤ b) t) (hn : t.stat n = some st)
    (h0 : st.nlink = 0) : Sound (fun a b => a ≤ b) (t.drop n) := by
  have hlinks := h.links_eq_empty_of_zero comparison_le hn h0
  have hno : ∀ k m, t.child k = some m → m ≠ n := by
    rintro k m hk rfl
    have hmem : k ∈ t.links m := hk
    rw [hlinks] at hmem
    exact hmem
  have hold : ∀ k m, (t.drop n).child k = some m → k.1 ≠ n ∧ t.child k = some m := by
    intro k m hk
    by_cases hkn : k.1 = n
    · simp [Tree.drop, hkn] at hk
    · exact ⟨hkn, by simpa [Tree.drop, hkn] using hk⟩
  have hother : ∀ m, m ≠ n → (t.drop n).stat m = t.stat m :=
    fun m hm => update_of_ne hm _ _
  have hdir : ∀ m, m ≠ n → ((t.drop n).isDir m ↔ t.isDir m) := by
    intro m hm
    rw [isDir, isDir, hother m hm]
  -- a directory that counts nothing has no directory in it
  have hnosub : ∀ k m, t.child k = some m → t.isDir m → k.1 ≠ n := by
    rintro ⟨d, x⟩ m hk hm rfl
    have hd := (isDir_iff hn).mp (h.parent (d, x) m hk)
    have hcount := h.counted d st hn
    have h2 := hcount.two_le_nlink hd (hcount.linked_of_sub hd ⟨m, hk, hm⟩)
    omega
  refine ⟨fun k m hk => ?_, fun k m hk => ?_, fun m st' hst => ?_⟩
  · obtain ⟨-, hk'⟩ := hold k m hk
    rw [hother m (hno k m hk')]
    exact h.target k m hk'
  · obtain ⟨hkn, hk'⟩ := hold k m hk
    exact (hdir k.1 hkn).mpr (h.parent k m hk')
  have hm : m ≠ n := by
    rintro rfl
    simp [Tree.drop] at hst
  have hst' : t.stat m = some st' := (hother m hm).symm.trans hst
  have hcount := h.counted m st' hst'
  have hsub : (t.drop n).subdirs m = t.subdirs m := by
    ext x
    constructor
    · rintro ⟨v, hv, hdv⟩
      obtain ⟨-, hv'⟩ := hold (m, x) v hv
      exact ⟨v, hv', (hdir v (hno _ v hv')).mp hdv⟩
    · rintro ⟨v, hv, hdv⟩
      exact ⟨v, by simpa [Tree.drop, hm] using hv, (hdir v (hno _ v hv)).mpr hdv⟩
  have hle : (t.drop n).links m ⊆ t.links m := fun k hk => (hold k m hk).2
  rw [hsub]
  by_cases hd : st'.kind = .dir
  · have heq : (t.drop n).links m = t.links m := by
      refine Set.Subset.antisymm hle fun k hk => ?_
      have hkn := hnosub k m hk ((isDir_iff hst').mpr hd)
      have hchild : (t.drop n).child k = t.child k := if_neg hkn
      exact hchild.trans hk
    rw [heq]
    exact hcount
  · exact ⟨hcount.bound, fun _ => (encard_le_encard hle).trans (hcount.file hd),
      fun hc => absurd hc hd, fun hc => absurd hc hd, fun hc => absurd hc hd⟩

end Transitions

end Tree

end BrkKernel.Names
