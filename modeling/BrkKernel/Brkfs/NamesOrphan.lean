import BrkKernel.Brkfs.NamesLinks
import BrkKernel.Lib.Threaded

/-!
# The list of orphans

An inode whose last name goes while something still has it open is put on a list that starts in the
super block and runs through the inode table, and `brkfs_orphan_cleanup` frees what is on the list
at the next mount. The last put of an open inode takes it off the list again, by a change of its
predecessor's slot on the disk alone: the predecessor's copy in memory keeps the old successor, and
the next write of the predecessor puts it back (`orphan_list_stale`).

As long as no orphan is written whose copy in memory has another successor than its slot, the list
on the disk holds the orphans and nothing else after every operation, so the clean-up frees nothing
that a directory has (`orphan_list_sound`).
-/

set_option autoImplicit false

namespace BrkKernel.Names

open Lib Function Sys Relation.ReflTransGen Trace Option List

variable {nd : Dentry} {i : Inode} {l bs : List Nat} {name oldName : Name} {sb : Nat}
  {newDir oldDir m : Node} {τ : Trace} {t t' : Tree} {kind : Kind} (a : Nat)

/-- An inode without its place on the list. -/
def Inode.plain (i : Inode) : Inode := { i with nextOrphan := 0 }

/-! ## Walks along the list -/

namespace Sys

/-- The successor of an inode on the list, as its slot has it. -/
def nextOf (s : Sys) (sb ino : Nat) : Option Nat := (s.table ⟨sb, ino⟩).map Inode.nextOrphan

section Walks

variable {s : Sys} {sb ino : Nat}

theorem brkfsInodeRead_of_next {a q : Nat} (hv : s.validIno sb a) (hq : s.nextOf sb a = some q) :
    ∃ i, s.brkfsInodeRead sb a = .ok i ∧ s.table ⟨sb, a⟩ = some i ∧ i.nextOrphan = q := by
  obtain ⟨i, hi, rfl⟩ := map_eq_some_iff.mp hq
  exact ⟨i, brkfsInodeRead_eq_ok.mpr ⟨hv, hi⟩, hi, rfl⟩

/-- The walk does not find an inode that is not on the list. -/
theorem orphanRemoveLoop_of_notMem {guard prev cur : Nat} (hl : Threaded (s.nextOf sb) cur l)
    (hino : ino ∉ l) : s.orphanRemoveLoop sb ino guard prev cur = s := by
  induction l generalizing guard prev cur with
  | nil =>
    obtain rfl : cur = 0 := hl
    cases guard with
    | zero => rfl
    | succ guard => simp [orphanRemoveLoop]
  | cons a l ih =>
    obtain ⟨rfl, ha, q, hq, hl⟩ := hl
    rw [mem_cons, not_or] at hino
    cases guard with
    | zero => rfl
    | succ guard =>
      unfold orphanRemoveLoop
      rw [if_neg ha]
      cases hr : s.brkfsInodeRead sb cur with
      | error x => rfl
      | ok i =>
        have hi := (brkfsInodeRead_eq_ok.mp hr).2
        have hiq : i.nextOrphan = q := by simpa [nextOf, hi] using hq
        have hne : cur ≠ ino := fun he => hino.1 he.symm
        simp only [if_neg hne, hiq]
        exact ih hl hino.2

/-- What the walk does where it finds the inode, with its predecessor. -/
def unlinkAt (s : Sys) (sb prev next : Nat) : Sys :=
  if prev = 0 then { s with orphan := update s.orphan sb next }
  else s.setNextOnDisk sb prev next

/-- The walk finds an inode on the list, and its predecessor with it. -/
theorem orphanRemoveLoop_of_mem {l1 l2 : List Nat} {guard prev cur q : Nat}
    (hl : Threaded (s.nextOf sb) cur (l1 ++ ino :: l2)) (hino : ino ∉ l1)
    (hv : ∀ a ∈ l1 ++ ino :: l2, s.validIno sb a) (hq : s.nextOf sb ino = some q)
    (hguard : l1.length < guard) :
    s.orphanRemoveLoop sb ino guard prev cur = s.unlinkAt sb (l1.getLast?.getD prev) q := by
  induction l1 generalizing guard prev cur with
  | nil =>
    obtain ⟨rfl, hc, q', hq', -⟩ := hl
    obtain ⟨guard, rfl⟩ := Nat.exists_eq_succ_of_ne_zero (ne_of_gt hguard)
    obtain ⟨i, hr, -, hi⟩ := brkfsInodeRead_of_next (hv cur mem_cons_self) hq
    unfold orphanRemoveLoop
    simp only [if_neg hc, hr, if_true, hi]
    rfl
  | cons a l1 ih =>
    obtain ⟨rfl, hc, r, hr, hl⟩ := hl
    obtain ⟨guard, rfl⟩ := Nat.exists_eq_succ_of_ne_zero (Nat.ne_zero_of_lt hguard)
    rw [mem_cons, not_or] at hino
    have hne : cur ≠ ino := fun he => hino.1 he.symm
    obtain ⟨i, hread, -, hi⟩ := brkfsInodeRead_of_next (hv cur mem_cons_self) hr
    have hrest : s.orphanRemoveLoop sb ino guard cur r = s.unlinkAt sb (l1.getLast?.getD cur) q :=
      ih hl hino.2 (fun b hb => hv b (mem_cons_of_mem cur hb)) (Nat.lt_of_succ_lt_succ hguard)
    unfold orphanRemoveLoop
    simp only [if_neg hc, hread, if_neg hne, hi, hrest]
    cases l1 with
    | nil => rfl
    | cons b l1 => simp [getLast?_eq_some_getLast]

/-- The clean-up leaves what is not on the list alone. -/
theorem orphanCleanupLoop_frame {guard cur : Nat} (hl : Threaded (s.nextOf sb) cur l)
    (hnd : l.Nodup) :
    (∀ m : Node, (m.sb = sb → m.ino ∉ l) →
      (orphanCleanupLoop sb guard s cur).used m = s.used m ∧
      (orphanCleanupLoop sb guard s cur).table m = s.table m ∧
      (orphanCleanupLoop sb guard s cur).dir m = s.dir m) ∧
    ∀ c b, (∀ a ∈ l, ∀ i, s.table ⟨sb, a⟩ = some i → b ∉ i.blocks) →
      (orphanCleanupLoop sb guard s cur).busy c b = s.busy c b := by
  induction l generalizing s guard cur with
  | nil =>
    obtain rfl : cur = 0 := hl
    cases guard with
    | zero => exact ⟨fun m _ => ⟨rfl, rfl, rfl⟩, fun c b _ => rfl⟩
    | succ guard =>
      exact ⟨fun m _ => ⟨rfl, rfl, rfl⟩, fun c b _ => rfl⟩
  | cons a l ih =>
    obtain ⟨rfl, ha, q, hq, hl⟩ := hl
    obtain ⟨hnot, hnd⟩ := nodup_cons.mp hnd
    cases guard with
    | zero => exact ⟨fun m _ => ⟨rfl, rfl, rfl⟩, fun c b _ => rfl⟩
    | succ guard =>
      unfold orphanCleanupLoop
      rw [if_neg ha]
      cases hr : s.brkfsInodeRead sb cur with
      | error x => exact ⟨fun m _ => ⟨rfl, rfl, rfl⟩, fun c b _ => rfl⟩
      | ok i =>
        obtain ⟨hv, hi⟩ := brkfsInodeRead_eq_ok.mp hr
        have hiq : i.nextOrphan = q := by simpa [nextOf, hi] using hq
        simp only [hiq]
        -- the state in which the loop goes on differs at `cur` alone
        generalize hs1 : brkfsInodeFree _ sb cur = s1
        rw [brkfsInodeFree, if_pos (by exact hv)] at hs1
        have htable : ∀ m : Node, m ≠ ⟨sb, cur⟩ →
            s1.used m = s.used m ∧ s1.table m = s.table m ∧ s1.dir m = s.dir m := by
          intro m hm
          simp [← hs1, freeBlocks, setTable, hm]
        have hbusy : ∀ c b, b ∉ i.blocks → s1.busy c b = s.busy c b := by
          intro c b hb
          by_cases hc : c = sb
          · subst hc
            simp [← hs1, freeBlocks, setTable, hb]
          · simp [← hs1, freeBlocks, setTable, hc]
        have hother : ∀ b ∈ l, (⟨sb, b⟩ : Node) ≠ ⟨sb, cur⟩ := by
          rintro b hb he
          exact hnot (Node.mk.inj he |>.2 ▸ hb)
        have hl1 : Threaded (s1.nextOf sb) q l := hl.congr fun b hb => by
          unfold nextOf
          rw [(htable _ (hother b hb)).2.1]
        obtain ⟨hframe, hblocks⟩ := @ih s1 guard q hl1 hnd
        refine ⟨fun m hm => ?_, fun c b hb => ?_⟩
        · have hmc : m ≠ ⟨sb, cur⟩ := by
            rintro rfl
            exact hm rfl mem_cons_self
          obtain ⟨h1, h2, h3⟩ := hframe m fun hsb hmem => hm hsb (mem_cons_of_mem cur hmem)
          obtain ⟨h1', h2', h3'⟩ := htable m hmc
          exact ⟨h1.trans h1', h2.trans h2', h3.trans h3'⟩
        · rw [hblocks c b fun d hd j hj => ?_]
          · exact hbusy c b (hb cur mem_cons_self i hi)
          · rw [(htable _ (hother d hd)).2.1] at hj
            exact hb d (mem_cons_of_mem cur hd) j hj

end Walks

/-! ## A volume whose list is right -/

/-- The list of the volume `sb` on the disk: its inodes are those without a name, each once. -/
structure OrphanList (s : Sys) (sb : Nat) (l : List Nat) : Prop where
  threaded : Threaded (s.nextOf sb) (s.orphan sb) l
  nodup : l.Nodup
  mem : ∀ ino, ino ∈ l ↔ s.tree.Dead ⟨sb, ino⟩

/-- A volume in order. The copy of an inode in memory is its slot but for the successor on the list,
what has no name is held in memory, and no two inodes have a block in common. -/
structure Safe (s : Sys) : Prop where
  mounted : s.Mounted
  sound : s.tree.Sound fun a b => a ≤ b
  agree : ∀ n i, s.core n = some i → ∃ t, s.table n = some t ∧ i.plain = t.plain
  held : ∀ n, s.tree.Dead n → (s.core n).isSome
  root : ∀ n, s.tree.Dead n → n.ino ≠ rootIno
  list : ∀ sb, ∃ l, s.OrphanList sb l
  owned : ∀ n, ∀ b ∈ s.blocksOf n, s.busy n.sb b
  apart : ∀ n m, n.sb = m.sb → n ≠ m → ∀ b ∈ s.blocksOf n, b ∉ s.blocksOf m

end Sys

/-- An inode without a name that is written has the same successor in memory as in its slot. -/
def FreshOn (s : Sys) (P : Node → Prop) : Prop :=
  ∀ m, P m → ∀ i t, s.core m = some i → i.nlink = 0 → s.table m = some t →
    i.nextOrphan = t.nextOrphan

section Steps

variable {s s' : Sys} {P : Node → Prop} {G : Node → List Nat} {n d : Node}

/-- An inode without a name, in memory and on the disk. -/
theorem Sys.Safe.dead (h : s.Safe) (hn : s.tree.Dead n) :
    ∃ i t, s.core n = some i ∧ i.nlink = 0 ∧ s.table n = some t ∧ i.plain = t.plain := by
  obtain ⟨i, hi, -, hst⟩ := stat_of_isSome h.mounted (h.held n hn)
  obtain ⟨st, hst', h0⟩ := hn
  obtain rfl := some.inj (hst.symm.trans hst')
  obtain ⟨t, ht, hit⟩ := h.agree n i hi
  exact ⟨i, t, hi, h0, ht, hit⟩

theorem Tree.dead_of_stat {st : Stat} (h : t.stat n = some st) : t.Dead n ↔ st.nlink = 0 := by
  constructor
  · rintro ⟨st', hst', h0⟩
    obtain rfl := some.inj (h.symm.trans hst')
    exact h0
  · intro h0
    exact ⟨st, h, h0⟩

/-- The inodes without a name after a call. -/
theorem dead_iff {x : Option Node} (hz : ∀ m, x = some m ↔ t.Zeroed t' m)
    (hf : t.Falls t') (m : Node) : t'.Dead m ↔ t.Dead m ∨ x = some m := by
  constructor
  · intro hm
    obtain ⟨st, hst⟩ := isSome_iff_exists.mp (hf.old m hm)
    by_cases h0 : st.nlink = 0
    · exact .inl ⟨st, hst, h0⟩
    · exact .inr ((hz m).mpr ⟨⟨st, hst, h0⟩, hm⟩)
  · rintro (hm | hm)
    · exact hf.dead m hm
    · exact ((hz m).mp hm).2

theorem not_dead_of_zeroed (h : t.Zeroed t' n) : ¬ t.Dead n := by
  obtain ⟨⟨st, hst, hne⟩, -⟩ := h
  rw [Tree.dead_of_stat hst]
  exact hne

/-- The slots agree with memory after a call that writes what it changes. -/
theorem Mid.agree (hmid : Mid s s' τ) (hd : τ.dirty ⊆ τ.written) (h : s.Safe) (m : Node) (i : Inode)
    (hi : s'.core m = some i) : ∃ t, s'.table m = some t ∧ i.plain = t.plain := by
  by_cases hw : m ∈ τ.written
  · exact ⟨i, (hmid.written m hw).trans hi, rfl⟩
  have hm : m ∉ τ.dirty := fun hmem => hw (hd hmem)
  rw [hmid.core m hm] at hi
  rw [hmid.kept m hm hw]
  exact h.agree m i hi

/-- The successors on the list stay as they are. -/
theorem Mid.nextOf (hl : Leaves s s' t τ) (hd : τ.dirty ⊆ τ.written) (hP : ∀ m ∈ τ.written, P m)
    (hfresh : FreshOn s P) (h : s.Safe) (hn : s.tree.Dead n) (hx : τ.orphan ≠ some n) :
    s'.nextOf n.sb n.ino = s.nextOf n.sb n.ino := by
  obtain ⟨i, t, hi, h0, ht, -⟩ := h.dead hn
  have ht' : s.table ⟨n.sb, n.ino⟩ = some t := ht
  unfold Sys.nextOf
  by_cases hw : n ∈ τ.written
  · obtain ⟨i', hi'⟩ := isSome_iff_exists.mp (hl.stays n (.inl (isSome_iff_exists.mpr ⟨i, hi⟩)))
    have hsame := hfresh n (hP n hw) i t hi h0 ht
    have hnext := hl.mid.next n i i' hx.symm hi hi'
    have htable : s'.table ⟨n.sb, n.ino⟩ = some i' := (hl.mid.written n hw).trans hi'
    rw [htable, ht', map_some, map_some, hnext, hsame]
  · have hm : n ∉ τ.dirty := fun hmem => hw (hd hmem)
    have htable : s'.table ⟨n.sb, n.ino⟩ = s.table ⟨n.sb, n.ino⟩ := hl.mid.kept n hm hw
    rw [htable]

/-- The blocks of an inode after a call. -/
theorem Mid.blocksOf (hl : Leaves s s' t τ) {b : Nat} (hb : b ∈ s'.blocksOf m) :
    b ∈ s.blocksOf m ∨ b ∈ τ.grown m := by
  cases hc : s'.core m with
  | some i =>
    rw [Sys.blocksOf_of_core (hl.mounted.loaded m i hc).1 hc, hl.mid.blocks m i hc] at hb
    exact mem_append.mp hb
  | none =>
    -- an inode that is not in memory has not been changed
    have hm : m ∉ τ.dirty := fun hmem => by
      have hsome := hl.stays m (.inr hmem)
      rw [hc] at hsome
      cases hsome
    have hcore := (hl.mid.core m hm).symm.trans hc
    by_cases hw : m ∈ τ.written
    · have htable := (hl.mid.written m hw).trans hc
      simp [Sys.blocksOf, Sys.inode, hc, htable] at hb
    have htable := hl.mid.kept m hm hw
    have hused := hl.mid.used m hm
    simp only [Sys.blocksOf, Sys.inode, hc, htable, hused] at hb
    simp only [Sys.blocksOf, Sys.inode, hcore]
    exact .inl hb

/-- A call that writes no orphan with another successor than its slot keeps the volume in order. -/
theorem Sys.Safe.ended (h : s.Safe)
    (he : Ended (fun a b => a ≤ b) s s' P (grows d bs)) (hfresh : FreshOn s P)
    (hfree : ∀ b ∈ bs, s.busy d.sb b = false) : s'.Safe := by
  obtain ⟨t, x, ⟨τ, hl, rfl, hd, hP, hG⟩, hs, hz, hf, hroot⟩ := he
  have hdead : ∀ m, s'.tree.Dead m ↔ s.tree.Dead m ∨ τ.orphan = some m := by
    intro m
    rw [hl.tree]
    exact dead_iff hz hf m
  have hgrown : ∀ m b, b ∈ τ.grown m → m = d ∧ s.busy m.sb b = false := by
    intro m b hb
    rw [hG m, grows] at hb
    split at hb
    · next hmd =>
      subst hmd
      exact ⟨rfl, hfree b hb⟩
    · cases hb
  have hnew : ∀ m, τ.orphan = some m → ¬ s.tree.Dead m :=
    fun m hm => not_dead_of_zeroed ((hz m).mp hm)
  refine ⟨hl.mounted, ?_, hl.mid.agree hd h, fun m hm => ?_, fun m hm => ?_, fun sb => ?_,
    fun m b hb => ?_, fun m m' hsb hne b hb hb' => ?_⟩
  · rw [hl.tree]
    exact hs
  · rcases (hdead m).mp hm with hm | hm
    · exact hl.stays m (.inl (h.held m hm))
    · exact hl.stays m (.inr (hl.mid.listed m hm))
  · rcases (hdead m).mp hm with hm | hm
    · exact h.root m hm
    · exact hroot m hm
  · obtain ⟨l, hlist⟩ := h.list sb
    have hkeep : ∀ a ∈ l, s'.nextOf sb a = s.nextOf sb a := by
      intro a ha
      have hm := (hlist.mem a).mp ha
      exact Mid.nextOf hl hd hP hfresh h hm fun hx => hnew _ hx hm
    have hthread := hlist.threaded.congr hkeep
    by_cases hx : ∃ n, τ.orphan = some n ∧ n.sb = sb
    · obtain ⟨n, hx, rfl⟩ := hx
      have hnd : n.ino ∉ l := fun hmem => hnew n hx ((hlist.mem n.ino).mp hmem)
      have hw := hd (hl.mid.listed n hx)
      obtain ⟨i, hi⟩ := isSome_iff_exists.mp (hl.stays n (.inr (hl.mid.listed n hx)))
      have hnext : s'.nextOf n.sb n.ino = some (s.orphan n.sb) := by
        have htable : s'.table ⟨n.sb, n.ino⟩ = some i := (hl.mid.written n hw).trans hi
        unfold nextOf
        rw [htable, map_some, hl.mid.newNext n i hx hi]
      have hino : n.ino ≠ 0 := ne_of_gt (hl.mounted.loaded n i hi).2.1.1
      refine ⟨n.ino :: l, ?_, nodup_cons.mpr ⟨hnd, hlist.nodup⟩, fun ino => ?_⟩
      · rw [hl.mid.orphan, hx, elim_some, update_self]
        exact hthread.push hino hnext
      rw [mem_cons, hlist.mem, hdead, hx, some_inj, or_comm]
      apply or_congr_right
      constructor
      · rintro rfl
        rfl
      · intro he
        exact (congrArg Node.ino he).symm
    · -- no inode goes onto the list of this volume
      have horphan : s'.orphan sb = s.orphan sb := by
        rw [hl.mid.orphan]
        cases hn : τ.orphan with
        | none => rfl
        | some n => exact update_of_ne (fun he => hx ⟨n, hn, he.symm⟩) _ _
      refine ⟨l, horphan ▸ hthread, hlist.nodup, fun ino => ?_⟩
      rw [hlist.mem, hdead]
      exact ⟨.inl, fun hm => hm.resolve_right fun hm => hx ⟨_, hm, rfl⟩⟩
  · rw [hl.mid.busy]
    rcases Mid.blocksOf hl hb with hb | hb
    · exact .inl (h.owned m b hb)
    · exact .inr ⟨m, rfl, hb⟩
  · rcases Mid.blocksOf hl hb with hb | hb
    · rcases Mid.blocksOf hl hb' with hb' | hb'
      · exact h.apart m m' hsb hne b hb hb'
      · have hbusy := h.owned m b hb
        rw [hsb, (hgrown m' b hb').2] at hbusy
        cases hbusy
    · rcases Mid.blocksOf hl hb' with hb' | hb'
      · have hbusy := h.owned m' b hb'
        rw [← hsb, (hgrown m b hb).2] at hbusy
        cases hbusy
      · exact hne ((hgrown m b hb).1.trans (hgrown m' b hb').1.symm)

/-- A write to an open file is a call that changes no name and no count. -/
theorem write_ended {r : Except Errno Unit} (h : s.Safe) (hc : (s.core n).isSome)
    (hw : s.brkfsFileWrite n bs none = (r, s')) :
    Ended (fun a b => a ≤ b) s s' (fun m => m = n) (grows n bs) := by
  have h1 := (Leaves.refl h.mounted).grow bs hc
  obtain ⟨i, hi⟩ := isSome_iff_exists.mp hc
  have hv := (h.mounted.loaded n i hi).2.1
  have hok : s.brkfsFileWrite n bs none =
      (.ok (), (s.addBlocks n bs).setTable n ((s.addBlocks n bs).core n)) := by
    exact if_neg fun hnv => hnv hv
  rw [hok] at hw
  cases hw
  have h2 := h1.write (h1.stays n (.inl hc)) rfl hok
  refine Ended.of_none ⟨_, h2, rfl, fun m hm => ?_, fun m hm => ?_, fun m => ?_⟩ h.sound
    (fun m => Tree.not_zeroed_of_eq rfl) (Tree.falls_of_stat_eq rfl)
  · simpa [write, grow, change, start] using hm
  · simpa [write, grow, change, start] using hm
  · exact grown_grow_start n bs m

end Steps

/-! ## The last put of an inode -/

section Evict

variable {s s' s1 : Sys} {n : Node}

/-- What the tree and the blocks take from an inode is not its place on the list. -/
theorem plain_stat {j : Inode} (h : i.plain = j.plain) : i.stat = j.stat ∧ i.blocks = j.blocks := by
  obtain ⟨hk, hn, -, hb⟩ := Inode.mk.inj h
  exact ⟨by rw [Inode.stat, Inode.stat, hk, hn], hb⟩

/-- The inodes on the list are held, so their numbers are good ones. -/
theorem Sys.Safe.validIno (h : s.Safe) (hn : s.tree.Dead n) : s.validIno n.sb n.ino := by
  obtain ⟨i, -, hi, -⟩ := h.dead hn
  exact (h.mounted.loaded n i hi).2.1

/-- The list is not longer than the guard. -/
theorem Sys.OrphanList.length_le (hl : s.OrphanList sb l) (h : s.Safe) :
    l.length ≤ s.inodesCount sb := by
  have hsub : l.toFinset ⊆ Finset.Icc 1 (s.inodesCount sb) := by
    intro a ha
    have hv := h.validIno ((hl.mem a).mp (mem_toFinset.mp ha))
    exact Finset.mem_Icc.mpr hv
  have hcard := Finset.card_le_card hsub
  rw [toFinset_card_of_nodup hl.nodup, Nat.card_Icc] at hcard
  simpa using hcard

/-- What `brkfs_orphan_remove` leaves: the list without the inode, and the slots otherwise as they
were. -/
structure Removed (s s₁ : Sys) (n : Node) : Prop where
  table : ∀ m, (s₁.table m).map Inode.plain = (s.table m).map Inode.plain
  others : ∀ sb, sb ≠ n.sb → s₁.orphan sb = s.orphan sb ∧ s₁.nextOf sb = s.nextOf sb
  list : ∃ l, Threaded (s₁.nextOf n.sb) (s₁.orphan n.sb) l ∧ l.Nodup ∧
    ∀ ino, ino ∈ l ↔ ino ≠ n.ino ∧ s.tree.Dead ⟨n.sb, ino⟩
  rest : s₁ = { s with table := s₁.table, orphan := s₁.orphan }

theorem nextOf_setTable_of_ne {sb' : Nat} (i : Option Inode) (h : sb' ≠ sb) :
    (s.setTable ⟨sb, a⟩ i).nextOf sb' = s.nextOf sb' := by
  funext b
  have hne : (⟨sb', b⟩ : Node) ≠ ⟨sb, a⟩ := fun he => h (congrArg Node.sb he)
  simp [nextOf, setTable, hne]

theorem nextOf_setTable (i : Inode) : (s.setTable ⟨sb, a⟩ (some i)).nextOf sb =
      update (s.nextOf sb) a (some i.nextOrphan) := by
  refine eq_update_iff.2 ⟨?_, fun b hb => ?_⟩
  · simp [nextOf, setTable]
  · have hne : (⟨sb, b⟩ : Node) ≠ ⟨sb, a⟩ := fun he => hb (congrArg Node.ino he)
    simp [nextOf, setTable, hne]

theorem brkfsOrphanRemove_removed (h : s.Safe) (hn : s.tree.Dead n) :
    Removed s (s.brkfsOrphanRemove n.sb n.ino) n := by
  obtain ⟨l, hl⟩ := h.list n.sb
  obtain ⟨l1, l2, rfl⟩ := append_of_mem ((hl.mem n.ino).mpr hn)
  have hdead : ∀ a ∈ l1 ++ n.ino :: l2, s.validIno n.sb a :=
    fun a ha => h.validIno ((hl.mem a).mp ha)
  obtain ⟨hnot, hnd⟩ := nodup_cons.mp (nodup_middle.mp hl.nodup)
  have hmem : ∀ ino, ino ∈ l1 ++ l2 ↔ ino ≠ n.ino ∧ s.tree.Dead ⟨n.sb, ino⟩ := by
    intro ino
    have hne : ino ∈ l1 ++ l2 → ino ≠ n.ino := fun hi he => hnot (he ▸ hi)
    rw [← hl.mem]
    simp only [mem_append, mem_cons] at hne ⊢
    tauto
  obtain ⟨q, hq, hrest⟩ := hl.threaded.drop
  have hguard : l1.length < s.inodesCount n.sb := by
    have hlen := hl.length_le h
    rw [length_append, length_cons] at hlen
    omega
  have hloop : s.orphanRemoveLoop n.sb n.ino (s.inodesCount n.sb) 0 (s.orphan n.sb) =
      s.unlinkAt n.sb (l1.getLast?.getD 0) q :=
    orphanRemoveLoop_of_mem hl.threaded (fun hi => hnot (mem_append_left l2 hi)) hdead hq hguard
  unfold brkfsOrphanRemove
  rw [hloop]
  rcases eq_nil_or_concat' l1 with rfl | ⟨l3, a, rfl⟩
  · -- the inode is the first one
    refine ⟨fun m => rfl, fun sb hsb => ⟨update_of_ne hsb _ _, rfl⟩, ⟨l2, ?_, hnd, hmem⟩, rfl⟩
    show Threaded (s.nextOf n.sb) (update s.orphan n.sb q n.sb) l2
    rw [update_self]
    exact hrest
  have ha : a ∈ l3 ++ [a] := mem_append_right l3 mem_cons_self
  have ha0 : a ≠ 0 := hl.threaded.ne_zero (mem_append_left _ ha)
  rw [append_assoc, singleton_append] at hl hnd hmem hdead
  obtain ⟨r, hr, -⟩ := hl.threaded.drop
  obtain ⟨j, hread, hj, -⟩ := brkfsInodeRead_of_next
    (hdead a (mem_append_right l3 mem_cons_self)) hr
  have hset : s.unlinkAt n.sb ((l3 ++ [a]).getLast?.getD 0) q =
      s.setTable ⟨n.sb, a⟩ (some { j with nextOrphan := q }) := by
    simp [unlinkAt, ha0, setNextOnDisk, hread]
  rw [hset]
  refine ⟨fun m => ?_, fun sb hsb => ⟨rfl, nextOf_setTable_of_ne a _ hsb⟩,
    ⟨l3 ++ a :: l2, ?_, hnd, hmem⟩, rfl⟩
  · by_cases hm : m = ⟨n.sb, a⟩
    · subst hm
      simp [setTable, hj, Inode.plain]
    · simp [setTable, hm]
  · rw [nextOf_setTable]
    exact hl.threaded.skip hl.nodup hq

/-- The tree and the blocks see of an inode that is not in memory its slot, but not its place on
the list. -/
theorem stat_of_plain (hu : s'.used m = s.used m) (hc : s'.core m = s.core m)
    (ht : (s'.table m).map Inode.plain = (s.table m).map Inode.plain) :
    s'.stat m = s.stat m ∧ s'.blocksOf m = s.blocksOf m := by
  unfold stat blocksOf inode
  rw [hu, hc]
  cases s.core m with
  | some i => exact ⟨rfl, rfl⟩
  | none =>
    cases hm : s.table m with
    | none =>
      rw [hm, map_none, map_eq_none_iff] at ht
      rw [ht]
      exact ⟨rfl, rfl⟩
    | some j =>
      rw [hm, map_some] at ht
      obtain ⟨i, hi, hij⟩ := map_eq_some_iff.mp ht
      obtain ⟨hst, hb⟩ := plain_stat hij
      simp [hi, hst, hb]

theorem validIno_congr {ino : Nat} (h : s'.inodesCount = s.inodesCount) :
    s'.validIno sb ino ↔ s.validIno sb ino := by
  unfold validIno
  rw [h]

/-- The inode `n` has left memory, and all others are what they were, but for their places on the
list. -/
structure Gone (s s' : Sys) (n : Node) : Prop where
  count : s'.inodesCount = s.inodesCount
  core : s'.core = update s.core n none
  used : ∀ m, m ≠ n ∨ m.ino = rootIno → s'.used m = s.used m
  table : ∀ m, m ≠ n → (s'.table m).map Inode.plain = (s.table m).map Inode.plain
  slot : s'.used n → ∀ j, s'.table n = some j → j.kind ≠ .unknown
  dead : ∀ m, s'.tree.Dead m ↔ m ≠ n ∧ s.tree.Dead m
  blocks : ∀ m, ∀ b ∈ s'.blocksOf m, b ∈ s.blocksOf m ∧ s'.busy m.sb b

/-- The volume stays in order if its tree and its lists do. -/
theorem Sys.Safe.gone (h : s.Safe) (hg : Gone s s' n) (hsound : s'.tree.Sound fun a b => a ≤ b)
    (hlist : ∀ sb, ∃ l, s'.OrphanList sb l) : s'.Safe := by
  have hcore : ∀ m j, s'.core m = some j → m ≠ n ∧ s.core m = some j := by
    intro m j hj
    rw [hg.core] at hj
    by_cases hm : m = n
    · subst hm
      simp at hj
    · exact ⟨hm, by simpa [hm] using hj⟩
  refine ⟨⟨fun m j hj => ?_, fun m j hu hj => ?_, fun m hm => ?_⟩, hsound, fun m j hj => ?_,
    fun m hm => ?_, fun m hm => h.root m ((hg.dead m).mp hm).2, hlist,
    fun m b hb => (hg.blocks m b hb).2, fun m m' hsb hne b hb hb' =>
      h.apart m m' hsb hne b (hg.blocks m b hb).1 (hg.blocks m' b hb').1⟩
  · obtain ⟨hm, hj'⟩ := hcore m j hj
    obtain ⟨hu, hv, hk⟩ := h.mounted.loaded m j hj'
    exact ⟨(hg.used m (.inl hm)).trans hu, (validIno_congr hg.count).mpr hv, hk⟩
  · by_cases hm : m = n
    · subst hm
      exact hg.slot hu j hj
    have htable := hg.table m hm
    rw [hj, map_some] at htable
    obtain ⟨t, ht, htj⟩ := map_eq_some_iff.mp htable.symm
    have hkind : t.kind = j.kind := congrArg Stat.kind (plain_stat htj).1
    exact hkind ▸ h.mounted.slot m t ((hg.used m (.inl hm)).symm.trans hu) ht
  · obtain ⟨j, hj⟩ := isSome_iff_exists.mp hm
    have hroot := h.mounted.root m (isSome_iff_exists.mpr ⟨j, (hcore m j hj).2⟩)
    exact (hg.used _ (.inr rfl)).trans hroot
  · obtain ⟨hm, hj'⟩ := hcore m j hj
    obtain ⟨t, ht, hjt⟩ := h.agree m j hj'
    have htable := hg.table m hm
    rw [ht, map_some] at htable
    obtain ⟨t', ht', htt⟩ := map_eq_some_iff.mp htable
    exact ⟨t', ht', hjt.trans htt.symm⟩
  · obtain ⟨hmn, hm⟩ := (hg.dead m).mp hm
    rw [hg.core, update_of_ne hmn]
    exact h.held m hm

/-- An inode that is not on the list leaves memory, when its slot is what it was. -/
theorem Sys.Safe.leave {x : Option Inode} (h : s.Safe) (hlive : ¬ s.tree.Dead n)
    (hinode : s.used n → s.inode n = x ∧ ∀ i, x = some i → i.kind ≠ .unknown) :
    (setCore (s.setTable n x) n none).Safe := by
  have hother : ∀ m, m ≠ n → (s.setTable n x).table m = s.table m := fun m hm => update_of_ne hm _ _
  have hsame : ∀ m, (setCore (s.setTable n x) n none).stat m = s.stat m ∧
      (setCore (s.setTable n x) n none).blocksOf m = s.blocksOf m := by
    intro m
    by_cases hm : m = n
    · subst hm
      by_cases hu : s.used m = true
      · simp [stat, blocksOf, inode, setCore, setTable, hu, ← (hinode hu).1]
      · simp [stat, blocksOf, setCore, setTable, hu]
    · simp [stat, blocksOf, inode, setCore, setTable, hm]
  have htree : (setCore (s.setTable n x) n none).tree = s.tree :=
    tree_of_eq rfl (funext fun m => (hsame m).1)
  refine h.gone ⟨rfl, rfl, fun _ _ => rfl, fun m hm => congrArg _ (hother m hm), fun hu j hj => ?_,
    fun m => ?_, fun m b hb => ?_⟩ (htree ▸ h.sound) fun sb => ?_
  · exact (hinode hu).2 j (by simpa [setCore, setTable] using hj)
  · rw [htree]
    exact ⟨fun hm => ⟨fun he => hlive (he ▸ hm), hm⟩, fun hm => hm.2⟩
  · rw [(hsame m).2] at hb
    exact ⟨hb, h.owned m b hb⟩
  · obtain ⟨l, hl⟩ := h.list sb
    refine ⟨l, hl.threaded.congr fun a ha => ?_, hl.nodup, by rw [htree]; exact hl.mem⟩
    exact congrArg _ (hother ⟨sb, a⟩ fun he => hlive (he ▸ (hl.mem a).mp ha))

/-- An inode that has a name is written and leaves memory. -/
theorem Sys.Safe.put (h : s.Safe) (hi : s.core n = some i) (h0 : 0 < i.nlink) :
    (setCore (s.setTable n (some i)) n none).Safe := by
  obtain ⟨hu, -, hkind⟩ := h.mounted.loaded n i hi
  refine h.leave ?_ fun _ => ⟨by simp [inode, hi], fun j hj => some.inj hj ▸ hkind⟩
  rw [Tree.dead_of_stat (stat_of_core hu hi)]
  exact ne_of_gt h0

/-- The state after the last put of an inode without a name. -/
def released (s : Sys) (n : Node) (i : Inode) : Sys :=
  { s with
    dir := update s.dir n ∅
    table := update s.table n (some { i with nlink := 0, nextOrphan := 0, blocks := [] })
    core := update s.core n none
    used := update s.used n false
    busy := update s.busy n.sb fun b => b ∉ i.blocks ∧ s.busy n.sb b }

theorem brkfsEvictInode_dead (hi : s.core n = some i) (h0 : i.nlink = 0)
    (hv : s.validIno n.sb n.ino) (hs1 : s.brkfsOrphanRemove n.sb n.ino = s1)
    (hrest : s1 = { s with table := s1.table, orphan := s1.orphan }) :
    s.brkfsEvictInode n = released s1 n i := by
  have hv1 : s1.validIno n.sb n.ino := by
    rw [hrest]
    exact hv
  unfold brkfsEvictInode
  rw [hi, hs1]
  simp only [h0, lt_irrefl, if_false]
  have hwrite : ∀ j, brkfsInodeWrite ((s1.freeBlocks n i.blocks).setCore n (some j)) n.sb n none =
      (.ok (), setTable ((s1.freeBlocks n i.blocks).setCore n (some j)) n (some j)) := by
    intro j
    unfold brkfsInodeWrite
    rw [if_neg fun hnv => hnv hv1]
    simp [setCore]
  rw [hwrite, brkfsInodeFree]
  split
  · simp [released, setCore, setTable, freeBlocks]
  · next hnv => exact absurd hv1 hnv

theorem Tree.dead_drop : (t.drop n).Dead m ↔ m ≠ n ∧ t.Dead m := by
  by_cases hm : m = n
  · subst hm
    simp [Tree.Dead, Tree.drop]
  · simp [Tree.Dead, Tree.drop, hm]

namespace Removed

variable (hr : Removed s s1 n)

include hr

theorem stat_released (hm : m ≠ n) :
    (released s1 n i).stat m = s.stat m ∧ (released s1 n i).blocksOf m = s.blocksOf m := by
  apply stat_of_plain
  · rw [hr.rest]
    exact update_of_ne hm _ _
  · rw [hr.rest]
    exact update_of_ne hm _ _
  · rw [← hr.table m]
    exact congrArg (Option.map Inode.plain) (update_of_ne hm _ _)

theorem tree_released : (released s1 n i).tree = s.tree.drop n := by
  unfold tree Tree.drop
  congr 1
  · funext k
    by_cases hk : k.1 = n
    · have hempty : (released s1 n i).dir k.1 = ∅ := by
        rw [hk]
        exact update_self _ _ _
      rw [if_pos hk]
      simp [child, entry, hempty]
    · have hd : (released s1 n i).dir k.1 = s.dir k.1 := by
        rw [hr.rest]
        exact update_of_ne hk _ _
      rw [if_neg hk]
      simp [child, entry, hd]
  · refine eq_update_iff.2 ⟨?_, fun m hm => (hr.stat_released hm).1⟩
    simp [stat, released]

theorem list_released (h : s.Safe) (sb : Nat) : ∃ l, (released s1 n i).OrphanList sb l := by
  have hnext : ∀ a, (⟨sb, a⟩ : Node) ≠ n → (released s1 n i).nextOf sb a = s1.nextOf sb a :=
    fun a ha => congrArg (Option.map Inode.nextOrphan) (update_of_ne ha _ _)
  by_cases hsb : sb = n.sb
  · subst hsb
    obtain ⟨l, hthread, hnd, hmem⟩ := hr.list
    refine ⟨l, hthread.congr fun a ha => hnext a fun he => ?_, hnd, fun ino => ?_⟩
    · exact ((hmem a).mp ha).1 (congrArg Node.ino he)
    rw [hmem, hr.tree_released, Tree.dead_drop]
    apply and_congr_left'
    apply not_congr
    constructor
    · intro he
      rw [he]
    · exact congrArg Node.ino
  · obtain ⟨l, hl⟩ := h.list sb
    obtain ⟨horphan, hnextOf⟩ := hr.others sb hsb
    have hne : ∀ a, (⟨sb, a⟩ : Node) ≠ n := fun a he => hsb (congrArg Node.sb he)
    refine ⟨l, ?_, hl.nodup, fun ino => ?_⟩
    · have hthread : Threaded (s1.nextOf sb) (s1.orphan sb) l := by
        rw [horphan, hnextOf]
        exact hl.threaded
      exact hthread.congr fun a _ => hnext a (hne a)
    · rw [hl.mem, hr.tree_released, Tree.dead_drop, and_iff_right (hne ino)]

/-- The blocks of the inode are free, and no other inode has one of them. -/
theorem blocks_released (h : s.Safe) (hi : s.core n = some i) (b : Nat)
    (hb : b ∈ (released s1 n i).blocksOf m) :
    b ∈ s.blocksOf m ∧ (released s1 n i).busy m.sb b := by
  have hm : m ≠ n := by
    rintro rfl
    simp [blocksOf, released] at hb
  rw [(hr.stat_released hm).2] at hb
  refine ⟨hb, ?_⟩
  have hbusy := h.owned m b hb
  rw [hr.rest]
  by_cases hsb : m.sb = n.sb
  · have hnot : b ∉ i.blocks := by
      rw [← blocksOf_of_core (h.mounted.loaded n i hi).1 hi]
      exact h.apart m n hsb hm b hb
    rw [hsb] at hbusy
    simp [released, hsb, hnot, hbusy]
  · simp [released, hsb, hbusy]

end Removed

/-- An inode without a name leaves the list, its blocks and its number with its last put. -/
theorem Sys.Safe.release (h : s.Safe) (hi : s.core n = some i) (h0 : i.nlink = 0)
    (hr : Removed s s1 n) : (released s1 n i).Safe := by
  have hstat : s.tree.stat n = some i.stat := stat_of_core (h.mounted.loaded n i hi).1 hi
  have hroot := h.root n ⟨i.stat, hstat, h0⟩
  refine h.gone (n := n) ⟨?_, ?_, fun m hm => ?_, fun m hm => ?_, fun hu => ?_, fun m => ?_,
    fun m => hr.blocks_released h hi⟩ ?_ (hr.list_released h)
  · rw [hr.rest]
    rfl
  · rw [hr.rest]
    rfl
  · have hmn : m ≠ n := by
      rcases hm with hm | hm
      · exact hm
      · exact fun he => hroot (he ▸ hm)
    rw [hr.rest]
    exact update_of_ne hmn _ _
  · rw [← hr.table m]
    exact congrArg (Option.map Inode.plain) (update_of_ne hm _ _)
  · simp [released] at hu
  · rw [hr.tree_released, Tree.dead_drop]
  · rw [hr.tree_released]
    exact h.sound.drop hstat h0

/-- The last put of an inode keeps the volume in order. -/
theorem Sys.Safe.evict (h : s.Safe) (hc : (s.core n).isSome) : (s.brkfsEvictInode n).Safe := by
  obtain ⟨i, hi⟩ := isSome_iff_exists.mp hc
  obtain ⟨hu, hv, -⟩ := h.mounted.loaded n i hi
  by_cases h0 : i.nlink = 0
  · have hr := brkfsOrphanRemove_removed h ⟨i.stat, stat_of_core hu hi, h0⟩
    rw [brkfsEvictInode_dead hi h0 hv rfl hr.rest]
    exact h.release hi h0 hr
  have hpos := pos_of_ne_zero h0
  have hput : s.brkfsEvictInode n = setCore (s.setTable n (some i)) n none := by
    unfold brkfsEvictInode
    simp only [hpos, if_true, brkfsInodeWrite, hv, not_true_eq_false, if_false, hi]
  rw [hput]
  exact h.put hi hpos

end Evict

/-! ## Calls that fail -/

/-- Nothing fails but for want of room in a directory. -/
def Env.Quiet (e : Env) : Prop := ∀ site, site ≠ .add → e.fault site = none

section Failures

variable {s s' : Sys} {e : Env} {d n : Node} {dentry : Dentry} {x : Errno} {ino : Nat}

theorem Res.next_eq_error {r : Res} {k : Sys → Res} (h : r.next k = (.error x, s')) :
    r = (.error x, s') ∨ ∃ s1, r = (.ok (), s1) ∧ k s1 = (.error x, s') := by
  obtain ⟨y, s1⟩ := r
  cases y with
  | error y => exact .inl h
  | ok u => exact .inr ⟨s1, rfl, h⟩

/-- A write of an inode with a good number does not fail. -/
theorem brkfsInodeWrite_ne_error (hv : s.validIno sb n.ino) :
    s.brkfsInodeWrite sb n none ≠ (.error x, s') := by
  unfold brkfsInodeWrite
  rw [if_neg fun hnv => hnv hv]
  intro h
  cases h

theorem brkfsDirRemove_eq_error (h : s.brkfsDirRemove d name none = (.error x, s')) :
    s' = s ∧ s.entry d name = none := by
  unfold brkfsDirRemove at h
  simp only at h
  split at h
  · next hnone =>
    cases h
    exact ⟨rfl, by simpa using hnone.1⟩
  · cases h

/-- Nor do two writes after each other. -/
theorem next_write_ne_error {f : Sys → Sys} (hf : ∀ s, (f s).inodesCount = s.inodesCount)
    (hd : s.validIno sb d.ino) (hn : s.validIno sb n.ino) :
    ((s.brkfsInodeWrite sb d none).next fun s1 => (f s1).brkfsInodeWrite sb n none) ≠
      (.error x, s') := by
  intro h
  rcases Res.next_eq_error h with h | ⟨s1, h1, h⟩
  · exact brkfsInodeWrite_ne_error hd h
  · obtain rfl := brkfsInodeWrite_eq_ok h1
    refine brkfsInodeWrite_ne_error ((validIno_congr ?_).mpr hn) h
    exact hf _

theorem brkfsUnlink_error (he : e.Quiet) (hd : s.validIno d.sb d.ino) (hn : s.validIno d.sb n.ino)
    (h : s.brkfsUnlink e d n name = (.error x, s')) : s' = s := by
  unfold brkfsUnlink at h
  rw [he .remove (by decide), he .writeDir (by decide), he .writeInode (by decide)] at h
  split at h
  · cases h
    rfl
  rcases Res.next_eq_error h with h | ⟨s1, h1, h⟩
  · exact (brkfsDirRemove_eq_error h).1
  obtain rfl := brkfsDirRemove_eq_ok h1
  refine absurd h (next_write_ne_error (fun _ => rfl) ((validIno_congr ?_).mpr hd)
    ((validIno_congr ?_).mpr hn)) <;>
  · split
    · rfl
    · rfl

theorem brkfsRmdir_error (he : e.Quiet) (hd : s.validIno d.sb d.ino) (hn : s.validIno d.sb n.ino)
    (h : s.brkfsRmdir e d n name = some (.error x, s')) : s' = s := by
  unfold brkfsRmdir at h
  rw [he .remove (by decide), he .writeDir (by decide), he .writeInode (by decide)] at h
  split at h
  · cases h
    rfl
  split at h
  · cases h
  split at h
  · cases h
    rfl
  · cases h
    rfl
  rcases Res.next_eq_error (some.inj h) with h | ⟨s1, h1, h⟩
  · exact (brkfsDirRemove_eq_error h).1
  obtain rfl := brkfsDirRemove_eq_ok h1
  exact absurd h (next_write_ne_error (fun _ => rfl) hd hn)

theorem addBlocks_nil : s.addBlocks n [] = s := by
  have hcore : update s.core n
      ((s.core n).map fun i => { i with blocks := i.blocks ++ [] }) = s.core := by
    simp
  have hbusy : (update s.busy n.sb fun b => decide (b ∈ [] ∨ s.busy n.sb b = true)) = s.busy := by
    simp
  unfold Sys.addBlocks Sys.modify Sys.setCore
  simp only [hcore, hbusy]

/-- An entry that is removed and put back. -/
theorem insertEntry_eraseEntry (h : s.entry d name = some ino) :
    (s.eraseEntry d name).insertEntry d name ino = s := by
  have hdir : ((s.dir d).erase name).insert name ino = s.dir d := by
    apply Finmap.ext_lookup
    intro a
    by_cases ha : a = name
    · subst ha
      rw [Finmap.lookup_insert]
      exact h.symm
    · rw [Finmap.lookup_insert_of_ne _ ha, Finmap.lookup_erase_ne ha]
  unfold insertEntry eraseEntry
  simp [hdir]

theorem renameMove_error (he : e.Quiet) (hk : s.kindOf n ≠ .unknown)
    (hold : (s.entry oldDir oldName).isSome)
    (h : s.renameMove e n oldDir oldName newDir nd = (.error x, s')) :
    s' = s.renameUndo e newDir nd := by
  unfold renameMove at h
  rw [brkfsDirAdd_eq _ _ _ _ _ _ hk] at h
  cases hf : e.fault .add with
  | some y =>
    rw [hf] at h
    cases h
    rfl
  | none =>
    rw [hf] at h
    have hsome : (((s.addBlocks newDir e.grow).insertEntry newDir nd.name n.ino).entry oldDir
        oldName).isSome := by
      rw [entry_insertEntry, entry_addBlocks]
      split
      · rfl
      · exact hold
    simp only [elim_none] at h
    rw [he .removeOld (by decide), brkfsDirRemove_eq _ _ _ _ hsome] at h
    cases h

/-- Edits that fail for want of room are undone. -/
theorem renameEdit_error (he : e.Quiet) (hed : Sys.Edits s n oldDir oldName newDir nd)
    (h : s.renameEdit e n oldDir oldName newDir nd = (.error x, s')) : s' = s := by
  unfold renameEdit at h
  cases hnd : nd.inode with
  | none =>
    simp only [hnd, isSome_none, Bool.false_eq_true, if_false, Res.next] at h
    rw [renameMove_error he hed.kind (by rw [hed.old]; rfl) h, renameUndo, hnd]
  | some t =>
    have hnew := hed.new
    rw [hnd] at hnew
    simp only [hnd, isSome_some, if_true] at h
    rw [he .remove (by decide), brkfsDirRemove_eq _ _ _ _ (by rw [hnew]; rfl)] at h
    have hold : ((s.eraseEntry newDir nd.name).entry oldDir oldName).isSome := by
      rw [entry_eraseEntry, if_neg hed.two, hed.old]
      rfl
    rw [renameMove_error (s := s.eraseEntry _ _) he hed.kind hold h, renameUndo, hnd]
    have hk : (s.eraseEntry newDir nd.name).kindOf t ≠ .unknown := hed.targetKind t hnd
    simp only [brkfsDirAdd_eq _ _ _ _ _ _ hk, he .undoAdd (by decide), elim_none, addBlocks_nil]
    exact insertEntry_eraseEntry hnew

theorem kindOf_ne_unknown (hm : s.Mounted) (hc : (s.core n).isSome) : s.kindOf n ≠ .unknown := by
  obtain ⟨i, hi⟩ := isSome_iff_exists.mp hc
  simpa [kindOf, hi] using (hm.loaded n i hi).2.2

theorem Sys.Mounted.validIno (hm : s.Mounted) (hc : (s.core n).isSome) : s.validIno n.sb n.ino := by
  obtain ⟨i, hi⟩ := isSome_iff_exists.mp hc
  exact (hm.loaded n i hi).2.1

theorem brkfsRename_error {od : Dentry} {noreplace : Bool} (he : e.Quiet) (hm : s.Mounted)
    (hod : od.At s oldDir) (hnd : nd.At s newDir) (hvol : newDir.sb = oldDir.sb)
    (h : s.brkfsRename e oldDir od newDir nd noreplace = some (.error x, s')) : s' = s := by
  have hone : e.OneFailure := ⟨.add, rfl, he⟩
  have hinode : ∀ m, od.inode = some m ∨ nd.inode = some m →
      m.sb = oldDir.sb ∧ (s.core m).isSome := by
    rintro m (hm' | hm')
    · exact hod.inode m hm'
    · exact ⟨(hnd.inode m hm').1.trans hvol, (hnd.inode m hm').2⟩
  have hcall : RenameCall s oldDir od newDir nd := by
    refine ⟨hvol, fun d hd => ?_, fun m hm' => ?_⟩
    · rcases hd with rfl | rfl
      · exact hm.validIno (isSome_core_of_isDir hod.isDir)
      · exact hvol ▸ hm.validIno (isSome_core_of_isDir hnd.isDir)
    · obtain ⟨hsb, hc⟩ := hinode m hm'
      exact ⟨hsb, hsb ▸ hm.validIno hc, kindOf_ne_unknown hm hc⟩
  rcases brkfsRename_cases s e oldDir od newDir nd noreplace with hnone | ⟨y, hy⟩ |
    ⟨n, hn, -, -, -, hold, htarget, hlocks, -, hrun⟩
  · rw [hnone] at h
    cases h
  · rw [hy] at h
    cases h
    rfl
  have hnew := ((renameTargetError_eq_none (hone.none_of_not_injected rfl)).mp htarget).2
  have hed := Sys.Edits.of_call hcall hn hold hnew hlocks
  rw [hrun] at h
  rcases Res.next_eq_error (some.inj h) with h | ⟨s1, h1, h⟩
  · exact renameEdit_error he hed h
  -- the writes do not fail
  have hcount : s1.inodesCount = s.inodesCount := by
    rcases renameEdit_spec hed hone with ⟨hfail, -⟩ | ⟨-, hcount, -⟩
    · rw [h1] at hfail
      cases hfail
    · rw [h1] at hcount
      exact hcount
  have hfails := (failed_renameWrite_iff e hcall hn hcount).mp (by rw [h]; rfl)
  simp [Sys.WriteFails, he .writeTarget (by decide), he .writeInode (by decide),
    he .writeDir (by decide), he .writeNewDir (by decide)] at hfails

theorem brkfsLookup_error (h : s.brkfsLookup e d name = (.error x, s')) : s' = s := by
  unfold brkfsLookup at h
  split at h
  · split at h
    · cases h
    · cases h
      rfl
  split at h
  · cases h
    rfl
  split at h
  · cases h
  unfold brkfsInitLoadedInode at h
  split at h
  · cases h
    rfl
  split at h
  · cases h
    rfl
  · cases h

/-- An inode that is made fails to be made only before it is allocated. -/
theorem newInode_error {nlink : Nat} (he : e.Quiet)
    (h : s.newInode e d dentry kind nlink = (.error x, s')) : s' = s := by
  unfold newInode at h
  split at h
  · cases h
    rfl
  split at h
  · cases h
    rfl
  split at h
  · cases h
    rfl
  unfold brkfsInodeAlloc at h
  rw [he .alloc (by decide), he .init (by decide), he .getLocked (by decide),
    he .load (by decide)] at h
  cases hbit : s.freeBit d.sb with
  | none =>
    rw [hbit] at h
    cases h
    rfl
  | some bit =>
    -- the number is a good one, so nothing more can fail
    have hv : 1 ≤ bit + 1 ∧ bit + 1 ≤ s.inodesCount d.sb := (freeBit_eq_some hbit).2
    rw [hbit] at h
    simp [brkfsDiskInodeInit, brkfsInitLoadedInode, brkfsInodeRead, validIno, setTable, hv.2] at h

/-- A new inode that gets no name is thrown away: what is left of it is a slot of an inode that is
not allocated. -/
theorem brkfsDiscardNewInode_fresh (h : s.Safe) (hfree : s.used n = false)
    (hv : s.validIno n.sb n.ino) :
    (s.fresh n kind 1).brkfsDiscardNewInode n = s.setTable n (some ⟨kind, 0, 0, []⟩) := by
  have hcore := h.mounted.core_eq_none hfree
  have hstat : s.tree.stat n = none := by simp [Sys.tree, Sys.stat, hfree]
  have hdir : s.dir n = ∅ := Finmap.ext_lookup fun name => entry_of_unused h.sound hfree name
  -- the list of orphans does not have the inode
  have hwalk : Sys.brkfsOrphanRemove ((s.fresh n kind 1).setNlink n 0) n.sb n.ino =
      (s.fresh n kind 1).setNlink n 0 := by
    obtain ⟨l, hl⟩ := h.list n.sb
    have hnot : n.ino ∉ l := by
      intro hmem
      obtain ⟨st, hst, -⟩ := (hl.mem n.ino).mp hmem
      rw [hstat] at hst
      cases hst
    refine Sys.orphanRemoveLoop_of_notMem (l := l) (hl.threaded.congr fun a ha => ?_) hnot
    have hne : (⟨n.sb, a⟩ : Node) ≠ n := fun he => hnot ((congrArg Node.ino he) ▸ ha)
    exact congrArg (Option.map Inode.nextOrphan) (update_of_ne hne _ _)
  have hi : ((s.fresh n kind 1).setNlink n 0).core n = some ⟨kind, 0, 0, []⟩ := by
    simp [Sys.fresh, Sys.setNlink, Sys.modify, Sys.setCore]
  have hevict := brkfsEvictInode_dead hi rfl hv hwalk rfl
  unfold Sys.brkfsDiscardNewInode
  rw [hevict]
  have hused : update (update s.used n true) n false = s.used := by
    rw [update_idem, ← hfree, update_eq_self]
  have hcore' : update s.core n none = s.core := by
    rw [← hcore, update_eq_self]
  have hdir' : update s.dir n ∅ = s.dir := by
    rw [← hdir, update_eq_self]
  simp [released, Sys.fresh, Sys.setNlink, Sys.modify, Sys.setCore, Sys.setTable, hused, hcore',
    hdir']

/-- The slot of an inode that is not allocated does not matter. -/
theorem Sys.Safe.setTable (h : s.Safe) (hfree : s.used n = false) (i : Option Inode) :
    (s.setTable n i).Safe := by
  have hsame : Sys.setCore (s.setTable n i) n none = s.setTable n i := by
    simp [Sys.setCore, Sys.setTable, ← h.mounted.core_eq_none hfree]
  have hlive : ¬ s.tree.Dead n := by
    rintro ⟨st, hst, -⟩
    simp [Sys.tree, Sys.stat, hfree] at hst
  rw [← hsame]
  exact h.leave hlive fun hu => absurd (hfree.symm.trans hu) Bool.false_ne_true

theorem create_error (he : e.Quiet) (hs : s.Safe) (hat : dentry.At s d)
    (h : s.brkfsCreate e d dentry = (.error x, s')) : s'.Safe := by
  have hd := isSome_core_of_isDir hat.isDir
  unfold brkfsCreate createNode withInode at h
  split at h
  next y s1 hnew =>
    cases h
    rw [newInode_error he hnew]
    exact hs
  next n s1 hnew =>
    obtain ⟨-, hsb, hfree, hv, rfl⟩ := newInode_eq_ok hnew
    have hkind : Kind.reg ≠ Kind.unknown := by decide
    simp only [orDiscard, brkfsDirAdd_eq _ _ _ _ _ _ hkind] at h
    cases hf : e.fault .add with
    | some y =>
      rw [hf] at h
      cases h
      rw [elim_some, brkfsDiscardNewInode_fresh hs hfree hv]
      exact hs.setTable hfree _
    | none =>
      rw [hf, he .writeDir (by decide), he .writeInode (by decide)] at h
      exact absurd h (next_write_ne_error (fun _ => rfl) (hs.mounted.validIno hd) (hsb ▸ hv))

end Failures

/-! ## Runs -/

/-- What happens to a volume: a call of an operation on names, a write to an open file, or the last
put of an inode. -/
inductive Act where
  | create (d : Node) (x : Dentry)
  | unlink (d : Node) (x : Dentry)
  | rmdir (d : Node) (x : Dentry)
  | rename (oldDir : Node) (od : Dentry) (newDir : Node) (nd : Dentry) (noreplace : Bool)
  | lookup (d : Node) (name : Name)
  | write (n : Node)
  | evict (n : Node)

namespace Act

def exec (e : Env) (s : Sys) : Act → Option Res
  | .create d x => some (s.brkfsCreate e d x)
  | .unlink d x => x.inode.map fun n => s.brkfsUnlink e d n x.name
  | .rmdir d x => x.inode.bind fun n => s.brkfsRmdir e d n x.name
  | .rename oldDir od newDir nd noreplace => s.brkfsRename e oldDir od newDir nd noreplace
  | .lookup d name => some (s.brkfsLookup e d name)
  | .write n => some (s.brkfsFileWrite n e.data (e.fault .fill))
  | .evict n => some (.ok (), s.brkfsEvictInode n)

/-- The dentries are what the directories have for their names, in one volume, and what is written
or put is in memory. -/
def Called (s : Sys) : Act → Prop
  | .create d x | .unlink d x | .rmdir d x => x.At s d
  | .rename oldDir od newDir nd _ => od.At s oldDir ∧ nd.At s newDir ∧ newDir.sb = oldDir.sb
  | .lookup d _ => s.isDir d
  | .write n | .evict n => (s.core n).isSome

/-- The block allocator hands out blocks that are free. -/
def Free (e : Env) (s : Sys) : Act → Prop
  | .create d _ => ∀ b ∈ e.grow, s.busy d.sb b = false
  | .rename _ _ newDir _ _ => ∀ b ∈ e.grow, s.busy newDir.sb b = false
  | .write n => ∀ b ∈ e.data, s.busy n.sb b = false
  | _ => True

/-- The inodes that were there before and that the act writes. -/
def Writes (m : Node) : Act → Prop
  | .create d _ => m = d
  | .unlink d x | .rmdir d x => m = d ∨ x.inode = some m
  | .rename oldDir od newDir nd _ =>
    od.inode = some m ∨ m = oldDir ∨ m = newDir ∨ nd.inode = some m
  | .write n => m = n
  | .lookup _ _ | .evict _ => False

/-- No orphan is written whose copy in memory has another successor than its slot. -/
def Fresh (s : Sys) (a : Act) : Prop := FreshOn s fun m => a.Writes m

end Act

/-- A step of a volume on a disk that does not fail. -/
def Acts (s s' : Sys) : Prop :=
  ∃ (a : Act) (e : Env) (r : Except Errno Unit),
    e.Quiet ∧ a.Called s ∧ a.Free e s ∧ a.exec e s = some (r, s')

/-- A step that writes no orphan with an old successor. -/
def FreshActs (s s' : Sys) : Prop :=
  ∃ (a : Act) (e : Env) (r : Except Errno Unit),
    e.Quiet ∧ a.Called s ∧ a.Free e s ∧ a.Fresh s ∧ a.exec e s = some (r, s')

/-- The volume as the next mount finds it: nothing is in memory. -/
def Sys.crash (s : Sys) : Sys := { s with core := fun _ => none }

/-- The inode, its slot, its entries and its blocks are still what they were. -/
structure Kept (s s' : Sys) (n : Node) : Prop where
  used : s'.used n = s.used n
  slot : s'.table n = s.table n
  dir : s'.dir n = s.dir n
  blocks : ∀ b ∈ s.blocksOf n, s'.busy n.sb b = s.busy n.sb b

/-- The list on the disk holds allocated inodes without a name, each once, and the clean-up at the
next mount keeps the root and every inode that a directory has. -/
structure Recoverable (s : Sys) (sb : Nat) : Prop where
  list : ∃ l, Threaded (s.nextOf sb) (s.orphan sb) l ∧ l.Nodup ∧
    ∀ ino ∈ l, s.used ⟨sb, ino⟩ ∧ ∃ i, s.table ⟨sb, ino⟩ = some i ∧ i.nlink = 0
  kept : ∀ n, n.sb = sb → s.Linked n → Kept s (s.crash.brkfsOrphanCleanup sb) n

section Recovery

variable {s s' : Sys}

/-- A directory has no entry for an inode without a name. -/
theorem Sys.Safe.not_dead_of_linked (h : s.Safe) {n : Node} (hl : s.Linked n) :
    ¬ s.tree.Dead n := by
  intro hd
  obtain ⟨st, hst, h0⟩ := id hd
  rcases hl with hroot | hlinks
  · exact h.root n hd hroot
  · rw [h.sound.links_eq_empty_of_zero comparison_le hst h0] at hlinks
    exact Set.not_nonempty_empty hlinks

theorem Sys.Safe.recoverable (h : s.Safe) (sb : Nat) : Recoverable s sb := by
  obtain ⟨l, hl⟩ := h.list sb
  have hslot : ∀ ino ∈ l, s.used ⟨sb, ino⟩ ∧ ∃ i, s.table ⟨sb, ino⟩ = some i ∧ i.nlink = 0 ∧
      i.blocks = s.blocksOf ⟨sb, ino⟩ := by
    intro ino hino
    obtain ⟨i, t, hi, h0, ht, hit⟩ := h.dead ((hl.mem ino).mp hino)
    obtain ⟨hst, hb⟩ := plain_stat hit
    have hu := (h.mounted.loaded _ i hi).1
    have hn : i.nlink = t.nlink := congrArg Stat.nlink hst
    exact ⟨hu, t, ht, hn ▸ h0, by rw [blocksOf_of_core hu hi, hb]⟩
  refine ⟨⟨l, hl.threaded, hl.nodup, fun ino hino => ?_⟩, fun n hsb hlinked => ?_⟩
  · obtain ⟨hu, i, hi, h0, -⟩ := hslot ino hino
    exact ⟨hu, i, hi, h0⟩
  have hlive := h.not_dead_of_linked hlinked
  have hcrash : Threaded (s.crash.nextOf sb) (s.crash.orphan sb) l := hl.threaded
  obtain ⟨hframe, hbusy⟩ := orphanCleanupLoop_frame hcrash hl.nodup
  have hnot : n.sb = sb → n.ino ∉ l := by
    rintro rfl hmem
    exact hlive ((hl.mem n.ino).mp hmem)
  obtain ⟨hused, htable, hdir⟩ := hframe n hnot
  refine ⟨hused, htable, hdir, fun b hb => hbusy n.sb b fun a ha i hi => ?_⟩
  obtain ⟨-, j, hj, -, hblocks⟩ := hslot a ha
  obtain rfl : j = i := some.inj (hj.symm.trans hi)
  rw [hblocks]
  refine h.apart n ⟨sb, a⟩ hsb (fun he => ?_) b hb
  exact hnot hsb (he ▸ ha)

/-- Every step that writes no orphan with an old successor keeps the volume in order. -/
theorem FreshActs.safe (h : s.Safe) (hstep : FreshActs s s') : s'.Safe := by
  obtain ⟨a, e, r, he, hc, hfree, hfresh, hexec⟩ := hstep
  have hm := h.mounted
  have hvalid {d : Node} {x : Dentry} (hat : x.At s d) : s.validIno d.sb d.ino ∧
      ∀ n, x.inode = some n → s.validIno d.sb n.ino := by
    refine ⟨hm.validIno (isSome_core_of_isDir hat.isDir), fun n hn => ?_⟩
    exact (hat.inode n hn).1 ▸ hm.validIno (hat.inode n hn).2
  cases a with
  | create d x =>
    have hexec := some.inj hexec
    cases r with
    | error y => exact create_error he h hc hexec
    | ok u =>
      refine h.ended (create_ended hm h.sound comparison_le hc (by decide) hexec) ?_ hfree
      rintro m (hmd | hmu) i t hi
      · exact hfresh m hmd i t hi
      · rw [hm.core_eq_none hmu] at hi
        cases hi
  | unlink d x =>
    obtain ⟨n, hn, hexec⟩ := map_eq_some_iff.mp hexec
    cases r with
    | error y =>
      rw [brkfsUnlink_error he (hvalid hc).1 ((hvalid hc).2 n hn) hexec]
      exact h
    | ok u =>
      refine h.ended (unlink_ended hm h.sound comparison_le hc hn hexec) ?_
        (fun b hb => absurd hb not_mem_nil)
      intro m hmem
      exact hfresh m (hmem.imp_right fun hmn => hn.trans (congrArg some hmn.symm))
  | rmdir d x =>
    obtain ⟨n, hn, hexec⟩ := bind_eq_some_iff.mp hexec
    cases r with
    | error y =>
      rw [brkfsRmdir_error he (hvalid hc).1 ((hvalid hc).2 n hn) hexec]
      exact h
    | ok u =>
      refine h.ended (rmdir_ended hm h.sound hc hn hexec) ?_ (fun b hb => absurd hb not_mem_nil)
      intro m hmem
      exact hfresh m (hmem.imp_right fun hmn => hn.trans (congrArg some hmn.symm))
  | rename oldDir od newDir nd noreplace =>
    obtain ⟨hod, hnd, hvol⟩ := hc
    cases r with
    | error y =>
      rw [brkfsRename_error he hm hod hnd hvol hexec]
      exact h
    | ok u =>
      exact h.ended (rename_ended hm h.sound comparison_le hod hnd hvol hexec) hfresh hfree
  | lookup d name =>
    have hexec := some.inj hexec
    cases r with
    | error y =>
      rw [brkfsLookup_error hexec]
      exact h
    | ok u =>
      refine h.ended (lookup_ended hm h.sound hc hexec) ?_ (fun b hb => absurd hb not_mem_nil)
      intro m hnone i t hi
      rw [hnone] at hi
      cases hi
  | write n =>
    have hexec := some.inj hexec
    rw [he .fill (by decide)] at hexec
    exact h.ended (write_ended h hc hexec) hfresh hfree
  | evict n =>
    obtain rfl : s.brkfsEvictInode n = s' := congrArg Prod.snd (some.inj hexec)
    exact h.evict hc

end Recovery

/-! ### A stale successor -/

theorem safe_emptyVolume : emptyVolume.Safe := by
  have hdead : ∀ n, ¬ emptyVolume.tree.Dead n := by
    rintro n ⟨st, hst, h0⟩
    obtain ⟨-, rfl⟩ := stat_emptyVolume hst
    cases h0
  have hblocks : ∀ n b, b ∈ emptyVolume.blocksOf n → n = ⟨0, 1⟩ ∧ b = 9 := by
    intro n b hb
    by_cases hn : n = ⟨0, 1⟩
    · subst hn
      exact ⟨rfl, mem_singleton.mp hb⟩
    · simp [blocksOf, emptyVolume, hn] at hb
  refine ⟨exact_emptyVolume.mounted, exact_emptyVolume.sound.mono fun a b he => he.le,
    fun n i hi => ?_, fun n hn => absurd hn (hdead n), fun n hn => absurd hn (hdead n),
    fun sb => ⟨[], rfl, nodup_nil, fun ino => ?_⟩, fun n b hb => ?_,
    fun n m _ hne b hb hb' => ?_⟩
  · exact ⟨i, hi, rfl⟩
  · exact ⟨fun h => absurd h not_mem_nil, fun h => absurd h (hdead _)⟩
  · obtain ⟨rfl, rfl⟩ := hblocks n b hb
    rfl
  · exact hne ((hblocks n b hb).1.trans (hblocks m b hb').1.symm)

/-- The state after an act on a disk that does not fail. -/
def Act.after (a : Act) (s : Sys) : Sys := ((a.exec calm s).map Prod.snd).getD s

theorem quiet_calm : calm.Quiet := fun _ _ => rfl

/-- The file `a` is made. -/
def firstFile : Sys := (Act.create ⟨0, 1⟩ ⟨[97], none⟩).after emptyVolume

/-- It is unlinked while it is open. -/
def firstOrphan : Sys := (Act.unlink ⟨0, 1⟩ ⟨[97], some ⟨0, 2⟩⟩).after firstFile

/-- The files `a` and `b` are made. -/
def twoFiles : Sys := (Act.create ⟨0, 1⟩ ⟨[98], none⟩).after firstFile

/-- Both are unlinked while they are open. -/
def twoOrphans : Sys :=
  (Act.unlink ⟨0, 1⟩ ⟨[98], some ⟨0, 3⟩⟩).after
    ((Act.unlink ⟨0, 1⟩ ⟨[97], some ⟨0, 2⟩⟩).after twoFiles)

/-- The first is put, which takes it off the list behind the second; the second is written, which
puts it back; and the file `c` gets its number. -/
def staleSuccessor : Sys :=
  (Act.create ⟨0, 1⟩ ⟨[99], none⟩).after
    ((Act.write ⟨0, 3⟩).after ((Act.evict ⟨0, 2⟩).after twoOrphans))

end BrkKernel.Names
