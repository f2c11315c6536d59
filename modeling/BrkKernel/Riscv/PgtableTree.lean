import Mathlib.Data.List.Nodup
import BrkKernel.Riscv.Pgtable

/-!
# Page table words and page table trees

`HoldsRoot mem root e` says that the words from the table at `root` on spell out the tree `e`. As
long as no frame is used twice, the functions on words follow the functions on trees step by step
(`place_sim`, `removeFrom_sim`, `mapPages_sim`, `unmapRange_sim`).

`mapPages_exact` is the result about the words. On a table with vacant leaf slots `map_pages` of a
range of canonical addresses trips no assertion; when it succeeds, the walk of the table gives the
requested translation in the range and the old one everywhere else, and `unmap_pages` brings back
the old one everywhere. The upper bits of an address take no part in the walk, so a range that is
not canonical changes the translation of addresses outside it (`mapPages_aliased`).
-/

set_option autoImplicit false

namespace BrkKernel.Riscv

open Lib Lib.Radix Mm Function

variable {d f g i k lvl n pfn t t' m : Nat} {sub : Nat → Radix Leaf} {mem' : PtMem}
  {e e' x : Radix Leaf} {L : Type}

/-! ## Words that spell a tree -/

/-- The word `w`, as an entry of level `lvl`, spells the tree entry. -/
def Holds (mem : PtMem) : Nat → Nat → Radix Leaf → Prop
  | _, w, .empty => entryIsValid w = false
  | lvl, w, .leaf l =>
    entryIsValid w = true ∧ (lvl = 0 ∨ entryIsLeaf w = true) ∧ decode lvl w = l
  | 0, _, .table _ _ => False
  | lvl + 1, w, .table f sub =>
    entryIsValid w = true ∧ entryIsLeaf w = false ∧ entryNext w = pageSize * f ∧
      ∀ i, i < ptrsPerTable → Holds mem lvl (mem (pageSize * f) i) (sub i)

/-- The table in the frame `f`, whose entries are of level `lvl`, spells `sub`. -/
def HoldsTable (mem : PtMem) (lvl f : Nat) (sub : Nat → Radix Leaf) : Prop :=
  ∀ i, i < ptrsPerTable → Holds mem lvl (mem (pageSize * f) i) (sub i)

/-- The page table at `root` spells the tree `e`. -/
def HoldsRoot (mem : PtMem) (root : Nat) (e : Radix Leaf) : Prop :=
  ∃ f sub, e = .table f sub ∧ root = pageSize * f ∧ HoldsTable mem 2 f sub

/-- `alloc_frame` by frame numbers. -/
def allocPfn (pool : List Nat) : Option Nat × List Nat :=
  (if (allocFrame pool).1 = 0 then none else some ((allocFrame pool).1 / pageSize),
    (allocFrame pool).2)

/-- The frames still to come are pages that nothing uses, `h` says what is used, and nothing is
used twice. -/
structure Fresh (pool : List Nat) (h : Nat → Nat) : Prop where
  page : ∀ pa ∈ pool, pa % 4096 = 0 ∧ pa < 2 ^ 64
  once : ∀ g, h g + (pool.filter (· ≠ 0)).count (pageSize * g) ≤ 1

/-- The functions on words from the table `t` of level `lvl` on: `mapStep` with its three levels
folded into one. -/
def placeFrom (t k w : Nat) : Nat → Nat → PtMem → List Nat → Status × PtMem × List Nat
  | 0, tbl, mem, pool => setLeaf mem pool tbl (digit ptrsPerTable k 0) w
  | lvl + 1, tbl, mem, pool =>
    if lvl + 1 = t then setLeaf mem pool tbl (digit ptrsPerTable k (lvl + 1)) w
    else
      match nextTable mem pool tbl (digit ptrsPerTable k (lvl + 1)) with
      | (none, mem, pool) => (.noMem, mem, pool)
      | (some tbl', mem, pool) => placeFrom t k w lvl tbl' mem pool

/-- `unmapStep` with its three levels folded into one. -/
def removeFrom (k : Nat) : Nat → Nat → PtMem → Option (Nat × PtMem)
  | 0, tbl, mem =>
    if entryIsValid (mem tbl (digit ptrsPerTable k 0)) then
      some (0, mem.set tbl (digit ptrsPerTable k 0) 0)
    else none
  | lvl + 1, tbl, mem =>
    if entryIsLeaf (mem tbl (digit ptrsPerTable k (lvl + 1))) then
      some (lvl + 1, mem.set tbl (digit ptrsPerTable k (lvl + 1)) 0)
    else if entryIsValid (mem tbl (digit ptrsPerTable k (lvl + 1))) then
      removeFrom k lvl (entryNext (mem tbl (digit ptrsPerTable k (lvl + 1)))) mem
    else none

section Memory

variable {mem mem' : PtMem} {t i j w : Nat}

@[simp]
theorem set_self : mem.set t i w t i = w := by simp [PtMem.set]

theorem set_of_ne_index (h : j ≠ i) : mem.set t i w t j = mem t j := by simp [PtMem.set, h]

theorem set_of_ne (h : t' ≠ t) : mem.set t i w t' = mem t' := by simp [PtMem.set, h]

@[simp]
theorem clear_self : mem.clear t t = fun _ => 0 := by simp [PtMem.clear]

theorem clear_of_ne (h : t' ≠ t) : mem.clear t t' = mem t' := by simp [PtMem.clear, h]

theorem entryIsValid_zero : entryIsValid 0 = false := rfl

theorem holds_empty : Holds mem lvl w .empty ↔ entryIsValid w = false := by
  cases lvl with
  | zero => exact Iff.rfl
  | succ lvl => exact Iff.rfl

theorem holds_leaf {l : Leaf} : Holds mem lvl w (.leaf l) ↔
    entryIsValid w = true ∧ (lvl = 0 ∨ entryIsLeaf w = true) ∧ decode lvl w = l := by
  cases lvl with
  | zero => exact Iff.rfl
  | succ lvl => exact Iff.rfl

theorem holds_table : Holds mem (lvl + 1) w (.table f sub) ↔
      entryIsValid w = true ∧ entryIsLeaf w = false ∧ entryNext w = pageSize * f ∧
        HoldsTable mem lvl f sub := Iff.rfl

theorem tables_sub_le (f : Nat) (sub : Nat → Radix L) (h : i < ptrsPerTable)
    (g : Nat) : tables ptrsPerTable (sub i) g ≤ tables ptrsPerTable (.table f sub) g := by
  have hup := congrFun (tables_update f sub h .empty) g
  simp only [Pi.add_apply, tables_empty, Pi.zero_apply] at hup
  omega

theorem tables_frame_pos (f : Nat) (sub : Nat → Radix L) :
    0 < tables ptrsPerTable (.table f sub) f := by
  rw [tables_table, Pi.add_apply, Pi.single_eq_same]
  omega

/-- A tree is spelled by its own tables only. -/
theorem Holds.congr (h : Holds mem lvl w e)
    (hsame : ∀ g, 0 < tables ptrsPerTable e g → mem' (pageSize * g) = mem (pageSize * g)) :
    Holds mem' lvl w e := by
  induction lvl generalizing w e with
  | zero =>
    cases e with
    | empty => exact h
    | leaf l => exact h
    | table f sub => exact h
  | succ lvl ih =>
    cases e with
    | empty => exact h
    | leaf l => exact h
    | table f sub =>
      obtain ⟨hv, hl, hnext, hsub⟩ := holds_table.1 h
      refine holds_table.2 ⟨hv, hl, hnext, fun i hi => ?_⟩
      rw [hsame f (tables_frame_pos f sub)]
      apply ih (hsub i hi)
      intro g hg
      exact hsame g (lt_of_lt_of_le hg (tables_sub_le f sub hi g))

/-- The walk of the words is the walk of the tree. -/
theorem HoldsTable.walkFrom (h : HoldsTable mem lvl f sub) :
    walkFrom mem k lvl (pageSize * f) = Radix.walk ptrsPerTable k (lvl + 1) (.table f sub) := by
  induction lvl generalizing f sub with
  | zero =>
    have hd := h _ (digit_lt k 0 (by decide))
    rw [walk_table]
    cases hs : sub (digit ptrsPerTable k 0) with
    | empty =>
      rw [hs, holds_empty] at hd
      simp [Riscv.walkFrom, hd]
    | leaf l =>
      rw [hs, holds_leaf] at hd
      simp [Riscv.walkFrom, hd.1, hd.2.2]
    | table f' sub' =>
      rw [hs] at hd
      exact absurd hd id
  | succ lvl ih =>
    have hd := h _ (digit_lt k (lvl + 1) (by decide))
    rw [walk_table]
    cases hs : sub (digit ptrsPerTable k (lvl + 1)) with
    | empty =>
      rw [hs, holds_empty] at hd
      simp [Riscv.walkFrom, entryIsLeaf, hd]
    | leaf l =>
      rw [hs, holds_leaf] at hd
      obtain ⟨-, hl | hl, hdec⟩ := hd
      · cases hl
      · simp [Riscv.walkFrom, hl, hdec]
    | table f' sub' =>
      rw [hs, holds_table] at hd
      obtain ⟨hv, hl, hnext, hsub⟩ := hd
      simp only [Riscv.walkFrom, hl, hv, hnext, if_true, Bool.false_eq_true, if_false]
      exact ih hsub

theorem HoldsRoot.walkFrom {root : Nat} (h : HoldsRoot mem root e) :
    walkFrom mem k 2 root = leafAt e k := by
  obtain ⟨f, sub, rfl, rfl, hsub⟩ := h
  exact hsub.walkFrom

/-- One entry of a table is written; the other entries keep their tables. -/
theorem HoldsTable.putSub (h : HoldsTable mem lvl f sub)
    (hrow : ∀ i, i ≠ d → mem' (pageSize * f) i = mem (pageSize * f) i)
    (hx : Holds mem' lvl (mem' (pageSize * f) d) x)
    (hsame : ∀ i, i < ptrsPerTable → i ≠ d → ∀ g, 0 < tables ptrsPerTable (sub i) g →
      mem' (pageSize * g) = mem (pageSize * g)) : HoldsTable mem' lvl f (update sub d x) := by
  intro i hi
  by_cases hid : i = d
  · subst hid
    rw [update_self]
    exact hx
  · rw [update_of_ne hid, hrow i hid]
    exact (h i hi).congr (hsame i hi hid)

end Memory

/-! ## One leaf -/

section Steps

variable {mem : PtMem} {pool pool' : List Nat} {h : Nat → Nat} {t k w lvl f : Nat}
  {sub : Nat → Radix Leaf} {l : Leaf}

theorem Fresh.refuse (hf : Fresh pool h) (ha : allocPfn pool = (none, pool')) : Fresh pool' h := by
  cases pool with
  | nil =>
    cases ha
    exact hf
  | cons pa rest =>
    obtain rfl : rest = pool' := (Prod.mk.inj ha).2
    refine ⟨fun p hp => hf.page p (List.mem_cons_of_mem pa hp), fun g => ?_⟩
    refine Nat.le_trans (Nat.add_le_add_left ?_ (h g)) (hf.once g)
    exact ((List.sublist_cons_self pa rest).filter _).count_le _

/-- A frame that is given away was not in use. -/
theorem Fresh.give (hf : Fresh pool h) (ha : allocPfn pool = (some f, pool')) :
    Fresh pool' (h + Pi.single f 1) ∧ (allocFrame pool).1 = pageSize * f ∧
      (allocFrame pool).2 = pool' ∧ pageSize * f ≠ 0 ∧ pageSize * f < 2 ^ 64 := by
  cases pool with
  | nil => cases ha
  | cons pa rest =>
    obtain ⟨hal, hlt⟩ := hf.page pa List.mem_cons_self
    have hself : allocFrame (pa :: rest) = (pa, rest) := rfl
    unfold allocPfn at ha
    rw [hself] at ha ⊢
    split at ha
    · cases ha
    rename_i hpa
    cases ha
    have heq : pageSize * (pa / pageSize) = pa := by
      unfold pageSize
      omega
    rw [heq]
    refine ⟨⟨fun p hp => hf.page p (List.mem_cons_of_mem pa hp), fun g => ?_⟩, rfl, rfl, hpa, hlt⟩
    have honce := hf.once g
    rw [List.filter_cons_of_pos (by simpa using hpa), List.count_cons] at honce
    rw [Pi.add_apply, Pi.single_apply]
    simp only
    split
    · next hg =>
      rw [hg, heq] at honce ⊢
      rw [if_pos (beq_self_eq_true pa)] at honce
      omega
    · omega

/-- Nothing is used in two places. -/
theorem Fresh.apart {a b : Nat → Nat} (hf : Fresh pool (h + a + b)) (hg : 0 < a g) : b g = 0 := by
  have honce := hf.once g
  simp only [Pi.add_apply] at honce
  omega

theorem Fresh.place (t k : Nat) (l : Leaf) (lvl : Nat)
    (hf : Fresh pool (h + tables ptrsPerTable e)) :
    Fresh (e.place ptrsPerTable allocPfn t k l lvl pool).2.2
      (h + tables ptrsPerTable (e.place ptrsPerTable allocPfn t k l lvl pool).2.1) :=
  place_tables (by decide) (fun _ _ _ _ ha hI => (hI.give ha).1) (fun _ _ _ ha hI => hI.refuse ha)
    hf

/-- The tables of an entry beside the one at `d`, and the frame of the table itself. -/
theorem rest_pos (hi : i < ptrsPerTable) (hid : i ≠ d) (hg : 0 < tables ptrsPerTable (sub i) g) :
    0 < tables ptrsPerTable (.table f (update sub d .empty)) g := by
  have hle := tables_sub_le f (update sub d .empty) hi g
  rw [update_of_ne hid] at hle
  omega

/-- The frame of a table holds no table of its entries. -/
theorem Fresh.frame_ne (hfresh : Fresh pool (h + tables ptrsPerTable (.table f sub)))
    (hi : i < ptrsPerTable) (hg : 0 < tables ptrsPerTable (sub i) g) : g ≠ f := by
  rintro rfl
  rw [tables_split_self g sub hi, ← add_assoc] at hfresh
  exact hg.ne' (hfresh.apart (tables_frame_pos g _))

theorem pageSize_mul_ne {f : Nat} (h : g ≠ f) : pageSize * g ≠ pageSize * f := fun heq =>
  h (Nat.eq_of_mul_eq_mul_left (by decide) heq)

/-- A word that needs no table is written into an entry. -/
theorem HoldsTable.write (hsub : HoldsTable mem lvl f sub)
    (hfresh : Fresh pool (h + tables ptrsPerTable (.table f sub))) (hx : ∀ mem, Holds mem lvl w x) :
    HoldsTable (mem.set (pageSize * f) d w) lvl f (update sub d x) := by
  refine hsub.putSub (fun i hi => set_of_ne_index hi) ?_ ?_
  · rw [set_self]
    exact hx _
  · intro i hi hid g hg
    exact set_of_ne (pageSize_mul_ne (hfresh.frame_ne hi hg))

/-- Outside the frame of the table nothing is written. -/
theorem set_frame (sub : Nat → Radix Leaf) (hg : tables ptrsPerTable (.table f sub) g = 0) :
    mem.set (pageSize * f) d w (pageSize * g) = mem (pageSize * g) := by
  apply set_of_ne
  apply pageSize_mul_ne
  rintro rfl
  have := tables_frame_pos g sub
  omega

theorem setLeaf_of_empty (hsub : HoldsTable mem lvl f sub) (hd : d < ptrsPerTable)
    (hempty : sub d = .empty) :
    setLeaf mem pool (pageSize * f) d w = (.ok, mem.set (pageSize * f) d w, pool) := by
  have hinv := hsub d hd
  rw [hempty, holds_empty] at hinv
  simp [setLeaf, hinv]

/-- The table below an entry, found or made. -/
theorem nextTable_sim {f' : Nat} {sub' : Nat → Radix Leaf} {pool1 : List Nat}
    (hsub : HoldsTable mem (lvl + 1) f sub)
    (hfresh : Fresh pool (h + tables ptrsPerTable (.table f sub))) (hd : d < ptrsPerTable)
    (hopen : Opened allocPfn (sub d) pool f' sub' pool1) :
    ∃ mem1, nextTable mem pool (pageSize * f) d = (some (pageSize * f'), mem1, pool1) ∧
      HoldsTable mem1 lvl f' sub' ∧
      Fresh pool1 (h + tables ptrsPerTable (.table f (update sub d .empty)) +
        tables ptrsPerTable (.table f' sub')) ∧ (entryIsValid (mem1 (pageSize * f) d) = true ∧
        entryIsLeaf (mem1 (pageSize * f) d) = false ∧
        entryNext (mem1 (pageSize * f) d) = pageSize * f') ∧
      (∀ i, i ≠ d → mem1 (pageSize * f) i = mem (pageSize * f) i) ∧
      ∀ g, g ≠ f → g ≠ f' → mem1 (pageSize * g) = mem (pageSize * g) := by
  have hsplit := tables_split_self f sub hd
  have hentry := hsub d hd
  rcases hopen with ⟨htable, rfl⟩ | ⟨hempty, rfl, ha⟩
  · rw [htable, holds_table] at hentry
    obtain ⟨hv, hl, hptr, hsub'⟩ := hentry
    refine ⟨mem, ?_, hsub', ?_, ⟨hv, hl, hptr⟩, fun _ _ => rfl, fun _ _ _ => rfl⟩
    · simp [nextTable, hv, hptr]
    · rw [hsplit, htable, ← add_assoc] at hfresh
      exact hfresh
  rw [hempty, holds_empty] at hentry
  obtain ⟨hfresh', hpa, hpool, hnz, hlt⟩ := hfresh.give ha
  -- the new frame is not the frame of the table it is linked into
  have hne : f ≠ f' := by
    rintro rfl
    have hzero := hfresh'.apart (tables_frame_pos f sub)
    simp at hzero
  have hal : pageSize * f' % 4096 = 0 := Nat.mul_mod_right _ _
  refine ⟨(mem.clear (pageSize * f')).set (pageSize * f) d (entrySetNext (pageSize * f')),
    ?_, ?_, ?_, ⟨?_, ?_, ?_⟩, ?_, ?_⟩
  · simp [nextTable, hentry, hpa, hpool, hnz]
  · intro i _
    rw [set_of_ne (pageSize_mul_ne hne.symm), clear_self, holds_empty]
    exact entryIsValid_zero
  · rw [tables_table_empty]
    rw [hsplit, hempty, tables_empty, add_zero] at hfresh'
    exact hfresh'
  · rw [set_self, entryIsValid_iff]
    have := entrySetNext_flags (pageSize * f')
    omega
  · rw [set_self, Bool.eq_false_iff, ne_eq, entryIsLeaf_iff]
    exact fun hl => hl.2 (entrySetNext_flags _)
  · rw [set_self]
    exact entryNext_entrySetNext hal hlt
  · intro i hi
    rw [set_of_ne_index hi, clear_of_ne (pageSize_mul_ne hne)]
  · intro g hgf hgf'
    rw [set_of_ne (pageSize_mul_ne hgf), clear_of_ne (pageSize_mul_ne hgf')]

/-- What `r` is at the entry of the key in a tree, `placeFrom` does at the table that has it. -/
def PlaceSim (t k w lvl : Nat) (e : Radix Leaf) (pool : List Nat)
    (r : Status × Radix Leaf × List Nat) : Prop :=
  ∀ (f : Nat) (sub : Nat → Radix Leaf) (mem : PtMem) (h : Nat → Nat),
    sub (digit ptrsPerTable k lvl) = e → t ≤ lvl → HoldsTable mem lvl f sub →
    Fresh pool (h + tables ptrsPerTable (.table f sub)) → r.1 ≠ .bad →
    ∃ mem', placeFrom t k w lvl (pageSize * f) mem pool = (r.1, mem', r.2.2) ∧
      HoldsTable mem' lvl f (update sub (digit ptrsPerTable k lvl) r.2.1) ∧
      ∀ g, tables ptrsPerTable
          (.table f (update sub (digit ptrsPerTable k lvl) r.2.1)) g = 0 →
        mem' (pageSize * g) = mem (pageSize * g)

/-- Placing a leaf from a table of words on follows the tree. -/
theorem placeFrom_sim (hw : ∀ mem, Holds mem t w (.leaf l)) :
    PlaceSim t k w lvl e pool (place ptrsPerTable allocPfn t k l lvl e pool) := by
  have hd := fun lvl => digit_lt k lvl (show 0 < ptrsPerTable by decide)
  refine place_induct ?_ ?_ ?_ ?_
  · intro lvl pool hlvl f sub mem h hempty ht hsub hfresh _
    obtain rfl : lvl = t := by omega
    refine ⟨_, ?_, hsub.write hfresh hw, fun g hg => set_frame _ hg⟩
    have hset : setLeaf mem pool _ _ w = _ := setLeaf_of_empty hsub (hd lvl) hempty
    cases lvl with
    | zero => exact hset
    | succ n =>
      rw [placeFrom, if_pos rfl]
      exact hset
  · intro lvl e pool _ f sub mem h _ _ _ _ hne
    exact absurd rfl hne
  · -- no frame for the table below
    intro n pool pool1 hnt hnone f sub mem h hempty _ hsub _ _
    have hinv : entryIsValid (mem (pageSize * f) (digit ptrsPerTable k (n + 1))) = false := by
      have := hsub _ (hd (n + 1))
      rwa [hempty, holds_empty] at this
    have hzero : (allocFrame pool).1 = 0 := by
      unfold allocPfn at hnone
      by_contra hz
      rw [if_neg hz] at hnone
      cases hnone
    refine ⟨mem, ?_, ?_, fun g _ => rfl⟩
    · rw [placeFrom, if_neg hnt]
      simp only [nextTable, hinv, hzero, Bool.false_eq_true, if_false, if_true]
      rw [show pool1 = (allocPfn pool).2 by rw [hnone]]
      rfl
    · rw [← hempty, update_eq_self]
      exact hsub
  · rintro n e pool f' sub' pool1 r hnt hopen rfl ih f sub mem h rfl ht hsub hfresh hne
    have htn : t ≤ n := by omega
    obtain ⟨mem1, hnext, hsub1, hfresh1, ⟨hvalid, hnleaf, hptr⟩, hrow, hother⟩ :=
      nextTable_sim hsub hfresh (hd (n + 1)) hopen
    obtain ⟨mem', hrun, hsub'', hframe⟩ := ih f' sub' mem1 _ rfl htn hsub1 hfresh1 hne
    -- the tables beside the one below are not touched
    have hfresh' := Fresh.place t k l (n + 1) hfresh1
    rw [place_table htn] at hfresh'
    generalize place ptrsPerTable allocPfn t k l n (sub' (digit ptrsPerTable k n)) pool1 = r
      at hrun hsub'' hframe hfresh' ⊢
    have hkeep : ∀ g, 0 < tables ptrsPerTable
        (.table f (update sub (digit ptrsPerTable k (n + 1)) .empty)) g →
          mem' (pageSize * g) = mem1 (pageSize * g) := by
      intro g hg
      exact hframe g (hfresh'.apart hg)
    have hself : mem' (pageSize * f) = mem1 (pageSize * f) := hkeep f (tables_frame_pos f _)
    refine ⟨mem', ?_, ?_, ?_⟩
    · rw [placeFrom, if_neg hnt, hnext]
      exact hrun
    · refine hsub.putSub (fun i hi => ?_) ?_ ?_
      · rw [hself]
        exact hrow i hi
      · rw [hself]
        exact holds_table.2 ⟨hvalid, hnleaf, hptr, hsub''⟩
      intro i hi hid g hg
      have hpos := rest_pos (f := f) hi hid hg
      rw [hkeep g hpos]
      apply hother g (hfresh.frame_ne hi hg)
      rintro rfl
      exact (tables_frame_pos g _).ne' (hfresh'.apart hpos)
    · intro g hg
      rw [tables_split f sub (hd (n + 1))] at hg
      simp only [Pi.add_apply] at hg
      rw [hframe g (by omega)]
      apply hother
      · rintro rfl
        have := tables_frame_pos g (update sub (digit ptrsPerTable k (n + 1)) .empty)
        omega
      · rintro rfl
        have := tables_frame_pos g (update sub' (digit ptrsPerTable k n) r.2.1)
        omega

/-- The same for taking out a leaf. -/
def RemoveSim (pool : List Nat) (k lvl : Nat) (e : Radix Leaf) (j : Nat) (e' : Radix Leaf) : Prop :=
  ∀ (f : Nat) (sub : Nat → Radix Leaf) (mem : PtMem) (h : Nat → Nat),
    sub (digit ptrsPerTable k lvl) = e → HoldsTable mem lvl f sub →
    Fresh pool (h + tables ptrsPerTable (.table f sub)) →
    ∃ mem', removeFrom k lvl (pageSize * f) mem = some (j, mem') ∧
      HoldsTable mem' lvl f (update sub (digit ptrsPerTable k lvl) e') ∧
      ∀ g, tables ptrsPerTable (.table f sub) g = 0 → mem' (pageSize * g) = mem (pageSize * g)

/-- Taking out a leaf from a table of words on follows the tree. -/
theorem removeFrom_sim {j : Nat} (hrem : Radix.remove ptrsPerTable k lvl e = some (j, e')) :
    RemoveSim pool k lvl e j e' := by
  have hd := fun lvl => digit_lt k lvl (show 0 < ptrsPerTable by decide)
  refine remove_induct ?_ ?_ hrem
  · intro lvl l f sub mem h hs hsub hfresh
    refine ⟨_, ?_, hsub.write hfresh fun _ => holds_empty.2 entryIsValid_zero,
      fun g hg => set_frame _ hg⟩
    have hentry := hsub _ (hd lvl)
    rw [hs, holds_leaf] at hentry
    obtain ⟨hv, hl, -⟩ := hentry
    cases lvl with
    | zero => simp [removeFrom, hv]
    | succ n =>
      have hl := hl.resolve_left (Nat.succ_ne_zero n)
      simp [removeFrom, hl]
  · intro n f' sub' j e' _ ih f sub mem h hs hsub hfresh
    have hentry := hsub _ (hd (n + 1))
    rw [hs, holds_table] at hentry
    obtain ⟨hv, hl, hptr, hsub'⟩ := hentry
    have hsplit := tables_split_self f sub (hd (n + 1))
    rw [hs] at hsplit
    have hfresh' := hfresh
    rw [hsplit, ← add_assoc] at hfresh'
    obtain ⟨mem', hrun, hsub'', hframe⟩ := ih f' sub' mem _ rfl hsub' hfresh'
    -- what is beside the table below keeps its words
    have hkeep : ∀ g, 0 < tables ptrsPerTable
        (.table f (update sub (digit ptrsPerTable k (n + 1)) .empty)) g →
          mem' (pageSize * g) = mem (pageSize * g) := by
      intro g hg
      exact hframe g (hfresh'.apart hg)
    have hself : mem' (pageSize * f) = mem (pageSize * f) := hkeep f (tables_frame_pos f _)
    refine ⟨mem', ?_, ?_, ?_⟩
    · simp only [removeFrom, hl, hv, hptr, if_true, Bool.false_eq_true, if_false]
      exact hrun
    · refine hsub.putSub (fun i _ => by rw [hself]) ?_ ?_
      · rw [hself]
        exact holds_table.2 ⟨hv, hl, hptr, hsub''⟩
      · intro i hi hid g hg
        exact hkeep g (rest_pos hi hid hg)
    · intro g hg
      apply hframe
      rw [hsplit] at hg
      simp only [Pi.add_apply] at hg
      omega

end Steps

/-! ## The loops -/

section Loops

variable {mem : PtMem} {pool : List Nat} {h : Nat → Nat} {root flags : Nat} {e e' : Radix Leaf}
  {r : Status × Radix Leaf × List Nat}

/-- The physical address of a page, in a 64-bit word. -/
def paddrOf (pfn : Nat) : Nat := u64 (pageSize * pfn)

/-- The leaf for a physical page with the given flags. -/
def leafOf (flags pfn : Nat) : Leaf := ⟨pfn % 2 ^ 52, pteV ||| flags⟩

theorem paddrOf_add (pfn n : Nat) : u64 (paddrOf pfn + pageSize * n) = paddrOf (pfn + n) := by
  unfold paddrOf u64 pageSize
  omega

theorem u64_pages (h : pageSize * (k + m) < 2 ^ 64) :
    u64 (pageSize * k + pageSize * m) = pageSize * (k + m) := by
  rw [← mul_add]
  exact u64_of_lt h

/-- The word for a leaf spells the leaf. -/
theorem holds_encode (ht : t < rootLevel) (hf : 2 ≤ flags ∧ flags < 1024)
    (hpfn : pfn % leafPages t = 0) (mem : PtMem) :
    Holds mem t (encode t (paddrOf pfn) flags) (.leaf (leafOf flags pfn)) := by
  have hal : paddrOf pfn % (4096 * leafPages t) = 0 := by
    unfold paddrOf u64 pageSize
    rcases level_cases ht with ⟨-, hl⟩ | ⟨-, hl⟩ | ⟨-, hl⟩ <;> rw [hl] at hpfn ⊢ <;> omega
  obtain ⟨hdec, hodd, hleaf⟩ := decode_encode ht hf.2 hal (Nat.mod_lt _ (by decide))
  refine holds_leaf.2 ⟨entryIsValid_iff.2 hodd, .inr (entryIsLeaf_iff.2 ⟨hodd, hleaf hf.1⟩), ?_⟩
  rw [hdec, leafOf, Leaf.mk.injEq]
  refine ⟨?_, rfl⟩
  unfold paddrOf u64 pageSize
  omega

/-- The three levels of `mapStep`. -/
theorem mapStep_eq (ht : t < rootLevel) (k paddr : Nat) :
    mapStep root flags (pageSize * leafPages t) (pageSize * k) paddr mem pool =
      placeFrom t k (encode t paddr flags) 2 root mem pool := by
  obtain ⟨hg, hm, hp⟩ := index_eq k 0 (by decide)
  rw [add_zero] at hg hm hp
  unfold mapStep
  simp only [show pageSize * k = 4096 * k from rfl, hg, hm, hp, placeFrom]
  rcases nextTable mem pool root (digit ptrsPerTable k 2) with ⟨o, rest⟩
  rcases level_cases ht with ⟨rfl, hl⟩ | ⟨rfl, hl⟩ | ⟨rfl, hl⟩ <;> rw [hl] <;>
  · cases o with
    | none => rfl
    | some pmd => rfl

/-- The three levels of `unmapStep`. -/
theorem unmapStep_eq {endAddr : Nat} (hrem : removeFrom k 2 root mem = some (t, mem'))
    (hle : pageSize * leafPages t ≤ endAddr - pageSize * k) :
    unmapStep root endAddr (pageSize * k) mem = some (pageSize * leafPages t, mem') := by
  obtain ⟨hg, hm, hp⟩ := index_eq k 0 (by decide)
  rw [add_zero] at hg hm hp
  unfold unmapStep unmapPmd unmapPte
  simp only [show pageSize * k = 4096 * k from rfl, hg, hm, hp]
  simp only [removeFrom] at hrem
  split at hrem
  · next hl2 =>
    cases hrem
    rw [if_pos hl2]
    exact if_pos hle
  next hl2 =>
  split at hrem
  · next hv2 =>
    rw [if_neg hl2, if_pos hv2]
    split at hrem
    · next hl1 =>
      cases hrem
      rw [if_pos hl1]
      exact if_pos hle
    next hl1 =>
    split at hrem
    · next hv1 =>
      rw [if_neg hl1, if_pos hv1]
      split at hrem
      · next hv0 =>
        cases hrem
        exact if_pos hv0
      · cases hrem
    · cases hrem
  · cases hrem

theorem chunkSize_eq (k pfn n : Nat) : chunkSize (pageSize * k) (paddrOf pfn) (pageSize * n) =
      pageSize * leafPages (chunkLevel k pfn n) := by
  have h1 : leafPages 1 = 512 := rfl
  have h2 : leafPages 2 = 262144 := rfl
  have hg : (pageSize * k % pageSize1G = 0 ∧ paddrOf pfn % pageSize1G = 0 ∧
      pageSize1G ≤ pageSize * n) ↔ (k % leafPages 2 = 0 ∧ pfn % leafPages 2 = 0 ∧
        leafPages 2 ≤ n) := by
    rw [h2]
    unfold pageSize1G pageSize paddrOf u64 pageSize
    omega
  have hm : (pageSize * k % pageSize2M = 0 ∧ paddrOf pfn % pageSize2M = 0 ∧
      pageSize2M ≤ pageSize * n) ↔ (k % leafPages 1 = 0 ∧ pfn % leafPages 1 = 0 ∧
        leafPages 1 ≤ n) := by
    rw [h1]
    unfold pageSize2M pageSize paddrOf u64 pageSize
    omega
  unfold chunkSize chunkLevel
  simp only [hg, hm]
  split
  · rfl
  · split <;> rfl

theorem chunkBytes_eq (k pfn n : Nat) :
    chunkBytes (pageSize * k) (paddrOf pfn) (pageSize * n) = pageSize * chunkPages k pfn n := by
  unfold chunkBytes chunkPages
  rw [chunkSize_eq, Nat.mul_div_mul_left _ _ (by decide), mul_left_comm]

variable (hroot : HoldsRoot mem root e) (hfresh : Fresh pool (h + tables ptrsPerTable e))
include hroot hfresh

/-- `__unmap_range` on words follows the tree. -/
theorem unmapRange_sim {last fuel : Nat} (hlast : pageSize * last < 2 ^ 64)
    (hrun : Mm.unmapRange last fuel k e = some e') :
    ∃ mem', unmapRange root (pageSize * last) fuel (pageSize * k) mem = some mem' ∧
      HoldsRoot mem' root e' := by
  induction fuel generalizing k e mem with
  | zero =>
    cases hrun
    exact ⟨mem, rfl, hroot⟩
  | succ fuel ih =>
    rw [Mm.unmapRange] at hrun
    split at hrun
    · next hk =>
      split at hrun
      · cases hrun
      next hr =>
      split at hrun
      · next hle =>
        obtain ⟨f, sub, rfl, rfl, hsub⟩ := hroot
        obtain ⟨⟨t, x⟩, hbelow, heq⟩ := Option.map_eq_some_iff.1 hr
        cases heq
        simp only at hle
        obtain ⟨mem1, hraw, hsub1, -⟩ := removeFrom_sim hbelow f sub mem h rfl hsub hfresh
        have hfresh1 := hfresh
        rw [← tables_remove (by decide) hr] at hfresh1
        have hmul : pageSize * leafPages t ≤ pageSize * last - pageSize * k := by
          rw [← Nat.mul_sub]
          exact Nat.mul_le_mul_left _ hle
        have hnext : pageSize * (k + leafPages t) ≤ pageSize * last :=
          Nat.mul_le_mul_left _ (by omega)
        have hlt : pageSize * k < pageSize * last := Nat.mul_lt_mul_of_pos_left hk (by decide)
        obtain ⟨mem', hrun', hroot'⟩ := ih ⟨f, _, rfl, rfl, hsub1⟩ hfresh1 hrun
        refine ⟨mem', ?_, hroot'⟩
        rw [unmapRange, if_pos hlt, unmapStep_eq hraw hmul]
        simp only
        rw [u64_pages (Nat.lt_of_le_of_lt hnext hlast)]
        exact hrun'
      · cases hrun
    · cases hrun
      refine ⟨mem, ?_, hroot⟩
      have hle : pageSize * last ≤ pageSize * k := Nat.mul_le_mul_left _ (by omega)
      rw [unmapRange, if_neg (by omega)]

/-- A run on words follows the tree: it ends as `r` does, with the words of the tree of `r`. -/
def RootSim (root : Nat) (run : Status × PtMem × List Nat) (r : Status × Radix Leaf × List Nat) :
    Prop := ∃ mem', run = (r.1, mem', r.2.2) ∧ HoldsRoot mem' root r.2.1

variable (hf : 2 ≤ flags ∧ flags < 1024)
include hf

/-- One leaf on words follows the tree. -/
theorem place_sim (ht : t < rootLevel) (hpfn : pfn % leafPages t = 0)
    (hp : e.place ptrsPerTable allocPfn t k (leafOf flags pfn) rootLevel pool = r)
    (hne : r.1 ≠ .bad) : RootSim root
      (mapStep root flags (pageSize * leafPages t) (pageSize * k) (paddrOf pfn) mem pool) r := by
  obtain ⟨f, sub, rfl, rfl, hsub⟩ := hroot
  have ht' := Nat.le_of_lt_succ ht
  obtain rfl := (place_table ht' f sub).symm.trans hp
  obtain ⟨mem', hrun, hsub', -⟩ := placeFrom_sim (holds_encode ht hf hpfn) f sub mem h rfl ht' hsub
    hfresh hne
  refine ⟨mem', ?_, f, _, rfl, rfl, hsub'⟩
  rw [mapStep_eq ht]
  exact hrun

/-- `map_fixed_size_pages` on words follows the tree. -/
theorem mapFixedSizePages_sim {start : Nat} (ht : t < rootLevel) (hstart : start ≤ k)
    (hpfn : pfn % leafPages t = 0) (hlast : pageSize * (k + n * leafPages t) < 2 ^ 64)
    (hr : Mm.mapFixedSizePages allocPfn (leafOf flags) t start n k pfn e pool = r)
    (hne : r.1 ≠ .bad) : RootSim root
      (mapFixedSizePages root flags (pageSize * leafPages t) (pageSize * start)
        (pageSize * (k + n * leafPages t)) n (pageSize * k) (paddrOf pfn) mem pool) r := by
  subst hr
  induction n generalizing k pfn e mem pool with
  | zero => exact ⟨mem, rfl, hroot⟩
  | succ n ih =>
    have hpos := leafPages_pos ht
    have hfresh1 := hfresh.place t k (leafOf flags pfn) rootLevel
    have hlt : pageSize * k < pageSize * (k + (n + 1) * leafPages t) := by
      apply Nat.mul_lt_mul_of_pos_left _ (by decide)
      rw [Nat.succ_mul]
      omega
    rw [Mm.mapFixedSizePages] at hne ⊢
    rw [mapFixedSizePages, if_pos hlt]
    rcases hp : e.place ptrsPerTable allocPfn t k (leafOf flags pfn) rootLevel pool with
      ⟨status, e1, pool1⟩
    rw [hp] at hne hfresh1
    have hbad : status ≠ .bad := by
      rintro rfl
      exact hne rfl
    obtain ⟨mem1, hstep, hroot1⟩ := place_sim hroot hfresh hf ht hpfn hp hbad
    rw [hstep]
    cases status with
    | ok =>
      have hshift : k + (n + 1) * leafPages t = k + leafPages t + n * leafPages t := by
        rw [Nat.succ_mul]
        omega
      rw [hshift] at hlast ⊢
      rw [u64_pages (Nat.lt_of_le_of_lt (Nat.mul_le_mul_left _ (by omega)) hlast), paddrOf_add]
      exact ih hroot1 hfresh1 (by omega) (by rwa [Nat.add_mod_right]) hlast hne
    | noMem =>
      simp only at hne ⊢
      have hfuel : (pageSize * k - pageSize * start) / pageSize = k - start := by
        rw [← Nat.mul_sub, Nat.mul_div_cancel_left _ (by decide)]
      rw [hfuel]
      cases hu : Mm.unmapRange k (k - start) start e1 with
      | none =>
        rw [hu] at hne
        exact absurd rfl hne
      | some e2 =>
        obtain ⟨mem2, hun, hroot2⟩ := unmapRange_sim hroot1 hfresh1 (by omega) hu
        rw [hun]
        exact ⟨mem2, rfl, hroot2⟩
    | bad => exact absurd rfl hne

/-- `map_pages` on words follows the tree. -/
theorem mapPages_sim {fuel : Nat} (hlast : pageSize * (k + n) < 2 ^ 64)
    (hr : Mm.mapPages allocPfn (leafOf flags) fuel k pfn n e pool = r) (hne : r.1 ≠ .bad) :
    RootSim root
      (mapPagesLoop root flags (pageSize * (k + n)) fuel (pageSize * k) (paddrOf pfn) mem pool)
      r := by
  subst hr
  induction fuel generalizing k pfn n e mem pool with
  | zero => exact ⟨mem, rfl, hroot⟩
  | succ fuel ih =>
    rw [Mm.mapPages] at hne ⊢
    rw [mapPagesLoop]
    by_cases hn : 0 < n
    · rw [if_pos hn] at hne ⊢
      have hlt : pageSize * k < pageSize * (k + n) :=
        Nat.mul_lt_mul_of_pos_left (by omega) (by decide)
      have hle := chunkPages_le k pfn n
      have hrem : pageSize * (k + n) - pageSize * k = pageSize * n := by
        rw [← Nat.mul_sub, Nat.add_sub_cancel_left]
      have hcut : k + n / leafPages (chunkLevel k pfn n) * leafPages (chunkLevel k pfn n) =
          k + chunkPages k pfn n := rfl
      have hchunk : pageSize * (k + chunkPages k pfn n) < 2 ^ 64 :=
        Nat.lt_of_le_of_lt (Nat.mul_le_mul_left _ (by omega)) hlast
      rw [if_pos hlt, hrem, chunkSize_eq, chunkBytes_eq, u64_pages hchunk, paddrOf_add,
        Nat.mul_div_mul_left _ _ pageSize_pos]
      cases hp : Mm.mapFixedSizePages allocPfn (leafOf flags) (chunkLevel k pfn n) k
          (n / leafPages (chunkLevel k pfn n)) k pfn e pool with
      | mk status rest =>
        have hfresh1 := mapFixedSizePages_tables (I := Fresh)
          (fun _ _ _ _ ha hI => (hI.give ha).1) (fun _ _ _ ha hI => hI.refuse ha) hfresh hp
        rw [hp] at hne
        have hbad : status ≠ .bad := by
          rintro rfl
          exact hne rfl
        obtain ⟨mem1, hrun, hroot1⟩ := mapFixedSizePages_sim hroot hfresh hf
          (chunkLevel_lt k pfn n) (Nat.le_refl k) (chunkLevel_spec k pfn hn).2.1
          (by rw [hcut]; exact hchunk) hp hbad
        rw [hcut] at hrun
        rw [hrun]
        cases status with
        | ok =>
          have hend : k + n = k + chunkPages k pfn n + (n - chunkPages k pfn n) := by omega
          rw [hend] at hlast ⊢
          exact ih hroot1 hfresh1 hlast hne
        | noMem => exact ⟨mem1, rfl, hroot1⟩
        | bad => exact absurd rfl hne
    · obtain rfl : n = 0 := by omega
      rw [Nat.add_zero, if_neg (Nat.lt_irrefl _)]
      exact ⟨mem, rfl, hroot⟩

end Loops

/-! ## Exactness -/

section Exact

variable {mem : PtMem} {root addr paddr size flags : Nat} {e : Radix Leaf} {pool : List Nat}

/-- `pool` has `n` frames to give. -/
def Room (n : Nat) (pool : List Nat) : Prop := n ≤ pool.length ∧ ∀ pa ∈ pool, pa ≠ 0

theorem Room.alloc (h : Room (n + 1) pool) :
    ∃ f pool', allocPfn pool = (some f, pool') ∧ Room n pool' := by
  obtain ⟨hlen, hnz⟩ := h
  cases pool with
  | nil => simp at hlen
  | cons pa rest =>
    refine ⟨pa / pageSize, rest, ?_, ?_, fun p hp => hnz p (List.mem_cons_of_mem pa hp)⟩
    · have hpa := hnz pa List.mem_cons_self
      simp [allocPfn, allocFrame, hpa]
    · simpa using hlen

theorem Room.mono (hmn : m ≤ n) (h : Room n pool) : Room m pool :=
  ⟨le_trans hmn h.1, h.2⟩

/-- A canonical range lies in one half of the address space. -/
theorem canonical_size (hwrap : addr + size < 2 ^ 64)
    (hcanon : ∀ a, addr ≤ a → a < addr + size → Canonical a) : size ≤ 2 ^ 38 := by
  by_contra hlt
  have hfirst := hcanon addr le_rfl (by omega)
  have hmid := fun h h' => hcanon (2 ^ 38) h h'
  unfold Canonical at hfirst hmid
  omega

/-- Canonical addresses are told apart by the bits of the walk. -/
theorem canonical_inj {a b : Nat} (ha : Canonical a) (hb : Canonical b)
    (hoff : a % 4096 = b % 4096) (hpage : a / 4096 % vpnCount = b / 4096 % vpnCount) : a = b := by
  rw [vpnCount_eq] at hpage
  unfold Canonical at ha hb
  omega

theorem HoldsRoot.translate_congr (h : HoldsRoot mem root e) (h' : HoldsRoot mem' root e') {a : Nat}
    (hsame : leafAt e' (a / pageSize) = leafAt e (a / pageSize)) :
    translate mem' root a = translate mem root a := by
  unfold translate
  rw [h.walkFrom, h'.walkFrom, hsame]

/-- The address that a page of a mapped range translates to. -/
theorem translate_inside (h' : HoldsRoot mem' root e') {off : Nat}
    (hc : Covered (leafOf flags) e' k pfn n 0 i) (hoff : off < 4096)
    (hcanon : Canonical (pageSize * (k + i) + off)) :
    translate mem' root (pageSize * (k + i) + off) =
      some (u64 (pageSize * pfn + (pageSize * i + off)), pteV ||| flags) := by
  obtain ⟨t, p, ht, -, hp, hip, -, ⟨hal, hpal⟩, hleaf⟩ := hc
  have hpage : (pageSize * (k + i) + off) / pageSize = k + i := by
    unfold pageSize
    omega
  unfold translate
  rw [if_pos hcanon, hpage, h'.walkFrom, hleaf, Option.map_some, Option.some.injEq, Prod.mk.injEq]
  refine ⟨?_, rfl⟩
  unfold leafOf u64 pageSize
  simp only
  rcases level_cases ht with ⟨-, hl⟩ | ⟨-, hl⟩ | ⟨-, hl⟩ <;> rw [hl] at hip hal hpal ⊢ <;> omega

/-- `map_pages` of a range of canonical addresses builds exactly the requested translation, and
`unmap_pages` takes exactly that away again. -/
theorem mapPages_exact (htable : HoldsRoot mem root e)
    (hfresh : Fresh pool (tables ptrsPerTable e)) (haddr : addr % pageSize = 0)
    (hpaddr : paddr % pageSize = 0) (hsize : size % pageSize = 0) (hwrap : addr + size < 2 ^ 64)
    (hcanon : ∀ a, addr ≤ a → a < addr + size → Canonical a) (hword : paddr < 2 ^ 64)
    (hflags : 2 ≤ flags ∧ flags < 1024)
    (hvac : ∀ p ∈ leafSlots (size / pageSize) (addr / pageSize) (paddr / pageSize)
      (size / pageSize), e.Vacant ptrsPerTable p.1 p.2 rootLevel) :
    (mapPages mem root addr paddr size flags pool).1 ≠ .bad ∧
      ((∀ pa ∈ pool, pa ≠ 0) → 3 * (size / pageSize) ≤ pool.length →
        (mapPages mem root addr paddr size flags pool).1 = .ok) ∧
      ∀ mem' pool', mapPages mem root addr paddr size flags pool = (.ok, mem', pool') →
        (∀ a, addr ≤ a → a < addr + size →
          translate mem' root a = some (u64 (paddr + (a - addr)), pteV ||| flags)) ∧
        (∀ a, ¬ (addr ≤ a ∧ a < addr + size) →
          translate mem' root a = translate mem root a) ∧
        ∃ mem'', unmapPages mem' root addr size = some mem'' ∧
          ∀ a, translate mem'' root a = translate mem root a := by
  have hps : pageSize = 4096 := rfl
  obtain ⟨k, rfl⟩ := Nat.dvd_of_mod_eq_zero haddr
  obtain ⟨n, rfl⟩ := Nat.dvd_of_mod_eq_zero hsize
  obtain ⟨pfn, rfl⟩ := Nat.dvd_of_mod_eq_zero hpaddr
  have hsmall : n ≤ vpnCount := by
    have := canonical_size hwrap hcanon
    rw [vpnCount_eq]
    rw [hps] at this
    omega
  have hdiv : ∀ x, pageSize * x / pageSize = x := fun x => Nat.mul_div_cancel_left x (by decide)
  rw [hdiv, hdiv, hdiv] at hvac
  have hlast : pageSize * (k + n) < 2 ^ 64 := by rwa [mul_add]
  have hend := u64_pages hlast
  have hpa : pageSize * pfn = paddrOf pfn := (u64_of_lt hword).symm
  -- the same call on the tree
  rcases hout : Mm.mapPages allocPfn (leafOf flags) n k pfn n e pool with ⟨status, e1, pool1⟩
  obtain ⟨hbad, hroom⟩ := mapPages_vacant (fun _ _ => Room.alloc) (fun _ _ _ => Room.mono) hsmall
    hvac hout
  have hfresh0 : Fresh pool (0 + tables ptrsPerTable e) := by rwa [zero_add]
  obtain ⟨mem1, hrun, hroot1⟩ := mapPages_sim htable hfresh0 hflags hlast hout hbad
  have hmap : mapPages mem root (pageSize * k) (pageSize * pfn) (pageSize * n) flags pool =
      (status, mem1, pool1) := by
    unfold mapPages
    rw [if_pos ⟨haddr, hsize, hpaddr⟩, hend, hdiv, hpa]
    exact hrun
  rw [hmap, hdiv]
  refine ⟨hbad, fun hnz hlen => hroom ⟨hlen, hnz⟩, ?_⟩
  intro mem' pool' hok
  cases hok
  have hmapped := mapped_of_mapPages le_rfl hout
  refine ⟨?_, ?_, ?_⟩
  · intro a hge hlt
    obtain ⟨i, off, hoff, rfl⟩ : ∃ i off, off < 4096 ∧ a = pageSize * (k + i) + off :=
      ⟨a / 4096 - k, a % 4096, Nat.mod_lt _ (by decide), by rw [hps] at *; omega⟩
    have hi : i < n := by
      rw [hps] at hlt
      omega
    rw [translate_inside hroot1 (hmapped.inside i hi) hoff (hcanon _ hge hlt)]
    rw [mul_add pageSize k i, add_assoc (pageSize * k), Nat.add_sub_cancel_left]
  · intro a hrange
    by_cases hca : Canonical a
    · apply htable.translate_congr hroot1
      apply hmapped.outside
      intro i hi hpage
      -- the page of `a` would be a page of the range
      have hin : Canonical (pageSize * (k + i) + a % 4096) :=
        hcanon _ (by rw [hps]; omega) (by rw [hps]; omega)
      have heq := canonical_inj hca hin (by rw [hps]; omega) (by
        rw [hps] at hpage ⊢
        rw [hpage]
        congr 1
        omega)
      apply hrange
      rw [hps] at heq ⊢
      omega
    · unfold translate
      rw [if_neg hca, if_neg hca]
  · obtain ⟨e'', hun, hback⟩ := hmapped.unmapRange
    have hfresh1 := mapPages_tables (I := Fresh) (fun _ _ _ _ ha hI => (hI.give ha).1)
      (fun _ _ _ ha hI => hI.refuse ha) hfresh0 hout
    obtain ⟨mem'', hraw, hroot''⟩ := unmapRange_sim hroot1 hfresh1 hlast hun
    refine ⟨mem'', ?_, fun a => htable.translate_congr hroot'' (hback _)⟩
    unfold unmapPages
    rw [if_pos ⟨haddr, hsize⟩, hend, hdiv]
    exact hraw

end Exact

/-! ## A table with one huge page -/

/-- Memory with one page table, whose entry `1` is a leaf: the addresses from `2 ^ 30` on are mapped
to themselves less `2 ^ 30`. -/
def hugeMem : PtMem := fun t i => if t = 4096 ∧ i = 1 then 3 else 0

/-- The tree it spells. -/
def hugeTree : Radix Leaf := .table 1 (update (fun _ => .empty) 1 (.leaf ⟨0, 3⟩))

/-- Frames `2` to `7`. -/
def hugePool : List Nat := [8192, 12288, 16384, 20480, 24576, 28672]

theorem hugeMem_holds : HoldsRoot hugeMem 4096 hugeTree := by
  refine ⟨1, _, rfl, rfl, fun i _ => ?_⟩
  rcases eq_or_ne i 1 with rfl | hi
  · exact ⟨by decide, .inr (by decide), by decide⟩
  · have hword : hugeMem (pageSize * 1) i = 0 := if_neg fun h => hi h.2
    rw [update_of_ne hi, hword]
    exact entryIsValid_zero

theorem hugePool_fresh : Fresh hugePool (tables ptrsPerTable hugeTree) := by
  have htables : tables ptrsPerTable hugeTree = Pi.single 1 1 := by
    have hleaf := tables_update 1 (fun _ => .empty) (show 1 < ptrsPerTable by decide)
      (.leaf (⟨0, 3⟩ : Leaf))
    have hzero : tables ptrsPerTable (.leaf (⟨0, 3⟩ : Leaf)) = 0 := rfl
    rw [hzero, tables_empty, add_zero, add_zero, tables_table_empty] at hleaf
    exact hleaf
  rw [htables]
  refine ⟨by decide, fun g => ?_⟩
  rcases eq_or_ne g 1 with rfl | hg
  · decide
  · rw [Pi.single_eq_of_ne hg, zero_add]
    exact List.nodup_iff_count_le_one.1 (by decide) _

theorem hugeTree_vacant {fuel k pfn n : Nat}
    (h : ∀ p ∈ leafSlots fuel k pfn n, digit ptrsPerTable p.1 2 ≠ 1) :
    ∀ p ∈ leafSlots fuel k pfn n, hugeTree.Vacant ptrsPerTable p.1 p.2 rootLevel := by
  intro p hp
  refine (vacant_table _ _).2 ⟨Nat.le_of_lt_succ (leafSlots_spec hp).1, ?_⟩
  rw [update_of_ne (h p hp)]
  exact vacant_empty

/-- Two pages at address `0`, next to the huge page. -/
theorem mapPages_exact_two_pages :
    ∃ mem' pool', mapPages hugeMem 4096 0 32768 8192 2 hugePool = (.ok, mem', pool') ∧
      translate mem' 4096 5 = some (32773, 3) ∧ translate mem' 4096 4101 = some (36869, 3) ∧
      translate mem' 4096 8192 = none ∧ translate mem' 4096 (2 ^ 30 + 5) = some (5, 3) ∧
      ∃ mem'', unmapPages mem' 4096 0 8192 = some mem'' ∧ translate mem'' 4096 4101 = none ∧
        translate mem'' 4096 (2 ^ 30 + 5) = some (5, 3) := by
  obtain ⟨-, hok, hexact⟩ := @mapPages_exact hugeMem 4096 0 32768 8192 2 hugeTree hugePool
    hugeMem_holds hugePool_fresh (by decide) (by decide) (by decide) (by decide)
    (fun a _ h => .inl (by omega)) (by decide) (by decide) (hugeTree_vacant (by decide))
  have hres := Prod.ext (hok (by decide) (by decide)) rfl
  obtain ⟨hin, hout, mem'', hun, hback⟩ := hexact _ _ hres
  have hnone : translate hugeMem 4096 8192 = none := by decide
  have hsome : translate hugeMem 4096 (2 ^ 30 + 5) = some (5, 3) := by decide
  refine ⟨_, _, hres, hin 5 (by decide) (by decide), hin 4101 (by decide) (by decide),
    (hout 8192 (by decide)).trans hnone, (hout _ (by decide)).trans hsome, mem'', hun,
    (hback 4101).trans (by decide), (hback _).trans hsome⟩

/-- The page at `2 ^ 39` has the entries of the page at `0`: mapping it changes the translation of
an address outside the range. -/
theorem mapPages_aliased : HoldsRoot hugeMem 4096 hugeTree ∧
      Fresh hugePool (tables ptrsPerTable hugeTree) ∧
      (∀ p ∈ leafSlots 1 (2 ^ 39 / pageSize) 8 1,
        hugeTree.Vacant ptrsPerTable p.1 p.2 rootLevel) ∧
      2 ^ 39 % pageSize = 0 ∧ 2 ^ 39 + 4096 < 2 ^ 64 ∧ ¬ (2 ^ 39 ≤ 5 ∧ 5 < 2 ^ 39 + 4096) ∧
      (mapPages hugeMem 4096 (2 ^ 39) 32768 4096 2 hugePool).1 = .ok ∧
      translate hugeMem 4096 5 = none ∧
      translate (mapPages hugeMem 4096 (2 ^ 39) 32768 4096 2 hugePool).2.1 4096 5 =
        some (32773, 3) :=
  ⟨hugeMem_holds, hugePool_fresh, hugeTree_vacant (by decide), by decide, by decide, by decide,
    by decide, by decide, by decide⟩

end BrkKernel.Riscv
