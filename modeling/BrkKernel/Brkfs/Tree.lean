import BrkKernel.Lib.SlotTree
import BrkKernel.Brkfs.Super

/-!
# Ownership of data blocks

The block pointers of an inode and of its indirect blocks are a slot tree over the device bytes.
`Change` relates the reference counts of some collection of slots to the data bitmap across an
operation: every data block either keeps its count and its bit, or its bit agrees with its count
before and after. Changes compose (`Change.trans`), and a change of one subtree is a change of any
collection that contains it (`Change.add`, `Change.node`), provided nothing was shared before.
-/

set_option autoImplicit false

namespace BrkKernel.Brkfs

open Lib Lib.ByteMem SlotStore Finset

/-- Pointer slots of a volume: data blocks with one 32-bit pointer for every four bytes; `0` is
the empty slot. -/
def Geometry.slots (g : Geometry) : SlotStore Nat where
  ok b := decide (g.IsData b)
  fan := g.blocksize / 4
  nil := 0

/-- Pointer `i` of indirect block `b`. -/
def ptrAt (g : Geometry) (m : ByteMem) (b i : Nat) : Nat := load 4 m (b * g.blocksize + 4 * i)

/-- Number of slots that refer to `x` in the tree of depth `l` below `b`. -/
abbrev treeRefs (g : Geometry) (m : ByteMem) (l b x : Nat) : Nat := g.slots.refs (ptrAt g m) l b x

/-- The block at position `i` of the tree of depth `l` below `b`. -/
abbrev treeWalk (g : Geometry) (m : ByteMem) (l b i : Nat) : Option Nat :=
  g.slots.walk (ptrAt g m) l b i

/-- `x` is an indirect block of the tree of depth `l` below `b`. -/
abbrev TreeInner (g : Geometry) (m : ByteMem) (l b x : Nat) : Prop :=
  g.slots.Inner (ptrAt g m) l b x

/-- No slot of the tree of depth `l` below `b` holds a number that is neither `0` nor a data
block. -/
abbrev TreeClean (g : Geometry) (m : ByteMem) (l b : Nat) : Prop := g.slots.Clean (ptrAt g m) l b

section Slots

variable {g : Geometry} {v v' : Vol} {M : Nat → Prop} {l b i x : Nat} {m : ByteMem}

theorem slots_ok_iff : g.slots.ok b = true ↔ g.IsData b := decide_eq_true_iff

theorem slots_nil_not_ok (hg : g.LayoutOk) : ¬ g.slots.ok g.slots.nil := fun h =>
  hg.not_isData_zero (slots_ok_iff.1 h)

theorem slot_end_le (hi : i < g.slots.fan) : 4 * i + 4 ≤ g.blocksize := by
  have h : i < g.blocksize / 4 := hi
  omega

theorem treeRefs_zero (hg : g.LayoutOk) (m : ByteMem) (l x : Nat) : treeRefs g m l 0 x = 0 :=
  refs_of_not_ok (slots_nil_not_ok hg)

theorem treeRefs_leaf (hb : g.IsData b) : treeRefs g m 0 b = fun x => if b = x then 1 else 0 := by
  funext x
  simp [treeRefs, SlotStore.refs, slots_ok_iff.2 hb]

theorem treeWalk_zero (hg : g.LayoutOk) (m : ByteMem) (l i : Nat) : treeWalk g m l 0 i = none :=
  walk_of_not_ok (slots_nil_not_ok hg)

theorem not_treeInner_zero (hg : g.LayoutOk) : ¬ TreeInner g m l 0 x := fun h => by
  have hpos : 0 < treeRefs g m l 0 x := refs_pos_of_inner h
  rw [treeRefs_zero hg] at hpos
  exact lt_irrefl 0 hpos

theorem isData_of_treeRefs (h : 0 < treeRefs g m l b x) : g.IsData x :=
  slots_ok_iff.1 (ok_of_refs_pos h)

theorem isData_of_inner (h : TreeInner g m l b x) : g.IsData x :=
  slots_ok_iff.1 (inner_ok h)

/-- Blocks outside the frame keep their pointers. -/
theorem Frame.ptrAt_eq (h : Frame g M v v') (hb : ¬ M b) (hi : i < g.slots.fan) :
    ptrAt g v'.bd.data b i = ptrAt g v.bd.data b i := by
  have hend := slot_end_le hi
  refine load_congr fun k hk => ?_
  rw [add_assoc]
  exact h.block_byte hb (by omega)

end Slots

/-- Blocks an operation on a collection of slots with reference counts `R` may write: bitmap and
superblock blocks, blocks of the collection, free blocks, and the blocks in `M`. -/
def MayWrite (g : Geometry) (v : Vol) (R : Nat → Nat) (M : Nat → Prop) (c : Nat) : Prop :=
  g.IsDataBitmap c ∨ g.IsSuper c ∨ (g.IsData c ∧ (0 < R c ∨ dataBit g v.bd.data c = false)) ∨ M c

/-- An operation takes a collection of slots from reference counts `R` to `R'`. A data block keeps
its count and its bit, or the bit says before and after whether the collection refers to it. -/
structure Change (g : Geometry) (M : Nat → Prop) (v v' : Vol) (R R' : Nat → Nat) : Prop where
  frame : Frame g (MayWrite g v R M) v v'
  bits : ∀ c, g.IsData c →
    (R' c = R c ∧ dataBit g v'.bd.data c = dataBit g v.bd.data c) ∨
    (dataBit g v.bd.data c = decide (0 < R c) ∧ dataBit g v'.bd.data c = decide (0 < R' c))
  le_one : ∀ c, R' c ≤ 1
  free : v.FreeExact g → v'.FreeExact g

/-- Nothing in a collection of slots is shared, and what it refers to is marked as used. -/
structure Owned (g : Geometry) (v : Vol) (R : Nat → Nat) : Prop where
  le_one : ∀ c, R c ≤ 1
  isData : ∀ c, 0 < R c → g.IsData c
  used : ∀ c, 0 < R c → dataBit g v.bd.data c = true

section ChangeLemmas

variable {g : Geometry} {M N : Nat → Prop} {v v' v'' : Vol} {R R' R'' Q : Nat → Nat}

theorem Owned.mono (h : Owned g v R) (hle : ∀ c, Q c ≤ R c) : Owned g v Q where
  le_one c := (hle c).trans (h.le_one c)
  isData c hc := h.isData c (lt_of_lt_of_le hc (hle c))
  used c hc := h.used c (lt_of_lt_of_le hc (hle c))

theorem Change.refl (M : Nat → Prop) (h : Owned g v R) : Change g M v v R R where
  frame := Frame.refl g _ v
  bits _ _ := .inl ⟨rfl, rfl⟩
  le_one := h.le_one
  free := id

section

variable (h : Change g M v v' R R')

include h

theorem Change.mono (hMN : ∀ c, M c → N c) : Change g N v v' R R' :=
  { h with
    frame := h.frame.mono fun c hc => by
      rcases hc with hc | hc | hc | hc
      · exact .inl hc
      · exact .inr (.inl hc)
      · exact .inr (.inr (.inl hc))
      · exact .inr (.inr (.inr (hMN c hc))) }

theorem Change.owned (hR : Owned g v R) (hdata : ∀ c, 0 < R' c → g.IsData c) : Owned g v' R' where
  le_one := h.le_one
  isData := hdata
  used c hc := by
    rcases h.bits c (hdata c hc) with ⟨hr, hb⟩ | ⟨-, hb⟩
    · rw [hb]
      exact hR.used c (by omega)
    · rw [hb, decide_eq_true hc]

theorem Change.trans (h' : Change g M v' v'' R' R'') : Change g M v v'' R R'' where
  frame := by
    refine h.frame.trans (h'.frame.mono fun c hc => ?_)
    rcases hc with hc | hc | ⟨hd, hc⟩ | hc
    · exact .inl hc
    · exact .inr (.inl hc)
    · refine .inr (.inr (.inl ⟨hd, ?_⟩))
      rcases h.bits c hd with ⟨hr, hb⟩ | ⟨hb, hb'⟩
      · rwa [hr, hb] at hc
      by_cases h0 : 0 < R c
      · exact .inl h0
      · right
        rw [hb, decide_eq_false h0]
    · exact .inr (.inr (.inr hc))
  bits c hd := by
    rcases h.bits c hd with ⟨hr, hb⟩ | ⟨hb, hb'⟩ <;>
      rcases h'.bits c hd with ⟨hr', hb''⟩ | ⟨hb'', hb3⟩
    · exact .inl ⟨hr'.trans hr, hb''.trans hb⟩
    · exact .inr ⟨by rw [← hb, hb'', hr], hb3⟩
    · exact .inr ⟨hb, by rw [hb'', hb', hr']⟩
    · exact .inr ⟨hb, hb3⟩
  le_one := h'.le_one
  free := h'.free ∘ h.free

end

/-- A change followed by writes that spare the bitmap and the slots. -/
theorem Change.write {P : Nat → Prop} (hg : g.LayoutOk) (h : Change g M v v' R R')
    (hw : Frame g P v' v'') (hP : ∀ c, g.IsDataBitmap c → ¬ P c)
    (hfree : v''.sb.sFreeBlocks = v'.sb.sFreeBlocks) (hmay : ∀ c, P c → MayWrite g v R M c) :
    Change g M v v'' R R' where
  frame := h.frame.trans (hw.mono hmay)
  bits c hc := by
    rw [hw.dataBit_eq hg hP hc]
    exact h.bits c hc
  le_one := h.le_one
  free hf := hw.freeExact hg hP hfree (h.free hf)

/-- Blocks the rest of the collection refers to are not written. -/
theorem Change.not_mayWrite (h : Owned g v fun c => R c + Q c) (hM : ∀ c, 0 < Q c → ¬ M c)
    (hg : g.LayoutOk) {c : Nat} (hc : 0 < Q c) : ¬ MayWrite g v R M c := by
  have hd : g.IsData c := h.isData c (by omega)
  have hbit : dataBit g v.bd.data c = true := h.used c (by omega)
  have hle : R c + Q c ≤ 1 := h.le_one c
  rintro (hb | hb | ⟨-, hb | hb⟩ | hb)
  · exact hg.isData_not_bitmap hd hb
  · exact isSuper_not_data hg hd hb
  · omega
  · rw [hbit] at hb
    cases hb
  · exact hM c hc hb

/-- A change of a part of a collection is a change of the collection. -/
theorem Change.add (h : Change g M v v' R R') (hown : Owned g v fun c => R c + Q c)
    (hMN : ∀ c, M c → N c ∨ (g.IsData c ∧ 0 < Q c)) :
    Change g N v v' (fun c => R c + Q c) fun c => R' c + Q c where
  frame := by
    refine h.frame.mono fun c hc => ?_
    rcases hc with hc | hc | ⟨hd, hc⟩ | hc
    · exact .inl hc
    · exact .inr (.inl hc)
    · exact .inr (.inr (.inl ⟨hd, hc.imp (Nat.lt_add_right _) id⟩))
    · rcases hMN c hc with hN | ⟨hd, hQ⟩
      · exact .inr (.inr (.inr hN))
      · exact .inr (.inr (.inl ⟨hd, .inl (Nat.lt_add_left _ hQ)⟩))
  bits c hd := by
    have hle : R c + Q c ≤ 1 := hown.le_one c
    rcases h.bits c hd with ⟨hr, hb⟩ | ⟨hb, hb'⟩
    · exact .inl ⟨by rw [hr], hb⟩
    have hQ : Q c = 0 := by
      by_contra hQ
      have hbit : dataBit g v.bd.data c = true := hown.used c (by omega)
      rw [hb, decide_eq_true_iff] at hbit
      omega
    exact .inr ⟨by rw [hb, hQ, add_zero], by rw [hb', hQ, add_zero]⟩
  le_one c := by
    have hle : R c + Q c ≤ 1 := hown.le_one c
    have hle' := h.le_one c
    by_cases hQ : Q c = 0
    · omega
    rcases h.bits c (hown.isData c (by omega)) with ⟨hr, -⟩ | ⟨hb, -⟩
    · omega
    · have hbit : dataBit g v.bd.data c = true := hown.used c (by omega)
      rw [hb, decide_eq_true_iff] at hbit
      omega
  free := h.free

end ChangeLemmas

/-! ## Trees that an operation leaves alone -/

section Untouched

variable {g : Geometry} {M : Nat → Prop} {v v' : Vol} {l b x i : Nat} {E : Nat → Nat} {ι : Type}
  (I : Finset ι)

/-- The inner blocks of a tree are not written. -/
def Untouched (g : Geometry) (M : Nat → Prop) (v : Vol) (l b : Nat) : Prop :=
  ∀ y, TreeInner g v.bd.data l b y → ¬ M y

section

variable (h : Untouched g M v l b) (hf : Frame g M v v')

include h hf

theorem Untouched.refs_eq : treeRefs g v'.bd.data l b x = treeRefs g v.bd.data l b x :=
  refs_congr fun y hy _ hi => hf.ptrAt_eq (h y hy) hi

theorem Untouched.inner_iff : TreeInner g v'.bd.data l b x ↔ TreeInner g v.bd.data l b x :=
  inner_congr fun y hy _ hi => hf.ptrAt_eq (h y hy) hi

theorem Untouched.clean_iff : TreeClean g v'.bd.data l b ↔ TreeClean g v.bd.data l b :=
  clean_congr fun y hy _ hi => hf.ptrAt_eq (h y hy) hi

theorem Untouched.walk_eq (hi : i < g.slots.fan ^ l) :
    treeWalk g v'.bd.data l b i = treeWalk g v.bd.data l b i :=
  walk_congr (fun y hy _ hj => hf.ptrAt_eq (h y hy) hj) hi

end

/-- The trees of a collection without sharing, except the one an operation works on. `E` counts
the references that are not from one of the trees. -/
theorem untouched_of_owned [DecidableEq ι] (lv rt : ι → Nat) {k i : ι} (hg : g.LayoutOk)
    (hown : Owned g v fun x => E x + ∑ i ∈ I, treeRefs g v.bd.data (lv i) (rt i) x)
    (hM : ∀ c, M c → 0 < E c ∨ ∀ i ∈ I, treeRefs g v.bd.data (lv i) (rt i) c = 0)
    (hk : k ∈ I) (hi : i ∈ I) (hik : i ≠ k) :
    Untouched g (MayWrite g v (treeRefs g v.bd.data (lv k) (rt k)) M) v (lv i) (rt i) := by
  intro y hy
  have hpos : 0 < treeRefs g v.bd.data (lv i) (rt i) y := refs_pos_of_inner hy
  refine Change.not_mayWrite (Q := treeRefs g v.bd.data (lv i) (rt i))
    (hown.mono fun c => ?_) (fun c hc hMc => ?_) hg hpos
  · have hmem : i ∈ I.erase k := mem_erase.2 ⟨hik, hi⟩
    rw [← add_sum_erase I _ hk]
    have h1 := single_le_sum (f := fun i => treeRefs g v.bd.data (lv i) (rt i) c)
      (fun _ _ => Nat.zero_le _) hmem
    omega
  · rcases hM c hMc with hE | h0
    · have h1 := hown.le_one c
      have h2 := single_le_sum (f := fun i => treeRefs g v.bd.data (lv i) (rt i) c)
        (fun _ _ => Nat.zero_le _) hi
      omega
    · rw [h0 i hi] at hc
      exact absurd hc (Nat.lt_irrefl 0)

/-- A change of one tree of a collection without sharing changes the collection. -/
theorem Change.forest [DecidableEq ι] (lv rt rt' : ι → Nat) {k : ι}
    {N : Nat → Prop} (hg : g.LayoutOk) (h : Change g M v v' (treeRefs g v.bd.data (lv k) (rt k))
      (treeRefs g v'.bd.data (lv k) (rt' k)))
    (hown : Owned g v fun x => E x + ∑ i ∈ I, treeRefs g v.bd.data (lv i) (rt i) x)
    (hM : ∀ c, M c → 0 < E c ∨ ∀ i ∈ I, treeRefs g v.bd.data (lv i) (rt i) c = 0)
    (hMN : ∀ c, M c → N c ∨ 0 < E c) (hk : k ∈ I) (hrt : ∀ i ∈ I, i ≠ k → rt' i = rt i) :
    Change g N v v' (fun x => E x + ∑ i ∈ I, treeRefs g v.bd.data (lv i) (rt i) x)
      fun x => E x + ∑ i ∈ I, treeRefs g v'.bd.data (lv i) (rt' i) x := by
  have hother : ∀ x, ∑ i ∈ I.erase k, treeRefs g v'.bd.data (lv i) (rt' i) x =
      ∑ i ∈ I.erase k, treeRefs g v.bd.data (lv i) (rt i) x := by
    intro x
    refine sum_congr rfl fun i hi => ?_
    obtain ⟨hik, hiI⟩ := mem_erase.1 hi
    rw [hrt i hiI hik]
    exact (untouched_of_owned I lv rt hg hown hM hk hiI hik).refs_eq h.frame
  have hR : (fun x => E x + ∑ i ∈ I, treeRefs g v.bd.data (lv i) (rt i) x) = fun x =>
      treeRefs g v.bd.data (lv k) (rt k) x +
        (E x + ∑ i ∈ I.erase k, treeRefs g v.bd.data (lv i) (rt i) x) := by
    funext x
    rw [← add_sum_erase I _ hk]
    omega
  have hR' : (fun x => E x + ∑ i ∈ I, treeRefs g v'.bd.data (lv i) (rt' i) x) = fun x =>
      treeRefs g v'.bd.data (lv k) (rt' k) x +
        (E x + ∑ i ∈ I.erase k, treeRefs g v.bd.data (lv i) (rt i) x) := by
    funext x
    rw [← add_sum_erase I _ hk, hother]
    omega
  rw [hR, hR']
  rw [hR] at hown
  refine h.add hown fun c hc => ?_
  rcases hMN c hc with hN | hE
  · exact .inl hN
  · exact .inr ⟨hown.isData c (by omega), by omega⟩

end Untouched

end BrkKernel.Brkfs
