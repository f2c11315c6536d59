import BrkKernel.Mm.Kmalloc
import BrkKernel.Mm.PgallocInv
import BrkKernel.Lib.FreeList

/-!
# What the slab caches and `kmalloc` keep

`KmemInv` ties the three layers together: the page allocator's partition, of which some blocks
belong to other users (`env`), some are slab pages and some are large allocations; on every slab
page the free objects, linked through memory; and the allocations in the hands of the callers,
each in its own object or block. Pages move between the three kinds of owner by `KmemInv.addSlab`,
`KmemInv.addLarge` and `KmemInv.dropLarge`; objects move between a free list and the callers by
`KmemInv.take` and `KmemInv.give`.
-/

set_option autoImplicit false

namespace BrkKernel.Kmalloc

open Lib Pgalloc Function ByteMem List

/-! ## Addresses and size classes -/

section Addresses

variable {m : Machine} {x pg i : Nat}

theorem pageToVirt_eq (m : Machine) (pg : Nat) : pageToVirt m pg = pageOffset + pg * 4096 := by
  unfold pageToVirt physToVirt pageToPhys pageSize
  omega

theorem virtToPage_eq (m : Machine) (x : Nat) : virtToPage m x = (x - pageOffset) / 4096 := by
  unfold virtToPage virtToPhys pageSize
  rw [Nat.add_sub_cancel]

theorem virtToPage_of_mem (h1 : pageToVirt m pg ≤ x) (h2 : x < pageToVirt m pg + 4096) :
    virtToPage m x = pg := by
  rw [pageToVirt_eq] at h1 h2
  rw [virtToPage_eq]
  omega

theorem virtToPage_pageToVirt (m : Machine) (pg : Nat) : virtToPage m (pageToVirt m pg) = pg :=
  virtToPage_of_mem le_rfl (by omega)

/-- The object size of a `kmalloc` cache. -/
def kmallocSize (i : Nat) : Nat := slabSize (kmallocSizes.getD i 0) maxAlign

/-- The object sizes are multiples of the alignment, and a page is cut up without a rest. -/
theorem kmallocSize_spec : ∀ i < nrKmallocAllocators, 16 ≤ kmallocSize i ∧
    kmallocSize i % 16 = 0 ∧ 4096 % kmallocSize i = 0 ∧ kmallocSize i ≤ 4096 ∧
    pageOrder (kmallocSize i) = 0 := by
  decide

theorem kmallocAllocatorIndex_spec {size : Nat} (h : kmallocAllocatorIndex size = some i) :
    i < nrKmallocAllocators ∧ size ≤ kmallocSize i := by
  unfold kmallocAllocatorIndex at h
  repeat
    split at h
    · cases h
      exact ⟨by decide, le_trans (by assumption) (by decide)⟩
  cases h

theorem kmallocAllocatorIndex_none {size : Nat} (h : kmallocAllocatorIndex size = none) :
    4096 < size := by
  unfold kmallocAllocatorIndex at h
  by_contra hle
  repeat
    split at h
    · cases h
  omega

/-- The objects of a slab page. -/
def Slot (m : Machine) (i pg x : Nat) : Prop :=
  x ∈ slots (pageToVirt m pg) (kmallocSize i) (4096 / kmallocSize i)

theorem Slot.bounds (h : Slot m i pg x) :
    pageToVirt m pg ≤ x ∧ x + kmallocSize i ≤ pageToVirt m pg + 4096 := by
  obtain ⟨k, hk, rfl⟩ := mem_slots.1 h
  have hle := Nat.mul_le_mul_right (kmallocSize i) (Nat.succ_le_of_lt hk)
  have hdiv := Nat.div_mul_le_self 4096 (kmallocSize i)
  rw [Nat.succ_mul] at hle
  omega

theorem Slot.aligned (h : Slot m i pg x) (hi : i < nrKmallocAllocators) : x % 16 = 0 := by
  obtain ⟨k, -, rfl⟩ := mem_slots.1 h
  obtain ⟨-, hmod, -⟩ := kmallocSize_spec i hi
  have hmul : 16 ∣ k * kmallocSize i := Dvd.dvd.mul_left (Nat.dvd_of_mod_eq_zero hmod) k
  rw [pageToVirt_eq]
  unfold pageOffset
  omega

theorem Slot.eq_or_apart {y : Nat} (h : Slot m i pg x) (h' : Slot m i pg y) :
    x = y ∨ x + kmallocSize i ≤ y ∨ y + kmallocSize i ≤ x := by
  obtain ⟨k, -, rfl⟩ := mem_slots.1 h
  obtain ⟨k', -, rfl⟩ := mem_slots.1 h'
  exact slot_eq_or_apart _ _ k k'

end Addresses

/-! ## The invariant -/

/-- Where an allocation comes from. -/
inductive Home where
  | slab (i : Nat)
  | block (order : Nat)
deriving DecidableEq

/-- The bytes that the allocator sets aside. -/
def Home.extent : Home → Nat
  | .slab i => kmallocSize i
  | .block order => pageSize * 2 ^ order

/-- An allocation in the hands of a caller that asked for `size` bytes. -/
structure Alloc where
  ptr : Nat
  size : Nat
  home : Home
deriving DecidableEq

variable {a : Alloc} {f size cpu : Nat} {b : Nat × Nat} {flags : Nat → PageFlags} {mem : ByteMem}

/-- Two allocations have no byte in common. -/
def Alloc.Apart (a b : Alloc) : Prop :=
  a.ptr + a.home.extent ≤ b.ptr ∨ b.ptr + b.home.extent ≤ a.ptr

/-- The block of pages of a large allocation. -/
def Alloc.pages (m : Machine) (a : Alloc) : Option (Nat × Nat) :=
  match a.home with
  | .slab _ => none
  | .block order => some (virtToPage m a.ptr, order)

/-- The blocks of pages that `kmalloc` has: the slab pages and the large allocations. -/
def held (m : Machine) (slabs : List Nat) (live : List Alloc) : List (Nat × Nat) :=
  slabs.map (fun pg => (pg, 0)) ++ live.filterMap (Alloc.pages m)

/-- A slab page of cache `i` with its free objects. -/
structure SlabPage (m : Machine) (s : Kmem) (i pg : Nat) (free : List Nat) : Prop where
  flag : (s.pa.flags pg).slab = true
  cache : s.slabCache pg = i
  linked : Linked 8 s.mem (s.slabFreeObjs pg) free
  count : free.length = s.slabFreeCount pg
  nodup : free.Nodup
  slot : ∀ f ∈ free, Slot m i pg f

/-- The caches below `n` are set up. `env` are the blocks of other users, `slabs` the slab pages and
`fr` their free objects. -/
structure KmemInv (m : Machine) (n : Nat) (s : Kmem) (env : List (Nat × Nat)) (live : List Alloc)
    (slabs : List Nat) (fr : Nat → List Nat) (M : Domain) : Prop where
  pages : BuddyInv m s.pa (env ++ held m slabs live) 0 none M
  fits : ∀ x, 0 < M.pages x → pageToVirt m x + 4096 ≤ 2 ^ 64
  caches : n ≤ nrKmallocAllocators
  cache : ∀ i < n, (s.allocators i).size = kmallocSize i ∧ (s.allocators i).align = maxAlign ∧
    (s.allocators i).pageOrder = 0
  slab : ∀ i < n, ∀ pg ∈ (s.allocators i).slabList, pg ∈ slabs ∧ SlabPage m s i pg (fr pg)
  object : ∀ a ∈ live, ∀ i, a.home = .slab i →
    i < n ∧ ∃ pg ∈ (s.allocators i).slabList, Slot m i pg a.ptr ∧ a.ptr ∉ fr pg
  block : ∀ a ∈ live, ∀ o, a.home = .block o → a.ptr = pageToVirt m (virtToPage m a.ptr) ∧
    (s.pa.flags (virtToPage m a.ptr)).slab = false ∧
    (s.pa.flags (virtToPage m a.ptr)).kmalloc = true ∧ s.pa.order (virtToPage m a.ptr) = o
  size : ∀ a ∈ live, a.size ≤ a.home.extent
  apart : live.Pairwise Alloc.Apart

variable {m : Machine} {n : Nat} {s : Kmem} {env : List (Nat × Nat)} {live : List Alloc}
  {slabs : List Nat} {fr : Nat → List Nat} {M : Domain} {i o pg x : Nat}

theorem mem_held_slab (m : Machine) (live : List Alloc) (hpg : pg ∈ slabs) :
    (pg, 0) ∈ held m slabs live :=
  mem_append_left _ (mem_map.2 ⟨pg, hpg, rfl⟩)

theorem mem_held_block (ha : a ∈ live) (ho : a.home = .block o) :
    (virtToPage m a.ptr, o) ∈ held m slabs live := by
  apply mem_append_right
  refine mem_filterMap.2 ⟨a, ha, ?_⟩
  rw [Alloc.pages, ho]

section Inv

variable (h : KmemInv m n s env live slabs fr M)
include h

/-- A block of other users has no page in common with the blocks of `kmalloc`. -/
theorem KmemInv.env_apart (hb : b ∈ env) (h1 : b.1 ≤ x)
    (h2 : x < b.1 + 2 ^ b.2) : liveSpan (held m slabs live) x = 0 := by
  have honce := h.pages.le_one x
  have hpos := liveSpan_pos hb h1 h2
  rw [liveSpan_append, Pi.add_apply] at honce
  omega

/-- A slab page is not in a large allocation. -/
theorem KmemInv.slab_apart (hpg : pg ∈ slabs) (ha : a ∈ live) (ho : a.home = .block o) :
    pg < virtToPage m a.ptr ∨ virtToPage m a.ptr + 2 ^ o ≤ pg := by
  obtain ⟨-, hheld, -⟩ := pairwise_append.1 h.pages.live_apart
  obtain ⟨-, -, hap⟩ := pairwise_append.1 hheld
  refine hap (pg, 0) (mem_map.2 ⟨pg, hpg, rfl⟩) (virtToPage m a.ptr, o) ?_
  refine mem_filterMap.2 ⟨a, ha, ?_⟩
  rw [Alloc.pages, ho]

/-- The block of pages that an allocation lies in. -/
theorem KmemInv.extent_pages (ha : a ∈ live) : ∃ b ∈ held m slabs live, pageToVirt m b.1 ≤ a.ptr ∧
      a.ptr + a.home.extent ≤ pageToVirt m (b.1 + 2 ^ b.2) := by
  cases hhome : a.home with
  | slab i =>
    obtain ⟨hi, pg, hpg, hslot, -⟩ := h.object a ha i hhome
    obtain ⟨hlo, hhi⟩ := hslot.bounds
    refine ⟨(pg, 0), mem_held_slab m live (h.slab i hi pg hpg).1, hlo, ?_⟩
    rw [pageToVirt_eq] at hhi ⊢
    dsimp only [Home.extent]
    omega
  | block o =>
    have hptr := (h.block a ha o hhome).1
    refine ⟨_, mem_held_block ha hhome, le_of_eq hptr.symm, ?_⟩
    rw [pageToVirt_eq] at hptr ⊢
    dsimp only [Home.extent]
    unfold pageSize
    omega

/-- The memory has addresses. -/
theorem KmemInv.head_fits (hb : (pg, o) ∈ env ++ held m slabs live) :
    pageToVirt m pg + 4096 ≤ 2 ^ 64 := by
  have hcover := h.pages.cover pg
  have hpos := liveSpan_head hb
  exact h.fits pg (by omega)

theorem KmemInv.size_ge (hi : i < n) : 16 ≤ kmallocSize i :=
  (kmallocSize_spec i (lt_of_lt_of_le hi h.caches)).1

section

variable (hi : i < n) (hpg : pg ∈ (s.allocators i).slabList)

include hi hpg

/-- The free objects lie in memory, and their addresses fit in a word. -/
theorem KmemInv.free_lt (hx : Slot m i pg x) : 0 < x ∧ x + 16 ≤ 2 ^ 64 := by
  have hfits := h.head_fits (mem_append_right env (mem_held_slab m live (h.slab i hi pg hpg).1))
  obtain ⟨hlo, hhi⟩ := hx.bounds
  have hsize := h.size_ge hi
  have hoff : 0 < pageOffset := by decide
  rw [pageToVirt_eq] at hlo
  omega

/-- The head of the free list fits in a word. -/
theorem KmemInv.freeObjs_lt : s.slabFreeObjs pg < 256 ^ 8 := by
  have hslab := (h.slab i hi pg hpg).2
  have hlinked := hslab.linked
  cases hfr : fr pg with
  | nil =>
    rw [hfr] at hlinked
    rw [show s.slabFreeObjs pg = 0 from hlinked]
    decide
  | cons f rest =>
    rw [hfr] at hlinked
    rw [hlinked.1]
    have hlt := h.free_lt hi hpg (hslab.slot f (by rw [hfr]; exact mem_cons_self))
    omega

/-- No byte of an allocation is in a free object. -/
theorem KmemInv.live_not_free (ha : a ∈ live) (h1 : a.ptr ≤ x) (h2 : x < a.ptr + a.home.extent)
    (hf : f ∈ fr pg) : x < f ∨ f + kmallocSize i ≤ x := by
  obtain ⟨hslabs, hslab⟩ := h.slab i hi pg hpg
  have hslot := hslab.slot f hf
  obtain ⟨hlo, hhi⟩ := hslot.bounds
  cases hhome : a.home with
  | slab j =>
    obtain ⟨hj, pg', hpg', hslot', hnot⟩ := h.object a ha j hhome
    obtain ⟨hlo', hhi'⟩ := hslot'.bounds
    rw [hhome, Home.extent] at h2
    by_cases hpp : pg = pg'
    · subst hpp
      -- on one page the two are different objects of one cache
      obtain rfl : i = j := hslab.cache.symm.trans (h.slab j hj pg hpg').2.cache
      rcases hslot'.eq_or_apart hslot with heq | hap
      · exact absurd (heq ▸ hf) hnot
      · omega
    · rw [pageToVirt_eq] at hlo hhi hlo' hhi'
      omega
  | block o =>
    have hptr := (h.block a ha o hhome).1
    have hap := h.slab_apart hslabs ha hhome
    rw [hhome, Home.extent, hptr, pageToVirt_eq] at h2
    rw [hptr, pageToVirt_eq] at h1
    rw [pageToVirt_eq] at hlo hhi
    unfold pageSize at h2
    omega

/-- No byte of a block of other users is in a free object. -/
theorem KmemInv.env_not_free (hb : b ∈ env) (h1 : pageToVirt m b.1 ≤ x)
    (h2 : x < pageToVirt m (b.1 + 2 ^ b.2)) (hf : f ∈ fr pg) : x < f ∨ f + kmallocSize i ≤ x := by
  obtain ⟨hslabs, hslab⟩ := h.slab i hi pg hpg
  obtain ⟨hlo, hhi⟩ := (hslab.slot f hf).bounds
  have hap : b.1 + 2 ^ b.2 ≤ pg ∨ pg < b.1 :=
    (pairwise_append.1 h.pages.live_apart).2.2 b hb (pg, 0) (mem_held_slab m live hslabs)
  rw [pageToVirt_eq] at h1 h2 hlo hhi
  omega

end

/-! ## Changes below -/

/-- Memory changes outside the links of the free objects. -/
theorem KmemInv.setMem (mem : ByteMem)
    (hmem : ∀ i < n, ∀ pg ∈ (s.allocators i).slabList, ∀ f ∈ fr pg, ∀ j < 8,
      mem (f + j) = s.mem (f + j)) : KmemInv m n { s with mem := mem } env live slabs fr M := by
  refine ⟨h.pages, h.fits, h.caches, h.cache, fun i hi pg hpg => ?_, h.object, h.block, h.size,
    h.apart⟩
  obtain ⟨hslabs, hslab⟩ := h.slab i hi pg hpg
  exact ⟨hslabs, hslab.flag, hslab.cache, hslab.linked.congr (hmem i hi pg hpg), hslab.count,
    hslab.nodup, hslab.slot⟩

/-- Memory changes between two addresses with no free object in between. -/
theorem KmemInv.writeRange {lo hi : Nat}
    (haway : ∀ x i pg f, lo ≤ x → x < hi → i < n → pg ∈ (s.allocators i).slabList → f ∈ fr pg →
      x < f ∨ f + kmallocSize i ≤ x) (hmem : ∀ x, x < lo ∨ hi ≤ x → mem x = s.mem x) :
    KmemInv m n { s with mem := mem } env live slabs fr M := by
  apply h.setMem
  intro i hi pg hpg f hf j hj
  apply hmem
  by_contra hin
  have h16 := h.size_ge hi
  have hfree := haway (f + j) i pg f (by omega) (by omega) hi hpg hf
  omega

/-- Memory changes inside an allocation. -/
theorem KmemInv.writeLive (ha : a ∈ live) (mem : ByteMem)
    (hmem : ∀ x, x < a.ptr ∨ a.ptr + a.home.extent ≤ x → mem x = s.mem x) :
    KmemInv m n { s with mem := mem } env live slabs fr M :=
  h.writeRange (fun _ _ _ _ h1 h2 hi hpg => h.live_not_free hi hpg ha h1 h2) hmem

/-- Memory changes inside a block of other users. -/
theorem KmemInv.writeEnv (hb : b ∈ env)
    (hmem : ∀ x, x < pageToVirt m b.1 ∨ pageToVirt m (b.1 + 2 ^ b.2) ≤ x → mem x = s.mem x) :
    KmemInv m n { s with mem := mem } env live slabs fr M :=
  h.writeRange (fun _ _ _ _ h1 h2 hi hpg => h.env_not_free hi hpg hb h1 h2) hmem

/-- The page allocator changes, but not on the pages of `kmalloc`. -/
theorem KmemInv.setPages {pa : PageAlloc}
    {env' : List (Nat × Nat)} (hpages : BuddyInv m pa (env' ++ held m slabs live) 0 none M)
    (hsame : SamePages (held m slabs live) s.pa pa) :
    KmemInv m n { s with pa := pa } env' live slabs fr M := by
  have hhead : ∀ b ∈ held m slabs live, pa.flags b.1 = s.pa.flags b.1 ∧
      pa.order b.1 = s.pa.order b.1 := fun b hb =>
    hsame b.1 (liveSpan_head hb)
  refine ⟨hpages, h.fits, h.caches, h.cache, fun i hi pg hpg => ?_, h.object, fun a ha o ho => ?_,
    h.size, h.apart⟩
  · obtain ⟨hslabs, hslab⟩ := h.slab i hi pg hpg
    refine ⟨hslabs, ?_, hslab.cache, hslab.linked, hslab.count, hslab.nodup, hslab.slot⟩
    rw [(hhead _ (mem_held_slab m live hslabs)).1]
    exact hslab.flag
  · obtain ⟨hf, hn⟩ := hhead _ (mem_held_block ha ho)
    rw [hf, hn]
    exact h.block a ha o ho

end Inv

/-! ## Slab pages -/

/-- The loop of `slab_add_page` links the objects in order and writes nothing else. -/
theorem linkObjs_spec {c fuel a : Nat} (mem : ByteMem) (hsize : 8 ≤ size) (hc : c < fuel)
    (hend : a + (c + 1) * size ≤ 2 ^ 64) :
    Linked 8 (linkObjs size (a + (c + 1) * size) fuel mem a) a (slots a size (c + 1)) ∧
      ∀ x, x < a ∨ a + (c + 1) * size ≤ x →
        linkObjs size (a + (c + 1) * size) fuel mem a x = mem x := by
  induction c generalizing fuel a mem with
  | zero =>
    obtain ⟨fuel, rfl⟩ := Nat.exists_eq_succ_of_ne_zero (ne_of_gt hc)
    rw [linkObjs, if_neg (by omega)]
    refine ⟨⟨rfl, load_store_of_lt (by decide)⟩, fun x hx => ?_⟩
    exact blit_of_disjoint (by omega)
  | succ c ih =>
    obtain ⟨fuel, rfl⟩ := Nat.exists_eq_succ_of_ne_zero (ne_of_gt (Nat.zero_lt_of_lt hc))
    have hmul : (c + 1 + 1) * size = (c + 1) * size + size := Nat.succ_mul _ _
    have hmul' : (c + 1) * size = c * size + size := Nat.succ_mul _ _
    have hstop : a + (c + 1 + 1) * size = a + size + (c + 1) * size := by omega
    rw [linkObjs, if_pos (by omega), hstop]
    obtain ⟨hlinked, hsame⟩ := ih (store 8 mem a (a + size)) (a := a + size)
      (by omega : c < fuel) (by omega)
    -- the first link is outside of what the rest of the loop writes
    have hload : load 8 (linkObjs size (a + size + (c + 1) * size) fuel
        (store 8 mem a (a + size)) (a + size)) a = load 8 (store 8 mem a (a + size)) a :=
      load_congr fun j hj => hsame (a + j) (by omega)
    refine ⟨⟨rfl, ?_⟩, fun x hx => ?_⟩
    · rw [hload, load_store_of_lt (by omega)]
      exact hlinked
    · rw [hsame x (by omega)]
      exact blit_of_disjoint (by omega)

theorem changeFlags_of_not_mem {head order : Nat}
    {f : PageFlags → PageFlags} (h : ¬ (head ≤ x ∧ x < head + 2 ^ order)) :
    changeFlags flags head order f x = flags x := if_neg h

theorem changeFlags_head (flags : Nat → PageFlags) (head order : Nat)
    (f : PageFlags → PageFlags) : changeFlags flags head order f head = f (flags head) :=
  if_pos ⟨le_rfl, Nat.lt_add_of_pos_right (Nat.two_pow_pos order)⟩

/-- The marks of `kmalloc` are not flags that the page allocator looks at. -/
theorem changeFlags_sameState (flags : Nat → PageFlags) (head order : Nat)
    {f : PageFlags → PageFlags} (hf : ∀ g : PageFlags, g.SameState (f g)) (x : Nat) :
    (flags x).SameState (changeFlags flags head order f x) := by
  unfold changeFlags
  split
  · exact hf (flags x)
  · exact ⟨rfl, rfl, rfl, rfl⟩

/-- Marks on a block of other users do not touch the pages of `kmalloc`. -/
theorem KmemInv.mark (h : KmemInv m n s env live slabs fr M) (hb : b ∈ env)
    (order : Nat → Nat) (hstate : ∀ x, (s.pa.flags x).SameState (flags x))
    (hout : ∀ x, ¬ (b.1 ≤ x ∧ x < b.1 + 2 ^ b.2) →
      flags x = s.pa.flags x ∧ order x = s.pa.order x) :
    KmemInv m n { s with pa := { s.pa with flags := flags, order := order } } env live slabs fr
      M := by
  apply h.setPages (h.pages.mark (mem_append_left _ hb) hstate hout)
  intro x hx
  apply hout
  rintro ⟨h1, h2⟩
  have hzero := h.env_apart hb h1 h2
  omega

/-- The numbers that `slab_add_page` computes for a page of a `kmalloc` cache. -/
theorem KmemInv.slab_numbers (h : KmemInv m n s env live slabs fr M) (hi : i < n) (pg : Nat) :
    firstObj m (s.allocators i).align pg = pageToVirt m pg ∧
      slabEnd m (s.allocators i).pageOrder pg = pageToVirt m pg + 4096 ∧
      objsCount m (s.allocators i) pg = 4096 / kmallocSize i := by
  obtain ⟨hsize, halign, horder⟩ := h.cache i hi
  have hfirst : firstObj m (s.allocators i).align pg = pageToVirt m pg := by
    have hal : isAligned (pageToVirt m pg) (s.allocators i).align = true := by
      rw [halign, pageToVirt_eq, isAligned, beq_iff_eq]
      unfold maxAlign pageOffset
      omega
    rw [firstObj, if_pos hal]
  have hstop : slabEnd m (s.allocators i).pageOrder pg = pageToVirt m pg + 4096 := by
    rw [slabEnd, horder]
    rfl
  refine ⟨hfirst, hstop, ?_⟩
  rw [objsCount, hfirst, hstop, hsize, Nat.add_sub_cancel_left]

/-- A page of other users becomes a slab page, all of whose objects are free. -/
theorem KmemInv.addSlab (h : KmemInv m n s ((pg, 0) :: env) live slabs fr M) (hi : i < n) :
    KmemInv m n (slabFill m s i pg) env live (pg :: slabs)
      (update fr pg (slots (pageToVirt m pg) (kmallocSize i) (4096 / kmallocSize i))) M := by
  obtain ⟨hfirst, hstop, hcount⟩ := h.slab_numbers hi pg
  obtain ⟨hsize, halign, horder⟩ := h.cache i hi
  obtain ⟨h16, -, hdvd, hle, -⟩ := kmallocSize_spec i (Nat.lt_of_lt_of_le hi h.caches)
  have hpgmem : (pg, 0) ∈ (pg, 0) :: env := mem_cons_self
  have hfits := h.head_fits (mem_append_left (held m slabs live) hpgmem)
  -- the page is not one of the slab pages yet
  have hzero := h.env_apart hpgmem (Nat.le_refl pg) (Nat.lt_succ_self pg)
  have hne : ∀ b ∈ held m slabs live, b.1 ≠ pg := by
    rintro b hb rfl
    have hpos := liveSpan_head hb
    omega
  have hnew : ∀ q ∈ slabs, q ≠ pg := fun q hq => hne _ (mem_held_slab m live hq)
  -- the objects fill the page
  obtain ⟨c, hc⟩ : ∃ c, 4096 / kmallocSize i = c + 1 :=
    Nat.exists_eq_succ_of_ne_zero (Nat.ne_of_gt (Nat.div_pos hle (by omega)))
  have hmul : (c + 1) * kmallocSize i = 4096 := by
    rw [← hc, Nat.div_mul_cancel (Nat.dvd_of_mod_eq_zero hdvd)]
  obtain ⟨hlinked, hsame⟩ := linkObjs_spec s.mem (show 8 ≤ kmallocSize i by omega)
    (show c < c + 1 + 1 by omega)
    (show pageToVirt m pg + (c + 1) * kmallocSize i ≤ 2 ^ 64 by omega)
  rw [hmul] at hlinked hsame
  -- the marks and the memory, one after the other
  have hmark := h.mark hpgmem s.pa.order
    (changeFlags_sameState s.pa.flags pg 0 (f := fun f => { f with slab := true })
      fun g => ⟨rfl, rfl, rfl, rfl⟩)
    fun x hx => ⟨changeFlags_of_not_mem hx, rfl⟩
  have hnext : pageToVirt m (pg + 2 ^ 0) = pageToVirt m pg + 4096 := by
    rw [pageToVirt_eq, pageToVirt_eq]
    omega
  have hmem := hmark.writeEnv hpgmem fun x hx => hsame x (by rwa [hnext] at hx)
  unfold slabFill slabMarkPageRange
  rw [hfirst, hstop, hcount, hsize, horder, hc]
  refine ⟨hmem.pages.perm perm_middle.symm, h.fits, h.caches, ?_, ?_, ?_, hmem.block, h.size,
    h.apart⟩
  · intro j hj
    dsimp only
    by_cases hji : j = i
    · subst hji
      rw [update_self]
      exact ⟨hsize, halign, horder⟩
    · rw [update_of_ne hji]
      exact h.cache j hj
  · intro j hj q hq
    dsimp only at hq
    by_cases hqpg : q = pg
    · -- the new page is on the list of its own cache only
      have hji : j = i := by
        by_contra hji
        rw [update_of_ne hji] at hq
        exact hnew q (h.slab j hj q hq).1 hqpg
      rw [hqpg, hji, update_self]
      refine ⟨mem_cons_self, ?_, if_pos (by omega), ?_, ?_, nodup_slots (by omega), ?_⟩
      · dsimp only
        rw [changeFlags_head]
      · dsimp only
        rw [update_self]
        exact hlinked
      · dsimp only
        rw [update_self, length_slots]
      · intro f hf
        rw [Slot, hc]
        exact hf
    have hq' : q ∈ (s.allocators j).slabList := by
      by_cases hji : j = i
      · rw [hji, update_self] at hq
        rw [hji]
        exact (mem_cons.1 hq).resolve_left hqpg
      · rwa [update_of_ne hji] at hq
    obtain ⟨hslabs, hslab⟩ := hmem.slab j hj q hq'
    rw [update_of_ne hqpg]
    refine ⟨mem_cons_of_mem pg hslabs, hslab.flag, ?_, ?_, ?_, hslab.nodup, hslab.slot⟩
    · dsimp only
      rw [if_neg (by omega)]
      exact hslab.cache
    · dsimp only
      rw [update_of_ne hqpg]
      exact hslab.linked
    · dsimp only
      rw [update_of_ne hqpg]
      exact hslab.count
  · intro a ha j hhome
    obtain ⟨hj, q, hq, hslot, hnot⟩ := h.object a ha j hhome
    have hqpg := hnew q (h.slab j hj q hq).1
    refine ⟨hj, q, ?_, hslot, by rwa [update_of_ne hqpg]⟩
    dsimp only
    by_cases hji : j = i
    · subst hji
      rw [update_self]
      exact mem_cons_of_mem pg hq
    · rwa [update_of_ne hji]

/-! ## Allocations -/

theorem Alloc.Apart.symm {b : Alloc} (h : a.Apart b) : b.Apart a := Or.symm h

theorem KmemInv.extent_pos (h : KmemInv m n s env live slabs fr M) (ha : a ∈ live) :
    0 < a.home.extent := by
  cases hhome : a.home with
  | slab i =>
    have hi := (h.object a ha i hhome).1
    have h16 := h.size_ge hi
    dsimp only [Home.extent]
    omega
  | block o => exact mul_pos (by decide) (Nat.two_pow_pos o)

theorem held_cons_slab (ha : a.home = .slab i) : held m slabs (a :: live) = held m slabs live := by
  have hnone : a.pages m = none := by rw [Alloc.pages, ha]
  rw [held, held, filterMap_cons_none hnone]

theorem held_cons_block (m : Machine) (slabs : List Nat) (live : List Alloc)
    (ha : a.home = .block o) :
    (held m slabs (a :: live)).Perm ((virtToPage m a.ptr, o) :: held m slabs live) := by
  have hsome : a.pages m = some (virtToPage m a.ptr, o) := by rw [Alloc.pages, ha]
  rw [held, filterMap_cons_some hsome]
  exact perm_middle

theorem held_erase (m : Machine) (slabs : List Nat) (ha : a ∈ live) :
    (held m slabs live).Perm (held m slabs (a :: live.erase a)) :=
  ((perm_cons_erase ha).filterMap _).append_left _

section

variable (h : KmemInv m n s env live slabs fr M)

include h

/-- The allocations other than `a` are apart from it. -/
theorem KmemInv.apart_erase {b : Alloc} (ha : a ∈ live) (hb : b ∈ live.erase a) : a.Apart b := by
  have hpair := ((perm_cons_erase ha).pairwise_iff Alloc.Apart.symm).1 h.apart
  exact (pairwise_cons.1 hpair).1 b hb

/-- The list of one page changes. -/
theorem KmemInv.setList {l : List Nat} {obj c : Nat}
    (hpage : SlabPage m
      { s with
        slabFreeObjs := update s.slabFreeObjs pg obj
        slabFreeCount := update s.slabFreeCount pg c } i pg l) :
    ∀ j < n, ∀ q ∈ (s.allocators j).slabList, q ∈ slabs ∧ SlabPage m
      { s with
        slabFreeObjs := update s.slabFreeObjs pg obj
        slabFreeCount := update s.slabFreeCount pg c } j q (update fr pg l q) := by
  intro j hj q hq
  obtain ⟨hqs, hold⟩ := h.slab j hj q hq
  refine ⟨hqs, ?_⟩
  by_cases hqpg : q = pg
  · subst hqpg
    obtain rfl : j = i := hold.cache.symm.trans hpage.cache
    rwa [update_self]
  · rw [update_of_ne hqpg]
    refine ⟨hold.flag, hold.cache, ?_, ?_, hold.nodup, hold.slot⟩
    · dsimp only
      rw [update_of_ne hqpg]
      exact hold.linked
    · dsimp only
      rw [update_of_ne hqpg]
      exact hold.count

/-- A free object is taken off the list of its page. -/
theorem KmemInv.take (hi : i < n)
    (hpg : pg ∈ (s.allocators i).slabList) {rest : List Nat} (hfr : fr pg = f :: rest)
    (hsize : size ≤ kmallocSize i) :
    s.slabFreeObjs pg = f ∧
      KmemInv m n
        { s with
          slabFreeObjs :=
            update s.slabFreeObjs pg (load 8 s.mem (s.slabFreeObjs pg))
          slabFreeCount := update s.slabFreeCount pg (s.slabFreeCount pg - 1) }
        env (⟨f, size, .slab i⟩ :: live) slabs (update fr pg rest) M := by
  obtain ⟨hslabs, hslab⟩ := h.slab i hi pg hpg
  have hf : f ∈ fr pg := by
    rw [hfr]
    exact mem_cons_self
  have hlinked := hslab.linked
  have hnd := hslab.nodup
  have hcount := hslab.count
  rw [hfr] at hlinked hnd hcount
  obtain ⟨hhead, hlinked⟩ := hlinked
  obtain ⟨hnot, hnd⟩ := nodup_cons.1 hnd
  have hsub : ∀ q y, y ∉ fr q → y ∉ update fr pg rest q := by
    intro q y hy
    by_cases hq : q = pg
    · rw [hq] at hy ⊢
      rw [update_self]
      rw [hfr] at hy
      exact fun hmem => hy (mem_cons_of_mem f hmem)
    · rwa [update_of_ne hq]
  refine ⟨hhead, h.pages, h.fits, h.caches, h.cache,
    h.setList ⟨hslab.flag, hslab.cache, ?_, ?_, hnd, fun y hy => ?_⟩, forall_mem_cons.2 ⟨?_, ?_⟩,
    forall_mem_cons.2 ⟨?_, h.block⟩, forall_mem_cons.2 ⟨hsize, h.size⟩, ?_⟩
  · dsimp only
    rw [update_self, hhead]
    exact hlinked
  · dsimp only
    rw [update_self, ← hcount, length_cons, Nat.add_sub_cancel]
  · exact hslab.slot y (by rw [hfr]; exact mem_cons_of_mem f hy)
  · intro j hhome
    cases hhome
    refine ⟨hi, pg, hpg, hslab.slot f hf, ?_⟩
    rwa [update_self]
  · intro a ha j hhome
    obtain ⟨hj, q, hq, hslot, hno⟩ := h.object a ha j hhome
    exact ⟨hj, q, hq, hslot, hsub q a.ptr hno⟩
  · intro o hhome
    cases hhome
  · refine pairwise_cons.2 ⟨fun a ha => ?_, h.apart⟩
    -- the later of the two addresses would be in both
    have hpos := h.extent_pos ha
    by_contra hno
    have hno' : ¬ (f + kmallocSize i ≤ a.ptr ∨ a.ptr + a.home.extent ≤ f) := hno
    have hsz := h.size_ge hi
    have hfree := h.live_not_free hi hpg ha (x := max a.ptr f) (by omega) (by omega) hf
    omega

/-- An object goes back to the list of its page. -/
theorem KmemInv.give (ha : a ∈ live)
    (hhome : a.home = .slab i) (hpg : pg ∈ (s.allocators i).slabList) (hslot : Slot m i pg a.ptr)
    (hnot : a.ptr ∉ fr pg) :
    KmemInv m n
      { s with
        mem := store 8 s.mem a.ptr (s.slabFreeObjs pg)
        slabFreeObjs := update s.slabFreeObjs pg a.ptr
        slabFreeCount := update s.slabFreeCount pg (s.slabFreeCount pg + 1) }
      env (live.erase a) slabs (update fr pg (a.ptr :: fr pg)) M := by
  have hi := (h.object a ha i hhome).1
  have h16 := h.size_ge hi
  obtain ⟨hslabs, hslab⟩ := h.slab i hi pg hpg
  have hsub : ∀ b ∈ live.erase a, b ∈ live := fun b hb => mem_of_mem_erase hb
  -- the link is written into the allocation
  have hstored := h.writeLive ha (store 8 s.mem a.ptr (s.slabFreeObjs pg))
    fun x hx => blit_of_disjoint (by rw [hhome, Home.extent] at hx; omega)
  refine ⟨?_, h.fits, h.caches, h.cache, hstored.setList ⟨hslab.flag, hslab.cache, ?_, ?_,
      nodup_cons.2 ⟨hnot, hslab.nodup⟩, forall_mem_cons.2 ⟨hslot, hslab.slot⟩⟩, ?_,
    fun b hb => h.block b (hsub b hb), fun b hb => h.size b (hsub b hb),
    h.apart.sublist erase_sublist⟩
  · have hperm := held_erase m slabs ha
    rw [held_cons_slab hhome] at hperm
    exact h.pages.perm (hperm.append_left env)
  · dsimp only
    rw [update_self]
    apply hslab.linked.push (h.freeObjs_lt hi hpg)
    intro b hb
    rcases (hslab.slot b hb).eq_or_apart hslot with rfl | hap
    · exact absurd hb hnot
    · omega
  · dsimp only
    rw [update_self, length_cons, hslab.count]
  · intro b hb j hhomeb
    obtain ⟨hj, q, hq, hslotb, hno⟩ := h.object b (hsub b hb) j hhomeb
    refine ⟨hj, q, hq, hslotb, ?_⟩
    by_cases hqpg : q = pg
    · subst hqpg
      rw [update_self]
      intro hmem
      rcases mem_cons.1 hmem with heq | hmem
      · have hap := h.apart_erase ha hb
        have hpa := h.extent_pos ha
        have hpb := h.extent_pos (hsub b hb)
        unfold Alloc.Apart at hap
        omega
      · exact hno hmem
    · rwa [update_of_ne hqpg]

end

/-- A marked block of other users becomes a large allocation. -/
theorem KmemInv.addLarge (h : KmemInv m n s ((pg, o) :: env) live slabs fr M)
    (hslab : (s.pa.flags pg).slab = false) (hmark : (s.pa.flags pg).kmalloc = true)
    (hord : s.pa.order pg = o) (hsize : size ≤ pageSize * 2 ^ o) :
    KmemInv m n s env (⟨pageToVirt m pg, size, .block o⟩ :: live) slabs fr M := by
  have hpg := virtToPage_pageToVirt m pg
  refine ⟨?_, h.fits, h.caches, h.cache, h.slab, forall_mem_cons.2 ⟨?_, h.object⟩,
    forall_mem_cons.2 ⟨?_, h.block⟩, forall_mem_cons.2 ⟨hsize, h.size⟩, ?_⟩
  · have hperm := held_cons_block m slabs live (a := ⟨pageToVirt m pg, size, .block o⟩) rfl
    rw [hpg] at hperm
    exact h.pages.perm (((hperm.append_left env).trans perm_middle).symm)
  · intro i hhome
    cases hhome
  · intro o' hhome
    cases hhome
    rw [hpg]
    exact ⟨rfl, hslab, hmark, hord⟩
  · refine pairwise_cons.2 ⟨fun a ha => ?_, h.apart⟩
    obtain ⟨b, hb, hlo, hhi⟩ := h.extent_pages ha
    have hap : pg + 2 ^ o ≤ b.1 ∨ b.1 + 2 ^ b.2 ≤ pg :=
      (pairwise_append.1 h.pages.live_apart).2.2 (pg, o) mem_cons_self b hb
    show pageToVirt m pg + pageSize * 2 ^ o ≤ a.ptr ∨ a.ptr + a.home.extent ≤ pageToVirt m pg
    rw [pageToVirt_eq] at hlo hhi ⊢
    unfold pageSize
    omega

/-- A large allocation becomes a block of other users. -/
theorem KmemInv.dropLarge (h : KmemInv m n s env live slabs fr M) (ha : a ∈ live)
    (hhome : a.home = .block o) :
    KmemInv m n s ((virtToPage m a.ptr, o) :: env) (live.erase a) slabs fr M := by
  have hsub : ∀ b ∈ live.erase a, b ∈ live := fun b hb => mem_of_mem_erase hb
  refine ⟨?_, h.fits, h.caches, h.cache, h.slab, fun b hb => h.object b (hsub b hb),
    fun b hb => h.block b (hsub b hb), fun b hb => h.size b (hsub b hb),
    h.apart.sublist erase_sublist⟩
  have hperm := (held_erase m slabs ha).trans (held_cons_block m slabs _ hhome)
  exact h.pages.perm ((hperm.append_left env).trans perm_middle)

/-! ## The page allocator underneath -/

theorem KmemInv.pageAlloc (h : KmemInv m n s env live slabs fr M)
    (hm : m.physOffset % 2 ^ 24 = 0) (order : Nat) (hcpu : cpu < m.ncpu)
    {shrunk : List Nat} (hnd : shrunk.Nodup) (henv : ∀ p ∈ shrunk, (p, 0) ∈ env) :
    ∃ r shrank pa, Pgalloc.pageAlloc m s.pa cpu order shrunk = some (r, shrank, pa) ∧
      KmemInv m n { s with pa := pa } (addBlock r order (keptBlocks shrank env shrunk)) live slabs
        fr M ∧ ∀ p, r = some p → pa.flags p = .newPage := by
  obtain ⟨r, shrank, pa, hpa, hpages, hnew, hsame⟩ := pageAlloc_keep hm order hcpu hnd henv h.pages
  exact ⟨r, shrank, pa, hpa, h.setPages hpages hsame, hnew⟩

theorem KmemInv.pageFree (h : KmemInv m n s ((pg, o) :: env) live slabs fr M)
    (hm : m.physOffset % 2 ^ 24 = 0) (hcpu : cpu < m.ncpu) :
    ∃ pa, Pgalloc.pageFree m s.pa cpu pg o = some pa ∧
      KmemInv m n { s with pa := pa } env live slabs fr M := by
  obtain ⟨pa, hpa, hpages, hsame⟩ := pageFree_keep hm hcpu h.pages
  exact ⟨pa, hpa, h.setPages hpages hsame⟩

end BrkKernel.Kmalloc
