import BrkKernel.Mm.KmallocInv
import BrkKernel.Mm.PgallocRun

/-!
# Every history of `kmalloc`

Each function of `slab.c` and `kmalloc.c` returns and keeps `KmemInv`. A request of more than 16
MiB is served with a block of 16 MiB, because `page_order` stops at the largest order: an
allocation is as large as it was asked to be exactly when the request is at most 16 MiB
(`le_extent_homeOf_iff`). `kmalloc_contract` says that in every state reached by requests of at
most 16 MiB the next call is sound exactly when it keeps to that limit or returns no memory.
-/

set_option autoImplicit false

namespace BrkKernel.Kmalloc

open Lib Pgalloc Function List Option

/-- The allocations after a request. -/
def addAlloc (r : Option Nat) (size : Nat) (home : Home) (live : List Alloc) : List Alloc :=
  (r.map fun p => ⟨p, size, home⟩).toList ++ live

/-- Where `kmalloc` takes the memory for a request from. -/
def homeOf (size : Nat) : Home :=
  match kmallocAllocatorIndex size with
  | some i => .slab i
  | none => .block (pageOrder size)

/-! ## How much a request gets -/

theorem pageOrder_fits {size : Nat} (h : size ≤ 2 ^ 24) : size ≤ pageSize * 2 ^ pageOrder size := by
  rcases (pageOrder_spec size).2 with hfit | hmax
  · exact hfit
  · rw [hmax]
    exact h

theorem pageOrder_extent_le (size : Nat) : pageSize * 2 ^ pageOrder size ≤ 2 ^ 24 := by
  have hle := Nat.pow_le_pow_right (show 0 < 2 by decide) (pageOrder_spec size).1
  unfold pageOrderMax at hle
  unfold pageSize
  omega

theorem pageOrder_pos {size : Nat} (h : 4096 < size) : 0 < pageOrder size := by
  rcases (pageOrder_spec size).2 with hfit | hmax
  · refine pos_of_ne_zero fun h0 => ?_
    rw [h0] at hfit
    exact absurd (lt_of_lt_of_le h hfit) (by decide)
  · rw [hmax]
    decide

/-- A request gets what it asks for up to the size of the largest block. -/
theorem le_extent_homeOf_iff (size : Nat) : size ≤ (homeOf size).extent ↔ size ≤ 2 ^ 24 := by
  unfold homeOf
  cases hidx : kmallocAllocatorIndex size with
  | some i =>
    obtain ⟨hi, hle⟩ := kmallocAllocatorIndex_spec hidx
    have hmax := (kmallocSize_spec i hi).2.2.2.1
    exact ⟨fun _ => by omega, fun _ => hle⟩
  | none =>
    exact ⟨fun h => le_trans h (pageOrder_extent_le size), fun h => pageOrder_fits h⟩

/-! ## The functions -/

section Functions

variable {m : Machine} {n : Nat} {s : Kmem} {env : List (Nat × Nat)} {live : List Alloc}
  {slabs : List Nat} {fr : Nat → List Nat} {M : Domain} {i cpu size : Nat} {shrunk : List Nat}
  (h : KmemInv m n s env live slabs fr M) {a : Alloc}
include h

/-- The scan of `slab_alloc`. -/
theorem slabTake_inv (hi : i < n) (hsize : size ≤ kmallocSize i) :
    slabTake s i = none ∨ ∃ f s' fr', slabTake s i = some (f, s') ∧
      KmemInv m n s' env (⟨f, size, .slab i⟩ :: live) slabs fr' M := by
  unfold slabTake
  cases hfind : (s.allocators i).slabList.find? fun pg => 0 < s.slabFreeCount pg with
  | none => exact .inl rfl
  | some pg =>
    have hpg := mem_of_find?_eq_some hfind
    have hfound := find?_some hfind
    have hpos : 0 < s.slabFreeCount pg := of_decide_eq_true hfound
    right
    cases hfr : fr pg with
    | nil =>
      have hcount := (h.slab i hi pg hpg).2.count
      rw [hfr, length_nil] at hcount
      omega
    | cons f rest =>
      obtain ⟨hhead, h'⟩ := h.take hi hpg hfr hsize
      exact ⟨f, _, _, by rw [← hhead]; rfl, h'⟩

/-- The allocator that an allocation came from has it back. -/
def Returned (m : Machine) (cpu : Nat) (s s' : Kmem) (a : Alloc) : Prop :=
  match a.home with
  | .slab i => s'.pa = s.pa ∧ virtToPage m a.ptr ∈ (s.allocators i).slabList ∧
      s'.slabFreeObjs (virtToPage m a.ptr) = a.ptr ∧
      s'.slabFreeCount (virtToPage m a.ptr) = s.slabFreeCount (virtToPage m a.ptr) + 1
  | .block o => Pgalloc.pageFree m (kmallocUnmarkBlock s.pa (virtToPage m a.ptr) o) cpu
      (virtToPage m a.ptr) o = some s'.pa

/-- `slab_free` finds the page of the object. -/
theorem KmemInv.find_slab {obj pg : Nat} (hi : i < n)
    (hpg : pg ∈ (s.allocators i).slabList) (hslot : Slot m i pg obj) :
    (s.allocators i).slabList.find? (inSlab m s obj) = some pg := by
  have hin : ∀ q ∈ (s.allocators i).slabList, inSlab m s obj q = true ↔
      pageToVirt m q ≤ obj ∧ obj < pageToVirt m q + 4096 := by
    intro q hq
    rw [inSlab, (h.slab i hi q hq).2.cache, (h.cache i hi).2.2, decide_eq_true_iff]
    rfl
  obtain ⟨hlo, hhi⟩ := hslot.bounds
  have h16 := h.size_ge hi
  have hself : inSlab m s obj pg = true := (hin pg hpg).2 ⟨hlo, by omega⟩
  cases hfind : (s.allocators i).slabList.find? (inSlab m s obj) with
  | none => exact absurd hself (find?_eq_none.1 hfind pg hpg)
  | some q =>
    obtain ⟨hq1, hq2⟩ := (hin q (mem_of_find?_eq_some hfind)).1 (find?_some hfind)
    rw [← virtToPage_of_mem hq1 hq2, virtToPage_of_mem hlo (by omega)]

/-- `kfree` of an object. -/
theorem kfree_slab_inv (ha : a ∈ live) (hhome : a.home = .slab i) :
    ∃ s' fr', kfree m s cpu a.ptr = some s' ∧ Returned m cpu s s' a ∧
      KmemInv m n s' env (live.erase a) slabs fr' M := by
  obtain ⟨hi, pg, hpg, hslot, hnot⟩ := h.object a ha i hhome
  have hi' := lt_of_lt_of_le hi h.caches
  obtain ⟨hlo, hhi⟩ := hslot.bounds
  have h16 := h.size_ge hi
  have hvirt : virtToPage m a.ptr = pg := virtToPage_of_mem hlo (by omega)
  have hslab := (h.slab i hi pg hpg).2
  have hnull : a.ptr ≠ 0 := ne_of_gt (h.free_lt hi hpg hslot).1
  have hal : isAligned a.ptr (s.allocators i).align = true := by
    rw [(h.cache i hi).2.1, isAligned, beq_iff_eq]
    exact hslot.aligned hi'
  refine ⟨_, _, ?_, ?_, h.give ha hhome hpg hslot hnot⟩
  · rw [kfree, if_neg hnull, hvirt, if_pos hslab.flag, hslab.cache, slabFree, if_neg hnull,
      if_pos hal, h.find_slab hi hpg hslot]
    rfl
  unfold Returned
  rw [hhome, hvirt]
  dsimp only
  rw [update_self, update_self]
  exact ⟨rfl, hpg, rfl, rfl⟩

variable (hm : m.physOffset % 2 ^ 24 = 0) (hcpu : cpu < m.ncpu)
include hm hcpu

/-- `kfree` of a large allocation. -/
theorem kfree_block_inv {o : Nat} (ha : a ∈ live) (hhome : a.home = .block o) :
    ∃ s', kfree m s cpu a.ptr = some s' ∧ Returned m cpu s s' a ∧
      KmemInv m n s' env (live.erase a) slabs fr M := by
  obtain ⟨hptr, hslab, hkmalloc, hord⟩ := h.block a ha o hhome
  obtain ⟨-, hal, -, hhead, -⟩ :=
    h.pages.live _ (mem_append_right env (mem_held_block ha hhome))
  have hnull : a.ptr ≠ 0 := by
    rw [hptr, pageToVirt_eq]
    unfold pageOffset
    omega
  have hblock : kmallocBlockHead (virtToPage m a.ptr) o = virtToPage m a.ptr :=
    Nat.div_mul_cancel (Nat.dvd_of_mod_eq_zero hal)
  -- the block goes back to the other users, loses its marks and is freed
  have hmark := (h.dropLarge ha hhome).mark (b := (virtToPage m a.ptr, o)) mem_cons_self
    s.pa.order
    (changeFlags_sameState s.pa.flags (virtToPage m a.ptr) o
      (f := fun f => { f with kmalloc := false }) fun g => ⟨rfl, rfl, rfl, rfl⟩)
    fun x hx => ⟨changeFlags_of_not_mem hx, rfl⟩
  obtain ⟨pa, hpa, h'⟩ := hmark.pageFree hm hcpu
  refine ⟨{ s with pa := pa }, ?_, ?_, h'⟩
  · rw [kfree, if_neg hnull, if_neg (by simp [hslab]), if_pos hkmalloc, hord, hblock, kfreeBlock,
      if_pos hhead, hord]
    unfold kmallocUnmarkBlock
    rw [hpa]
    rfl
  · unfold Returned
    rw [hhome]
    exact hpa

section Shrink

variable (hnd : shrunk.Nodup) (henv : ∀ p ∈ shrunk, (p, 0) ∈ env)
include hnd henv

/-- `slab_add_page`. -/
theorem slabAddPage_inv (hi : i < n) :
    ∃ ok shrank s' slabs' fr', slabAddPage m s cpu i shrunk = some (ok, shrank, s') ∧
      KmemInv m n s' (keptBlocks shrank env shrunk) live slabs' fr' M := by
  obtain ⟨r, shrank, pa, hpa, h', -⟩ := h.pageAlloc hm (s.allocators i).pageOrder hcpu hnd henv
  unfold slabAddPage
  rw [hpa]
  cases r with
  | none => exact ⟨false, shrank, _, slabs, fr, rfl, h'⟩
  | some pg =>
    have hcount : objsCount m (s.allocators i) pg ≠ 0 := by
      obtain ⟨h16, -, -, hle, -⟩ := kmallocSize_spec i (lt_of_lt_of_le hi h.caches)
      rw [(h.slab_numbers hi pg).2.2]
      exact ne_of_gt (Nat.div_pos hle (by omega))
    dsimp only
    rw [if_neg hcount]
    rw [(h.cache i hi).2.2] at h'
    exact ⟨true, shrank, _, _, _, rfl, h'.addSlab hi⟩

/-- `slab_alloc`. -/
theorem slabAlloc_inv (hi : i < n) (hsize : size ≤ kmallocSize i) :
    ∃ r shrank s' slabs' fr', slabAlloc m s cpu i shrunk = some (r, shrank, s') ∧
      KmemInv m n s' (keptBlocks shrank env shrunk) (addAlloc r size (.slab i) live) slabs' fr'
        M := by
  unfold slabAlloc
  rcases slabTake_inv h hi hsize with hnone | ⟨f, s', fr', hsome, h'⟩
  · rw [hnone]
    obtain ⟨ok, shrank, s1, slabs1, fr1, hs1, h1⟩ := slabAddPage_inv h hm hcpu hnd henv hi
    rw [hs1]
    cases ok with
    | false => exact ⟨none, shrank, s1, slabs1, fr1, rfl, h1⟩
    | true =>
      dsimp only
      rcases slabTake_inv h1 hi hsize with hnone | ⟨f, s', fr', hsome, h'⟩
      · rw [hnone]
        exact ⟨none, shrank, s1, slabs1, fr1, rfl, h1⟩
      · rw [hsome]
        exact ⟨some f, shrank, s', slabs1, fr', rfl, h'⟩
  · rw [hsome]
    exact ⟨some f, false, s', slabs, fr', rfl, h'⟩

omit h in
/-- `kmalloc`. The caller may use the part of the request that the allocator has set aside. -/
theorem kmalloc_inv (size : Nat) (h : KmemInv m nrKmallocAllocators s env live slabs fr M) :
    ∃ r shrank s' slabs' fr', kmalloc m s cpu size shrunk = some (r, shrank, s') ∧
      KmemInv m nrKmallocAllocators s' (keptBlocks shrank env shrunk)
        (addAlloc r (min size (homeOf size).extent) (homeOf size) live) slabs' fr' M := by
  unfold kmalloc homeOf
  split
  · exact ⟨none, false, s, slabs, fr, rfl, h⟩
  cases hidx : kmallocAllocatorIndex size with
  | some i =>
    obtain ⟨hi, -⟩ := kmallocAllocatorIndex_spec hidx
    exact slabAlloc_inv h hm hcpu hnd henv hi (min_le_right _ _)
  | none =>
    have hpos := pageOrder_pos (kmallocAllocatorIndex_none hidx)
    obtain ⟨r, shrank, pa, hpa, h', hnew⟩ := h.pageAlloc hm (pageOrder size) hcpu hnd henv
    rw [hpa]
    cases r with
    | none => exact ⟨none, shrank, _, slabs, fr, rfl, h'⟩
    | some pg =>
      refine ⟨some (pageToVirt m pg), shrank, _, slabs, fr, rfl, ?_⟩
      rw [if_pos hpos]
      have hmark := h'.mark (b := (pg, pageOrder size)) mem_cons_self
        (fun p => if pg ≤ p ∧ p < pg + 2 ^ pageOrder size then pageOrder size else pa.order p)
        (changeFlags_sameState pa.flags pg (pageOrder size)
          (f := fun f => { f with kmalloc := true }) fun g => ⟨rfl, rfl, rfl, rfl⟩)
        fun x hx => ⟨changeFlags_of_not_mem hx, if_neg hx⟩
      apply hmark.addLarge
      · dsimp only
        rw [changeFlags_head, hnew pg rfl]
        rfl
      · dsimp only
        rw [changeFlags_head]
      · exact if_pos ⟨le_rfl, Nat.lt_add_of_pos_right (Nat.two_pow_pos _)⟩
      · exact min_le_right _ _

end Shrink

/-! ## Setting up -/

/-- `slab_init` sets up one more cache, with a first page if there is one. -/
theorem slabInit_inv (hn : n < nrKmallocAllocators) :
    ∃ e s' slabs' fr', slabInit m s cpu n (kmallocSizes.getD n 0) maxAlign = some (e, s') ∧
      KmemInv m (n + 1) s' env live slabs' fr' M := by
  have hpos : ∀ i < nrKmallocAllocators, ¬ (kmallocSizes.getD i 0 = 0 ∨ maxAlign = 0) := by decide
  have hold : ∀ i < n, update s.allocators n ⟨slabSize (kmallocSizes.getD n 0) maxAlign,
      slabAlign maxAlign, pageOrder (slabSize (kmallocSizes.getD n 0) maxAlign), []⟩ i =
      s.allocators i := fun i hi => update_of_ne (ne_of_lt hi) _ _
  have hset : KmemInv m (n + 1)
      { s with
        allocators := update s.allocators n
          ⟨slabSize (kmallocSizes.getD n 0) maxAlign, slabAlign maxAlign,
            pageOrder (slabSize (kmallocSizes.getD n 0) maxAlign), []⟩ } env live slabs fr M := by
    refine ⟨h.pages, h.fits, hn, fun i hi => ?_, fun i hi pg hpg => ?_, fun a ha i hhome => ?_,
      h.block, h.size, h.apart⟩
    · dsimp only
      rcases Nat.lt_succ_iff_lt_or_eq.1 hi with hi | rfl
      · rw [hold i hi]
        exact h.cache i hi
      · rw [update_self]
        exact ⟨rfl, show slabAlign maxAlign = maxAlign by decide, (kmallocSize_spec i hn).2.2.2.2⟩
    · dsimp only at hpg
      rcases Nat.lt_succ_iff_lt_or_eq.1 hi with hi | rfl
      · rw [hold i hi] at hpg
        obtain ⟨hslabs, hslab⟩ := h.slab i hi pg hpg
        exact ⟨hslabs, hslab.flag, hslab.cache, hslab.linked, hslab.count, hslab.nodup, hslab.slot⟩
      · rw [update_self] at hpg
        cases hpg
    · obtain ⟨hi, pg, hpg, hslot, hnot⟩ := h.object a ha i hhome
      refine ⟨Nat.lt_succ_of_lt hi, pg, ?_, hslot, hnot⟩
      dsimp only
      rwa [hold i hi]
  obtain ⟨ok, shrank, s', slabs', fr', hs', h'⟩ := slabAddPage_inv hset hm hcpu nodup_nil
    (fun _ hp => absurd hp not_mem_nil) (Nat.lt_succ_self n)
  unfold slabInit
  rw [if_neg (hpos n hn), hs']
  refine ⟨_, s', slabs', fr', rfl, ?_⟩
  cases shrank with
  | false => exact h'
  | true => exact h'

omit h

/-- `kmalloc_init`. -/
theorem kmallocInit_inv (h : KmemInv m 0 s env live slabs fr M) :
    ∃ s' slabs' fr', kmallocInit m s cpu = some s' ∧
      KmemInv m nrKmallocAllocators s' env live slabs' fr' M := by
  have hloop : ∀ k ≤ nrKmallocAllocators, ∃ s' slabs' fr',
      (range k).foldlM
        (fun s i => (slabInit m s cpu i (kmallocSizes.getD i 0) maxAlign).map Prod.snd) s =
          some s' ∧ KmemInv m k s' env live slabs' fr' M := by
    intro k hk
    induction k with
    | zero => exact ⟨s, slabs, fr, rfl, h⟩
    | succ k ih =>
      obtain ⟨s1, slabs1, fr1, hs1, h1⟩ := ih (Nat.le_of_succ_le hk)
      obtain ⟨e, s2, slabs2, fr2, hs2, h2⟩ := slabInit_inv h1 hm hcpu hk
      refine ⟨s2, slabs2, fr2, ?_, h2⟩
      rw [range_succ, foldlM_append, hs1]
      simp only [bind_eq_bind, bind_some, foldlM_cons, foldlM_nil, hs2, map_some]
      rfl
  exact hloop nrKmallocAllocators le_rfl

/-- The memory is handed over and the caches are set up. -/
def boot (m : Machine) (cpu : Nat) (ranges : List (Nat × Nat)) (mem : ByteMem) : Option Kmem :=
  (memblockFreeAll m cpu ranges).bind fun pa => kmallocInit m (kmemBoot pa mem) cpu

theorem boot_inv {ranges : List (Nat × Nat)} (habove : ∀ r ∈ ranges, m.physOffset ≤ r.1)
    (hdisj : ranges.Pairwise fun r r' => r.2 ≤ r'.1 ∨ r'.2 ≤ r.1)
    (hfits : ∀ r ∈ ranges, physToVirt m r.2 ≤ 2 ^ 64) (mem : ByteMem) :
    ∃ s slabs fr M, boot m cpu ranges mem = some s ∧
      KmemInv m nrKmallocAllocators s [] [] slabs fr M := by
  obtain ⟨pa, M, hpa, hpages, hM⟩ := memblockFreeAll_inv hm hcpu habove hdisj
  have hstart : KmemInv m 0 (kmemBoot pa mem) [] [] [] (fun _ => []) M := by
    refine ⟨hpages, fun x hx => ?_, Nat.zero_le _, fun i hi => absurd hi (Nat.not_lt_zero i),
      fun i hi => absurd hi (Nat.not_lt_zero i), nofun, nofun, nofun, List.Pairwise.nil⟩
    obtain ⟨r, hr, hlo, hhi⟩ := (hM x).1 hx
    have hr64 := hfits r hr
    unfold physToVirt at hr64
    rw [pageToVirt_eq]
    unfold pageToPhys pageSize at hhi
    omega
  obtain ⟨s, slabs, fr, hs, h⟩ := kmallocInit_inv hm hcpu hstart
  exact ⟨s, slabs, fr, M, by rw [boot, hpa]; exact hs, h⟩

end Functions

/-! ## Sequences of calls -/

/-- The allocators, the blocks of pages of other users, and the allocations. -/
structure Sys where
  k : Kmem
  env : List (Nat × Nat)
  live : List Alloc

/-- A call on some CPU, by the users of `kmalloc` or of whole pages, or a store to a byte. -/
inductive Call where
  | kmalloc (cpu size : Nat) (shrunk : List Nat)
  | kcalloc (cpu nmemb size : Nat) (shrunk : List Nat)
  | kfree (cpu : Nat) (a : Alloc)
  | pageAlloc (cpu order : Nat) (shrunk : List Nat)
  | pageFree (cpu pg order : Nat)
  | store (x : Nat) (v : UInt8)

/-- What a call returns and leaves behind. -/
def Call.exec (m : Machine) (σ : Sys) : Call → Option (Option Nat × Sys)
  | .kmalloc cpu size shrunk =>
    (Kmalloc.kmalloc m σ.k cpu size shrunk).map fun r =>
      (r.1, ⟨r.2.2, keptBlocks r.2.1 σ.env shrunk, addAlloc r.1 size (homeOf size) σ.live⟩)
  | .kcalloc cpu nmemb size shrunk =>
    (Kmalloc.kcalloc m σ.k cpu nmemb size shrunk).map fun r =>
      (r.1, ⟨r.2.2, keptBlocks r.2.1 σ.env shrunk,
        addAlloc r.1 (nmemb * size) (homeOf (nmemb * size)) σ.live⟩)
  | .kfree cpu a => (Kmalloc.kfree m σ.k cpu a.ptr).map fun k => (none, ⟨k, σ.env, σ.live.erase a⟩)
  | .pageAlloc cpu order shrunk =>
    (Pgalloc.pageAlloc m σ.k.pa cpu order shrunk).map fun r =>
      (r.1, ⟨{ σ.k with pa := r.2.2 }, addBlock r.1 order (keptBlocks r.2.1 σ.env shrunk), σ.live⟩)
  | .pageFree cpu pg order =>
    (Pgalloc.pageFree m σ.k.pa cpu pg order).map fun pa =>
      (none, ⟨{ σ.k with pa := pa }, σ.env.erase (pg, order), σ.live⟩)
  | .store x v =>
    some (none, ⟨{ σ.k with mem := update σ.k.mem x v }, σ.env, σ.live⟩)

/-- What the callers promise: sizes are 64-bit numbers, a pointer is freed while it is allocated,
and stores are to allocated bytes. The page cache gives back single pages of other users. -/
def Call.Legal (m : Machine) (σ : Sys) : Call → Prop
  | .kmalloc cpu size shrunk =>
    cpu < m.ncpu ∧ size ≤ sizeMax ∧ shrunk.Nodup ∧ ∀ p ∈ shrunk, (p, 0) ∈ σ.env
  | .kcalloc cpu nmemb size shrunk =>
    cpu < m.ncpu ∧ nmemb ≤ sizeMax ∧ size ≤ sizeMax ∧ shrunk.Nodup ∧
      ∀ p ∈ shrunk, (p, 0) ∈ σ.env
  | .kfree cpu a => cpu < m.ncpu ∧ a ∈ σ.live
  | .pageAlloc cpu order shrunk =>
    cpu < m.ncpu ∧ order ≤ pageOrderMax ∧ shrunk.Nodup ∧ ∀ p ∈ shrunk, (p, 0) ∈ σ.env
  | .pageFree cpu pg order => cpu < m.ncpu ∧ (pg, order) ∈ σ.env
  | .store x _ => (∃ a ∈ σ.live, a.ptr ≤ x ∧ x < a.ptr + a.size) ∨
      ∃ b ∈ σ.env, pageToVirt m b.1 ≤ x ∧ x < pageToVirt m (b.1 + 2 ^ b.2)

/-- No more than 16 MiB are asked for. -/
def Call.Fits : Call → Prop
  | .kmalloc _ size _ => size ≤ 2 ^ 24
  | .kcalloc _ nmemb size _ => nmemb * size ≤ 2 ^ 24
  | _ => True

/-- What the allocator sets aside for a request has the size asked for, and is apart from every
other allocation. -/
def Designates (p size : Nat) (live : List Alloc) : Prop :=
  size ≤ (homeOf size).extent ∧ ∀ a ∈ live, Alloc.Apart ⟨p, size, homeOf size⟩ a

/-- What a call promises for the memory that it returns or takes back. -/
def Call.Sound (m : Machine) (σ : Sys) (r : Option Nat) (σ' : Sys) : Call → Prop
  | .kmalloc _ size _ => ∀ p, r = some p → Designates p size σ.live
  | .kcalloc _ nmemb size _ => ∀ p, r = some p → nmemb * size ≤ sizeMax ∧
      Designates p (nmemb * size) σ.live ∧ ∀ j < nmemb * size, σ'.k.mem (p + j) = 0
  | .kfree cpu a => Returned m cpu σ.k σ'.k a
  | _ => True

/-- A legal call for no more than 16 MiB. -/
def Step (m : Machine) (σ σ' : Sys) : Prop :=
  ∃ c : Call, c.Legal m σ ∧ c.Fits ∧ ∃ r, c.exec m σ = some (r, σ')

/-- The state of the system satisfies the invariant. -/
def Sys.Inv (m : Machine) (σ : Sys) : Prop :=
  ∃ slabs fr M, KmemInv m nrKmallocAllocators σ.k σ.env σ.live slabs fr M

/-- A call returns; it is sound exactly when it keeps to the limit or returns no memory, and within
the limit the invariant holds again. -/
def Call.Keeps (m : Machine) (σ : Sys) (c : Call) : Prop :=
  ∃ r σ', c.exec m σ = some (r, σ') ∧ (c.Sound m σ r σ' ↔ c.Fits ∨ r = none) ∧
    (c.Fits → σ'.Inv m)

section Calls

variable {m : Machine} {σ : Sys} {shrunk : List Nat}

theorem min_extent_of_le {size : Nat} (h : size ≤ 2 ^ 24) :
    min size (homeOf size).extent = size := min_eq_left ((le_extent_homeOf_iff size).2 h)

/-- A new allocation is apart from the ones before. -/
theorem KmemInv.designates {n p size size' : Nat} {s : Kmem} {env : List (Nat × Nat)}
    {live : List Alloc} {slabs : List Nat} {fr : Nat → List Nat} {M : Domain}
    (h : KmemInv m n s env (⟨p, size', homeOf size⟩ :: live) slabs fr M) :
    Designates p size live ↔ size ≤ 2 ^ 24 := by
  rw [Designates, le_extent_homeOf_iff]
  exact ⟨And.left, fun hle => ⟨hle, (pairwise_cons.1 h.apart).1⟩⟩

section

variable (hm : m.physOffset % 2 ^ 24 = 0) (h : σ.Inv m)

include hm h

/-- `kmalloc` as a call. -/
theorem exec_kmalloc {cpu size : Nat}
    (hl : (Call.kmalloc cpu size shrunk).Legal m σ) : (Call.kmalloc cpu size shrunk).Keeps m σ := by
  obtain ⟨slabs, fr, M, h⟩ := h
  obtain ⟨hcpu, -, hnd, henv⟩ := hl
  obtain ⟨r, shrank, k, slabs', fr', hk, h'⟩ := kmalloc_inv hm hcpu hnd henv size h
  refine ⟨r, ⟨k, keptBlocks shrank σ.env shrunk, addAlloc r size (homeOf size) σ.live⟩, ?_, ?_,
    fun hle => ⟨slabs', fr', M, by rwa [min_extent_of_le hle] at h'⟩⟩
  · rw [Call.exec, hk]
    rfl
  cases r with
  | none => exact ⟨fun _ => .inr rfl, fun _ p hp => nomatch hp⟩
  | some p =>
    constructor
    · intro hsound
      exact .inl (h'.designates.1 (hsound p rfl))
    · rintro (hle | hnone) q ⟨⟩
      · exact h'.designates.2 hle
      · cases hnone

/-- `kcalloc` as a call. -/
theorem exec_kcalloc {cpu nmemb size : Nat} (hl : (Call.kcalloc cpu nmemb size shrunk).Legal m σ) :
    (Call.kcalloc cpu nmemb size shrunk).Keeps m σ := by
  obtain ⟨slabs, fr, M, h⟩ := h
  obtain ⟨hcpu, -, -, hnd, henv⟩ := hl
  by_cases hover : nmemb ≠ 0 ∧ sizeMax / nmemb < size
  · -- the product does not fit in 64 bits
    refine ⟨none, σ, ?_, ⟨fun _ => .inr rfl, fun _ p hp => nomatch hp⟩, fun _ => ⟨slabs, fr, M, h⟩⟩
    rw [Call.exec, kcalloc, if_pos hover]
    rfl
  have hprod : nmemb * size ≤ sizeMax := by
    rcases Nat.eq_zero_or_pos nmemb with rfl | hpos
    · rw [Nat.zero_mul]
      exact Nat.zero_le _
    · have hle : size ≤ sizeMax / nmemb := Nat.le_of_not_lt fun hlt => hover ⟨by omega, hlt⟩
      rw [Nat.mul_comm]
      exact (Nat.le_div_iff_mul_le hpos).1 hle
  have hu64 : u64 (nmemb * size) = nmemb * size :=
    u64_of_lt (Nat.lt_of_le_of_lt hprod (by decide))
  obtain ⟨r, shrank, k, slabs', fr', hk, h'⟩ := kmalloc_inv hm hcpu hnd henv (nmemb * size) h
  cases r with
  | none =>
    refine ⟨none, ⟨k, keptBlocks shrank σ.env shrunk, σ.live⟩, ?_,
      ⟨fun _ => .inr rfl, fun _ p hp => nomatch hp⟩, fun _ => ⟨slabs', fr', M, h'⟩⟩
    rw [Call.exec, kcalloc, if_neg hover, hu64, hk]
    rfl
  | some p =>
    refine ⟨some p, ⟨{ k with mem := ByteMem.fill k.mem p (nmemb * size) 0 },
      keptBlocks shrank σ.env shrunk,
      ⟨p, nmemb * size, homeOf (nmemb * size)⟩ :: σ.live⟩, ?_, ⟨?_, ?_⟩, fun hle => ?_⟩
    · rw [Call.exec, kcalloc, if_neg hover, hu64, hk]
      rfl
    · intro hsound
      exact .inl (h'.designates.1 (hsound p rfl).2.1)
    · rintro (hle | hnone) q ⟨⟩
      · exact ⟨hprod, h'.designates.2 hle, fun j hj =>
          ByteMem.fill_of_mem (Nat.le_add_right p j) (by omega)⟩
      · cases hnone
    · refine ⟨slabs', fr', M, ?_⟩
      rw [min_extent_of_le hle] at h'
      apply h'.writeLive mem_cons_self
      intro x hx
      have hext := (le_extent_homeOf_iff (nmemb * size)).2 hle
      dsimp only at hx
      exact ByteMem.fill_of_disjoint (by omega)

theorem Call.exec_inv (c : Call) (hc : c.Legal m σ) : c.Keeps m σ := by
  have hinv := h
  obtain ⟨slabs, fr, M, h⟩ := h
  cases c with
  | kmalloc cpu size shrunk => exact exec_kmalloc hm hinv hc
  | kcalloc cpu nmemb size shrunk => exact exec_kcalloc hm hinv hc
  | kfree cpu a =>
    obtain ⟨hcpu, ha⟩ := hc
    obtain ⟨k, fr', hk, hret, h'⟩ : ∃ k fr', Kmalloc.kfree m σ.k cpu a.ptr = some k ∧
        Returned m cpu σ.k k a ∧
        KmemInv m nrKmallocAllocators k σ.env (σ.live.erase a) slabs fr' M := by
      cases hhome : a.home with
      | slab i => exact kfree_slab_inv h ha hhome
      | block o =>
        obtain ⟨k, hk, hret, h'⟩ := kfree_block_inv h hm hcpu ha hhome
        exact ⟨k, fr, hk, hret, h'⟩
    refine ⟨none, ⟨k, σ.env, σ.live.erase a⟩, ?_, ⟨fun _ => .inr rfl, fun _ => hret⟩,
      fun _ => ⟨slabs, fr', M, h'⟩⟩
    rw [Call.exec, hk]
    rfl
  | pageAlloc cpu order shrunk =>
    obtain ⟨hcpu, -, hnd, henv⟩ := hc
    obtain ⟨r, shrank, pa, hpa, h', -⟩ := h.pageAlloc hm order hcpu hnd henv
    refine ⟨r, ⟨{ σ.k with pa := pa }, addBlock r order (keptBlocks shrank σ.env shrunk), σ.live⟩,
      ?_, ⟨fun _ => .inl trivial, fun _ => trivial⟩, fun _ => ⟨slabs, fr, M, h'⟩⟩
    rw [Call.exec, hpa]
    rfl
  | pageFree cpu pg order =>
    obtain ⟨hcpu, hmem⟩ := hc
    have hperm := h.pages.perm ((perm_cons_erase hmem).append_right _)
    have hself := h.setPages hperm fun _ _ => ⟨rfl, rfl⟩
    obtain ⟨pa, hpa, h'⟩ := hself.pageFree hm hcpu
    refine ⟨none, ⟨{ σ.k with pa := pa }, σ.env.erase (pg, order), σ.live⟩, ?_,
      ⟨fun _ => .inl trivial, fun _ => trivial⟩, fun _ => ⟨slabs, fr, M, h'⟩⟩
    rw [Call.exec, hpa]
    rfl
  | store x v =>
    refine ⟨none, _, rfl, ⟨fun _ => .inl trivial, fun _ => trivial⟩, fun _ => ⟨slabs, fr, M, ?_⟩⟩
    rcases hc with ⟨a, ha, h1, h2⟩ | ⟨b, hb, h1, h2⟩
    · apply h.writeLive ha
      intro y hy
      have hsize := h.size a ha
      exact update_of_ne (by omega) _ _
    · apply h.writeEnv hb
      intro y hy
      exact update_of_ne (by omega) _ _

theorem Step.inv {σ' : Sys} (hstep : Step m σ σ') : σ'.Inv m := by
  obtain ⟨c, hc, hfit, r, hr⟩ := hstep
  obtain ⟨r', σ1, hr', -, h'⟩ := c.exec_inv hm h hc
  cases hr.symm.trans hr'
  exact h' hfit

end

end Calls

section Boot

variable {m : Machine} {cpu : Nat} {ranges : List (Nat × Nat)} (hm : m.physOffset % 2 ^ 24 = 0)
  (hcpu : cpu < m.ncpu) (habove : ∀ r ∈ ranges, m.physOffset ≤ r.1)
  (hdisj : ranges.Pairwise fun r r' => r.2 ≤ r'.1 ∨ r'.2 ≤ r.1)
  (hfits : ∀ r ∈ ranges, physToVirt m r.2 ≤ 2 ^ 64) (mem : ByteMem)

include hm hcpu habove hdisj hfits

/-- From the boot code on, the invariant holds in every state reached by legal calls that ask for at
most 16 MiB. -/
theorem boot_run_inv : ∃ s₀, boot m cpu ranges mem = some s₀ ∧
    ∀ σ, Run (Step m) ⟨s₀, [], []⟩ σ → σ.Inv m := by
  obtain ⟨s₀, slabs, fr, M, hs0, h0⟩ := boot_inv hm hcpu habove hdisj hfits mem
  exact ⟨s₀, hs0, fun σ hrun =>
    hrun.invariant (P := Sys.Inv m) (fun _ _ hstep h => hstep.inv hm h) ⟨slabs, fr, M, h0⟩⟩

/-- From the boot code on, in every state reached by legal calls that ask for at most 16 MiB, every
legal call returns without a failing `assert`, and it is sound exactly when it asks for at most
16 MiB or returns no memory. -/
theorem kmalloc_contract :
    ∃ s₀, boot m cpu ranges mem = some s₀ ∧
      ∀ σ, Run (Step m) ⟨s₀, [], []⟩ σ → ∀ c : Call, c.Legal m σ →
        ∃ r σ', c.exec m σ = some (r, σ') ∧ (c.Sound m σ r σ' ↔ c.Fits ∨ r = none) := by
  obtain ⟨s₀, hs0, hinv⟩ := boot_run_inv hm hcpu habove hdisj hfits mem
  refine ⟨s₀, hs0, fun σ hrun c hc => ?_⟩
  obtain ⟨r, σ', hr, hsound, -⟩ := c.exec_inv hm (hinv σ hrun) hc
  exact ⟨r, σ', hr, hsound⟩

/-- From the boot code on, in every state reached by legal calls that ask for at most 16 MiB, the
free list in each slab page is a chain of `slab->free_count` different objects of the page, and no
free object has a byte of an allocation. -/
theorem slab_free_lists :
    ∃ s₀, boot m cpu ranges mem = some s₀ ∧ ∀ σ, Run (Step m) ⟨s₀, [], []⟩ σ →
      ∀ i < nrKmallocAllocators, ∀ pg ∈ (σ.k.allocators i).slabList, ∃ free,
        SlabPage m σ.k i pg free ∧ ∀ a ∈ σ.live, ∀ f ∈ free, ∀ x, a.ptr ≤ x →
          x < a.ptr + a.home.extent → x < f ∨ f + kmallocSize i ≤ x := by
  obtain ⟨s₀, hs0, hinv⟩ := boot_run_inv hm hcpu habove hdisj hfits mem
  refine ⟨s₀, hs0, fun σ hrun i hi pg hpg => ?_⟩
  obtain ⟨slabs, fr, M, h⟩ := hinv σ hrun
  refine ⟨fr pg, (h.slab i hi pg hpg).2, fun a ha f hf x h1 h2 => ?_⟩
  exact h.live_not_free hi hpg ha h1 h2 hf

end Boot

/-- One CPU and a memory of one block of the largest order and ten single pages. -/
def smallMachine : Machine := ⟨0x80000000, 1⟩

/-- The page right behind the block is the first that is handed over, so the last cache gets it. -/
def smallRanges : List (Nat × Nat) :=
  (0x80000000, 0x81001000) ::
    (List.range 9).map fun k => (0x81002000 + 0x2000 * k, 0x81003000 + 0x2000 * k)

theorem kmalloc_contract_small : ∃ s₀, boot smallMachine 0 smallRanges (fun _ => 0) = some s₀ ∧
      ∀ σ, Run (Step smallMachine) ⟨s₀, [], []⟩ σ → ∀ c : Call, c.Legal smallMachine σ →
        ∃ r σ', c.exec smallMachine σ = some (r, σ') ∧
          (c.Sound smallMachine σ r σ' ↔ c.Fits ∨ r = none) :=
  kmalloc_contract (by decide) (by decide) (by decide) (by decide) (by decide) _

theorem slab_free_lists_small : ∃ s₀, boot smallMachine 0 smallRanges (fun _ => 0) = some s₀ ∧
    ∀ i < nrKmallocAllocators, ∀ pg ∈ (s₀.allocators i).slabList,
      ∃ free, SlabPage smallMachine s₀ i pg free := by
  obtain ⟨s₀, hs0, h⟩ := @slab_free_lists smallMachine 0 smallRanges (by decide) (by decide)
    (by decide) (by decide) (by decide) fun _ => 0
  refine ⟨s₀, hs0, fun i hi pg hpg => ?_⟩
  obtain ⟨free, hslab, -⟩ := h _ .refl i hi pg hpg
  exact ⟨free, hslab⟩

/-- The addresses that two requests return after boot. -/
def twoRequests (size size' : Nat) : Option (Option Nat × Option Nat) :=
  (boot smallMachine 0 smallRanges fun _ => 0).bind fun s =>
    ((Call.kmalloc 0 size []).exec smallMachine ⟨s, [], []⟩).bind fun r =>
      ((Call.kmalloc 0 size' []).exec smallMachine r.2).map fun r' => (r.1, r'.1)

theorem twoRequests_large :
    twoRequests (2 ^ 24 + 1) 4096 = some (some pageOffset, some (pageOffset + 2 ^ 24)) := by
  decide +kernel

/-- A request of 16 MiB and one byte returns a block of 16 MiB, and the next request of a page
returns the last byte that was asked for. -/
theorem kmalloc_large_overlaps :
    ∃ s₀ σ₁ σ₂ p, boot smallMachine 0 smallRanges (fun _ => 0) = some s₀ ∧
      (Call.kmalloc 0 (2 ^ 24 + 1) []).exec smallMachine ⟨s₀, [], []⟩ = some (some p, σ₁) ∧
      (Call.kmalloc 0 4096 []).exec smallMachine σ₁ = some (some (p + 2 ^ 24), σ₂) ∧
      ⟨p, 2 ^ 24 + 1, homeOf (2 ^ 24 + 1)⟩ ∈ σ₂.live ∧
      ⟨p + 2 ^ 24, 4096, homeOf 4096⟩ ∈ σ₂.live := by
  obtain ⟨s₀, hs0, h⟩ := bind_eq_some_iff.1 twoRequests_large
  obtain ⟨⟨r, σ₁⟩, h1, h⟩ := bind_eq_some_iff.1 h
  obtain ⟨⟨r', σ₂⟩, h2, h⟩ := map_eq_some_iff.1 h
  cases h
  refine ⟨s₀, σ₁, σ₂, pageOffset, hs0, h1, h2, ?_, ?_⟩
  · obtain ⟨k1, -, e1⟩ := map_eq_some_iff.1 h1
    obtain ⟨k2, -, e2⟩ := map_eq_some_iff.1 h2
    rw [← (Prod.mk.inj e2).2, (Prod.mk.inj e2).1, ← (Prod.mk.inj e1).2, (Prod.mk.inj e1).1]
    exact mem_cons_of_mem _ mem_cons_self
  · obtain ⟨k2, -, e2⟩ := map_eq_some_iff.1 h2
    rw [← (Prod.mk.inj e2).2, (Prod.mk.inj e2).1]
    exact mem_cons_self

end BrkKernel.Kmalloc
