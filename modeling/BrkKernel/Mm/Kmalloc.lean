import BrkKernel.Mm.Pgalloc

/-!
# The slab caches and `kmalloc`

`mm/slab.c` and `mm/kmalloc.c` over the page allocator: the ten size classes, the free objects of a
slab page threaded through the objects themselves, the blocks of whole pages that serve the larger
requests and their marks, and `kfree`, which finds the owner of a pointer through the flags of its
page. Memory is a byte memory over kernel virtual addresses. A failed `assert` or a `panic` is no
result.
-/

set_option autoImplicit false

namespace BrkKernel.Kmalloc

open Lib Pgalloc Function

/-! ## Addresses -/

/-- `PAGE_OFFSET`. -/
def pageOffset : Nat := 0xffffffc000000000

/-- `phys_to_virt`. -/
def physToVirt (m : Machine) (paddr : Nat) : Nat := paddr - m.physOffset + pageOffset

/-- `virt_to_phys`. -/
def virtToPhys (m : Machine) (vaddr : Nat) : Nat := vaddr - pageOffset + m.physOffset

/-- `page_to_virt`. -/
def pageToVirt (m : Machine) (pg : Nat) : Nat := physToVirt m (pageToPhys m pg)

/-- `virt_to_page`. -/
def virtToPage (m : Machine) (vaddr : Nat) : Nat := (virtToPhys m vaddr - m.physOffset) / pageSize

/-- `is_aligned`, for a power of two. -/
def isAligned (x align : Nat) : Bool := x % align == 0

/-- `is_power_of_two`. -/
def isPowerOfTwo (x : Nat) : Bool := x != 0 && x &&& (x - 1) == 0

/-- `round_up_to_pow_of_two`. -/
def roundUpToPowOfTwo (x : Nat) : Nat :=
  if x = 0 then 1
  else if x &&& (x - 1) = 0 then x
  else u64 ([1, 2, 4, 8, 16, 32].foldl (fun v shift => v ||| v >>> shift) (x - 1) + 1)

/-! ## Slab caches -/

/-- `struct slab_allocator`. -/
structure SlabAllocator where
  size : Nat
  align : Nat
  pageOrder : Nat
  slabList : List Nat

/-- The page allocator, memory, the slab fields of `struct page` and the caches. -/
structure Kmem where
  pa : PageAlloc
  mem : ByteMem
  slabCache : Nat → Nat
  slabFreeObjs : Nat → Nat
  slabObjsCount : Nat → Nat
  slabFreeCount : Nat → Nat
  /-- `kmalloc_allocators`. -/
  allocators : Nat → SlabAllocator

/-- A change of the flags of all pages of a block. -/
def changeFlags (flags : Nat → PageFlags) (head order : Nat) (f : PageFlags → PageFlags) :
    Nat → PageFlags :=
  fun p => if head ≤ p ∧ p < head + 2 ^ order then f (flags p) else flags p

/-- `slab_mark_page_range`. -/
def slabMarkPageRange (s : Kmem) (head order i : Nat) : Kmem :=
  { s with
    pa :=
      { s.pa with
        flags := changeFlags s.pa.flags head order fun f => { f with slab := true } }
    slabCache := fun p => if head ≤ p ∧ p < head + 2 ^ order then i else s.slabCache p }

/-- `slab_unmark_page_range`. -/
def slabUnmarkPageRange (s : Kmem) (head order : Nat) : Kmem :=
  { s with
    pa :=
      { s.pa with
        flags := changeFlags s.pa.flags head order fun f => { f with slab := false } } }

/-- The loop of `slab_add_page` that links the objects from `addr` on. -/
def linkObjs (size stop : Nat) : Nat → ByteMem → Nat → ByteMem
  | 0, mem, _ => mem
  | fuel + 1, mem, addr =>
    if addr + size < stop then
      linkObjs size stop fuel (ByteMem.store 8 mem addr (addr + size)) (addr + size)
    else ByteMem.store 8 mem addr 0

/-- The address of the first object of a slab page. -/
def firstObj (m : Machine) (align pg : Nat) : Nat :=
  if isAligned (pageToVirt m pg) align then pageToVirt m pg
  else roundUp (pageToVirt m pg) align

/-- The end of a slab page. -/
def slabEnd (m : Machine) (order pg : Nat) : Nat := pageToVirt m pg + 2 ^ (pageShift + order)

/-- The number of objects of a slab page. -/
def objsCount (m : Machine) (a : SlabAllocator) (pg : Nat) : Nat :=
  (slabEnd m a.pageOrder pg - firstObj m a.align pg) / a.size

/-- `slab_add_page` once it has the page `pg`, for a cache of which at least one object fits. -/
def slabFill (m : Machine) (s : Kmem) (i pg : Nat) : Kmem :=
  { slabMarkPageRange s pg (s.allocators i).pageOrder i with
    mem := linkObjs (s.allocators i).size (slabEnd m (s.allocators i).pageOrder pg)
      (objsCount m (s.allocators i) pg + 1) s.mem (firstObj m (s.allocators i).align pg)
    slabFreeObjs := update s.slabFreeObjs pg (firstObj m (s.allocators i).align pg)
    slabObjsCount := update s.slabObjsCount pg (objsCount m (s.allocators i) pg)
    slabFreeCount := update s.slabFreeCount pg (objsCount m (s.allocators i) pg)
    allocators := update s.allocators i
      { s.allocators i with slabList := pg :: (s.allocators i).slabList } }

/-- `slab_add_page`: whether it has added a page, and whether `page_cache_shrink` ran. -/
def slabAddPage (m : Machine) (s : Kmem) (cpu i : Nat) (shrunk : List Nat) :
    Option (Bool × Bool × Kmem) :=
  match pageAlloc m s.pa cpu (s.allocators i).pageOrder shrunk with
  | none => none
  | some (none, shrank, pa) => some (false, shrank, { s with pa := pa })
  | some (some pg, shrank, pa) =>
    if objsCount m (s.allocators i) pg = 0 then
      (pageFree m
        (slabUnmarkPageRange
          (slabMarkPageRange { s with pa := pa } pg (s.allocators i).pageOrder i) pg
          (s.allocators i).pageOrder).pa cpu pg (s.allocators i).pageOrder).map
        fun pa => (false, shrank,
          { slabMarkPageRange s pg (s.allocators i).pageOrder i with
            pa := pa
            slabFreeObjs :=
              update s.slabFreeObjs pg (firstObj m (s.allocators i).align pg)
            slabObjsCount := update s.slabObjsCount pg 0
            slabFreeCount := update s.slabFreeCount pg 0 })
    else some (true, shrank, slabFill m { s with pa := pa } i pg)

/-- What `slab_init` makes of the alignment. -/
def slabAlign (align : Nat) : Nat :=
  if isPowerOfTwo (max align 8) then max align 8 else roundUpToPowOfTwo (max align 8)

/-- What `slab_init` makes of the size. -/
def slabSize (size align : Nat) : Nat :=
  if isAligned (max size 8) (slabAlign align) then max size 8
  else roundUp (max size 8) (slabAlign align)

/-- `slab_init`, with the error that it returns. -/
def slabInit (m : Machine) (s : Kmem) (cpu i size align : Nat) : Option (Option Errno × Kmem) :=
  if size = 0 ∨ align = 0 then some (some .einval, s)
  else
    (slabAddPage m
      { s with
        allocators := update s.allocators i
          ⟨slabSize size align, slabAlign align, pageOrder (slabSize size align), []⟩ }
      cpu i []).map
      fun r => (if r.1 then none else some .enomem, r.2.2)

/-- The scan of `slab_alloc` for a page with a free object. -/
def slabTake (s : Kmem) (i : Nat) : Option (Nat × Kmem) :=
  ((s.allocators i).slabList.find? fun pg => 0 < s.slabFreeCount pg).map fun pg =>
    (s.slabFreeObjs pg,
      { s with
        slabFreeObjs :=
          update s.slabFreeObjs pg (ByteMem.load 8 s.mem (s.slabFreeObjs pg))
        slabFreeCount := update s.slabFreeCount pg (s.slabFreeCount pg - 1) })

/-- `slab_alloc`. The second attempt adds no page. -/
def slabAlloc (m : Machine) (s : Kmem) (cpu i : Nat) (shrunk : List Nat) :
    Option (Option Nat × Bool × Kmem) :=
  match slabTake s i with
  | some (obj, s') => some (some obj, false, s')
  | none =>
    match slabAddPage m s cpu i shrunk with
    | none => none
    | some (false, shrank, s') => some (none, shrank, s')
    | some (true, shrank, s') =>
      match slabTake s' i with
      | some (obj, s'') => some (some obj, shrank, s'')
      | none => some (none, shrank, s')

/-- Whether an object lies in the slab page `curr`. -/
def inSlab (m : Machine) (s : Kmem) (obj curr : Nat) : Bool :=
  decide (pageToVirt m curr ≤ obj ∧
    obj < pageToVirt m curr + pageSize * 2 ^ (s.allocators (s.slabCache curr)).pageOrder)

/-- `slab_free`. -/
def slabFree (m : Machine) (s : Kmem) (i obj : Nat) : Option Kmem :=
  if obj = 0 then some s
  else if isAligned obj (s.allocators i).align then
    ((s.allocators i).slabList.find? (inSlab m s obj)).map fun curr =>
      { s with
        mem := ByteMem.store 8 s.mem obj (s.slabFreeObjs curr)
        slabFreeObjs := update s.slabFreeObjs curr obj
        slabFreeCount := update s.slabFreeCount curr (s.slabFreeCount curr + 1) }
  else none

/-! ## `kmalloc` -/

/-- `NR_KMALLOC_ALLOCATORS`. -/
def nrKmallocAllocators : Nat := 10

/-- `kmalloc_block_head`. -/
def kmallocBlockHead (pg order : Nat) : Nat := pg / 2 ^ order * 2 ^ order

/-- `kmalloc_mark_block`. -/
def kmallocMarkBlock (pa : PageAlloc) (head order : Nat) : PageAlloc :=
  { pa with
    flags := changeFlags pa.flags head order fun f => { f with kmalloc := true }
    order := fun p => if head ≤ p ∧ p < head + 2 ^ order then order else pa.order p }

/-- `kmalloc_unmark_block`. -/
def kmallocUnmarkBlock (pa : PageAlloc) (head order : Nat) : PageAlloc :=
  { pa with flags := changeFlags pa.flags head order fun f => { f with kmalloc := false } }

/-- `kmalloc_allocator_index`; `-1` is `none`. -/
def kmallocAllocatorIndex (size : Nat) : Option Nat :=
  if size ≤ 8 then some 0
  else if size ≤ 16 then some 1
  else if size ≤ 32 then some 2
  else if size ≤ 64 then some 3
  else if size ≤ 128 then some 4
  else if size ≤ 256 then some 5
  else if size ≤ 512 then some 6
  else if size ≤ 1024 then some 7
  else if size ≤ 2048 then some 8
  else if size ≤ 4096 then some 9
  else none

/-- The sizes of `kmalloc_init`. -/
def kmallocSizes : List Nat := [8, 16, 32, 64, 128, 256, 512, 1024, 2048, 4096]

/-- `alignof(max_align_t)`. -/
def maxAlign : Nat := 16

/-- `kmalloc_init`, which does not look at what `slab_init` returns. -/
def kmallocInit (m : Machine) (s : Kmem) (cpu : Nat) : Option Kmem :=
  (List.range nrKmallocAllocators).foldlM
    (fun s i => (slabInit m s cpu i (kmallocSizes.getD i 0) maxAlign).map Prod.snd) s

/-- `kmalloc`: the pointer, and whether `page_cache_shrink` ran. -/
def kmalloc (m : Machine) (s : Kmem) (cpu size : Nat) (shrunk : List Nat) :
    Option (Option Nat × Bool × Kmem) :=
  if size = 0 then some (none, false, s)
  else
    match kmallocAllocatorIndex size with
    | some i => slabAlloc m s cpu i shrunk
    | none =>
      match pageAlloc m s.pa cpu (pageOrder size) shrunk with
      | none => none
      | some (none, shrank, pa) => some (none, shrank, { s with pa := pa })
      | some (some pg, shrank, pa) =>
        some (some (pageToVirt m pg), shrank,
          { s with
            pa := if 0 < pageOrder size then kmallocMarkBlock pa pg (pageOrder size) else pa })

/-- `SIZE_MAX`. -/
def sizeMax : Nat := 2 ^ 64 - 1

/-- `kcalloc`. -/
def kcalloc (m : Machine) (s : Kmem) (cpu nmemb size : Nat) (shrunk : List Nat) :
    Option (Option Nat × Bool × Kmem) :=
  if nmemb ≠ 0 ∧ sizeMax / nmemb < size then some (none, false, s)
  else
    match kmalloc m s cpu (u64 (nmemb * size)) shrunk with
    | none => none
    | some (none, shrank, s') => some (none, shrank, s')
    | some (some ptr, shrank, s') =>
      some (some ptr, shrank,
        { s' with mem := ByteMem.fill s'.mem ptr (u64 (nmemb * size)) 0 })

/-- The branch of `kfree` for the blocks that `kmalloc` has marked. -/
def kfreeBlock (m : Machine) (s : Kmem) (cpu head : Nat) : Option Kmem :=
  if (s.pa.flags head).head then
    (pageFree m (kmallocUnmarkBlock s.pa head (s.pa.order head)) cpu head (s.pa.order head)).map
      fun pa => { s with pa := pa }
  else none

/-- `kfree`. -/
def kfree (m : Machine) (s : Kmem) (cpu ptr : Nat) : Option Kmem :=
  if ptr = 0 then some s
  else if (s.pa.flags (virtToPage m ptr)).slab then
    slabFree m s (s.slabCache (virtToPage m ptr)) ptr
  else if (s.pa.flags (virtToPage m ptr)).kmalloc then
    kfreeBlock m s cpu (kmallocBlockHead (virtToPage m ptr) (s.pa.order (virtToPage m ptr)))
  else
    (pageFree m s.pa cpu (virtToPage m ptr) (s.pa.order (virtToPage m ptr))).map
      fun pa => { s with pa := pa }

/-- The state before `kmalloc_init`. -/
def kmemBoot (pa : PageAlloc) (mem : ByteMem) : Kmem :=
  ⟨pa, mem, fun _ => 0, fun _ => 0, fun _ => 0, fun _ => 0, fun _ => ⟨0, 0, 0, []⟩⟩

end BrkKernel.Kmalloc
