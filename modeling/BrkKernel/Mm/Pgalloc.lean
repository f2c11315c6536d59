import BrkKernel.Kern.Base
import BrkKernel.Lib.Buddy

/-!
# The page allocator

`mm/pgalloc.c`: the buddy free lists with splitting and coalescing, the per-CPU caches of single
pages, `page_alloc` with its second attempt after draining the caches, and `page_free`; and
`memblock_free_range` of `mm/memblock.c`, which hands the boot memory over. A page is named by its
page frame number. A failed `assert` is no result.
-/

set_option autoImplicit false

namespace BrkKernel.Pgalloc

open Lib Function

/-- `PAGE_ORDER_MAX`. -/
def pageOrderMax : Nat := 12

/-- `PCP_MAX_ORDER0`. -/
def pcpMaxOrder0 : Nat := 64

/-- The bits `PAGE_FLAGS_*` of `page->flags`. -/
structure PageFlags where
  buddy : Bool
  head : Bool
  slab : Bool
  free : Bool
  kmalloc : Bool
  pcp : Bool
deriving DecidableEq, Repr

/-- `page->flags = 0`. -/
def PageFlags.zero : PageFlags := ⟨false, false, false, false, false, false⟩

/-- `PAGE_FLAGS_NEW_PAGE`. -/
def PageFlags.newPage : PageFlags := { PageFlags.zero with buddy := true, head := true }

/-- `PAGE_FLAGS_NEW_FREE_PAGE`. -/
def PageFlags.newFreePage : PageFlags := { PageFlags.newPage with free := true }

/-- Where physical memory starts, and the number of CPUs. -/
structure Machine where
  physOffset : Nat
  ncpu : Nat

/-- The state of the allocator. -/
structure PageAlloc where
  flags : Nat → PageFlags
  /-- `page->buddy_page_order`. -/
  order : Nat → Nat
  refcnt : Nat → Nat
  /-- `areas[order].free_list`. -/
  area : Nat → List Nat
  /-- `pcps[cpu].pages`. -/
  pcp : Nat → List Nat
  /-- `pcps[cpu].count`. -/
  count : Nat → Nat

/-- `page_to_phys`. -/
def pageToPhys (m : Machine) (pg : Nat) : Nat := pg * pageSize + m.physOffset

/-- `find_buddy_pfn`. -/
def findBuddyPfn (pg order : Nat) : Nat := buddy pg order

/-- `page_is_buddy`. -/
def pageIsBuddy (s : PageAlloc) (pg order : Nat) : Bool :=
  (s.flags pg).buddy && (s.flags pg).head && (s.flags pg).free && !(s.flags pg).pcp &&
    s.order pg == order

def PageAlloc.setFlags (s : PageAlloc) (pg : Nat) (f : PageFlags) : PageAlloc :=
  { s with flags := update s.flags pg f }

/-- `list_del(&pg->buddy_lru)` for a page on a free list. -/
def PageAlloc.listDel (s : PageAlloc) (pg : Nat) : PageAlloc :=
  { s with area := fun o => (s.area o).erase pg }

/-- Make `pg` the head of a free block of the given order and link it first. -/
def PageAlloc.link (s : PageAlloc) (pg order : Nat) : PageAlloc :=
  { s with
    flags := update s.flags pg .newFreePage
    order := update s.order pg order
    area := update s.area order (pg :: s.area order) }

/-! ## Freeing -/

/-- The loop of `__page_free_to_buddy`: join the block with its buddy while that is free. -/
def mergeLoop : Nat → PageAlloc → Nat → Nat → PageAlloc × Nat × Nat
  | 0, s, pg, order => (s, pg, order)
  | fuel + 1, s, pg, order =>
    if pageIsBuddy s (findBuddyPfn pg order) order then
      mergeLoop fuel
        ((s.listDel (findBuddyPfn pg order)).setFlags (findBuddyPfn pg order) .zero)
        (min pg (findBuddyPfn pg order)) (order + 1)
    else (s, pg, order)

/-- `__page_free_to_buddy`. -/
def pageFreeToBuddy (m : Machine) (s : PageAlloc) (pg order : Nat) : Option PageAlloc :=
  if (s.flags pg).buddy ∧ ¬ (s.flags pg).free ∧ ¬ (s.flags pg).pcp ∧ (s.flags pg).head ∧
      pageToPhys m pg % 2 ^ (pageShift + order) = 0 then
    (fun r : PageAlloc × Nat × Nat => some (r.1.link r.2.1 r.2.2))
      (mergeLoop (pageOrderMax - order) (s.setFlags pg .zero) pg order)
  else none

/-- `pcp_free`: whether the page went into the cache of the CPU. -/
def pcpFree (s : PageAlloc) (cpu pg : Nat) : Option PageAlloc :=
  if s.count cpu < pcpMaxOrder0 then
    some
      { s with
        flags := update s.flags pg { PageFlags.newFreePage with pcp := true }
        order := update s.order pg 0
        pcp := update s.pcp cpu (pg :: s.pcp cpu)
        count := update s.count cpu (s.count cpu + 1) }
  else none

/-- `page_free`. -/
def pageFree (m : Machine) (s : PageAlloc) (cpu pg order : Nat) : Option PageAlloc :=
  if (s.flags pg).buddy ∧ ¬ (s.flags pg).free ∧ (s.flags pg).head ∧
      pageToPhys m pg % 2 ^ (pageShift + order) = 0 then
    if order = 0 then
      match pcpFree s cpu pg with
      | some s' => some s'
      | none => pageFreeToBuddy m s pg order
    else pageFreeToBuddy m s pg order
  else none

/-! ## Allocating -/

/-- `pcp_alloc`. -/
def pcpAlloc (s : PageAlloc) (cpu : Nat) : Option (Option Nat × PageAlloc) :=
  match s.pcp cpu with
  | [] => some (none, s)
  | pg :: rest =>
    if (s.flags pg).pcp then
      some (some pg,
        { s with
          flags := update s.flags pg { s.flags pg with free := false, pcp := false }
          order := update s.order pg 0
          pcp := update s.pcp cpu rest
          count := update s.count cpu (s.count cpu - 1) })
    else none

/-- One turn of the loop of `pcp_drain_all`, until the cache of the CPU is empty. -/
def drainCpu (m : Machine) (cpu : Nat) : Nat → PageAlloc → Option PageAlloc
  | 0, s => some s
  | fuel + 1, s =>
    match s.pcp cpu with
    | [] => some s
    | pg :: rest =>
      if (s.flags pg).pcp then
        (pageFreeToBuddy m
          { s with
            flags := update s.flags pg .newPage
            order := update s.order pg 0
            pcp := update s.pcp cpu rest
            count := update s.count cpu (s.count cpu - 1) } pg 0).bind
          (drainCpu m cpu fuel)
      else none

/-- `pcp_drain_all`. -/
def pcpDrainAll (m : Machine) (s : PageAlloc) : Option PageAlloc :=
  (List.range m.ncpu).foldlM (fun s cpu => drainCpu m cpu (s.pcp cpu).length s) s

/-- The scan of `page_alloc` for the first order with a free block. -/
def findArea (s : PageAlloc) : Nat → Nat → Option (Nat × Nat)
  | 0, _ => none
  | fuel + 1, order =>
    match (s.area order).getLast? with
    | some pg => some (order, pg)
    | none => findArea s fuel (order + 1)

/-- The loop of `page_alloc` that splits the block until its order is the one asked for. -/
def splitLoop (order : Nat) : Nat → PageAlloc → Nat → PageAlloc
  | 0, s, _ => s
  | fuel + 1, s, curr =>
    if order < s.order curr then
      splitLoop order fuel
        (PageAlloc.link { s with order := update s.order curr (s.order curr - 1) }
          (curr + 2 ^ s.order curr / 2) (s.order curr - 1)) curr
    else s

/-- The block `curr` of order `o`, taken off its list, split, and handed out. -/
def takeBlock (s : PageAlloc) (o curr order : Nat) : PageAlloc :=
  (fun s' : PageAlloc =>
    { s' with
      flags := update s'.flags curr { s'.flags curr with free := false }
      refcnt := update s'.refcnt curr 1 })
    (splitLoop order (o - order) (s.listDel curr) curr)

/-- The part of `page_alloc` that looks at the free lists. -/
def buddyAlloc (s : PageAlloc) (order : Nat) : Option Nat × PageAlloc :=
  match findArea s (pageOrderMax + 1 - order) order with
  | some (o, curr) => (some curr, takeBlock s o curr order)
  | none => (none, s)

/-- `page_alloc` from the label `again` to the point where nothing was found. -/
def allocAttempt (s : PageAlloc) (cpu order : Nat) : Option (Option Nat × PageAlloc) :=
  if order = 0 then
    match pcpAlloc s cpu with
    | none => none
    | some (some pg, s') => some (some pg, { s' with refcnt := update s'.refcnt pg 1 })
    | some (none, s') => some (buddyAlloc s' order)
  else some (buddyAlloc s order)

/-- `page_cache_shrink` as far as the allocator sees it: it frees the pages of a list. -/
def freePages (m : Machine) (s : PageAlloc) (cpu : Nat) (pages : List Nat) : Option PageAlloc :=
  pages.foldlM (fun s pg => pageFree m s cpu pg 0) s

/-- `page_alloc`. `shrunk` are the pages that `page_cache_shrink` frees when it is called; the
second component of the result says whether it was. -/
def pageAlloc (m : Machine) (s : PageAlloc) (cpu order : Nat) (shrunk : List Nat) :
    Option (Option Nat × Bool × PageAlloc) :=
  match allocAttempt s cpu order with
  | none => none
  | some (some pg, s') => some (some pg, false, s')
  | some (none, s') =>
    ((pcpDrainAll m s').bind fun s => freePages m s cpu shrunk).bind fun s =>
      (allocAttempt s cpu order).map fun r => (r.1, true, r.2)

/-! ## The boot memory -/

/-- `page_order`. -/
def pageOrder (size : Nat) : Nat :=
  ((List.range pageOrderMax).find? fun order => size ≤ pageSize * 2 ^ order).getD pageOrderMax

/-- The loop of `memblock_free_range` that picks the largest aligned chunk that fits. -/
def fitOrder (start stop : Nat) : Nat → Nat
  | 0 => 0
  | order + 1 =>
    if start % 2 ^ (pageShift + (order + 1)) = 0 ∧ 2 ^ (pageShift + (order + 1)) ≤ stop - start then
      order + 1
    else fitOrder start stop order

/-- The loop of `memblock_free_range`. -/
def freeRangeLoop (m : Machine) (cpu stop : Nat) : Nat → Nat → PageAlloc → Option PageAlloc
  | 0, _, s => some s
  | fuel + 1, start, s =>
    if start < stop then
      (pageFree m (s.setFlags ((start - m.physOffset) / pageSize) .newPage) cpu
          ((start - m.physOffset) / pageSize)
          (fitOrder start stop (pageOrder (stop - start)))).bind
        (freeRangeLoop m cpu stop fuel
          (start + 2 ^ fitOrder start stop (pageOrder (stop - start)) * pageSize))
    else some s

/-- `memblock_free_range`. -/
def memblockFreeRange (m : Machine) (cpu : Nat) (s : PageAlloc) (r : Nat × Nat) :
    Option PageAlloc :=
  freeRangeLoop m cpu (r.2 / pageSize * pageSize) (r.2 / pageSize) (roundUp r.1 pageSize) s

/-- The state after `page_alloc_init`, with a cleared `vmemmap`. -/
def pageAllocInit : PageAlloc :=
  ⟨fun _ => .zero, fun _ => 0, fun _ => 0, fun _ => [], fun _ => [], fun _ => 0⟩

/-- `memblock_free_all` over the snapshot of the free ranges. -/
def memblockFreeAll (m : Machine) (cpu : Nat) (ranges : List (Nat × Nat)) : Option PageAlloc :=
  ranges.foldlM (memblockFreeRange m cpu) pageAllocInit

end BrkKernel.Pgalloc
