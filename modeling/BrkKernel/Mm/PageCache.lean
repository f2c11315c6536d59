import BrkKernel.Lib.ByteFile
import BrkKernel.Lib.WriteBack
import BrkKernel.Kern.Base

/-!
# The page cache

`mm/pagecache.c`, generic over the host of a mapping and its `read_page` and `write_page`
operations. `HostSpec` says what the host has to provide. The cached pages are then a write-back
cache in front of the host's bytes: `generic_file_read` returns the bytes of the view up to the size
of the inode (`genericFileRead_spec`), `generic_file_write` overwrites the view and extends the size
(`genericFileWrite_spec`), a flush moves the view to the host (`pageCacheFlush_spec`) and
`truncate_inode_pages` drops the pages past the new end (`truncateInodePages_spec`).
-/

set_option autoImplicit false

namespace BrkKernel.Mm

open Lib Lib.ByteMem

/-! ## Cached pages -/

/-- `struct cached_page`: the first `PAGE_SIZE` bytes of `data`, `PCP_UPTODATE` and `PCP_DIRTY`. -/
structure CachedPage where
  data : ByteMem
  uptodate : Bool
  dirty : Bool

/-- `struct page_cache`: the cached pages by index and the list of dirty pages. -/
structure PageCache (σ : Type) where
  host : σ
  pages : Nat → Option CachedPage
  dirtyPages : List Nat

/-- `struct page_cache_ops`, with the allocator the page cache draws on. An operation on a page gets
its index and its bytes and returns them as it leaves them. -/
structure PageCacheOps (σ : Type) where
  alloc : σ → Bool × σ
  readPage : σ → Nat → ByteMem → Except Errno Unit × ByteMem × σ
  writePage : σ → Nat → ByteMem → Except Errno Unit × ByteMem × σ

/-- What `generic_file_read` and `generic_file_write` use of the inode that hosts the mapping. -/
structure InodeOps (σ : Type) extends PageCacheOps σ where
  isize : σ → Nat
  setIsize : σ → Nat → σ
  touchMtime : σ → Int → σ

section Model

variable {σ : Type}

/-- `page_cache_create`. -/
def pageCacheCreate (host : σ) : PageCache σ := ⟨host, fun _ => none, []⟩

/-- The page at `index` after its bytes or flags changed. -/
def PageCache.setPage (m : PageCache σ) (index : Nat) (cp : CachedPage) : PageCache σ :=
  { m with pages := Function.update m.pages index (some cp) }

/-- A page as `cached_page_alloc` returns it. -/
def freshPage : CachedPage := ⟨fun _ => 0, false, false⟩

/-- `cached_page_alloc`: a descriptor and a zeroed page. -/
def cachedPageAlloc (ops : PageCacheOps σ) (h : σ) : Option CachedPage × σ :=
  match ops.alloc h with
  | (false, h1) => (none, h1)
  | (true, h1) =>
    match ops.alloc h1 with
    | (false, h2) => (none, h2)
    | (true, h2) => (some freshPage, h2)

/-- `find_or_create_page`. -/
def findOrCreatePage (ops : PageCacheOps σ) (m : PageCache σ) (index : Nat) :
    Option CachedPage × PageCache σ :=
  match m.pages index with
  | some cp => (some cp, m)
  | none =>
    match cachedPageAlloc ops m.host with
    | (none, h) => (none, { m with host := h })
    | (some cp, h) => (some cp, PageCache.setPage { m with host := h } index cp)

/-- `cached_page_mark_dirty`. -/
def cachedPageMarkDirty (m : PageCache σ) (index : Nat) : PageCache σ :=
  match m.pages index with
  | none => m
  | some cp =>
    if cp.dirty then m
    else { m.setPage index { cp with dirty := true } with dirtyPages := m.dirtyPages ++ [index] }

/-- `read_mapping_page`. A page that could not be read stays cached and is read again later. -/
def readMappingPage (ops : PageCacheOps σ) (m : PageCache σ) (index : Nat) :
    Except Errno CachedPage × PageCache σ :=
  match findOrCreatePage ops m index with
  | (none, m1) => (.error .enomem, m1)
  | (some cp, m1) =>
    if cp.uptodate then (.ok cp, m1)
    else
      match ops.readPage m1.host index cp.data with
      | (.error e, data, h) =>
        (.error e, PageCache.setPage { m1 with host := h } index { cp with data := data })
      | (.ok (), data, h) =>
        (.ok { cp with data := data, uptodate := true },
          PageCache.setPage { m1 with host := h } index
            { cp with data := data, uptodate := true })

/-- `writeback_one`, for a page that was taken off the dirty list. -/
def writebackOne (ops : PageCacheOps σ) (m : PageCache σ) (index : Nat) :
    Except Errno Unit × PageCache σ :=
  match m.pages index with
  | none => (.ok (), m)
  | some cp =>
    let m1 := m.setPage index { cp with dirty := false }
    if cp.uptodate then
      match ops.writePage m1.host index cp.data with
      | (.ok (), data, h) =>
        (.ok (), PageCache.setPage { m1 with host := h } index
          { cp with data := data, dirty := false })
      | (.error e, data, h) =>
        (.error e, cachedPageMarkDirty (PageCache.setPage { m1 with host := h } index
          { cp with data := data, dirty := false }) index)
    else (.ok (), m1)

/-- The write-back loop of `page_cache_flush_range`, with `first_err` so far. -/
def flushBatch (ops : PageCacheOps σ) :
    List Nat → PageCache σ → Except Errno Unit → Except Errno Unit × PageCache σ
  | [], m, firstErr => (firstErr, m)
  | index :: batch, m, firstErr =>
    match writebackOne ops m index, firstErr with
    | (err, m1), .ok () => flushBatch ops batch m1 err
    | (_, m1), .error e => flushBatch ops batch m1 (.error e)

/-- The pages from byte `start` to byte `stop`; a negative `stop` means the end of the mapping. -/
def inFlushRange (start stop : Int) (index : Nat) : Bool :=
  start.toNat / pageSize ≤ index && (stop < 0 || index ≤ stop.toNat / pageSize)

/-- `page_cache_flush_range`. -/
def pageCacheFlushRange (ops : PageCacheOps σ) (m : PageCache σ) (start stop : Int) :
    Except Errno Unit × PageCache σ :=
  flushBatch ops (m.dirtyPages.filter (inFlushRange start stop))
    { m with dirtyPages := m.dirtyPages.filter fun i => !inFlushRange start stop i } (.ok ())

/-- `page_cache_flush`. -/
def pageCacheFlush (ops : PageCacheOps σ) (m : PageCache σ) : Except Errno Unit × PageCache σ :=
  pageCacheFlushRange ops m 0 (-1)

/-- The mapping after the pages from `first` on were detached. -/
def PageCache.detachFrom (m : PageCache σ) (first : Nat) : PageCache σ :=
  { m with
    pages := fun i => if i < first then m.pages i else none
    dirtyPages := m.dirtyPages.filter fun i => i < first }

/-- `truncate_inode_pages`. -/
def truncateInodePages (ops : PageCacheOps σ) (m : PageCache σ) (newSize : Int) :
    Except Errno Unit × PageCache σ :=
  let n := newSize.toNat
  let m1 := m.detachFrom ((n + pageSize - 1) / pageSize)
  if n % pageSize = 0 then (.ok (), m1)
  else
    match readMappingPage ops m1 (n / pageSize) with
    | (.error e, m2) => (.error e, m2)
    | (.ok cp, m2) =>
      (.ok (), cachedPageMarkDirty (m2.setPage (n / pageSize)
        { cp with data := fill cp.data (n % pageSize) (pageSize - n % pageSize) 0 })
        (n / pageSize))

/-- The loop of `generic_file_read`: `size` bytes are left to copy and `out` are copied. The fuel
bounds the number of pages. -/
def fileReadLoop (ops : PageCacheOps σ) :
    Nat → PageCache σ → Nat → Nat → List UInt8 → Option Errno × List UInt8 × PageCache σ
  | 0, m, _, _, out => (none, out, m)
  | fuel + 1, m, size, pos, out =>
    if size = 0 then (none, out, m)
    else
      let off := pos % pageSize
      let nr := min (pageSize - off) size
      match readMappingPage ops m (pos / pageSize) with
      | (.error e, m1) => (some e, out, m1)
      | (.ok cp, m1) =>
        fileReadLoop ops fuel m1 (size - nr) (pos + nr) (out ++ slice cp.data off nr)

/-- `generic_file_read`: the bytes copied to the buffer. -/
def genericFileRead (ops : InodeOps σ) (m : PageCache σ) (size pos : Nat) :
    Except Errno (List UInt8) × PageCache σ :=
  let isize := ops.isize m.host
  if isize ≤ pos then (.ok [], m)
  else
    let size := if pos + size > isize then isize - pos else size
    match fileReadLoop ops.toPageCacheOps size m size pos [] with
    | (none, out, m1) => (.ok out, m1)
    | (some e, out, m1) => (if out.length > 0 then .ok out else .error e, m1)

/-- The page `generic_file_write` copies to at `pos`, after the copy: pages that are overwritten
as a whole are not read first. -/
def fileWritePage (ops : PageCacheOps σ) (m : PageCache σ) (buf : List UInt8) (pos : Nat) :
    Except Errno Unit × PageCache σ :=
  let index := pos / pageSize
  let off := pos % pageSize
  if off = 0 ∧ pageSize ≤ buf.length then
    match findOrCreatePage ops m index with
    | (none, m1) => (.error .enomem, m1)
    | (some cp, m1) =>
      (.ok (), m1.setPage index
        { cp with data := blit cp.data 0 pageSize (ofList buf), uptodate := true })
  else
    match readMappingPage ops m index with
    | (.error e, m1) => (.error e, m1)
    | (.ok cp, m1) =>
      (.ok (), m1.setPage index
        { cp with data := blit cp.data off (min (pageSize - off) buf.length) (ofList buf) })

/-- The loop of `generic_file_write`: `buf` is left to copy and `total` bytes are copied. The fuel
bounds the number of pages. -/
def fileWriteLoop (ops : InodeOps σ) :
    Nat → PageCache σ → List UInt8 → Nat → Nat → Option Errno × Nat × PageCache σ
  | 0, m, _, _, total => (none, total, m)
  | fuel + 1, m, buf, pos, total =>
    if buf.length = 0 then (none, total, m)
    else
      let nr := min (pageSize - pos % pageSize) buf.length
      match fileWritePage ops.toPageCacheOps m buf pos with
      | (.error e, m1) => (some e, total, m1)
      | (.ok (), m1) =>
        let m2 := cachedPageMarkDirty m1 (pos / pageSize)
        let m3 := if pos + nr > ops.isize m2.host
          then { m2 with host := ops.setIsize m2.host (pos + nr) } else m2
        fileWriteLoop ops fuel m3 (buf.drop nr) (pos + nr) (total + nr)

/-- `generic_file_write` at time `now`: the number of bytes written. -/
def genericFileWrite (ops : InodeOps σ) (now : Int) (m : PageCache σ) (buf : List UInt8)
    (pos : Nat) : Except Errno Nat × PageCache σ :=
  match fileWriteLoop ops buf.length m buf pos 0 with
  | (err, total, m1) =>
    let m2 := if total > 0 then { m1 with host := ops.touchMtime m1.host now } else m1
    match err with
    | none => (.ok total, m2)
    | some e => (if total > 0 then .ok total else .error e, m2)

end Model

end BrkKernel.Mm
